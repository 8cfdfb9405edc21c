import LanguageClient.Proofs.DocumentHistory
import Mathlib.Data.List.Induction
import Mathlib.Logic.Function.Basic
/-!
The texts of documents. A server that replays the notifications it is sent holds, for every document
that is open, the text that the caller gave last in a call that succeeded. So it is whatever edits mean,
as long as an edit without a range replaces the whole text, and whatever calls fail in between.
-/
namespace LanguageClient

namespace Rpc
open Json

/-- What a notification tells about the text of a document. -/
inductive Notice where
  | opened (uri text : String)
  | changed (uri : String) (events : List Value)
  | closed (uri : String)

/-- The texts of the changes that a notification carries. -/
def Notification.events? (n : Notification) : Option (List Value) :=
  (n.params.bind (·.get? "contentChanges")).bind Value.items?

def Notification.notice? (n : Notification) : Option Notice :=
  n.document?.bind fun uri =>
    if n.method = "textDocument/didOpen" then
      (n.textDocument?.bind (·.textAt? "text")).map (Notice.opened uri)
    else if n.method = "textDocument/didChange" then n.events?.map (Notice.changed uri)
    else if n.method = "textDocument/didClose" then some (.closed uri)
    else none

/-- Notices that read the same. -/
inductive Notice.Alike : Notice → Notice → Prop where
  | opened (uri text : String) : Alike (.opened uri text) (.opened uri text)
  | changed (uri : String) {vs ws : List Value} (h : List.Forall₂ Value.Alike vs ws) :
    Alike (.changed uri vs) (.changed uri ws)
  | closed (uri : String) : Alike (.closed uri) (.closed uri)

private theorem items_rel {v w : Value} (h : v.Alike w) :
    Option.Rel (List.Forall₂ Value.Alike) v.items? w.items? := by
  have ho := h.opening
  match v, w, ho with
  | .arr vs, .arr ws, _ => exact .some h.arr
  | .null, .null, _ => exact .none
  | .bool true, .bool true, _ => exact .none
  | .bool false, .bool false, _ => exact .none
  | .num _, .num _, _ => exact .none
  | .str _, .str _, _ => exact .none
  | .obj _, .obj _, _ => exact .none

private theorem events_rel {n m : Notification} (h : n.wire = m.wire) :
    Option.Rel (List.Forall₂ Value.Alike) n.events? m.events? := by
  have hchanges : Option.Rel Value.Alike (n.params.bind (·.get? "contentChanges"))
      (m.params.bind (·.get? "contentChanges")) :=
    rel_bind (fun _ _ h => h.get? "contentChanges") (Notification.wire_inj h).2
  unfold Notification.events?
  generalize n.params.bind (·.get? "contentChanges") = a at hchanges ⊢
  generalize m.params.bind (·.get? "contentChanges") = b at hchanges ⊢
  cases hchanges with
  | none => exact .none
  | some h => exact items_rel h

private theorem text_eq {n m : Notification} (h : n.wire = m.wire) :
    n.textDocument?.bind (·.textAt? "text") = m.textDocument?.bind (·.textAt? "text") := by
  have hrel := textDocument_rel h
  generalize n.textDocument? = a at hrel ⊢
  generalize m.textDocument? = b at hrel ⊢
  cases hrel with
  | none => rfl
  | some h => exact h.textAt? "text"

theorem notice_rel {n m : Notification} (h : n.wire = m.wire) :
    Option.Rel Notice.Alike n.notice? m.notice? := by
  unfold Notification.notice?
  rw [← (Notification.wire_inj h).1, ← document_eq h, ← text_eq h]
  cases n.document? with
  | none => exact .none
  | some uri =>
    simp only [Option.bind_some]
    split
    · cases n.textDocument?.bind (·.textAt? "text") with
      | none => exact .none
      | some text => exact .some (.opened uri text)
    split
    · have he := events_rel h
      generalize n.events? = a at he ⊢
      generalize m.events? = b at he ⊢
      cases he with
      | none => exact .none
      | some h => exact .some (.changed uri h)
    split
    · exact .some (.closed uri)
    · exact .none

end Rpc

namespace Client
open Relation Transport Rpc Json Session

/-- What the events of changes mean. A server reads their text, so that events with the same text mean
the same, and an event without a range replaces the whole document. -/
structure EditSemantics where
  edit : Value → String → String
  edit_alike : ∀ v w : Value, v.Alike w → edit v = edit w
  edit_whole : ∀ (v : Value) (text old : String), v.get? "range" = none →
    v.textAt? "text" = some text → edit v old = text

/-- The texts of the documents that are open, by their URIs. -/
abbrev Texts := String → Option String

variable (sem : EditSemantics)

/-- The events of one notification apply in order. -/
def EditSemantics.edits (events : List Value) (text : String) : String :=
  events.foldl (fun text v => sem.edit v text) text

/-- What a server makes of a notice. -/
def Notice.act (x : Notice) (texts : Texts) : Texts :=
  match x with
  | .opened uri text => Function.update texts uri (some text)
  | .changed uri events => Function.update texts uri ((texts uri).map (sem.edits events))
  | .closed uri => Function.update texts uri none

/-- A server that replays the notifications that the transport has accepted holds these texts. -/
inductive Replay : List Entry → Texts → Prop where
  | nil : Replay [] fun _ => none
  | notice {journal : List Entry} {texts : Texts} {e : Entry} {n : Notification} {x : Notice}
    (h : Replay journal texts) (he : e.accepted? = some n.wire) (hx : n.notice? = some x) :
    Replay (journal ++ [e]) (Notice.act sem x texts)
  | other {journal : List Entry} {texts : Texts} {e : Entry} (h : Replay journal texts)
    (he : ∀ n : Notification, e.accepted? = some n.wire → n.notice? = none) :
    Replay (journal ++ [e]) texts

variable {sem}

private theorem edits_alike {vs ws : List Value} (h : List.Forall₂ Value.Alike vs ws) :
    sem.edits vs = sem.edits ws := by
  funext text
  induction h generalizing text with
  | nil => rfl
  | @cons v w _ _ hv _ ih =>
    show sem.edits _ (sem.edit v text) = sem.edits _ (sem.edit w text)
    rw [sem.edit_alike v w hv]
    exact ih _

private theorem act_alike {x y : Notice} (h : x.Alike y) :
    Notice.act sem x = Notice.act sem y := by
  cases h with
  | opened uri text => rfl
  | changed uri h =>
    funext texts
    rw [Notice.act, Notice.act, edits_alike h]
  | closed uri => rfl

private theorem replay_concat {journal : List Entry} {e : Entry} {texts : Texts}
    (h : Replay sem (journal ++ [e]) texts) : ∃ before, Replay sem journal before ∧
      ((∃ n x, e.accepted? = some (Notification.wire n) ∧ n.notice? = some x ∧
          texts = Notice.act sem x before) ∨
        (∀ n : Notification, e.accepted? = some n.wire → n.notice? = none) ∧ texts = before) := by
  generalize hj : journal ++ [e] = all at h
  cases h with
  | nil => exact absurd hj (by simp)
  | notice h he hx =>
    obtain ⟨rfl, hlast⟩ := List.append_inj' hj rfl
    cases hlast
    exact ⟨_, h, .inl ⟨_, _, he, hx, rfl⟩⟩
  | other h he =>
    obtain ⟨rfl, hlast⟩ := List.append_inj' hj rfl
    cases hlast
    exact ⟨_, h, .inr ⟨he, rfl⟩⟩

/-- There is one way to replay a journal. -/
theorem Replay.unique {journal : List Entry} {texts other : Texts} (h : Replay sem journal texts)
    (k : Replay sem journal other) : other = texts := by
  induction h generalizing other with
  | nil =>
    generalize hj : ([] : List Entry) = all at k
    cases k with
    | nil => rfl
    | notice => exact absurd hj (by simp)
    | other => exact absurd hj (by simp)
  | @notice journal texts e n x h he hx ih =>
    obtain ⟨before, hb, ⟨m, y, hm, hy, rfl⟩ | ⟨hno, _⟩⟩ := replay_concat k
    · have hrel := notice_rel (Option.some.inj (hm.symm.trans he))
      rw [hx, hy] at hrel
      cases hrel with
      | some hxy => rw [ih hb, act_alike hxy]
    · exact absurd hx (by rw [hno n he]; nofun)
  | @other journal texts e h he ih =>
    obtain ⟨before, hb, ⟨m, y, hm, hy, rfl⟩ | ⟨_, rfl⟩⟩ := replay_concat k
    · exact absurd hy (by rw [he m hm]; nofun)
    · exact ih hb

/-- An entry that tells a server nothing about texts. -/
def Entry.Textless (e : Entry) : Prop := ∀ n : Notification, e.accepted? = some n.wire → n.notice? = none

theorem Entry.textless_of_accepted {e : Entry} (h : e.accepted? = none) : e.Textless := by
  intro n hn
  rw [h] at hn
  cases hn

theorem Entry.textless_of_unrelated {frame : String} (h : Unrelated frame) (taken : Option Nat) :
    (Entry.offered frame taken).Textless := by
  intro n hn
  have hm : n.method ∉ documentMethods := by
    cases taken with
    | none => cases hn
    | some g => exact h n (Option.some.inj hn)
  simp only [documentMethods, List.mem_cons, List.not_mem_nil, or_false, not_or] at hm
  unfold Notification.notice?
  cases n.document? with
  | none => rfl
  | some uri => simp [hm]

theorem Replay.textless {s t : State} {texts : Texts} (h : Replay sem s.journal texts)
    (hg : Grows Entry.Textless s t) : Replay sem t.journal texts := by
  obtain ⟨more, hj, hm⟩ := hg
  rw [hj]
  clear hj
  induction more using List.reverseRecOn with
  | nil => rwa [List.append_nil]
  | append_singleton more e ih =>
    obtain ⟨hmore, he⟩ := List.forall_mem_append.mp hm
    rw [← List.append_assoc]
    exact .other (ih hmore) (he e (List.mem_singleton_self e))

private theorem textless_step {s t : State} (h : Step Unrelated s t) : Grows Entry.Textless s t := by
  refine h.minor.journal.mono fun e he => ?_
  cases e with
  | offered frame taken => exact Entry.textless_of_unrelated he taken
  | _ => exact Entry.textless_of_accepted rfl

private theorem textless_switch {m : Move} {s t : State} (h : Switch (Reports m) s t) :
    Grows Entry.Textless s t := by
  refine h.journal.mono fun e he => Entry.textless_of_accepted ?_
  have hc := he.isOfConnection
  cases e <;> first | rfl | cases hc

/-- Apart from the moves of documents, and as long as users leave the notifications about documents to
the session, nothing is told about texts. -/
theorem Move.textless {m : Move} (hd : m.concernsDocuments = false) (hm : m.Sends Unrelated)
    {s : State} (hh : Heeds Unrelated s) : Grows Entry.Textless s (m.apply s) :=
  (m.shifts own_unrelated hd hm hh).keeps (Q := Grows Entry.Textless s)
    (fun _ _ h hs => hs.trans (textless_step h)) (fun _ _ h hs => hs.trans (textless_switch h)) (.refl s)

/-- What is known after a call: something new if it succeeded, and what was known if it failed. -/
def Texts.learn {α : Type} (known : Texts) (result : Outcome α) (new : α → Texts) : Texts :=
  match result with
  | .ok a => new a
  | .error _ => known

/-- What the caller knows of texts after a move, from what it gave and what it got back. A call that
failed tells it nothing, and neither does a change of a document that is not open. -/
def Move.account (s : State) (known : Texts) : Move → Texts
  | .didOpen item => known.learn (s.didOpen item).1 fun _ =>
    Function.update known item.uri.text (some item.text)
  | .openFile path contents => known.learn contents fun text =>
    known.learn (s.openFile path contents).1 fun uri => Function.update known uri.text (some text)
  | .didChange uri text edits => known.learn (s.didChange uri text edits).1 fun _ =>
    Function.update known uri.text ((known uri.text).map fun _ => text)
  | .didClose uri => known.learn (s.didClose uri).1 fun _ => Function.update known uri.text none
  | _ => known

/-- What the caller knows of texts at the end of a run. -/
def State.tally (s : State) (known : Texts) : List Move → Texts
  | [] => known
  | m :: moves => (m.apply s).tally (m.account s known) moves

/-- The document that a move changes, with its new text and the edits that lead to it. -/
def Move.change? : Move → Option (Uri × String × List ContentChange)
  | .didChange uri text edits => some (uri, text, edits)
  | _ => none

/-- The server takes changes, and the edits that come with a change of an open document, if any do, turn
the text known of it into the new one. -/
def Move.Faithful (sem : EditSemantics) (s : State) (known : Texts) (m : Move) : Prop :=
  ∀ change ∈ m.change?, s.session.syncKind ≠ .none ∧
    ∀ old ∈ known change.1.text, change.2.2 ≠ [] →
      sem.edits (change.2.2.map ContentChange.toValue) old = change.2.1

/-- Every call of a run is faithful when it is made. -/
def State.Faithful (sem : EditSemantics) (s : State) (known : Texts) : List Move → Prop
  | [] => True
  | m :: moves => m.Faithful sem s known ∧ (m.apply s).Faithful sem (m.account s known) moves

instance (s : State) (known : Texts) (m : Move) : Decidable (m.Faithful sem s known) :=
  inferInstanceAs (Decidable (∀ change ∈ m.change?, _ ∧ ∀ old ∈ known change.1.text, _ → _))

instance State.decidableFaithful (s : State) (known : Texts) :
    (moves : List Move) → Decidable (s.Faithful sem known moves)
  | [] => isTrue trivial
  | m :: moves =>
    have := State.decidableFaithful (m.apply s) (m.account s known) moves
    inferInstanceAs (Decidable (_ ∧ _))

private theorem Replay.told {α : Type} {s : State} {known : Texts} (h : Replay sem s.journal known)
    {method : String} {params : Option Value} {x : Notice}
    (hx : (Notification.new method params).notice? = some x) (a : α) {f : State → State}
    (hf : ∀ t, (f t).journal = t.journal) {r : Outcome α × State}
    (hr : r = match s.notify method params with
      | (.ok _, s) => ((.ok a : Outcome α), f s)
      | (.error e, s) => (.error e, s)) :
    Replay sem r.2.journal (known.learn r.1 fun _ => Notice.act sem x known) := by
  subst hr
  unfold State.notify
  obtain ⟨g, _, _, _, hsend⟩ | ⟨_, hsend⟩ := State.send_cases (Notification.new method params).wire s
  · rw [hsend]
    simp only [hf]
    exact h.notice rfl hx
  · rw [hsend]
    exact h.other fun n hn => by cases hn

private theorem notice_opened (item : TextItem) :
    (Notification.new "textDocument/didOpen" (some (didOpenParams item))).notice? =
      some (.opened item.uri.text item.text) := by
  rw [Notification.notice?, Notification.document?, openNotification_eq]
  rfl

private theorem notice_changed (uri : Uri) (version : Int) (changes : List ContentChange) :
    (Notification.new "textDocument/didChange"
      (some (didChangeParams uri version changes))).notice? =
      some (.changed uri.text (changes.map ContentChange.toValue)) := rfl

private theorem notice_closed (uri : Uri) :
    (Notification.new "textDocument/didClose" (some (didCloseParams uri))).notice? =
      some (.closed uri.text) := rfl

private theorem edits_shaped {kind : SyncKind} {text old : String} {edits changes : List ContentChange}
    (hshape : shapeChange kind text edits = some changes)
    (hedits : edits ≠ [] → sem.edits (edits.map ContentChange.toValue) old = text) :
    sem.edits (changes.map ContentChange.toValue) old = text := by
  have hwhole : sem.edits ([ContentChange.whole text].map ContentChange.toValue) old = text :=
    sem.edit_whole _ text old rfl rfl
  cases kind with
  | none => cases hshape
  | full =>
    cases hshape
    exact hwhole
  | incremental =>
    cases hshape
    split
    · exact hwhole
    · rename_i hne
      exact hedits fun h => hne (by rw [h]; rfl)

private theorem Replay.didOpen {s : State} {known : Texts} (h : Replay sem s.journal known)
    (item : TextItem) :
    Replay sem (s.didOpen item).2.journal (Move.account s known (.didOpen item)) :=
  h.told (notice_opened item) () (f := fun t => t.recordOpen item) (fun _ => rfl) rfl

private theorem Replay.didClose {s : State} {known : Texts} (h : Replay sem s.journal known)
    (uri : Uri) : Replay sem (s.didClose uri).2.journal (Move.account s known (.didClose uri)) :=
  h.told (notice_closed uri) () (f := fun t => t.modifySession fun c =>
    { c with documents := c.documents.closed uri.text }) (fun _ => rfl) rfl

private theorem Replay.openFile {s : State} {known : Texts} (h : Replay sem s.journal known)
    (path : String) (contents : Outcome String) :
    Replay sem (s.openFile path contents).2.journal
      (Move.account s known (.openFile path contents)) := by
  cases contents with
  | error e => exact h
  | ok text =>
    show Replay sem _ (known.learn (s.openFile path (.ok text)).1 fun uri =>
      Function.update known uri.text (some text))
    unfold State.openFile
    generalize Path.toUri path = address
    cases address with
    | error e => exact h
    | ok uri =>
      have hopen : Replay sem (s.didOpen ⟨uri, Path.detectLanguage path, 1, text⟩).2.journal
          (known.learn (s.didOpen ⟨uri, Path.detectLanguage path, 1, text⟩).1 fun _ =>
            Function.update known uri.text (some text)) :=
        h.didOpen ⟨uri, Path.detectLanguage path, 1, text⟩
      rcases hr : s.didOpen ⟨uri, Path.detectLanguage path, 1, text⟩ with ⟨r, t⟩
      rw [hr] at hopen
      simp only [hr]
      cases r <;> exact hopen

private theorem Replay.didChange {s : State} {known : Texts} (h : Replay sem s.journal known)
    {uri : Uri} {text : String} {edits : List ContentChange}
    (hf : Move.Faithful sem s known (.didChange uri text edits)) :
    Replay sem (s.didChange uri text edits).2.journal
      (Move.account s known (.didChange uri text edits)) := by
  obtain ⟨hkind, hedits⟩ := hf _ rfl
  cases hshape : shapeChange s.session.syncKind text edits with
  | none => exact absurd hshape (by unfold shapeChange; split <;> simp_all)
  | some changes =>
    have hact : Notice.act sem (.changed uri.text (changes.map ContentChange.toValue)) known =
        Function.update known uri.text ((known uri.text).map fun _ => text) := by
      rw [Notice.act]
      cases hold : known uri.text with
      | none => rfl
      | some old => rw [Option.map_some, Option.map_some, edits_shaped hshape (hedits old hold)]
    show Replay sem _ (known.learn (s.didChange uri text edits).1 fun _ =>
      Function.update known uri.text ((known uri.text).map fun _ => text))
    rw [← hact]
    have hwarned : Replay sem (s.forewarn uri.text).journal known := by
      obtain hsame | hwarn := s.forewarn_cases uri.text
      · rwa [hsame]
      · rw [hwarn]
        exact h.other (Entry.textless_of_accepted rfl)
    refine hwarned.told (notice_changed uri (s.nextVersion uri.text) changes)
      (some (s.nextVersion uri.text)) (f := fun t => t.recordChange uri (s.nextVersion uri.text))
      (fun _ => rfl) ?_
    rcases hsent : (s.forewarn uri.text).notify "textDocument/didChange"
      (some (didChangeParams uri (s.nextVersion uri.text) changes)) with ⟨_ | _, t⟩
    all_goals simp only [didChange_eq, hshape, hsent]

private theorem Replay.completeShutdown {s : State} {known : Texts} (h : Replay sem s.journal known)
    (outcome : Outcome Value) : Replay sem (s.completeShutdown outcome).2.journal known := by
  have hexit (s : State) (h : Replay sem s.journal known) :
      Replay sem (((s.notify "exit" none).2.modifySession fun c => { c with
        lifecycle := .shutdown, documents := [] }).record .shutDown).journal known := by
    have hsent : Replay sem (s.notify "exit" none).2.journal known :=
      h.textless (textless_step (.send _ s (own_unrelated.notification "exit" none (by decide) (by decide)
        (by decide))))
    exact hsent.other (Entry.textless_of_accepted rfl)
  cases outcome with
  | ok _ => exact hexit s h
  | error e => exact hexit _ (h.other (Entry.textless_of_accepted rfl))

/-- A faithful move keeps the server in step with what the caller knows. -/
theorem Replay.move {m : Move} {s : State} {known : Texts} (h : Replay sem s.journal known)
    (hm : m.Sends Unrelated) (hf : m.Faithful sem s known) (hh : Heeds Unrelated s) :
    Replay sem (m.apply s).journal (m.account s known) := by
  by_cases hd : m.concernsDocuments = true
  · cases m with
    | didOpen item => exact h.didOpen item
    | openFile path contents => exact h.openFile path contents
    | didChange uri text edits => exact h.didChange hf
    | didClose uri => exact h.didClose uri
    | completeShutdown outcome => exact h.completeShutdown outcome
    | _ => cases hd
  · have hknown : m.account s known = known := by
      cases m <;> first | rfl | exact absurd rfl hd
    rw [hknown]
    exact h.textless (m.textless (by simpa using hd) hm hh)

theorem replay_new (layer : Layer) (options : Transport.Options) (timeout : Nat) :
    Replay sem (State.new layer options timeout).journal fun _ => none := by
  cases layer <;> exact .nil

/-- A faithful run keeps the server in step with what the caller knows. -/
theorem Replay.after {moves : List Move} {s : State} {known : Texts} (h : Replay sem s.journal known)
    (own : ∀ m ∈ moves, m.Sends Unrelated) (hf : s.Faithful sem known moves)
    (hh : Heeds Unrelated s) : Replay sem (s.after moves).journal (s.tally known moves) := by
  induction moves generalizing s known with
  | nil => exact h
  | cons m moves ih =>
    have hm := own m List.mem_cons_self
    exact ih (h.move hm hf.1 hh) (fun k hk => own k (List.mem_cons_of_mem m hk)) hf.2
      (hh.move own_unrelated hm)

/-- A server that replays the notifications it was sent holds what the caller knows: a text for each
document that was opened and not closed since, and it is the one that the caller gave in the last call
on it that succeeded. The edits that come with changes must lead from one text to the other, as far as
there are any, and users must leave the notifications about documents to the session; what fails, when
the connection ends and comes back, and what else happens does not matter. And if the server takes no
changes, a change does nothing at all. -/
theorem server_holds_known_texts (sem : EditSemantics) (layer : Layer) (options : Transport.Options)
    (timeout : Nat) (moves : List Move) (own : ∀ m ∈ moves, m.Sends Unrelated)
    (faithful : (State.new layer options timeout).Faithful sem (fun _ => none) moves) :
    let start := State.new layer options timeout
    (∀ texts, Replay sem (start.after moves).journal texts ↔
      texts = start.tally (fun _ => none) moves) ∧
    ∀ (s : State) (uri : Uri) (text : String) (edits : List ContentChange),
      s.session.syncKind = .none → s.didChange uri text edits = (.ok none, s) := by
  intro start
  have hreplay : Replay sem (start.after moves).journal (start.tally (fun _ => none) moves) :=
    (replay_new layer options timeout).after own faithful (heeds_new layer options timeout)
  refine ⟨fun texts => ⟨hreplay.unique, ?_⟩, fun s uri text edits hkind => ?_⟩
  · rintro rfl
    exact hreplay
  · rw [State.didChange, hkind]
    rfl

/-- Edits with a range add to the end of a document. -/
def appending : EditSemantics where
  edit v old :=
    if (v.get? "range").isSome then old ++ (v.textAt? "text").getD ""
    else (v.textAt? "text").getD old
  edit_alike v w h := by
    have hrange : (v.get? "range").isSome = (w.get? "range").isSome := by
      have hrel := h.get? "range"
      generalize v.get? "range" = a at hrel ⊢
      generalize w.get? "range" = b at hrel ⊢
      cases hrel <;> rfl
    rw [hrange, h.textAt? "text"]
  edit_whole v text old hrange htext := by rw [hrange, htext]; rfl

def draft : Uri := ⟨"draft", by decide⟩

def addition (text : String) : ContentChange := ⟨some (.obj []), none, text⟩

/-- The server takes edits. A document is opened and changed; a change fails while there is no
connection, and the next one starts from the text before it. -/
def drafting : List Move :=
  [.connect, .found 1 0, .completeInitialize (.ok (.obj [("capabilities",
      .obj [("textDocumentSync", .int 2)])])),
    .didOpen ⟨draft, "rust", 1, "a"⟩, .didChange draft "ab" [addition "b"], .disconnect,
    .didChange draft "abc" [addition "c"], .connect, .found 2 1,
    .didChange draft "abd" [addition "d"]]

private theorem drafting_unrelated : ∀ m ∈ drafting, m.Sends Unrelated := by
  simp [drafting, Move.Sends]

private theorem drafting_faithful :
    (State.new .session .standard 30000).Faithful appending (fun _ => none) drafting := by
  decide +kernel

theorem server_holds_draft :
    (∀ m ∈ drafting, m.Sends Unrelated) ∧
    (State.new .session .standard 30000).Faithful appending (fun _ => none) drafting ∧
    ∃ texts, Replay appending ((State.new .session .standard 30000).after drafting).journal texts ∧
      texts "draft" = some "abd" :=
  ⟨drafting_unrelated, drafting_faithful, _,
    ((server_holds_known_texts appending .session .standard 30000 drafting drafting_unrelated
      drafting_faithful).1 _).mpr rfl, by decide +kernel⟩

end Client

end LanguageClient
