import LanguageClient.Proofs.Anatomy
import LanguageClient.Proofs.UniqueReading
/-!
The documents of a session and the notifications about them. What a session tracks is what the frames
that the transport accepted say: no more, no less, and in the same order. Refused frames, frames about
other documents and everything that happens to connections leave it as it is.
-/
namespace LanguageClient

namespace Rpc
open Json

/-- What a notification says about a document. -/
def Notification.textDocument? (n : Notification) : Option Value :=
  n.params.bind (·.get? "textDocument")

/-- The document that a notification is about, by the text of its URI. -/
def Notification.document? (n : Notification) : Option String :=
  n.textDocument?.bind (·.textAt? "uri")

def Notification.version? (n : Notification) : Option Value :=
  n.textDocument?.bind (·.get? "version")

/-- The frame is the text of a notification of that method about a document. -/
def Announces (method uri frame : String) : Prop :=
  ∃ n : Notification, frame = n.wire ∧ n.method = method ∧ n.document? = some uri

/-- The frame is the text of a notification of that method about a version of a document. -/
def AnnouncesVersion (method uri : String) (version : Int) (frame : String) : Prop :=
  ∃ n : Notification, frame = n.wire ∧ n.method = method ∧ n.document? = some uri ∧
    n.version? = some (.int version)

theorem rel_bind {f : Value → Option Value}
    (hf : ∀ v w : Value, v.Alike w → Option.Rel Value.Alike (f v) (f w)) {a b : Option Value}
    (h : Option.Rel Value.Alike a b) : Option.Rel Value.Alike (a.bind f) (b.bind f) := by
  cases h with
  | none => exact .none
  | some h => exact hf _ _ h

theorem textDocument_rel {n m : Notification} (h : n.wire = m.wire) :
    Option.Rel Value.Alike n.textDocument? m.textDocument? :=
  rel_bind (fun _ _ h => h.get? "textDocument") (Notification.wire_inj h).2

theorem document_eq {n m : Notification} (h : n.wire = m.wire) :
    n.document? = m.document? := by
  have hrel := textDocument_rel h
  unfold Notification.document?
  generalize n.textDocument? = a at hrel ⊢
  generalize m.textDocument? = b at hrel ⊢
  cases hrel with
  | none => rfl
  | some h => exact h.textAt? "uri"

private theorem version_eq {n m : Notification} {v w : Int} (h : n.wire = m.wire)
    (hv : n.version? = some (.int v)) (hw : m.version? = some (.int w)) : v = w := by
  have hrel : Option.Rel Value.Alike n.version? m.version? :=
    rel_bind (fun _ _ h => h.get? "version") (textDocument_rel h)
  rw [hv, hw] at hrel
  cases hrel with
  | some h => exact h.int

theorem AnnouncesVersion.announces {method uri frame : String} {v : Int}
    (h : AnnouncesVersion method uri v frame) : Announces method uri frame := by
  obtain ⟨n, hn, hm, hd, _⟩ := h
  exact ⟨n, hn, hm, hd⟩

theorem announces_wire {n : Notification} {method uri : String} :
    Announces method uri n.wire ↔ n.method = method ∧ n.document? = some uri := by
  constructor
  · rintro ⟨m, hw, hm, hd⟩
    exact ⟨(Notification.wire_inj hw).1.trans hm, (document_eq hw).trans hd⟩
  · exact fun h => ⟨n, rfl, h⟩

theorem announcesVersion_wire {n : Notification} {method uri : String} {v w : Int}
    (hv : n.version? = some (.int v)) :
    AnnouncesVersion method uri w n.wire ↔ n.method = method ∧ n.document? = some uri ∧ w = v := by
  constructor
  · rintro ⟨m, hw, hm, hd, hver⟩
    exact ⟨(Notification.wire_inj hw).1.trans hm, (document_eq hw).trans hd,
      (version_eq hw hv hver).symm⟩
  · rintro ⟨hm, hd, rfl⟩
    exact ⟨n, rfl, hm, hd, hv⟩

end Rpc

namespace Client
open Relation Transport Rpc Json Session

def Entry.accepted? : Entry → Option String
  | .offered frame (some _) => some frame
  | _ => none

def Entry.Opens (uri : String) (version : Int) (e : Entry) : Prop :=
  ∃ frame ∈ e.accepted?, AnnouncesVersion "textDocument/didOpen" uri version frame

def Entry.Changes (uri : String) (version : Int) (e : Entry) : Prop :=
  ∃ frame ∈ e.accepted?, AnnouncesVersion "textDocument/didChange" uri version frame

/-- The document is closed, or the whole session ends. -/
def Entry.Forgets (uri : String) (e : Entry) : Prop :=
  (∃ frame ∈ e.accepted?, Announces "textDocument/didClose" uri frame) ∨ e = .shutDown

def Entry.Concerns (uri : String) (e : Entry) : Prop :=
  (∃ v, e.Opens uri v) ∨ (∃ v, e.Changes uri v) ∨ e.Forgets uri

/-- The last notification about a document is of its opening or of a change, at that version. -/
def LastAt (uri : String) (version : Int) (journal : List Entry) : Prop :=
  ∃ before e after, journal = before ++ e :: after ∧ (e.Opens uri version ∨ e.Changes uri version) ∧
    ∀ x ∈ after, ¬ x.Concerns uri

/-- The document changes so many times, and nothing else concerns it. -/
inductive ChangedTimes (uri : String) : List Entry → Nat → Prop where
  | none : ChangedTimes uri [] 0
  | change {journal : List Entry} {k : Nat} {e : Entry} {version : Int}
    (h : ChangedTimes uri journal k) (he : e.Changes uri version) :
    ChangedTimes uri (journal ++ [e]) (k + 1)
  | other {journal : List Entry} {k : Nat} {e : Entry} (h : ChangedTimes uri journal k)
    (he : ¬ e.Concerns uri) : ChangedTimes uri (journal ++ [e]) k

/-- A change follows the version before it, and is the first of a document that was not open. -/
def Succeeds (uri : String) (version : Int) (before : List Entry) : Prop :=
  (∀ v, LastAt uri v before → version = v + 1) ∧ ((∀ v, ¬ LastAt uri v before) → version = 1)

theorem concat_split {α : Type} {xs before after : List α} {x y : α}
    (h : xs ++ [y] = before ++ x :: after) :
    (before = xs ∧ x = y ∧ after = []) ∨ ∃ rest, after = rest ++ [y] ∧ xs = before ++ x :: rest := by
  rcases List.eq_nil_or_concat after with rfl | ⟨rest, z, rfl⟩
  · obtain ⟨h1, h2⟩ := List.append_inj' h rfl
    exact .inl ⟨h1.symm, (List.cons.inj h2).1.symm, rfl⟩
  · have h' : xs ++ [y] = before ++ x :: rest ++ [z] := by simpa using h
    obtain ⟨h1, h2⟩ := List.append_inj' h' rfl
    exact .inr ⟨rest, by rw [List.concat_eq_append, h2], h1⟩

theorem lastAt_concat {uri : String} {v : Int} {journal : List Entry} {e : Entry} :
    LastAt uri v (journal ++ [e]) ↔
      (e.Opens uri v ∨ e.Changes uri v) ∨ LastAt uri v journal ∧ ¬ e.Concerns uri := by
  constructor
  · rintro ⟨before, x, after, hj, hx, ha⟩
    rcases concat_split hj with ⟨_, rfl, _⟩ | ⟨rest, rfl, rfl⟩
    · exact .inl hx
    · obtain ⟨hrest, he⟩ := List.forall_mem_append.mp ha
      exact .inr ⟨⟨before, x, rest, rfl, hx, hrest⟩, he e (List.mem_singleton_self e)⟩
  · rintro (he | ⟨⟨before, x, after, rfl, hx, ha⟩, he⟩)
    · exact ⟨journal, e, [], rfl, he, fun _ h => absurd h List.not_mem_nil⟩
    · refine ⟨before, x, after ++ [e], by simp, hx, ?_⟩
      exact List.forall_mem_append.mpr ⟨ha, List.forall_mem_singleton.mpr he⟩

theorem lastAt_other {uri : String} {v : Int} {journal : List Entry} {e : Entry}
    (he : ¬ e.Concerns uri) : LastAt uri v (journal ++ [e]) ↔ LastAt uri v journal := by
  rw [lastAt_concat]
  constructor
  · rintro ((h | h) | h)
    · exact absurd (.inl ⟨v, h⟩) he
    · exact absurd (.inr (.inl ⟨v, h⟩)) he
    · exact h.1
  · exact fun h => .inr ⟨h, he⟩

theorem Entry.concerns_of_plain {e : Entry} (ha : e.accepted? = none) (hs : e ≠ .shutDown)
    (uri : String) : ¬ e.Concerns uri := by
  have hnone : ∀ {p : String → Prop}, ¬ ∃ frame ∈ e.accepted?, p frame := by
    rintro p ⟨frame, hf, _⟩
    rw [ha] at hf
    cases hf
  rintro (⟨_, h⟩ | ⟨_, h⟩ | h | h)
  · exact hnone h
  · exact hnone h
  · exact hnone h
  · exact hs h

/-- The methods that open, change and close documents. -/
def documentMethods : List String :=
  ["textDocument/didOpen", "textDocument/didChange", "textDocument/didClose"]

/-- Frames that are no notifications about opening, changing or closing documents. -/
def Unrelated (frame : String) : Prop :=
  ∀ n : Notification, frame = n.wire → n.method ∉ documentMethods

theorem Unrelated.announces {frame method uri : String} (h : Unrelated frame)
    (hm : method ∈ documentMethods) : ¬ Announces method uri frame := by
  rintro ⟨n, hn, rfl, _⟩
  exact h n hn hm

/-- What the client sends on its own account opens, changes and closes no documents. -/
theorem own_unrelated : Own Unrelated where
  request r n h := absurd h (r.wire_ne_notification n)
  notification method params ho hc hd n h := by
    rw [← (Notification.wire_inj h).1]
    simp [documentMethods, ho, hc, hd, Notification.new]

private theorem Unrelated.concerns {frame : String} (h : Unrelated frame) (taken : Option Nat)
    (uri : String) : ¬ (Entry.offered frame taken).Concerns uri := by
  cases taken with
  | none => exact Entry.concerns_of_plain (e := .offered frame none) rfl nofun uri
  | some g =>
    rintro (⟨_, f, hf, ha⟩ | ⟨_, f, hf, ha⟩ | ⟨f, hf, ha⟩ | hs)
    · exact h.announces (by decide) ((Option.some.inj hf) ▸ ha.announces)
    · exact h.announces (by decide) ((Option.some.inj hf) ▸ ha.announces)
    · exact h.announces (by decide) ((Option.some.inj hf) ▸ ha)
    · cases hs

/-- Nothing that concerns documents has been told or has changed. -/
structure Elsewhere (s t : State) : Prop where
  documents : t.session.documents = s.session.documents
  journal : Grows (fun e => ∀ uri, ¬ e.Concerns uri) s t

theorem Elsewhere.of_eq {s t : State} (documents : t.session.documents = s.session.documents)
    (journal : t.journal = s.journal) : Elsewhere s t := ⟨documents, .of_eq journal⟩

theorem Elsewhere.trans {s t u : State} (h : Elsewhere s t) (k : Elsewhere t u) : Elsewhere s u :=
  ⟨k.documents.trans h.documents, h.journal.trans k.journal⟩

theorem elsewhere_record {e : Entry} (ha : e.accepted? = none) (hs : e ≠ .shutDown)
    (s : State) : Elsewhere s (s.record e) := ⟨rfl, grows_record (Entry.concerns_of_plain ha hs) s⟩

private theorem elsewhere_step {s t : State} (h : Step Unrelated s t) : Elsewhere s t := by
  refine ⟨h.minor.documents, h.minor.journal.mono fun e he => ?_⟩
  cases e with
  | offered frame taken => exact Unrelated.concerns he taken
  | shutDown => cases he
  | _ => exact Entry.concerns_of_plain rfl nofun

theorem elsewhere_warn (text : String) (s : State) : Elsewhere s (s.warn text) :=
  elsewhere_record (e := .note ⟨.warn, text⟩) rfl (by simp) s

private theorem elsewhere_exit (s : State) : Elsewhere s (s.notify "exit" none).2 :=
  elsewhere_step (.send _ s (own_unrelated.notification "exit" none (by decide) (by decide)
    (by decide)))

private theorem elsewhere_switch {m : Move} {s t : State} (h : Switch (Reports m) s t) :
    Elsewhere s t := by
  refine ⟨h.documents, h.journal.mono fun e he => Entry.concerns_of_plain ?_ ?_⟩
  · have hc := he.isOfConnection
    cases e <;> first | rfl | cases hc
  · rintro rfl
    exact absurd he.isOfConnection (by decide)

/-- Apart from the moves of documents, and as long as users leave the notifications about documents to
the session, everything happens elsewhere. -/
theorem Move.elsewhere {m : Move} (hd : m.concernsDocuments = false) (hm : m.Sends Unrelated)
    {s : State} (hh : Heeds Unrelated s) : Elsewhere s (m.apply s) :=
  (m.shifts own_unrelated hd hm hh).keeps (Q := Elsewhere s)
    (fun _ _ h hs => hs.trans (elsewhere_step h)) (fun _ _ h hs => hs.trans (elsewhere_switch h))
    (.of_eq rfl rfl)

/-- The session tracks what the accepted frames say, and every change that was accepted carries the
version that was due. -/
structure Mirrors (s : State) : Prop where
  tracked : ∀ uri v, (s.session.documents.get? uri).map Document.version = some v ↔
    LastAt uri v s.journal
  counted : ∀ uri version before e after, s.journal = before ++ e :: after →
    e.Changes uri version → Succeeds uri version before

theorem Mirrors.concat {s t : State} (hs : Mirrors s) {e : Entry}
    (journal : t.journal = s.journal ++ [e])
    (tracked : ∀ uri v, (t.session.documents.get? uri).map Document.version = some v ↔
      (e.Opens uri v ∨ e.Changes uri v) ∨
        (s.session.documents.get? uri).map Document.version = some v ∧ ¬ e.Concerns uri)
    (counted : ∀ uri version, e.Changes uri version → Succeeds uri version s.journal) :
    Mirrors t where
  tracked uri v := by rw [tracked, journal, lastAt_concat, hs.tracked]
  counted uri version before x after hj hx := by
    rw [journal] at hj
    rcases concat_split hj with ⟨rfl, rfl, _⟩ | ⟨rest, rfl, hrest⟩
    · exact counted uri version hx
    · exact hs.counted uri version before x rest hrest hx

theorem Mirrors.elsewhere {s t : State} (hs : Mirrors s) (h : Elsewhere s t) : Mirrors t := by
  obtain ⟨documents, more, journal, hm⟩ := h
  induction more generalizing s with
  | nil =>
    rw [List.append_nil] at journal
    exact ⟨by rw [documents, journal]; exact hs.tracked, by rw [journal]; exact hs.counted⟩
  | cons e more ih =>
    have he := hm e List.mem_cons_self
    have h1 : Mirrors (s.record e) := by
      refine hs.concat rfl (fun uri v => ?_) fun uri version h =>
        absurd (.inr (.inl ⟨version, h⟩)) (he uri)
      constructor
      · exact fun h => .inr ⟨h, he uri⟩
      · rintro ((h | h) | h)
        · exact absurd (.inl ⟨v, h⟩) (he uri)
        · exact absurd (.inr (.inl ⟨v, h⟩)) (he uri)
        · exact h.1
    refine ih h1 documents ?_ fun d hd => hm d (List.mem_cons_of_mem e hd)
    rw [journal, State.record, List.append_assoc]
    rfl

section Accepted
variable {n : Notification} {g : Nat} {uri : String}

theorem accepted_iff {frame : String} {p : String → Prop} :
    (∃ f ∈ (Entry.offered frame (some g)).accepted?, p f) ↔ p frame := by
  simp [Entry.accepted?]

theorem concerned_document (h : (Entry.offered n.wire (some g)).Concerns uri) :
    n.document? = some uri := by
  obtain ⟨v, h⟩ | ⟨v, h⟩ | h | h := h
  · exact (announces_wire.mp (accepted_iff.mp h).announces).2
  · exact (announces_wire.mp (accepted_iff.mp h).announces).2
  · exact (announces_wire.mp (accepted_iff.mp h)).2
  · cases h

theorem opens_method {v : Int} (h : (Entry.offered n.wire (some g)).Opens uri v) :
    n.method = "textDocument/didOpen" := (announces_wire.mp (accepted_iff.mp h).announces).1

theorem changes_method {v : Int} (h : (Entry.offered n.wire (some g)).Changes uri v) :
    n.method = "textDocument/didChange" := (announces_wire.mp (accepted_iff.mp h).announces).1

theorem opens_wire {v w : Int} (hv : n.version? = some (.int v)) :
    (Entry.offered n.wire (some g)).Opens uri w ↔
      n.method = "textDocument/didOpen" ∧ n.document? = some uri ∧ w = v := by
  rw [Entry.Opens, accepted_iff, announcesVersion_wire hv]

theorem changes_wire {v w : Int} (hv : n.version? = some (.int v)) :
    (Entry.offered n.wire (some g)).Changes uri w ↔
      n.method = "textDocument/didChange" ∧ n.document? = some uri ∧ w = v := by
  rw [Entry.Changes, accepted_iff, announcesVersion_wire hv]

end Accepted

private theorem Mirrors.refused {s : State} (hs : Mirrors s) (frame : String) :
    Mirrors (s.record (.offered frame none)) :=
  hs.elsewhere (elsewhere_record rfl (by simp) s)

private theorem Mirrors.versioned {s t : State} (hs : Mirrors s) {n : Notification} {g : Nat}
    (uri : String) (version : Int) (journal : t.journal = s.journal ++ [.offered n.wire (some g)])
    (document : n.document? = some uri) (hv : n.version? = some (.int version))
    (method : n.method = "textDocument/didOpen" ∨ n.method = "textDocument/didChange" ∧
      Succeeds uri version s.journal)
    (tracked : ∀ u, (t.session.documents.get? u).map Document.version =
      if uri = u then some version else (s.session.documents.get? u).map Document.version) :
    Mirrors t := by
  have hat : ∀ u v, ((Entry.offered n.wire (some g)).Opens u v ∨
      (Entry.offered n.wire (some g)).Changes u v) ↔ uri = u ∧ v = version := by
    intro u v
    rw [opens_wire hv, changes_wire hv, document, Option.some.injEq]
    constructor
    · rintro (⟨_, h⟩ | ⟨_, h⟩) <;> exact h
    · exact fun h => method.imp (⟨·, h⟩) (⟨·.1, h⟩)
  refine hs.concat journal (fun u v => ?_) fun u w h => ?_
  · rw [tracked, hat]
    split
    · rename_i hu
      have hc : (Entry.offered n.wire (some g)).Concerns u :=
        ((hat u version).mpr ⟨hu, rfl⟩).elim (fun h => .inl ⟨version, h⟩)
          fun h => .inr (.inl ⟨version, h⟩)
      constructor
      · exact fun h => .inl ⟨hu, (Option.some.inj h).symm⟩
      · rintro (⟨_, rfl⟩ | ⟨_, h⟩)
        · rfl
        · exact absurd hc h
    · rename_i hu
      constructor
      · refine fun h => .inr ⟨h, fun hc => hu ?_⟩
        exact Option.some.inj (document.symm.trans (concerned_document hc))
      · rintro (⟨h, _⟩ | ⟨h, _⟩)
        · exact absurd h hu
        · exact h
  · obtain ⟨rfl, rfl⟩ := (hat u w).mp (.inr h)
    rcases method with hm | ⟨_, hm⟩
    · rw [changes_method h] at hm
      exact absurd hm (by decide)
    · exact hm

private theorem Mirrors.forgotten {s t : State} (hs : Mirrors s) {e : Entry}
    (journal : t.journal = s.journal ++ [e]) (hopen : ∀ u v, ¬ e.Opens u v)
    (hchange : ∀ u v, ¬ e.Changes u v)
    (tracked : ∀ u, (e.Concerns u → t.session.documents.get? u = none) ∧
      (¬ e.Concerns u → t.session.documents.get? u = s.session.documents.get? u)) :
    Mirrors t := by
  refine hs.concat journal (fun u v => ?_) fun u w h => absurd h (hchange u w)
  by_cases hu : e.Concerns u
  · rw [(tracked u).1 hu]
    constructor
    · exact nofun
    · rintro ((h | h) | ⟨_, h⟩)
      · exact absurd h (hopen u v)
      · exact absurd h (hchange u v)
      · exact absurd hu h
  · rw [(tracked u).2 hu]
    constructor
    · exact fun h => .inr ⟨h, hu⟩
    · rintro ((h | h) | ⟨h, _⟩)
      · exact absurd h (hopen u v)
      · exact absurd h (hchange u v)
      · exact h

private theorem insert_before {k l : String} (h : k < l) (v w : Value) (fs : Fields) :
    Fields.insert k v ((l, w) :: fs) = (k, v) :: (l, w) :: fs := if_pos h

private theorem insert_after {k l : String} (h : ¬ k < l) (hne : k ≠ l) (v w : Value)
    (fs : Fields) : Fields.insert k v ((l, w) :: fs) = (l, w) :: Fields.insert k v fs :=
  (if_neg h).trans (if_neg hne)

private theorem toValue_eq (item : TextItem) :
    item.toValue = .obj [("languageId", .str item.languageId), ("text", .str item.text),
      ("uri", .str item.uri.text), ("version", .int item.version)] := by
  rw [TextItem.toValue, Value.object, Fields.ofList]
  simp only [List.foldl_cons, List.foldl_nil, Fields.insert.eq_1]
  rw [insert_before (by decide), insert_after (k := "version") (by decide) (by decide),
    insert_after (k := "version") (by decide) (by decide), Fields.insert.eq_1,
    insert_after (by decide) (by decide), insert_before (by decide)]

theorem openNotification_eq (item : TextItem) :
    (Notification.new "textDocument/didOpen" (some (didOpenParams item))).textDocument? =
      some (.obj [("languageId", .str item.languageId), ("text", .str item.text),
        ("uri", .str item.uri.text), ("version", .int item.version)]) := by
  rw [← toValue_eq]
  rfl

theorem openNotification_document (item : TextItem) :
    (Notification.new "textDocument/didOpen" (some (didOpenParams item))).document? =
      some item.uri.text := by
  rw [Notification.document?, openNotification_eq]
  rfl

theorem openNotification_version (item : TextItem) :
    (Notification.new "textDocument/didOpen" (some (didOpenParams item))).version? =
      some (.int item.version) := by
  rw [Notification.version?, openNotification_eq]
  rfl

private theorem Mirrors.didOpen {s : State} (hs : Mirrors s) (item : TextItem) :
    Mirrors (s.didOpen item).2 := by
  rw [State.didOpen, State.announceOpen, State.notify]
  obtain ⟨g, _, _, _, h⟩ | ⟨_, h⟩ := State.send_cases
    (Notification.new "textDocument/didOpen" (some (didOpenParams item))).wire s
  · rw [h]
    refine hs.versioned item.uri.text item.version rfl (openNotification_document item)
      (openNotification_version item) (.inl rfl) fun u => ?_
    change (Keyed.get? (s.session.documents.put item.uri.text _) u).map _ = _
    rw [Keyed.get?_put]
    split <;> rfl
  · rw [h]
    exact hs.refused _

private theorem Mirrors.openFile {s : State} (hs : Mirrors s) (path : String)
    (contents : Outcome String) : Mirrors (s.openFile path contents).2 := by
  unfold State.openFile
  split
  · exact hs
  · exact hs
  · rename_i text uri _
    have h := hs.didOpen ⟨uri, Path.detectLanguage path, 1, text⟩
    split <;> rename_i hd <;> rw [hd] at h <;> exact h

/-- The version that the next change of a document carries. -/
def State.nextVersion (uri : String) (s : State) : Int :=
  (s.session.documents.nextVersion? uri).getD 1

theorem State.nextVersion_of_version {uri : String} {s : State} {v : Int}
    (h : (s.session.documents.get? uri).map Document.version = some v) :
    s.nextVersion uri = v + 1 := by
  obtain ⟨d, hd, rfl⟩ := Option.map_eq_some_iff.mp h
  rw [nextVersion, Documents.nextVersion?, hd]
  rfl

/-- The change of a document that is not tracked is warned of first. -/
def State.forewarn (uri : String) (s : State) : State :=
  match s.session.documents.nextVersion? uri with
  | some _ => s
  | none => s.warn "change for a document that was never opened"

theorem State.forewarn_cases (uri : String) (s : State) :
    s.forewarn uri = s ∨ s.forewarn uri = s.warn "change for a document that was never opened" := by
  rw [forewarn]
  split
  · exact .inl rfl
  · exact .inr rfl

@[simp] theorem State.forewarn_session (uri : String) (s : State) :
    (s.forewarn uri).session = s.session := by
  obtain h | h := s.forewarn_cases uri
  · rw [h]
  · rw [h]
    rfl

@[simp] theorem State.forewarn_transport (uri : String) (s : State) :
    (s.forewarn uri).transport = s.transport := by
  obtain h | h := s.forewarn_cases uri
  · rw [h]
  · rw [h]
    rfl

theorem elsewhere_forewarn (uri : String) (s : State) : Elsewhere s (s.forewarn uri) := by
  obtain h | h := s.forewarn_cases uri <;> rw [h]
  · exact .of_eq rfl rfl
  · exact elsewhere_warn _ s

/-- A change that the server takes is sent at the version that is due. -/
theorem didChange_eq (uri : Uri) (text : String) (edits : List ContentChange) (s : State) :
    s.didChange uri text edits =
      match shapeChange s.session.syncKind text edits with
      | none => (.ok none, s)
      | some changes =>
        match (s.forewarn uri.text).notify "textDocument/didChange"
          (some (didChangeParams uri (s.nextVersion uri.text) changes)) with
        | (.ok _, t) =>
          (.ok (some (s.nextVersion uri.text)), t.recordChange uri (s.nextVersion uri.text))
        | (.error e, t) => (.error e, t) := by
  rw [State.didChange, State.forewarn, State.nextVersion]
  cases s.session.documents.nextVersion? uri.text <;> rfl

private theorem Mirrors.succeeds {s : State} (hs : Mirrors s) (uri : String) :
    Succeeds uri (s.nextVersion uri) s.journal := by
  constructor
  · exact fun v h => State.nextVersion_of_version ((hs.tracked uri v).mpr h)
  · intro h
    cases hd : s.session.documents.get? uri with
    | none => rw [State.nextVersion, Documents.nextVersion?, hd]; rfl
    | some d => exact absurd ((hs.tracked uri d.version).mp (by rw [hd]; rfl)) (h d.version)

/-- A change brings its document to its version. The language of a document that was tracked is left, and
is that of the URI otherwise. -/
theorem recordChange_document (uri : Uri) (version : Int) (s : State) (u : String) :
    (s.recordChange uri version).session.documents.get? u =
      if uri.text = u then
        some ⟨((s.session.documents.get? u).map Document.languageId).getD (Path.detectLanguage u), version⟩
      else s.session.documents.get? u := by
  simp only [State.recordChange, State.modifySession]
  split
  · rename_i hin
    rw [Documents.withVersion, Keyed.get?_modify]
    split
    · rename_i hu
      rw [Keyed.contains, hu] at hin
      obtain ⟨d, hd⟩ := Option.isSome_iff_exists.mp hin
      rw [hd]
      rfl
    · rfl
  · rename_i hout
    rw [Documents.opened, Keyed.get?_put]
    split
    · rename_i hu
      rw [Keyed.contains, hu] at hout
      rw [Option.not_isSome_iff_eq_none.mp hout, hu]
      rfl
    · rfl

theorem recordChange_version (uri : Uri) (version : Int) (s : State) (u : String) :
    ((s.recordChange uri version).session.documents.get? u).map Document.version =
      if uri.text = u then some version
      else (s.session.documents.get? u).map Document.version := by
  rw [recordChange_document]
  split <;> rfl

private theorem Mirrors.changed {s : State} (hs : Mirrors s) (uri : Uri) (version : Int)
    (changes : List ContentChange) (hv : Succeeds uri.text version s.journal) :
    Mirrors (match s.send (Notification.new "textDocument/didChange"
        (some (didChangeParams uri version changes))).wire with
      | (.ok _, s) => ((.ok (some version) : Outcome (Option Int)), s.recordChange uri version)
      | (.error e, s) => (.error e, s)).2 := by
  obtain ⟨g, _, _, _, h⟩ | ⟨_, h⟩ := State.send_cases (Notification.new "textDocument/didChange"
    (some (didChangeParams uri version changes))).wire s
  · rw [h]
    refine hs.versioned uri.text version rfl rfl rfl (.inr ⟨rfl, hv⟩) fun u => ?_
    exact recordChange_version uri version _ u
  · rw [h]
    exact hs.refused _

private theorem Mirrors.didChange {s : State} (hs : Mirrors s) (uri : Uri) (text : String)
    (edits : List ContentChange) : Mirrors (s.didChange uri text edits).2 := by
  rw [didChange_eq]
  split
  · exact hs
  · rename_i changes _
    have hwarned : Mirrors (s.forewarn uri.text) := hs.elsewhere (elsewhere_forewarn _ s)
    have hdue := hwarned.succeeds uri.text
    rw [State.nextVersion, State.forewarn_session] at hdue
    exact hwarned.changed uri (s.nextVersion uri.text) changes hdue

private theorem Mirrors.didClose {s : State} (hs : Mirrors s) (uri : Uri) :
    Mirrors (s.didClose uri).2 := by
  rw [State.didClose, State.notify]
  obtain ⟨g, _, _, _, h⟩ | ⟨_, h⟩ := State.send_cases
    (Notification.new "textDocument/didClose" (some (didCloseParams uri))).wire s
  · rw [h]
    have hopen : "textDocument/didClose" ≠ "textDocument/didOpen" := by decide
    have hchange : "textDocument/didClose" ≠ "textDocument/didChange" := by decide
    refine hs.forgotten rfl (fun u v h => hopen (opens_method h))
      (fun u v h => hchange (changes_method h)) fun u => ⟨fun hc => ?_, fun hc => ?_⟩
    · have hu : uri.text = u := Option.some.inj (concerned_document hc)
      exact (Keyed.get?_erase _ _ _).trans (if_pos hu)
    · refine (Keyed.get?_erase _ _ _).trans (if_neg fun hu => hc ?_)
      exact .inr (.inr (.inl (accepted_iff.mpr (announces_wire.mpr ⟨rfl, congrArg some hu⟩))))
  · rw [h]
    exact hs.refused _

private theorem Mirrors.completeShutdown {s : State} (hs : Mirrors s) (outcome : Outcome Value) :
    Mirrors (s.completeShutdown outcome).2 := by
  have hexit : ∀ t, Mirrors t → Mirrors (((t.notify "exit" none).2.modifySession fun c =>
      { c with lifecycle := .shutdown, documents := [] }).record .shutDown) := by
    intro t ht
    have hsent : Mirrors (t.notify "exit" none).2 := ht.elsewhere (elsewhere_exit t)
    refine hsent.forgotten (e := .shutDown) rfl ?_ ?_ fun u => ⟨fun _ => rfl, fun hc => ?_⟩
    · rintro u v ⟨_, h, _⟩
      cases h
    · rintro u v ⟨_, h, _⟩
      cases h
    · exact absurd (.inr (.inr (.inr rfl))) hc
  cases outcome with
  | ok _ => exact hexit s hs
  | error e =>
    exact hexit _ (hs.elsewhere (elsewhere_warn _ s))

/-- Every move keeps the documents in step with what the server has been told. -/
theorem Mirrors.move {m : Move} (hm : m.Sends Unrelated) {s : State} (hs : Mirrors s)
    (hh : Heeds Unrelated s) : Mirrors (m.apply s) := by
  by_cases hd : m.concernsDocuments = true
  · cases m with
    | didOpen item => exact hs.didOpen item
    | openFile path contents => exact hs.openFile path contents
    | didChange uri text edits => exact hs.didChange uri text edits
    | didClose uri => exact hs.didClose uri
    | completeShutdown outcome => exact hs.completeShutdown outcome
    | _ => cases hd
  · exact hs.elsewhere (m.elsewhere (by simpa using hd) hm hh)

theorem mirrors_new (layer : Layer) (options : Options) (timeout : Nat) :
    Mirrors (State.new layer options timeout) := by
  have hbare : Mirrors (State.bare options timeout) := by
    refine ⟨fun u v => ⟨nofun, ?_⟩, ?_⟩
    · rintro ⟨before, e, after, hj, _⟩
      exact absurd hj.symm (by simp [State.bare])
    · intro u w before e after hj
      exact absurd hj.symm (by simp [State.bare])
  cases layer with
  | transport => exact hbare
  | engine => exact hbare.elsewhere (.of_eq rfl rfl)
  | session => exact hbare.elsewhere (.of_eq rfl rfl)

/-- The invariant holds after every run whose users leave the notifications about documents to the
session, and so do their handlers. -/
theorem mirrors_after (layer : Layer) (options : Options) (timeout : Nat) {moves : List Move}
    (h : ∀ m ∈ moves, m.Sends Unrelated) :
    Mirrors ((State.new layer options timeout).after moves) ∧
      Heeds Unrelated ((State.new layer options timeout).after moves) := by
  refine State.after_keeps_of (Q := fun s => Mirrors s ∧ Heeds Unrelated s)
    (M := Move.Sends Unrelated)
    (fun m s hm hs => ⟨hs.1.move hm hs.2, hs.2.move own_unrelated hm⟩) ?_ h
  exact ⟨mirrors_new layer options timeout, heeds_new layer options timeout⟩

private theorem Mirrors.changedTimes {s : State} (hs : Mirrors s) {uri : String} {v : Int} {k : Nat}
    {middle : List Entry} (hk : ChangedTimes uri middle k) {before after : List Entry} {e : Entry}
    (hj : s.journal = before ++ e :: middle ++ after)
    (he : e.Opens uri v ∨ e.Changes uri v) : LastAt uri (v + k) (before ++ e :: middle) := by
  induction hk generalizing after with
  | none => exact ⟨before, e, [], rfl, by simpa using he,
      fun _ h => absurd h List.not_mem_nil⟩
  | @change middle k c w _ hc ih =>
    have hj' : s.journal = before ++ e :: middle ++ c :: after := by rw [hj]; simp
    have hw := (hs.counted uri w (before ++ e :: middle) c after hj' hc).1 (v + k) (ih hj')
    have hlast : LastAt uri w (before ++ e :: middle ++ [c]) := lastAt_concat.mpr (.inl (.inr hc))
    have hv : w = v + (k + 1 : Nat) := by omega
    rw [hv] at hlast
    simpa using hlast
  | @other middle k c _ hc ih =>
    have hj' : s.journal = before ++ e :: middle ++ c :: after := by rw [hj]; simp
    have hlast := (lastAt_other hc).mpr (ih hj')
    simpa using hlast

/-- The connection that takes the frames of this state. -/
def State.taker? (s : State) : Option Nat :=
  if s.transport.state = .opened then s.transport.outbound else none

/-- The last that an operation tells is that it offered such a frame to the transport, and nothing
else that it tells concerns documents. It gives its result exactly if the frame was accepted. -/
def Offers {α : Type} (announces : String → Prop) (a : α) (s : State) (r : Outcome α × State) :
    Prop :=
  ∃ more frame, r.2.journal = s.journal ++ more ++ [.offered frame s.taker?] ∧ announces frame ∧
    (∀ e ∈ more, ∀ uri, ¬ e.Concerns uri) ∧ (r.1 = .ok a ↔ s.taker?.isSome)

/-- Every operation on a document tells of it, and nothing else tells of documents. -/
structure CandidAboutDocuments (s : State) : Prop where
  didOpen : ∀ item, Offers (AnnouncesVersion "textDocument/didOpen" item.uri.text item.version) ()
    s (s.didOpen item)
  /-- A file that can be read is opened at the version one. -/
  openFile : ∀ path contents,
    (∃ e, (contents = .error e ∨ Path.toUri path = .error e) ∧
      s.openFile path contents = (.error e, s)) ∨
    ∃ text uri, contents = .ok text ∧ Path.toUri path = .ok uri ∧
      (s.openFile path contents).2 = (s.didOpen ⟨uri, Path.detectLanguage path, 1, text⟩).2
  /-- A change is told of unless the server takes no changes. -/
  didChange : ∀ uri text edits,
    shapeChange s.session.syncKind text edits = none ∧ s.didChange uri text edits = (.ok none, s) ∨
    ∃ version, Offers (AnnouncesVersion "textDocument/didChange" uri.text version) (some version)
      s (s.didChange uri text edits)
  didClose : ∀ uri, Offers (Announces "textDocument/didClose" uri.text) () s (s.didClose uri)
  shutdown : ∀ outcome, ∃ more,
    (s.completeShutdown outcome).2.journal = s.journal ++ more ++ [.shutDown] ∧
      ∀ e ∈ more, ∀ uri, ¬ e.Concerns uri
  /-- No other move tells of documents. -/
  move : ∀ m : Move, m.concernsDocuments = false → m.Sends Unrelated → Elsewhere s (m.apply s)

private theorem offers_send {α : Type} {announces : String → Prop} {frame : String}
    (h : announces frame) (a : α) (f : State → State) (hf : ∀ t, (f t).journal = t.journal)
    (s : State) :
    Offers announces a s (match s.send frame with
      | (.ok _, t) => (.ok a, f t)
      | (.error e, t) => (.error e, t)) := by
  refine ⟨[], frame, ?_⟩
  obtain ⟨g, ready, hst, hout, hsend⟩ | ⟨hno, hsend⟩ := State.send_cases frame s
  · have ht : s.taker? = some g := by rw [State.taker?, if_pos hst, hout]
    rw [hsend, ht]
    refine ⟨?_, h, fun _ h => absurd h List.not_mem_nil, by simp⟩
    exact (hf _).trans (by simp)
  · have ht : s.taker? = none := by
      rw [State.taker?]
      split
      · rename_i hst
        exact Option.eq_none_iff_forall_ne_some.mpr fun g => hno g hst
      · rfl
    rw [hsend, ht]
    exact ⟨by simp [State.record], h, fun _ h => absurd h List.not_mem_nil, by simp⟩

private theorem Offers.after {α : Type} {announces : String → Prop} {a : α} {s t : State}
    {r : Outcome α × State} (h : Offers announces a t r) (hs : Elsewhere s t)
    (ht : t.taker? = s.taker?) : Offers announces a s r := by
  obtain ⟨more, frame, journal, hf, hm, hr⟩ := h
  obtain ⟨before, hj, hb⟩ := hs.journal
  rw [ht] at journal hr
  refine ⟨before ++ more, frame, ?_, hf, List.forall_mem_append.mpr ⟨hb, hm⟩, hr⟩
  rw [journal, hj]
  simp

private theorem offers_didOpen (item : TextItem) (s : State) :
    Offers (AnnouncesVersion "textDocument/didOpen" item.uri.text item.version) ()
      s (s.didOpen item) := by
  refine offers_send ?_ () (fun t => t.recordOpen item) (fun _ => rfl) s
  exact ⟨_, rfl, rfl, openNotification_document item, openNotification_version item⟩

private theorem offers_didChange (uri : Uri) (text : String) (edits : List ContentChange)
    (s : State) :
    shapeChange s.session.syncKind text edits = none ∧ s.didChange uri text edits = (.ok none, s) ∨
    ∃ version, Offers (AnnouncesVersion "textDocument/didChange" uri.text version) (some version)
      s (s.didChange uri text edits) := by
  rw [didChange_eq]
  cases hshape : shapeChange s.session.syncKind text edits with
  | none => exact .inl ⟨rfl, rfl⟩
  | some changes =>
    have hannounces : AnnouncesVersion "textDocument/didChange" uri.text (s.nextVersion uri.text)
        (Notification.new "textDocument/didChange"
          (some (didChangeParams uri (s.nextVersion uri.text) changes))).wire :=
      ⟨_, rfl, rfl, rfl, rfl⟩
    have h := offers_send hannounces (some (s.nextVersion uri.text))
      (fun t => t.recordChange uri (s.nextVersion uri.text)) (fun _ => rfl) (s.forewarn uri.text)
    refine .inr ⟨s.nextVersion uri.text, h.after (elsewhere_forewarn _ s) ?_⟩
    rw [State.taker?, State.taker?, State.forewarn_transport]

private theorem shutdown_journal (outcome : Outcome Value) (s : State) :
    ∃ more, (s.completeShutdown outcome).2.journal = s.journal ++ more ++ [.shutDown] ∧
      ∀ e ∈ more, ∀ uri, ¬ e.Concerns uri := by
  have hexit : ∀ t, Elsewhere s t → ∃ more,
      (((t.notify "exit" none).2.modifySession fun c =>
        { c with lifecycle := .shutdown, documents := [] }).record .shutDown).journal =
        s.journal ++ more ++ [.shutDown] ∧ ∀ e ∈ more, ∀ uri, ¬ e.Concerns uri := by
    intro t ht
    obtain ⟨more, hj, hm⟩ := (ht.trans (elsewhere_exit t)).journal
    exact ⟨more, congrArg (· ++ [Entry.shutDown]) hj, hm⟩
  cases outcome with
  | ok _ => exact hexit s (.of_eq rfl rfl)
  | error _ => exact hexit _ (elsewhere_warn _ s)

private theorem candid_about_documents {s : State} (hs : Heeds Unrelated s) :
    CandidAboutDocuments s where
  didOpen item := offers_didOpen item s
  openFile path contents := by
    unfold State.openFile
    split
    · exact .inl ⟨_, .inl rfl, rfl⟩
    · rename_i e huri
      exact .inl ⟨e, .inr huri, rfl⟩
    · rename_i text uri huri
      refine .inr ⟨text, uri, rfl, huri, ?_⟩
      split <;> rename_i hd <;> rw [hd]
  didChange uri text edits := offers_didChange uri text edits s
  didClose uri := offers_send ⟨_, rfl, rfl, rfl⟩ ()
    (fun t => t.modifySession fun c => { c with documents := c.documents.closed uri.text })
    (fun _ => rfl) s
  shutdown outcome := shutdown_journal outcome s
  move m hd hm := m.elsewhere hd hm hs

/-- The documents of a session are what the accepted notifications say. A document is tracked at the
version that the last notification about it carries, and is not tracked if there is none since it was
closed or the session was shut down. The changes after an opening count up from its version, and the
first change of a document that is not tracked carries the version one. And the journal is candid, so
that an accepted notification about a document is what the session told the server of it. -/
theorem documents_eq_history (layer : Layer) (options : Options) (timeout : Nat)
    (moves : List Move) (h : ∀ m ∈ moves, m.Sends Unrelated) (uri : String) :
    let s := (State.new layer options timeout).after moves
    (∀ v, (s.session.documents.get? uri).map Document.version = some v ↔ LastAt uri v s.journal) ∧
    (s.session.documents.get? uri = none ↔ ∀ v, ¬ LastAt uri v s.journal) ∧
    (∀ before e middle c after v k w, s.journal = before ++ e :: middle ++ c :: after →
      e.Opens uri v → ChangedTimes uri middle k → c.Changes uri w → w = v + (k + 1 : Nat)) ∧
    (∀ before c after w, s.journal = before ++ c :: after → (∀ v, ¬ LastAt uri v before) →
      c.Changes uri w → w = 1) ∧
    CandidAboutDocuments s := by
  intro s
  obtain ⟨hs, hheeds⟩ : Mirrors s ∧ Heeds Unrelated s := mirrors_after layer options timeout h
  refine ⟨hs.tracked uri, ⟨fun hd v hv => ?_, fun hn => ?_⟩, ?_, ?_, candid_about_documents hheeds⟩
  · have htracked := (hs.tracked uri v).mpr hv
    rw [hd] at htracked
    cases htracked
  · cases hd : s.session.documents.get? uri with
    | none => rfl
    | some d => exact absurd ((hs.tracked uri d.version).mp (by rw [hd]; rfl)) (hn d.version)
  · intro before e middle c after v k w hj he hk hc
    have hlast := hs.changedTimes hk hj (.inl he)
    have hw := (hs.counted uri w (before ++ e :: middle) c after hj hc).1 (v + k) hlast
    omega
  · exact fun before c after w hj hn hc => (hs.counted uri w before c after hj hc).2 hn

def notes : Uri := ⟨"notes", by decide⟩

/-- A document is opened and changed twice, once while there is no connection; a frame that is no
message goes out in between. -/
def editing : List Move :=
  [.connect, .found 1 0, .didOpen ⟨notes, "rust", 7, ""⟩, .didChange notes "a" [], .send "ping",
    .disconnect, .didChange notes "b" []]

private theorem ping_unrelated : Unrelated "ping" := by
  intro n h
  have hchars : ['p', 'i', 'n', 'g'] = n.toValue.chars := by
    rw [← String.toList_ofList (l := n.toValue.chars)]
    exact congrArg String.toList h
  rw [Notification.toValue, Value.chars] at hchars
  exact absurd (List.cons.inj hchars).1 (by decide)

private theorem editing_unrelated : ∀ m ∈ editing, m.Sends Unrelated := by
  simp [editing, Move.Sends, ping_unrelated]

theorem documents_eq_history_editing :
    (∀ m ∈ editing, m.Sends Unrelated) ∧
    LastAt "notes" 8 ((State.new .session .standard 30000).after editing).journal :=
  ⟨editing_unrelated,
    ((documents_eq_history .session .standard 30000 editing editing_unrelated "notes").1 8).mp rfl⟩

end Client

end LanguageClient
