import LanguageClient.Proofs.DocumentHistory
/-!
Documents that several editors open, change and close side by side. A change or a closing is one
step, but an opening is two: its notification is handed over, and only later does the session track
the document. The versions of a document count up as long as nobody changes it or opens it again
between these two steps, and as long as they have 32 bits. Nothing in the session sees to either.
-/
namespace LanguageClient

namespace Keyed
variable {κ : Type u} {α : Type v} [DecidableEq κ] {m : Keyed κ α} {k : κ} {a b : α}

theorem get?_put_of_ne (h : m.get? k = none) (hne : a ≠ b) (l : κ) :
    get? (put k a m) l = some b ↔ m.get? l = some b := by
  rw [get?_put]
  split
  · rename_i hl
    rw [← hl, h]
    simp [hne]
  · rfl

theorem get?_erase_of_ne (h : m.get? k = some a) (hne : a ≠ b) (l : κ) :
    get? (erase k m) l = some b ↔ m.get? l = some b := by
  rw [get?_erase]
  split
  · rename_i hl
    rw [← hl, h]
    simp [hne]
  · rfl

end Keyed

namespace Client
open Relation Transport Rpc Json Session

/-- A client and the openings that it has handed over and does not track yet, by their editors. -/
structure Editors where
  client : State
  openings : Keyed Nat TextItem

namespace Editors

def new (layer : Layer) (options : Options) (timeout : Nat) : Editors :=
  ⟨State.new layer options timeout, []⟩

/-- An editor hands over the opening of a document, unless it is still busy with another. -/
def announce (editor : Nat) (item : TextItem) (c : Editors) : Editors :=
  match c.openings.get? editor with
  | some _ => c
  | none =>
    match c.client.announceOpen item with
    | (.ok _, s) => ⟨s, c.openings.put editor item⟩
    | (.error _, s) => ⟨s, c.openings⟩

/-- The session tracks the document that an editor has opened. -/
def record (editor : Nat) (c : Editors) : Editors :=
  match c.openings.get? editor with
  | none => c
  | some item => ⟨c.client.recordOpen item, c.openings.erase editor⟩

/-- The client goes on while the openings stay where they are. -/
def proceed (f : State → State) (c : Editors) : Editors := ⟨f c.client, c.openings⟩

end Editors

/-- What may come next: a step of an editor, or anything else that happens to the client. -/
inductive Edit where
  | announce (editor : Nat) (item : TextItem)
  | record (editor : Nat)
  | change (uri : Uri) (text : String) (edits : List ContentChange)
  | close (uri : Uri)
  | meanwhile (m : Move)

namespace Edit

def apply : Edit → Editors → Editors
  | announce editor item => Editors.announce editor item
  | record editor => Editors.record editor
  | change uri text edits => Editors.proceed fun s => (s.didChange uri text edits).2
  | close uri => Editors.proceed fun s => (s.didClose uri).2
  | meanwhile m => Editors.proceed m.apply

/-- Apart from the editors, nobody tells the server of documents. -/
def Discreet : Edit → Prop
  | meanwhile m => m.concernsDocuments = false ∧ m.Sends Unrelated
  | _ => True

end Edit

namespace Editors

def after (c : Editors) (edits : List Edit) : Editors := edits.foldl (fun c e => e.apply c) c

/-- Every opening of the document is tracked. -/
def Settled (uri : String) (c : Editors) : Prop :=
  ∀ editor item, c.openings.get? editor = some item → item.uri.text ≠ uri

/-- The document is changed and opened again only when it is settled, and changed only as long as the next
version has 32 bits. -/
def Allows (uri : String) (c : Editors) : Edit → Prop
  | .announce _ item => item.uri.text = uri → c.Settled uri
  | .change u _ _ => u.text = uri → c.Settled uri ∧ c.client.nextVersion uri ≤ Limits.maxInt32
  | .record _ | .close _ | .meanwhile _ => True

def Orderly (uri : String) : Editors → List Edit → Prop
  | _, [] => True
  | c, e :: edits => c.Allows uri e ∧ Orderly uri (e.apply c) edits

theorem announce_busy {editor : Nat} {c : Editors} {other : TextItem}
    (h : c.openings.get? editor = some other) (item : TextItem) : c.announce editor item = c := by
  rw [announce, h]

theorem announce_free {editor : Nat} {c : Editors} (h : c.openings.get? editor = none)
    (item : TextItem) : c.announce editor item =
      match c.client.announceOpen item with
      | (.ok _, s) => ⟨s, c.openings.put editor item⟩
      | (.error _, s) => ⟨s, c.openings⟩ := by
  rw [announce, h]

theorem record_none {editor : Nat} {c : Editors} (h : c.openings.get? editor = none) :
    c.record editor = c := by
  rw [record, h]

theorem record_some {editor : Nat} {c : Editors} {item : TextItem}
    (h : c.openings.get? editor = some item) :
    c.record editor = ⟨c.client.recordOpen item, c.openings.erase editor⟩ := by
  rw [record, h]

theorem record_journal (editor : Nat) (c : Editors) :
    (c.record editor).client.journal = c.client.journal := by
  cases hitem : c.openings.get? editor with
  | none => rw [record_none hitem]
  | some item =>
    rw [record_some hitem]
    rfl

/-- With nothing in between, the two steps are the opening of the document. -/
theorem didOpen_eq {editor : Nat} {c : Editors} (h : c.openings.get? editor = none)
    (item : TextItem) :
    ((c.announce editor item).record editor).client = (c.client.didOpen item).2 ∧
      ∀ other, ((c.announce editor item).record editor).openings.get? other =
        c.openings.get? other := by
  rw [announce_free h, State.didOpen]
  rcases c.client.announceOpen item with ⟨e | _, s⟩
  · simp only
    rw [record_none (c := ⟨s, c.openings⟩) h]
    exact ⟨rfl, fun _ => rfl⟩
  · simp only
    rw [record_some (c := ⟨s, c.openings.put editor item⟩) (Keyed.get?_put_self _ _ _)]
    refine ⟨rfl, fun other => ?_⟩
    simp only [Keyed.get?_erase, Keyed.get?_put]
    split
    · rename_i hother
      rw [← hother, h]
    · rfl

end Editors

/-- Every change that follows an opening and any number of changes carries the next version. -/
def CountsUp (uri : String) (journal : List Entry) : Prop :=
  ∀ (before middle after : List Entry) (e c : Entry) (v w : Int) (k : Nat),
    journal = before ++ e :: middle ++ c :: after →
    e.Opens uri v → ChangedTimes uri middle k → c.Changes uri w → w = v + (k + 1 : Nat)

/-- No change carries a version of more than 32 bits. -/
def Bounded (uri : String) (journal : List Entry) : Prop :=
  ∀ e ∈ journal, ∀ w, e.Changes uri w → w ≤ Limits.maxInt32

/-- The document was opened at that version and has changed so many times since. -/
def Edited (uri : String) (version : Int) (k : Nat) (journal : List Entry) : Prop :=
  ∃ before e middle, journal = before ++ e :: middle ∧ e.Opens uri version ∧
    ChangedTimes uri middle k

section Edited
variable {uri : String} {v : Int} {k : Nat} {journal : List Entry} {x : Entry}

private theorem changedTimes_concat (h : ChangedTimes uri (journal ++ [x]) k) :
    (∃ j w, k = j + 1 ∧ ChangedTimes uri journal j ∧ x.Changes uri w) ∨
      ChangedTimes uri journal k ∧ ¬ x.Concerns uri := by
  generalize hj : journal ++ [x] = longer at h
  cases h with
  | none => simp at hj
  | @change shorter j e w h he =>
    obtain ⟨rfl, hx⟩ := List.append_inj' hj rfl
    obtain rfl := (List.cons.inj hx).1
    exact .inl ⟨j, w, rfl, h, he⟩
  | @other shorter j e h he =>
    obtain ⟨rfl, hx⟩ := List.append_inj' hj rfl
    obtain rfl := (List.cons.inj hx).1
    exact .inr ⟨h, he⟩

theorem edited_concat (h : Edited uri v k (journal ++ [x])) :
    (x.Opens uri v ∧ k = 0) ∨ (∃ j w, k = j + 1 ∧ Edited uri v j journal ∧ x.Changes uri w) ∨
      Edited uri v k journal ∧ ¬ x.Concerns uri := by
  obtain ⟨before, e, middle, hj, he, hk⟩ := h
  rcases concat_split hj with ⟨_, rfl, rfl⟩ | ⟨rest, rfl, rfl⟩
  · refine .inl ⟨he, ?_⟩
    generalize hm : ([] : List Entry) = middle at hk
    cases hk with
    | none => rfl
    | change => simp at hm
    | other => simp at hm
  · refine .inr ?_
    rcases changedTimes_concat hk with ⟨j, w, rfl, hj, hx⟩ | ⟨hk, hx⟩
    · exact .inl ⟨j, w, rfl, ⟨before, e, rest, rfl, he, hj⟩, hx⟩
    · exact .inr ⟨⟨before, e, rest, rfl, he, hk⟩, hx⟩

theorem countsUp_concat (h : CountsUp uri journal)
    (hx : ∀ (v w : Int) (k : Nat), Edited uri v k journal → x.Changes uri w →
      w = v + (k + 1 : Nat)) : CountsUp uri (journal ++ [x]) := by
  intro before middle after e c v w k hj he hk hc
  rcases concat_split hj with ⟨rfl, rfl, _⟩ | ⟨rest, rfl, rfl⟩
  · exact hx v w k ⟨before, e, middle, rfl, he, hk⟩ hc
  · exact h before middle rest e c v w k rfl he hk hc

end Edited

def State.version? (uri : String) (s : State) : Option Int :=
  (s.session.documents.get? uri).map Document.version

namespace Editors

/-- Just one opening of the document is not tracked yet, and it is of that version. -/
def Opening (uri : String) (version : Int) (c : Editors) : Prop :=
  ∃ editor item, c.openings.get? editor = some item ∧ item.uri.text = uri ∧
    item.version = version ∧
    ∀ other given, c.openings.get? other = some given → given.uri.text = uri → other = editor

/-- The session knows, or is about to know, the version that so many changes have led to. -/
def Knows (uri : String) (version : Int) (k : Nat) (c : Editors) : Prop :=
  k = 0 ∧ c.Opening uri version ∨ c.Settled uri ∧ c.client.version? uri = some (version + k)

end Editors

section Counting
variable {uri : String} {told : List Entry} {c d : Editors} {v : Int} {k : Nat} {x : Entry}

theorem Editors.Knows.of_eq (h : c.Knows uri v k)
    (openings : ∀ editor item, item.uri.text = uri →
      (d.openings.get? editor = some item ↔ c.openings.get? editor = some item))
    (version : d.client.version? uri = c.client.version? uri) : d.Knows uri v k := by
  rcases h with ⟨hk, editor, item, ho, hu, hv, halone⟩ | ⟨hs, hv⟩
  · exact .inl ⟨hk, editor, item, (openings editor item hu).mpr ho, hu, hv,
      fun other given hg hgu => halone other given ((openings other given hgu).mp hg) hgu⟩
  · exact .inr ⟨fun editor item ho hu => hs editor item ((openings editor item hu).mp ho) hu,
      version.trans hv⟩

theorem Bounded.concat {journal : List Entry} (h : Bounded uri journal)
    (hx : ∀ w, x.Changes uri w → w ≤ Limits.maxInt32) : Bounded uri (journal ++ [x]) :=
  List.forall_mem_append.mpr ⟨h, List.forall_mem_singleton.mpr hx⟩

/-- What has been told counts up within 32 bits, and the session knows the version that it leads to. -/
structure Counting (uri : String) (told : List Entry) (c : Editors) : Prop where
  counted : CountsUp uri told
  bounded : Bounded uri told
  known : ∀ v k, Edited uri v k told → c.Knows uri v k

theorem counting_nil (uri : String) (c : Editors) : Counting uri [] c where
  counted before middle after e x v w k h := by simp at h
  bounded := List.forall_mem_nil _
  known := by
    rintro v k ⟨before, e, middle, h, _⟩
    simp at h

theorem Counting.quiet (h : Counting uri told c) {more : List Entry}
    (hm : ∀ e ∈ more, ¬ e.Concerns uri) (hd : ∀ v k, c.Knows uri v k → d.Knows uri v k) :
    Counting uri (told ++ more) d := by
  induction more generalizing told with
  | nil =>
    rw [List.append_nil]
    exact ⟨h.counted, h.bounded, fun v k hk => hd v k (h.known v k hk)⟩
  | cons e more ih =>
    obtain ⟨he, hm⟩ := List.forall_mem_cons.mp hm
    have hnot (w : Int) : ¬ e.Changes uri w := fun hc => he (.inr (.inl ⟨w, hc⟩))
    rw [List.append_cons]
    refine ih ⟨countsUp_concat h.counted fun v w k _ hc => absurd hc (hnot w),
      h.bounded.concat fun w hc => absurd hc (hnot w), fun v k hk => ?_⟩ hm
    · rcases edited_concat hk with ⟨ho, _⟩ | ⟨_, w, _, _, hc⟩ | ⟨hk, _⟩
      · exact absurd (.inl ⟨v, ho⟩) he
      · exact absurd hc (hnot w)
      · exact h.known v k hk

theorem Counting.opened (h : Counting uri told c) (version : Int)
    (hopens : ∀ v, x.Opens uri v ↔ v = version) (hchanges : ∀ w, ¬ x.Changes uri w)
    (hd : d.Opening uri version) : Counting uri (told ++ [x]) d where
  counted := countsUp_concat h.counted fun _ w _ _ hc => absurd hc (hchanges w)
  bounded := h.bounded.concat fun w hc => absurd hc (hchanges w)
  known v k hk := by
    rcases edited_concat hk with ⟨ho, rfl⟩ | ⟨_, w, _, _, hc⟩ | ⟨_, hn⟩
    · exact .inl ⟨rfl, (hopens v).mp ho ▸ hd⟩
    · exact absurd hc (hchanges w)
    · exact absurd (.inl ⟨version, (hopens version).mpr rfl⟩) hn

theorem Counting.changed (h : Counting uri told c) (hs : c.Settled uri) {version : Int}
    (hbound : version ≤ Limits.maxInt32)
    (hdue : ∀ v, c.client.version? uri = some v → version = v + 1)
    (hopens : ∀ v, ¬ x.Opens uri v) (hchanges : ∀ w, x.Changes uri w ↔ w = version)
    (hsd : d.Settled uri) (hv : d.client.version? uri = some version) :
    Counting uri (told ++ [x]) d := by
  -- a settled document has no opening under way, so that its version is tracked
  have hnext : ∀ v k, Edited uri v k told → version = v + (k + 1 : Nat) := by
    intro v k hk
    rcases h.known v k hk with ⟨_, editor, item, ho, hu, _⟩ | ⟨_, hv⟩
    · exact absurd hu (hs editor item ho)
    · have := hdue _ hv
      omega
  refine ⟨countsUp_concat h.counted fun v w k hk hc => ?_,
    h.bounded.concat fun w hc => (hchanges w).mp hc ▸ hbound, fun v k hk => ?_⟩
  · rw [(hchanges w).mp hc]
    exact hnext v k hk
  · rcases edited_concat hk with ⟨ho, _⟩ | ⟨j, w, rfl, hj, _⟩ | ⟨_, hn⟩
    · exact absurd ho (hopens v)
    · exact .inr ⟨hsd, hv.trans (congrArg some (hnext v j hj))⟩
    · exact absurd (.inr (.inl ⟨version, (hchanges version).mpr rfl⟩)) hn

theorem Counting.closed (h : Counting uri told c) (hx : x.Concerns uri)
    (hopens : ∀ v, ¬ x.Opens uri v) (hchanges : ∀ w, ¬ x.Changes uri w) (d : Editors) :
    Counting uri (told ++ [x]) d where
  counted := countsUp_concat h.counted fun _ w _ _ hc => absurd hc (hchanges w)
  bounded := h.bounded.concat fun w hc => absurd hc (hchanges w)
  known v k hk := by
    rcases edited_concat hk with ⟨ho, _⟩ | ⟨_, w, _, _, hc⟩ | ⟨_, hn⟩
    · exact absurd ho (hopens v)
    · exact absurd hc (hchanges w)
    · exact absurd hx hn

/-- The journal has gone on, and with what it tells now the document is still counted. -/
def StillCounting (uri : String) (told : List Entry) (c d : Editors) : Prop :=
  ∃ more, d.client.journal = c.client.journal ++ more ∧ Counting uri (told ++ more) d

theorem Counting.silent (h : Counting uri told c) (journal : d.client.journal = c.client.journal)
    (hd : ∀ v k, c.Knows uri v k → d.Knows uri v k) : StillCounting uri told c d :=
  ⟨[], journal.trans (List.append_nil _).symm,
    h.quiet (fun _ he => absurd he List.not_mem_nil) hd⟩

theorem Counting.elsewhere (h : Counting uri told c) {f : State → State}
    (hf : Elsewhere c.client (f c.client)) : StillCounting uri told c (c.proceed f) := by
  obtain ⟨more, hj, hm⟩ := hf.journal
  refine ⟨more, hj, h.quiet (fun e he => hm e he uri) fun v k hk => ?_⟩
  refine hk.of_eq (fun _ _ _ => Iff.rfl) ?_
  rw [State.version?, State.version?, Editors.proceed, hf.documents]

/-- A notification is accepted, or it is refused and nothing but the journal tells. -/
theorem State.notify_cases (method : String) (params : Option Value) (s : State) :
    (∃ g t, s.notify method params = (.ok (), t) ∧ t.session = s.session ∧
      t.journal = s.journal ++ [.offered (Notification.new method params).wire (some g)]) ∨
    ∃ e, s.notify method params =
      (.error e, s.record (.offered (Notification.new method params).wire none)) := by
  obtain ⟨g, _, _, _, h⟩ | ⟨_, h⟩ := State.send_cases (Notification.new method params).wire s
  · exact .inl ⟨g, _, h, rfl, rfl⟩
  · exact .inr ⟨_, h⟩

private theorem elsewhere_refused (frame : String) (s : State) :
    Elsewhere s (s.record (.offered frame none)) := elsewhere_record rfl (by simp) s

private theorem about_another {n : Notification} {g : Nat} {u : String}
    (document : n.document? = some u) (hu : u ≠ uri) :
    ∀ e ∈ [Entry.offered n.wire (some g)], ¬ e.Concerns uri :=
  List.forall_mem_singleton.mpr fun hc =>
    hu (Option.some.inj (document.symm.trans (concerned_document hc)))

private theorem open_ne_change : "textDocument/didOpen" ≠ "textDocument/didChange" := by decide

private theorem close_ne_open : "textDocument/didClose" ≠ "textDocument/didOpen" := by decide

private theorem close_ne_change : "textDocument/didClose" ≠ "textDocument/didChange" := by decide

theorem Counting.announce (h : Counting uri told c) (editor : Nat) {item : TextItem}
    (hs : item.uri.text = uri → c.Settled uri) :
    StillCounting uri told c (c.announce editor item) := by
  cases hfree : c.openings.get? editor with
  | some other =>
    rw [Editors.announce_busy hfree]
    exact h.silent rfl fun _ _ => id
  | none =>
    rw [Editors.announce_free hfree, State.announceOpen]
    obtain ⟨g, t, ht, hsession, hj⟩ | ⟨e, ht⟩ := State.notify_cases "textDocument/didOpen"
      (some (didOpenParams item)) c.client
    · rw [ht]
      refine ⟨_, hj, ?_⟩
      by_cases hu : item.uri.text = uri
      · -- all other openings of the document are tracked, so this is the only one that is not
        refine h.opened item.version (fun v => ?_)
          (fun w hw => open_ne_change (changes_method hw))
          ⟨editor, item, Keyed.get?_put_self _ _ _, hu, rfl, fun other given hg hgu => ?_⟩
        · rw [opens_wire (openNotification_version item), openNotification_document, hu]
          exact ⟨fun h => h.2.2, fun h => ⟨rfl, rfl, h⟩⟩
        · rw [Keyed.get?_put] at hg
          split at hg
          · rename_i heq
            exact heq.symm
          · exact absurd hgu (hs hu other given hg)
      · refine h.quiet (about_another (openNotification_document item) hu) fun v k hk =>
          hk.of_eq (fun other given hgu => ?_) ?_
        · exact Keyed.get?_put_of_ne hfree (fun he : item = given => hu (he ▸ hgu)) other
        · rw [State.version?, State.version?, hsession]
    · rw [ht]
      exact h.elsewhere (f := fun s => s.record _) (elsewhere_refused _ c.client)

/-- Once its only opening is tracked, a document is settled at the version of that opening. -/
theorem Editors.Knows.record (h : c.Knows uri v k) (editor : Nat) :
    (c.record editor).Knows uri v k := by
  cases hitem : c.openings.get? editor with
  | none => rwa [Editors.record_none hitem]
  | some item =>
    rw [Editors.record_some hitem]
    by_cases hu : item.uri.text = uri
    · rcases h with ⟨rfl, first, given, hg, _, rfl, halone⟩ | ⟨hs, _⟩
      · -- the opening that is tracked now is the only one that was left
        obtain rfl := halone editor item hitem hu
        obtain rfl := Option.some.inj (hitem.symm.trans hg)
        refine .inr ⟨fun other given ho hgu => ?_, ?_⟩
        · simp only [Keyed.get?_erase] at ho
          split at ho
          · cases ho
          · rename_i hne
            exact hne (halone other given ho hgu).symm
        · rw [State.version?, State.recordOpen, State.modifySession, Documents.opened,
            Keyed.get?_put, if_pos hu]
          simp
      · exact absurd hu (hs editor item hitem)
    · refine h.of_eq (fun other given hgu => ?_) ?_
      · exact Keyed.get?_erase_of_ne hitem (fun he : item = given => hu (he ▸ hgu)) other
      · rw [State.version?, State.version?, State.recordOpen, State.modifySession, Documents.opened,
          Keyed.get?_put, if_neg hu]

private theorem didChange_cases (u : Uri) (text : String) (edits : List ContentChange)
    (s : State) :
    Elsewhere s (s.didChange u text edits).2 ∨
    ∃ more g changes, (s.didChange u text edits).2.journal = s.journal ++ more ++
        [.offered (Notification.new "textDocument/didChange"
          (some (didChangeParams u (s.nextVersion u.text) changes))).wire (some g)] ∧
      (∀ e ∈ more, ∀ uri, ¬ e.Concerns uri) ∧
      ∀ uri, (s.didChange u text edits).2.version? uri =
        if u.text = uri then some (s.nextVersion u.text) else s.version? uri := by
  rw [didChange_eq]
  split
  · exact .inl (.of_eq rfl rfl)
  · rename_i changes _
    have hwarned := elsewhere_forewarn u.text s
    obtain ⟨g, t, ht, hkept, hj⟩ | ⟨e, ht⟩ := State.notify_cases "textDocument/didChange"
      (some (didChangeParams u (s.nextVersion u.text) changes)) (s.forewarn u.text)
    · obtain ⟨more, hmore, hm⟩ := hwarned.journal
      rw [ht]
      refine .inr ⟨more, g, changes, hj.trans (by rw [hmore]), hm, fun uri => ?_⟩
      rw [State.version?, State.version?, recordChange_version, hkept, State.forewarn_session]
    · rw [ht]
      exact .inl (hwarned.trans (elsewhere_refused _ _))

theorem Counting.change (h : Counting uri told c) {u : Uri} (text : String)
    (edits : List ContentChange) (hs : c.Allows uri (.change u text edits)) :
    StillCounting uri told c ((Edit.change u text edits).apply c) := by
  obtain hf | ⟨more, g, changes, hj, hm, hv⟩ := didChange_cases u text edits c.client
  · exact h.elsewhere hf
  · have hbefore : Counting uri (told ++ more) c := h.quiet (fun e he => hm e he uri) fun _ _ => id
    refine ⟨more ++ [_], hj.trans (List.append_assoc _ _ _), ?_⟩
    rw [← List.append_assoc]
    by_cases hu : u.text = uri
    · obtain ⟨hsettled, hbound⟩ := hs hu
      refine hbefore.changed hsettled (hu ▸ hbound)
        (fun v hv => State.nextVersion_of_version (hu ▸ hv))
        (fun v ho => open_ne_change (opens_method ho).symm) (fun w => ?_) hsettled ?_
      · rw [changes_wire rfl]
        exact ⟨fun h => h.2.2, fun h => ⟨rfl, congrArg some hu, h⟩⟩
      · exact (hv uri).trans (if_pos hu)
    · exact hbefore.quiet (about_another rfl hu) fun v k hk =>
        hk.of_eq (fun _ _ _ => Iff.rfl) ((hv uri).trans (if_neg hu))

theorem Counting.close (h : Counting uri told c) (u : Uri) :
    StillCounting uri told c ((Edit.close u).apply c) := by
  obtain ⟨g, t, ht, hsession, hj⟩ | ⟨e, ht⟩ := State.notify_cases "textDocument/didClose"
    (some (didCloseParams u)) c.client
  · have hclient : (c.client.didClose u).2 =
        t.modifySession fun d => { d with documents := d.documents.closed u.text } := by
      rw [State.didClose, ht]
    refine ⟨[_], (congrArg State.journal hclient).trans hj, ?_⟩
    by_cases hu : u.text = uri
    · refine h.closed (.inr (.inr (.inl ?_))) (fun v ho => close_ne_open (opens_method ho))
        (fun w hc => close_ne_change (changes_method hc)) _
      exact accepted_iff.mpr (announces_wire.mpr ⟨rfl, congrArg some hu⟩)
    · refine h.quiet (about_another rfl hu) fun v k hk => hk.of_eq (fun _ _ _ => Iff.rfl) ?_
      change (c.client.didClose u).2.version? uri = c.client.version? uri
      rw [hclient, State.version?, State.version?, State.modifySession, Documents.closed,
        Keyed.get?_erase, if_neg hu, hsession]
  · have hclient : (c.client.didClose u).2 =
        c.client.record (.offered (Notification.new "textDocument/didClose"
          (some (didCloseParams u))).wire none) := by
      rw [State.didClose, ht]
    refine h.elsewhere ?_
    rw [hclient]
    exact elsewhere_refused _ c.client

/-- Every step that is allowed keeps the count of a document. -/
theorem Counting.step (h : Counting uri told c) (hheeds : Heeds Unrelated c.client) {e : Edit}
    (hd : e.Discreet) (hs : c.Allows uri e) : StillCounting uri told c (e.apply c) := by
  cases e with
  | announce editor item => exact h.announce editor hs
  | record editor =>
    exact h.silent (Editors.record_journal editor c) fun v k hk => hk.record editor
  | change u text edits => exact h.change text edits hs
  | close u => exact h.close u
  | meanwhile m => exact h.elsewhere (m.elsewhere hd.1 hd.2 hheeds)

end Counting

theorem heeds_edit {e : Edit} (hd : e.Discreet) {c : Editors} (h : Heeds Unrelated c.client) :
    Heeds Unrelated (e.apply c).client := by
  cases e with
  | announce editor item =>
    cases hfree : c.openings.get? editor with
    | some other => rwa [Edit.apply, Editors.announce_busy hfree]
    | none =>
      rw [Edit.apply, Editors.announce_free hfree]
      have hsent : Heeds Unrelated (c.client.announceOpen item).2 :=
        h.of_eq (State.send_hub _ _) (by rw [State.announceOpen, State.notify, State.send_engine])
      split <;> rename_i ht <;> rw [ht] at hsent <;> exact hsent
  | record editor =>
    cases hitem : c.openings.get? editor with
    | none => rwa [Edit.apply, Editors.record_none hitem]
    | some item =>
      rw [Edit.apply, Editors.record_some hitem]
      exact h.of_eq rfl rfl
  | change u text edits => exact h.move own_unrelated (m := .didChange u text edits) trivial
  | close u => exact h.move own_unrelated (m := .didClose u) trivial
  | meanwhile m => exact h.move own_unrelated hd.2

theorem heeds_edits {edits : List Edit} (hd : ∀ e ∈ edits, e.Discreet) {c : Editors}
    (h : Heeds Unrelated c.client) : Heeds Unrelated (c.after edits).client := by
  induction edits generalizing c with
  | nil => exact h
  | cons e edits ih =>
    obtain ⟨he, hd⟩ := List.forall_mem_cons.mp hd
    exact ih hd (heeds_edit he h)

theorem Counting.run {uri : String} {told : List Entry} {c : Editors} (h : Counting uri told c)
    (hheeds : Heeds Unrelated c.client) {edits : List Edit} (hd : ∀ e ∈ edits, e.Discreet)
    (ho : c.Orderly uri edits) : StillCounting uri told c (c.after edits) := by
  induction edits generalizing told c with
  | nil => exact h.silent rfl fun _ _ => id
  | cons e edits ih =>
    obtain ⟨he, hd⟩ := List.forall_mem_cons.mp hd
    obtain ⟨more, hj, hstep⟩ := h.step hheeds he ho.1
    obtain ⟨rest, hj', hrun⟩ := ih hstep (heeds_edit he hheeds) hd ho.2
    refine ⟨more ++ rest, hj'.trans ?_, ?_⟩
    · rw [hj, List.append_assoc]
    · rw [← List.append_assoc]
      exact hrun

/-- The versions of a document count up from each of its openings in the order in which the
notifications are handed over, whoever opens, changes and closes documents in between, and whatever
else goes on: in any part of a run in which nobody changes the document or opens it again between
the two steps of an opening, and in which no change is due a version of more than 32 bits. -/
theorem changes_count_up (layer : Layer) (options : Options) (timeout : Nat)
    (before later : List Edit) (uri : String) (hd : ∀ e ∈ before ++ later, e.Discreet)
    (ho : ((Editors.new layer options timeout).after before).Orderly uri later) :
    ∃ told, ((Editors.new layer options timeout).after (before ++ later)).client.journal =
        ((Editors.new layer options timeout).after before).client.journal ++ told ∧
      CountsUp uri told ∧ Bounded uri told := by
  obtain ⟨hbefore, hlater⟩ := List.forall_mem_append.mp hd
  have hheeds := heeds_edits hbefore (c := Editors.new layer options timeout)
    (heeds_new layer options timeout)
  -- the count starts with `later`: nothing is known of openings that were announced before
  obtain ⟨told, hj, hcounting⟩ := (counting_nil uri _).run hheeds hlater ho
  refine ⟨told, ?_, hcounting.counted, hcounting.bounded⟩
  rw [Editors.after, List.foldl_append]
  exact hj

private theorem settled_of_listed {uri : String} {c : Editors}
    (h : ∀ o ∈ c.openings, o.2.uri.text ≠ uri) : c.Settled uri := by
  intro editor item ho
  obtain ⟨o, hfind, rfl⟩ := Option.map_eq_some_iff.mp ho
  exact h o (List.mem_of_find?_eq_some hfind)

def minutes : Uri := ⟨"minutes", by decide⟩

def errands : Uri := ⟨"errands", by decide⟩

/-- A connection is made. -/
def online : List Edit := [.meanwhile .connect, .meanwhile (.found 1 0)]

/-- Two editors open a document each. The one is closed before it is tracked, the other is changed
twice once it is. -/
def sharing : List Edit :=
  [.announce 1 ⟨minutes, "rust", 5, ""⟩, .announce 2 ⟨errands, "rust", 9, ""⟩, .record 1,
    .change minutes "a" [], .close errands, .record 2, .change minutes "b" []]

private theorem sharing_discreet : ∀ e ∈ online ++ sharing, e.Discreet := by
  simp [online, sharing, Edit.Discreet, Move.concernsDocuments, Move.Sends]

private theorem sharing_orderly :
    ((Editors.new .session .standard 30000).after online).Orderly "minutes" sharing := by
  have hother : "errands" ≠ "minutes" := by decide
  refine ⟨fun _ => settled_of_listed ?_, fun h => absurd h hother, trivial,
    fun _ => ⟨settled_of_listed ?_, ?_⟩, trivial, trivial, fun _ => ⟨settled_of_listed ?_, ?_⟩, trivial⟩
  all_goals decide +kernel

theorem changes_count_up_sharing :
    (∀ e ∈ online ++ sharing, e.Discreet) ∧
    ((Editors.new .session .standard 30000).after online).Orderly "minutes" sharing ∧
    ∃ told, ((Editors.new .session .standard 30000).after (online ++ sharing)).client.journal =
      ((Editors.new .session .standard 30000).after online).client.journal ++ told ∧
      CountsUp "minutes" told ∧ Bounded "minutes" told :=
  ⟨sharing_discreet, sharing_orderly, changes_count_up .session .standard 30000 online sharing
    "minutes" sharing_discreet sharing_orderly⟩

private def opening (item : TextItem) : Entry :=
  .offered (Notification.new "textDocument/didOpen" (some (didOpenParams item))).wire (some 1)

private def replacement (version : Int) (text : String) : Entry :=
  .offered (Notification.new "textDocument/didChange"
    (some (didChangeParams minutes version [.whole text]))).wire (some 1)

private theorem opening_opens (version : Int) :
    (opening ⟨minutes, "rust", version, ""⟩).Opens "minutes" version :=
  (opens_wire (openNotification_version _)).mpr ⟨rfl, openNotification_document _, rfl⟩

private theorem replacement_changes (version : Int) (text : String) :
    (replacement version text).Changes "minutes" version := (changes_wire rfl).mpr ⟨rfl, rfl, rfl⟩

/-- A change may overtake the record of an opening, and the record of one opening that of another.
The versions then do not count up, although the connection is open all the time. -/
theorem change_overtakes_record :
    let c := (Editors.new .session .standard 30000).after online
    c.client.transport.state = .opened ∧ c.client.session.syncKind = .full ∧
    ¬ CountsUp "minutes" (c.after
      [.announce 1 ⟨minutes, "rust", 5, ""⟩, .change minutes "a" []]).client.journal ∧
    ¬ CountsUp "minutes" (c.after
      [.announce 1 ⟨minutes, "rust", 5, ""⟩, .announce 2 ⟨minutes, "rust", 9, ""⟩, .record 2,
        .record 1, .change minutes "a" []]).client.journal := by
  intro c
  refine ⟨rfl, rfl, fun h => ?_, fun h => ?_⟩
  · have hwarned : ChangedTimes "minutes"
        [.note ⟨.warn, "change for a document that was never opened"⟩] 0 :=
      .other .none (Entry.concerns_of_plain rfl (by simp) "minutes")
    have hw := h c.client.journal _ [] _ _ 5 1 0 rfl (opening_opens 5) hwarned
      (replacement_changes 1 "a")
    omega
  · have hw := h (c.client.journal ++ [opening ⟨minutes, "rust", 5, ""⟩]) [] [] _ _ 9 6 0 rfl
      (opening_opens 9) .none (replacement_changes 6 "a")
    omega

end Client

end LanguageClient
