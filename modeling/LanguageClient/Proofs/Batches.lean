import LanguageClient.Proofs.Apart
import LanguageClient.Proofs.InboundFrames
import LanguageClient.Proofs.ReadingInContext
/-!
A batch is its elements, in order. What a batch makes of a client is what its elements make of it as
frames of their own, whatever they are and whatever handlers do in between; only an array within a batch
has no frame of its own that it could be, and is dropped.
-/
namespace LanguageClient.Json

theorem Value.items?_canonical {v : Value} (h : v.items? = none) : v.canonical.items? = none := by
  cases v with
  | arr vs => cases h
  | _ => rfl

end LanguageClient.Json

namespace LanguageClient.Client
open Relation Transport Rpc Json Session

theorem parse_batch {frame : String} {vs : List Value} (h : read? frame = some (.arr vs)) :
    Payload.parse frame = .ok (.batch vs) := by
  rw [Payload.parse, h]

theorem parse_single {frame : String} {v : Value} (h : read? frame = some v)
    (hv : v.items? = none) : Payload.parse frame = .ok (.single v) := by
  rw [Payload.parse, h]
  cases v with
  | arr vs => cases hv
  | _ => rfl

variable {close : State → State}

theorem handleFrame_array {frame : String} {vs : List Value} (h : read? frame = some (.arr vs))
    (s : State) : s.handleFrame close frame =
      vs.foldl (fun s v => State.handleMessage close v s) s := by
  rw [State.handleFrame, parse_batch h]
  rfl

theorem handleFrame_alone {frame : String} {v : Value} (h : read? frame = some v)
    (hv : v.items? = none) (s : State) :
    s.handleFrame close frame = State.handleMessage close v s := by
  rw [State.handleFrame, parse_single h hv]
  rfl

/-- The text of a value that can be an element of a batch and a frame of its own as well: it is no array,
and with one more array around it it is still not too deep. -/
structure SpellsElement (text : String) (v : Value) : Prop where
  read : readText? text = some v
  single : v.items? = none
  shallow : v.depth < maxDepth

theorem SpellsElement.read? {text : String} {v : Value} (h : SpellsElement text v) :
    Json.read? text = some v.canonical := by
  rw [Json.read?, h.read]
  rfl

/-- Frame by frame the elements are handled as they are within a batch. -/
theorem handleFrames_alone {texts : List String} {vs : List Value}
    (h : List.Forall₂ SpellsElement texts vs) (s : State) : s.handleFrames texts =
      (Value.canonicalItems vs).foldl (fun s v => State.handleMessage State.disconnect v s) s := by
  induction h generalizing s with
  | nil => rfl
  | cons ht hts ih =>
    rw [State.handleFrames, List.foldl_cons,
      handleFrame_alone ht.read? (Value.items?_canonical ht.single)]
    exact ih _

def dropped : Entry := .note ⟨.warn, "dropping malformed message"⟩

/-- What elements add to the journal does not depend on what it holds. -/
private theorem handleMessages_following (vs : List Value) (past : List Entry) (s : State) :
    vs.foldl (fun s v => State.handleMessage State.disconnect v s) { s with journal := past } =
      (vs.foldl (fun s v => State.handleMessage State.disconnect v s) { s with journal := [] }).recast
        s.session (.following past) := by
  rw [← State.foldl_recast fun v => State.apart_handleMessage State.apart_disconnect v]
  simp only [State.recast, Retelling.following, List.append_nil]

/-- An array within a batch is told to be dropped, and makes no other difference. -/
theorem handleMessages_nested (before items after : List Value) (s : State) :
    let handle := fun s v => State.handleMessage State.disconnect v s
    ∃ more, ((before ++ after).foldl handle s).journal = (before.foldl handle s).journal ++ more ∧
      (before ++ .arr items :: after).foldl handle s =
        { (before ++ after).foldl handle s with
          journal := (before.foldl handle s).journal ++ dropped :: more } := by
  intro handle
  rw [List.foldl_append, List.foldl_append, List.foldl_cons]
  generalize before.foldl handle s = t
  have hplain : after.foldl handle t =
      (after.foldl handle { t with journal := [] }).recast t.session (.following t.journal) :=
    handleMessages_following after t.journal t
  have hdropped := handleMessages_following after (t.journal ++ [dropped]) t
  refine ⟨(after.foldl handle { t with journal := [] }).journal, by rw [hplain]; rfl,
    hdropped.trans ?_⟩
  rw [hplain]
  simp only [State.recast, Retelling.following, List.append_assoc, List.singleton_append]
  rfl

/-- The request is not pending, and these are the outcomes that it has been given and the one that waits
for its caller. -/
structure Closed (id : Int) (given : List (Outcome Value)) (kept : Option (Outcome Value))
    (s : State) : Prop where
  pending : s.engine.pending.get? id = none
  given : settlements id s.journal = given
  kept : s.engine.outcomes.get? id = kept

variable {id : Int} {given : List (Outcome Value)} {kept : Option (Outcome Value)}

theorem Closed.of_account {s t : State} (hs : Closed id given kept s)
    (h : account id t = account id s) : Closed id given kept t :=
  ⟨(congrArg Account.pending h).trans hs.pending, (congrArg Account.settled h).trans hs.given,
    (congrArg Account.outcome h).trans hs.kept⟩

theorem Closed.record {s : State} (hs : Closed id given kept s) {e : Entry}
    (he : settlement? id e = none) : Closed id given kept (s.record e) :=
  ⟨hs.pending, by rw [State.record, settlements_concat, he, hs.given]; exact List.append_nil _,
    hs.kept⟩

theorem Closed.settle {s : State} (hs : Closed id given kept s) (n : Int)
    (f : Pending → Outcome Value) : Closed id given kept (s.settle n f) := by
  by_cases hn : n = id
  · rw [State.settle_absent (hn ▸ hs.pending)]
    exact hs
  · exact hs.of_account (account_settle_other hn s f)

/-- What is settled stays as it is, whatever a handler does and whatever else the server responds. -/
theorem Closed.hear {P : String → Prop} {R : Response → Prop} {s t : State} (h : Hear P R s t)
    (hs : Closed id given kept s) : Closed id given kept t := by
  cases h with
  | resolve r s _ =>
    have hr : Closed id given kept (s.record (.answered r)) := hs.record rfl
    unfold State.resolve
    simp only
    split
    · exact hr.settle _ _
    · exact hr
  | react h =>
    obtain h | ⟨reason, rfl⟩ := react_cases h
    · exact hs.of_account (h.same.accounts id)
    · exact State.abortPending_keeps (hs.record rfl) fun n t ht => ht.settle n _

theorem Closed.handleMessages {s : State} (hs : Closed id given kept s) (vs : List Value) :
    Closed id given kept
      (vs.foldl (fun s v => State.handleMessage State.disconnect v s) s) := by
  induction vs generalizing s with
  | nil => exact hs
  | cons v vs ih =>
    exact ih ((handleMessage_hears (P := fun _ => True) (R := fun _ => True) closes_disconnect
      (fun _ _ => trivial) (heeds_anything s)).keeps (fun _ _ => Closed.hear) hs)

theorem closed_resolve {r : Response} (hr : r.id = some (.number id)) {s : State} {entry : Pending}
    (hp : s.engine.pending.get? id = some entry) :
    Closed id (settlements id s.journal ++ [r.outcome]) (some r.outcome) (s.resolve r) := by
  have hresolved := account_resolve hr s
  rw [Account.answered_of_pending hp] at hresolved
  exact ⟨congrArg Account.pending hresolved, congrArg Account.settled hresolved,
    congrArg Account.outcome hresolved⟩

/-- Of several responses to one pending request the first one counts, unless a handler has given the
request up before. -/
theorem handleMessages_first {before after : List Value} {v : Value} {r : Response}
    (hv : response? v = some r) (hr : r.id = some (.number id))
    (hbefore : ∀ q ∈ before.filterMap response?, q.id ≠ some (.number id)) {s : State}
    {entry : Pending} (hp : s.engine.pending.get? id = some entry) :
    let handle := fun s v => State.handleMessage State.disconnect v s
    GivesUp s (before.foldl handle s) ∨
      Closed id (settlements id s.journal ++ [r.outcome]) (some r.outcome)
        ((before ++ v :: after).foldl handle s) := by
  intro handle
  have hhandles : Handles (· ∈ before.filterMap response?) s (before.foldl handle s) :=
    handles_handleMessages (fun _ hq => hq) s
  refine hhandles.kept.symm.imp_right fun hkept => ?_
  have hsame := hkept id hbefore
  rw [List.foldl_append, List.foldl_cons]
  have hclosed := closed_resolve hr ((congrArg Account.pending hsame).trans hp)
  have hgiven : settlements id (before.foldl handle s).journal = settlements id s.journal :=
    congrArg Account.settled hsame
  rw [hgiven, ← handleMessage_response hv State.disconnect] at hclosed
  exact hclosed.handleMessages after

/-- What becomes of a client that is handed a batch of elements with these texts, or any other batch. -/
structure BatchEffect (texts : List String) (values : List Value) (s : State) : Prop where
  /-- Together the elements are still a frame that can be read. -/
  read : read? (arrayText texts) = some (.arr (Value.canonicalItems values))
  /-- However the batch is written, it does what its elements do as frames of their own. -/
  alone : ∀ frame, read? frame = read? (arrayText texts) →
    s.handleFrame State.disconnect frame = s.handleFrames texts
  /-- An array in a batch is told to be dropped, and the batch does what it does without it. -/
  nested : ∀ frame without before items after,
    read? frame = some (.arr (before ++ .arr items :: after)) →
    read? without = some (.arr (before ++ after)) →
    let met := before.foldl (fun s v => State.handleMessage State.disconnect v s) s
    let t := s.handleFrame State.disconnect without
    ∃ more, t.journal = met.journal ++ more ∧ s.handleFrame State.disconnect frame =
      { t with journal := met.journal ++ dropped :: more }
  empty : ∀ frame, read? frame = some (.arr []) → s.handleFrame State.disconnect frame = s
  /-- Of the responses to a pending request the first one gives it its outcome, unless a handler of an
  element before it has given up everything that was pending. -/
  first : ∀ frame before v after r id, read? frame = some (.arr (before ++ v :: after)) →
    response? v = some r → r.id = some (.number id) →
    (∀ q ∈ before.filterMap response?, q.id ≠ some (.number id)) →
    s.engine.pending.contains id = true →
    GivesUp s (before.foldl (fun s v => State.handleMessage State.disconnect v s) s) ∨
      Closed id (settlements id s.journal ++ [r.outcome]) (some r.outcome)
        (s.handleFrame State.disconnect frame)

theorem handleFrame_batch {texts : List String} {values : List Value}
    (h : List.Forall₂ SpellsElement texts values) (s : State) : BatchEffect texts values s := by
  have hread : read? (arrayText texts) = some (.arr (Value.canonicalItems values)) := by
    have htext := readText?_arrayText (h.imp fun _ _ ht => ⟨ht.read, ht.shallow⟩)
    rw [read?, htext]
    rfl
  refine ⟨hread, fun frame hframe => ?_, fun frame without before items after hframe hwithout => ?_,
    fun frame hframe => handleFrame_array hframe s,
    fun frame before v after r id hframe hv hr hbefore hp => ?_⟩
  · rw [handleFrame_array (hframe.trans hread), handleFrames_alone h]
  · rw [handleFrame_array hframe, handleFrame_array hwithout]
    exact handleMessages_nested before items after s
  · obtain ⟨entry, hentry⟩ := Option.isSome_iff_exists.mp hp
    rw [handleFrame_array hframe]
    exact handleMessages_first hv hr hbefore hentry

def repeatedAnswer : List String :=
  ["7", "\x7b\"id\":1,\"result\":5\x7d", "\x7b\"method\":\"m\"\x7d", "\x7b\"id\":1,\"result\":6\x7d"]

def repeatedAnswerValues : List Value :=
  [.nat 7, .obj [("id", .nat 1), ("result", .nat 5)], .obj [("method", .str "m")],
    .obj [("id", .nat 1), ("result", .nat 6)]]

/-- The batch does what the four frames do, and the request has the first of the two results. -/
theorem handleFrame_batch_repeated :
    let s := (State.new .engine .standard 30000).after awaitingTwo
    List.Forall₂ SpellsElement repeatedAnswer repeatedAnswerValues ∧
    s.handleFrame State.disconnect (arrayText repeatedAnswer) = s.handleFrames repeatedAnswer ∧
    (s.handleFrame State.disconnect (arrayText repeatedAnswer)).engine.outcomes.get? 1 =
      some (.ok (.nat 5)) := by
  intro s
  have helements : List.Forall₂ SpellsElement repeatedAnswer repeatedAnswerValues := by
    refine .cons ⟨?_, rfl, ?_⟩ (.cons ⟨?_, rfl, ?_⟩ (.cons ⟨?_, rfl, ?_⟩
      (.cons ⟨?_, rfl, ?_⟩ .nil))) <;> decide +kernel
  have heffect := handleFrame_batch helements s
  refine ⟨helements, heffect.alone _ rfl, ?_⟩
  have hfirst := heffect.first (arrayText repeatedAnswer) [.nat 7] _ _
    ⟨"2.0", some (.number 1), some (.int 5), none⟩ 1 heffect.read (by decide +kernel) rfl nofun rfl
  have hpending : ([Value.nat 7].foldl (fun s v => State.handleMessage State.disconnect v s)
      s).engine.pending.get? 1 ≠ none := by decide +kernel
  exact (hfirst.resolve_left fun hgives => hpending (hgives.empty 1)).kept

end LanguageClient.Client
