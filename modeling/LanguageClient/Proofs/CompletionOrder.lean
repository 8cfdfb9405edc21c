import LanguageClient.Proofs.InboundFrames
/-!
The order in which a server answers makes no difference. Each of several responses with ids of their own
concerns its own request alone, so that together they have one effect, whichever comes first and however
they are put into frames.
-/
namespace LanguageClient.Client
open Transport Rpc Json Session

def number? (r : Response) : Option Int :=
  match r.id with
  | some (.number n) => some n
  | _ => none

theorem number?_eq_some {r : Response} {n : Int} :
    number? r = some n ↔ r.id = some (.number n) := by
  unfold number?
  split
  · rename_i m h
    rw [h]
    exact ⟨fun heq => by rw [Option.some.inj heq], fun heq => by cases heq; rfl⟩
  · rename_i h
    exact ⟨nofun, fun heq => (h n heq).elim⟩

/-- The frames hold nothing but responses, and no number is named twice. -/
structure OnlyResponses (frames : List String) : Prop where
  only : ∀ frame ∈ frames, ∀ v ∈ elements frame, (response? v).isSome
  distinct : ((frames.flatMap responses).filterMap number?).Nodup

/-- What responses with numbers of their own bring about: each request that is named gets its outcome if
it is pending, and nothing else happens to requests. -/
structure Responded (rs : List Response) (s t : State) : Prop where
  nextId : t.engine.nextId = s.engine.nextId
  pending : t.engine.pending = s.engine.pending.filter fun e => e.1 ∉ rs.filterMap number?
  named : ∀ r ∈ rs, ∀ id, r.id = some (.number id) → account id t = (account id s).answered id r
  unnamed : ∀ id, id ∉ rs.filterMap number? → account id t = account id s

theorem mem_numbers {rs : List Response} {id : Int} :
    id ∈ rs.filterMap number? ↔ ∃ r ∈ rs, r.id = some (.number id) := by
  simp only [List.mem_filterMap, number?_eq_some]

variable {s t u : State}

theorem Responded.of_still (h : Still s t) : Responded [] s t where
  nextId := h.nextId
  pending := by
    rw [h.pending]
    exact (List.filter_eq_self.mpr fun e _ => rfl).symm
  named r hr := by cases hr
  unnamed id _ := h.same.accounts id

private theorem pending_resolve (r : Response) (s : State) : (s.resolve r).engine.pending =
    s.engine.pending.filter fun e => e.1 ∉ [r].filterMap number? := by
  cases hr : number? r with
  | none =>
    have hnumber : ∀ n, r.id ≠ some (.number n) := fun n hn => by
      cases hr.symm.trans (number?_eq_some.mpr hn)
    have hsame : (s.resolve r).engine.pending = s.engine.pending := by
      rw [State.resolve]
      split
      · rename_i n hn
        exact (hnumber n hn).elim
      · rfl
    rw [hsame, List.filterMap_cons_none hr]
    exact (List.filter_eq_self.mpr fun e _ => rfl).symm
  | some n =>
    have herase : (s.resolve r).engine.pending = s.engine.pending.erase n := by
      rw [resolve_number (number?_eq_some.mp hr)]
      cases hp : s.engine.pending.get? n with
      | none =>
        rw [State.settle_absent (s := s.record (.answered r)) hp, Keyed.erase_of_get?_none hp]
        rfl
      | some entry =>
        obtain ⟨_, hc⟩ := State.conclude_eq n r.outcome ((s.record (.answered r)).remove n entry)
        rw [State.settle_present (s := s.record (.answered r)) hp, hc]
        rfl
    rw [herase, List.filterMap_cons_some hr, List.filterMap_nil]
    exact List.filter_congr fun e _ => decide_eq_decide.mpr (not_congr List.mem_singleton.symm)

theorem responded_resolve (r : Response) (s : State) : Responded [r] s (s.resolve r) where
  nextId := (handles_resolve (R := fun _ => True) trivial s).nextId
  pending := pending_resolve r s
  named q hq id hid := by
    obtain rfl := List.mem_singleton.mp hq
    exact account_resolve hid s
  unnamed id hid := resolve_other (fun h => hid (mem_numbers.mpr ⟨r, List.mem_cons_self, h⟩)) s

theorem Responded.trans {ps qs : List Response} (h : Responded ps s t) (k : Responded qs t u)
    (hapart : ∀ id ∈ ps.filterMap number?, id ∉ qs.filterMap number?) :
    Responded (ps ++ qs) s u where
  nextId := k.nextId.trans h.nextId
  pending := by
    rw [k.pending, h.pending, List.filter_filter]
    refine List.filter_congr fun e _ => ?_
    simp only [List.filterMap_append, List.mem_append, not_or, Bool.decide_and, Bool.and_comm]
  named r hr id hid := by
    rcases List.mem_append.mp hr with hr | hr
    · rw [k.unnamed id (hapart id (mem_numbers.mpr ⟨r, hr, hid⟩)), h.named r hr id hid]
    · have hno : id ∉ ps.filterMap number? := fun hps =>
        hapart id hps (mem_numbers.mpr ⟨r, hr, hid⟩)
      rw [k.named r hr id hid, h.unnamed id hno]
  unnamed id hid := by
    rw [List.filterMap_append, List.mem_append, not_or] at hid
    rw [k.unnamed id hid.2, h.unnamed id hid.1]

private theorem responded_handleMessages {vs : List Value} (hall : ∀ v ∈ vs, (response? v).isSome)
    (hdistinct : ((vs.filterMap response?).filterMap number?).Nodup) (s : State) :
    Responded (vs.filterMap response?) s
      (vs.foldl (fun s v => State.handleMessage State.disconnect v s) s) := by
  induction vs generalizing s with
  | nil => exact .of_still (.refl s)
  | cons v vs ih =>
    obtain ⟨r, hr⟩ := Option.isSome_iff_exists.mp (hall v List.mem_cons_self)
    have hsplit : (v :: vs).filterMap response? = [r] ++ vs.filterMap response? :=
      List.filterMap_cons_some hr
    rw [hsplit, List.filterMap_append, List.nodup_append] at hdistinct
    obtain ⟨-, hvs, hapart⟩ := hdistinct
    have hrest := ih (fun w hw => hall w (List.mem_cons_of_mem v hw)) hvs (s.resolve r)
    rw [List.foldl_cons, handleMessage_response hr, hsplit]
    exact (responded_resolve r s).trans hrest fun id hid hmem => hapart id hid id hmem rfl

theorem responded_handleFrame {frame : String} (hall : ∀ v ∈ elements frame, (response? v).isSome)
    (hdistinct : ((responses frame).filterMap number?).Nodup) (s : State) :
    Responded (responses frame) s (s.handleFrame State.disconnect frame) := by
  rw [responses_eq] at hdistinct ⊢
  rw [State.handleFrame]
  unfold elements at hall hdistinct ⊢
  cases hparse : Payload.parse frame with
  | error e => exact .of_still (still_record rfl s)
  | ok payload =>
    simp only [hparse] at hall hdistinct ⊢
    exact responded_handleMessages hall hdistinct s

theorem responded_handleFrames {frames : List String} (h : OnlyResponses frames) (s : State) :
    Responded (frames.flatMap responses) s (s.handleFrames frames) := by
  obtain ⟨hall, hdistinct⟩ := h
  induction frames generalizing s with
  | nil => exact .of_still (.refl s)
  | cons frame frames ih =>
    rw [List.flatMap_cons, List.filterMap_append, List.nodup_append] at hdistinct
    obtain ⟨hframe, hframes, hapart⟩ := hdistinct
    have hfirst := responded_handleFrame (hall frame List.mem_cons_self) hframe s
    have hrest := ih (s.handleFrame State.disconnect frame)
      (fun f hf => hall f (List.mem_cons_of_mem frame hf)) hframes
    rw [List.flatMap_cons]
    exact hfirst.trans hrest fun id hid hmem => hapart id hid id hmem rfl

theorem OnlyResponses.perm {fs gs : List String} (h : OnlyResponses fs) (hperm : fs.Perm gs) :
    OnlyResponses gs where
  only frame hframe := h.only frame (hperm.mem_iff.mpr hframe)
  distinct := ((hperm.flatMap_right responses).filterMap number?).nodup_iff.mp h.distinct

/-- The effect of responses does not depend on their order. -/
theorem Responded.unique {ps qs : List Response} (h : Responded ps s t) (k : Responded qs s u)
    (hperm : ps.Perm qs) : u.engine.pending = t.engine.pending ∧
      u.engine.nextId = t.engine.nextId ∧ ∀ id, account id u = account id t := by
  have hnumbers (id : Int) : id ∈ qs.filterMap number? ↔ id ∈ ps.filterMap number? :=
    (hperm.filterMap number?).mem_iff.symm
  refine ⟨?_, k.nextId.trans h.nextId.symm, fun id => ?_⟩
  · rw [k.pending, h.pending]
    exact List.filter_congr fun e _ => decide_eq_decide.mpr (not_congr (hnumbers e.1))
  · by_cases hid : id ∈ ps.filterMap number?
    · obtain ⟨r, hr, hrid⟩ := mem_numbers.mp hid
      rw [h.named r hr id hrid, k.named r (hperm.mem_iff.mp hr) id hrid]
    · rw [h.unnamed id hid, k.unnamed id fun hq => hid ((hnumbers id).mp hq)]

/-- In whatever order the server's frames arrive, the same requests are pending afterwards, ids go on
from the same one, and everything that is held and told of any request is the same: who is named has the
response's outcome, if it was pending, and nobody else has anything. -/
theorem handleFrames_perm {fs gs : List String} (h : OnlyResponses fs) (hperm : fs.Perm gs)
    (s : State) : Responded (fs.flatMap responses) s (s.handleFrames fs) ∧
      (s.handleFrames gs).engine.pending = (s.handleFrames fs).engine.pending ∧
      (s.handleFrames gs).engine.nextId = (s.handleFrames fs).engine.nextId ∧
      ∀ id, account id (s.handleFrames gs) = account id (s.handleFrames fs) := by
  have ht := responded_handleFrames h s
  have hu := responded_handleFrames (h.perm hperm) s
  exact ⟨ht, ht.unique hu (hperm.flatMap_right responses)⟩

def secondAnswer : String := "\x7b\"id\":2,\"result\":\"b\"\x7d"

/-- An error for the first request, and a result that nobody waits for. -/
def firstAnswer : String :=
  "[\x7b\"id\":1,\"error\":\x7b\"code\":-1,\"message\":\"a\"\x7d\x7d,\x7b\"id\":9,\"result\":0\x7d]"

private theorem elements_secondAnswer :
    elements secondAnswer = [.obj [("id", .nat 2), ("result", .str "b")]] := by decide +kernel

private theorem elements_firstAnswer : elements firstAnswer =
    [.obj [("error", .obj [("code", .int (-1)), ("message", .str "a")]), ("id", .nat 1)],
      .obj [("id", .nat 9), ("result", .nat 0)]] := by decide +kernel

private theorem responses_answers : [secondAnswer, firstAnswer].flatMap responses =
    [⟨"2.0", some (.number 2), some (.str "b"), none⟩,
      ⟨"2.0", some (.number 1), none, some ⟨-1, "a", none⟩⟩,
      ⟨"2.0", some (.number 9), some (.int 0), none⟩] := by
  simp only [List.flatMap_cons, List.flatMap_nil, responses_eq, elements_secondAnswer,
    elements_firstAnswer]
  decide +kernel

private theorem onlyResponses_answers : OnlyResponses [secondAnswer, firstAnswer] where
  only frame hframe v hv := by
    simp only [List.mem_cons, List.not_mem_nil, or_false] at hframe
    obtain rfl | rfl := hframe
    · rw [elements_secondAnswer] at hv
      revert v
      decide +kernel
    · rw [elements_firstAnswer] at hv
      revert v
      decide +kernel
  distinct := by
    rw [responses_answers]
    decide +kernel

/-- Both requests have their outcomes, and the same ones, whichever frame comes first. -/
theorem handleFrames_perm_swapped :
    let s := (State.new .engine .standard 30000).after awaitingTwo
    OnlyResponses [secondAnswer, firstAnswer] ∧
      [secondAnswer, firstAnswer].Perm [firstAnswer, secondAnswer] ∧
      (s.handleFrames [firstAnswer, secondAnswer]).engine.pending =
        (s.handleFrames [secondAnswer, firstAnswer]).engine.pending ∧
      (∀ id, account id (s.handleFrames [firstAnswer, secondAnswer]) =
        account id (s.handleFrames [secondAnswer, firstAnswer])) ∧
      (account 1 (s.handleFrames [secondAnswer, firstAnswer])).settled =
        [.error (.rpc ⟨-1, "a", none⟩)] ∧
      (account 2 (s.handleFrames [secondAnswer, firstAnswer])).settled = [.ok (.str "b")] := by
  intro s
  have hperm : [secondAnswer, firstAnswer].Perm [firstAnswer, secondAnswer] := .swap _ _ _
  obtain ⟨hresponded, hpending, -, haccounts⟩ := handleFrames_perm onlyResponses_answers hperm s
  rw [responses_answers] at hresponded
  have hfirst := hresponded.named _ (List.mem_cons_of_mem _ List.mem_cons_self) 1 rfl
  have hsecond := hresponded.named _ List.mem_cons_self 2 rfl
  refine ⟨onlyResponses_answers, hperm, hpending, haccounts, ?_, ?_⟩
  · rw [hfirst]
    rfl
  · rw [hsecond]
    rfl

end LanguageClient.Client
