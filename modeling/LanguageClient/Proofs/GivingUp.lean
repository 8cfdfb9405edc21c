import LanguageClient.Proofs.CallsSideBySide
/-!
Everything pending is given up. That settles exactly what is pending, each request once and with the same
reason, in whatever order the table is gone through, and whatever calls are under way meanwhile. What
comes for such a request afterwards finds nothing to settle.
-/
namespace LanguageClient.Client
open Transport Rpc Json

variable {timeout : Nat} {s t u : State} {c : Callers} {reason : String} {id : Int}

namespace Account

/-- The account of a request that is settled if it is pending. -/
def given (outcome : Outcome Value) (a : Account) : Account :=
  match a.pending with
  | none => a
  | some entry =>
    { a with
      settled := a.settled ++ [outcome]
      pending := none
      watchdog := if entry.guarded then none else a.watchdog
      outcome := some outcome }

/-- The account of an id when everything pending is given up. -/
def givenUp (id : Int) (reason : String) (a : Account) : Account :=
  { a with standing := a.standing.after id (.gaveUp reason) }.given (.error (.transport reason))

variable {a : Account} {entry : Pending} {outcome : Outcome Value}

theorem given_of_absent (h : a.pending = none) (outcome : Outcome Value) : a.given outcome = a := by
  unfold given
  split
  · rfl
  · rename_i hp
    cases h.symm.trans hp

theorem given_of_pending (h : a.pending = some entry) (outcome : Outcome Value) :
    a.given outcome =
      { a with
        settled := a.settled ++ [outcome]
        pending := none
        watchdog := if entry.guarded then none else a.watchdog
        outcome := some outcome } := by
  unfold given
  split
  · rename_i hp
    cases h.symm.trans hp
  · rename_i hp
    cases h.symm.trans hp
    rfl

@[simp] theorem given_pending (outcome : Outcome Value) (a : Account) :
    (a.given outcome).pending = none := by
  unfold given
  split
  · assumption
  · rfl

@[simp] theorem given_standing (outcome : Outcome Value) (a : Account) :
    (a.given outcome).standing = a.standing := by
  unfold given
  split <;> rfl

theorem given_given (outcome other : Outcome Value) (a : Account) :
    (a.given outcome).given other = a.given outcome :=
  given_of_absent (given_pending outcome a) other

theorem givenUp_givenUp (id : Int) (reason other : String) (a : Account) :
    (a.givenUp id reason).givenUp id other = a.givenUp id reason := by
  have hst : ((a.givenUp id reason).standing).after id (.gaveUp other) =
      (a.givenUp id reason).standing := by
    simp only [givenUp, given_standing]
    cases a.standing <;> rfl
  have hp : (a.givenUp id reason).pending = none := given_pending _ _
  generalize a.givenUp id reason = b at hst hp ⊢
  rw [givenUp, hst]
  exact given_of_absent hp _

end Account

theorem Balanced.givenUp {a : Account} (h : Balanced a) (id : Int) (reason : String) :
    Balanced (a.givenUp id reason) := by
  cases h with
  | unissued => exact .unissued
  | owed terms guarded w h => exact .ruled (some (.error (.transport reason))) _ _ (by simp)
  | ruled outcome w kept h => exact .ruled outcome w kept h

theorem account_settle (n id : Int) (outcome : Outcome Value) (s : State) :
    account id (s.settle n fun _ => outcome) =
      if n = id then (account id s).given outcome else account id s := by
  by_cases h : n = id
  · subst h
    rw [if_pos rfl]
    cases hp : s.engine.pending.get? n with
    | none => rw [State.settle_absent hp, Account.given_of_absent hp]
    | some entry => rw [account_settle_self hp, Account.given_of_pending hp]
  · rw [if_neg h, account_settle_other h]

theorem account_settles (ids : List Int) (id : Int) (outcome : Outcome Value) (s : State) :
    account id (ids.foldl (fun s n => s.settle n fun _ => outcome) s) =
      if id ∈ ids then (account id s).given outcome else account id s := by
  induction ids generalizing s with
  | nil => rw [List.foldl_nil, if_neg List.not_mem_nil]
  | cons n ids ih =>
    rw [List.foldl_cons, ih, account_settle]
    by_cases hn : n = id
    · subst hn
      simp only [if_true, List.mem_cons_self, Account.given_given, ite_self]
    · simp only [if_neg hn, List.mem_cons, Ne.symm hn, false_or]

/-- On the way from one state to another everything that was pending has been given up for a reason:
each request that was pending has been given that reason once, nothing is pending any more, and of the
other requests, and of the ids that are still to come, nothing has changed. -/
structure GivenUp (reason : String) (s t : State) : Prop where
  accounts : ∀ id, account id t = (account id s).givenUp id reason
  empty : t.engine.pending = []
  nextId : t.engine.nextId = s.engine.nextId
  timeout : t.engine.requestTimeout = s.engine.requestTimeout

theorem GivenUp.before (h : Same s t) (k : GivenUp reason t u) : GivenUp reason s u :=
  ⟨fun id => by rw [k.accounts, h.accounts], k.empty, k.nextId.trans h.nextId,
    k.timeout.trans h.timeout⟩

theorem GivenUp.still (h : GivenUp reason s t) (k : Still t u) : GivenUp reason s u :=
  ⟨fun id => by rw [k.same.accounts, h.accounts], k.pending.trans h.empty, k.nextId.trans h.nextId,
    k.timeout.trans h.timeout⟩

theorem GivenUp.again {other : String} (h : GivenUp reason s t) (k : GivenUp other t u) :
    GivenUp reason s u :=
  ⟨fun id => by rw [k.accounts, h.accounts, Account.givenUp_givenUp], k.empty,
    k.nextId.trans h.nextId, k.timeout.trans h.timeout⟩

theorem GivenUp.standing_after (h : GivenUp reason s t) (id : Int) : standing id t.journal =
    (standing id s.journal).after id (.gaveUp reason) := by
  refine (congrArg Account.standing (h.accounts id)).trans ?_
  rw [Account.givenUp, Account.given_standing]
  rfl

theorem Sound.givenUp (hs : Sound timeout s) (h : GivenUp reason s t) : Sound timeout t where
  balanced id := by
    rw [h.accounts]
    exact (hs.balanced id).givenUp id reason
  fresh id hid := by
    rw [h.standing_after, hs.fresh id (h.nextId ▸ hid)]
    rfl
  default := h.timeout.trans hs.default

private theorem settles_counters (ids : List Int) (outcome : Outcome Value) (s : State) :
    let t := ids.foldl (fun s n => s.settle n fun _ => outcome) s
    t.engine.nextId = s.engine.nextId ∧ t.engine.requestTimeout = s.engine.requestTimeout := by
  induction ids generalizing s with
  | nil => exact ⟨rfl, rfl⟩
  | cons n ids ih =>
    obtain ⟨hnext, htime⟩ := ih (s.settle n fun _ => outcome)
    exact ⟨hnext.trans (nextId_settle n s _), htime.trans (requestTimeout_settle n s _)⟩

/-- In whatever order the pending requests are gone through, they are all given up. -/
theorem givenUp_settles {ids : List Int} (h : ∀ id ∈ s.engine.pending.keys, id ∈ ids)
    (reason : String) : GivenUp reason s
      (ids.foldl (fun s n => s.settle n fun _ => .error (.transport reason))
        (s.record (.gaveUp reason))) := by
  have haccounts (id : Int) : account id (ids.foldl (fun s n => s.settle n fun _ =>
      .error (.transport reason)) (s.record (.gaveUp reason))) =
        (account id s).givenUp id reason := by
    rw [account_settles, account_heed rfl rfl s, Account.givenUp]
    split
    · rfl
    · rename_i hid
      have hnone : s.engine.pending.get? id = none :=
        (Keyed.get?_none_or_mem_keys s.engine.pending id).resolve_right fun hm => hid (h id hm)
      exact (Account.given_of_absent hnone _).symm
  obtain ⟨hnext, htime⟩ := settles_counters ids (.error (.transport reason))
    (s.record (.gaveUp reason))
  refine ⟨haccounts, Keyed.eq_nil_of_get? fun id => ?_, hnext, htime⟩
  refine (congrArg Account.pending (haccounts id)).trans ?_
  exact Account.given_pending _ _

theorem givenUp_abortPending (reason : String) (s : State) :
    GivenUp reason s (s.abortPending reason).2 :=
  givenUp_settles (fun _ => List.mem_mergeSort.mpr) reason

private theorem settles_journal {ids : List Int} (hdistinct : ids.Nodup)
    (hp : ∀ id ∈ ids, s.engine.pending.get? id ≠ none) (outcome : Outcome Value) :
    (ids.foldl (fun s n => s.settle n fun _ => outcome) s).journal =
      s.journal ++ ids.map fun id => .settled id outcome := by
  induction ids generalizing s with
  | nil => exact (List.append_nil _).symm
  | cons n ids ih =>
    obtain ⟨hn, hrest⟩ := List.nodup_cons.mp hdistinct
    obtain ⟨entry, hentry⟩ := Option.ne_none_iff_exists'.mp (hp n List.mem_cons_self)
    have hothers : ∀ id ∈ ids, (s.settle n fun _ => outcome).engine.pending.get? id ≠ none := by
      intro id hid
      have hne : n ≠ id := fun h => hn (h ▸ hid)
      have ha := congrArg Account.pending (account_settle_other hne s fun _ => outcome)
      exact fun hnone => hp id (List.mem_cons_of_mem n hid) (ha.symm.trans hnone)
    rw [List.foldl_cons, ih hrest hothers, State.settle_journal hentry, List.append_assoc]
    rfl

/-- Everything pending is given up: the journal says so, and then tells the outcome of each of these
requests in the order of their ids. Nothing is written and nobody's connection, session or registration
is touched. -/
theorem abortPending_eq (hs : Listed s) (reason : String) : ∃ watchdogs outcomes ready,
    (s.abortPending reason).2 =
      { s with
        engine := { s.engine with pending := [], watchdogs, outcomes }
        ready
        journal := s.journal ++ .gaveUp reason ::
          (s.engine.pending.keys.mergeSort).map fun id => .settled id (.error (.transport reason)) } := by
  have hrest : ∃ pending watchdogs outcomes ready journal, (s.abortPending reason).2 =
      { s with engine := { s.engine with pending, watchdogs, outcomes }, ready, journal } := by
    refine State.abortPending_keeps (Q := fun t => ∃ pending watchdogs outcomes ready journal, t =
      { s with engine := { s.engine with pending, watchdogs, outcomes }, ready, journal })
      ⟨_, _, _, _, _, rfl⟩ fun n t ht => ?_
    obtain ⟨_, _, _, _, _, rfl⟩ := ht
    obtain ⟨_, _, _, _, _, h⟩ := State.settle_eq n (fun _ => .error (.transport reason)) _
    exact ⟨_, _, _, _, _, h⟩
  have hdistinct : (s.engine.pending.keys.mergeSort).Nodup := List.nodup_mergeSort.mpr hs
  have hjournal := settles_journal (s := s.record (.gaveUp reason)) hdistinct
    (fun id hid => Keyed.get?_ne_none_of_mem (List.mem_mergeSort.mp hid)) (.error (.transport reason))
  have hempty := (givenUp_abortPending reason s).empty
  obtain ⟨_, watchdogs, outcomes, ready, _, h⟩ := hrest
  have hj : (s.abortPending reason).2.journal = s.journal ++ .gaveUp reason ::
      (s.engine.pending.keys.mergeSort).map fun id => .settled id (.error (.transport reason)) :=
    hjournal.trans (List.append_assoc _ _ _)
  rw [h] at hempty hj ⊢
  exact ⟨watchdogs, outcomes, ready, by rw [← hempty, ← hj]⟩

theorem abortPending_count (reason : String) (s : State) :
    (s.abortPending reason).1 = s.engine.pending.length := by
  rw [State.abortPending, List.length_mergeSort, Keyed.keys, List.length_map]
  rfl

/-- Nothing that can still come for a request does anything: a response with its id, its deadline and
its token are told of and no more, and a watchdog that it may have left ends or waits on by itself. None
of them sends a frame. -/
structure Inert (id : Int) (s : State) : Prop where
  response : ∀ r : Response, r.id = some (.number id) → s.resolve r = s.record (.answered r)
  deadline : ∀ timeout, s.expire id timeout = s.record (.lapsed id)
  token : s.cancel id = s.record (.revoked id)
  watch : Idles id s (s.watch id)
  lapse : Idles id s (s.lapse id)

theorem inert_of_absent (h : s.engine.pending.get? id = none) : Inert id s where
  response r hr := by
    rw [State.resolve]
    simp only [hr]
    exact State.settle_absent (s := s.record (.answered r)) h _
  deadline := expire_absent h
  token := cancel_absent h
  watch := watch_idles h
  lapse := lapse_idles h

/-- The request has been given this outcome and no other, and nothing more can come of it. -/
structure Spent (id : Int) (outcome : Outcome Value) (s : State) : Prop where
  absent : s.engine.pending.get? id = none
  settled : settlements id s.journal = [outcome]
  kept : ∀ o, s.engine.outcomes.get? id = some o → o = outcome
  inert : Inert id s

theorem Sound.spent (hs : Sound timeout s) {outcome : Outcome Value}
    (h : standing id s.journal = .ruled (some outcome)) : Spent id outcome s := by
  have hst : (account id s).standing = .ruled (some outcome) := h
  obtain ⟨_, ha⟩ | ⟨_, _, _, _, _, ha⟩ | ⟨_, _, kept, hp, hk, ha⟩ := balanced_cases (hs.balanced id)
  · cases (congrArg Account.standing ha).symm.trans hst
  · cases (congrArg Account.standing ha).symm.trans hst
  · cases (congrArg Account.standing ha).symm.trans hst
    refine ⟨hp, congrArg Account.settled ha, fun o ho => ?_, inert_of_absent hp⟩
    have hkept : some o = kept := ho.symm.trans (congrArg Account.outcome ha)
    exact (Option.some.inj (hk o hkept.symm)).symm

theorem Fair.givenUp (hc : Fair timeout c) (h : GivenUp reason c.client s) :
    Fair timeout ⟨s, c.calls⟩ := by
  refine ⟨hc.sound.givenUp h, fun id call hcall hnone => ?_, fun id call terms _ howed => ?_⟩
  · refine hc.issued id call hcall ?_
    rw [h.standing_after] at hnone
    cases hbefore : standing id c.client.journal with
    | unissued => rfl
    | owed terms => rw [hbefore] at hnone; cases hnone
    | ruled outcome => rw [hbefore] at hnone; cases hnone
  · change standing id s.journal = .owed terms at howed
    rw [h.standing_after] at howed
    cases hbefore : standing id c.client.journal <;> rw [hbefore] at howed <;> cases howed

theorem GivenUp.spent (hc : Fair timeout c) (h : GivenUp reason c.client s)
    (hp : c.client.engine.pending.get? id ≠ none) (later : List Turn) :
    Spent id (.error (.transport reason)) ((Callers.mk s c.calls).after later).client := by
  have hruled : standing id s.journal = .ruled (some (.error (.transport reason))) := by
    rw [h.standing_after]
    obtain ⟨hnone, _⟩ | ⟨terms, _, _, _, _, ha⟩ | ⟨_, _, _, hnone, _, _⟩ :=
      balanced_cases (hc.sound.balanced id)
    · exact absurd hnone hp
    · have howed : standing id c.client.journal = .owed terms := congrArg Account.standing ha
      rw [howed]
      rfl
    · exact absurd hnone hp
  obtain ⟨told, hj, -⟩ := Callers.after_grows later ⟨s, c.calls⟩
  refine ((hc.givenUp h).after later).sound.spent ?_
  rw [hj]
  exact standing_more_of_ruled hruled told

/-- What becomes of a request depends on nothing that came before it was issued. -/
theorem Fair.newcomer (hc : Fair timeout c) (hid : c.client.engine.nextId ≤ id) (later : List Turn) :
    ∃ told, (c.after later).client.journal = c.client.journal ++ told ∧
      settlements id (c.after later).client.journal = (verdict id told).toList ∧
      ((c.after later).client.engine.pending.contains id ↔
        ∃ terms, standing id told = .owed terms) := by
  obtain ⟨told, hj, -⟩ := Callers.after_grows later c
  have hst : (account id (c.after later).client).standing = standing id told := by
    change standing id (c.after later).client.journal = _
    rw [hj]
    exact standing_more_of_unissued (hc.sound.fresh id hid) told
  have hset : settlements id (c.after later).client.journal =
    (account id (c.after later).client).settled := rfl
  refine ⟨told, hj, ?_⟩
  rw [hset, Keyed.contains, verdict_eq_standing, ← hst]
  obtain ⟨hp, ha⟩ | ⟨terms, _, _, hp, _, ha⟩ | ⟨outcome, _, _, hp, _, ha⟩ :=
    balanced_cases ((hc.after later).sound.balanced id) <;> rw [ha, hp]
  · exact ⟨rfl, by simp⟩
  · exact ⟨rfl, by simp⟩
  · exact ⟨rfl, by simp⟩

end LanguageClient.Client
