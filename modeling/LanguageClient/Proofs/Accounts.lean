import LanguageClient.Proofs.Frame
import LanguageClient.Proofs.Run
/-!
The account of a request: what the journal says about it, and what the engine holds of it. Eight
things can happen to a request: its token was cancelled before it was sent, its frame was refused, a
response named its id, its deadline passed, its token was cancelled, everything pending was given up,
or its caller went away. Each of them keeps every account in balance.
-/
namespace LanguageClient.Client
open Transport Rpc Json

structure Terms where
  method : String
  timeout : Nat
  token : Option String

/-- What an entry says should become of a request that is still owed an outcome: an outcome, or none
at all when nobody waits for it any more. -/
def ruling? (id : Int) (terms : Terms) : Entry → Option (Option (Outcome Value))
  | .withdrawn n => if n = id then some (some (.error (.cancelled terms.method))) else none
  | .unsent n cause => if n = id then some (some (.error cause)) else none
  | .answered r =>
    if r.id = some (.number id) then
      match r.error with
      | some error => some (some (.error (.rpc error)))
      | none => some (some (.ok (r.result.getD .null)))
    else none
  | .lapsed n => if n = id then some (some (.error (.timeout terms.method terms.timeout))) else none
  | .revoked n => if n = id then some (some (.error (.cancelled terms.method))) else none
  | .gaveUp reason => some (some (.error (.transport reason)))
  | .abandoned n => if n = id then some none else none
  | _ => none

/-- The terms on which an id was issued, and all that came afterwards. -/
def sinceIssue? (id : Int) : List Entry → Option (Terms × List Entry)
  | [] => none
  | .issued n method timeout token :: rest =>
    if n = id then some (⟨method, timeout, token⟩, rest) else sinceIssue? id rest
  | _ :: rest => sinceIssue? id rest

/-- The outcome that the first entry about a request dictates. -/
def verdict (id : Int) (journal : List Entry) : Option (Outcome Value) :=
  (sinceIssue? id journal).bind fun (terms, rest) => (rest.findSome? (ruling? id terms)).join

def settlement? (id : Int) : Entry → Option (Outcome Value)
  | .settled n outcome => if n = id then some outcome else none
  | _ => none

/-- The outcomes that a request has been given. -/
def settlements (id : Int) (journal : List Entry) : List (Outcome Value) :=
  journal.filterMap (settlement? id)

def Entry.issues (id : Int) : Entry → Bool
  | .issued n .. => n == id
  | _ => false

inductive Standing where
  | unissued
  | owed (terms : Terms)
  | ruled (outcome : Option (Outcome Value))

def Standing.after (id : Int) (e : Entry) : Standing → Standing
  | unissued =>
    match e with
    | .issued n method timeout token => if n = id then owed ⟨method, timeout, token⟩ else unissued
    | _ => unissued
  | owed terms =>
    match ruling? id terms e with
    | some outcome => ruled outcome
    | none => owed terms
  | ruled outcome => ruled outcome

def standing (id : Int) (journal : List Entry) : Standing :=
  match sinceIssue? id journal with
  | none => .unissued
  | some (terms, rest) =>
    match rest.findSome? (ruling? id terms) with
    | none => .owed terms
    | some outcome => .ruled outcome

theorem sinceIssue?_append (id : Int) (journal more : List Entry) :
    sinceIssue? id (journal ++ more) =
      match sinceIssue? id journal with
      | some (terms, rest) => some (terms, rest ++ more)
      | none => sinceIssue? id more := by
  induction journal with
  | nil => rfl
  | cons d journal ih =>
    cases d with
    | issued n method timeout token =>
      by_cases h : n = id
      · simp only [List.cons_append, sinceIssue?, if_pos h]
      · simp only [List.cons_append, sinceIssue?, if_neg h, ih]
    | _ => exact ih

theorem standing_concat (id : Int) (journal : List Entry) (e : Entry) :
    standing id (journal ++ [e]) = (standing id journal).after id e := by
  unfold standing
  rw [sinceIssue?_append]
  cases hs : sinceIssue? id journal with
  | none =>
    cases e with
    | issued n method timeout token =>
      by_cases h : n = id
      · simp only [sinceIssue?, if_pos h, Standing.after, List.findSome?_nil]
      · simp only [sinceIssue?, if_neg h, Standing.after]
    | _ => rfl
  | some issue =>
    obtain ⟨terms, rest⟩ := issue
    simp only [List.findSome?_append, List.findSome?_singleton]
    cases hf : rest.findSome? (ruling? id terms) with
    | none =>
      simp only [Option.none_or, Standing.after]
      cases ruling? id terms e <;> rfl
    | some outcome => rfl

theorem verdict_eq_standing (id : Int) (journal : List Entry) :
    verdict id journal =
      match standing id journal with
      | .ruled outcome => outcome
      | _ => none := by
  rw [verdict, standing]
  cases sinceIssue? id journal with
  | none => rfl
  | some issue =>
    obtain ⟨terms, rest⟩ := issue
    simp only [Option.bind_some]
    cases rest.findSome? (ruling? id terms) <;> rfl

structure Account where
  standing : Standing
  issues : Nat
  settled : List (Outcome Value)
  pending : Option Pending
  watchdog : Option Watchdog
  outcome : Option (Outcome Value)

def account (id : Int) (s : State) : Account :=
  ⟨standing id s.journal, s.journal.countP (Entry.issues id), settlements id s.journal,
    s.engine.pending.get? id, s.engine.watchdogs.get? id, s.engine.outcomes.get? id⟩

/-- An account is in balance: a request is pending exactly while nothing has happened to it, and from
then on it has been given what was dictated, once. Its watchdog knows its timeout and its token. -/
inductive Balanced : Account → Prop where
  | unissued : Balanced ⟨.unissued, 0, [], none, none, none⟩
  | owed (terms : Terms) (guarded : Bool) (w : Option Watchdog)
    (h : ∀ d ∈ w, d.timeout = terms.timeout ∧ d.token = terms.token) :
    Balanced ⟨.owed terms, 1, [], some ⟨terms.method, guarded⟩, w, none⟩
  | ruled (outcome : Option (Outcome Value)) (w : Option Watchdog) (kept : Option (Outcome Value))
    (h : ∀ o ∈ kept, outcome = some o) :
    Balanced ⟨.ruled outcome, 1, outcome.toList, none, w, kept⟩

/-- Every account is in balance, and ids are issued in ascending order. -/
structure Sound (timeout : Nat) (s : State) : Prop where
  balanced : ∀ id, Balanced (account id s)
  fresh : ∀ id, s.engine.nextId ≤ id → standing id s.journal = .unissued
  default : s.engine.requestTimeout = timeout

/-- Two states that no account can tell apart. -/
structure Same (s t : State) : Prop where
  accounts : ∀ id, account id t = account id s
  nextId : t.engine.nextId = s.engine.nextId
  timeout : t.engine.requestTimeout = s.engine.requestTimeout

theorem Sound.of_same {timeout : Nat} {s t : State} (hs : Sound timeout s) (h : Same s t) :
    Sound timeout t where
  balanced id := by rw [h.accounts id]; exact hs.balanced id
  fresh id hid := by
    have ha := congrArg Account.standing (h.accounts id)
    exact ha.trans (hs.fresh id (by rw [← h.nextId]; exact hid))
  default := h.timeout.trans hs.default

theorem settlements_concat (id : Int) (journal : List Entry) (e : Entry) :
    settlements id (journal ++ [e]) = settlements id journal ++ (settlement? id e).toList := by
  rw [settlements, List.filterMap_append, ← settlements]
  cases h : settlement? id e <;> simp [h]

theorem issues_concat (id : Int) (journal : List Entry) (e : Entry) :
    (journal ++ [e]).countP (Entry.issues id) =
      journal.countP (Entry.issues id) + if e.issues id then 1 else 0 := by
  rw [List.countP_append, List.countP_singleton]

/-- An entry that an account takes no notice of. -/
structure Entry.Silent (id : Int) (e : Entry) : Prop where
  standing : ∀ s : Standing, s.after id e = s
  settlement : settlement? id e = none
  issue : e.issues id = false

theorem account_record {id : Int} {e : Entry} (h : e.Silent id) (s : State) :
    account id (s.record e) = account id s := by
  simp only [account, State.record, standing_concat, settlements_concat, issues_concat,
    h.standing, h.settlement, h.issue, Option.toList_none, List.append_nil, Bool.false_eq_true,
    if_false, Nat.add_zero]

theorem account_heed {n : Int} {e : Entry} (hset : settlement? n e = none)
    (hiss : e.issues n = false) (s : State) : account n (s.record e) =
      { account n s with standing := (account n s).standing.after n e } := by
  simp only [account, State.record, standing_concat, settlements_concat, issues_concat, hset, hiss,
    Option.toList_none, List.append_nil, Bool.false_eq_true, if_false, Nat.add_zero]

theorem balanced_cases {id : Int} {s : State} (h : Balanced (account id s)) :
    (s.engine.pending.get? id = none ∧ account id s = ⟨.unissued, 0, [], none, none, none⟩) ∨
    (∃ terms guarded w, s.engine.pending.get? id = some ⟨terms.method, guarded⟩ ∧
      (∀ d ∈ w, d.timeout = terms.timeout ∧ d.token = terms.token) ∧
      account id s = ⟨.owed terms, 1, [], some ⟨terms.method, guarded⟩, w, none⟩) ∨
    ∃ outcome w kept, s.engine.pending.get? id = none ∧ (∀ o ∈ kept, outcome = some o) ∧
      account id s = ⟨.ruled outcome, 1, outcome.toList, none, w, kept⟩ := by
  generalize ha : account id s = a at h
  have hp := congrArg Account.pending ha
  cases h with
  | unissued => exact .inl ⟨hp, rfl⟩
  | owed terms guarded w hw => exact .inr (.inl ⟨terms, guarded, w, hp, hw, rfl⟩)
  | ruled outcome w kept hk => exact .inr (.inr ⟨outcome, w, kept, hp, hk, rfl⟩)

def Entry.isIdle : Entry → Bool
  | .issued .. | .withdrawn _ | .unsent .. | .answered _ | .lapsed _ | .revoked _ | .gaveUp _
  | .abandoned _ | .settled .. => false
  | _ => true

private theorem Entry.silent_of_isIdle {e : Entry} (h : e.isIdle = true) (id : Int) :
    e.Silent id where
  standing s := by cases s <;> cases e <;> first | rfl | cases h
  settlement := by cases e <;> first | rfl | cases h
  issue := by cases e <;> first | rfl | cases h

/-- The engine holds the same of every request, and nothing has been told of any. -/
structure Still (s t : State) : Prop where
  nextId : t.engine.nextId = s.engine.nextId
  timeout : t.engine.requestTimeout = s.engine.requestTimeout
  pending : t.engine.pending = s.engine.pending
  watchdogs : t.engine.watchdogs = s.engine.watchdogs
  outcomes : t.engine.outcomes = s.engine.outcomes
  journal : Grows (·.isIdle = true) s t

theorem Still.of_eq {s t : State} (he : t.engine = s.engine) (hj : t.journal = s.journal) :
    Still s t := ⟨by rw [he], by rw [he], by rw [he], by rw [he], by rw [he], .of_eq hj⟩

theorem Still.refl (s : State) : Still s s := .of_eq rfl rfl

theorem Still.trans {s t u : State} (h : Still s t) (k : Still t u) : Still s u :=
  ⟨k.nextId.trans h.nextId, k.timeout.trans h.timeout, k.pending.trans h.pending,
    k.watchdogs.trans h.watchdogs, k.outcomes.trans h.outcomes, h.journal.trans k.journal⟩

theorem still_record {e : Entry} (h : e.isIdle = true) (s : State) : Still s (s.record e) :=
  ⟨rfl, rfl, rfl, rfl, rfl, grows_record h s⟩

theorem Still.record {s t : State} (h : Still s t) {e : Entry} (he : e.isIdle = true) :
    Still s (t.record e) := h.trans (still_record he t)

theorem still_send (frame : String) (s : State) : Still s (s.send frame).2 := by
  obtain ⟨g, _, _, _, h⟩ | ⟨_, h⟩ := State.send_cases frame s
  · rw [h]
    have htold : (Entry.offered frame (some g)).isIdle = true := rfl
    exact ⟨rfl, rfl, rfl, rfl, rfl, _, rfl, List.forall_mem_singleton.mpr htold⟩
  · rw [h]
    exact still_record rfl s

private theorem account_idle (id : Int) (more : List Entry) (h : ∀ e ∈ more, e.isIdle = true)
    (s : State) : account id (more.foldl (fun s e => s.record e) s) = account id s := by
  induction more generalizing s with
  | nil => rfl
  | cons e more ih =>
    have he := account_record (Entry.silent_of_isIdle (h e List.mem_cons_self) id) s
    exact (ih (fun d hd => h d (List.mem_cons_of_mem e hd)) (s.record e)).trans he

private theorem foldl_record (more : List Entry) (s : State) :
    more.foldl (fun s e => s.record e) s = { s with journal := s.journal ++ more } := by
  induction more generalizing s with
  | nil => simp
  | cons e more ih =>
    rw [List.foldl_cons, ih]
    simp [State.record]

theorem Still.same {s t : State} (h : Still s t) : Same s t := by
  obtain ⟨more, hj, hm⟩ := h.journal
  refine ⟨fun id => ?_, h.nextId, h.timeout⟩
  have ha := account_idle id more hm s
  rw [foldl_record] at ha
  rw [← ha]
  simp only [account, hj, h.pending, h.watchdogs, h.outcomes]

theorem Sound.of_still {timeout : Nat} {s t : State} (hs : Sound timeout s) (h : Still s t) :
    Sound timeout t := hs.of_same h.same

theorem account_remove (n id : Int) (entry : Pending) (s : State) :
    account id (s.remove n entry) =
      if n = id then
        { account id s with
          pending := none
          watchdog := if entry.guarded then none else (account id s).watchdog }
      else account id s := by
  by_cases h : n = id
  · simp only [account, State.remove, State.modifyEngine, Keyed.get?_erase, if_pos h]
    split
    · simp only [Keyed.get?_erase, if_pos h]
    · rfl
  · simp only [account, State.remove, State.modifyEngine, Keyed.get?_erase, if_neg h]
    split
    · simp only [Keyed.get?_erase, if_neg h]
    · rfl

theorem account_conclude (n id : Int) (outcome : Outcome Value) (s : State) :
    account id (s.conclude n outcome) =
      if n = id then
        { account id s with
          settled := (account id s).settled ++ [outcome]
          outcome := some outcome }
      else account id s := by
  have hst : ∀ t : Standing, t.after id (.settled n outcome) = t := by
    intro t
    cases t <;> rfl
  obtain ⟨ready, hc⟩ := State.conclude_eq n outcome s
  rw [hc]
  by_cases h : n = id
  · simp only [account, State.modifyEngine, standing_concat, settlements_concat, issues_concat, hst,
      settlement?, Entry.issues, Keyed.get?_put, if_pos h, Bool.false_eq_true, if_false, Nat.add_zero,
      Option.toList_some]
  · simp only [account, State.modifyEngine, standing_concat, settlements_concat, issues_concat, hst,
      settlement?, Entry.issues, Keyed.get?_put, if_neg h, Bool.false_eq_true, if_false, Nat.add_zero,
      Option.toList_none, List.append_nil]

theorem Same.conclude {s t : State} (h : Same s t) (n : Int) (outcome : Outcome Value) :
    Same (s.conclude n outcome) (t.conclude n outcome) := by
  obtain ⟨_, hs⟩ := State.conclude_eq n outcome s
  obtain ⟨_, ht⟩ := State.conclude_eq n outcome t
  refine ⟨fun id => ?_, ?_, ?_⟩
  · rw [account_conclude, account_conclude, h.accounts id]
  · rw [hs, ht]
    exact h.nextId
  · rw [hs, ht]
    exact h.timeout

theorem account_settle_other {n id : Int} (h : n ≠ id) (s : State) (f : Pending → Outcome Value) :
    account id (s.settle n f) = account id s := by
  cases hp : s.engine.pending.get? n with
  | none => rw [State.settle_absent hp]
  | some entry =>
    rw [State.settle_present hp, account_conclude, if_neg h, account_remove, if_neg h]

theorem account_settle_self {n : Int} {s : State} {entry : Pending}
    (h : s.engine.pending.get? n = some entry) (f : Pending → Outcome Value) :
    account n (s.settle n f) = { account n s with
      settled := (account n s).settled ++ [f entry]
      pending := none
      watchdog := if entry.guarded then none else (account n s).watchdog
      outcome := some (f entry) } := by
  rw [State.settle_present h, account_conclude, if_pos rfl, account_remove, if_pos rfl]

theorem nextId_settle (n : Int) (s : State) (f : Pending → Outcome Value) :
    (s.settle n f).engine.nextId = s.engine.nextId := by
  obtain ⟨_, _, _, _, _, h⟩ := State.settle_eq n f s
  rw [h]

theorem requestTimeout_settle (n : Int) (s : State) (f : Pending → Outcome Value) :
    (s.settle n f).engine.requestTimeout = s.engine.requestTimeout := by
  obtain ⟨_, _, _, _, _, h⟩ := State.settle_eq n f s
  rw [h]

theorem Standing.after_unissued {id : Int} {e : Entry} (h : e.issues id = false) :
    Standing.unissued.after id e = .unissued := by
  cases e with
  | issued n method timeout => exact if_neg (by simpa [Entry.issues] using h)
  | _ => rfl

/-- A request may be settled by an entry that dictates what it is settled with and that no other
account takes notice of. -/
theorem Sound.rule {timeout : Nat} {n : Int} {s : State} {e : Entry} {f : Pending → Outcome Value}
    (hs : Sound timeout s) (hother : ∀ id, n ≠ id → e.Silent id) (hset : settlement? n e = none)
    (hiss : e.issues n = false)
    (hown : ∀ terms guarded, standing n s.journal = .owed terms →
      ruling? n terms e = some (some (f ⟨terms.method, guarded⟩))) :
    Sound timeout ((s.record e).settle n f) := by
  have hkeep : ∀ id, n ≠ id → account id ((s.record e).settle n f) = account id s := fun id h => by
    rw [account_settle_other h, account_record (hother id h)]
  have hn : Balanced (account n ((s.record e).settle n f)) ∧ ((account n s).standing = .unissued →
      (account n ((s.record e).settle n f)).standing = .unissued) := by
    obtain ⟨hp, ha⟩ | ⟨terms, guarded, w, hp, _, ha⟩ | ⟨outcome, w, kept, hp, hk, ha⟩ :=
      balanced_cases (hs.balanced n)
    · rw [State.settle_absent (s := s.record e) hp, account_heed hset hiss, ha]
      simp only [Standing.after_unissued hiss]
      exact ⟨.unissued, fun _ => trivial⟩
    · have hr := hown terms guarded (congrArg Account.standing ha)
      rw [account_settle_self (s := s.record e) hp, account_heed hset hiss, ha]
      simp only [Standing.after, hr]
      exact ⟨.ruled _ _ _ (by simp), by simp⟩
    · rw [State.settle_absent (s := s.record e) hp, account_heed hset hiss, ha]
      exact ⟨.ruled _ _ _ hk, by simp⟩
  refine ⟨fun id => ?_, fun id hid => ?_, (requestTimeout_settle n _ f).trans hs.default⟩
  · by_cases h : n = id
    · subst h
      exact hn.1
    · rw [hkeep id h]
      exact hs.balanced id
  · rw [nextId_settle] at hid
    by_cases h : n = id
    · subst h
      exact hn.2 (hs.fresh n hid)
    · exact (congrArg Account.standing (hkeep id h)).trans (hs.fresh id hid)

theorem silent_of_ruling {id : Int} {e : Entry} (hset : settlement? id e = none)
    (hiss : e.issues id = false) (h : ∀ terms, ruling? id terms e = none) :
    e.Silent id where
  standing s := by
    cases s with
    | unissued => exact Standing.after_unissued hiss
    | owed terms => simp only [Standing.after, h]
    | ruled outcome => rfl
  settlement := hset
  issue := hiss

/-- A response settles what its id names with its error object, or else with its result. -/
theorem Sound.resolve {timeout : Nat} {s : State} (hs : Sound timeout s) (r : Response) :
    Sound timeout (s.resolve r) := by
  unfold State.resolve
  simp only
  split
  · rename_i n hr
    refine hs.rule (fun id h => ?_) rfl rfl (fun terms guarded _ => ?_)
    · refine silent_of_ruling rfl rfl fun _ => if_neg ?_
      rw [hr]
      rintro ⟨⟩
      exact h rfl
    · simp only [ruling?, hr, if_true, Response.outcome]
      cases r.error <;> rfl
  · rename_i hr
    have hq : ∀ id terms, ruling? id terms (.answered r) = none := fun id _ =>
      if_neg (hr id)
    exact hs.of_same ⟨fun id => account_record (silent_of_ruling rfl rfl (hq id)) s, rfl, rfl⟩

theorem Sound.expire {timeout : Nat} {s : State} (hs : Sound timeout s) {n : Int} {t : Nat}
    (ht : ∀ terms, standing n s.journal = .owed terms → terms.timeout = t) :
    Sound timeout (s.expire n t) := by
  refine hs.rule (fun id h => silent_of_ruling rfl rfl fun _ => if_neg h) rfl rfl ?_
  intro terms guarded h
  rw [← ht terms h]
  exact if_pos rfl

theorem same_cancel (n : Int) (s : State) :
    Same ((s.record (.revoked n)).settle n fun p => .error (.cancelled p.method)) (s.cancel n) := by
  rw [State.cancel]
  cases hp : s.engine.pending.get? n with
  | none =>
    rw [State.settle_absent (s := s.record (.revoked n)) hp]
    simp only [State.record, hp]
    exact ⟨fun _ => rfl, rfl, rfl⟩
  | some entry =>
    rw [State.settle_present (s := s.record (.revoked n)) hp]
    simp only [State.record, hp]
    exact Same.conclude (still_send _ _).same n _

theorem Sound.cancel {timeout : Nat} {s : State} (hs : Sound timeout s) (n : Int) :
    Sound timeout (s.cancel n) := by
  have h := hs.rule (e := .revoked n) (f := fun p => .error (.cancelled p.method))
    (fun id h => silent_of_ruling rfl rfl fun _ => if_neg h) rfl rfl (fun _ _ _ => if_pos rfl)
  exact h.of_same (same_cancel n s)

private theorem account_dropOutcome (n id : Int) (s : State) :
    account id (s.modifyEngine fun e => { e with outcomes := e.outcomes.erase n }) =
      if n = id then { account id s with outcome := none } else account id s := by
  by_cases h : n = id
  · simp only [account, State.modifyEngine, Keyed.get?_erase, if_pos h]
  · simp only [account, State.modifyEngine, Keyed.get?_erase, if_neg h]

theorem account_abandon_other {n id : Int} (h : n ≠ id) (s : State) :
    account id (s.abandon n) = account id s := by
  have hr : account id (s.record (.abandoned n)) = account id s :=
    account_record (e := .abandoned n) (silent_of_ruling rfl rfl fun _ => if_neg h) s
  unfold State.abandon
  simp only
  split
  · rw [account_dropOutcome, if_neg h, hr]
  · rw [account_remove, if_neg h, account_dropOutcome, if_neg h, hr]

theorem Sound.abandon {timeout : Nat} {s : State} (hs : Sound timeout s) (n : Int) :
    Sound timeout (s.abandon n) := by
  have hself : Balanced (account n (s.abandon n)) ∧ ((account n s).standing = .unissued →
      (account n (s.abandon n)).standing = .unissued) := by
    have hr := account_heed (n := n) (e := .abandoned n) rfl rfl s
    have hd := account_dropOutcome n n (s.record (.abandoned n))
    rw [if_pos rfl, hr] at hd
    obtain ⟨hp, ha⟩ | ⟨terms, guarded, w, hp, _, ha⟩ | ⟨outcome, w, kept, hp, _, ha⟩ :=
      balanced_cases (hs.balanced n)
    · have he : s.abandon n = (s.record (.abandoned n)).modifyEngine
          (fun e => { e with outcomes := e.outcomes.erase n }) := by
        simp only [State.abandon, State.record, State.modifyEngine, hp]
      rw [he, hd, ha]
      exact ⟨.unissued, fun _ => rfl⟩
    · have he : s.abandon n = ((s.record (.abandoned n)).modifyEngine
          (fun e => { e with outcomes := e.outcomes.erase n })).remove n ⟨terms.method, guarded⟩ := by
        simp only [State.abandon, State.record, State.modifyEngine, hp]
      rw [he, account_remove, if_pos rfl, hd, ha]
      have hrule : ruling? n terms (.abandoned n) = some none := if_pos rfl
      simp only [Standing.after, hrule]
      exact ⟨.ruled none _ none (by simp), by simp⟩
    · have he : s.abandon n = (s.record (.abandoned n)).modifyEngine
          (fun e => { e with outcomes := e.outcomes.erase n }) := by
        simp only [State.abandon, State.record, State.modifyEngine, hp]
      rw [he, hd, ha]
      exact ⟨.ruled outcome w none (by simp), by simp⟩
  have hengine : (s.abandon n).engine.nextId = s.engine.nextId ∧
      (s.abandon n).engine.requestTimeout = s.engine.requestTimeout := by
    unfold State.abandon
    simp only
    split <;> exact ⟨rfl, rfl⟩
  refine ⟨fun id => ?_, fun id hid => ?_, hengine.2.trans hs.default⟩
  · by_cases h : n = id
    · subst h
      exact hself.1
    · rw [account_abandon_other h]
      exact hs.balanced id
  · rw [hengine.1] at hid
    by_cases h : n = id
    · subst h
      exact hself.2 (hs.fresh n hid)
    · exact (congrArg Account.standing (account_abandon_other h s)).trans (hs.fresh id hid)

/-- While everything is given up, the requests that still wait have their outcome dictated. -/
private def GivingUp (reason : String) (s : State) (id : Int) : Prop :=
  (s.engine.pending.get? id = none ∧ Balanced (account id s)) ∨
    ∃ entry w, s.engine.pending.get? id = some entry ∧
      account id s = ⟨.ruled (some (.error (.transport reason))), 1, [], some entry, w, none⟩

private theorem GivingUp.settle {reason : String} {s : State} {id : Int} (h : GivingUp reason s id)
    (n : Int) : GivingUp reason (s.settle n fun _ => .error (.transport reason)) id := by
  by_cases hn : n = id
  · subst hn
    rcases h with ⟨hp, hb⟩ | ⟨entry, w, hp, ha⟩
    · rw [State.settle_absent hp]
      exact .inl ⟨hp, hb⟩
    · have hs := account_settle_self hp fun _ => .error (.transport reason)
      refine .inl ⟨congrArg Account.pending hs, ?_⟩
      rw [hs, ha]
      exact .ruled (some (.error (.transport reason))) _ _ (by simp)
  · have ha := account_settle_other hn s fun _ => .error (.transport reason)
    have hp : (s.settle n fun _ => .error (.transport reason)).engine.pending.get? id =
      s.engine.pending.get? id := congrArg Account.pending ha
    rw [GivingUp, ha, hp]
    exact h

theorem settle_pending_none {s : State} {id n : Int} {f : Pending → Outcome Value}
    (h : s.engine.pending.get? id = none ∨ n = id) :
    (s.settle n f).engine.pending.get? id = none := by
  by_cases hn : n = id
  · subst hn
    cases hp : s.engine.pending.get? n with
    | none => rw [State.settle_absent hp, hp]
    | some entry => exact congrArg Account.pending (account_settle_self hp f)
  · have ha := congrArg Account.pending (account_settle_other hn s f)
    exact ha.trans (h.resolve_right hn)

private theorem balanced_of_givingUp {reason : String} (ids : List Int) {s : State}
    (hg : ∀ id, GivingUp reason s id) (hp : ∀ id, s.engine.pending.get? id = none ∨ id ∈ ids)
    (id : Int) : Balanced (account id
      (ids.foldl (fun s id => s.settle id fun _ => .error (.transport reason)) s)) := by
  induction ids generalizing s with
  | nil =>
    obtain ⟨_, hb⟩ | ⟨entry, _, he, _⟩ := hg id
    · exact hb
    · have hnone := (hp id).resolve_right List.not_mem_nil
      rw [hnone] at he
      cases he
  | cons n ids ih =>
    refine ih (fun id => (hg id).settle n) fun id => ?_
    rcases hp id with h | h
    · exact .inl (settle_pending_none (.inl h))
    · rcases List.mem_cons.mp h with rfl | h
      · exact .inl (settle_pending_none (.inr rfl))
      · exact .inr h

private theorem standing_settle (n id : Int) (s : State) (f : Pending → Outcome Value) :
    (account id (s.settle n f)).standing = (account id s).standing := by
  by_cases h : n = id
  · subst h
    cases hp : s.engine.pending.get? n with
    | none => rw [State.settle_absent hp]
    | some entry => rw [account_settle_self hp]
  · rw [account_settle_other h]

private theorem settles_keep (ids : List Int) (s : State) (f : Pending → Outcome Value) :
    let t := ids.foldl (fun s id => s.settle id f) s
    (∀ id, (account id t).standing = (account id s).standing) ∧
      t.engine.nextId = s.engine.nextId ∧ t.engine.requestTimeout = s.engine.requestTimeout := by
  induction ids generalizing s with
  | nil => exact ⟨fun _ => rfl, rfl, rfl⟩
  | cons n ids ih =>
    obtain ⟨h1, h2, h3⟩ := ih (s.settle n f)
    exact ⟨fun id => (h1 id).trans (standing_settle n id s f), h2.trans (nextId_settle n s f),
      h3.trans (requestTimeout_settle n s f)⟩

/-- Giving everything up settles exactly what was pending, each request with the reason. -/
theorem Sound.abortPending {timeout : Nat} {s : State} (hs : Sound timeout s) (reason : String) :
    Sound timeout (s.abortPending reason).2 := by
  have hg : ∀ id, GivingUp reason (s.record (.gaveUp reason)) id := by
    intro id
    have hh := account_heed (n := id) (e := .gaveUp reason) rfl rfl s
    obtain ⟨hp, ha⟩ | ⟨terms, guarded, w, hp, _, ha⟩ | ⟨outcome, w, kept, hp, hk, ha⟩ :=
      balanced_cases (hs.balanced id)
    · rw [ha] at hh
      exact .inl ⟨hp, hh ▸ .unissued⟩
    · rw [ha] at hh
      exact .inr ⟨_, w, hp, hh⟩
    · rw [ha] at hh
      exact .inl ⟨hp, hh ▸ .ruled outcome w kept hk⟩
  have hp : ∀ id, (s.record (.gaveUp reason)).engine.pending.get? id = none ∨
      id ∈ ((s.record (.gaveUp reason)).engine.pending.keys).mergeSort := fun id =>
    (Keyed.get?_none_or_mem_keys _ id).imp_right List.mem_mergeSort.mpr
  obtain ⟨hst, hnext, htime⟩ := settles_keep
    ((s.record (.gaveUp reason)).engine.pending.keys).mergeSort (s.record (.gaveUp reason))
      fun _ => .error (.transport reason)
  refine ⟨balanced_of_givingUp _ hg hp, fun id hid => ?_, htime.trans hs.default⟩
  have hfresh := hs.fresh id (hnext ▸ hid)
  have hh := account_heed (n := id) (e := .gaveUp reason) rfl rfl s
  refine (hst id).trans ?_
  rw [hh]
  exact (congrArg (Standing.after id (.gaveUp reason)) hfresh).trans (Standing.after_unissued rfl)

/-- Watchdogs may go, and may learn their deadline. -/
private theorem Sound.watchdogs {timeout : Nat} {s : State} (hs : Sound timeout s)
    {ws : Keyed Int Watchdog}
    (h : ∀ id d, ws.get? id = some d →
      ∃ d', s.engine.watchdogs.get? id = some d' ∧ d.timeout = d'.timeout ∧ d.token = d'.token) :
    Sound timeout (s.modifyEngine fun e => { e with watchdogs := ws }) := by
  refine ⟨fun id => ?_, hs.fresh, hs.default⟩
  have ha : account id (s.modifyEngine fun e => { e with watchdogs := ws }) =
      { account id s with watchdog := ws.get? id } := rfl
  have hw : (account id s).watchdog = s.engine.watchdogs.get? id := rfl
  obtain ⟨_, he⟩ | ⟨terms, guarded, w, _, hd, he⟩ | ⟨outcome, w, kept, _, hk, he⟩ :=
    balanced_cases (hs.balanced id)
  · have hnone : ws.get? id = none := by
      cases hx : ws.get? id with
      | none => rfl
      | some d =>
        obtain ⟨d', hd', _⟩ := h id d hx
        rw [← hw, he] at hd'
        cases hd'
    rw [ha, he, hnone]
    exact .unissued
  · rw [ha, he]
    refine .owed terms guarded _ fun d hx => ?_
    obtain ⟨d', hd', ht, hk⟩ := h id d hx
    rw [← hw, he] at hd'
    exact ⟨ht.trans (hd d' hd').1, hk.trans (hd d' hd').2⟩
  · rw [ha, he]
    exact .ruled outcome _ kept hk

private theorem Sound.endWatchdog {timeout : Nat} {s : State} (hs : Sound timeout s) (n : Int) :
    Sound timeout (s.endWatchdog n) := by
  refine hs.watchdogs fun id d h => ?_
  rw [Keyed.get?_erase] at h
  split at h
  · cases h
  · exact ⟨d, h, rfl, rfl⟩

/-- The watchdog of a request carries the timeout and the token that the request was issued with. -/
theorem Sound.watchdog_terms {timeout : Nat} {s : State} (hs : Sound timeout s) {n : Int}
    {w : Watchdog} (hw : s.engine.watchdogs.get? n = some w) {terms : Terms}
    (hst : standing n s.journal = .owed terms) :
    w.timeout = terms.timeout ∧ w.token = terms.token := by
  have hst' : (account n s).standing = .owed terms := hst
  have hw' : (account n s).watchdog = some w := hw
  obtain ⟨_, he⟩ | ⟨_, guarded, d, _, hd, he⟩ | ⟨outcome, d, kept, _, _, he⟩ :=
    balanced_cases (hs.balanced n)
  · rw [he] at hst'
    cases hst'
  · rw [he] at hst' hw'
    cases hst'
    exact hd w hw'
  · rw [he] at hst'
    cases hst'

theorem Sound.watch {timeout : Nat} {s : State} (hs : Sound timeout s) (n : Int) :
    Sound timeout (s.watch n) := by
  rw [State.watch]
  split
  · exact hs
  · rename_i w hw
    simp only
    split
    · exact (hs.endWatchdog n).cancel n
    · split
      · exact (hs.endWatchdog n).expire fun _ h => (hs.watchdog_terms hw h).1.symm
      · split
        · exact hs
        · have hput : Sound timeout (s.modifyEngine fun e => { e with
              watchdogs := e.watchdogs.put n
                { w with deadline := some (w.deadline.getD (s.now + w.timeout)) } }) := by
            refine hs.watchdogs fun id d h => ?_
            rw [Keyed.get?_put] at h
            split at h
            · rename_i hid
              cases h
              exact ⟨w, hid ▸ hw, rfl, rfl⟩
            · exact ⟨d, h, rfl, rfl⟩
          exact hput.of_same ⟨fun _ => rfl, rfl, rfl⟩

theorem Sound.lapse {timeout : Nat} {s : State} (hs : Sound timeout s) (n : Int) :
    Sound timeout (s.lapse n) := by
  rw [State.lapse]
  split
  · exact hs
  · rename_i w hw
    split
    · exact (hs.endWatchdog n).expire fun _ h => (hs.watchdog_terms hw h).1.symm
    · exact hs

private theorem silent_issued {n id : Int} (h : n ≠ id) (method : String) (t : Nat)
    (token : Option String) : (Entry.issued n method t token).Silent id where
  standing s := by
    cases s with
    | unissued => exact if_neg h
    | _ => rfl
  settlement := rfl
  issue := by simpa [Entry.issues] using h

theorem account_enter {timeout : Nat} {s : State} (hs : Sound timeout s) (method : String)
    (options : CallOptions) (id : Int) :
    account id (s.enter method options).2 =
      if s.engine.nextId = id then
        ⟨.owed ⟨method, s.effectiveTimeout options, options.token⟩, 1, [], some ⟨method, false⟩, none,
          none⟩
      else account id s := by
  by_cases h : s.engine.nextId = id
  · subst h
    have hst : standing s.engine.nextId s.journal = .unissued := hs.fresh _ (Int.le_refl _)
    obtain ⟨_, ha⟩ | ⟨_, _, _, _, _, ha⟩ | ⟨_, _, _, _, _, ha⟩ :=
      balanced_cases (hs.balanced s.engine.nextId)
    · simp only [account, Account.mk.injEq] at ha
      obtain ⟨_, hi, hset, _, hw, ho⟩ := ha
      simp only [account, State.enter, State.modifyEngine, State.record, standing_concat,
        settlements_concat, issues_concat, Keyed.get?_put, hst, hi, hset, hw, ho, Standing.after,
        Entry.issues, settlement?, beq_self_eq_true, if_true, Option.toList_none, List.append_nil,
        Nat.zero_add]
    · cases (congrArg Account.standing ha).symm.trans hst
    · cases (congrArg Account.standing ha).symm.trans hst
  · have hsilent := silent_issued h method (s.effectiveTimeout options) options.token
    rw [if_neg h, ← account_record hsilent s]
    simp only [account, State.enter, State.modifyEngine, State.record, Keyed.get?_put, if_neg h]

theorem Sound.enter {timeout : Nat} {s : State} (hs : Sound timeout s) (method : String)
    (options : CallOptions) : Sound timeout (s.enter method options).2 := by
  refine ⟨fun id => ?_, fun id hid => ?_, hs.default⟩
  · rw [account_enter hs]
    split
    · exact .owed ⟨method, _, _⟩ false none (by simp)
    · exact hs.balanced id
  · have hlt : s.engine.nextId < id := Int.lt_of_lt_of_le (Int.lt_succ _) hid
    have ha := account_enter hs method options id
    rw [if_neg (by omega)] at ha
    exact (congrArg Account.standing ha).trans (hs.fresh id (by omega))

theorem guard_engine {s : State} {n : Int} {entry : Pending}
    (h : s.engine.pending.get? n = some entry) (options : CallOptions) :
    ((s.guard n options).attach n).engine = { s.engine with
      watchdogs := s.engine.watchdogs.put n ⟨s.effectiveTimeout options, options.token, none⟩
      pending := s.engine.pending.modify n (fun p => { p with guarded := true }) } := by
  have hc : (s.guard n options).engine.pending.contains n = true := by
    simp only [State.guard, State.wake_engine, State.modifyEngine, Keyed.contains, h,
      Option.isSome_some]
  simp only [State.attach, State.modifyEngine, hc, if_true]
  simp only [State.guard, State.wake_engine, State.modifyEngine]

theorem guard_journal (n : Int) (options : CallOptions) (s : State) :
    ((s.guard n options).attach n).journal = s.journal := by
  simp only [State.attach, State.guard, State.modifyEngine, State.wake_journal]

private theorem Sound.guard {timeout : Nat} {s : State} (hs : Sound timeout s) {n : Int}
    {options : CallOptions} {method : String} {guarded : Bool} {w : Option Watchdog}
    (ha : account n s = ⟨.owed ⟨method, s.effectiveTimeout options, options.token⟩, 1, [],
      some ⟨method, guarded⟩, w, none⟩) :
    Sound timeout ((s.guard n options).attach n) := by
  have hp : s.engine.pending.get? n = some ⟨method, guarded⟩ := congrArg Account.pending ha
  have hengine := guard_engine hp options
  have hjournal := guard_journal n options s
  refine ⟨fun id => ?_, fun id hid => ?_, ?_⟩
  · by_cases h : n = id
    · subst h
      simp only [account, Account.mk.injEq] at ha
      obtain ⟨hst, hi, hset, _, _, ho⟩ := ha
      simp only [account, hengine, hjournal, Keyed.get?_put, Keyed.get?_modify, if_true, hst, hi,
        hset, hp, ho, Option.map_some]
      exact .owed ⟨method, _, _⟩ true _ (by simp)
    · have hk : account id ((s.guard n options).attach n) = account id s := by
        simp only [account, hengine, hjournal, Keyed.get?_put, Keyed.get?_modify, if_neg h]
      rw [hk]
      exact hs.balanced id
  · rw [hengine] at hid
    rw [hjournal]
    exact hs.fresh id hid
  · rw [hengine]
    exact hs.default

theorem Sound.request {timeout : Nat} {s : State} (hs : Sound timeout s) (method : String)
    (params : Value) (options : CallOptions) :
    Sound timeout (s.request method params options).2 := by
  have he := hs.enter method options
  have ha := account_enter hs method options s.engine.nextId
  rw [if_pos rfl] at ha
  rw [State.request]
  simp only
  split
  · refine he.rule (fun id h => silent_of_ruling rfl rfl fun _ => if_neg h) rfl rfl ?_
    exact fun _ _ _ => if_pos rfl
  · obtain ⟨t, ht, h | ⟨e, h⟩⟩ := State.handOver_cases (s.enter method options).1 method params
      (s.enter method options).2
    · have hsend : Same (s.enter method options).2 t := ht ▸ (still_send _ _).same
      have hopt : t.effectiveTimeout options = s.effectiveTimeout options :=
        congrArg options.timeout.getD hsend.timeout
      rw [← hopt] at ha
      rw [h]
      exact (he.of_same hsend).guard ((hsend.accounts _).trans ha)
    · have hsend : Same (s.enter method options).2 t := ht ▸ (still_send _ _).same
      rw [h]
      exact (he.of_same hsend).rule (fun id h => silent_of_ruling rfl rfl fun _ => if_neg h) rfl rfl
        fun _ _ _ => if_pos rfl

theorem Sound.collect {timeout : Nat} {s : State} (hs : Sound timeout s) (n : Int) :
    Sound timeout ((s.collect n).elim s Prod.snd) := by
  rw [State.collect]
  cases s.engine.outcomes.get? n with
  | none => exact hs
  | some outcome =>
    refine ⟨fun id => ?_, hs.fresh, hs.default⟩
    change Balanced (account id (s.modifyEngine fun e => { e with outcomes := e.outcomes.erase n }))
    rw [account_dropOutcome]
    split
    · obtain ⟨_, ha⟩ | ⟨_, _, _, _, hd, ha⟩ | ⟨outcome, w, kept, _, _, ha⟩ :=
        balanced_cases (hs.balanced id) <;> rw [ha]
      · exact .unissued
      · exact .owed _ _ _ hd
      · exact .ruled outcome w none (by simp)
    · exact hs.balanced id

end LanguageClient.Client
