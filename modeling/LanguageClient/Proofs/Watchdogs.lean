import LanguageClient.Proofs.Settlement
/-!
Requests that are issued side by side. A call that issues a request takes several steps, and between
any two of them everything else may go on: other calls, inbound frames, deadlines, tokens, callers that
go away, and everything pending being given up. Once a call has returned, its request is in the table
exactly while its watchdog is armed, so that no request is stuck and no watchdog is left over.
-/
namespace LanguageClient.Client
open Relation Transport Rpc Json Session

inductive Progress where
  | entered
  /-- Its token had not been cancelled, and its frame is to be handed over. -/
  | admitted
  /-- Its frame has been taken, and its watchdog is to be started. -/
  | handedOver
  /-- Its watchdog has been started, and is to be attached. -/
  | guarded
  deriving DecidableEq

structure Call where
  method : String
  params : Value
  options : CallOptions
  progress : Progress

/-- A client and the calls that have not returned, by the ids of their requests. -/
structure Callers where
  client : State
  calls : Keyed Int Call

namespace Callers

def new (layer : Layer) (options : Options) (timeout : Nat) : Callers :=
  ⟨State.new layer options timeout, []⟩

/-- A call begins: its request takes an id and enters the table. -/
def enter (method : String) (params : Value) (options : CallOptions) (c : Callers) : Callers :=
  let (id, client) := c.client.enter method options
  ⟨client, c.calls.put id ⟨method, params, options, .entered⟩⟩

def advance (id : Int) (call : Call) (progress : Progress) (client : State) (c : Callers) :
    Callers := ⟨client, c.calls.put id { call with progress }⟩

def leave (id : Int) (client : State) (c : Callers) : Callers := ⟨client, c.calls.erase id⟩

/-- The next step of a call. A request that is settled before it has a watchdog gets none. -/
def proceed (id : Int) (c : Callers) : Callers :=
  match c.calls.get? id with
  | none => c
  | some call =>
    match call.progress with
    | .entered =>
      if c.client.tokenCancelled call.options then
        c.leave id ((c.client.record (.withdrawn id)).settle id fun p =>
          .error (.cancelled p.method))
      else c.advance id call .admitted c.client
    | .admitted =>
      match c.client.handOver id call.method call.params with
      | (false, s) => c.leave id s
      | (true, s) => c.advance id call .handedOver s
    | .handedOver => c.advance id call .guarded (c.client.guard id call.options)
    | .guarded => c.leave id (c.client.attach id)

end Callers

/-- What may come next: a call begins or goes on, or anything at all happens to the client. -/
inductive Turn where
  | enter (method : String) (params : Value) (options : CallOptions)
  | proceed (id : Int)
  | move (m : Move)

def Turn.apply (t : Turn) (c : Callers) : Callers :=
  match t with
  | .enter method params options => c.enter method params options
  | .proceed id => c.proceed id
  | .move m => ⟨m.apply c.client, c.calls⟩

def Callers.after (c : Callers) (turns : List Turn) : Callers :=
  turns.foldl (fun c t => t.apply c) c

namespace Callers

theorem proceed_absent {id : Int} {c : Callers} (h : c.calls.get? id = none) :
    c.proceed id = c := by
  rw [proceed, h]

theorem proceed_present {id : Int} {c : Callers} {call : Call} (h : c.calls.get? id = some call) :
    c.proceed id =
      match call.progress with
      | .entered =>
        if c.client.tokenCancelled call.options then
          c.leave id ((c.client.record (.withdrawn id)).settle id fun p =>
            .error (.cancelled p.method))
        else c.advance id call .admitted c.client
      | .admitted =>
        match c.client.handOver id call.method call.params with
        | (false, s) => c.leave id s
        | (true, s) => c.advance id call .handedOver s
      | .handedOver => c.advance id call .guarded (c.client.guard id call.options)
      | .guarded => c.leave id (c.client.attach id) := by
  rw [proceed, h]

@[simp] theorem calls_advance (id n : Int) (call : Call) (progress : Progress) (client : State)
    (c : Callers) : (c.advance id call progress client).calls.get? n =
      if id = n then some { call with progress } else c.calls.get? n := Keyed.get?_put _ _ _ _

@[simp] theorem calls_leave (id n : Int) (client : State) (c : Callers) :
    (c.leave id client).calls.get? n = if id = n then none else c.calls.get? n :=
  Keyed.get?_erase _ _ _

theorem calls_enter (method : String) (params : Value) (options : CallOptions) (c : Callers)
    (n : Int) : (c.enter method params options).calls.get? n =
      if c.client.engine.nextId = n then some ⟨method, params, options, .entered⟩
      else c.calls.get? n := Keyed.get?_put _ _ _ _

theorem calls_proceed {id n : Int} (h : id ≠ n) (c : Callers) :
    (c.proceed id).calls.get? n = c.calls.get? n := by
  cases hc : c.calls.get? id with
  | none => rw [proceed_absent hc]
  | some call =>
    rw [proceed_present hc]
    cases call.progress with
    | entered =>
      simp only
      split
      · rw [calls_leave, if_neg h]
      · rw [calls_advance, if_neg h]
    | admitted =>
      simp only
      split
      · rw [calls_leave, if_neg h]
      · rw [calls_advance, if_neg h]
    | handedOver => rw [calls_advance, if_neg h]
    | guarded => rw [calls_leave, if_neg h]

private theorem proceed_left (id : Int) (client : State) (c : Callers) :
    (c.leave id client).proceed id = c.leave id client :=
  proceed_absent (by rw [calls_leave, if_pos rfl])

/-- With nothing in between, the steps of a call are the issue of its request. -/
theorem request_eq (method : String) (params : Value) (options : CallOptions) (c : Callers) :
    let n := c.client.engine.nextId
    let d := ((((c.enter method params options).proceed n).proceed n).proceed n).proceed n
    d.client = (c.client.request method params options).2 ∧ d.calls.get? n = none ∧
      ∀ id, n ≠ id → d.calls.get? id = c.calls.get? id := by
  intro n d
  have hothers : ∀ id, n ≠ id → d.calls.get? id = c.calls.get? id := fun id h => by
    rw [calls_proceed h, calls_proceed h, calls_proceed h, calls_proceed h, calls_enter, if_neg h]
  -- whatever the call comes to, it returns within four steps
  suffices hd : ∃ b : Callers, d = b.leave n (c.client.request method params options).2 by
    obtain ⟨b, hb⟩ := hd
    exact ⟨by rw [hb]; rfl, by rw [hb, calls_leave, if_pos rfl], hothers⟩
  have hentered : (c.enter method params options).calls.get? n =
      some ⟨method, params, options, .entered⟩ := by rw [calls_enter, if_pos rfl]
  have hclient : (c.enter method params options).client = (c.client.enter method options).2 := rfl
  have hid : (c.client.enter method options).1 = n := rfl
  rw [State.request]
  simp only [hid, d]
  generalize c.enter method params options = c₁ at hentered hclient ⊢
  generalize (c.client.enter method options).2 = u at hclient ⊢
  have hlook := proceed_present hentered
  simp only [hclient] at hlook
  split at hlook <;> rename_i ht
  · exact ⟨c₁, by simp only [hlook, proceed_left, ht, if_true]⟩
  have hadmitted : (c₁.proceed n).calls.get? n = some ⟨method, params, options, .admitted⟩ := by
    rw [hlook, calls_advance, if_pos rfl]
  have hclient₂ : (c₁.proceed n).client = u := by rw [hlook]; rfl
  rw [if_neg ht]
  generalize c₁.proceed n = c₂ at hadmitted hclient₂ ⊢
  have hhand := proceed_present hadmitted
  simp only [hclient₂] at hhand
  rcases hs : u.handOver n method params with ⟨taken, s⟩
  rw [hs] at hhand
  cases taken with
  | false => exact ⟨c₂, by simp only [hhand, proceed_left]⟩
  | true =>
    have hhanded : (c₂.proceed n).calls.get? n = some ⟨method, params, options, .handedOver⟩ := by
      simp only [hhand, calls_advance, if_pos]
    have hclient₃ : (c₂.proceed n).client = s := by rw [hhand]; rfl
    generalize c₂.proceed n = c₃ at hhanded hclient₃ ⊢
    have hguard := proceed_present hhanded
    have hguarded : (c₃.proceed n).calls.get? n = some ⟨method, params, options, .guarded⟩ := by
      rw [hguard, calls_advance, if_pos rfl]
    refine ⟨c₃.proceed n, ?_⟩
    rw [proceed_present hguarded, hguard, ← hclient₃]
    rfl

end Callers

/-- What the engine may hold of a request, by how far its call has come if that has not returned. -/
inductive Attended : Option Progress → Option Pending → Option Watchdog → Prop where
  | gone (progress : Option Progress) : Attended progress none none
  | armed (method : String) (w : Watchdog) : Attended none (some ⟨method, true⟩) (some w)
  | unguarded {progress : Progress} (h : progress ≠ .guarded) (method : String) :
    Attended (some progress) (some ⟨method, false⟩) none
  /-- The watchdog has been started and not attached; what settles the request leaves it alone. -/
  | loose (method : String) (w : Watchdog) :
    Attended (some .guarded) (some ⟨method, false⟩) (some w)
  | orphaned (w : Watchdog) : Attended (some .guarded) none (some w)

/-- Every request is attended to, and no id has been used that is still to come. -/
structure Attends (calls : Keyed Int Call) (s : State) : Prop where
  attended : ∀ id, Attended ((calls.get? id).map Call.progress) (s.engine.pending.get? id)
    (s.engine.watchdogs.get? id)
  fresh : ∀ id, s.engine.nextId ≤ id →
    calls.get? id = none ∧ s.engine.pending.get? id = none

variable {calls : Keyed Int Call} {s t : State}

theorem Attends.of_same (hs : Attends calls s) (h : Same s t) : Attends calls t where
  attended id := by
    have hp : t.engine.pending.get? id = s.engine.pending.get? id :=
      congrArg Account.pending (h.accounts id)
    have hw : t.engine.watchdogs.get? id = s.engine.watchdogs.get? id :=
      congrArg Account.watchdog (h.accounts id)
    rw [hp, hw]
    exact hs.attended id
  fresh id hid := by
    have hp : t.engine.pending.get? id = s.engine.pending.get? id :=
      congrArg Account.pending (h.accounts id)
    rw [hp]
    exact hs.fresh id (h.nextId ▸ hid)

theorem Attends.of_calls {other : Keyed Int Call} (hs : Attends calls s)
    (h : ∀ id, other.get? id = calls.get? id) : Attends other s :=
  ⟨fun id => by rw [h]; exact hs.attended id, fun id hid => by rw [h]; exact hs.fresh id hid⟩

theorem Attends.record (hs : Attends calls s) (e : Entry) : Attends calls (s.record e) :=
  ⟨hs.attended, hs.fresh⟩

/-- An entry that goes takes the watchdog with it that is attached to it, and no other. -/
theorem Attends.remove (hs : Attends calls s) {n : Int} {entry : Pending}
    (h : s.engine.pending.get? n = some entry) : Attends calls (s.remove n entry) := by
  refine ⟨fun id => ?_, fun id hid => ?_⟩
  · have hid := hs.attended id
    have ha := account_remove n id entry s
    have hp := congrArg Account.pending ha
    have hw := congrArg Account.watchdog ha
    by_cases hn : n = id
    · subst hn
      rw [if_pos rfl] at hp hw
      change (s.remove n entry).engine.pending.get? n = none at hp
      change (s.remove n entry).engine.watchdogs.get? n =
        if entry.guarded then none else s.engine.watchdogs.get? n at hw
      rw [h] at hid
      rw [hp, hw]
      generalize s.engine.watchdogs.get? n = w at hid ⊢
      generalize (calls.get? n).map Call.progress = progress at hid ⊢
      cases hid with
      | armed method w => exact .gone none
      | unguarded h method => exact .gone _
      | loose method w => exact .orphaned w
    · rw [if_neg hn] at hp hw
      change (s.remove n entry).engine.pending.get? id = s.engine.pending.get? id at hp
      change (s.remove n entry).engine.watchdogs.get? id = s.engine.watchdogs.get? id at hw
      rw [hp, hw]
      exact hid
  · obtain ⟨hc, hp⟩ := hs.fresh id hid
    refine ⟨hc, ?_⟩
    change Keyed.get? (Keyed.erase n s.engine.pending) id = none
    rw [Keyed.get?_erase, hp, ite_self]

theorem Attends.settle (hs : Attends calls s) (n : Int) (f : Pending → Outcome Value) :
    Attends calls (s.settle n f) := by
  cases hp : s.engine.pending.get? n with
  | none =>
    rw [State.settle_absent hp]
    exact hs
  | some entry =>
    obtain ⟨_, hc⟩ := State.conclude_eq n (f entry) (s.remove n entry)
    have hremoved := hs.remove hp
    rw [State.settle_present hp, hc]
    exact ⟨hremoved.attended, hremoved.fresh⟩

private theorem Attends.fire (hs : Attends calls s) (n : Int) (e : Entry)
    (f : Pending → Outcome Value) :
    Attends calls (((s.endWatchdog n).record e).settle n f) := by
  have hend (id : Int) : ((s.endWatchdog n).record e).engine.watchdogs.get? id =
      if n = id then none else s.engine.watchdogs.get? id := Keyed.get?_erase _ _ _
  refine ⟨fun id => ?_, fun id hid => ?_⟩
  · by_cases h : n = id
    · subst h
      have hp := settle_pending_none (s := (s.endWatchdog n).record e) (f := f) (.inr (rfl : n = n))
      have hw : (((s.endWatchdog n).record e).settle n f).engine.watchdogs.get? n = none := by
        cases hp : ((s.endWatchdog n).record e).engine.pending.get? n with
        | none => rw [State.settle_absent hp, hend, if_pos rfl]
        | some entry =>
          refine (congrArg Account.watchdog (account_settle_self hp f)).trans ?_
          simp only [account, hend, if_true, ite_self]
      rw [hp, hw]
      exact .gone _
    · have ha := account_settle_other h ((s.endWatchdog n).record e) f
      have hp' : (((s.endWatchdog n).record e).settle n f).engine.pending.get? id =
          s.engine.pending.get? id := congrArg Account.pending ha
      have hw' := congrArg Account.watchdog ha
      simp only [account, hend, if_neg h] at hw'
      rw [hp', hw']
      exact hs.attended id
  · rw [nextId_settle] at hid
    obtain ⟨hc, hp⟩ := hs.fresh id hid
    exact ⟨hc, settle_pending_none (.inl hp)⟩

private theorem Attends.watch (hs : Attends calls s) (n : Int) : Attends calls (s.watch n) := by
  rw [State.watch]
  cases hw : s.engine.watchdogs.get? n with
  | none => exact hs
  | some w =>
    simp only
    split
    · exact (hs.fire n _ _).of_same (same_cancel n (s.endWatchdog n))
    · split
      · exact hs.fire n _ _
      · split
        · exact hs
        · refine ⟨fun id => ?_, hs.fresh⟩
          have hid := hs.attended id
          change Attended _ (s.engine.pending.get? id) (Keyed.get? (Keyed.put n _ s.engine.watchdogs) id)
          rw [Keyed.get?_put]
          split
          · rename_i h
            subst h
            rw [hw] at hid
            generalize s.engine.pending.get? n = p at hid ⊢
            generalize (calls.get? n).map Call.progress = progress at hid ⊢
            cases hid with
            | armed method _ => exact .armed method _
            | loose method _ => exact .loose method _
            | orphaned _ => exact .orphaned _
          · exact hid

private theorem Attends.lapse (hs : Attends calls s) (n : Int) : Attends calls (s.lapse n) := by
  rw [State.lapse]
  split
  · exact hs
  · split
    · exact hs.fire n _ _
    · exact hs

private theorem Attends.abandon (hs : Attends calls s) (n : Int) :
    Attends calls (s.abandon n) := by
  have hforgotten : Attends calls ((s.record (.abandoned n)).modifyEngine fun e =>
      { e with outcomes := e.outcomes.erase n }) := ⟨hs.attended, hs.fresh⟩
  unfold State.abandon
  simp only
  split
  · exact hforgotten
  · rename_i hp
    exact hforgotten.remove hp

private theorem Attends.step (hs : Attends calls s) {other : Keyed Int Call} {n : Int}
    (hcalls : ∀ id, n ≠ id → other.get? id = calls.get? id)
    (hpending : ∀ id, n ≠ id → t.engine.pending.get? id = s.engine.pending.get? id)
    (hwatchdogs : ∀ id, n ≠ id → t.engine.watchdogs.get? id = s.engine.watchdogs.get? id)
    (hnext : s.engine.nextId ≤ t.engine.nextId) (hn : n < t.engine.nextId)
    (own : Attended ((other.get? n).map Call.progress) (t.engine.pending.get? n)
      (t.engine.watchdogs.get? n)) : Attends other t := by
  refine ⟨fun id => ?_, fun id hid => ?_⟩
  · by_cases h : n = id
    · exact h ▸ own
    · rw [hcalls id h, hpending id h, hwatchdogs id h]
      exact hs.attended id
  · have h : n ≠ id := by omega
    rw [hcalls id h, hpending id h]
    exact hs.fresh id (by omega)

theorem Attends.enter {c : Callers} (hc : Attends c.calls c.client) (method : String)
    (params : Value) (options : CallOptions) :
    Attends (c.enter method params options).calls (c.enter method params options).client := by
  have hnext : (c.enter method params options).client.engine.nextId = c.client.engine.nextId + 1 := rfl
  obtain ⟨hcall, hpending⟩ := hc.fresh _ (Int.le_refl c.client.engine.nextId)
  have hn := hc.attended c.client.engine.nextId
  refine hc.step (n := c.client.engine.nextId) (fun id h => ?_) (fun id h => ?_) (fun id h => rfl)
    (by omega) (by omega) ?_
  · rw [Callers.calls_enter, if_neg h]
  · exact (Keyed.get?_put _ _ _ _).trans (if_neg h)
  · have hw : c.client.engine.watchdogs.get? c.client.engine.nextId = none := by
      rw [hcall, hpending] at hn
      generalize c.client.engine.watchdogs.get? c.client.engine.nextId = w at hn ⊢
      cases hn
      rfl
    have hput : (c.enter method params options).client.engine.pending.get? c.client.engine.nextId =
        some ⟨method, false⟩ := Keyed.get?_put_self _ _ _
    have hkept : (c.enter method params options).client.engine.watchdogs = c.client.engine.watchdogs :=
      rfl
    have hbefore : Progress.entered ≠ .guarded := nofun
    rw [Callers.calls_enter, if_pos rfl, hput, hkept, hw]
    exact .unguarded hbefore method

private theorem Attends.issued (hs : Attends calls s) {n : Int} {call : Call}
    (h : calls.get? n = some call) : n < s.engine.nextId := by
  refine Int.not_le.mp fun hle => ?_
  rw [(hs.fresh n hle).1] at h
  cases h

private theorem Attends.advance (hs : Attends calls s) {n : Int} {call : Call}
    (h : calls.get? n = some call) (hbefore : call.progress ≠ .guarded) {progress : Progress}
    (hafter : progress ≠ .guarded) : Attends (calls.put n { call with progress }) s := by
  refine hs.step (n := n) (fun id hn => ?_) (fun _ _ => rfl) (fun _ _ => rfl) (Int.le_refl _)
    (hs.issued h) ?_
  · rw [Keyed.get?_put, if_neg hn]
  · have hn := hs.attended n
    rw [h, Option.map_some] at hn
    rw [Keyed.get?_put_self, Option.map_some]
    generalize s.engine.pending.get? n = p at hn ⊢
    generalize s.engine.watchdogs.get? n = w at hn ⊢
    generalize call.progress = before at hn hbefore
    cases hn with
    | gone => exact .gone _
    | unguarded _ method => exact .unguarded hafter method
    | loose method w => exact absurd rfl hbefore
    | orphaned w => exact absurd rfl hbefore

private theorem Attends.leave (hs : Attends calls s) {n : Int} {call : Call}
    (h : calls.get? n = some call) (hbefore : call.progress ≠ .guarded)
    (hp : s.engine.pending.get? n = none) : Attends (calls.erase n) s := by
  refine hs.step (n := n) (fun id hn => ?_) (fun _ _ => rfl) (fun _ _ => rfl) (Int.le_refl _)
    (hs.issued h) ?_
  · rw [Keyed.get?_erase, if_neg hn]
  · have hn := hs.attended n
    rw [h, hp, Option.map_some] at hn
    rw [Keyed.get?_erase, if_pos rfl, hp]
    generalize s.engine.watchdogs.get? n = w at hn ⊢
    generalize call.progress = before at hn hbefore
    cases hn with
    | gone => exact .gone _
    | orphaned w => exact absurd rfl hbefore

/-- A watchdog is started, whether or not the request is still in the table. -/
private theorem Attends.guard (hs : Attends calls s) {n : Int} {call : Call}
    (h : calls.get? n = some call) (hbefore : call.progress ≠ .guarded) :
    Attends (calls.put n { call with progress := .guarded }) (s.guard n call.options) := by
  have hp : (s.guard n call.options).engine.pending = s.engine.pending := by
    rw [State.guard, State.wake_engine]
    rfl
  have hw : (s.guard n call.options).engine.watchdogs = s.engine.watchdogs.put n
      ⟨s.effectiveTimeout call.options, call.options.token, none⟩ := by
    rw [State.guard, State.wake_engine]
    rfl
  have hnext : (s.guard n call.options).engine.nextId = s.engine.nextId := by
    rw [State.guard, State.wake_engine]
    rfl
  refine hs.step (n := n) (fun id hn => ?_) (fun id _ => ?_) (fun id hn => ?_) (Int.le_of_eq hnext.symm)
    (hnext ▸ hs.issued h) ?_
  · rw [Keyed.get?_put, if_neg hn]
  · rw [hp]
  · rw [hw, Keyed.get?_put, if_neg hn]
  · have hn := hs.attended n
    rw [h, Option.map_some] at hn
    rw [Keyed.get?_put_self, Option.map_some, hp, hw, Keyed.get?_put_self]
    generalize s.engine.pending.get? n = p at hn ⊢
    generalize s.engine.watchdogs.get? n = w at hn
    generalize call.progress = before at hn hbefore
    cases hn with
    | gone => exact .orphaned _
    | unguarded _ method => exact .loose method _
    | loose method w => exact absurd rfl hbefore
    | orphaned w => exact absurd rfl hbefore

private theorem Attends.attach (hs : Attends calls s) {n : Int} {call : Call}
    (h : calls.get? n = some call) (hguarded : call.progress = .guarded) :
    Attends (calls.erase n) (s.attach n) := by
  have hn := hs.attended n
  rw [h, Option.map_some, hguarded] at hn
  have hcalls (id : Int) (hid : n ≠ id) : (calls.erase n).get? id = calls.get? id := by
    rw [Keyed.get?_erase, if_neg hid]
  have herased : (calls.erase n).get? n = none := by rw [Keyed.get?_erase, if_pos rfl]
  cases hp : s.engine.pending.get? n with
  | none =>
    have hattach : s.attach n = s.modifyEngine fun e => { e with
        watchdogs := e.watchdogs.erase n } := by
      simp only [State.attach, State.modifyEngine, Keyed.contains, hp, Option.isSome_none,
        Bool.false_eq_true, if_false]
    rw [hattach]
    refine hs.step (n := n) hcalls (fun _ _ => rfl) (fun id hid => ?_) (Int.le_refl _)
      (hs.issued h) ?_
    · exact (Keyed.get?_erase _ _ _).trans (if_neg hid)
    · simp only [State.modifyEngine, herased, hp, Keyed.get?_erase, if_true, Option.map_none]
      exact .gone _
  | some entry =>
    have hattach : s.attach n = s.modifyEngine fun e => { e with
        pending := e.pending.modify n fun p => { p with guarded := true } } := by
      simp only [State.attach, State.modifyEngine, Keyed.contains, hp, Option.isSome_some, if_true]
    rw [hattach]
    refine hs.step (n := n) hcalls (fun id hid => ?_) (fun _ _ => rfl) (Int.le_refl _)
      (hs.issued h) ?_
    · simp only [State.modifyEngine, Keyed.get?_modify, if_neg hid]
    · simp only [State.modifyEngine, herased, Keyed.get?_modify, hp, if_true, Option.map_none,
        Option.map_some]
      rw [hp] at hn
      generalize s.engine.watchdogs.get? n = w at hn ⊢
      cases hn with
      | unguarded h method => exact absurd rfl h
      | loose method w => exact .armed method w

theorem Attends.proceed {c : Callers} (hc : Attends c.calls c.client) (id : Int) :
    Attends (c.proceed id).calls (c.proceed id).client := by
  cases hcall : c.calls.get? id with
  | none =>
    rw [Callers.proceed_absent hcall]
    exact hc
  | some call =>
    rw [Callers.proceed_present hcall]
    cases hprogress : call.progress with
    | entered =>
      have hbefore : call.progress ≠ .guarded := by rw [hprogress]; decide
      simp only
      split
      · exact ((hc.record (.withdrawn id)).settle id _).leave hcall hbefore
          (settle_pending_none (.inr rfl))
      · exact hc.advance hcall hbefore (by decide)
    | admitted =>
      have hbefore : call.progress ≠ .guarded := by rw [hprogress]; decide
      obtain ⟨t, ht, h | ⟨e, h⟩⟩ := State.handOver_cases id call.method call.params c.client
      · have hsent : Attends c.calls t := hc.of_same (ht ▸ (still_send _ _).same)
        rw [h]
        exact hsent.advance hcall hbefore (by decide)
      · have hsent : Attends c.calls t := hc.of_same (ht ▸ (still_send _ _).same)
        rw [h]
        exact ((hsent.record (.unsent id e)).settle id _).leave hcall hbefore
          (settle_pending_none (.inr rfl))
    | handedOver => exact hc.guard hcall (by rw [hprogress]; decide)
    | guarded => exact hc.attach hcall hprogress

private theorem Attends.request (hs : Attends calls s) (method : String) (params : Value)
    (options : CallOptions) : Attends calls (s.request method params options).2 := by
  obtain ⟨hclient, hcall, hothers⟩ := Callers.request_eq method params options ⟨s, calls⟩
  have hsteps := ((((Attends.enter (c := ⟨s, calls⟩) hs method params options).proceed
    s.engine.nextId).proceed s.engine.nextId).proceed s.engine.nextId).proceed s.engine.nextId
  rw [hclient] at hsteps
  refine hsteps.of_calls fun id => ?_
  by_cases h : s.engine.nextId = id
  · subst h
    exact (hs.fresh _ (Int.le_refl _)).1.trans hcall.symm
  · exact (hothers id h).symm

private theorem Attends.deal {C : Entry → Prop} (h : Deal C s t) (hs : Attends calls s) :
    Attends calls t := by
  cases h with
  | still h => exact hs.of_same h.same
  | request method params options s _ => exact hs.request method params options
  | resolve r s _ =>
    unfold State.resolve
    simp only
    split
    · exact (hs.record (.answered r)).settle _ _
    · exact hs.record _
  | watch id s _ _ => exact hs.watch id
  | lapse id s _ => exact hs.lapse id
  | abandon id s _ => exact hs.abandon id
  | abort reason s _ =>
    exact State.abortPending_keeps (Q := Attends calls) (hs.record (.gaveUp reason)) fun id _ h =>
      h.settle id _
  | collect id s =>
    unfold State.collect
    cases s.engine.outcomes.get? id with
    | none => exact hs
    | some outcome => exact ⟨hs.attended, hs.fresh⟩

theorem Attends.turn (t : Turn) {c : Callers} (hc : Attends c.calls c.client) :
    Attends (t.apply c).calls (t.apply c).client := by
  cases t with
  | enter method params options => exact hc.enter method params options
  | proceed id => exact hc.proceed id
  | move m => exact (m.deals c.client).keeps (fun _ _ h => Attends.deal h) hc

theorem attends_new (layer : Layer) (options : Options) (timeout : Nat) :
    Attends [] (State.new layer options timeout) := by
  cases layer <;> exact ⟨fun _ => .gone none, fun _ _ => ⟨rfl, rfl⟩⟩

theorem attends_after (layer : Layer) (options : Options) (timeout : Nat) (turns : List Turn) :
    let c := (Callers.new layer options timeout).after turns
    Attends c.calls c.client := by
  have hrun (c : Callers) (hc : Attends c.calls c.client) :
      Attends (c.after turns).calls (c.after turns).client := by
    induction turns generalizing c with
    | nil => exact hc
    | cons t turns ih => exact ih (t.apply c) (hc.turn t)
  exact hrun _ (attends_new layer options timeout)

/-- All that a watchdog does for a request that is not in the table: it ends or sets its alarm, and
says what it has seen. Nothing is sent and no other request is concerned. -/
def Idles (id : Int) (s t : State) : Prop :=
  ∃ watchdogs alarms seen,
    t = { s with
      engine := { s.engine with watchdogs }
      alarms
      journal := s.journal ++ seen } ∧
    (∀ n, id ≠ n → watchdogs.get? n = s.engine.watchdogs.get? n) ∧
    ∀ e ∈ seen, e = .lapsed id ∨ e = .revoked id

private theorem idles_self (id : Int) (s : State) : Idles id s s :=
  ⟨s.engine.watchdogs, s.alarms, [], by rw [List.append_nil], fun _ _ => rfl, nofun⟩

/-- A deadline that has passed settles no request that is not there. -/
theorem expire_absent {id : Int} (h : s.engine.pending.get? id = none) (timeout : Nat) :
    s.expire id timeout = s.record (.lapsed id) := by
  rw [State.expire, State.settle_absent (s := s.record (.lapsed id)) h]

/-- A token that has been cancelled cancels nothing on the wire for a request that is not there. -/
theorem cancel_absent {id : Int} (h : s.engine.pending.get? id = none) :
    s.cancel id = s.record (.revoked id) := by
  rw [State.cancel]
  simp only [State.record, h]

private theorem endWatchdog_idles {id : Int} {e : Entry} (he : e = .lapsed id ∨ e = .revoked id) :
    Idles id s ((s.endWatchdog id).record e) := by
  refine ⟨s.engine.watchdogs.erase id, s.alarms, [e], rfl, fun n hn => ?_,
    List.forall_mem_singleton.mpr he⟩
  rw [Keyed.get?_erase, if_neg hn]

theorem watch_idles {id : Int} (h : s.engine.pending.get? id = none) : Idles id s (s.watch id) := by
  rw [State.watch]
  cases hw : s.engine.watchdogs.get? id with
  | none => exact idles_self id s
  | some w =>
    simp only
    split
    · rw [cancel_absent (s := s.endWatchdog id) h]
      exact endWatchdog_idles (.inr rfl)
    · split
      · rw [expire_absent (s := s.endWatchdog id) h]
        exact endWatchdog_idles (.inl rfl)
      · split
        · exact idles_self id s
        · refine ⟨_, _, [], by rw [List.append_nil]; rfl, fun n hn => ?_, List.forall_mem_nil _⟩
          rw [Keyed.get?_put, if_neg hn]

theorem lapse_idles {id : Int} (h : s.engine.pending.get? id = none) : Idles id s (s.lapse id) := by
  rw [State.lapse]
  split
  · exact idles_self id s
  · split
    · rw [expire_absent (s := s.endWatchdog id) h]
      exact endWatchdog_idles (.inl rfl)
    · exact idles_self id s

/-- However calls run side by side with whatever else happens, the request of a call that has returned
is in the table if and only if its watchdog is armed. And a watchdog that gets its turn for a request
that is not in the table changes nothing but itself, and sends nothing. -/
theorem pending_iff_armed (layer : Layer) (options : Options) (timeout : Nat) (turns : List Turn) :
    let c := (Callers.new layer options timeout).after turns
    (∀ id, c.calls.get? id = none →
      (c.client.engine.pending.contains id ↔ c.client.engine.watchdogs.contains id)) ∧
    ∀ id, c.client.engine.pending.get? id = none →
      Idles id c.client (c.client.watch id) ∧ Idles id c.client (c.client.lapse id) ∧
      (∀ t, c.client.expire id t = c.client.record (.lapsed id)) ∧
      c.client.cancel id = c.client.record (.revoked id) := by
  intro c
  have hc : Attends c.calls c.client := attends_after layer options timeout turns
  refine ⟨fun id hid => ?_, fun id hid =>
    ⟨watch_idles hid, lapse_idles hid, expire_absent hid, cancel_absent hid⟩⟩
  have hattended := hc.attended id
  rw [hid, Option.map_none] at hattended
  rw [Keyed.contains, Keyed.contains]
  generalize c.client.engine.pending.get? id = p at hattended ⊢
  generalize c.client.engine.watchdogs.get? id = w at hattended ⊢
  cases hattended with
  | gone => exact Iff.rfl
  | armed method w => exact Iff.rfl

/-- The watchdog of a request that may take no time gets its turn before it has been attached. -/
def earlyDeadline : List Turn :=
  [.move .connect, .move (.found 1 0), .enter "ping" .null ⟨none, some 0⟩, .proceed 1, .proceed 1,
    .proceed 1, .move (.watch 1), .proceed 1]

/-- The call has then returned, its request has settled, and nothing of it is left behind. -/
theorem pending_iff_armed_early :
    let c := (Callers.new .engine .standard 30000).after earlyDeadline
    c.calls.get? 1 = none ∧ c.client.engine.outcomes.contains 1 = true ∧
      (c.client.engine.pending.contains 1 ↔ c.client.engine.watchdogs.contains 1) ∧
      Idles 1 c.client (c.client.watch 1) := by
  have hreturned : ((Callers.new .engine .standard 30000).after earlyDeadline).calls.get? 1 = none := rfl
  have habsent : ((Callers.new .engine .standard 30000).after
      earlyDeadline).client.engine.pending.get? 1 = none := rfl
  obtain ⟨harmed, hidle⟩ := pending_iff_armed .engine .standard 30000 earlyDeadline
  exact ⟨hreturned, rfl, harmed 1 hreturned, (hidle 1 habsent).1⟩

end LanguageClient.Client
