import LanguageClient.Proofs.Schedule
import LanguageClient.Proofs.Settlement
import Mathlib.Data.List.Induction
/-!
What goes on beside an operation. While an operation waits, the reader, the writer and the ticker of its
connection and the watchdogs of its requests have their turns. As long as nobody but the client itself
listens, all that such a turn comes to is a sequence of a few tendings, none of which touches the
operations, the session or the frames that were offered to the transport.
-/
namespace LanguageClient.Client
open Relation Transport Rpc Json Session

/-- All of a client that is for operations and the user to change. -/
structure Core where
  operations : Keyed Nat Operation
  lastOperation : Nat
  released : Bool
  session : Conversation
  options : Options
  generation : Nat
  hub : Registry EventKind Handler
  topics : Registry String Handler

def State.core (s : State) : Core :=
  ⟨s.operations, s.lastOperation, s.released, s.session, s.transport.options, s.transport.generation,
    s.transport.hub, s.engine.topics⟩

/-- Nobody listens but the engine to frames and the session to log messages. -/
structure Unobserved (s : State) : Prop where
  events : ∀ kind, s.transport.hub.snapshot kind = if kind = .message then [.engine] else []
  topics : ∀ method, s.engine.topics.snapshot method = if method = logMethod then [.forwardLog] else []

/-- Every watchdog waits for one and the same time and looks at no token. -/
def Punctual (timeout : Nat) (s : State) : Prop :=
  ∀ id w, s.engine.watchdogs.get? id = some w →
    w.timeout = timeout ∧ w.token = none ∧ ∀ d ∈ w.deadline, d ≤ s.now + timeout

/-- A response has been read off a connection. -/
def Brought (r : Response) (journal : List Entry) : Prop :=
  ∃ g frame, .received g (.ok frame) ∈ journal ∧ r ∈ responses frame

/-- Entries of the work that serves connections and requests. -/
def Entry.isOfService : Entry → Bool
  | .note _ | .emitted .. | .keptAlive .. | .received .. | .streamEnded _ | .written .. | .writeFailed ..
  | .sinkClosed _ | .answered _ | .lapsed _ | .settled .. => true
  | _ => false

/-- Only the connection, the schedule and the clock have changed; the connection may have ended. -/
structure Kept (s t : State) : Prop where
  core : t.core = s.core
  state : t.transport.state = s.transport.state ∨ t.transport.state = .disconnected
  engine : t.engine = s.engine
  now : s.now ≤ t.now
  journal : t.journal = s.journal

/-- One thing that the work beside an operation does. -/
inductive Tend : State → State → Prop where
  | quiet {s t : State} (h : Kept s t) : Tend s t
  | record (e : Entry) (s : State) (h : e.isOfService = true) (hi : e.isIdle = true) :
    Tend s (s.record e)
  | resolve (r : Response) (s : State) (h : Brought r s.journal) : Tend s (s.resolve r)
  | watch (timeout : Nat) (id : Int) (s : State) (h : Punctual timeout s) : Tend s (s.watch id)

abbrev Tends : State → State → Prop := ReflTransGen Tend

variable {s t : State}

theorem Tends.keeps {Q : State → Prop} (hQ : ∀ s t, Tend s t → Q s → Q t) (h : Tends s t)
    (hs : Q s) : Q t := by
  induction h with
  | refl => exact hs
  | tail _ h ih => exact hQ _ _ h ih

/-- A watchdog that looks at no token waits on, or sees that its deadline has passed, or makes up its
mind about it. -/
theorem watch_cases {timeout : Nat} (hs : Punctual timeout s) (id : Int) :
    (s.watch id = s ∧ ∀ w, s.engine.watchdogs.get? id = some w → ∃ d ∈ w.deadline, s.now < d) ∨
      s.watch id = (s.endWatchdog id).expire id timeout ∨
      ∃ d, s.engine.watchdogs.get? id = some ⟨timeout, none, none⟩ ∧ d = s.now + timeout ∧
        s.watch id = (s.modifyEngine fun e => { e with
          watchdogs := e.watchdogs.put id ⟨timeout, none, some d⟩ }).setAlarm d (.watchdog id) := by
  rw [State.watch]
  cases hw : s.engine.watchdogs.get? id with
  | none => exact .inl ⟨rfl, fun _ h => by cases h⟩
  | some w =>
    obtain ⟨htimeout, htoken, _⟩ := hs id w hw
    obtain ⟨_, _, deadline⟩ := w
    cases htimeout
    cases htoken
    simp only [State.tokenCancelled, Bool.false_eq_true, if_false]
    split
    · exact .inr (.inl rfl)
    · rename_i hlate
      cases deadline with
      | none => exact .inr (.inr ⟨_, rfl, rfl, rfl⟩)
      | some d =>
        refine .inl ⟨rfl, fun w hget => ?_⟩
        cases hget
        exact ⟨d, rfl, Nat.lt_of_not_le hlate⟩

theorem settle_keeps (id : Int) (f : Pending → Outcome Value) (s : State) :
    (s.settle id f).core = s.core ∧ (s.settle id f).transport = s.transport ∧
      (s.settle id f).now = s.now := by
  obtain ⟨_, _, _, _, _, h⟩ := State.settle_eq id f s
  rw [h]
  exact ⟨rfl, rfl, rfl⟩

theorem resolve_keeps (r : Response) (s : State) : (s.resolve r).core = s.core ∧
    (s.resolve r).transport = s.transport ∧ (s.resolve r).now = s.now := by
  unfold State.resolve
  simp only
  split
  · exact settle_keeps _ _ (s.record (.answered r))
  · exact ⟨rfl, rfl, rfl⟩

theorem watch_keeps {timeout : Nat} (hs : Punctual timeout s) (id : Int) :
    (s.watch id).core = s.core ∧ (s.watch id).transport = s.transport ∧
      (s.watch id).now = s.now := by
  obtain ⟨h, _⟩ | h | ⟨d, _, _, h⟩ := watch_cases hs id <;> rw [h]
  · exact ⟨rfl, rfl, rfl⟩
  · exact settle_keeps id _ ((s.endWatchdog id).record (.lapsed id))
  · exact ⟨rfl, rfl, rfl⟩

theorem Tend.core (h : Tend s t) : t.core = s.core := by
  cases h with
  | quiet h => exact h.core
  | record e s _ _ => rfl
  | resolve r s _ => exact (resolve_keeps r s).1
  | watch timeout id s h => exact (watch_keeps h id).1

theorem Tend.state (h : Tend s t) :
    t.transport.state = s.transport.state ∨ t.transport.state = .disconnected := by
  cases h with
  | quiet h => exact h.state
  | record e s _ _ => exact .inl rfl
  | resolve r s _ => exact .inl (by rw [(resolve_keeps r s).2.1])
  | watch timeout id s h => exact .inl (by rw [(watch_keeps h id).2.1])

theorem Tend.now (h : Tend s t) : s.now ≤ t.now := by
  cases h with
  | quiet h => exact h.now
  | record e s _ _ => exact Nat.le_refl _
  | resolve r s _ => exact Nat.le_of_eq (resolve_keeps r s).2.2.symm
  | watch timeout id s h => exact Nat.le_of_eq (watch_keeps h id).2.2.symm

theorem settle_grows {C : Entry → Prop} (hC : ∀ id outcome, C (.settled id outcome)) (id : Int)
    (f : Pending → Outcome Value) (s : State) : Grows C s (s.settle id f) := by
  cases hp : s.engine.pending.get? id with
  | none =>
    rw [State.settle_absent hp]
    exact .refl s
  | some entry =>
    exact ⟨_, State.settle_journal hp f, List.forall_mem_singleton.mpr (hC id _)⟩

theorem resolve_grows {C : Entry → Prop} (hC : ∀ id outcome, C (.settled id outcome)) (r : Response)
    (s : State) : Grows C (s.record (.answered r)) (s.resolve r) := by
  unfold State.resolve
  simp only
  split
  · exact settle_grows hC _ _ _
  · exact .refl _

theorem Tend.grows (h : Tend s t) : Grows (·.isOfService = true) s t := by
  cases h with
  | quiet h => exact .of_eq h.journal
  | record e s he _ => exact grows_record he s
  | resolve r s _ =>
    have hanswered := grows_record (C := (·.isOfService = true)) (e := .answered r) rfl s
    exact hanswered.trans (resolve_grows (fun _ _ => rfl) r s)
  | watch timeout id s h =>
    obtain ⟨h, _⟩ | h | ⟨d, _, _, h⟩ := watch_cases h id <;> rw [h]
    · exact .refl s
    · have hlapsed := grows_record (C := (·.isOfService = true)) (e := .lapsed id) rfl
        (s.endWatchdog id)
      exact hlapsed.trans (settle_grows (fun _ _ => rfl) id _ _)
    · exact Grows.refl s

/-- Every response that the engine has heard of was read off a connection before. -/
def Credited (journal : List Entry) : Prop :=
  ∀ before r after, journal = before ++ .answered r :: after → Brought r before

theorem Brought.append {r : Response} {journal : List Entry} (h : Brought r journal)
    (more : List Entry) : Brought r (journal ++ more) := by
  obtain ⟨g, frame, hread, hr⟩ := h
  exact ⟨g, frame, List.mem_append_left more hread, hr⟩

theorem Credited.concat {journal : List Entry} (h : Credited journal) {e : Entry}
    (he : ∀ r, e = .answered r → Brought r journal) : Credited (journal ++ [e]) := by
  intro before r after hj
  cases after using List.reverseRecOn with
  | nil =>
    obtain ⟨rfl, hlast⟩ := List.append_inj' hj rfl
    exact he r (List.cons.inj hlast).1
  | append_singleton after d =>
    rw [← List.cons_append, ← List.append_assoc] at hj
    exact h before r after (List.append_inj' hj rfl).1

theorem Credited.grows {C : Entry → Prop} (hC : ∀ r, ¬ C (.answered r)) (h : Grows C s t)
    (hs : Credited s.journal) : Credited t.journal := by
  obtain ⟨more, hj, hm⟩ := h
  rw [hj]
  clear hj
  induction more using List.reverseRecOn with
  | nil => rwa [List.append_nil]
  | append_singleton more e ih =>
    rw [← List.append_assoc]
    refine (ih fun d hd => hm d (List.mem_append_left [e] hd)).concat fun r he => ?_
    exact absurd (hm e (List.mem_append_right more List.mem_cons_self)) (he ▸ hC r)

theorem Tend.credited (h : Tend s t) (hs : Credited s.journal) : Credited t.journal := by
  cases h with
  | quiet h => rwa [h.journal]
  | record e s he hi => exact hs.concat fun r hr => by rw [hr] at hi; cases hi
  | resolve r s h =>
    have hanswered : Credited (s.record (.answered r)).journal :=
      hs.concat fun q hq => Entry.answered.inj hq ▸ h
    exact hanswered.grows (C := fun e => ∃ id outcome, e = .settled id outcome)
      (fun _ => nofun) (resolve_grows (fun id outcome => ⟨id, outcome, rfl⟩) r s)
  | watch timeout id s h =>
    obtain ⟨h, _⟩ | h | ⟨d, _, _, h⟩ := watch_cases h id <;> rw [h]
    · exact hs
    · have hlapsed : Credited ((s.endWatchdog id).record (.lapsed id)).journal :=
        hs.concat fun _ => nofun
      exact hlapsed.grows (C := fun e => ∃ id outcome, e = .settled id outcome)
        (fun _ => nofun) (settle_grows (fun id outcome => ⟨id, outcome, rfl⟩) id _ _)
    · exact hs

/-- The request is pending, or its outcome can be collected. -/
def Awaited (id : Int) (s : State) : Prop :=
  s.engine.pending.get? id ≠ none ∨ s.engine.outcomes.get? id ≠ none

/-- The request has settled, or its watchdog will see to that by some time. -/
def Armed (id : Int) (due : Nat) (s : State) : Prop :=
  s.engine.pending.get? id ≠ none →
    ∃ w, s.engine.watchdogs.get? id = some w ∧ ∃ d ∈ w.deadline, d ≤ due

/-- What the engine holds of a request is the same. -/
structure Alike (id : Int) (s t : State) : Prop where
  pending : t.engine.pending.get? id = s.engine.pending.get? id
  watchdog : t.engine.watchdogs.get? id = s.engine.watchdogs.get? id
  outcome : t.engine.outcomes.get? id = s.engine.outcomes.get? id

theorem Alike.refl (id : Int) (s : State) : Alike id s s := ⟨rfl, rfl, rfl⟩

structure Settles (id : Int) (s t : State) : Prop where
  pending : t.engine.pending.get? id = none
  watchdog : ∀ w, t.engine.watchdogs.get? id = some w → s.engine.watchdogs.get? id = some w
  outcome : t.engine.outcomes.get? id ≠ none

theorem settle_cases (n id : Int) (f : Pending → Outcome Value) (s : State) :
    Alike id s (s.settle n f) ∧ (n = id → s.engine.pending.get? id = none) ∨
      n = id ∧ Settles id s (s.settle n f) := by
  by_cases hn : n = id
  · subst hn
    cases hp : s.engine.pending.get? n with
    | none =>
      rw [State.settle_absent hp]
      exact .inl ⟨.refl n s, fun _ => rfl⟩
    | some entry =>
      have ha := account_settle_self hp f
      have hw : (s.settle n f).engine.watchdogs.get? n =
          if entry.guarded then none else s.engine.watchdogs.get? n := congrArg Account.watchdog ha
      have ho : (s.settle n f).engine.outcomes.get? n = some (f entry) := congrArg Account.outcome ha
      refine .inr ⟨rfl, congrArg Account.pending ha, fun w h => ?_, by rw [ho]; nofun⟩
      rw [hw] at h
      split at h
      · cases h
      · exact h
  · have ha := account_settle_other hn s f
    exact .inl ⟨⟨congrArg Account.pending ha, congrArg Account.watchdog ha, congrArg Account.outcome ha⟩,
      fun h => absurd h hn⟩

/-- What depends on the engine and the clock alone is kept by every tending if settling a request and
the turn of a watchdog keep it. -/
theorem Tend.keeps_of {Q : State → Prop}
    (engine : ∀ s t : State, t.engine = s.engine → s.now ≤ t.now → Q s → Q t)
    (settle : ∀ id f s, Q s → Q (s.settle id f))
    (watch : ∀ timeout id s, Punctual timeout s → Q s → Q (s.watch id)) (h : Tend s t) (hs : Q s) :
    Q t := by
  cases h with
  | quiet h => exact engine s t h.engine h.now hs
  | record e s _ _ => exact engine s _ rfl (Nat.le_refl _) hs
  | resolve r s _ =>
    have hanswered : Q (s.record (.answered r)) := engine s _ rfl (Nat.le_refl _) hs
    unfold State.resolve
    simp only
    split
    · exact settle _ _ _ hanswered
    · exact hanswered
  | watch timeout id s h => exact watch timeout id s h hs

theorem Punctual.settle {timeout : Nat} (hs : Punctual timeout s) (n : Int)
    (f : Pending → Outcome Value) : Punctual timeout (s.settle n f) := by
  intro id w hw
  rw [(settle_keeps n f s).2.2]
  obtain ⟨h, _⟩ | ⟨_, h⟩ := settle_cases n id f s
  · exact hs id w (h.watchdog ▸ hw)
  · exact hs id w (h.watchdog w hw)

theorem Punctual.endWatchdog {timeout : Nat} (hs : Punctual timeout s) (n : Int) :
    Punctual timeout (s.endWatchdog n) := by
  intro id w hw
  rw [State.endWatchdog, State.modifyEngine, Keyed.get?_erase] at hw
  split at hw
  · cases hw
  · exact hs id w hw

theorem Tend.punctual {timeout : Nat} (h : Tend s t) (hs : Punctual timeout s) :
    Punctual timeout t := by
  refine h.keeps_of (fun s t engine now hs id w hw => ?_) (fun n f s hs => hs.settle n f) ?_ hs
  · obtain ⟨htimeout, htoken, hd⟩ := hs id w (engine ▸ hw)
    exact ⟨htimeout, htoken, fun d hm =>
      Nat.le_trans (hd d hm) (Nat.add_le_add_right now timeout)⟩
  · intro timeout' n s hs' hs
    obtain ⟨h, _⟩ | h | ⟨d, hwatch, rfl, h⟩ := watch_cases hs' n <;> rw [h]
    · exact hs
    · have hended : Punctual timeout ((s.endWatchdog n).record (.lapsed n)) := hs.endWatchdog n
      exact hended.settle n _
    · obtain ⟨rfl, _, _⟩ := hs n _ hwatch
      intro id w hw
      change Keyed.get? (Keyed.put n _ s.engine.watchdogs) id = some w at hw
      rw [Keyed.get?_put] at hw
      split at hw
      · cases hw
        exact ⟨rfl, rfl, fun d hd => by cases hd; exact Nat.le_refl _⟩
      · exact hs id w hw

theorem Tend.awaited {id : Int} (h : Tend s t) (hs : Awaited id s) : Awaited id t := by
  have settle (n : Int) (f : Pending → Outcome Value) (s : State) (hs : Awaited id s) :
      Awaited id (s.settle n f) := by
    obtain ⟨h, _⟩ | ⟨_, h⟩ := settle_cases n id f s
    · rw [Awaited, h.pending, h.outcome]
      exact hs
    · exact .inr h.outcome
  refine h.keeps_of (fun s t engine _ hs => ?_) settle (fun timeout n s hp hs => ?_) hs
  · rw [Awaited, engine]
    exact hs
  · obtain ⟨h, _⟩ | h | ⟨d, _, _, h⟩ := watch_cases hp n <;> rw [h]
    · exact hs
    · exact settle n _ ((s.endWatchdog n).record (.lapsed n)) hs
    · exact hs

theorem Tend.settled {id : Int} (h : Tend s t) (hs : s.engine.pending.get? id = none) :
    t.engine.pending.get? id = none := by
  refine h.keeps_of (Q := fun s => s.engine.pending.get? id = none) (fun s t engine _ hs => ?_)
    (fun n f s hs => settle_pending_none (.inl hs)) (fun timeout n s hp hs => ?_) hs
  · rw [engine]
    exact hs
  · obtain ⟨h, _⟩ | h | ⟨d, _, _, h⟩ := watch_cases hp n <;> rw [h]
    · exact hs
    · exact settle_pending_none (s := (s.endWatchdog n).record (.lapsed n)) (.inl hs)
    · exact hs

theorem Tend.armed {id : Int} {due : Nat} (h : Tend s t) (hs : Armed id due s) :
    Armed id due t := by
  have settle (n : Int) (f : Pending → Outcome Value) (s : State) (hs : n ≠ id → Armed id due s) :
      Armed id due (s.settle n f) := by
    intro hp
    have hn : n ≠ id := fun hn => hp (settle_pending_none (.inr hn))
    have ha := account_settle_other hn s f
    have hpending : (s.settle n f).engine.pending.get? id = s.engine.pending.get? id :=
      congrArg Account.pending ha
    have hwatchdog : (s.settle n f).engine.watchdogs.get? id = s.engine.watchdogs.get? id :=
      congrArg Account.watchdog ha
    rw [hwatchdog]
    exact hs hn (hpending ▸ hp)
  refine h.keeps_of (fun s t engine _ hs => ?_) (fun n f s hs => settle n f s fun _ => hs)
    (fun timeout n s hp hs => ?_) hs
  · rw [Armed, engine]
    exact hs
  · obtain ⟨h, _⟩ | h | ⟨d, hw, _, h⟩ := watch_cases hp n <;> rw [h]
    · exact hs
    · refine settle n _ ((s.endWatchdog n).record (.lapsed n)) fun hn hpending => ?_
      obtain ⟨w, hget, hd⟩ := hs hpending
      refine ⟨w, ?_, hd⟩
      change (Keyed.erase n s.engine.watchdogs).get? id = some w
      rw [Keyed.get?_erase, if_neg hn]
      exact hget
    · -- the watchdog that makes up its mind is another one
      intro hpending
      obtain ⟨w, hget, e, he, hdue⟩ := hs hpending
      have hn : n ≠ id := by
        rintro rfl
        rw [hw] at hget
        cases hget
        cases he
      refine ⟨w, ?_, e, he, hdue⟩
      change Keyed.get? (Keyed.put n _ s.engine.watchdogs) id = some w
      rw [Keyed.get?_put, if_neg hn]
      exact hget

theorem armed_watch {timeout : Nat} {id : Int} (hp : Punctual timeout s) (hw : Watched id s) :
    Armed id (s.now + timeout) (s.watch id) := by
  intro hpending
  obtain ⟨h, hwaits⟩ | h | ⟨d, _, rfl, h⟩ := watch_cases hp id <;> rw [h] at hpending ⊢
  · obtain ⟨w, hget⟩ := Option.ne_none_iff_exists'.mp (hw hpending)
    obtain ⟨d, hd, _⟩ := hwaits w hget
    exact ⟨w, hget, d, hd, (hp id w hget).2.2 d hd⟩
  · exact absurd (settle_pending_none (s := (s.endWatchdog id).record (.lapsed id)) (.inr rfl)) hpending
  · exact ⟨_, Keyed.get?_put_self _ _ _, _, rfl, Nat.le_refl _⟩

/-- Once it is time, the turn of the watchdog settles the request if nothing else has. -/
theorem watch_due {timeout due : Nat} {id : Int} (hp : Punctual timeout s) (hs : Armed id due s)
    (hdue : due ≤ s.now) : (s.watch id).engine.pending.get? id = none := by
  obtain ⟨h, hwaits⟩ | h | ⟨d, hget, _, h⟩ := watch_cases hp id <;> rw [h]
  · by_contra hpending
    obtain ⟨w, hget, d, hd, hle⟩ := hs hpending
    obtain ⟨e, he, hlt⟩ := hwaits w hget
    rw [Option.mem_unique hd he] at hle
    omega
  · exact settle_pending_none (s := (s.endWatchdog id).record (.lapsed id)) (.inr rfl)
  · by_contra hpending
    obtain ⟨w, hget', e, he, _⟩ := hs hpending
    rw [hget] at hget'
    cases hget'
    cases he

theorem Unobserved.of_core (hs : Unobserved s) (h : t.core = s.core) : Unobserved t := by
  have hhub : t.transport.hub = s.transport.hub := congrArg Core.hub h
  have htopics : t.engine.topics = s.engine.topics := congrArg Core.topics h
  exact ⟨fun kind => hhub ▸ hs.events kind, fun method => htopics ▸ hs.topics method⟩

theorem Tends.core (h : Tends s t) : t.core = s.core :=
  h.keeps (Q := fun t => t.core = s.core) (fun _ _ h hs => h.core.trans hs) rfl

theorem Tends.grows (h : Tends s t) : Grows (·.isOfService = true) s t :=
  h.keeps (Q := Grows (·.isOfService = true) s) (fun _ _ h hs => hs.trans h.grows) (.refl s)

theorem Tends.awaited {id : Int} (h : Tends s t) (hs : Awaited id s) : Awaited id t :=
  h.keeps (fun _ _ h hs => h.awaited hs) hs

theorem Tends.quiet (h : Tends s t) {u : State} (core : u.core = t.core)
    (state : u.transport.state = t.transport.state) (engine : u.engine = t.engine) (now : u.now = t.now)
    (journal : u.journal = t.journal) : Tends s u :=
  h.tail (.quiet ⟨core, .inl state, engine, Nat.le_of_eq now.symm, journal⟩)

theorem Tends.record (h : Tends s t) {e : Entry} (he : e.isOfService = true) (hi : e.isIdle = true) :
    Tends s (t.record e) := h.tail (.record e t he hi)

theorem Tends.wake (h : Tends s t) (w : Work) : Tends s (t.wake w) := by
  obtain ⟨_, hw⟩ := State.wake_eq w t
  rw [hw]
  exact h.quiet rfl rfl rfl rfl rfl

theorem Tends.endReader (h : Tends s t) (g : Nat) : Tends s (t.endReader g) := by
  rw [State.endReader]
  split
  · exact h
  · exact h.quiet rfl rfl rfl rfl rfl

theorem Tends.endWriter (h : Tends s t) (g : Nat) : Tends s (t.endWriter g) := by
  rw [State.endWriter]
  split
  · exact h
  · exact h.quiet rfl rfl rfl rfl rfl

theorem Tends.takeDown (h : Tends s t) : Tends s t.takeDown := by
  obtain ⟨_, _, ht⟩ := State.takeDown_eq t
  rw [ht]
  exact h.tail (.quiet ⟨rfl, .inr rfl, rfl, Nat.le_refl _, rfl⟩)

theorem emitWith_unheard (hs : Unobserved s) {event : Transport.Event} (he : event.kind ≠ .message)
    (close : State → State) (g : Nat) : State.emitWith close g event s = s.record (.emitted g event) := by
  rw [State.emitWith, hs.events, if_neg he, List.foldl_nil]

theorem emitWith_frame (hs : Unobserved s) (close : State → State) (g : Nat) (frame : String) :
    State.emitWith close g (.message frame) s =
      (s.record (.emitted g (.message frame))).handleFrame close frame := by
  have hkind : (Transport.Event.message frame).kind = .message := rfl
  rw [State.emitWith, hs.events, if_pos hkind, List.foldl_cons, List.foldl_nil, State.hearEvent]

variable {close : State → State}

theorem Tends.deliver (h : Tends s t) (hs : Unobserved s) (method : String) (params : Value) :
    Tends s (t.deliver close method params) := by
  rw [State.deliver, (hs.of_core h.core).topics]
  split
  · rw [List.foldl_cons, List.foldl_nil, State.hearNotification, State.forward]
    split
    · exact h.record rfl rfl
    · exact h
  · exact h

theorem Tends.brought (h : Tends s t) {r : Response} (hr : Brought r s.journal) :
    Brought r t.journal := by
  refine h.keeps (Q := fun t => Brought r t.journal) (fun s t h hr => ?_) hr
  obtain ⟨more, hj, _⟩ := h.grows
  rw [hj]
  exact hr.append more

theorem Tends.handleMessage (h : Tends s t) (hs : Unobserved s) {v : Value}
    (hv : ∀ r ∈ response? v, Brought r s.journal) : Tends s (State.handleMessage close v t) := by
  rw [State.handleMessage]
  split
  · rename_i r hm
    exact h.tail (.resolve r t (h.brought (hv r (by rw [response?, hm]; rfl))))
  · exact h.deliver hs _ _
  · exact h
  · exact h.record rfl rfl

/-- The engine makes of a frame that has been read a sequence of tendings. -/
theorem Tends.handleFrame (h : Tends s t) (hs : Unobserved s) {frame : String}
    (hr : ∀ r ∈ responses frame, Brought r s.journal) : Tends s (t.handleFrame close frame) := by
  rw [State.handleFrame]
  rw [responses] at hr
  split
  · exact h.record rfl rfl
  · rename_i payload hparse
    rw [hparse] at hr
    have hvalues : ∀ v ∈ payload.values, ∀ r ∈ response? v, Brought r s.journal := fun v hv r hv' =>
      hr r (List.mem_filterMap.mpr ⟨v, hv, hv'⟩)
    generalize payload.values = values at hvalues
    induction values generalizing t with
    | nil => exact h
    | cons v values ih =>
      have hone : Tends s (State.handleMessage close v t) :=
        h.handleMessage hs (hvalues v List.mem_cons_self)
      exact ih hone fun w hw => hvalues w (List.mem_cons_of_mem v hw)

theorem Tends.readFrame (h : Tends s t) (hs : Unobserved s) (g : Nat) (frame : String) :
    Tends s (t.readFrame g frame) := by
  have hread : Tends s (t.record (.received g (.ok frame))) := h.record rfl rfl
  have htold : Tends s ((t.record (.received g (.ok frame))).record (.emitted g (.message frame))) :=
    hread.record rfl rfl
  rw [State.readFrame, State.emit, emitWith_frame (hs.of_core hread.core)]
  refine htold.trans (Tends.handleFrame .refl (hs.of_core htold.core) fun r hr => ⟨g, frame, ?_, hr⟩)
  exact List.mem_append_left _ (List.mem_append_right _ List.mem_cons_self)

theorem Tends.shut (h : Tends s t) (hs : Unobserved s) (g : Option Nat) (reason : CloseReason) :
    Tends s (t.shut g reason) := by
  rw [State.shut]
  split
  · exact h
  · rw [emitWith_unheard (hs.of_core h.takeDown.core) (by simp [Transport.Event.kind])]
    exact h.takeDown.record rfl rfl

theorem Tends.failConnection (h : Tends s t) (hs : Unobserved s) (g : Nat) (text : String) :
    Tends s (t.failConnection g text) := by
  rw [State.failConnection]
  split
  · have hwarn : Tends s (t.warn "transport failure") := h.record rfl rfl
    rw [State.emit, emitWith_unheard (hs.of_core hwarn.core) (by simp [Transport.Event.kind])]
    exact (hwarn.record rfl rfl).shut hs _ _
  · exact h

theorem Tends.readItems (h : Tends s t) (hs : Unobserved s) (g l : Nat)
    (items : List (Outcome String)) : Tends s (State.readItems g l items t) := by
  induction items generalizing t with
  | nil =>
    unfold State.readItems
    split
    · exact h.endReader g
    · split
      · exact Tends.endReader ((h.record (e := .streamEnded g) rfl rfl).shut hs _ _) g
      · exact h
  | cons item items ih =>
    unfold State.readItems
    split
    · exact h.endReader g
    · have hlink : Tends s (t.modifyLink l fun k => { k with toClient := items }) :=
        h.quiet rfl rfl rfl rfl rfl
      cases item with
      | ok frame => exact ih (hlink.readFrame hs g frame)
      | error e => exact Tends.endReader ((hlink.record rfl rfl).failConnection hs g e.message) g

theorem Tends.runReader (h : Tends s t) (hs : Unobserved s) (g : Nat) : Tends s (t.runReader g) := by
  rw [State.runReader]
  split
  · exact h
  · split
    · exact h
    · exact h.readItems hs g _ _

theorem Tends.writeFrames (h : Tends s t) (hs : Unobserved s) (g l : Nat) (frames : List String) :
    Tends s (State.writeFrames g l frames t) := by
  induction frames generalizing t with
  | nil =>
    unfold State.writeFrames
    split
    · exact (h.endWriter g).record rfl rfl
    · exact h
  | cons frame frames ih =>
    have hnext : Tends s (t.unqueue g) := h.quiet rfl rfl rfl rfl rfl
    unfold State.writeFrames
    simp only
    split
    · rename_i u hu
      obtain ⟨f, rfl⟩ := deliverFrame_eq hu
      have hput : Tends s ((t.unqueue g).modifyLink l f) := hnext.quiet rfl rfl rfl rfl rfl
      exact ih (hput.record rfl rfl)
    · exact Tends.endWriter ((hnext.record rfl rfl).failConnection hs g _) g

theorem Tends.runWriter (h : Tends s t) (hs : Unobserved s) (g : Nat) : Tends s (t.runWriter g) := by
  rw [State.runWriter]
  split
  · exact h
  · split
    · exact h.writeFrames hs g _ _
    · exact h

theorem Tends.endTicker (h : Tends s t) (g : Nat) : Tends s (t.endTicker g) := by
  have hend : Tends s (t.modifyConnection g fun c => { c with ticker := .ended }) :=
    h.quiet rfl rfl rfl rfl rfl
  unfold State.endTicker
  simp only
  split
  · exact hend
  · exact hend.wake _

theorem Tends.queueTicks (h : Tends s t) (g : Nat) (ticks : List Nat) :
    Tends s (State.queueTicks g ticks t) := by
  induction ticks generalizing t with
  | nil => exact h
  | cons due ticks ih =>
    have hqueue : Tends s (t.modifyConnection g fun c =>
        { c with queue := c.queue ++ [t.transport.options.keepaliveFrame] }) :=
      h.quiet rfl rfl rfl rfl rfl
    exact ih ((hqueue.wake _).record rfl rfl)

theorem Tends.tick (h : Tends s t) (g every : Nat) (c : Connection) :
    Tends s (State.tick g every c t) := by
  rw [State.tick]
  split
  · exact h.quiet rfl rfl rfl rfl rfl
  · simp only
    split
    · exact h.queueTicks g _
    · exact (h.queueTicks g _).quiet rfl rfl rfl rfl rfl

theorem Tends.runTicker (h : Tends s t) (g : Nat) : Tends s (t.runTicker g) := by
  rw [State.runTicker]
  split
  · split
    · exact h
    · exact h.endTicker g
    · split
      · exact h.endTicker g
      · exact h.tick g _ _
  · exact h

/-- A turn of anything but an operation is a sequence of tendings. -/
theorem tends_run {timeout : Nat} (hs : Unobserved s) (hp : Punctual timeout s) {w : Work}
    (hw : ∀ n, w ≠ .operation n) : Tends s (s.run w) := by
  cases w with
  | operation n => exact absurd rfl (hw n)
  | writer g => exact Tends.runWriter .refl hs g
  | reader g => exact Tends.runReader .refl hs g
  | ticker g => exact Tends.runTicker .refl g
  | watchdog id => exact .single (.watch timeout id s hp)

end LanguageClient.Client
