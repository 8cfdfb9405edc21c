import LanguageClient.Proofs.Passage
import LanguageClient.Proofs.Schedule
/-!
What everything but the clock and the tickers leaves alone. Whatever the user, the peer, the operations and
the work that serves a connection do, no time passes, nothing that is ready or asked for a later time is
forgotten, and the ticker of a connection that stays open goes on as it was.
-/
namespace LanguageClient

/-- An attempt comes to a connection, and a connection to its end. -/
def Transport.ConnectionState.rank : Transport.ConnectionState → Nat
  | .connecting => 0
  | .opened => 1
  | .disconnected => 2

namespace Client
open Relation Transport Rpc Json Session

/-- Every attempt, every connection and every end of one takes a client further. -/
def State.stage (s : State) : Nat := 3 * s.transport.generation + s.transport.state.rank

/-- The ticker of the present connection, and when it is to tick next. -/
def State.beat (s : State) : Option (Activity × Option Nat) :=
  (s.connection? s.transport.generation).map fun c => (c.ticker, c.nextTick)

/-- The ticker of the present connection has its first turn before it, unless there is to be none. -/
def State.Starting (s : State) : Prop :=
  s.transport.options.keepaliveMs.isSome = true →
    s.beat = some (.running, none) ∧ .ticker s.transport.generation ∈ s.ready

/-- What may be told on the way from one stage to another: that a connection opened or was closed only if
it did so on the way, and nothing of keepalive frames. -/
def Entry.Between (a b : Nat) : Entry → Prop
  | .keptAlive .. => False
  | .emitted g .opened => a < 3 * g + 1 ∧ 3 * g + 1 ≤ b
  | .emitted g (.closed _) => a < 3 * g + 2 ∧ 3 * g + 2 ≤ b
  | _ => True

/-- Entries that tell neither of keepalive frames nor of a connection that opens or is closed. -/
def Entry.isPassing : Entry → Bool
  | .keptAlive .. | .emitted _ .opened | .emitted _ (.closed _) => false
  | _ => true

theorem Entry.between_of_isPassing {e : Entry} (h : e.isPassing = true) (a b : Nat) : e.Between a b := by
  cases e with
  | emitted g event =>
    cases event with
    | opened => cases h
    | closed reason => cases h
    | _ => trivial
  | keptAlive => cases h
  | _ => trivial

theorem Entry.Between.mono {a b a' b' : Nat} {e : Entry} (h : e.Between a b) (ha : a' ≤ a) (hb : b ≤ b') :
    e.Between a' b' := by
  cases e with
  | emitted g event =>
    cases event with
    | opened => exact ⟨Nat.lt_of_le_of_lt ha h.1, Nat.le_trans h.2 hb⟩
    | closed reason => exact ⟨Nat.lt_of_le_of_lt ha h.1, Nat.le_trans h.2 hb⟩
    | _ => trivial
  | keptAlive => exact h
  | _ => trivial

theorem rank_le (c : ConnectionState) : c.rank ≤ 2 := by cases c <;> decide

theorem rank_eq_one {c : ConnectionState} : c.rank = 1 ↔ c = .opened := by cases c <;> decide

variable {s t u : State}

theorem stage_eq_iff : t.stage = s.stage ↔ t.transport.generation = s.transport.generation ∧
    t.transport.state.rank = s.transport.state.rank := by
  have hs := rank_le s.transport.state
  have ht := rank_le t.transport.state
  rw [State.stage, State.stage]
  omega

theorem opened_iff_of_stage_eq (h : t.stage = s.stage) :
    t.transport.state = .opened ↔ s.transport.state = .opened := by
  rw [← rank_eq_one, ← rank_eq_one, (stage_eq_iff.mp h).2]

/-- One state comes from another without time passing and without a tick. -/
structure Onward (s t : State) : Prop where
  now : t.now = s.now
  options : t.transport.options = s.transport.options
  ready : ∀ w ∈ s.ready, w ∈ t.ready
  alarms : ∀ a ∈ s.alarms, a ∈ t.alarms
  stage : s.stage ≤ t.stage
  journal : Grows (Entry.Between s.stage t.stage) s t
  /-- The ticker of a connection that stays open is left alone. -/
  kept : t.stage = s.stage → t.transport.state = .opened → t.beat = s.beat
  begun : s.stage < t.stage → t.transport.state = .opened → t.Starting

theorem Onward.refl (s : State) : Onward s s :=
  ⟨rfl, rfl, fun _ h => h, fun _ h => h, Nat.le_refl _, .refl s, fun _ _ => rfl,
    fun h => absurd h (Nat.lt_irrefl _)⟩

theorem Onward.trans (h : Onward s t) (k : Onward t u) : Onward s u where
  now := k.now.trans h.now
  options := k.options.trans h.options
  ready w hw := k.ready w (h.ready w hw)
  alarms a ha := k.alarms a (h.alarms a ha)
  stage := Nat.le_trans h.stage k.stage
  journal := (h.journal.mono fun _ he => he.mono (Nat.le_refl _) k.stage).trans
    (k.journal.mono fun _ he => he.mono h.stage (Nat.le_refl _))
  kept hstage hopen := by
    have hst : t.stage = s.stage := by have := h.stage; have := k.stage; omega
    have htu : u.stage = t.stage := by omega
    exact (k.kept htu hopen).trans (h.kept hst ((opened_iff_of_stage_eq htu).mp hopen))
  begun hstage hopen := by
    obtain hlt | heq := Nat.lt_or_eq_of_le k.stage
    · exact k.begun hlt hopen
    · have hmiddle := (opened_iff_of_stage_eq heq.symm).mp hopen
      have hstarting := h.begun (heq ▸ hstage) hmiddle
      intro hticks
      obtain ⟨hbeat, hready⟩ := hstarting (k.options ▸ hticks)
      rw [(stage_eq_iff.mp heq.symm).1]
      exact ⟨(k.kept heq.symm hopen).trans hbeat, k.ready _ hready⟩

theorem Onward.still (now : t.now = s.now) (options : t.transport.options = s.transport.options)
    (ready : ∀ w ∈ s.ready, w ∈ t.ready) (alarms : ∀ a ∈ s.alarms, a ∈ t.alarms)
    (generation : t.transport.generation = s.transport.generation)
    (state : t.transport.state = s.transport.state) (beat : t.beat = s.beat)
    (journal : Grows (·.isPassing = true) s t) : Onward s t := by
  have hstage : t.stage = s.stage := by rw [State.stage, generation, state, State.stage]
  exact ⟨now, options, ready, alarms, Nat.le_of_eq hstage.symm,
    journal.mono fun _ he => Entry.between_of_isPassing he _ _, fun _ _ => beat,
    fun h => absurd hstage.symm (Nat.ne_of_lt h)⟩

theorem beat_of_transport {hub : Registry EventKind Handler}
    (h : t.transport = { s.transport with hub }) : t.beat = s.beat := by
  rw [State.beat, State.beat, State.connection?, State.connection?, h]

theorem Onward.aside (hub : Registry EventKind Handler) (transport : t.transport = { s.transport with hub })
    (now : t.now = s.now) (ready : ∀ w ∈ s.ready, w ∈ t.ready) (alarms : ∀ a ∈ s.alarms, a ∈ t.alarms)
    (journal : Grows (·.isPassing = true) s t) : Onward s t :=
  .still now (by rw [transport]) ready alarms (by rw [transport]) (by rw [transport])
    (beat_of_transport transport) journal

theorem Onward.elsewhere (h : Onward s t) (transport : u.transport = t.transport) (now : u.now = t.now)
    (ready : u.ready = t.ready) (alarms : u.alarms = t.alarms) (journal : u.journal = t.journal) :
    Onward s u :=
  h.trans (.aside t.transport.hub transport now (fun _ hw => ready ▸ hw)
    (fun _ ha => alarms ▸ ha) (.of_eq journal))

theorem Onward.modifyEngine (h : Onward s t) (f : Engine → Engine) : Onward s (t.modifyEngine f) :=
  h.elsewhere rfl rfl rfl rfl rfl

theorem Onward.modifyLink (h : Onward s t) (l : Nat) (f : Link → Link) : Onward s (t.modifyLink l f) :=
  h.elsewhere rfl rfl rfl rfl rfl

theorem Onward.modifyPeer (h : Onward s t) (f : Peer → Peer) : Onward s (t.modifyPeer f) :=
  h.elsewhere rfl rfl rfl rfl rfl

theorem Onward.putOperation (h : Onward s t) (n : Nat) (op : Operation) : Onward s (t.putOperation n op) :=
  h.elsewhere rfl rfl rfl rfl rfl

theorem Onward.record (h : Onward s t) {e : Entry} (he : e.isPassing = true) : Onward s (t.record e) :=
  h.trans (.aside t.transport.hub rfl rfl (fun _ hw => hw) (fun _ ha => ha) (grows_record he t))

theorem wake_ready {v w : Work} (h : v ∈ s.ready) : v ∈ (s.wake w).ready := by
  rw [State.wake]
  split
  · exact h
  · exact List.mem_append_left _ h

theorem mem_ready_wake (w : Work) (s : State) : w ∈ (s.wake w).ready := by
  rw [State.wake]
  split
  · rename_i h
    exact List.contains_iff_mem.mp h
  · exact List.mem_append_right _ List.mem_cons_self

@[simp] theorem wake_now (w : Work) (s : State) : (s.wake w).now = s.now := by
  obtain ⟨_, h⟩ := State.wake_eq w s
  rw [h]

@[simp] theorem wake_alarms (w : Work) (s : State) : (s.wake w).alarms = s.alarms := by
  obtain ⟨_, h⟩ := State.wake_eq w s
  rw [h]

theorem Onward.wake (h : Onward s t) (w : Work) : Onward s (t.wake w) :=
  h.trans (.aside t.transport.hub (by simp) (by simp) (fun _ hw => wake_ready hw)
    (fun _ ha => by simpa using ha) (.of_eq (by simp)))

theorem Onward.modify (h : Onward s t) (g : Nat) {f : Connection → Connection}
    (hf : ∀ c, (f c).ticker = c.ticker ∧ (f c).nextTick = c.nextTick) :
    Onward s (t.modifyConnection g f) := by
  refine h.trans (.still rfl rfl (fun _ hw => hw) (fun _ ha => ha) rfl rfl ?_ (.of_eq rfl))
  change ((t.modifyConnection g f).connection? t.transport.generation).map _ = _
  rw [State.beat, connection?_modify]
  split
  · rw [Option.map_map]
    exact Option.map_congr fun c _ => Prod.ext (hf c).1 (hf c).2
  · rfl

theorem Onward.conclude (h : Onward s t) (id : Int) (outcome : Outcome Value) :
    Onward s (t.conclude id outcome) := by
  have hset : Onward s (t.modifyEngine fun e => { e with outcomes := e.outcomes.put id outcome }) :=
    h.elsewhere rfl rfl rfl rfl rfl
  rw [State.conclude]
  split
  · exact (hset.record rfl).wake _
  · exact hset.record rfl

theorem Onward.settle (h : Onward s t) (id : Int) (f : Pending → Outcome Value) :
    Onward s (t.settle id f) := by
  rw [State.settle]
  split
  · exact h
  · rename_i entry _
    have hremoved : Onward s (t.remove id entry) := h.elsewhere rfl rfl rfl rfl rfl
    exact hremoved.conclude id _

theorem Onward.abortPending (h : Onward s t) (reason : String) : Onward s (t.abortPending reason).2 :=
  State.abortPending_keeps (Q := Onward s) (h.record rfl) fun id _ hs => hs.settle id _

theorem Onward.resolve (h : Onward s t) (r : Response) : Onward s (t.resolve r) := by
  rw [State.resolve]
  split
  · exact Onward.settle (h.record rfl) _ _
  · exact h.record rfl

theorem Onward.cancelToken (h : Onward s t) (token : String) : Onward s (t.cancelToken token) := by
  rw [State.cancelToken]
  split
  · exact h
  · simp only
    have hwakes (ids : List Int) (v : State) (hv : Onward s v) :
        Onward s (ids.foldl (fun s id => s.wake (.watchdog id)) v) := by
      induction ids generalizing v with
      | nil => exact hv
      | cons id ids ih => exact ih _ (hv.wake _)
    exact hwakes _ _ (h.elsewhere rfl rfl rfl rfl rfl)

theorem Onward.send (h : Onward s t) (frame : String) : Onward s (t.send frame).2 := by
  rw [State.send]
  split
  · rename_i g _ _
    have hqueued : Onward s (t.modifyConnection g fun c => { c with queue := c.queue ++ [frame] }) :=
      h.modify g fun _ => ⟨rfl, rfl⟩
    exact (hqueued.wake _).record rfl
  · exact h.record rfl

theorem Onward.listen (h : Onward s t) (topic : Topic) (handler : Handler) (name : String) :
    Onward s (t.listen topic handler name) := by
  obtain ⟨hub, _, _, hl⟩ := State.listen_eq topic handler name t
  rw [hl]
  exact h.trans (.aside hub rfl rfl (fun _ hw => hw) (fun _ ha => ha) (.of_eq rfl))

theorem Onward.unlisten (h : Onward s t) (name : String) : Onward s (t.unlisten name).2 := by
  obtain ⟨hub, _, _, hl⟩ := State.unlisten_eq name t
  rw [hl]
  exact h.trans (.aside hub rfl rfl (fun _ hw => hw) (fun _ ha => ha) (.of_eq rfl))

/-- Only the connections and the schedule change, and what was ready stays so. -/
private structure Rouses (s t : State) : Prop where
  now : t.now = s.now
  alarms : t.alarms = s.alarms
  journal : t.journal = s.journal
  ready : ∀ w ∈ s.ready, w ∈ t.ready
  transport : ∃ connections, t.transport = { s.transport with connections }

private theorem Rouses.wake (h : Rouses s t) (w : Work) : Rouses s (t.wake w) :=
  ⟨by rw [wake_now, h.now], by rw [wake_alarms, h.alarms], by rw [State.wake_journal, h.journal],
    fun v hv => wake_ready (h.ready v hv), by rw [State.wake_transport]; exact h.transport⟩

private theorem Rouses.stop (h : Rouses s t) (w : Work) : Rouses s (t.stop w) := by
  have hmodified (g : Nat) (f : Connection → Connection) : Rouses s (t.modifyConnection g f) := by
    obtain ⟨_, ht⟩ := h.transport
    exact ⟨h.now, h.alarms, h.journal, h.ready, _, by rw [State.modifyConnection, ht]⟩
  cases w with
  | reader g => exact (hmodified g _).wake _
  | ticker g => exact (hmodified g _).wake _
  | _ => exact h

private theorem Rouses.stops (h : Rouses s t) (tasks : List Work) :
    Rouses s (tasks.foldl (fun s w => s.stop w) t) := by
  induction tasks generalizing t with
  | nil => exact h
  | cons w tasks ih => exact ih (h.stop w)

private theorem Rouses.releaseSender (h : Rouses s t) (g : Nat) : Rouses s (t.releaseSender g) := by
  rw [State.releaseSender]
  split
  · split
    · exact h.wake _
    · exact h
  · exact h

private theorem rouses_takeDown (s : State) : Rouses (s.modifyTransport fun t => { t with
    state := .disconnected, outbound := none, tasks := [] }) s.takeDown := by
  rw [State.takeDown]
  have hdown : Rouses (s.modifyTransport fun t => { t with
      state := .disconnected, outbound := none, tasks := [] }) (s.modifyTransport fun t => { t with
      state := .disconnected, outbound := none, tasks := [] }) :=
    ⟨rfl, rfl, rfl, fun _ h => h, _, rfl⟩
  cases s.transport.outbound with
  | none => exact hdown.stops _
  | some g => exact (hdown.releaseSender g).stops _

private theorem onward_over {e : Entry} (hready : ∀ w ∈ s.ready, w ∈ t.ready) (now : t.now = s.now)
    (alarms : t.alarms = s.alarms) (options : t.transport.options = s.transport.options)
    (generation : t.transport.generation = s.transport.generation)
    (up : s.transport.state ≠ .disconnected) (down : t.transport.state = .disconnected)
    (journal : t.journal = s.journal ++ [e])
    (he : e.Between (3 * s.transport.generation + 1) (3 * s.transport.generation + 2)) : Onward s t := by
  have hs : s.stage ≤ 3 * s.transport.generation + 1 := by
    rw [State.stage]
    cases h : s.transport.state with
    | disconnected => exact absurd h up
    | _ => exact Nat.add_le_add_left (by decide) _
  have ht : t.stage = 3 * s.transport.generation + 2 := by rw [State.stage, generation, down]; rfl
  have hclosed : t.transport.state ≠ .opened := by rw [down]; decide
  refine ⟨now, options, hready, fun _ ha => alarms ▸ ha, by omega, ?_, fun _ h => absurd h hclosed,
    fun _ h => absurd h hclosed⟩
  exact ⟨[e], journal, List.forall_mem_singleton.mpr (he.mono hs (Nat.le_of_eq ht.symm))⟩

theorem Onward.closed (h : Onward s t) (up : t.transport.state ≠ .disconnected) (reason : CloseReason) :
    Onward s (t.takeDown.record (.emitted t.transport.generation (.closed reason))) := by
  have htaken := rouses_takeDown t
  obtain ⟨_, htransport⟩ := htaken.transport
  refine h.trans (onward_over (e := .emitted t.transport.generation (.closed reason)) htaken.ready
    htaken.now htaken.alarms ?_ ?_ up ?_ ?_ ⟨Nat.lt_succ_self _, Nat.le_refl _⟩)
  · change t.takeDown.transport.options = _
    rw [htransport]
    rfl
  · change t.takeDown.transport.generation = _
    rw [htransport]
    rfl
  · change t.takeDown.transport.state = _
    rw [htransport]
    rfl
  · change t.takeDown.journal ++ _ = _
    rw [htaken.journal]
    rfl

private theorem Onward.react {P : String → Prop} {v : State} (h : Onward s t) (hr : React P t v) :
    Onward s v := by
  cases hr with
  | remark e _ he => exact h.record (by cases e <;> first | rfl | cases he)
  | listen topic handler name => exact h.listen topic handler name
  | unlisten name => exact h.unlisten name
  | send frame => exact h.send frame
  | cancelToken token => exact h.cancelToken token
  | abortPending reason => exact h.abortPending reason
  | hangUp =>
    have htold : Onward s (t.record .hungUp) := h.record rfl
    by_cases hdown : t.transport.state = .disconnected
    · rw [State.hangUp_of_down hdown]
      exact htold
    · rw [State.hangUp_of_up hdown]
      exact htold.closed hdown .byClient

theorem Onward.hears {P : String → Prop} {R : Response → Prop} (h : Onward s t) {v : State}
    (hv : Hears P R t v) : Onward s v := by
  refine hv.keeps (Q := Onward s) (fun a b hab ha => ?_) h
  cases hab with
  | react hr => exact ha.react hr
  | resolve r => exact ha.resolve r

private theorem Onward.emitWith {close : State → State} (hc : Closes (fun _ => True) close) {g : Nat}
    {event : Transport.Event} (h : Onward s (t.record (.emitted g event))) :
    Onward s (State.emitWith close g event t) :=
  h.hears (emitWith_hears hc g event (heeds_anything t))

theorem Onward.shut (h : Onward s t) (g : Option Nat) (reason : CloseReason) :
    Onward s (t.shut g reason) := by
  rw [State.shut]
  split
  · exact h
  · rename_i hup
    refine Onward.emitWith closes_id (h.closed (fun hdown => hup ?_) reason)
    rw [hdown]
    simp

theorem Onward.disconnect (h : Onward s t) : Onward s t.disconnect := Onward.shut (h.record rfl) none _

theorem Onward.failConnection (h : Onward s t) (g : Nat) (text : String) :
    Onward s (t.failConnection g text) := by
  rw [State.failConnection]
  split
  · have hwarned : Onward s (t.warn "transport failure") := h.record rfl
    have hfailed : Onward s ((t.warn "transport failure").record (.emitted g (.failed text))) :=
      hwarned.record rfl
    exact (Onward.emitWith closes_disconnect hfailed).shut _ _
  · exact h

theorem Onward.beginAttempt (h : Onward s t) : Onward s t.beginAttempt.2 := by
  rw [State.beginAttempt]
  split
  · refine h.trans ?_
    have hstage : t.stage < 3 * (t.transport.generation + 1) := by
      have := rank_le t.transport.state
      rw [State.stage]
      omega
    have hconnecting : ConnectionState.connecting ≠ .opened := by decide
    exact ⟨rfl, rfl, fun _ hw => hw, fun _ ha => ha, Nat.le_of_lt hstage, .of_eq rfl,
      fun _ hopen => absurd hopen hconnecting, fun _ hopen => absurd hopen hconnecting⟩
  · exact h

theorem Onward.failAttempt (h : Onward s t) (g : Nat) (e : Fault) : Onward s (t.failAttempt g e) := by
  rw [State.failAttempt]
  split
  · rename_i hattempting
    refine Onward.emitWith closes_disconnect (h.trans ?_)
    refine onward_over (e := .emitted g (.failed e.message)) (fun _ hw => hw) rfl rfl rfl rfl ?_ rfl rfl
      trivial
    rw [(isAttempting_iff.mp hattempting).2]
    decide
  · exact h

private theorem establish_schedule (g l : Nat) (s : State) : (s.establish g l).now = s.now ∧
    (s.establish g l).alarms = s.alarms ∧ (s.establish g l).journal = s.journal ∧
      (∀ w ∈ s.ready, w ∈ (s.establish g l).ready) ∧
      (s.transport.options.keepaliveMs.isSome = true → .ticker g ∈ (s.establish g l).ready) := by
  rw [State.establish]
  split
  · exact ⟨by simp [State.modifyTransport], by simp [State.modifyTransport],
      by simp [State.modifyTransport], fun w hw => wake_ready (wake_ready (wake_ready hw)),
      fun _ => mem_ready_wake _ _⟩
  · rename_i hticks
    exact ⟨by simp [State.modifyTransport], by simp [State.modifyTransport],
      by simp [State.modifyTransport], fun w hw => wake_ready (wake_ready hw), fun h => absurd h hticks⟩

private theorem Onward.establish (h : Onward s t) {g : Nat} (l : Nat) (hg : t.isAttempting g = true) :
    Onward s ((t.establish g l).record (.emitted g .opened)) := by
  obtain ⟨rfl, hstate⟩ := isAttempting_iff.mp hg
  obtain ⟨hnow, halarms, hjournal, hready, hticker⟩ :=
    establish_schedule t.transport.generation l t
  have htransport := establish_transport t.transport.generation l t
  generalize t.establish t.transport.generation l = v at *
  have hoptions : v.transport.options = t.transport.options := by rw [htransport]
  have hgeneration : v.transport.generation = t.transport.generation := by rw [htransport]
  have ht : t.stage = 3 * t.transport.generation := by rw [State.stage, hstate]; rfl
  have hv : (v.record (.emitted t.transport.generation .opened)).stage =
      3 * t.transport.generation + 1 := by
    rw [State.stage]
    change 3 * v.transport.generation + v.transport.state.rank = _
    rw [htransport]
    rfl
  refine h.trans ⟨hnow, hoptions, hready, fun _ ha => halarms ▸ ha, by omega, ?_, fun heq => by omega, ?_⟩
  · refine ⟨[.emitted t.transport.generation .opened], ?_, List.forall_mem_singleton.mpr ⟨?_, ?_⟩⟩
    · rw [State.record, hjournal]
    · omega
    · omega
  · intro _ _ hticks
    change v.transport.options.keepaliveMs.isSome = true at hticks
    rw [hoptions] at hticks
    change (v.connection? v.transport.generation).map _ = _ ∧ .ticker v.transport.generation ∈ v.ready
    refine ⟨?_, hgeneration ▸ hticker hticks⟩
    rw [hgeneration, State.connection?, htransport]
    simp only [Keyed.get?_put_self, Option.map_some, hticks, if_true]

theorem Onward.completeAttempt (h : Onward s t) (g l : Nat) : Onward s (t.completeAttempt g l).2 := by
  rw [State.completeAttempt]
  split
  · rename_i hg
    exact Onward.emitWith closes_disconnect (h.establish l hg)
  · exact h.elsewhere rfl rfl rfl rfl rfl

private theorem makeLink_ready {w : Work} (h : w ∈ s.ready) : w ∈ s.makeLink.2.ready := by
  rw [State.makeLink]
  cases s.peer.reads with
  | none =>
    simp only
    split
    · split
      · exact wake_ready h
      · exact h
    · exact h
  | some old =>
    simp only
    split
    · split
      · exact wake_ready h
      · exact h
    · exact h

theorem Onward.makeLink (h : Onward s t) : Onward s t.makeLink.2 := by
  obtain ⟨_, _, hmade⟩ := State.makeLink_eq t
  have hready : ∀ w ∈ t.ready, w ∈ t.makeLink.2.ready := fun _ hw => makeLink_ready hw
  rw [hmade] at hready ⊢
  exact h.trans (.aside t.transport.hub rfl rfl hready (fun _ ha => ha) (.of_eq rfl))

private theorem Onward.reachPeer (h : Onward s t) (g : Nat) : Onward s (t.reachPeer g).2 := by
  rw [State.reachPeer]
  split
  · exact h.failAttempt g _
  · exact h.makeLink.completeAttempt g _

private theorem Onward.turnAttempt (h : Onward s t) (attempt : Attempt) :
    Onward s (t.turnAttempt attempt).2 := by
  cases attempt with
  | fresh =>
    have hbegun := h.beginAttempt
    rw [State.turnAttempt]
    generalize t.beginAttempt = begun at hbegun
    obtain ⟨_ | g, v⟩ := begun
    · exact hbegun
    · simp only
      split
      · exact hbegun
      · exact hbegun.reachPeer g
  | held g => exact h
  | released g failure =>
    cases failure with
    | none => exact h.reachPeer g
    | some text => exact h.failAttempt g _

theorem Onward.endReader (h : Onward s t) (g : Nat) : Onward s (t.endReader g) := by
  have hended : Onward s (t.modifyConnection g fun c => { c with reader := .ended }) :=
    h.modify g fun _ => ⟨rfl, rfl⟩
  rw [State.endReader]
  split
  · exact h
  · exact hended.modifyLink _ _

theorem Onward.endWriter (h : Onward s t) (g : Nat) : Onward s (t.endWriter g) := by
  have hended : Onward s (t.modifyConnection g fun c => { c with queue := [], writing := false }) :=
    h.modify g fun _ => ⟨rfl, rfl⟩
  rw [State.endWriter]
  split
  · exact h
  · exact hended.modifyLink _ _

private theorem Onward.readItems (h : Onward s t) (g l : Nat) (items : List (Outcome String)) :
    Onward s (State.readItems g l items t) := by
  induction items generalizing t with
  | nil =>
    rw [State.readItems]
    split
    · exact h.endReader g
    · split
      · exact Onward.endReader (Onward.shut (h.record rfl) _ _) g
      · exact h
  | cons item items ih =>
    rw [State.readItems]
    split
    · exact h.endReader g
    · have hlink : Onward s (t.modifyLink l fun k => { k with toClient := items }) :=
        h.elsewhere rfl rfl rfl rfl rfl
      cases item with
      | ok frame => exact ih (Onward.emitWith closes_disconnect ((hlink.record rfl).record rfl))
      | error e => exact Onward.endReader (Onward.failConnection (hlink.record rfl) g _) g

private theorem Onward.runReader (h : Onward s t) (g : Nat) : Onward s (t.runReader g) := by
  rw [State.runReader]
  split
  · exact h
  · split
    · exact h
    · exact h.readItems g _ _

private theorem Onward.writeFrames (h : Onward s t) (g l : Nat) (frames : List String) :
    Onward s (State.writeFrames g l frames t) := by
  induction frames generalizing t with
  | nil =>
    rw [State.writeFrames]
    split
    · exact (h.endWriter g).record rfl
    · exact h
  | cons frame frames ih =>
    have hunqueued : Onward s (t.unqueue g) := h.modify g fun _ => ⟨rfl, rfl⟩
    rw [State.writeFrames]
    split
    · rename_i v hv
      obtain ⟨_, rfl⟩ := deliverFrame_eq hv
      exact ih ((hunqueued.modifyLink l _).record rfl)
    · exact Onward.endWriter (Onward.failConnection (hunqueued.record rfl) g _) g

private theorem Onward.runWriter (h : Onward s t) (g : Nat) : Onward s (t.runWriter g) := by
  rw [State.runWriter]
  split
  · exact h
  · split
    · exact h.writeFrames g _ _
    · exact h

theorem Onward.cancel (h : Onward s t) (id : Int) : Onward s (t.cancel id) := by
  have hrevoked : Onward s (t.record (.revoked id)) := h.record rfl
  rw [State.cancel]
  split
  · exact hrevoked
  · rename_i entry _
    have hremoved : Onward s ((t.record (.revoked id)).remove id entry) :=
      hrevoked.elsewhere rfl rfl rfl rfl rfl
    exact (hremoved.send _).conclude id _

private theorem Onward.watch (h : Onward s t) (id : Int) : Onward s (t.watch id) := by
  have hended : Onward s (t.endWatchdog id) := h.elsewhere rfl rfl rfl rfl rfl
  rw [State.watch]
  split
  · exact h
  · simp only
    split
    · exact hended.cancel id
    · split
      · exact Onward.settle (hended.record rfl) id _
      · split
        · exact h
        · exact h.trans (.aside t.transport.hub rfl rfl (fun _ hw => hw)
            (fun _ ha => List.mem_append_left _ ha) (.of_eq rfl))

theorem Onward.request (h : Onward s t) (method : String) (params : Value) (options : CallOptions) :
    Onward s (t.request method params options).2 := by
  have hentered : Onward s (t.enter method options).2 :=
    Onward.record (t := t.modifyEngine _) (h.elsewhere rfl rfl rfl rfl rfl) rfl
  rw [State.request]
  simp only
  split
  · exact Onward.settle (hentered.record rfl) _ _
  · obtain ⟨v, hv, hhanded | ⟨e, hhanded⟩⟩ := State.handOver_cases (t.enter method options).1 method
      params (t.enter method options).2 <;> rw [hhanded, hv]
    · have hguarded : Onward s (State.guard (t.enter method options).1 options
          ((t.enter method options).2.send
            (Request.new (t.enter method options).1 method (encodeParams params)).wire).2) :=
        Onward.wake (t := State.modifyEngine _ _) ((hentered.send _).elsewhere rfl rfl rfl rfl rfl) _
      exact hguarded.elsewhere rfl rfl rfl rfl rfl
    · exact Onward.settle ((hentered.send _).record rfl) _ _

private theorem Onward.dropEngine (h : Onward s t) : Onward s t.dropEngine := by
  rw [State.dropEngine]
  cases t.engine.inbound with
  | none => exact (h.modifyEngine _).abortPending _
  | some reg =>
    have hunhooked : Onward s (t.modifyTransport fun t => { t with hub := t.hub.unsubscribe reg }) :=
      h.trans (.aside (t.transport.hub.unsubscribe reg) rfl rfl (fun _ hw => hw) (fun _ ha => ha)
        (.of_eq rfl))
    exact (hunhooked.modifyEngine _).abortPending _

theorem Onward.dropUnneeded (h : Onward s t) : Onward s t.dropUnneeded := by
  rw [State.dropUnneeded]
  split
  · exact h
  split
  · exact h
  simp only
  split
  · exact h.dropEngine.disconnect
  · exact h.dropEngine

private theorem Onward.finish (h : Onward s t) (n : Nat) (outcome : Outcome Value) :
    Onward s (t.finish n outcome) := by
  have herased : Onward s { t with operations := t.operations.erase n } := h.elsewhere rfl rfl rfl rfl rfl
  exact (herased.record rfl).dropUnneeded

private theorem Onward.waitForPeer (h : Onward s t) (n : Nat) (op : Operation) :
    Onward s (t.waitForPeer n op) := by
  rw [State.waitForPeer]
  simp only
  split <;> exact h.elsewhere rfl rfl rfl rfl rfl

private theorem Onward.collect (h : Onward s t) {id : Int} {outcome : Outcome Value} {v : State}
    (hc : t.collect id = some (outcome, v)) : Onward s v := by
  obtain ⟨_, _, hv⟩ := Option.map_eq_some_iff.mp hc
  cases hv
  exact h.elsewhere rfl rfl rfl rfl rfl

private theorem Onward.warns (h : Onward s t) (texts : List String) :
    Onward s (texts.foldl (fun s text => s.warn text) t) := by
  induction texts generalizing t with
  | nil => exact h
  | cons text texts ih => exact ih (h.record rfl)

private theorem Onward.completeInitialize (h : Onward s t) (outcome : Outcome Value) :
    Onward s (t.completeInitialize outcome).2 := by
  cases outcome with
  | error e => exact h.elsewhere rfl rfl rfl rfl rfl
  | ok result => exact (h.warns _).elsewhere rfl rfl rfl rfl rfl

theorem Onward.initialized (h : Onward s t) : Onward s t.initialized.2 := by
  have hsent : Onward s (t.notify "initialized" (some (.obj []))).2 := h.send _
  rw [State.initialized]
  split <;> rename_i hn <;> rw [hn] at hsent
  · exact hsent.elsewhere rfl rfl rfl rfl rfl
  · exact hsent

private theorem Onward.beginInitialize (h : Onward s t) : Onward s t.beginInitialize := by
  rw [State.beginInitialize]
  split
  · exact h.elsewhere rfl rfl rfl rfl rfl
  · have hwarned : Onward s (t.warn "initialize sent again") := h.record rfl
    exact hwarned.elsewhere rfl rfl rfl rfl rfl

private theorem Onward.filings {P : String → Prop} (h : Onward s t) {v : State} (hv : Filings P t v) :
    Onward s v := by
  refine hv.keeps (Q := Onward s) (fun a b hab ha => ?_) h
  cases hab with
  | send frame => exact ha.send frame
  | note n => exact ha.record rfl
  | session c => exact ha.elsewhere rfl rfl rfl rfl rfl
  | shutDown => exact ha.record rfl

private theorem Onward.completeLaunch (h : Onward s t) (outcome : Outcome Value) :
    Onward s (t.completeLaunch outcome).2 := by
  have hdone := h.completeInitialize outcome
  rw [State.completeLaunch]
  split <;> rename_i hi <;> rw [hi] at hdone
  · exact hdone
  · exact hdone.initialized

private theorem Onward.awaitLaunch (h : Onward s t) (n : Nat) (id : Int) :
    Onward s (t.awaitLaunch n id) := by
  rw [State.awaitLaunch]
  split
  · exact h
  · rename_i hc
    exact ((h.collect hc).completeLaunch _).finish n _

private theorem Onward.awaitInitialize (h : Onward s t) (n : Nat) (id : Int) :
    Onward s (t.awaitInitialize n id) := by
  rw [State.awaitInitialize]
  split
  · exact h
  · rename_i hc
    exact ((h.collect hc).completeInitialize _).finish n _

private theorem Onward.awaitShutdown (h : Onward s t) (n : Nat) (id : Int) :
    Onward s (t.awaitShutdown n id) := by
  rw [State.awaitShutdown]
  split
  · exact h
  · rename_i outcome v hc
    have hdone : Onward s (v.completeShutdown outcome).2 :=
      (h.collect hc).filings (Move.filings (m := .completeShutdown outcome) rfl v)
    exact hdone.finish n _

private theorem Onward.runLaunch (h : Onward s t) (n : Nat) (params : Outcome Value)
    (phase : LaunchPhase) : Onward s (t.runLaunch n params phase) := by
  cases phase with
  | negotiating id => exact h.awaitLaunch n id
  | connecting attempt =>
    have hturn := h.turnAttempt attempt
    rw [State.runLaunch]
    split <;> rename_i ht <;> rw [ht] at hturn
    · exact hturn.waitForPeer n _
    · exact hturn.finish n _
    · unfold State.negotiateLaunch
      split
      · exact hturn.finish n _
      · rename_i params
        have hissued := hturn.beginInitialize.request "initialize" params CallOptions.none
        exact (hissued.putOperation n _).awaitLaunch n _

private theorem Onward.runOperation (h : Onward s t) (n : Nat) : Onward s (t.runOperation n) := by
  rw [State.runOperation]
  split
  · exact h
  · rename_i attempt keeps _
    have hturn := h.turnAttempt attempt
    rw [State.runConnect]
    split <;> rename_i ht <;> rw [ht] at hturn
    · exact hturn.waitForPeer n _
    · exact hturn.finish n _
  · exact h.runLaunch n _ _
  · rename_i params options _
    have hissued := h.beginInitialize.request "initialize" params options
    exact (hissued.putOperation n _).awaitInitialize n _
  · exact h.awaitInitialize n _
  · have hbegun : Onward s t.beginShutdown := h.elsewhere rfl rfl rfl rfl rfl
    have hissued := hbegun.request "shutdown" .null CallOptions.none
    exact (hissued.putOperation n _).awaitShutdown n _
  · exact h.awaitShutdown n _

theorem Onward.run (h : Onward s t) {w : Work} (hw : ∀ g, w ≠ .ticker g) : Onward s (t.run w) := by
  cases w with
  | operation n => exact h.runOperation n
  | writer g => exact h.runWriter g
  | reader g => exact h.runReader g
  | ticker g => exact absurd rfl (hw g)
  | watchdog id => exact h.watch id

private theorem Onward.wakeReader (h : Onward s t) (l : Nat) : Onward s (t.wakeReader l) := by
  rw [State.wakeReader]
  split
  · exact h.wake _
  · exact h

private theorem Onward.peerPut (h : Onward s t) (item : Outcome String) :
    Onward s (t.peerPut item).2 := by
  rw [State.peerPut]
  split
  · exact h
  · split
    · exact h
    · split
      · exact (h.modifyLink _ _).wakeReader _
      · exact h

private theorem Onward.peerClose (h : Onward s t) : Onward s t.peerClose := by
  rw [State.peerClose]
  split
  · exact h
  · exact ((h.modifyPeer _).modifyLink _ _).wakeReader _

private theorem Onward.releaseAttempt (h : Onward s t) (failure : Option String) :
    Onward s (t.releaseAttempt failure).2 := by
  rw [State.releaseAttempt]
  split
  · exact h
  · simp only
    split
    · exact ((h.modifyPeer _).putOperation _ _).wake _
    · exact h.elsewhere rfl rfl rfl rfl rfl

theorem Onward.start (h : Onward s t) (op : Operation) : Onward s (t.start op).2 :=
  Onward.wake (t := { t with
    lastOperation := t.lastOperation + 1
    operations := t.operations.put (t.lastOperation + 1) op })
    (h.elsewhere rfl rfl rfl rfl rfl) _

private theorem Onward.abandon (h : Onward s t) (id : Int) : Onward s (t.abandon id) := by
  have hgone : Onward s ((t.record (.abandoned id)).modifyEngine fun e =>
      { e with outcomes := e.outcomes.erase id }) := (h.record rfl).elsewhere rfl rfl rfl rfl rfl
  rw [State.abandon]
  split
  · exact hgone
  · exact hgone.elsewhere rfl rfl rfl rfl rfl

private theorem Onward.warnIfNotReady (h : Onward s t) : Onward s t.warnIfNotReady := by
  rw [State.warnIfNotReady]
  split
  · exact h
  · have hwarned : Onward s (t.modifySession fun c => { c with warned := true }) :=
      h.elsewhere rfl rfl rfl rfl rfl
    exact hwarned.record rfl

end Client

namespace Rehearsal
open Client

/-- Whatever the user and the peer do, except that they let time pass. -/
theorem Stage.perform_onward {step : Step} (h : ∀ ms, step ≠ .advance ms) (st : Stage) :
    Onward st.client (st.perform step).2.client := by
  have hself := Onward.refl st.client
  cases step with
  | advance ms => exact absurd rfl (h ms)
  | connect keeps => exact hself.start _
  | disconnect => exact hself.disconnect
  | send frame => exact hself.send frame
  | hold on => exact hself.elsewhere rfl rfl rfl rfl rfl
  | release failure => exact hself.releaseAttempt failure
  | failWrites reason => exact hself.elsewhere rfl rfl rfl rfl rfl
  | peerSend frame => exact hself.peerPut _
  | peerFail reason => exact hself.peerPut _
  | peerClose => exact hself.peerClose
  | peerRefuse on => exact hself.elsewhere rfl rfl rfl rfl rfl
  | subscribe topic raw name actions => exact hself.listen topic _ name
  | unsubscribe name => exact hself.unlisten name
  | drop =>
    have hreleased : Onward st.client { st.client with released := true } :=
      hself.elsewhere rfl rfl rfl rfl rfl
    exact hreleased.dropUnneeded
  | request method params options result => exact hself.request method params options
  | notify method params => exact hself.send _
  | cancel token => exact hself.cancelToken token
  | dropCall id =>
    rw [perform]
    split
    · exact hself.abandon id
    · exact hself
  | abort reason => exact hself.abortPending reason
  | abortOnClose name => exact hself.listen (.event .closed) .abortPending name
  | negotiate params options =>
    cases params with
    | error e => exact hself
    | ok params => exact hself.start _
  | initialized => exact hself.initialized
  | shutdown => exact hself.start _
  | didOpen item => exact hself.filings (Move.filings (m := .didOpen item) rfl _)
  | didChange uri text edits => exact hself.filings (Move.filings (m := .didChange uri text edits) rfl _)
  | didSave uri text => exact hself.send _
  | didClose uri => exact hself.filings (Move.filings (m := .didClose uri) rfl _)
  | openFile path => exact hself.filings (Move.filings (m := .openFile path (st.files path)) rfl _)
  | onDiagnostics name => exact hself.listen (.method diagnosticsMethod) (.diagnostics name) name
  | feature f params token => exact hself.warnIfNotReady.request _ _ _
  | transportOptions | peerConnections | subscriberCount _ | document _ | info | unreadable _ =>
    exact hself

theorem Stage.report_onward (reply : Reply) (st : Stage) :
    Onward st.client (st.report reply).2.client := by
  obtain ⟨_, htaken⟩ := State.peerTake_eq st.client
  have htake : Onward st.client st.client.peerTake.2 := by
    rw [htaken]
    exact (Onward.refl st.client).elsewhere rfl rfl rfl rfl rfl
  exact htake.elsewhere rfl rfl rfl rfl rfl

end Rehearsal
end LanguageClient
