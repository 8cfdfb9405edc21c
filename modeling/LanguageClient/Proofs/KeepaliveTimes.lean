import LanguageClient.Proofs.Clockwork
import LanguageClient.Proofs.ConnectionEvents
/-!
Keepalive frames and the clock. While a connection is open a keepalive frame is queued for it once in every
interval, counted from its opening, at the very time at which it is due. There is none before the
connection opens and none after its end, whatever else goes on, and however many connections and attempts
there were before.
-/
namespace LanguageClient

def Transport.Event.isOpening : Transport.Event → Bool
  | .opened => true
  | _ => false

def Transport.Event.isEnding : Transport.Event → Bool
  | .closed _ => true
  | _ => false

namespace Client
open Relation Transport Rpc Json Session

variable {s t : State}

/-- A ticker runs for the open connection only, and the end of the connection stops it. -/
def State.TicksForOpen (s : State) : Prop :=
  ∀ g c, s.connection? g = some c → c.ticker = .running →
    g = s.transport.generation ∧ s.transport.state = .opened ∧ .ticker g ∈ s.transport.tasks

private theorem State.TicksForOpen.of_eq (hs : s.TicksForOpen)
    (generation : t.transport.generation = s.transport.generation)
    (state : t.transport.state = s.transport.state) (tasks : t.transport.tasks = s.transport.tasks)
    (connections : ∀ g c, t.connection? g = some c → c.ticker = .running →
      ∃ d, s.connection? g = some d ∧ d.ticker = .running) : t.TicksForOpen := by
  intro g c hc hr
  obtain ⟨d, hd, hrunning⟩ := connections g c hc hr
  rw [generation, state, tasks]
  exact hs g d hd hrunning

private theorem State.TicksForOpen.aside (hs : s.TicksForOpen) (h : Aside s t) : t.TicksForOpen := by
  obtain ⟨_, ht⟩ := h.transport
  refine hs.of_eq (by rw [ht]) (by rw [ht]) (by rw [ht]) fun g c hc hr => ⟨c, ?_, hr⟩
  rw [State.connection?, ht] at hc
  exact hc

private theorem State.TicksForOpen.modify (hs : s.TicksForOpen) {k : Nat} {f : Connection → Connection}
    (transport : t.transport = (s.modifyConnection k f).transport)
    (hf : ∀ c, (f c).ticker = .running → c.ticker = .running) : t.TicksForOpen := by
  refine hs.of_eq (by rw [transport]; rfl) (by rw [transport]; rfl) (by rw [transport]; rfl)
    fun g c hc hr => ?_
  have hc : (s.modifyConnection k f).connection? g = some c := by
    rw [State.connection?, ← transport]
    exact hc
  rw [connection?_modify] at hc
  split at hc
  · obtain ⟨d, hd, rfl⟩ := Option.map_eq_some_iff.mp hc
    exact ⟨d, hd, hf d hr⟩
  · exact ⟨c, hc, hr⟩

private theorem State.TicksForOpen.idle (hs : s.TicksForOpen) (h : s.transport.state ≠ .opened) {g : Nat}
    {c : Connection} (hc : s.connection? g = some c) : c.ticker ≠ .running :=
  fun hr => h (hs g c hc hr).2.1

private theorem State.TicksForOpen.passage {a b : Juncture} (h : Passage a b) (hs : a.state.TicksForOpen) :
    b.state.TicksForOpen := by
  cases h with
  | aside p h => exact hs.aside h
  | send p frame s =>
    obtain ⟨k, _, _, _, h⟩ | ⟨_, h⟩ := State.send_cases frame s
    · exact hs.modify (k := k) (f := fun c => { c with queue := c.queue ++ [frame] }) (by rw [h])
        fun _ hr => hr
    · exact hs.of_eq (by rw [h]; rfl) (by rw [h]; rfl) (by rw [h]; rfl) fun g c hc hr =>
        ⟨c, by rw [h] at hc; exact hc, hr⟩
  | @closed p reason s hup =>
    intro g c hc hr
    obtain ⟨d, hd, _, ht⟩ := takeDown_served (s := s) hc
    obtain ⟨hrunning, hlisted⟩ := ht hr
    exact absurd (hs g d hd hrunning).2.2 hlisted
  | @begun s hdown => exact fun g c hc hr => absurd hr (hs.idle (by rw [hdown]; decide) hc)
  | @missed g s h =>
    refine fun g c hc hr => absurd hr (hs.idle ?_ hc)
    rw [(isAttempting_iff.mp h).2]
    decide
  | @opened k l s h =>
    have htransport : ((s.establish k l).record (.emitted k .opened)).transport = _ :=
      establish_transport k l s
    obtain ⟨rfl, hstate⟩ := isAttempting_iff.mp h
    intro g c hc hr
    rw [State.connection?, htransport, Keyed.get?_put] at hc
    rw [htransport]
    split at hc
    · rename_i hg
      cases hc
      cases hticks : s.transport.options.keepaliveMs.isSome with
      | false =>
        simp only [hticks] at hr
        cases hr
      | true => exact ⟨hg.symm, rfl, by simp [hg]⟩
    · refine absurd hr (hs.idle ?_ hc)
      rw [hstate]
      decide
  | tended p g f s hf _ => exact hs.modify rfl fun c hr => (hf c).2.2 ▸ hr
  | written g h => exact hs.modify rfl fun _ hr => hr
  | lost g text h => exact hs.modify rfl fun _ hr => hr
  | @writerEnds g s h => exact hs.modify (endWriter_transport g s) fun _ hr => hr
  | @sinkClosed g s h hgone => exact hs.modify (endWriter_transport g s) fun _ hr => hr
  | ticked g due hc h => exact hs.modify rfl fun _ hr => hr
  | tickerEnds g s => exact hs.modify rfl fun c hr => by cases hr

theorem State.TicksForOpen.move (m : Move) (s : State) (hs : s.TicksForOpen) : (m.apply s).TicksForOpen :=
  (m.passages s).keeps (Q := fun j => j.state.TicksForOpen) (fun _ _ h => .passage h) hs

theorem ticksForOpen_new (layer : Layer) (options : Options) (timeout : Nat) :
    (State.new layer options timeout).TicksForOpen := by
  have hnone (g : Nat) : (State.new layer options timeout).connection? g = none := by
    cases layer <;> rfl
  intro g c hc
  rw [hnone] at hc
  cases hc

/-- An entry of the journal with the time at which it was made and the connection that was open. -/
structure Stamp where
  time : Nat
  serving : Option Nat
  entry : Entry

def State.serving (s : State) : Option Nat :=
  if s.transport.state = .opened then some s.transport.generation else none

/-- What is told on the way from one state to another, during which no time passes. -/
def stamps (s t : State) : List Stamp :=
  (t.journal.drop s.journal.length).map fun e => ⟨s.now, s.serving, e⟩

def times (p : Entry → Bool) (log : List Stamp) : List Nat :=
  (log.filter fun e => p e.entry).map Stamp.time

def Entry.isOpening (g : Nat) : Entry → Bool
  | .emitted h .opened => h == g
  | _ => false

def Entry.isEnding (g : Nat) : Entry → Bool
  | .emitted h (.closed _) => h == g
  | _ => false

def Entry.isTick (g : Nat) : Entry → Bool
  | .keptAlive h _ => h == g
  | _ => false

/-- When a connection opened. -/
def openings (g : Nat) (log : List Stamp) : List Nat := times (Entry.isOpening g) log

/-- When a connection, or an attempt at one, ended. -/
def endings (g : Nat) (log : List Stamp) : List Nat := times (Entry.isEnding g) log

/-- When keepalive frames were queued for a connection. -/
def ticks (g : Nat) (log : List Stamp) : List Nat := times (Entry.isTick g) log

@[simp] theorem times_append (p : Entry → Bool) (log more : List Stamp) :
    times p (log ++ more) = times p log ++ times p more := by
  simp [times]

theorem length_times (p : Entry → Bool) (log : List Stamp) :
    (times p log).length = (log.map (·.entry)).countP p := by
  rw [times, List.length_map, ← List.countP_eq_length_filter, List.countP_map]
  rfl

theorem stamps_eq_nil (h : t.journal = s.journal) : stamps s t = [] := by
  rw [stamps, h, List.drop_length]
  rfl

theorem times_stamps (p : Entry → Bool) (s t : State) :
    times p (stamps s t) = List.replicate (times p (stamps s t)).length s.now := by
  refine List.eq_replicate_of_mem fun time h => ?_
  obtain ⟨_, he, rfl⟩ := List.mem_map.mp h
  obtain ⟨_, _, rfl⟩ := List.mem_map.mp (List.mem_filter.mp he).1
  rfl

theorem Grows.stamps {C : Entry → Prop} (h : Grows C s t) {e : Stamp} (he : e ∈ stamps s t) :
    C e.entry ∧ e.time = s.now := by
  obtain ⟨more, hj, hC⟩ := h
  rw [Client.stamps, hj, List.drop_left] at he
  obtain ⟨entry, hentry, rfl⟩ := List.mem_map.mp he
  exact ⟨hC entry hentry, rfl⟩

theorem Grows.entries {C : Entry → Prop} (h : Grows C s t) {log : List Stamp}
    (hlog : log.map (·.entry) = s.journal) : (log ++ Client.stamps s t).map (·.entry) = t.journal := by
  obtain ⟨more, hj, _⟩ := h
  rw [List.map_append, hlog, Client.stamps, hj, List.drop_left, List.map_map]
  exact congrArg (s.journal ++ ·) (List.map_id more)

theorem Grows.times_eq_nil {C : Entry → Prop} (h : Grows C s t) {p : Entry → Bool}
    (hp : ∀ e, C e → p e = false) : times p (Client.stamps s t) = [] := by
  rw [times, List.map_eq_nil_iff, List.filter_eq_nil_iff]
  intro e he
  rw [hp e.entry (h.stamps he).1]
  decide

theorem times_eq_singleton {p : Entry → Bool} {log : List Stamp} (hlog : times p log = [])
    (hone : (times p (log ++ stamps s t)).length = 1) : times p (log ++ stamps s t) = [s.now] := by
  rw [times_append, hlog, List.nil_append] at hone ⊢
  rw [times_stamps, hone]
  rfl

theorem Entry.Between.opening {a b g : Nat} {e : Entry} (h : e.Between a b)
    (hg : b < 3 * g + 1 ∨ 3 * g + 1 ≤ a) : e.isOpening g = false := by
  cases e with
  | emitted k event =>
    cases event with
    | opened =>
      obtain ⟨hlt, hle⟩ := h
      exact beq_false_of_ne (by omega)
    | _ => rfl
  | _ => rfl

theorem Entry.Between.ending {a b g : Nat} {e : Entry} (h : e.Between a b)
    (hg : b < 3 * g + 2 ∨ 3 * g + 2 ≤ a) : e.isEnding g = false := by
  cases e with
  | emitted k event =>
    cases event with
    | closed reason =>
      obtain ⟨hlt, hle⟩ := h
      exact beq_false_of_ne (by omega)
    | _ => rfl
  | _ => rfl

theorem Entry.Between.tick {a b : Nat} {e : Entry} (h : e.Between a b) (g : Nat) : e.isTick g = false := by
  cases e with
  | keptAlive => exact h.elim
  | _ => rfl

theorem countP_entries {p : Entry → Bool} {q : Transport.Event → Bool} {g : Nat}
    (hp : ∀ e, p e = (event? g e).any q) (journal : List Entry) :
    journal.countP p = (events g journal).countP q := by
  rw [events, List.countP_filterMap]
  refine List.countP_congr fun e _ => ?_
  rw [hp]
  cases event? g e <;> rfl

theorem Entry.isOpening_eq (g : Nat) (e : Entry) : e.isOpening g = (event? g e).any Event.isOpening := by
  cases e with
  | emitted h event =>
    by_cases hg : h = g
    · cases event <;> simp [event?, hg, Entry.isOpening, Event.isOpening]
    · cases event <;> simp [event?, hg, Entry.isOpening]
  | _ => rfl

theorem Entry.isEnding_eq (g : Nat) (e : Entry) : e.isEnding g = (event? g e).any Event.isEnding := by
  cases e with
  | emitted h event =>
    by_cases hg : h = g
    · cases event <;> simp [event?, hg, Entry.isEnding, Event.isEnding]
    · cases event <;> simp [event?, hg, Entry.isEnding]
  | _ => rfl

private theorem countP_messages {q : Transport.Event → Bool} (hq : ∀ frame, q (.message frame) = false)
    (read : List String) : (read.map Transport.Event.message).countP q = 0 := by
  rw [List.countP_map, List.countP_eq_zero]
  intro frame _
  simp [hq]

private theorem farewell_counts {f : Fate} (h : f.isOver = true) :
    f.farewell.countP Event.isOpening = 0 ∧ f.farewell.countP Event.isEnding = 1 := by
  cases f with
  | unopened => cases h
  | live => cases h
  | failing text => cases h
  | _ => exact ⟨rfl, rfl⟩

/-- An open connection has opened once and not ended. -/
theorem Told.counts_open (hs : Told none s) {g : Nat} (hstage : s.stage = 3 * g + 1) :
    s.journal.countP (Entry.isOpening g) = 1 ∧ s.journal.countP (Entry.isEnding g) = 0 := by
  have hrank := rank_le s.transport.state
  have hstage : 3 * s.transport.generation + s.transport.state.rank = 3 * g + 1 := hstage
  obtain rfl : s.transport.generation = g := by omega
  obtain ⟨read, hcourse⟩ := hs.present (rank_eq_one.mp (by omega))
  have hevents := congrArg Course.events hcourse
  change events _ _ = _ at hevents
  rw [countP_entries (Entry.isOpening_eq _), countP_entries (Entry.isEnding_eq _), hevents]
  have hopened := countP_messages (q := Event.isOpening) (fun _ => rfl) read
  have hended := countP_messages (q := Event.isEnding) (fun _ => rfl) read
  simp [List.countP_cons, hopened, hended, Fate.ofFailure, Fate.farewell, Event.isOpening, Event.isEnding]

/-- A connection that is no more has opened once and ended once, unless it never opened. -/
theorem Told.counts_past (hs : Told none s) {g : Nat} (hstage : 3 * g + 1 < s.stage) :
    s.journal.countP (Entry.isOpening g) = 0 ∨
      s.journal.countP (Entry.isOpening g) = 1 ∧ s.journal.countP (Entry.isEnding g) = 1 := by
  have hrank := rank_le s.transport.state
  have hstage : 3 * g + 1 < 3 * s.transport.generation + s.transport.state.rank := hstage
  have hdown : g = s.transport.generation → s.transport.state = .disconnected := by
    rintro rfl
    cases hstate : s.transport.state with
    | disconnected => rfl
    | _ => rw [hstate] at hstage; simp only [ConnectionState.rank] at hstage; omega
  rw [countP_entries (Entry.isOpening_eq _), countP_entries (Entry.isEnding_eq _)]
  obtain ⟨_, hnever, _⟩ | ⟨hover, hevents⟩ := hs.past g (by omega) hdown
  · refine .inl (List.countP_eq_zero.mpr fun event hmem hopening => ?_)
    cases event with
    | opened => exact hnever hmem
    | _ => cases hopening
  · right
    change events _ _ = _ at hevents
    rw [hevents]
    have hopened := countP_messages (q := Event.isOpening) (fun _ => rfl) (course g s.journal).frames
    have hended := countP_messages (q := Event.isEnding) (fun _ => rfl) (course g s.journal).frames
    obtain ⟨hnone, hone⟩ := farewell_counts hover
    simp [List.countP_cons, hopened, hended, hnone, hone, Event.isOpening, Event.isEnding]

/-- The open connection opened at a time and its ticker, of that interval, has ticked so often since. The
first turn of the ticker fixes when it ticks for the first time; from then on it waits for the time of its
next tick, or has its turn before it. -/
structure Beating (k start n : Nat) (s : State) : Prop where
  since : start + n * k ≤ s.now
  ahead : s.now ≤ start + (n + 1) * k
  ticker : n = 0 ∧ s.now = start ∧ s.beat = some (.running, none) ∧
      .ticker s.transport.generation ∈ s.ready ∨
    s.beat = some (.running, some (start + (n + 1) * k)) ∧
      ((start + (n + 1) * k, .ticker s.transport.generation) ∈ s.alarms ∨
        s.now = start + (n + 1) * k ∧ .ticker s.transport.generation ∈ s.ready)

variable {k start n g : Nat}

theorem Beating.still (h : Beating k start n s) (now : t.now = s.now)
    (generation : t.transport.generation = s.transport.generation) (beat : t.beat = s.beat)
    (ready : .ticker s.transport.generation ∈ s.ready → .ticker s.transport.generation ∈ t.ready)
    (alarms : ∀ a ∈ s.alarms, a ∈ t.alarms) : Beating k start n t := by
  refine ⟨now ▸ h.since, now ▸ h.ahead, ?_⟩
  rw [now, generation, beat]
  obtain ⟨hn, hnow, hbeat, hready⟩ | ⟨hbeat, halarm | ⟨hnow, hready⟩⟩ := h.ticker
  · exact .inl ⟨hn, hnow, hbeat, ready hready⟩
  · exact .inr ⟨hbeat, .inl (alarms _ halarm)⟩
  · exact .inr ⟨hbeat, .inr ⟨hnow, ready hready⟩⟩

theorem Beating.onward (h : Beating k start n s) (hst : Onward s t) (hstage : t.stage = s.stage)
    (hopen : s.transport.state = .opened) : Beating k start n t :=
  h.still hst.now (stage_eq_iff.mp hstage).1
    (hst.kept hstage ((opened_iff_of_stage_eq hstage).mpr hopen)) (hst.ready _) hst.alarms

theorem Beating.connection (h : Beating k start n s) :
    ∃ c, s.connection? s.transport.generation = some c ∧ c.ticker = .running := by
  have hbeat : ∃ next, s.beat = some (.running, next) := by
    obtain ⟨_, _, hbeat, _⟩ | ⟨hbeat, _⟩ := h.ticker <;> exact ⟨_, hbeat⟩
  obtain ⟨_, hbeat⟩ := hbeat
  obtain ⟨c, hc, hticker⟩ := Option.map_eq_some_iff.mp hbeat
  exact ⟨c, hc, congrArg Prod.fst hticker⟩

theorem Beating.erase (h : Beating k start n s) {w : Work} (hw : w ≠ .ticker s.transport.generation) :
    Beating k start n { s with ready := s.ready.erase w } :=
  h.still rfl rfl rfl (fun hmem => (List.mem_erase_of_ne hw.symm).mpr hmem) fun _ ha => ha

/-- Time passes only when no work is left, and not past the time of an alarm. -/
theorem Beating.wait (h : Beating k start n s) {ms : Nat} (hidle : s.ready = [])
    (halarms : ∀ a ∈ s.alarms, s.now + ms ≤ a.1) : Beating k start n (s.advance ms) := by
  obtain ⟨_, _, _, hready⟩ | ⟨hbeat, halarm | ⟨_, hready⟩⟩ := h.ticker
  · rw [hidle] at hready
    cases hready
  · exact ⟨Nat.le_trans h.since (Nat.le_add_right _ _), halarms _ halarm, .inr ⟨hbeat, .inl halarm⟩⟩
  · rw [hidle] at hready
    cases hready

theorem mem_wakes {v : Work} (ws : List Work) (s : State) (h : v ∈ s.ready ∨ v ∈ ws) :
    v ∈ (ws.foldl (fun s w => s.wake w) s).ready := by
  induction ws generalizing s with
  | nil => exact h.resolve_right List.not_mem_nil
  | cons w ws ih =>
    refine ih _ ?_
    obtain h | h := h
    · exact .inl (wake_ready h)
    · obtain rfl | h := List.mem_cons.mp h
      · exact .inl (mem_ready_wake v s)
      · exact .inr h

theorem ring_cases (s : State) : ∃ ready, s.ring =
      { s with ready, alarms := s.alarms.filter fun a => s.now < a.1 } ∧
    (∀ w ∈ s.ready, w ∈ ready) ∧ ∀ a ∈ s.alarms, a.1 ≤ s.now → a.2 ∈ ready := by
  have hring : s.ring = (s.dueAlarms.map Prod.snd).foldl (fun s w => s.wake w)
      { s with alarms := s.alarms.filter fun a => s.now < a.1 } := by
    rw [State.ring, List.foldl_map]
  have hwoken (w : Work) := mem_wakes (v := w) (s.dueAlarms.map Prod.snd)
    { s with alarms := s.alarms.filter fun a => s.now < a.1 }
  obtain ⟨ready, hwakes⟩ := State.wakes_eq (s.dueAlarms.map Prod.snd)
    { s with alarms := s.alarms.filter fun a => s.now < a.1 }
  rw [hwakes] at hring hwoken
  refine ⟨ready, hring, fun w hw => hwoken w (.inl hw), fun a ha hdue => hwoken a.2 (.inr ?_)⟩
  refine List.mem_map_of_mem (List.mem_mergeSort.mpr (List.mem_filter.mpr ⟨ha, ?_⟩))
  exact decide_eq_true hdue

theorem Beating.ring (h : Beating k start n s) : Beating k start n s.ring := by
  obtain ⟨ready, hring, hready, hrung⟩ := ring_cases s
  rw [hring]
  refine ⟨h.since, h.ahead, ?_⟩
  obtain ⟨hn, hnow, hbeat, hturn⟩ | ⟨hbeat, halarm | ⟨hnow, hturn⟩⟩ := h.ticker
  · exact .inl ⟨hn, hnow, hbeat, hready _ hturn⟩
  · obtain hlt | hdue := Nat.lt_or_ge s.now (start + (n + 1) * k)
    · exact .inr ⟨hbeat, .inl (List.mem_filter.mpr ⟨halarm, decide_eq_true hlt⟩)⟩
    · exact .inr ⟨hbeat, .inr ⟨Nat.le_antisymm h.ahead hdue, hrung _ halarm hdue⟩⟩
  · exact .inr ⟨hbeat, .inr ⟨hnow, hready _ hturn⟩⟩

private theorem endTicker_cases (g : Nat) (s : State) : ∃ ready, (∀ w ∈ s.ready, w ∈ ready) ∧
    s.endTicker g = { s.modifyConnection g fun c => { c with ticker := .ended } with ready } := by
  rw [State.endTicker]
  split
  · exact ⟨s.ready, fun _ hw => hw, rfl⟩
  · obtain ⟨ready, hwoken⟩ := State.wake_eq (.writer g)
      (s.modifyConnection g fun c => { c with ticker := .ended })
    refine ⟨ready, fun w hw => ?_, hwoken⟩
    have hkept : w ∈ ((s.modifyConnection g fun c => { c with ticker := .ended }).wake (.writer g)).ready :=
      wake_ready hw
    rw [hwoken] at hkept
    exact hkept

private theorem runTicker_cases (g : Nat) (s : State) :
    ((s.runTicker g = s ∨ s.runTicker g = s.endTicker g) ∧
      ∀ c k, s.connection? g = some c → s.transport.options.keepaliveMs = some k → 0 < k →
        c.ticker ≠ .running) ∨
    ∃ c k, s.connection? g = some c ∧ c.ticker = .running ∧
      s.transport.options.keepaliveMs = some k ∧ 0 < k ∧ s.runTicker g = s.tick g k c := by
  rw [State.runTicker]
  split
  · rename_i c k hc hk
    have hidle (hticker : c.ticker ≠ .running ∨ k = 0) : ∀ d l, s.connection? g = some d →
        s.transport.options.keepaliveMs = some l → 0 < l → d.ticker ≠ .running := by
      intro d l hd hl hpositive
      rw [hc] at hd
      rw [hk] at hl
      cases hd
      cases hl
      exact hticker.resolve_right (Nat.ne_of_gt hpositive)
    cases hticker : c.ticker with
    | ended => exact .inl ⟨.inl rfl, hidle (.inl (by rw [hticker]; decide))⟩
    | stopping => exact .inl ⟨.inr rfl, hidle (.inl (by rw [hticker]; decide))⟩
    | running =>
      simp only
      split
      · rename_i hzero
        exact .inl ⟨.inr rfl, hidle (.inr hzero)⟩
      · rename_i hpositive
        exact .inr ⟨c, k, hc, hticker, hk, Nat.pos_of_ne_zero hpositive, rfl⟩
  · rename_i hnone
    exact .inl ⟨.inl rfl, fun c k hc hk => absurd hk (hnone c k hc)⟩

private theorem tick_early {c : Connection} {due : Nat} (hnext : c.nextTick = some due)
    (h : s.now < due) : s.tick g k c = s := by
  have hticks : State.ticksDue k due s.now = [] := if_pos h
  rw [State.tick, hnext]
  simp only [hticks]
  rfl

private theorem tick_due {c : Connection} (hnext : c.nextTick = some s.now) :
    let queued := s.modifyConnection g fun c =>
      { c with queue := c.queue ++ [s.transport.options.keepaliveFrame] }
    ∃ ready, s.tick g k c = ((State.record (.keptAlive g s.now) { queued with ready }).modifyConnection g
      fun c => { c with nextTick := some (s.now + k) }).setAlarm (s.now + k) (.ticker g) := by
  intro queued
  obtain ⟨ready, hwoken⟩ := State.wake_eq (.writer g) queued
  have hticks : State.ticksDue k s.now s.now = [s.now] := by
    rw [State.ticksDue, if_neg (Nat.lt_irrefl _), Nat.sub_self, Nat.zero_div]
    simp
  refine ⟨ready, ?_⟩
  rw [← hwoken, State.tick, hnext]
  simp only [hticks, State.queueTicks, List.length_singleton, Nat.one_mul, List.isEmpty_cons,
    Bool.false_eq_true, if_false]
  rfl

private theorem beat_modify {c : Connection} (hc : s.connection? s.transport.generation = some c)
    (hr : c.ticker = .running) {next : Nat} :
    (s.modifyConnection s.transport.generation fun c => { c with nextTick := some next }).beat =
      some (.running, some next) := by
  change ((s.modifyConnection _ _).connection? s.transport.generation).map _ = _
  rw [connection?_modify, if_pos rfl, hc, ← hr]
  rfl

/-- A turn of the ticker of the open connection. In its first turn, and when it has its turn before its
time, it queues nothing; at its time it queues one frame, and is to tick again after one interval. -/
theorem Beating.tick (h : Beating k start n s) {c : Connection}
    (hc : s.connection? s.transport.generation = some c) (hr : c.ticker = .running)
    (ht : t = State.tick s.transport.generation k c
      { s with ready := s.ready.erase (.ticker s.transport.generation) }) :
    (t.transport.options = s.transport.options ∧ t.stage = s.stage) ∧
      (t.journal = s.journal ∧ Beating k start n t ∨
        t.journal = s.journal ++ [.keptAlive s.transport.generation s.now] ∧
          s.now = start + (n + 1) * k ∧ Beating k start (n + 1) t) := by
  have hbeat : s.beat = some (c.ticker, c.nextTick) := by rw [State.beat, hc]; rfl
  obtain ⟨hn, hnow, hfirst, _⟩ | ⟨hlater, hdue⟩ := h.ticker
  · have hnext : c.nextTick = none := congrArg Prod.snd (Option.some.inj (hbeat.symm.trans hfirst))
    have htime : s.now + k = start + (n + 1) * k := by rw [hn, hnow]; omega
    rw [State.tick, hnext] at ht
    simp only [htime] at ht
    rw [ht]
    refine ⟨⟨rfl, rfl⟩, .inl ⟨rfl, h.since, h.ahead, .inr ⟨beat_modify hc hr, .inl ?_⟩⟩⟩
    exact List.mem_append_right _ List.mem_cons_self
  · have hnext : c.nextTick = some (start + (n + 1) * k) :=
      congrArg Prod.snd (Option.some.inj (hbeat.symm.trans hlater))
    obtain hlt | heq := Nat.lt_or_eq_of_le h.ahead
    · have hearly := tick_early (g := s.transport.generation) (k := k) (s :=
        { s with ready := s.ready.erase (.ticker s.transport.generation) }) hnext hlt
      rw [ht, hearly]
      refine ⟨⟨rfl, rfl⟩, .inl ⟨rfl, h.since, h.ahead, .inr ⟨hlater, .inl ?_⟩⟩⟩
      exact hdue.resolve_right fun hready => absurd hready.1 (Nat.ne_of_lt hlt)
    · obtain ⟨ready, hticked⟩ := tick_due (g := s.transport.generation) (k := k) (s :=
        { s with ready := s.ready.erase (.ticker s.transport.generation) }) (heq ▸ hnext)
      have htime : s.now + k = start + (n + 1 + 1) * k := by
        rw [heq, Nat.add_mul (n + 1) 1 k, Nat.one_mul, Nat.add_assoc]
      simp only [htime] at hticked
      rw [ht, hticked]
      refine ⟨⟨rfl, rfl⟩, .inr ⟨rfl, heq, Nat.le_of_eq heq.symm, ?_, .inr ⟨beat_modify (c := {
        c with queue := c.queue ++ [s.transport.options.keepaliveFrame] }) ?_ hr, .inl ?_⟩⟩⟩
      · exact htime ▸ Nat.le_add_right _ _
      · change (State.modifyConnection _ _ _).connection? s.transport.generation = _
        rw [connection?_modify, if_pos rfl]
        exact congrArg (Option.map _) hc
      · exact List.mem_append_right _ List.mem_cons_self

def beats (start k n : Nat) : List Nat := (List.range n).map fun j => start + (j + 1) * k

/-- Between the opening and the end of a connection its ticker has ticked once in each interval. -/
structure Served (k g stop : Nat) (log : List Stamp) (start n : Nat) : Prop where
  opening : openings g log = [start]
  ticks : ticks g log = beats start k n
  since : start + n * k ≤ stop
  ahead : stop ≤ start + (n + 1) * k

/-- What has been told of a connection when the client has come to a state. -/
structure Paced (k g : Nat) (log : List Stamp) (s : State) : Prop where
  ahead : s.stage < 3 * g + 1 → openings g log = [] ∧ endings g log = [] ∧ ticks g log = []
  present : s.stage = 3 * g + 1 → endings g log = [] ∧
    ∃ start n, openings g log = [start] ∧ ticks g log = beats start k n ∧ Beating k start n s
  past : 3 * g + 1 < s.stage → openings g log = [] ∧ ticks g log = [] ∨
    ∃ stop, endings g log = [stop] ∧ ∃ start n, Served k g stop log start n

theorem stage_eq_opened : s.stage = 3 * g + 1 ↔
    s.transport.generation = g ∧ s.transport.state = .opened := by
  have hrank := rank_le s.transport.state
  rw [State.stage, ← rank_eq_one]
  omega

variable {log : List Stamp}

private theorem Paced.still (h : Paced k g log s) (hstage : t.stage = s.stage)
    (hbeating : s.transport.state = .opened → ∀ start n, Beating k start n s → Beating k start n t) :
    Paced k g log t := by
  refine ⟨fun ht => h.ahead (hstage ▸ ht), fun ht => ?_, fun ht => h.past (hstage ▸ ht)⟩
  obtain ⟨hending, start, n, hopening, hticks, hbeats⟩ := h.present (hstage ▸ ht)
  exact ⟨hending, start, n, hopening, hticks,
    hbeating (stage_eq_opened.mp (hstage ▸ ht)).2 start n hbeats⟩

/-- What is told of a connection on the way from one state to another is told now. -/
private structure Continues (g : Nat) (log : List Stamp) (s t : State) (log' : List Stamp) : Prop where
  ticks : ticks g log' = ticks g log
  openings : t.stage < 3 * g + 1 ∨ 3 * g + 1 ≤ s.stage → openings g log' = openings g log
  endings : t.stage < 3 * g + 2 ∨ 3 * g + 2 ≤ s.stage → endings g log' = endings g log
  unopened : t.journal.countP (Entry.isOpening g) = 0 → Client.openings g log' = []
  opens : Client.openings g log = [] → t.journal.countP (Entry.isOpening g) = 1 →
    Client.openings g log' = [s.now]
  ends : Client.endings g log = [] → t.journal.countP (Entry.isEnding g) = 1 →
    Client.endings g log' = [s.now]

private theorem Onward.continues (h : Onward s t) (hlog : log.map (·.entry) = s.journal) (g : Nat) :
    Continues g log s t (log ++ stamps s t) := by
  have hcount (p : Entry → Bool) : (times p (log ++ stamps s t)).length = t.journal.countP p := by
    rw [length_times, h.journal.entries hlog]
  have hsame {p : Entry → Bool} (hp : ∀ e : Entry, e.Between s.stage t.stage → p e = false) :
      times p (log ++ stamps s t) = times p log := by
    rw [times_append, h.journal.times_eq_nil hp, List.append_nil]
  exact ⟨hsame fun e he => he.tick g, fun hg => hsame fun e he => he.opening hg,
    fun hg => hsame fun e he => he.ending hg,
    fun hzero => List.length_eq_zero_iff.mp ((hcount _).trans hzero),
    fun hnone hone => times_eq_singleton hnone ((hcount _).trans hone),
    fun hnone hone => times_eq_singleton hnone ((hcount _).trans hone)⟩

private theorem Continues.served {log' : List Stamp} (h : Continues g log s t log')
    (hstage : 3 * g + 1 ≤ s.stage) {stop : Nat} (hserved : Served k g stop log start n) :
    Served k g stop log' start n :=
  ⟨(h.openings (.inr hstage)).trans hserved.opening, h.ticks.trans hserved.ticks, hserved.since,
    hserved.ahead⟩

private theorem Paced.opens (h : Paced k g log s) (hst : Onward s t) (htold : Told none t)
    {log' : List Stamp} (hlog : Continues g log s t log')
    (hticks : s.transport.options.keepaliveMs.isSome = true) (ht : t.stage = 3 * g + 1) :
    endings g log' = [] ∧
      ∃ start n, openings g log' = [start] ∧ ticks g log' = beats start k n ∧ Beating k start n t := by
  have hmonotone := hst.stage
  rw [hlog.endings (.inl (by omega)), hlog.ticks]
  obtain hlt | heq := Nat.lt_or_eq_of_le hmonotone
  · obtain ⟨hopening, hending, hnone⟩ := h.ahead (by omega)
    obtain ⟨hbeat, hready⟩ := hst.begun hlt (stage_eq_opened.mp ht).2 (hst.options ▸ hticks)
    refine ⟨hending, s.now, 0, hlog.opens hopening (htold.counts_open ht).1, hnone, ?_, ?_,
      .inl ⟨rfl, hst.now, hbeat, hready⟩⟩
    · rw [hst.now, Nat.zero_mul]
      exact Nat.le_refl _
    · rw [hst.now]
      exact Nat.le_add_right _ _
  · obtain ⟨hending, start, n, hopening, hbeats, hbeating⟩ := h.present (heq.trans ht)
    refine ⟨hending, start, n, ?_, hbeats, ?_⟩
    · rw [hlog.openings (.inr (by omega)), hopening]
    · exact hbeating.onward hst heq.symm (stage_eq_opened.mp (heq.trans ht)).2

private theorem Paced.ends (h : Paced k g log s) (hst : Onward s t) (htold : Told none t)
    {log' : List Stamp} (hlog : Continues g log s t log') (ht : 3 * g + 1 < t.stage) :
    openings g log' = [] ∧ ticks g log' = [] ∨
      ∃ stop, endings g log' = [stop] ∧ ∃ start n, Served k g stop log' start n := by
  have hmonotone := hst.stage
  obtain hbefore | hopen | hover := Nat.lt_trichotomy s.stage (3 * g + 1)
  · obtain ⟨hopening, hending, hnone⟩ := h.ahead hbefore
    rw [← hlog.ticks] at hnone
    obtain hnever | ⟨hopened, hended⟩ := htold.counts_past ht
    · exact .inl ⟨hlog.unopened hnever, hnone⟩
    · refine .inr ⟨s.now, hlog.ends hending hended, s.now, 0, hlog.opens hopening hopened, hnone, ?_,
        Nat.le_add_right _ _⟩
      rw [Nat.zero_mul]
      exact Nat.le_refl _
  · obtain ⟨hending, start, n, hopening, hbeats, hbeating⟩ := h.present hopen
    obtain hnever | ⟨_, hended⟩ := htold.counts_past ht
    · have hnone := hlog.unopened hnever
      rw [hlog.openings (.inr (by omega)), hopening] at hnone
      cases hnone
    · exact .inr ⟨s.now, hlog.ends hending hended, start, n,
        hlog.served (by omega) ⟨hopening, hbeats, hbeating.since, hbeating.ahead⟩⟩
  · rw [hlog.openings (.inr (by omega)), hlog.endings (.inr (by omega)), hlog.ticks]
    refine (h.past hover).imp_right fun ⟨stop, hending, start, n, hserved⟩ => ?_
    exact ⟨stop, hending, start, n, hlog.served (by omega) hserved⟩

/-- A connection that opens on the way from one state to another opens now, and one that ends, ends now. -/
private theorem Paced.onward (h : Paced k g log s) (hst : Onward s t) (htold : Told none t)
    (hentries : log.map (·.entry) = s.journal)
    (hticks : s.transport.options.keepaliveMs.isSome = true) :
    Paced k g (log ++ stamps s t) t := by
  have hlog := hst.continues hentries g
  refine ⟨fun ht => ?_, h.opens hst htold hlog hticks, h.ends hst htold hlog⟩
  have hmonotone := hst.stage
  rw [hlog.openings (.inl ht), hlog.endings (.inl (by omega)), hlog.ticks]
  exact h.ahead (by omega)

theorem ticks_keptAlive (g h time due : Nat) (serving : Option Nat) :
    ticks g [⟨time, serving, .keptAlive h due⟩] = if h = g then [time] else [] := by
  by_cases hg : h = g <;> simp [ticks, times, Entry.isTick, hg]

private theorem Paced.ticked (h : Paced k g log s) (hstage : t.stage = s.stage)
    (hopen : s.transport.state = .opened)
    (hstamps : stamps s t = [⟨s.now, s.serving, .keptAlive s.transport.generation s.now⟩])
    (hbeating : ∀ start n, Beating k start n s →
      s.now = start + (n + 1) * k ∧ Beating k start (n + 1) t) :
    Paced k g (log ++ stamps s t) t := by
  have hopenings : openings g (log ++ stamps s t) = openings g log := by
    rw [hstamps, openings, times_append]
    exact List.append_nil _
  have hendings : endings g (log ++ stamps s t) = endings g log := by
    rw [hstamps, endings, times_append]
    exact List.append_nil _
  have hticks : ticks g (log ++ stamps s t) =
      ticks g log ++ if s.transport.generation = g then [s.now] else [] := by
    rw [ticks, times_append, hstamps]
    exact congrArg _ (ticks_keptAlive ..)
  by_cases hg : s.transport.generation = g
  · rw [if_pos hg] at hticks
    have hpresent : s.stage = 3 * g + 1 := stage_eq_opened.mpr ⟨hg, hopen⟩
    refine ⟨fun ht => by omega, fun _ => ?_, fun ht => by omega⟩
    obtain ⟨hending, start, n, hopening, hbeats, hb⟩ := h.present hpresent
    obtain ⟨hnow, hb'⟩ := hbeating start n hb
    refine ⟨hendings.trans hending, start, n + 1, hopenings.trans hopening, ?_, hb'⟩
    rw [hticks, hbeats, hnow, beats, beats, List.range_succ, List.map_append]
    rfl
  · rw [if_neg hg, List.append_nil] at hticks
    refine ⟨fun ht => ?_, fun ht => absurd (stage_eq_opened.mp (hstage ▸ ht)).1 hg, fun ht => ?_⟩
    · rw [hopenings, hendings, hticks]
      exact h.ahead (hstage ▸ ht)
    · rw [hopenings, hendings, hticks]
      refine (h.past (hstage ▸ ht)).imp_right fun ⟨stop, hending, start, n, hserved⟩ => ?_
      exact ⟨stop, hending, start, n, hopenings.trans hserved.opening, hticks.trans hserved.ticks,
        hserved.since, hserved.ahead⟩

/-- Every keepalive frame was queued for the open connection, and when it was due. -/
def TicksInTime (options : Options) (log : List Stamp) : Prop :=
  ∀ e ∈ log, ∀ g due, e.entry = .keptAlive g due →
    (∃ k, options.keepaliveMs = some k ∧ 0 < k) ∧ e.serving = some g ∧ e.time = due

theorem TicksInTime.ticks_eq_nil {o : Options} {log : List Stamp} (h : TicksInTime o log) (g : Nat)
    (hnone : ∀ k, o.keepaliveMs = some k → k = 0) : ticks g log = [] := by
  rw [ticks, times, List.map_eq_nil_iff, List.filter_eq_nil_iff]
  intro e he htick
  cases hentry : e.entry with
  | keptAlive c due =>
    obtain ⟨⟨k, hk, hpositive⟩, _⟩ := h e he c due hentry
    exact absurd (hnone k hk) (Nat.ne_of_gt hpositive)
  | _ =>
    rw [hentry] at htick
    cases htick

/-- All that has been told up to a state. -/
structure Timely (o : Options) (log : List Stamp) (s : State) : Prop where
  told : Told none s
  tickers : s.TicksForOpen
  options : s.transport.options = o
  entries : log.map (·.entry) = s.journal
  inTime : TicksInTime o log
  paced : ∀ k, o.keepaliveMs = some k → 0 < k → ∀ g, Paced k g log s

variable {options : Options}

theorem timely_new (layer : Layer) (options : Options) (timeout : Nat) :
    Timely options [] (State.new layer options timeout) := by
  refine ⟨told_new layer options timeout, ticksForOpen_new layer options timeout, ?_, ?_,
    fun e he => absurd he List.not_mem_nil, fun k _ _ g => ⟨fun _ => ⟨rfl, rfl, rfl⟩, fun hg => ?_,
      fun _ => .inl ⟨rfl, rfl⟩⟩⟩
  · cases layer <;> rfl
  · cases layer <;> rfl
  · have hstage : (State.new layer options timeout).stage = 2 := by cases layer <;> rfl
    omega

theorem Timely.still (h : Timely options log s) (told : Told none t) (tickers : t.TicksForOpen)
    (hoptions : t.transport.options = s.transport.options) (hstage : t.stage = s.stage)
    (hjournal : t.journal = s.journal)
    (hbeating : ∀ k, options.keepaliveMs = some k → 0 < k → s.transport.state = .opened →
      ∀ start n, Beating k start n s → Beating k start n t) :
    Timely options (log ++ stamps s t) t := by
  rw [stamps_eq_nil hjournal, List.append_nil]
  exact ⟨told, tickers, hoptions.trans h.options, h.entries.trans hjournal.symm, h.inTime,
    fun k hk hpositive g => (h.paced k hk hpositive g).still hstage (hbeating k hk hpositive)⟩

theorem Timely.onward (h : Timely options log s) (hst : Onward s t) (told : Told none t)
    (tickers : t.TicksForOpen) : Timely options (log ++ stamps s t) t := by
  refine ⟨told, tickers, hst.options.trans h.options, hst.journal.entries h.entries, fun e he g due hdue => ?_,
    fun k hk hpositive g => (h.paced k hk hpositive g).onward hst told h.entries ?_⟩
  · obtain hlog | hnew := List.mem_append.mp he
    · exact h.inTime e hlog g due hdue
    · have hbetween := (hst.journal.stamps hnew).1
      rw [hdue] at hbetween
      exact hbetween.elim
  · rw [h.options, hk]
    rfl

private theorem Timely.erase (h : Timely options log s) {w : Work} (hw : ∀ g, w ≠ .ticker g) :
    Timely options log { s with ready := s.ready.erase w } :=
  ⟨h.told.of_eq rfl rfl rfl (fun _ c hc => ⟨c, hc, id⟩) fun _ => rfl, h.tickers, h.options, h.entries,
    h.inTime, fun k hk hpositive g => (h.paced k hk hpositive g).still rfl
      fun _ _ _ hbeating => hbeating.erase (hw _)⟩

theorem Timely.beating (h : Timely options log s) {k : Nat} (hk : options.keepaliveMs = some k)
    (hpositive : 0 < k) (hopen : s.transport.state = .opened) :
    ∃ start n, Beating k start n s :=
  let ⟨_, start, n, _, _, hbeating⟩ :=
    (h.paced k hk hpositive s.transport.generation).present (stage_eq_opened.mpr ⟨rfl, hopen⟩)
  ⟨start, n, hbeating⟩

private theorem Timely.idle (h : Timely options log s) {g : Nat} (told : Told none t)
    (tickers : t.TicksForOpen) (hidle : ∀ c k, s.connection? g = some c →
      options.keepaliveMs = some k → 0 < k → c.ticker ≠ .running)
    (ht : t = { s with ready := s.ready.erase (.ticker g) } ∨
      t = State.endTicker g { s with ready := s.ready.erase (.ticker g) }) :
    Timely options (log ++ stamps s t) t := by
  have hother {k start n : Nat} (hk : options.keepaliveMs = some k) (hpositive : 0 < k)
      (hbeating : Beating k start n s) : g ≠ s.transport.generation := by
    rintro rfl
    obtain ⟨c, hc, hr⟩ := hbeating.connection
    exact hidle c k hc hk hpositive hr
  obtain rfl | rfl := ht
  · refine h.still told tickers rfl rfl rfl fun k hk hpositive _ start n hbeating => ?_
    exact hbeating.erase fun he => hother hk hpositive hbeating (Work.ticker.inj he)
  · obtain ⟨ready, hready, hended⟩ := endTicker_cases g { s with ready := s.ready.erase (.ticker g) }
    rw [hended] at told tickers ⊢
    refine h.still told tickers rfl rfl rfl fun k hk hpositive _ start n hbeating => ?_
    have hg := hother hk hpositive hbeating
    have herased := hbeating.erase (w := .ticker g) fun he => hg (Work.ticker.inj he)
    refine herased.still rfl rfl ?_ (hready _) fun _ ha => ha
    change ((State.modifyConnection g _ _).connection? s.transport.generation).map _ = _
    rw [connection?_modify, if_neg hg]
    rfl

/-- A turn of a ticker. Only the ticker of the open connection runs, and it ticks at its time. -/
theorem Timely.runTicker (h : Timely options log s) {g : Nat}
    (ht : t = State.runTicker g { s with ready := s.ready.erase (.ticker g) }) (told : Told none t)
    (tickers : t.TicksForOpen) : Timely options (log ++ stamps s t) t := by
  obtain ⟨hturn, hidle⟩ | ⟨c, k, hc, hr, hk, hpositive, htick⟩ :=
    runTicker_cases g { s with ready := s.ready.erase (.ticker g) }
  · exact h.idle told tickers (h.options ▸ hidle) (ht ▸ hturn)
  · replace hk : options.keepaliveMs = some k := h.options ▸ hk
    obtain ⟨rfl, hopen, _⟩ := h.tickers g c hc hr
    rw [htick] at ht
    obtain ⟨start, n, hbeating⟩ := h.beating hk hpositive hopen
    obtain ⟨⟨hoptions, hstage⟩, ⟨hjournal, _⟩ | ⟨hjournal, _⟩⟩ := hbeating.tick hc hr ht
    · refine h.still told tickers hoptions hstage hjournal fun l hl _ _ first m hb => ?_
      obtain rfl : l = k := Option.some.inj (hl.symm.trans hk)
      refine ((hb.tick hc hr ht).2.resolve_right fun hticked => ?_).2
      simp [hjournal] at hticked
    · have hstamps : stamps s t = [⟨s.now, s.serving, .keptAlive s.transport.generation s.now⟩] := by
        rw [stamps, hjournal, List.drop_left]
        rfl
      have hgrows : Grows (fun _ => True) s t := ⟨_, hjournal, fun _ _ => trivial⟩
      refine ⟨told, tickers, hoptions.trans h.options, hgrows.entries h.entries, ?_, ?_⟩
      · rw [hstamps]
        intro e he g due hdue
        obtain hlog | hnew := List.mem_append.mp he
        · exact h.inTime e hlog g due hdue
        · cases List.mem_singleton.mp hnew
          cases hdue
          exact ⟨⟨k, hk, hpositive⟩, if_pos hopen, rfl⟩
      · intro l hl _ g
        obtain rfl : l = k := Option.some.inj (hl.symm.trans hk)
        refine (h.paced l hl hpositive g).ticked hstage hopen hstamps fun first m hb => ?_
        refine ((hb.tick hc hr ht).2.resolve_left fun hsilent => ?_).2
        simp [hjournal] at hsilent

end Client

namespace Rehearsal
open Client Transport

/-- A thing that happens: ready work has a turn, alarms ring, the user or the peer acts, an operation is
started, something is reported, or time passes. -/
inductive Occurrence where
  | turn (w : Work)
  | ring
  | act (step : Step)
  | start (op : Operation)
  | report (reply : Reply)
  | wait (ms : Nat)

namespace Occurrence

/-- Ready work has its turns in any order, and users and peers act whenever they like. The clock only moves
while there is nothing to do, and no further than to the next alarm: whatever is due happens when it is
due. -/
def Possible (st : Stage) : Occurrence → Prop
  | turn w => w ∈ st.client.ready
  | act (.advance _) => False
  | wait ms => st.client.ready = [] ∧ ∀ a ∈ st.client.alarms, st.client.now + ms ≤ a.1
  | _ => True

instance (st : Stage) (h : Occurrence) : Decidable (h.Possible st) := by
  unfold Possible
  split <;> infer_instance

def outcome (st : Stage) : Occurrence → Stage
  | turn w => { st with client := State.run w { st.client with ready := st.client.ready.erase w } }
  | ring => { st with client := st.client.ring }
  | act step => (st.perform step).2
  | start op => { st with client := (st.client.start op).2 }
  | report reply => (st.report reply).2
  | wait ms => { st with client := st.client.advance ms }

theorem runs (h : Occurrence) (st : Stage) : Runs st.client (h.outcome st).client := by
  cases h with
  | turn w =>
    have hready : Works st.client { st.client with ready := st.client.ready.erase w } :=
      (Works.refl _).around rfl rfl rfl rfl rfl
    exact runs_of_works (works_run w hready)
  | ring =>
    obtain ⟨_, _, hring⟩ := State.ring_eq st.client
    rw [outcome, hring]
    exact runs_of_works ((Works.refl _).around rfl rfl rfl rfl rfl)
  | act step => exact Stage.perform_runs step st
  | start op => exact runs_of_works (works_start op _)
  | report reply => exact Stage.report_runs reply st
  | wait ms => exact Stage.perform_runs (.advance ms) st

end Occurrence

namespace Stage

def lived : Stage → List Occurrence → Stage
  | st, [] => st
  | st, h :: hs => (h.outcome st).lived hs

def Lives : Stage → List Occurrence → Prop
  | _, [] => True
  | st, h :: hs => h.Possible st ∧ (h.outcome st).Lives hs

instance decidableLives : (st : Stage) → (hs : List Occurrence) → Decidable (st.Lives hs)
  | _, [] => inferInstanceAs (Decidable True)
  | st, h :: hs =>
    have := decidableLives (h.outcome st) hs
    inferInstanceAs (Decidable (h.Possible st ∧ (h.outcome st).Lives hs))

/-- All that is told meanwhile. -/
def chronicle : Stage → List Occurrence → List Stamp
  | _, [] => []
  | st, h :: hs => stamps st.client (h.outcome st).client ++ (h.outcome st).chronicle hs

theorem lived_append (st : Stage) (hs more : List Occurrence) :
    st.lived (hs ++ more) = (st.lived hs).lived more := by
  induction hs generalizing st with
  | nil => rfl
  | cons h hs ih => exact ih _

theorem lives_append {st : Stage} {hs more : List Occurrence} (h : st.Lives hs)
    (hmore : (st.lived hs).Lives more) : st.Lives (hs ++ more) := by
  induction hs generalizing st with
  | nil => exact hmore
  | cons _ hs ih => exact ⟨h.1, ih h.2 hmore⟩

/-- Work that has its turns in the order in which it became ready, until none is left, is such a run. -/
theorem settleWork_lived (turns : Nat) (st : Stage) :
    ∃ hs, st.Lives hs ∧ st.lived hs = { st with client := State.settleWork turns st.client } := by
  induction turns generalizing st with
  | zero => exact ⟨[], trivial, rfl⟩
  | succ turns ih =>
    rw [State.settleWork]
    cases hready : st.client.ready with
    | cons w rest =>
      obtain ⟨hs, hlives, hlived⟩ := ih (Occurrence.outcome st (.turn w))
      have hmem : w ∈ st.client.ready := hready ▸ List.mem_cons_self
      refine ⟨.turn w :: hs, ⟨hmem, hlives⟩, hlived.trans ?_⟩
      rw [Occurrence.outcome, hready, List.erase_cons_head]
    | nil =>
      by_cases hdue : st.client.dueAlarms.isEmpty = true
      · exact ⟨[], trivial, by simp only [hdue, if_true]; rfl⟩
      · obtain ⟨hs, hlives, hlived⟩ := ih (Occurrence.outcome st .ring)
        exact ⟨.ring :: hs, ⟨trivial, hlives⟩, hlived.trans (by simp only [hdue]; rfl)⟩

/-- Every step of a rehearsal but one that moves the clock, with all that becomes ready in it, is such a
run. -/
theorem take_lived {step : Step} (hstep : ∀ ms, step ≠ .advance ms) (awaited : Bool) (st : Stage) :
    ∃ hs, st.Lives hs ∧ st.lived hs = (st.take step awaited).2.2 := by
  have hacts : st.Lives [.act step] := by
    refine ⟨?_, trivial⟩
    cases step with
    | advance ms => exact absurd rfl (hstep ms)
    | _ => trivial
  cases awaited with
  | false => exact ⟨[.act step], hacts, rfl⟩
  | true =>
    obtain ⟨hs, hlives, hlived⟩ := settleWork_lived State.turnLimit (st.perform step).2
    refine ⟨.act step :: hs ++ [.report (st.perform step).1], ?_, ?_⟩
    · have hacted : st.Lives (.act step :: hs) := ⟨hacts.1, hlives⟩
      exact lives_append hacted ⟨trivial, trivial⟩
    · rw [lived_append]
      change ((st.perform step).2.lived hs).lived _ = _
      rw [hlived]
      rfl

end Stage

end Rehearsal

namespace Client
open Rehearsal Transport

variable {s t : State} {options : Options} {log : List Stamp}

/-- Whatever happens by the clock, what is told is told in time. -/
theorem Timely.occurrence {st : Rehearsal.Stage} (hs : Timely options log st.client) {h : Occurrence}
    (hp : h.Possible st) :
    Timely options (log ++ stamps st.client (h.outcome st).client) (h.outcome st).client := by
  have told : Told none (h.outcome st).client := by
    obtain ⟨moves, hmoves⟩ := h.runs st
    rw [hmoves]
    exact State.after_keeps Told.move hs.told moves
  have tickers : (h.outcome st).client.TicksForOpen := by
    obtain ⟨moves, hmoves⟩ := h.runs st
    rw [hmoves]
    exact State.after_keeps State.TicksForOpen.move hs.tickers moves
  cases h with
  | turn w =>
    have hturn (hw : ∀ g, w ≠ .ticker g) := (hs.erase hw).onward ((Onward.refl _).run hw) told tickers
    cases w with
    | ticker g => exact hs.runTicker rfl told tickers
    | operation n => exact hturn fun _ he => by cases he
    | writer g => exact hturn fun _ he => by cases he
    | reader g => exact hturn fun _ he => by cases he
    | watchdog id => exact hturn fun _ he => by cases he
  | ring =>
    obtain ⟨ready, alarms, hring⟩ := State.ring_eq st.client
    have htransport : st.client.ring.transport = st.client.transport := by rw [hring]
    have hjournal : st.client.ring.journal = st.client.journal := by rw [hring]
    have hstage : st.client.ring.stage = st.client.stage := by rw [State.stage, htransport, State.stage]
    exact hs.still told tickers (by rw [← htransport]; rfl) hstage hjournal
      fun k _ _ _ start n hbeating => hbeating.ring
  | act step =>
    refine hs.onward (Rehearsal.Stage.perform_onward (fun ms he => ?_) st) told tickers
    subst he
    exact hp
  | start op => exact hs.onward ((Onward.refl _).start op) told tickers
  | report reply => exact hs.onward (Rehearsal.Stage.report_onward reply st) told tickers
  | wait ms =>
    exact hs.still told tickers rfl rfl rfl fun k _ _ _ start n hbeating => hbeating.wait hp.1 hp.2

theorem Timely.lives {st : Rehearsal.Stage} (hs : Timely options log st.client) {hs' : List Occurrence}
    (hp : st.Lives hs') : Timely options (log ++ st.chronicle hs') (st.lived hs').client := by
  induction hs' generalizing st log with
  | nil => rw [Rehearsal.Stage.chronicle, List.append_nil]; exact hs
  | cons h hs' ih =>
    have hrest := ih (hs.occurrence hp.1) hp.2
    rwa [List.append_assoc] at hrest

/-- The keepalive frames of every run of a client by the clock, of every connection of it. Without an
interval there are none. With one, a connection that never opened has none; one that opened at a time and
ended at another, or is still open, has one frame for each interval that passed meanwhile, queued at its
very end, and none besides: if it ends just when one is due, that one may be left out. Each of them is
queued while that connection is the open one, at the time for which its ticker had it due. -/
theorem keepalive_once_an_interval (layer : Layer) (options : Options) (timeout : Nat) {st : Rehearsal.Stage}
    (hnew : st.client = State.new layer options timeout) (occurrences : List Occurrence)
    (hlives : st.Lives occurrences) (g : Nat) :
    let log := st.chronicle occurrences
    let now := (st.lived occurrences).client
    (options.keepaliveMs = none → ticks g log = []) ∧
    (∀ k, options.keepaliveMs = some k → 0 < k →
      (openings g log = [] → ticks g log = []) ∧
      ∀ start ∈ openings g log, ∃ stop n,
        (endings g log = [stop] ∨ endings g log = [] ∧ now.serving = some g ∧ stop = now.now) ∧
        Served k g stop log start n) ∧
    TicksInTime options log := by
  intro log now
  have hs : Timely options log now := by
    have hstart : Timely options [] st.client := hnew ▸ timely_new layer options timeout
    exact hstart.lives hlives
  refine ⟨fun hnone => ?_, fun k hk hpositive => ?_, hs.inTime⟩
  · refine hs.inTime.ticks_eq_nil g fun k hk => ?_
    rw [hnone] at hk
    cases hk
  · have hpaced := hs.paced k hk hpositive g
    obtain hbefore | hopen | hover := Nat.lt_trichotomy now.stage (3 * g + 1)
    · obtain ⟨hopening, _, hticks⟩ := hpaced.ahead hbefore
      exact ⟨fun _ => hticks, fun start hstart => by rw [hopening] at hstart; cases hstart⟩
    · obtain ⟨hending, start, n, hopening, hticks, hbeating⟩ := hpaced.present hopen
      obtain ⟨hg, hstate⟩ := stage_eq_opened.mp hopen
      have hserving : now.serving = some g := hg ▸ if_pos hstate
      refine ⟨fun hnone => absurd (hopening.symm.trans hnone) (List.cons_ne_nil _ _),
        fun time htime => ?_⟩
      rw [hopening] at htime
      obtain rfl := List.mem_singleton.mp htime
      exact ⟨now.now, n, .inr ⟨hending, hserving, rfl⟩, hopening, hticks, hbeating.since, hbeating.ahead⟩
    · obtain ⟨hopening, hticks⟩ | ⟨stop, hending, start, n, hserved⟩ := hpaced.past hover
      · exact ⟨fun _ => hticks, fun start hstart => by rw [hopening] at hstart; cases hstart⟩
      · refine ⟨fun hnone => absurd (hserved.opening.symm.trans hnone) (List.cons_ne_nil _ _),
          fun time htime => ?_⟩
        rw [hserved.opening] at htime
        obtain rfl := List.mem_singleton.mp htime
        exact ⟨stop, n, .inl hending, hserved⟩

/-- A connection that ends between two ticks, and another that is opened after it. -/
def twoConnections : List Occurrence :=
  [.start (.connect .fresh false), .turn (.operation 1), .turn (.ticker 1), .turn (.writer 1),
    .turn (.reader 1), .wait 5, .ring, .turn (.ticker 1), .act (.send "hello"), .turn (.writer 1),
    .wait 5, .ring, .turn (.ticker 1), .turn (.writer 1), .wait 2, .act .disconnect,
    .start (.connect .fresh false), .turn (.operation 2), .turn (.reader 1), .turn (.ticker 1),
    .turn (.writer 1), .turn (.writer 2), .turn (.reader 2), .turn (.ticker 2), .wait 3, .ring,
    .turn (.ticker 1), .wait 2, .ring, .turn (.ticker 2)]

def transportStage (options : Options) : Rehearsal.Stage :=
  ⟨.transport, State.new .transport options 30000, [], 0, false, fun _ => .error (.json "no such file")⟩

/-- With a frame due every five milliseconds the first connection, open from 0 to 12, has two, and the
second, open since 12, has its first five milliseconds after its own opening. -/
theorem keepalive_twoConnections :
    let st := transportStage ⟨some 5, "beat"⟩
    let log := st.chronicle twoConnections
    st.Lives twoConnections ∧ openings 1 log = [0] ∧ endings 1 log = [12] ∧ ticks 1 log = [5, 10] ∧
      openings 2 log = [12] ∧ ticks 2 log = [17] ∧ ∃ stop n, Served 5 2 stop log 12 n := by
  intro st log
  have hlives : st.Lives twoConnections := by decide +kernel
  have hopening : openings 2 log = [12] := by decide +kernel
  have hnew : st.client = State.new .transport ⟨some 5, "beat"⟩ 30000 := rfl
  have hkept := keepalive_once_an_interval .transport ⟨some 5, "beat"⟩ 30000 hnew twoConnections hlives 2
  obtain ⟨stop, n, _, hserved⟩ := (hkept.2.1 5 rfl (by decide)).2 12 (by
    rw [hopening]
    exact List.mem_cons_self)
  refine ⟨hlives, by decide +kernel, by decide +kernel, by decide +kernel, hopening, by decide +kernel,
    stop, n, hserved⟩

end Client
end LanguageClient
