import LanguageClient.Proofs.Anatomy
/-!
What a run does with connections and with the frames queued for them. However much goes on, the
transport is touched in a few ways only: a connection begins or ends, a frame is queued, written or
lost, and the writer or the ticker of a connection ends. All the rest passes it by.
-/
namespace LanguageClient.Client
open Relation Transport Rpc Json Session

/-- Entries that tell neither of the frames of a connection nor of its beginning and its end. -/
def Entry.isAside : Entry → Bool
  | .offered .. | .keptAlive .. | .written .. | .writeFailed .. | .sinkClosed _
  | .emitted _ .opened | .emitted _ (.closed _) => false
  | _ => true

/-- Of the transport at most the subscribers have changed, and nothing is told of it. -/
structure Aside (s t : State) : Prop where
  transport : ∃ hub, t.transport = { s.transport with hub }
  journal : Grows (·.isAside = true) s t

variable {s t u : State}

theorem aside_of_eq (transport : t.transport = s.transport) (journal : t.journal = s.journal) :
    Aside s t := ⟨⟨s.transport.hub, transport⟩, .of_eq journal⟩

theorem Aside.refl (s : State) : Aside s s := aside_of_eq rfl rfl

theorem Aside.trans (h : Aside s t) (k : Aside t u) : Aside s u := by
  refine ⟨?_, h.journal.trans k.journal⟩
  obtain ⟨_, ht⟩ := h.transport
  obtain ⟨hub, hu⟩ := k.transport
  exact ⟨hub, by rw [hu, ht]⟩

theorem aside_record {e : Entry} (h : e.isAside = true) (s : State) : Aside s (s.record e) :=
  ⟨⟨s.transport.hub, rfl⟩, grows_record h s⟩

theorem Aside.record (h : Aside s t) {e : Entry} (he : e.isAside = true) : Aside s (t.record e) :=
  h.trans (aside_record he t)

theorem aside_conclude (n : Int) (outcome : Outcome Value) (s : State) :
    Aside s (s.conclude n outcome) := by
  obtain ⟨_, h⟩ := State.conclude_eq n outcome s
  rw [h]
  exact ⟨⟨s.transport.hub, rfl⟩, ⟨_, rfl, List.forall_mem_singleton.mpr rfl⟩⟩

theorem aside_settle (n : Int) (f : Pending → Outcome Value) (s : State) :
    Aside s (s.settle n f) := by
  cases hp : s.engine.pending.get? n with
  | none =>
    rw [State.settle_absent hp]
    exact .refl s
  | some entry =>
    have hremoved : Aside s (s.remove n entry) := aside_of_eq rfl rfl
    rw [State.settle_present hp]
    exact hremoved.trans (aside_conclude n (f entry) _)

theorem aside_abort (reason : String) (s : State) : Aside s (s.abortPending reason).2 :=
  State.abortPending_keeps (Q := Aside s) (aside_record rfl s) fun n t h =>
    h.trans (aside_settle n _ t)

theorem aside_cancelToken (token : String) (s : State) : Aside s (s.cancelToken token) := by
  obtain ⟨_, _, h⟩ := State.cancelToken_eq token s
  rw [h]
  exact aside_of_eq rfl rfl

theorem aside_listen (topic : Topic) (handler : Handler) (name : String) (s : State) :
    Aside s (s.listen topic handler name) := by
  obtain ⟨hub, _, _, h⟩ := State.listen_eq topic handler name s
  rw [h]
  exact ⟨⟨hub, rfl⟩, .of_eq rfl⟩

theorem aside_unlisten (name : String) (s : State) : Aside s (s.unlisten name).2 := by
  obtain ⟨hub, _, _, h⟩ := State.unlisten_eq name s
  rw [h]
  exact ⟨⟨hub, rfl⟩, .of_eq rfl⟩

theorem aside_resolve (r : Response) (s : State) : Aside s (s.resolve r) := by
  have hr : Aside s (s.record (.answered r)) := aside_record rfl s
  unfold State.resolve
  simp only
  split
  · exact hr.trans (aside_settle _ _ _)
  · exact hr

theorem aside_wake (w : Work) (s : State) : Aside s (s.wake w) := aside_of_eq (by simp) (by simp)

theorem connection?_modify (k g : Nat) (f : Connection → Connection) (s : State) :
    (s.modifyConnection k f).connection? g =
      if k = g then (s.connection? g).map f else s.connection? g := Keyed.get?_modify _ _ _ _

theorem writing?_eq_some {g : Nat} {s : State} {frames : List String} :
    s.writing? g = some frames ↔
      ∃ c, s.connection? g = some c ∧ c.writing = true ∧ c.queue = frames := by
  rw [State.writing?, Option.bind_eq_some_iff]
  refine exists_congr fun c => and_congr_right fun _ => ?_
  cases c.writing <;> simp

theorem endWriter_transport (g : Nat) (s : State) : (s.endWriter g).transport =
    (s.modifyConnection g fun c => { c with writing := false, queue := [] }).transport := by
  rw [State.endWriter]
  split
  · rename_i hc
    have hnone : ∀ e ∈ s.transport.connections, e.1 ≠ g := by
      intro e he hg
      rw [State.connection?, Keyed.get?, Option.map_eq_none_iff] at hc
      exact List.find?_eq_none.mp hc e he (decide_eq_true hg)
    have hsame : s.transport.connections.modify g
        (fun c => { c with writing := false, queue := [] }) = s.transport.connections :=
      (List.map_congr_left fun e he => if_neg (hnone e he)).trans (List.map_id _)
    rw [State.modifyConnection, hsame]
  · rfl

@[simp] theorem endWriter_journal (g : Nat) (s : State) : (s.endWriter g).journal = s.journal := by
  rw [State.endWriter]
  split <;> rfl

theorem establish_transport (g l : Nat) (s : State) :
    let ticks := s.transport.options.keepaliveMs.isSome
    (s.establish g l).transport = { s.transport with
      state := .opened
      outbound := some g
      tasks := .reader g :: (if ticks then [.ticker g] else [])
      connections := s.transport.connections.put g
        ⟨l, [], true, .running, if ticks then .running else .ended, none⟩ } := by
  rw [State.establish]
  simp only
  split <;> simp only [State.wake_transport] <;> rfl

/-- The work that serves a connection may be told to stop, and its frames are left alone. -/
structure Slows (f : Connection → Connection) : Prop where
  queue : ∀ c, (f c).queue = c.queue
  writing : ∀ c, (f c).writing = c.writing
  ticker : ∀ c, c.ticker = .ended → (f c).ticker = .ended

theorem slows_id : Slows id := ⟨fun _ => rfl, fun _ => rfl, fun _ h => h⟩

theorem Slows.comp {f k : Connection → Connection} (hk : Slows k) (hf : Slows f) : Slows (k ∘ f) :=
  ⟨fun c => (hk.queue _).trans (hf.queue c), fun c => (hk.writing _).trans (hf.writing c),
    fun c hc => hk.ticker _ (hf.ticker c hc)⟩

/-- A connection of which a piece of work has been told to stop. -/
def Connection.halt (g : Nat) (c : Connection) : Work → Connection
  | .reader k => if k = g ∧ c.reader = .running then { c with reader := .stopping } else c
  | .ticker k => if k = g ∧ c.ticker = .running then { c with ticker := .stopping } else c
  | .operation _ | .writer _ | .watchdog _ => c

theorem slows_halt (g : Nat) (w : Work) : Slows fun c => c.halt g w := by
  cases w with
  | reader k =>
    refine ⟨fun c => ?_, fun c => ?_, fun c hc => ?_⟩ <;> rw [Connection.halt] <;> split <;>
      first | rfl | exact hc
  | ticker k =>
    refine ⟨fun c => ?_, fun c => ?_, fun c hc => ?_⟩ <;> rw [Connection.halt]
    · split <;> rfl
    · split <;> rfl
    · rw [if_neg (by rw [hc]; simp), hc]
  | operation _ | writer _ | watchdog _ => exact slows_id

/-- A piece of work that is told to stop does not run on. -/
private theorem halt_running {g : Nat} {c : Connection} {w : Work} :
    ((c.halt g w).reader = .running → c.reader = .running ∧ w ≠ .reader g) ∧
      ((c.halt g w).ticker = .running → c.ticker = .running ∧ w ≠ .ticker g) := by
  cases w <;> simp only [Connection.halt] <;> grind

private theorem stop_connection (w : Work) (g : Nat) (s : State) :
    (s.stop w).connection? g = (s.connection? g).map fun c => c.halt g w := by
  have hmodify (k : Nat) {f : Connection → Connection} {halted : Connection → Connection}
      (hf : ∀ c, (if k = g then f c else c) = halted c)
      (hstop : (s.stop w).connection? g = (s.modifyConnection k f).connection? g) :
      (s.stop w).connection? g = (s.connection? g).map halted := by
    rw [hstop, connection?_modify]
    cases s.connection? g with
    | none => simp
    | some c =>
      rw [Option.map_some, Option.map_some, ← hf]
      split <;> rfl
  cases w with
  | reader k =>
    refine hmodify k (fun c => ?_) (by rw [State.stop, State.connection?, State.wake_transport]; rfl)
    by_cases hk : k = g <;> simp [Connection.halt, hk]
  | ticker k =>
    refine hmodify k (fun c => ?_) (by rw [State.stop, State.connection?, State.wake_transport]; rfl)
    by_cases hk : k = g <;> simp [Connection.halt, hk]
  | operation _ | writer _ | watchdog _ => exact Option.map_id.symm ▸ rfl

private theorem stops_connection (tasks : List Work) (g : Nat) (s : State) :
    (tasks.foldl (fun s w => s.stop w) s).connection? g =
      (s.connection? g).map fun c => tasks.foldl (Connection.halt g) c := by
  induction tasks generalizing s with
  | nil => exact Option.map_id.symm ▸ rfl
  | cons w tasks ih =>
    rw [List.foldl_cons, ih, stop_connection, Option.map_map]
    rfl

private theorem takeDown_halted (g : Nat) (s : State) : s.takeDown.connection? g =
    (s.connection? g).map fun c => s.transport.tasks.foldl (Connection.halt g) c := by
  unfold State.takeDown
  simp only
  split
  · rename_i k _
    obtain ⟨_, hr⟩ := State.releaseSender_eq k (s.modifyTransport fun t => { t with
      state := .disconnected, outbound := none, tasks := [] })
    rw [hr]
    exact stops_connection s.transport.tasks g _
  · exact stops_connection s.transport.tasks g _

private theorem slows_halts (g : Nat) (tasks : List Work) :
    Slows fun c => tasks.foldl (Connection.halt g) c := by
  induction tasks with
  | nil => exact slows_id
  | cons w tasks ih => exact ih.comp (slows_halt g w)

theorem takeDown_connection (g : Nat) (s : State) :
    ∃ f, Slows f ∧ s.takeDown.connection? g = (s.connection? g).map f :=
  ⟨_, slows_halts g s.transport.tasks, takeDown_halted g s⟩

private theorem halts_running {g : Nat} {c : Connection} {tasks : List Work} :
    ((tasks.foldl (Connection.halt g) c).reader = .running →
        c.reader = .running ∧ Work.reader g ∉ tasks) ∧
      ((tasks.foldl (Connection.halt g) c).ticker = .running →
        c.ticker = .running ∧ Work.ticker g ∉ tasks) := by
  induction tasks generalizing c with
  | nil => exact ⟨fun h => ⟨h, List.not_mem_nil⟩, fun h => ⟨h, List.not_mem_nil⟩⟩
  | cons w tasks ih =>
    obtain ⟨hreader, hticker⟩ := ih (c := c.halt g w)
    refine ⟨fun h => ?_, fun h => ?_⟩
    · obtain ⟨hrunning, hw⟩ := halt_running.1 (hreader h).1
      exact ⟨hrunning, List.not_mem_cons_of_ne_of_not_mem hw.symm (hreader h).2⟩
    · obtain ⟨hrunning, hw⟩ := halt_running.2 (hticker h).1
      exact ⟨hrunning, List.not_mem_cons_of_ne_of_not_mem hw.symm (hticker h).2⟩

/-- Taking a connection down stops the readers and the tickers that it lists. -/
theorem takeDown_served {s : State} {g : Nat} {c : Connection}
    (hc : s.takeDown.connection? g = some c) : ∃ d, s.connection? g = some d ∧
      (c.reader = .running → d.reader = .running ∧ Work.reader g ∉ s.transport.tasks) ∧
      (c.ticker = .running → d.ticker = .running ∧ Work.ticker g ∉ s.transport.tasks) := by
  rw [takeDown_halted, Option.map_eq_some_iff] at hc
  obtain ⟨d, hd, rfl⟩ := hc
  exact ⟨d, hd, halts_running⟩

/-- A client, and the connection of which the writer has lost a frame and not let go yet. -/
structure Juncture where
  losing : Option Nat
  state : State

/-- One thing that happens to the transport. -/
inductive Passage : Juncture → Juncture → Prop where
  | aside (p : Option Nat) {s t : State} (h : Aside s t) : Passage ⟨p, s⟩ ⟨p, t⟩
  | send (p : Option Nat) (frame : String) (s : State) : Passage ⟨p, s⟩ ⟨p, (s.send frame).2⟩
  | closed (p : Option Nat) (reason : CloseReason) {s : State}
    (h : s.transport.state ≠ .disconnected) :
    Passage ⟨p, s⟩ ⟨p, s.takeDown.record (.emitted s.transport.generation (.closed reason))⟩
  | begun {s : State} (h : s.transport.state = .disconnected) :
    Passage ⟨none, s⟩ ⟨none, s.modifyTransport fun t => { t with
      state := .connecting, generation := s.transport.generation + 1 }⟩
  | missed (g : Nat) {s : State} (h : s.isAttempting g = true) :
    Passage ⟨none, s⟩ ⟨none, s.modifyTransport fun t => { t with state := .disconnected }⟩
  | opened (g l : Nat) {s : State} (h : s.isAttempting g = true) :
    Passage ⟨none, s⟩ ⟨none, (s.establish g l).record (.emitted g .opened)⟩
  /-- The reader ends, which no longer serves the present connection, or the ticker fixes its next
  tick. -/
  | tended (p : Option Nat) (g : Nat) (f : Connection → Connection) (s : State)
    (h : ∀ c, (f c).queue = c.queue ∧ (f c).writing = c.writing ∧ (f c).ticker = c.ticker)
    (hr : s.isCurrent g = true → s.reading g = true → ∀ c, (f c).reader = c.reader) :
    Passage ⟨p, s⟩ ⟨p, s.modifyConnection g f⟩
  | written (g : Nat) {frame : String} {rest : List String} {s : State}
    (h : s.writing? g = some (frame :: rest)) :
    Passage ⟨none, s⟩ ⟨none, (s.unqueue g).record (.written g frame)⟩
  | lost (g : Nat) (text : String) {frame : String} {rest : List String} {s : State}
    (h : s.writing? g = some (frame :: rest)) :
    Passage ⟨none, s⟩ ⟨some g, (s.unqueue g).record (.writeFailed g text)⟩
  | writerEnds (g : Nat) {s : State} (h : s.isCurrent g = false) :
    Passage ⟨some g, s⟩ ⟨none, s.endWriter g⟩
  | sinkClosed (g : Nat) {s : State} (h : s.writing? g = some []) (hs : s.sendersGone g = true) :
    Passage ⟨none, s⟩ ⟨none, s.finishWriting g⟩
  | ticked (g due : Nat) {c : Connection} {s : State} (hc : s.connection? g = some c)
    (h : c.ticker = .running) :
    Passage ⟨none, s⟩ ⟨none, (s.modifyConnection g fun c =>
      { c with queue := c.queue ++ [s.transport.options.keepaliveFrame] }).record
        (.keptAlive g due)⟩
  | tickerEnds (g : Nat) (s : State) :
    Passage ⟨none, s⟩ ⟨none, s.modifyConnection g fun c => { c with ticker := .ended }⟩

abbrev Passages : Juncture → Juncture → Prop := ReflTransGen Passage

theorem Passages.keeps {Q : Juncture → Prop} (hQ : ∀ a b, Passage a b → Q a → Q b) {a b : Juncture}
    (h : Passages a b) (ha : Q a) : Q b := by
  induction h with
  | refl => exact ha
  | tail _ h ih => exact hQ _ _ h ih

/-- The same connections are there, and none has told of its opening. -/
def SameConnections (s t : State) : Prop :=
  (∀ g, (t.connection? g).isSome = (s.connection? g).isSome) ∧
    Grows (fun e => ∀ g, e ≠ .emitted g .opened) s t

private theorem sameConnections_modify {k : Nat} {f : Connection → Connection}
    (transport : t.transport = (s.modifyConnection k f).transport)
    (journal : Grows (fun e => ∀ g, e ≠ .emitted g .opened) s t) : SameConnections s t := by
  refine ⟨fun g => ?_, journal⟩
  have hconnection : t.connection? g = (s.modifyConnection k f).connection? g := by
    rw [State.connection?, transport]
    rfl
  rw [hconnection, connection?_modify]
  split
  · exact Option.isSome_map
  · rfl

private theorem sameConnections_send (frame : String) (s : State) :
    SameConnections s (s.send frame).2 := by
  obtain ⟨k, _, _, _, h⟩ | ⟨_, h⟩ := State.send_cases frame s <;> rw [h]
  · exact sameConnections_modify (k := k) (f := fun c => { c with queue := c.queue ++ [frame] }) rfl
      ⟨_, rfl, List.forall_mem_singleton.mpr nofun⟩
  · exact ⟨fun _ => rfl, grows_record nofun s⟩

/-- A connection and what it tells of its opening come together, and nothing else makes either. -/
theorem Passage.openings {a b : Juncture} (h : Passage a b) :
    (∃ g l, b.state = (a.state.establish g l).record (.emitted g .opened)) ∨
      SameConnections a.state b.state := by
  cases h with
  | aside p h =>
    obtain ⟨_, ht⟩ := h.transport
    refine .inr ⟨fun g => by rw [State.connection?, ht]; rfl, h.journal.mono fun e he g => ?_⟩
    rintro rfl
    cases he
  | send p frame s => exact .inr (sameConnections_send frame s)
  | @closed p reason s hup =>
    obtain ⟨_, _, ht⟩ := State.takeDown_eq s
    have hjournal : s.takeDown.journal = s.journal := by rw [ht]
    refine .inr ⟨fun g => ?_, (Grows.of_eq hjournal).trans (grows_record (by rintro _ ⟨⟩) _)⟩
    obtain ⟨_, _, hg⟩ := takeDown_connection g s
    exact (congrArg Option.isSome hg).trans Option.isSome_map
  | begun h => exact .inr ⟨fun _ => rfl, .of_eq rfl⟩
  | missed g h => exact .inr ⟨fun _ => rfl, .of_eq rfl⟩
  | opened g l h => exact .inl ⟨g, l, rfl⟩
  | tended p g f s hf hr => exact .inr (sameConnections_modify rfl (.of_eq rfl))
  | written g h => exact .inr (sameConnections_modify rfl (grows_record (by rintro _ ⟨⟩) _))
  | lost g text h => exact .inr (sameConnections_modify rfl (grows_record (by rintro _ ⟨⟩) _))
  | @writerEnds g s h => exact .inr (sameConnections_modify (endWriter_transport g s) (.of_eq (by simp)))
  | @sinkClosed g s h hgone =>
    exact .inr (sameConnections_modify (endWriter_transport g s)
      ((Grows.of_eq (endWriter_journal g s)).trans (grows_record (by rintro _ ⟨⟩) _)))
  | ticked g due hc h => exact .inr (sameConnections_modify rfl (grows_record (by rintro _ ⟨⟩) _))
  | tickerEnds g s => exact .inr (sameConnections_modify rfl (.of_eq rfl))

variable {p : Option Nat} {a : Juncture} {P : String → Prop} {R : Response → Prop}

theorem Aside.passages (h : Aside s t) : Passages ⟨p, s⟩ ⟨p, t⟩ := .single (.aside p h)

theorem Passages.aside (h : Passages a ⟨p, s⟩) (k : Aside s t) : Passages a ⟨p, t⟩ :=
  h.tail (.aside p k)

/-- A handler sends frames and may close the connection; nothing else that it does concerns the
transport. -/
theorem react_passages (h : React P s t) : Passages ⟨p, s⟩ ⟨p, t⟩ := by
  cases h with
  | remark e s he =>
    have haside : e.isAside = true := by cases e <;> first | rfl | cases he
    exact (aside_record haside s).passages
  | listen topic handler name s _ => exact (aside_listen topic handler name s).passages
  | unlisten name s => exact (aside_unlisten name s).passages
  | send frame s _ => exact .single (.send p frame s)
  | cancelToken token s => exact (aside_cancelToken token s).passages
  | abortPending reason s => exact (aside_abort reason s).passages
  | hangUp s =>
    have hasked : Aside s (s.record .hungUp) := aside_record rfl s
    by_cases h : s.transport.state = .disconnected
    · rw [State.hangUp_of_down h]
      exact hasked.passages
    · rw [State.hangUp_of_up h]
      exact hasked.passages.tail (.closed p .byClient (s := s.record .hungUp) h)

theorem hears_passages (h : Hears P R s t) : Passages ⟨p, s⟩ ⟨p, t⟩ := by
  induction h with
  | refl => exact .refl
  | tail _ h ih =>
    cases h with
    | react h => exact ih.trans (react_passages h)
    | resolve r _ _ => exact ih.aside (aside_resolve r _)

private theorem emit_passages {close : State → State} (hc : Closes (fun _ => True) close) (g : Nat)
    (event : Transport.Event) (s : State) :
    Passages ⟨p, s.record (.emitted g event)⟩ ⟨p, State.emitWith close g event s⟩ :=
  hears_passages (emitWith_hears hc g event (heeds_anything s))

private theorem shut_passages (g : Option Nat) (reason : CloseReason) (s : State) :
    Passages ⟨p, s⟩ ⟨p, s.shut g reason⟩ := by
  rw [State.shut]
  split
  · exact .refl
  · rename_i h
    have hup : s.transport.state ≠ .disconnected := by
      intro hdown
      rw [hdown] at h
      simp at h
    exact .head (.closed p reason hup) (emit_passages closes_id _ _ _)

private theorem failConnection_passages (g : Nat) (text : String) (s : State) :
    Passages ⟨p, s⟩ ⟨p, s.failConnection g text⟩ := by
  rw [State.failConnection]
  split
  · have hwarned : Aside s ((s.warn "transport failure").record (.emitted g (.failed text))) :=
      (aside_record rfl s).record rfl
    exact (hwarned.passages.trans (emit_passages closes_disconnect g _ _)).trans (shut_passages _ _ _)
  · exact .refl

private theorem hears_down (h : Hears P R s t) (hs : s.transport.state = .disconnected) :
    t.transport.state = .disconnected := by
  refine h.keeps_of_steps (Q := fun t => t.transport.state = .disconnected)
    (fun t u step ht => step.minor.state.trans ht) (fun t ht => ?_) hs
  rw [State.hangUp_of_down ht]
  exact ht

private theorem shut_not_current (g : Nat) (reason : CloseReason) (s : State) :
    (s.shut (some g) reason).isCurrent g = false := by
  by_cases h : s.transport.generation ≠ g ∨ s.transport.state = .disconnected
  · rw [State.shut_of_stale h, State.isCurrent]
    rcases h with h | h
    · simp [Ne.symm h]
    · simp [h]
  · obtain ⟨hg, hup⟩ := not_or.mp h
    rw [State.shut_of_current (Decidable.not_not.mp hg) hup, State.isCurrent]
    have htaken : (s.takeDown.record (.emitted g (.closed reason))).transport.state =
        .disconnected := by
      obtain ⟨_, _, ht⟩ := State.takeDown_eq s
      rw [ht]
      rfl
    have hdown := hears_down (emitWith_hears (P := fun _ => True) closes_id g (.closed reason)
      (heeds_anything s.takeDown)) htaken
    simp [hdown]

private theorem failConnection_not_current (g : Nat) (text : String) (s : State) :
    (s.failConnection g text).isCurrent g = false := by
  rw [State.failConnection]
  split
  · exact shut_not_current g _ _
  · rename_i h
    simpa using h

private theorem endReader_passages {g : Nat} {s : State}
    (h : s.isCurrent g = true → s.reading g = false) : Passages ⟨p, s⟩ ⟨p, s.endReader g⟩ := by
  rw [State.endReader]
  split
  · exact .refl
  · have hends : Passages ⟨p, s⟩ ⟨p, s.modifyConnection g fun c => { c with reader := .ended }⟩ :=
      .single (.tended p g _ s (fun _ => ⟨rfl, rfl, rfl⟩) fun hc hr =>
        absurd hr (Bool.eq_false_iff.mp (h hc)))
    exact hends.aside (aside_of_eq rfl rfl)

private theorem readItem_passages (g : Nat) (item : Outcome String) (s : State) :
    Passages ⟨p, s⟩ ⟨p, s.readItem g item⟩ := by
  have hread : Aside s (s.record (.received g item)) := aside_record rfl s
  unfold State.readItem
  split
  · cases item with
    | ok frame => exact (hread.record rfl).passages.trans (emit_passages closes_disconnect g _ _)
    | error e =>
      refine (hread.passages.trans (failConnection_passages g _ _)).trans (endReader_passages ?_)
      exact fun h => absurd h (Bool.eq_false_iff.mp (failConnection_not_current g _ _))
  · exact .refl

private theorem finishReading_passages (g : Nat) (s : State) :
    Passages ⟨p, s⟩ ⟨p, s.finishReading g⟩ := by
  have hend : Aside s (s.record (.streamEnded g)) := aside_record rfl s
  refine (hend.passages.trans (shut_passages _ _ _)).trans (endReader_passages ?_)
  exact fun h => absurd h (Bool.eq_false_iff.mp (shut_not_current g _ _))

private theorem writeItem_passages (g : Nat) (s : State) :
    Passages ⟨none, s⟩ ⟨none, s.writeItem g⟩ := by
  rw [State.writeItem]
  split
  · rename_i h
    exact .single (.written g h)
  · exact .refl

/-- A frame is lost, the failure is told, and then the writer lets go. -/
private theorem failWrite_passages (g : Nat) (text : String) (s : State) :
    Passages ⟨none, s⟩ ⟨none, s.failWrite g text⟩ := by
  rw [State.failWrite]
  split
  · rename_i h
    have hfailed : Passages ⟨none, s⟩
        ⟨some g, ((s.unqueue g).record (.writeFailed g text)).failConnection g text⟩ :=
      .head (.lost g text h) (failConnection_passages g text _)
    exact hfailed.tail (.writerEnds g (failConnection_not_current g text _))
  · exact .refl

private theorem endTicker_passages (g : Nat) (s : State) :
    Passages ⟨none, s⟩ ⟨none, s.endTicker g⟩ := by
  have hends : Passages ⟨none, s⟩ ⟨none, s.modifyConnection g fun c => { c with ticker := .ended }⟩ :=
    .single (.tickerEnds g s)
  unfold State.endTicker
  simp only
  split
  · exact hends
  · exact hends.aside (aside_wake _ _)

private theorem queueTicks_passages (g : Nat) (ticks : List Nat) {c : Connection} {s : State}
    (hc : s.connection? g = some c) (h : c.ticker = .running) :
    Passages ⟨none, s⟩ ⟨none, State.queueTicks g ticks s⟩ := by
  induction ticks generalizing s c with
  | nil => exact .refl
  | cons due ticks ih =>
    have hticked : Aside ((s.modifyConnection g fun c =>
          { c with queue := c.queue ++ [s.transport.options.keepaliveFrame] }).record
            (.keptAlive g due))
        (((s.modifyConnection g fun c =>
          { c with queue := c.queue ++ [s.transport.options.keepaliveFrame] }).wake
            (.writer g)).record (.keptAlive g due)) :=
      aside_of_eq (by simp [State.record]) (by simp [State.record])
    refine .head (.ticked g due hc h) (.head (.aside none hticked) ?_)
    refine ih (c := { c with queue := c.queue ++ [s.transport.options.keepaliveFrame] }) ?_ h
    simp only [State.connection?, State.record, State.wake_transport, State.modifyConnection,
      Keyed.get?_modify, if_true]
    exact congrArg (Option.map _) hc

private theorem tick_passages (g every : Nat) {c : Connection} {s : State}
    (hc : s.connection? g = some c) (h : c.ticker = .running) :
    Passages ⟨none, s⟩ ⟨none, State.tick g every c s⟩ := by
  have hnext (t : State) (due : Nat) : Passages ⟨none, t⟩ ⟨none, t.modifyConnection g fun c =>
      { c with nextTick := some due }⟩ := .single (.tended none g _ t (fun _ => ⟨rfl, rfl, rfl⟩) fun _ _ _ => rfl)
  rw [State.tick]
  split
  · exact (hnext s _).aside (aside_of_eq rfl rfl)
  · rename_i due _
    have hqueued := queueTicks_passages g (State.ticksDue every due s.now) hc h
    simp only
    split
    · exact hqueued
    · exact Passages.aside (hqueued.trans (hnext _ _)) (aside_of_eq rfl rfl)

private theorem runTicker_passages (g : Nat) (s : State) :
    Passages ⟨none, s⟩ ⟨none, s.runTicker g⟩ := by
  rw [State.runTicker]
  split
  · rename_i c every hc _
    split
    · exact .refl
    · exact endTicker_passages g s
    · rename_i hrunning
      split
      · exact endTicker_passages g s
      · exact tick_passages g every hc hrunning
  · exact .refl

private theorem cancel_passages (id : Int) (s : State) : Passages ⟨p, s⟩ ⟨p, s.cancel id⟩ := by
  have hseen : Passages ⟨p, s⟩ ⟨p, s.record (.revoked id)⟩ := (aside_record rfl s).passages
  unfold State.cancel
  simp only
  split
  · exact hseen
  · rename_i entry _
    have hremoved : Aside (s.record (.revoked id)) ((s.record (.revoked id)).remove id entry) :=
      aside_of_eq rfl rfl
    have htold : Passages ⟨p, s⟩ ⟨p, (((s.record (.revoked id)).remove id entry).notify
        State.cancelMethod (some (State.cancelParams id))).2⟩ := (hseen.aside hremoved).tail (.send p _ _)
    exact htold.aside (aside_conclude id _ _)

private theorem aside_expire (id : Int) (timeout : Nat) (s : State) :
    Aside s (s.expire id timeout) := (aside_record rfl s).trans (aside_settle id _ _)

private theorem watch_passages (id : Int) (s : State) : Passages ⟨p, s⟩ ⟨p, s.watch id⟩ := by
  have hend : Aside s (s.endWatchdog id) := aside_of_eq rfl rfl
  rw [State.watch]
  split
  · exact .refl
  · simp only
    split
    · exact hend.passages.trans (cancel_passages id _)
    · split
      · exact (hend.trans (aside_expire id _ _)).passages
      · split
        · exact .refl
        · exact Aside.passages (aside_of_eq rfl rfl)

private theorem aside_lapse (id : Int) (s : State) : Aside s (s.lapse id) := by
  have hend : Aside s (s.endWatchdog id) := aside_of_eq rfl rfl
  rw [State.lapse]
  split
  · exact .refl s
  · split
    · exact hend.trans (aside_expire id _ _)
    · exact .refl s

private theorem aside_abandon (id : Int) (s : State) : Aside s (s.abandon id) := by
  have htold : Aside s ((s.record (.abandoned id)).modifyEngine fun e =>
      { e with outcomes := e.outcomes.erase id }) :=
    (aside_record (e := .abandoned id) rfl s).trans (aside_of_eq rfl rfl)
  unfold State.abandon
  simp only
  split
  · exact htold
  · exact htold.trans (aside_of_eq rfl rfl)

private theorem aside_collect (id : Int) (s : State) : Aside s ((s.collect id).elim s Prod.snd) := by
  unfold State.collect
  cases s.engine.outcomes.get? id with
  | none => exact .refl s
  | some outcome => exact aside_of_eq rfl rfl

private theorem aside_dropEngine (s : State) : Aside s s.dropEngine := by
  unfold State.dropEngine
  simp only
  refine Aside.trans ?_ (aside_abort _ _)
  split
  · exact ⟨⟨_, rfl⟩, .of_eq rfl⟩
  · exact aside_of_eq rfl rfl

private theorem request_passages (method : String) (params : Value) (options : CallOptions)
    (s : State) : Passages ⟨p, s⟩ ⟨p, (s.request method params options).2⟩ := by
  have hentered : Aside s (s.enter method options).2 :=
    ⟨⟨_, rfl⟩, ⟨_, rfl, List.forall_mem_singleton.mpr rfl⟩⟩
  rw [State.request]
  generalize s.enter method options = entered at hentered
  obtain ⟨id, t⟩ := entered
  simp only
  split
  · exact ((hentered.record (e := .withdrawn id) rfl).trans (aside_settle id _ _)).passages
  · obtain ⟨u, hu, h⟩ := State.handOver_cases id method params t
    have hsent : Passages ⟨p, s⟩ ⟨p, u⟩ := by
      rw [hu]
      exact hentered.passages.tail (.send p _ t)
    obtain h | ⟨e, h⟩ := h
    · have hguarded : Aside u (u.guard id options) :=
        aside_of_eq (by simp [State.guard, State.modifyEngine]) (by simp [State.guard, State.modifyEngine])
      rw [h]
      exact hsent.aside (hguarded.trans (aside_of_eq rfl rfl))
    · have hrefused : Aside u (u.record (.unsent id e)) := aside_record rfl u
      rw [h]
      exact hsent.aside (hrefused.trans (aside_settle id _ _))

private theorem filings_passages (h : Filings P s t) : Passages ⟨p, s⟩ ⟨p, t⟩ := by
  refine h.keeps (Q := fun t => Passages ⟨p, s⟩ ⟨p, t⟩) (fun t u h hs => ?_) .refl
  cases h with
  | send frame t _ => exact hs.tail (.send p frame t)
  | note n t => exact hs.aside (aside_record rfl t)
  | session c t => exact hs.aside (aside_of_eq rfl rfl)
  | shutDown t => exact hs.aside (aside_record rfl t)

private theorem aside_completeInitialize (outcome : Outcome Value) (s : State) :
    Aside s (s.completeInitialize outcome).2 := by
  have hwarns (texts : List String) (t : State) :
      Aside t (texts.foldl (fun s text => s.warn text) t) := by
    induction texts generalizing t with
    | nil => exact .refl t
    | cons text texts ih => exact (aside_record rfl t).trans (ih _)
  cases outcome with
  | error e => exact aside_of_eq rfl rfl
  | ok result => exact (hwarns _ s).trans (aside_of_eq rfl rfl)

private theorem initialized_passages (s : State) : Passages ⟨p, s⟩ ⟨p, s.initialized.2⟩ := by
  have hsent : Passages ⟨p, s⟩ ⟨p, (s.notify "initialized" (some (.obj []))).2⟩ :=
    .single (.send p _ s)
  rw [State.initialized]
  split <;> rename_i h <;> rw [h] at hsent
  · exact hsent.aside (aside_of_eq rfl rfl)
  · exact hsent

private theorem aside_beginInitialize (s : State) : Aside s s.beginInitialize := by
  rw [State.beginInitialize]
  split
  · exact aside_of_eq rfl rfl
  · exact (aside_record rfl s).trans (aside_of_eq rfl rfl)

private theorem aside_warnIfNotReady (s : State) : Aside s s.warnIfNotReady := by
  have hnoted : Aside s (s.modifySession fun c => { c with warned := true }) := aside_of_eq rfl rfl
  rw [State.warnIfNotReady]
  split
  · exact .refl s
  · exact hnoted.record rfl

/-- The moves of what serves a connection: its reader, its writer and its ticker. -/
def Move.serves : Move → Bool
  | .read .. | .readEnd _ | .readerStops _ | .write _ | .failWrite .. | .closeSink _ | .tick _ => true
  | _ => false

private theorem beginAttempt_passages (s : State) :
    Passages ⟨none, s⟩ ⟨none, s.beginAttempt.2⟩ := by
  rw [State.beginAttempt]
  split
  · rename_i h
    exact .single (.begun (by simpa using h))
  · exact .refl

private theorem completeAttempt_passages (g l : Nat) (s : State) :
    Passages ⟨none, s⟩ ⟨none, (s.completeAttempt g l).2⟩ := by
  rw [State.completeAttempt]
  split
  · rename_i h
    exact .head (.opened g l h) (emit_passages closes_disconnect g _ _)
  · exact Aside.passages (aside_of_eq rfl rfl)

private theorem failAttempt_passages (g : Nat) (e : Fault) (s : State) :
    Passages ⟨none, s⟩ ⟨none, s.failAttempt g e⟩ := by
  rw [State.failAttempt]
  split
  · rename_i h
    have hfailed : Passages ⟨none, s⟩ ⟨none, (s.modifyTransport fun t => { t with
        state := .disconnected }).record (.emitted g (.failed e.message))⟩ :=
      .head (.missed g h) (aside_record rfl _).passages
    exact hfailed.trans (emit_passages closes_disconnect g _ _)
  · exact .refl

/-- Every move of what serves a connection is a sequence of passages. -/
private theorem Move.serving_passages {m : Move} (h : m.serves = true) (s : State) :
    Passages ⟨none, s⟩ ⟨none, m.apply s⟩ := by
  cases m with
  | read g item => exact readItem_passages g item s
  | readEnd g =>
    rw [Move.apply]
    split
    · exact finishReading_passages g s
    · exact .refl
  | readerStops g =>
    rw [Move.apply]
    split
    · exact .refl
    · rename_i h
      exact endReader_passages fun _ => by simpa using h
  | write g => exact writeItem_passages g s
  | failWrite g text => exact failWrite_passages g text s
  | closeSink g =>
    rw [Move.apply]
    split
    · rename_i h
      exact .single (.sinkClosed g h.1 h.2)
    · exact .refl
  | tick g => exact runTicker_passages g s
  | _ => cases h

/-- Every move is a sequence of passages, and leaves no writer that has lost a frame. -/
theorem Move.passages (m : Move) (s : State) : Passages ⟨none, s⟩ ⟨none, m.apply s⟩ := by
  by_cases hd : m.concernsDocuments = true
  · exact filings_passages (m.filings hd s)
  by_cases hs : m.serves = true
  · exact m.serving_passages hs s
  cases m with
  | around t => exact Aside.passages (aside_of_eq rfl rfl)
  | note n => exact (aside_record rfl s).passages
  | finished operation outcome => exact (aside_record rfl s).passages
  | listen topic handler name => exact (aside_listen topic handler name s).passages
  | unlisten name => exact (aside_unlisten name s).passages
  | connect => exact beginAttempt_passages s
  | found g l => exact completeAttempt_passages g l s
  | missed g e => exact failAttempt_passages g e s
  | disconnect => exact (aside_record rfl s).passages.trans (shut_passages none .byClient _)
  | send frame => exact .single (.send none frame s)
  | notify method params => exact .single (.send none _ s)
  | request method params options => exact request_passages method params options s
  | hear frame =>
    exact hears_passages (handleFrame_hears closes_disconnect frame (heeds_anything s))
  | watch id => exact watch_passages id s
  | lapse id => exact (aside_lapse id s).passages
  | cancelToken token => exact (aside_cancelToken token s).passages
  | abandon id => exact (aside_abandon id s).passages
  | collect id => exact (aside_collect id s).passages
  | abort reason => exact (aside_abort reason s).passages
  | dropEngine => exact (aside_dropEngine s).passages
  | beginInitialize => exact (aside_beginInitialize s).passages
  | completeInitialize outcome => exact (aside_completeInitialize outcome s).passages
  | initialized => exact initialized_passages s
  | beginShutdown => exact Aside.passages (aside_of_eq rfl rfl)
  | didSave uri text => exact .single (.send none _ s)
  | feature f params token =>
    exact (aside_warnIfNotReady s).passages.trans (request_passages _ _ _ _)
  | read _ _ | readEnd _ | readerStops _ | write _ | failWrite _ _ | closeSink _ | tick _ =>
    exact absurd rfl hs
  | completeShutdown _ | didOpen _ | openFile _ _ | didChange _ _ _ | didClose _ =>
    exact absurd rfl hd

end LanguageClient.Client
