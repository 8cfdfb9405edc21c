import LanguageClient.Client.Session
/-!
What the small operations on a client leave as it was.
-/
namespace LanguageClient

theorem Keyed.get?_none_or_mem_keys {κ : Type u} {α : Type v} [DecidableEq κ] (m : Keyed κ α)
    (k : κ) : m.get? k = none ∨ k ∈ m.keys := by
  induction m with
  | nil => exact .inl rfl
  | cons e m ih =>
    rw [get?_cons]
    split
    · rename_i h
      exact .inr (List.mem_cons.mpr (.inl h.symm))
    · exact ih.imp_right (List.mem_cons_of_mem _)

theorem Keyed.erase_of_get?_none {κ : Type u} {α : Type v} [DecidableEq κ] {m : Keyed κ α} {k : κ}
    (h : m.get? k = none) : m.erase k = m := by
  refine List.filter_eq_self.mpr fun e he => ?_
  have hnone := List.find?_eq_none.mp (Option.map_eq_none_iff.mp h) e he
  simpa using hnone

namespace Client

/-- The journal goes on with entries that have a property. -/
def Grows (C : Entry → Prop) (s t : State) : Prop :=
  ∃ more, t.journal = s.journal ++ more ∧ ∀ e ∈ more, C e

variable {C D : Entry → Prop} {s t u : State}

theorem Grows.of_eq (h : t.journal = s.journal) : Grows C s t :=
  ⟨[], h.trans (List.append_nil _).symm, fun _ he => absurd he List.not_mem_nil⟩

theorem Grows.refl (s : State) : Grows C s s := .of_eq rfl

theorem Grows.trans (h : Grows C s t) (k : Grows C t u) : Grows C s u := by
  obtain ⟨more, hj, hm⟩ := h
  obtain ⟨further, kj, km⟩ := k
  refine ⟨more ++ further, ?_, List.forall_mem_append.mpr ⟨hm, km⟩⟩
  rw [kj, hj, List.append_assoc]

theorem Grows.mono (hC : ∀ e, C e → D e) (h : Grows C s t) : Grows D s t := by
  obtain ⟨more, hj, hm⟩ := h
  exact ⟨more, hj, fun e he => hC e (hm e he)⟩

theorem grows_record {e : Entry} (h : C e) (s : State) : Grows C s (s.record e) :=
  ⟨[e], rfl, List.forall_mem_singleton.mpr h⟩

/-- The journal goes on with one entry, whatever follows it. -/
def Leads (e : Entry) (s t : State) : Prop := ∃ more, t.journal = s.journal ++ e :: more

theorem Leads.of_grows {e : Entry} (h : Grows C (s.record e) t) : Leads e s t := by
  obtain ⟨more, hj, _⟩ := h
  exact ⟨more, by rw [hj, State.record, List.append_assoc]; rfl⟩

end Client

namespace Client.State
open Transport Rpc Json

theorem wake_eq (w : Work) (s : State) : ∃ ready, s.wake w = { s with ready } := by
  rw [wake]
  split
  · exact ⟨s.ready, rfl⟩
  · exact ⟨_, rfl⟩

@[simp] theorem wake_transport (w : Work) (s : State) : (s.wake w).transport = s.transport := by
  obtain ⟨_, h⟩ := wake_eq w s
  rw [h]

@[simp] theorem wake_engine (w : Work) (s : State) : (s.wake w).engine = s.engine := by
  obtain ⟨_, h⟩ := wake_eq w s
  rw [h]

@[simp] theorem wake_session (w : Work) (s : State) : (s.wake w).session = s.session := by
  obtain ⟨_, h⟩ := wake_eq w s
  rw [h]

@[simp] theorem wake_handles (w : Work) (s : State) : (s.wake w).handles = s.handles := by
  obtain ⟨_, h⟩ := wake_eq w s
  rw [h]

@[simp] theorem wake_journal (w : Work) (s : State) : (s.wake w).journal = s.journal := by
  obtain ⟨_, h⟩ := wake_eq w s
  rw [h]

theorem wakes_eq (work : List Work) (s : State) :
    ∃ ready, work.foldl (fun s w => s.wake w) s = { s with ready } := by
  induction work generalizing s with
  | nil => exact ⟨s.ready, rfl⟩
  | cons w work ih =>
    obtain ⟨_, hw⟩ := wake_eq w s
    obtain ⟨ready, h⟩ := ih (s.wake w)
    exact ⟨ready, by rw [List.foldl_cons, h, hw]⟩

theorem cancelToken_eq (token : String) (s : State) : ∃ cancelled ready,
    s.cancelToken token = { s with engine := { s.engine with cancelled }, ready } := by
  rw [cancelToken]
  split
  · exact ⟨_, _, rfl⟩
  · have hwakes (ids : List Int) (u : State) :
        ∃ ready, ids.foldl (fun s id => s.wake (.watchdog id)) u = { u with ready } := by
      obtain ⟨ready, h⟩ := wakes_eq (ids.map .watchdog) u
      exact ⟨ready, by rw [← h, List.foldl_map]⟩
    obtain ⟨ready, h⟩ := hwakes _ _
    exact ⟨_, ready, h⟩

theorem listen_eq (topic : Topic) (handler : Handler) (name : String) (s : State) :
    ∃ hub topics handles, s.listen topic handler name =
      { s with
        transport := { s.transport with hub }, engine := { s.engine with topics }, handles } := by
  cases topic <;> exact ⟨_, _, _, rfl⟩

theorem unlisten_eq (name : String) (s : State) : ∃ hub topics handles, (s.unlisten name).2 =
    { s with
      transport := { s.transport with hub }, engine := { s.engine with topics }, handles } := by
  rw [unlisten]
  split
  · exact ⟨_, _, _, rfl⟩
  · simp only
    split <;> exact ⟨_, _, _, rfl⟩

/-- A frame is queued for the open connection, or it is refused and nothing but the journal tells. -/
theorem send_cases (frame : String) (s : State) :
    (∃ g ready, s.transport.state = .opened ∧ s.transport.outbound = some g ∧
      s.send frame = (.ok (),
        { s.modifyConnection g (fun c => { c with queue := c.queue ++ [frame] }) with
          ready, journal := s.journal ++ [.offered frame (some g)] })) ∨
    (∀ g, s.transport.state = .opened → s.transport.outbound ≠ some g) ∧ s.send frame =
      (.error (.transport ("cannot send while " ++ s.transport.state.name)),
        s.record (.offered frame none)) := by
  rw [send]
  split
  · rename_i g hs ho
    obtain ⟨ready, hw⟩ := wake_eq (.writer g)
      (s.modifyConnection g (fun c => { c with queue := c.queue ++ [frame] }))
    exact .inl ⟨g, ready, hs, ho, by rw [hw]; rfl⟩
  · rename_i h
    exact .inr ⟨fun g hs ho => h g hs ho, rfl⟩

@[simp] theorem send_engine (frame : String) (s : State) : (s.send frame).2.engine = s.engine := by
  obtain ⟨_, _, _, _, h⟩ | ⟨_, h⟩ := send_cases frame s <;> rw [h] <;> rfl

@[simp] theorem send_session (frame : String) (s : State) :
    (s.send frame).2.session = s.session := by
  obtain ⟨_, _, _, _, h⟩ | ⟨_, h⟩ := send_cases frame s <;> rw [h] <;> rfl

@[simp] theorem send_hub (frame : String) (s : State) :
    (s.send frame).2.transport.hub = s.transport.hub := by
  obtain ⟨_, _, _, _, h⟩ | ⟨_, h⟩ := send_cases frame s <;> rw [h] <;> rfl

theorem conclude_eq (id : Int) (outcome : Outcome Value) (s : State) :
    ∃ ready, s.conclude id outcome =
      { s.modifyEngine (fun e => { e with outcomes := e.outcomes.put id outcome }) with
        ready, journal := s.journal ++ [.settled id outcome] } := by
  rw [conclude]
  simp only
  split
  · exact wake_eq _ _
  · exact ⟨_, rfl⟩

theorem settle_absent {id : Int} {s : State} (h : s.engine.pending.get? id = none)
    (outcome : Pending → Outcome Value) : s.settle id outcome = s := by
  rw [settle, h]

theorem settle_present {id : Int} {s : State} {entry : Pending}
    (h : s.engine.pending.get? id = some entry) (outcome : Pending → Outcome Value) :
    s.settle id outcome = (s.remove id entry).conclude id (outcome entry) := by
  rw [settle, h]

theorem settle_journal {id : Int} {s : State} {entry : Pending}
    (h : s.engine.pending.get? id = some entry) (outcome : Pending → Outcome Value) :
    (s.settle id outcome).journal = s.journal ++ [.settled id (outcome entry)] := by
  obtain ⟨_, hc⟩ := conclude_eq id (outcome entry) (s.remove id entry)
  rw [settle_present h, hc]
  rfl

theorem settle_eq (id : Int) (outcome : Pending → Outcome Value) (s : State) :
    ∃ pending watchdogs outcomes ready journal, s.settle id outcome =
      { s with engine := { s.engine with pending, watchdogs, outcomes }, ready, journal } := by
  cases h : s.engine.pending.get? id with
  | none => exact ⟨_, _, _, _, _, settle_absent h outcome⟩
  | some entry =>
    obtain ⟨ready, hc⟩ := conclude_eq id (outcome entry) (s.remove id entry)
    exact ⟨_, _, _, ready, _, by rw [settle_present h, hc]; rfl⟩

/-- Giving everything up is told, and is then a sequence of settlements. -/
theorem abortPending_keeps {Q : State → Prop} {reason : String} {s : State}
    (hs : Q (s.record (.gaveUp reason)))
    (step : ∀ id t, Q t → Q (t.settle id fun _ => .error (.transport reason))) :
    Q (s.abortPending reason).2 := by
  have hfold (ids : List Int) (t : State) (ht : Q t) :
      Q (ids.foldl (fun s id => s.settle id fun _ => .error (.transport reason)) t) := by
    induction ids generalizing t with
    | nil => exact ht
    | cons id ids ih => exact ih _ (step id t ht)
  exact hfold _ _ hs

theorem handOver_cases (id : Int) (method : String) (params : Value) (s : State) :
    ∃ t, t = (s.send (Request.new id method (encodeParams params)).wire).2 ∧
      (s.handOver id method params = (true, t) ∨ ∃ e, s.handOver id method params =
        (false, (t.record (.unsent id e)).settle id fun _ => .error e)) := by
  refine ⟨_, rfl, ?_⟩
  rw [handOver]
  cases h : s.send (Request.new id method (encodeParams params)).wire with
  | mk r t =>
    cases r with
    | ok _ => exact .inl rfl
    | error e => exact .inr ⟨e, rfl⟩

theorem stop_eq (w : Work) (s : State) : ∃ connections ready,
    s.stop w = { s with transport := { s.transport with connections }, ready } := by
  unfold stop
  split
  · rename_i g
    obtain ⟨ready, hw⟩ := wake_eq (.reader g) (s.modifyConnection g (fun c =>
      if c.reader = .running then { c with reader := .stopping } else c))
    exact ⟨_, ready, hw⟩
  · rename_i g
    obtain ⟨ready, hw⟩ := wake_eq (.ticker g) (s.modifyConnection g (fun c =>
      if c.ticker = .running then { c with ticker := .stopping } else c))
    exact ⟨_, ready, hw⟩
  · exact ⟨_, _, rfl⟩

theorem stops_eq (tasks : List Work) (s : State) : ∃ connections ready,
    tasks.foldl (fun s w => s.stop w) s =
      { s with transport := { s.transport with connections }, ready } := by
  induction tasks generalizing s with
  | nil => exact ⟨_, _, rfl⟩
  | cons w tasks ih =>
    obtain ⟨_, _, hs⟩ := stop_eq w s
    obtain ⟨connections, ready, h⟩ := ih (s.stop w)
    exact ⟨connections, ready, by rw [List.foldl_cons, h, hs]⟩

theorem releaseSender_eq (g : Nat) (s : State) : ∃ ready, s.releaseSender g = { s with ready } := by
  rw [releaseSender]
  split
  · split
    · exact wake_eq _ _
    · exact ⟨_, rfl⟩
  · exact ⟨_, rfl⟩

theorem takeDown_eq (s : State) : ∃ connections ready, s.takeDown =
    { s with
      transport := { s.transport with
        state := .disconnected, outbound := none, tasks := [], connections }
      ready } := by
  rw [takeDown]
  simp only
  split
  · rename_i g _
    obtain ⟨_, hr⟩ := releaseSender_eq g (s.modifyTransport (fun t => { t with
      state := .disconnected, outbound := none, tasks := [] }))
    rw [hr]
    exact stops_eq _ _
  · exact stops_eq _ _

theorem makeLink_eq (s : State) : ∃ peer ready, s.makeLink.2 = { s with peer, ready } := by
  have hwake (g : Nat) (t : State) : ∃ ready, t.wake (.reader g) = { t with ready } := wake_eq _ t
  unfold makeLink
  simp only
  split
  · split
    · rename_i g _
      cases s.peer.reads with
      | none =>
        obtain ⟨ready, h⟩ := hwake g (s.modifyLink _ fun k => { k with peerWrites := false })
        exact ⟨_, ready, by rw [h]; rfl⟩
      | some old =>
        obtain ⟨ready, h⟩ := hwake g ((s.modifyLink old fun k =>
          { k with peerReads := false, toPeer := [] }).modifyLink _ fun k => { k with peerWrites := false })
        exact ⟨_, ready, by rw [h]; rfl⟩
    · cases s.peer.reads <;> exact ⟨_, _, rfl⟩
  · cases s.peer.reads <;> exact ⟨_, _, rfl⟩

theorem establish_eq (g l : Nat) (s : State) : ∃ tasks c ready, s.establish g l =
    { s with
      transport := { s.transport with
        state := .opened, outbound := some g, tasks := .reader g :: tasks
        connections := s.transport.connections.put g c }
      ready } := by
  rw [establish]
  simp only
  split
  · rename_i h
    refine ⟨[.ticker g], ⟨l, [], true, .running, .running, none⟩, ?_⟩
    obtain ⟨ready, hw⟩ := wakes_eq [.writer g, .reader g, .ticker g]
      (s.modifyTransport fun t => { t with
        state := .opened, outbound := some g, tasks := [.reader g, .ticker g]
        connections := t.connections.put g ⟨l, [], true, .running, .running, none⟩ })
    exact ⟨ready, hw⟩
  · refine ⟨[], ⟨l, [], true, .running, .ended, none⟩, ?_⟩
    obtain ⟨ready, hw⟩ := wakes_eq [.writer g, .reader g] (s.modifyTransport fun t => { t with
      state := .opened, outbound := some g, tasks := [.reader g]
      connections := t.connections.put g ⟨l, [], true, .running, .ended, none⟩ })
    exact ⟨ready, hw⟩

end Client.State

namespace Client

theorem isAttempting_iff {g : Nat} {s : State} : s.isAttempting g = true ↔
    s.transport.generation = g ∧ s.transport.state = .connecting := by
  simp [State.isAttempting]

end Client

end LanguageClient
