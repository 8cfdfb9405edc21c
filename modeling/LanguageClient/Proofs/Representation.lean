import LanguageClient.Proofs.Passage
/-!
How the fields of a transport fit together. The state of the connection, the sender of its queue and
the list of its tasks are written separately, by attempts that succeed or fail and by whoever closes a
connection; yet they always agree, so that a frame is taken exactly when the connection is open.
-/
namespace LanguageClient.Client
open Relation Transport Rpc Json Session

/-- The fields of a transport agree. -/
structure Fit (s : State) : Prop where
  /-- There is a sender exactly when the connection is open, and it is that connection's own. -/
  outbound : s.transport.outbound =
    if s.transport.state = .opened then some s.transport.generation else none
  tasks : s.transport.state ≠ .opened → s.transport.tasks = []
  current : ∀ w ∈ s.transport.tasks,
    w = .reader s.transport.generation ∨ w = .ticker s.transport.generation
  /-- The writer of the open connection has not stopped. -/
  writer : s.transport.state = .opened →
    ∃ c, s.connection? s.transport.generation = some c ∧ c.writing = true

variable {s t : State}

theorem Fit.of_transport (hs : Fit s) {hub : Registry EventKind Handler}
    (h : t.transport = { s.transport with hub }) : Fit t := by
  refine ⟨?_, ?_, ?_, ?_⟩
  · rw [h]
    exact hs.outbound
  · rw [h]
    exact hs.tasks
  · rw [h]
    exact hs.current
  · rw [State.connection?, h]
    exact hs.writer

theorem Fit.record (hs : Fit s) (e : Entry) : Fit (s.record e) := ⟨hs.1, hs.2, hs.3, hs.4⟩

theorem Fit.modify (hs : Fit s) {g : Nat} {f : Connection → Connection}
    (h : s.transport.state = .opened → g = s.transport.generation →
      ∀ c, c.writing = true → (f c).writing = true) : Fit (s.modifyConnection g f) := by
  refine ⟨hs.outbound, hs.tasks, hs.current, fun hopen => ?_⟩
  obtain ⟨c, hc, hw⟩ := hs.writer hopen
  change ∃ c, (s.modifyConnection g f).connection? s.transport.generation = some c ∧ _
  rw [connection?_modify]
  by_cases hg : g = s.transport.generation
  · rw [if_pos hg, hc]
    exact ⟨f c, rfl, h hopen hg c hw⟩
  · rw [if_neg hg]
    exact ⟨c, hc, hw⟩

theorem Fit.endWriter (hs : Fit s) {g : Nat}
    (h : s.transport.state = .opened → g ≠ s.transport.generation) : Fit (s.endWriter g) := by
  have hended : Fit (s.modifyConnection g fun c => { c with writing := false, queue := [] }) :=
    hs.modify fun hopen hg => absurd hg (h hopen)
  exact hended.of_transport (endWriter_transport g s)

theorem Fit.closed (hs : Fit s) : s.transport.state ≠ .opened →
    s.transport.outbound = none ∧ s.transport.tasks = [] := fun h => by
  rw [hs.outbound, if_neg h]
  exact ⟨rfl, hs.tasks h⟩

theorem fit_of_closed (state : t.transport.state ≠ .opened) (outbound : t.transport.outbound = none)
    (tasks : t.transport.tasks = []) : Fit t where
  outbound := by rw [outbound, if_neg state]
  tasks _ := tasks
  current w hw := by
    rw [tasks] at hw
    cases hw
  writer h := absurd h state

private theorem fit_establish {g : Nat} (h : s.transport.generation = g) (l : Nat) :
    Fit (s.establish g l) := by
  have ht := establish_transport g l s
  refine ⟨?_, ?_, ?_, fun _ => ?_⟩
  · rw [ht, if_pos rfl, h]
  · rw [ht]
    exact fun hopen => absurd rfl hopen
  · rw [ht, h]
    intro w hw
    rcases List.mem_cons.mp hw with rfl | hw
    · exact .inl rfl
    · split at hw
      · exact .inr (List.mem_singleton.mp hw)
      · cases hw
  · rw [State.connection?, ht, h]
    exact ⟨_, Keyed.get?_put_self _ _ _, rfl⟩

/-- Whatever happens to the transport, its fields agree afterwards. -/
theorem Fit.passage {p q : Option Nat} (h : Passage ⟨p, s⟩ ⟨q, t⟩) (hs : Fit s) : Fit t := by
  cases h with
  | aside _ h =>
    obtain ⟨_, ht⟩ := h.transport
    exact hs.of_transport ht
  | send _ frame _ =>
    have hkept (g : Nat) : Fit (s.modifyConnection g fun c => { c with queue := c.queue ++ [frame] }) :=
      hs.modify fun _ _ _ hw => hw
    obtain ⟨g, _, _, _, h⟩ | ⟨_, h⟩ := State.send_cases frame s
    · rw [h]
      exact (hkept g).of_transport rfl
    · rw [h]
      exact hs.record _
  | closed _ reason h =>
    obtain ⟨_, _, ht⟩ := State.takeDown_eq s
    rw [ht]
    exact fit_of_closed nofun rfl rfl
  | begun h =>
    obtain ⟨ho, ht⟩ := hs.closed (by rw [h]; decide)
    exact fit_of_closed nofun ho ht
  | missed g h =>
    obtain ⟨ho, ht⟩ := hs.closed (by rw [(isAttempting_iff.mp h).2]; decide)
    exact fit_of_closed nofun ho ht
  | opened g l h => exact (fit_establish (isAttempting_iff.mp h).1 l).record _
  | tended _ g f _ h _ => exact hs.modify fun _ _ c hw => (h c).2.1.trans hw
  | written g h =>
    have hkept : Fit (s.unqueue g) := hs.modify fun _ _ _ hw => hw
    exact hkept.record _
  | lost g text h =>
    have hkept : Fit (s.unqueue g) := hs.modify fun _ _ _ hw => hw
    exact hkept.record _
  | writerEnds g h =>
    refine hs.endWriter fun hopen hg => ?_
    have hcurrent : s.isCurrent g = true := by
      rw [State.isCurrent, hg, hopen]
      simp
    rw [h] at hcurrent
    cases hcurrent
  | sinkClosed g h hgone =>
    refine (hs.endWriter fun hopen hg => ?_).record _
    have ho : s.transport.outbound = some g := by rw [hs.outbound, if_pos hopen, hg]
    simp [State.sendersGone, ho] at hgone
  | ticked g due hc h =>
    have hkept : Fit (s.modifyConnection g fun c =>
        { c with queue := c.queue ++ [s.transport.options.keepaliveFrame] }) :=
      hs.modify fun _ _ _ hw => hw
    exact hkept.record _
  | tickerEnds g _ => exact hs.modify fun _ _ _ hw => hw

theorem Fit.move (m : Move) (s : State) (hs : Fit s) : Fit (m.apply s) :=
  (m.passages s).keeps (Q := fun a => Fit a.state) (fun _ _ h => Fit.passage h) hs

theorem fit_new (layer : Layer) (options : Options) (timeout : Nat) :
    Fit (State.new layer options timeout) := by
  cases layer <;> exact fit_of_closed nofun rfl rfl

/-- Hands a frame to the writer of the open connection, and says so if that has stopped. -/
def State.sendToWriter (frame : String) (s : State) : Outcome Unit × State :=
  match s.transport.state, s.transport.outbound with
  | .opened, some g =>
    match s.writing? g with
    | some _ => (.ok (), ((s.modifyConnection g (fun c => { c with queue := c.queue ++ [frame] })).wake
        (.writer g)).record (.offered frame (some g)))
    | none => (.error (.transport "connection writer has stopped"), s.record (.offered frame none))
  | state, _ =>
    (.error (.transport ("cannot send while " ++ state.name)), s.record (.offered frame none))

/-- The writer of the open connection never turns out to have stopped. -/
theorem Fit.sendToWriter (hs : Fit s) (frame : String) : s.sendToWriter frame = s.send frame := by
  by_cases hopen : s.transport.state = .opened
  · obtain ⟨c, hc, hw⟩ := hs.writer hopen
    have ho : s.transport.outbound = some s.transport.generation := by rw [hs.outbound, if_pos hopen]
    have hwriting : s.writing? s.transport.generation = some c.queue := by
      rw [State.writing?, hc, Option.bind_some, if_pos hw]
    rw [State.sendToWriter, State.send, hopen, ho]
    simp only [hwriting]
  · rw [State.sendToWriter, State.send, (hs.closed hopen).1]
    cases s.transport.state <;> rfl

/-- A frame is taken exactly when the connection is open, and is then queued for that connection. -/
theorem Fit.send (hs : Fit s) (frame : String) :
    (s.transport.state = .opened ∧ (s.send frame).1 = .ok () ∧
      (s.send frame).2.journal = s.journal ++ [.offered frame (some s.transport.generation)]) ∨
    (s.transport.state ≠ .opened ∧ s.send frame =
      (.error (.transport ("cannot send while " ++ s.transport.state.name)),
        s.record (.offered frame none))) := by
  obtain ⟨g, _, hopen, ho, h⟩ | ⟨hclosed, h⟩ := State.send_cases frame s
  · rw [hs.outbound, if_pos hopen] at ho
    obtain rfl := Option.some.inj ho
    rw [h]
    exact .inl ⟨hopen, rfl, rfl⟩
  · refine .inr ⟨fun hopen => ?_, h⟩
    exact hclosed _ hopen (by rw [hs.outbound, if_pos hopen])

/-- After every run the fields of the transport agree. So a frame is taken if and only if the connection
is open, it never turns out that the writer has stopped, and a frame that is refused leaves everything
as it was. -/
theorem transport_fit (layer : Layer) (options : Options) (timeout : Nat) (moves : List Move) :
    let s := (State.new layer options timeout).after moves
    Fit s ∧ ∀ frame, ((s.send frame).1 = .ok () ↔ s.transport.state = .opened) ∧
      s.sendToWriter frame = s.send frame ∧
      ∀ e, (s.send frame).1 = .error e →
        e = .transport ("cannot send while " ++ s.transport.state.name) ∧
          (s.send frame).2 = s.record (.offered frame none) := by
  intro s
  have hs : Fit s := State.after_keeps Fit.move (fit_new layer options timeout) moves
  refine ⟨hs, fun frame => ⟨?_, hs.sendToWriter frame, fun e he => ?_⟩⟩
  · obtain ⟨hopen, hok, _⟩ | ⟨hclosed, h⟩ := hs.send frame
    · exact iff_of_true hok hopen
    · rw [h]
      exact iff_of_false nofun hclosed
  · obtain ⟨_, hok, _⟩ | ⟨_, h⟩ := hs.send frame
    · rw [hok] at he
      cases he
    · rw [h] at he ⊢
      exact ⟨(Except.error.inj he).symm, rfl⟩

end LanguageClient.Client
