import LanguageClient.Proofs.Run
import LanguageClient.Proofs.Frame
import LanguageClient.Rehearsal.Report
/-!
The schedule and the stage keep to runs. Every turn of a piece of work, everything that the peer does
and every step of a rehearsal is a sequence of moves, so that what holds after every run holds at every
point of every rehearsal.
-/
namespace LanguageClient.Client
open Transport Json Session

/-- A move that sends nothing at the user's wish and registers no handler. -/
def Move.isWork : Move → Bool
  | .send _ | .notify .. | .listen .. => false
  | _ => true

/-- One state comes from another by moves that are not the user's messages or registrations. -/
def Works (s t : State) : Prop :=
  ∃ moves : List Move, (∀ m ∈ moves, m.isWork = true) ∧ t = s.after moves

theorem Works.refl (s : State) : Works s s := ⟨[], fun _ h => absurd h List.not_mem_nil, rfl⟩

theorem Works.trans {s t u : State} (h : Works s t) (h' : Works t u) : Works s u := by
  obtain ⟨moves, hm, rfl⟩ := h
  obtain ⟨more, hm', rfl⟩ := h'
  exact ⟨moves ++ more, List.forall_mem_append.mpr ⟨hm, hm'⟩, (State.after_append s moves more).symm⟩

theorem Works.move {s t : State} (h : Works s t) (m : Move) (hm : m.isWork = true) :
    Works s (m.apply t) := h.trans ⟨[m], List.forall_mem_singleton.mpr hm, rfl⟩

theorem Works.around {s t u : State} (h : Works s t) (transport : u.transport = t.transport)
    (engine : u.engine = t.engine) (session : u.session = t.session)
    (handles : u.handles = t.handles) (journal : u.journal = t.journal) : Works s u := by
  have hu : u = Move.apply (.around u) t := by
    rw [Move.apply, State.among, ← transport, ← engine, ← session, ← handles, ← journal]
  rw [hu]
  exact h.move (.around u) rfl

theorem Works.wake {s t : State} (h : Works s t) (w : Work) : Works s (t.wake w) :=
  h.around (by simp) (by simp) (by simp) (by simp) (by simp)

variable {s t : State}

private theorem works_makeLink (h : Works s t) : Works s t.makeLink.2 := by
  obtain ⟨_, _, hlink⟩ := State.makeLink_eq t
  rw [hlink]
  exact h.around rfl rfl rfl rfl rfl

private theorem works_reachPeer (g : Nat) (h : Works s t) : Works s (t.reachPeer g).2 := by
  rw [State.reachPeer]
  split
  · rename_i e _
    exact h.move (.missed g e) rfl
  · exact (works_makeLink h).move (.found g t.makeLink.1) rfl

theorem works_turnAttempt (attempt : Attempt) (h : Works s t) :
    Works s (t.turnAttempt attempt).2 := by
  cases attempt with
  | fresh =>
    have hbegin := h.move .connect rfl
    rw [State.turnAttempt]
    change Works s t.beginAttempt.2 at hbegin
    cases hb : t.beginAttempt with
    | mk g u =>
      rw [hb] at hbegin
      cases g with
      | none => exact hbegin
      | some g =>
        simp only
        split
        · exact hbegin
        · exact works_reachPeer g hbegin
  | held g => exact h
  | released g failure =>
    cases failure with
    | none => exact works_reachPeer g h
    | some text => exact h.move (.missed g (.transport text)) rfl

private theorem works_dropUnneeded (h : Works s t) : Works s t.dropUnneeded := by
  rw [State.dropUnneeded]
  split
  · exact h
  split
  · exact h
  · simp only
    split
    · exact (h.move .dropEngine rfl).move .disconnect rfl
    · exact h.move .dropEngine rfl

/-- What is left of the engine and the link goes when nothing needs it. -/
theorem works_release (s : State) : Works s s.release :=
  works_dropUnneeded ((Works.refl s).around rfl rfl rfl rfl rfl)

private theorem works_finish (n : Nat) (outcome : Outcome Value) (h : Works s t) :
    Works s (t.finish n outcome) := by
  have herase : Works s { t with operations := t.operations.erase n } := h.around rfl rfl rfl rfl rfl
  exact works_dropUnneeded (herase.move (.finished n outcome) rfl)

private theorem works_waitForPeer (n : Nat) (op : Operation) (h : Works s t) :
    Works s (t.waitForPeer n op) := by
  rw [State.waitForPeer]
  simp only
  split <;> exact h.around rfl rfl rfl rfl rfl

private theorem works_runConnect (n : Nat) (attempt : Attempt) (keeps : Bool) (h : Works s t) :
    Works s (t.runConnect n attempt keeps) := by
  have hturn := works_turnAttempt attempt h
  rw [State.runConnect]
  split <;> rename_i ht <;> rw [ht] at hturn
  · exact works_waitForPeer n _ hturn
  · exact works_finish n _ hturn

private theorem works_collect {u : State} {id : Int} {outcome : Outcome Value} (h : Works s t)
    (hc : t.collect id = some (outcome, u)) : Works s u := by
  have hmove := h.move (.collect id) rfl
  rw [Move.apply, hc] at hmove
  exact hmove

private theorem works_completeLaunch (outcome : Outcome Value) (h : Works s t) :
    Works s (t.completeLaunch outcome).2 := by
  have hdone : Works s (t.completeInitialize outcome).2 := h.move (.completeInitialize outcome) rfl
  rw [State.completeLaunch]
  split <;> rename_i hi <;> rw [hi] at hdone
  · exact hdone
  · exact hdone.move .initialized rfl

private theorem works_awaitLaunch (n : Nat) (id : Int) (h : Works s t) :
    Works s (t.awaitLaunch n id) := by
  rw [State.awaitLaunch]
  split
  · exact h
  · rename_i outcome u hc
    exact works_finish n _ (works_completeLaunch outcome (works_collect h hc))

private theorem works_runLaunch (n : Nat) (params : Outcome Value) (phase : LaunchPhase)
    (h : Works s t) : Works s (t.runLaunch n params phase) := by
  cases phase with
  | negotiating id => exact works_awaitLaunch n id h
  | connecting attempt =>
    have hturn := works_turnAttempt attempt h
    unfold State.runLaunch
    simp only
    split <;> rename_i ht <;> rw [ht] at hturn
    · exact works_waitForPeer n _ hturn
    · exact works_finish n _ hturn
    · unfold State.negotiateLaunch
      split
      · exact works_finish n _ hturn
      · rename_i p
        have hsent := (hturn.move .beginInitialize rfl).move (.request "initialize" p .none) rfl
        exact works_awaitLaunch n _ (hsent.around rfl rfl rfl rfl rfl)

private theorem works_awaitInitialize (n : Nat) (id : Int) (h : Works s t) :
    Works s (t.awaitInitialize n id) := by
  rw [State.awaitInitialize]
  split
  · exact h
  · rename_i outcome u hc
    exact works_finish n _ ((works_collect h hc).move (.completeInitialize outcome) rfl)

private theorem works_awaitShutdown (n : Nat) (id : Int) (h : Works s t) :
    Works s (t.awaitShutdown n id) := by
  rw [State.awaitShutdown]
  split
  · exact h
  · rename_i outcome u hc
    exact works_finish n _ ((works_collect h hc).move (.completeShutdown outcome) rfl)

private theorem works_runOperation (n : Nat) (h : Works s t) : Works s (t.runOperation n) := by
  rw [State.runOperation]
  split
  · exact h
  · exact works_runConnect n _ _ h
  · exact works_runLaunch n _ _ h
  · rename_i params options _
    have hsent := (h.move .beginInitialize rfl).move (.request "initialize" params options) rfl
    exact works_awaitInitialize n _ (hsent.around rfl rfl rfl rfl rfl)
  · exact works_awaitInitialize n _ h
  · have hsent := (h.move .beginShutdown rfl).move (.request "shutdown" .null .none) rfl
    exact works_awaitShutdown n _ (hsent.around rfl rfl rfl rfl rfl)
  · exact works_awaitShutdown n _ h

private theorem works_readItems (g l : Nat) (items : List (Outcome String)) (h : Works s t) :
    Works s (State.readItems g l items t) := by
  induction items generalizing t with
  | nil =>
    rw [State.readItems]
    cases hr : t.reading g with
    | false =>
      have hstop := h.move (.readerStops g) rfl
      simpa [Move.apply, hr] using hstop
    | true =>
      have hend := h.move (.readEnd g) rfl
      simp only [Move.apply, hr, if_true] at hend
      simp only [Bool.not_true, Bool.false_eq_true, if_false]
      split
      · exact hend
      · exact h
  | cons item items ih =>
    rw [State.readItems]
    cases hr : t.reading g with
    | false =>
      have hstop := h.move (.readerStops g) rfl
      simpa [Move.apply, hr] using hstop
    | true =>
      have hlink : Works s (t.modifyLink l fun k => { k with toClient := items }) :=
        h.around rfl rfl rfl rfl rfl
      have hread := hlink.move (.read g item) rfl
      have hr' : (t.modifyLink l fun k => { k with toClient := items }).reading g = true := hr
      simp only [Move.apply, State.readItem, hr', if_true] at hread
      simp only [Bool.not_true, Bool.false_eq_true, if_false]
      cases item with
      | ok frame => exact ih hread
      | error e => exact hread

private theorem works_runReader (g : Nat) (h : Works s t) : Works s (t.runReader g) := by
  rw [State.runReader]
  split
  · exact h
  · split
    · exact h
    · exact works_readItems g _ _ h

theorem deliverFrame_eq {l : Nat} {frame : String} {u : State}
    (h : t.deliverFrame l frame = .ok u) : ∃ f, u = t.modifyLink l f := by
  unfold State.deliverFrame at h
  split at h
  · cases h
  · split at h
    · exact ⟨_, (Except.ok.inj h).symm⟩
    · cases h
  · cases h

private theorem writing?_unqueue {g : Nat} {frame : String} {frames : List String}
    (hw : t.writing? g = some (frame :: frames)) : (t.unqueue g).writing? g = some frames := by
  obtain ⟨c, hc, hq⟩ := Option.bind_eq_some_iff.mp hw
  split at hq
  · rename_i hwriting
    have hqueue : c.queue = frame :: frames := Option.some.inj hq
    have hc' : (t.unqueue g).connection? g = some { c with queue := c.queue.tail } := by
      rw [State.connection?] at hc
      simp only [State.unqueue, State.connection?, State.modifyConnection, Keyed.get?_modify, hc,
        if_true, Option.map_some]
    rw [State.writing?, hc', Option.bind_some, if_pos hwriting, hqueue, List.tail_cons]
  · cases hq

private theorem works_writeFrames (g l : Nat) (frames : List String) (h : Works s t)
    (hw : t.writing? g = some frames) : Works s (State.writeFrames g l frames t) := by
  induction frames generalizing t with
  | nil =>
    unfold State.writeFrames
    have hclose := h.move (.closeSink g) rfl
    split
    · rename_i hgone
      simpa [Move.apply, hw, hgone] using hclose
    · exact h
  | cons frame frames ih =>
    unfold State.writeFrames
    simp only
    split
    · rename_i u hu
      have hwrite := h.move (.write g) rfl
      simp only [Move.apply, State.writeItem, hw] at hwrite
      obtain ⟨k, rfl⟩ := deliverFrame_eq hu
      refine ih (hwrite.around rfl rfl rfl rfl rfl) (writing?_unqueue hw)
    · rename_i reason _
      have hfail := h.move (.failWrite g (Fault.transport reason).message) rfl
      simp only [Move.apply, State.failWrite, hw] at hfail
      exact hfail

private theorem works_runWriter (g : Nat) (h : Works s t) : Works s (t.runWriter g) := by
  rw [State.runWriter]
  split
  · exact h
  · rename_i c hc
    split
    · rename_i hw
      refine works_writeFrames g _ _ h ?_
      rw [State.writing?, hc, Option.bind_some, if_pos hw]
    · exact h

/-- A turn of any piece of work is a sequence of moves. -/
theorem works_run (w : Work) (h : Works s t) : Works s (t.run w) := by
  cases w with
  | operation n => exact works_runOperation n h
  | writer g => exact works_runWriter g h
  | reader g => exact works_runReader g h
  | ticker g => exact h.move (.tick g) rfl
  | watchdog id => exact h.move (.watch id) rfl

theorem State.ring_eq (s : State) : ∃ ready alarms, s.ring = { s with ready, alarms } := by
  obtain ⟨ready, h⟩ := State.wakes_eq (s.dueAlarms.map Prod.snd)
    { s with alarms := s.alarms.filter fun a => s.now < a.1 }
  exact ⟨ready, _, by rw [State.ring, ← h, List.foldl_map]⟩

private theorem works_ring (h : Works s t) : Works s t.ring := by
  obtain ⟨_, _, hring⟩ := State.ring_eq t
  rw [hring]
  exact h.around rfl rfl rfl rfl rfl

/-- What happens until no work is left is a sequence of moves. -/
theorem works_settleWork (turns : Nat) (h : Works s t) : Works s (State.settleWork turns t) := by
  induction turns generalizing t with
  | zero => exact h
  | succ turns ih =>
    rw [State.settleWork]
    split
    · rename_i w rest _
      have hready : Works s { t with ready := rest } := h.around rfl rfl rfl rfl rfl
      exact ih (works_run w hready)
    · split
      · exact h
      · exact ih (works_ring h)

namespace State

theorem wakeReader_eq (l : Nat) (s : State) : ∃ ready, s.wakeReader l = { s with ready } := by
  rw [wakeReader]
  split
  · exact wake_eq _ s
  · exact ⟨s.ready, rfl⟩

theorem peerPut_eq (item : Outcome String) (s : State) :
    ∃ peer ready, (s.peerPut item).2 = { s with peer, ready } := by
  rw [peerPut]
  split
  · exact ⟨s.peer, s.ready, rfl⟩
  · rename_i l _
    split
    · exact ⟨s.peer, s.ready, rfl⟩
    · split
      · obtain ⟨ready, h⟩ := wakeReader_eq l
          (s.modifyLink l fun k => { k with toClient := k.toClient ++ [item] })
        exact ⟨_, ready, h⟩
      · exact ⟨s.peer, s.ready, rfl⟩

theorem peerTake_eq (s : State) : ∃ peer, s.peerTake.2 = { s with peer } := by
  rw [peerTake]
  split
  · exact ⟨s.peer, rfl⟩
  · exact ⟨_, rfl⟩

end State

end LanguageClient.Client

namespace LanguageClient.Rehearsal
open Client Json Session

/-- One state comes from another by moves. -/
def Runs (s t : State) : Prop := ∃ moves, t = s.after moves

theorem Runs.trans {s t u : State} (h : Runs s t) (h' : Runs t u) : Runs s u := by
  obtain ⟨moves, rfl⟩ := h
  obtain ⟨more, rfl⟩ := h'
  exact ⟨moves ++ more, (State.after_append s moves more).symm⟩

theorem Runs.move (m : Move) (s : State) : Runs s (m.apply s) := ⟨[m], rfl⟩

theorem runs_of_works {s t : State} (h : Works s t) : Runs s t := by
  obtain ⟨moves, _, ht⟩ := h
  exact ⟨moves, ht⟩

variable {s : State}

private theorem works_peerPut (item : Outcome String) (s : State) : Works s (s.peerPut item).2 := by
  obtain ⟨_, _, hput⟩ := State.peerPut_eq item s
  rw [hput]
  exact (Works.refl s).around rfl rfl rfl rfl rfl

private theorem works_peerClose (s : State) : Works s s.peerClose := by
  rw [State.peerClose]
  split
  · exact .refl s
  · rename_i l _
    obtain ⟨_, hclose⟩ := State.wakeReader_eq l ((s.modifyPeer fun p => { p with writes := none }).modifyLink
      l fun k => { k with peerWrites := false })
    rw [hclose]
    exact (Works.refl s).around rfl rfl rfl rfl rfl

theorem works_releaseAttempt (failure : Option String) (s : State) :
    Works s (s.releaseAttempt failure).2 := by
  rw [State.releaseAttempt]
  split
  · exact .refl s
  · rename_i n rest _
    simp only
    split
    · rename_i op _
      have hput : Works s ((s.modifyPeer fun p => { p with waiting := rest }).putOperation n op) :=
        (Works.refl s).around rfl rfl rfl rfl rfl
      exact hput.wake _
    · exact (Works.refl s).around rfl rfl rfl rfl rfl

theorem works_start (op : Operation) (s : State) : Works s (s.start op).2 := by
  have hput : Works s { s with
      lastOperation := s.lastOperation + 1
      operations := s.operations.put (s.lastOperation + 1) op } :=
    (Works.refl s).around rfl rfl rfl rfl rfl
  exact hput.wake _

private theorem works_peerTake (s : State) : Works s s.peerTake.2 := by
  obtain ⟨_, htake⟩ := State.peerTake_eq s
  rw [htake]
  exact (Works.refl s).around rfl rfl rfl rfl rfl

private theorem runs_move (m : Move) {s t : State} (h : Move.apply m s = t) : Runs s t :=
  h ▸ Runs.move m s

private theorem runs_collect (ids : List Int) (s : State) :
    Runs s (s.modifyEngine fun e => { e with
      outcomes := e.outcomes.filter fun o => !ids.contains o.1 }) := by
  induction ids generalizing s with
  | nil =>
    have hall : s.engine.outcomes.filter (fun o => !([] : List Int).contains o.1) =
        s.engine.outcomes := List.filter_eq_self.mpr fun o _ => rfl
    exact ⟨[], by rw [State.modifyEngine, hall]; rfl⟩
  | cons id ids ih =>
    have hone : Move.apply (.collect id) s = s.modifyEngine fun e => { e with
        outcomes := e.outcomes.erase id } := by
      rw [Move.apply, State.collect]
      cases hget : s.engine.outcomes.get? id with
      | some outcome => rfl
      | none => rw [State.modifyEngine, Keyed.erase_of_get?_none hget]; rfl
    have hfilter : s.engine.outcomes.filter (fun o => !(id :: ids).contains o.1) =
        (s.engine.outcomes.erase id).filter fun o => !ids.contains o.1 := by
      rw [Keyed.erase, List.filter_filter]
      refine List.filter_congr fun o _ => ?_
      simp [Bool.and_comm]
    have hrest := ih (Move.apply (.collect id) s)
    rw [hone] at hrest
    rw [State.modifyEngine, hfilter]
    exact (runs_move (.collect id) hone).trans hrest

namespace Stage

/-- What the user, the peer and the clock do is a sequence of moves. -/
theorem perform_runs (step : Step) (st : Stage) : Runs st.client (st.perform step).2.client := by
  have still : Runs st.client st.client := ⟨[], rfl⟩
  have around {t : State} (transport : t.transport = st.client.transport)
      (engine : t.engine = st.client.engine) (session : t.session = st.client.session)
      (handles : t.handles = st.client.handles) (journal : t.journal = st.client.journal) :
      Runs st.client t :=
    runs_of_works ((Works.refl _).around transport engine session handles journal)
  cases step with
  | connect keeps => exact runs_of_works (works_start _ _)
  | disconnect => exact Runs.move .disconnect _
  | send frame => exact Runs.move (.send frame) _
  | advance ms => exact around rfl rfl rfl rfl rfl
  | hold on => exact around rfl rfl rfl rfl rfl
  | release failure => exact runs_of_works (works_releaseAttempt failure _)
  | failWrites reason => exact around rfl rfl rfl rfl rfl
  | peerSend frame => exact runs_of_works (works_peerPut _ _)
  | peerFail reason => exact runs_of_works (works_peerPut _ _)
  | peerClose => exact runs_of_works (works_peerClose _)
  | peerRefuse on => exact around rfl rfl rfl rfl rfl
  | subscribe topic raw name actions =>
    exact Runs.move (.listen topic (.user ⟨name, raw, actions⟩) name) _
  | unsubscribe name => exact Runs.move (.unlisten name) _
  | drop => exact runs_of_works (works_release _)
  | request method params options result => exact Runs.move (.request method params options) _
  | notify method params => exact Runs.move (.notify method (Rpc.encodeParams params)) _
  | cancel token => exact Runs.move (.cancelToken token) _
  | dropCall id =>
    rw [perform]
    split
    · exact Runs.move (.abandon id) _
    · exact still
  | abort reason => exact Runs.move (.abort reason) _
  | abortOnClose name => exact Runs.move (.listen (.event .closed) .abortPending name) _
  | negotiate params options =>
    cases params with
    | error e => exact still
    | ok params => exact runs_of_works (works_start _ _)
  | initialized => exact Runs.move .initialized _
  | shutdown => exact runs_of_works (works_start _ _)
  | didOpen item => exact Runs.move (.didOpen item) _
  | didChange uri text edits => exact Runs.move (.didChange uri text edits) _
  | didSave uri text => exact Runs.move (.didSave uri text) _
  | didClose uri => exact Runs.move (.didClose uri) _
  | openFile path => exact Runs.move (.openFile path (st.files path)) _
  | onDiagnostics name =>
    exact Runs.move (.listen (.method diagnosticsMethod) (.diagnostics name) name) _
  | feature f params token => exact Runs.move (.feature f params token) _
  | transportOptions | peerConnections | subscriberCount _ | document _ | info | unreadable _ =>
    exact still

/-- Reporting takes from the client what the peer received and the calls that have settled. -/
theorem report_runs (reply : Reply) (st : Stage) :
    Runs st.client (st.report reply).2.client :=
  (runs_of_works (works_peerTake st.client)).trans (runs_collect _ _)

/-- A step of a rehearsal, with all the work that becomes ready in it, is a sequence of moves. -/
theorem take_runs (step : Step) (awaited : Bool) (st : Stage) :
    Runs st.client (st.take step awaited).2.2.client := by
  have hstep := perform_runs step st
  cases awaited with
  | false => exact hstep
  | true =>
    have hrest : Runs (st.perform step).2.client (st.perform step).2.client.rest :=
      runs_of_works (works_settleWork _ (Works.refl _))
    exact (hstep.trans hrest).trans (report_runs (st.perform step).1 _)

/-- The stage after a rehearsal, each step of it awaited or not. -/
def played (st : Stage) (steps : List (Step × Bool)) : Stage :=
  steps.foldl (fun st step => (st.take step.1 step.2).2.2) st

/-- Whatever holds of every run of a client holds of the client after every rehearsal. -/
theorem played_runs (st : Stage) (steps : List (Step × Bool)) :
    Runs st.client (st.played steps).client := by
  induction steps generalizing st with
  | nil => exact ⟨[], rfl⟩
  | cons step steps ih => exact (take_runs step.1 step.2 st).trans (ih _)

end Stage

end LanguageClient.Rehearsal
