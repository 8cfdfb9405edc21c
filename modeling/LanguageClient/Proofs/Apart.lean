import LanguageClient.Proofs.Frame
import LanguageClient.Proofs.Run
/-!
Connections and requests are a world of their own: what happens there neither looks at the session nor
at the journal, leaves the session as it was, and adds to the journal no remark about the order of the
handshake. So a client does the same in another conversation, and with its journal told otherwise.
-/
namespace LanguageClient.Client
open Transport Rpc Json

/-- The remarks on an order of calls that the protocol does not provide for. -/
def initializedAgain : Note := ⟨.warn, "initialize sent again"⟩

def requestedEarly : Note := ⟨.warn, "request sent before the initialized notification"⟩

/-- The entry is a remark about the order of the handshake. -/
def Entry.onOrder : Entry → Bool
  | .note n => n == initializedAgain || n == requestedEarly
  | _ => false

@[simp] theorem Entry.onOrder_of_ne {e : Entry} (h : ∀ n, e ≠ .note n) : e.onOrder = false := by
  cases e with
  | note n => exact absurd rfl (h n)
  | _ => rfl

/-- Another way to tell a journal, in which only remarks about the order may get lost. -/
structure Retelling where
  tell : List Entry → List Entry
  tell_concat : ∀ past e, e.onOrder = false → tell (past ++ [e]) = tell past ++ [e]

namespace Retelling

def plain : Retelling := ⟨id, fun _ _ _ => rfl⟩

/-- The journal after all that went before. -/
def following (past : List Entry) : Retelling :=
  ⟨fun journal => past ++ journal, fun _ _ _ => (List.append_assoc ..).symm⟩

def quiet : Retelling where
  tell := List.filter fun e => !e.onOrder
  tell_concat past e h := by simp [h]

end Retelling

namespace State

/-- The client in another conversation, with its journal told otherwise. -/
def recast (c : Conversation) (tale : Retelling) (s : State) : State :=
  { s with session := c, journal := tale.tell s.journal }

variable (c : Conversation) (tale : Retelling) (s : State)

/-- What a client does in any conversation and however its journal is told. -/
def Apart (f : State → State) : Prop :=
  ∀ c tale s, f (s.recast c tale) = (f s).recast c tale

@[simp] theorem recast_transport : (s.recast c tale).transport = s.transport := rfl

@[simp] theorem recast_engine : (s.recast c tale).engine = s.engine := rfl

@[simp] theorem recast_session : (s.recast c tale).session = c := rfl

@[simp] theorem recast_journal : (s.recast c tale).journal = tale.tell s.journal := rfl

@[simp] theorem recast_now : (s.recast c tale).now = s.now := rfl

@[simp] theorem recast_handles : (s.recast c tale).handles = s.handles := rfl

@[simp] theorem record_recast {e : Entry} (h : e.onOrder = false) :
    (s.recast c tale).record e = (s.record e).recast c tale := by
  simp [record, recast, tale.tell_concat _ _ h]

@[simp] theorem warn_recast {text : String} (h : (Entry.note ⟨.warn, text⟩).onOrder = false) :
    (s.recast c tale).warn text = (s.warn text).recast c tale := record_recast c tale s h

@[simp] theorem wake_recast (w : Work) :
    (s.recast c tale).wake w = (s.wake w).recast c tale := by
  unfold wake
  change (if s.ready.contains w then _ else _) = _
  split <;> rfl

@[simp] theorem modifyEngine_recast (f : Engine → Engine) :
    (s.recast c tale).modifyEngine f = (s.modifyEngine f).recast c tale := rfl

@[simp] theorem modifyTransport_recast (f : TransportState → TransportState) :
    (s.recast c tale).modifyTransport f = (s.modifyTransport f).recast c tale := rfl

@[simp] theorem modifyConnection_recast (g : Nat) (f : Connection → Connection) :
    (s.recast c tale).modifyConnection g f = (s.modifyConnection g f).recast c tale := rfl

@[simp] theorem modifyLink_recast (l : Nat) (f : Link → Link) :
    (s.recast c tale).modifyLink l f = (s.modifyLink l f).recast c tale := rfl

@[simp] theorem setAlarm_recast (time : Nat) (w : Work) :
    (s.recast c tale).setAlarm time w = (s.setAlarm time w).recast c tale := rfl

@[simp] theorem connection?_recast (g : Nat) :
    (s.recast c tale).connection? g = s.connection? g := rfl

@[simp] theorem awaiting?_recast (id : Int) :
    (s.recast c tale).awaiting? id = s.awaiting? id := rfl

@[simp] theorem tokenCancelled_recast (options : CallOptions) :
    (s.recast c tale).tokenCancelled options = s.tokenCancelled options := rfl

@[simp] theorem effectiveTimeout_recast (options : CallOptions) :
    (s.recast c tale).effectiveTimeout options = s.effectiveTimeout options := rfl

@[simp] theorem isCurrent_recast (g : Nat) : (s.recast c tale).isCurrent g = s.isCurrent g := rfl

@[simp] theorem isAttempting_recast (g : Nat) :
    (s.recast c tale).isAttempting g = s.isAttempting g := rfl

@[simp] theorem reading_recast (g : Nat) : (s.recast c tale).reading g = s.reading g := rfl

@[simp] theorem writing?_recast (g : Nat) : (s.recast c tale).writing? g = s.writing? g := rfl

@[simp] theorem sendersGone_recast (g : Nat) :
    (s.recast c tale).sendersGone g = s.sendersGone g := rfl

variable {c tale s}

theorem foldl_recast {α : Type} {f : State → α → State} (hf : ∀ a, Apart fun s => f s a)
    (items : List α) : items.foldl f (s.recast c tale) = (items.foldl f s).recast c tale := by
  induction items generalizing s with
  | nil => rfl
  | cons a items ih =>
    rw [List.foldl_cons, List.foldl_cons, ← ih]
    exact congrArg (items.foldl f) (hf a c tale s)

variable (c tale s)

@[simp] theorem send_recast (frame : String) : (s.recast c tale).send frame =
    ((s.send frame).1, (s.send frame).2.recast c tale) := by
  unfold send
  simp only [recast_transport]
  split <;> simp

@[simp] theorem notify_recast (method : String) (params : Option Value) :
    (s.recast c tale).notify method params =
      ((s.notify method params).1, (s.notify method params).2.recast c tale) :=
  send_recast c tale s _

@[simp] theorem remove_recast (id : Int) (entry : Pending) :
    (s.recast c tale).remove id entry = (s.remove id entry).recast c tale := rfl

@[simp] theorem conclude_recast (id : Int) (outcome : Outcome Value) :
    (s.recast c tale).conclude id outcome = (s.conclude id outcome).recast c tale := by
  unfold conclude
  rw [modifyEngine_recast, record_recast _ _ _ rfl]
  simp only [awaiting?_recast]
  split <;> simp

@[simp] theorem settle_recast (id : Int) (outcome : Pending → Outcome Value) :
    (s.recast c tale).settle id outcome = (s.settle id outcome).recast c tale := by
  unfold settle
  simp only [recast_engine]
  split <;> simp

@[simp] theorem expire_recast (id : Int) (timeout : Nat) :
    (s.recast c tale).expire id timeout = (s.expire id timeout).recast c tale := by
  simp [expire]

@[simp] theorem cancel_recast (id : Int) :
    (s.recast c tale).cancel id = (s.cancel id).recast c tale := by
  unfold cancel
  rw [record_recast _ _ _ rfl]
  simp only [recast_engine]
  split <;> simp

@[simp] theorem resolve_recast (r : Response) :
    (s.recast c tale).resolve r = (s.resolve r).recast c tale := by
  unfold resolve
  rw [record_recast _ _ _ rfl]
  split <;> simp

@[simp] theorem abortPending_recast (reason : String) : (s.recast c tale).abortPending reason =
    ((s.abortPending reason).1, (s.abortPending reason).2.recast c tale) := by
  unfold abortPending
  rw [record_recast _ _ _ rfl]
  simp only [recast_engine]
  rw [foldl_recast fun id c tale s => settle_recast c tale s id _]

@[simp] theorem abandon_recast (id : Int) :
    (s.recast c tale).abandon id = (s.abandon id).recast c tale := by
  unfold abandon
  rw [record_recast _ _ _ rfl, modifyEngine_recast]
  simp only [recast_engine]
  split <;> simp

@[simp] theorem enter_recast (method : String) (options : CallOptions) :
    (s.recast c tale).enter method options =
      ((s.enter method options).1, (s.enter method options).2.recast c tale) := by
  simp [enter]

@[simp] theorem handOver_recast (id : Int) (method : String) (params : Value) :
    (s.recast c tale).handOver id method params =
      ((s.handOver id method params).1, (s.handOver id method params).2.recast c tale) := by
  unfold handOver
  rw [send_recast]
  obtain ⟨r, t⟩ := s.send (Request.new id method (encodeParams params)).wire
  cases r <;> simp

@[simp] theorem guard_recast (id : Int) (options : CallOptions) :
    (s.recast c tale).guard id options = (s.guard id options).recast c tale := by
  simp [guard]

@[simp] theorem collect_recast (id : Int) : (s.recast c tale).collect id =
    (s.collect id).map fun r => (r.1, r.2.recast c tale) := by
  unfold collect
  rw [recast_engine, Option.map_map]
  rfl

@[simp] theorem attach_recast (id : Int) :
    (s.recast c tale).attach id = (s.attach id).recast c tale := rfl

@[simp] theorem request_recast (method : String) (params : Value) (options : CallOptions) :
    (s.recast c tale).request method params options =
      ((s.request method params options).1, (s.request method params options).2.recast c tale) := by
  unfold request
  rw [enter_recast]
  obtain ⟨id, t⟩ := s.enter method options
  simp only
  rw [tokenCancelled_recast]
  split
  · simp
  · rw [handOver_recast]
    obtain ⟨handed, u⟩ := t.handOver id method params
    cases handed <;> simp

@[simp] theorem endWatchdog_recast (id : Int) :
    (s.recast c tale).endWatchdog id = (s.endWatchdog id).recast c tale := rfl

theorem apart_watch (id : Int) : Apart (watch id) := by
  intro c tale s
  unfold watch
  simp only [recast_engine]
  split
  · rfl
  · rw [tokenCancelled_recast, recast_now]
    split
    · simp
    split
    · simp
    split <;> rfl

theorem apart_lapse (id : Int) : Apart (lapse id) := by
  intro c tale s
  unfold lapse
  simp only [recast_engine]
  split
  · rfl
  · rw [recast_now]
    split <;> simp

@[simp] theorem cancelToken_recast (token : String) :
    (s.recast c tale).cancelToken token = (s.cancelToken token).recast c tale := by
  unfold cancelToken
  rw [recast_engine]
  split
  · rfl
  · simp only [modifyEngine_recast]
    exact foldl_recast (f := fun s id => s.wake (.watchdog id))
      (fun id c tale s => wake_recast c tale s _) _

@[simp] theorem listen_recast (topic : Topic) (handler : Handler) (name : String) :
    (s.recast c tale).listen topic handler name = (s.listen topic handler name).recast c tale := by
  cases topic <;> rfl

@[simp] theorem unlisten_recast (name : String) : (s.recast c tale).unlisten name =
    ((s.unlisten name).1, (s.unlisten name).2.recast c tale) := by
  unfold unlisten
  simp only [recast_handles]
  split
  · rfl
  · rename_i reg _
    cases reg.key <;> rfl

variable {close : State → State} (hc : Apart close)

include hc

theorem apart_act (a : Action) : Apart (act close a) := by
  intro c tale s
  cases a with
  | disconnect => exact hc c tale s
  | _ => simp [act]

theorem apart_perform (actions : List Action) : Apart (perform close actions) := by
  intro c tale s
  induction actions generalizing s with
  | nil => rfl
  | cons a actions ih =>
    cases a with
    | fail => exact record_recast c tale s rfl
    | _ =>
      simp only [perform]
      rw [apart_act hc, ih]

theorem apart_hearNotification (method : String) (params : Value) (h : Handler) :
    Apart (hearNotification close method params h) := by
  intro c tale s
  cases h with
  | user u =>
    rw [hearNotification, record_recast _ _ _ rfl]
    exact apart_perform hc _ c tale _
  | diagnostics name =>
    simp only [hearNotification]
    split
    · simp
    · exact warn_recast c tale s rfl
  | forwardLog =>
    simp only [hearNotification, forward]
    split
    · exact record_recast c tale s (by simp [Entry.onOrder, initializedAgain, requestedEarly])
    · rfl
  | engine => rfl
  | abortPending => rfl

theorem apart_deliver (method : String) (params : Value) : Apart (deliver close method params) :=
  fun _ _ _ => foldl_recast (fun h => apart_hearNotification hc method params h) _

theorem apart_handleMessage (v : Value) : Apart (handleMessage close v) := by
  intro c tale s
  unfold handleMessage
  split
  · exact resolve_recast c tale s _
  · exact apart_deliver hc _ _ c tale s
  · rfl
  · exact warn_recast c tale s rfl

theorem apart_handleFrame (frame : String) : Apart (handleFrame close frame) := by
  intro c tale s
  unfold handleFrame
  split
  · exact warn_recast c tale s rfl
  · exact foldl_recast (fun v => apart_handleMessage hc v) _

theorem apart_hearEvent (event : Transport.Event) (h : Handler) :
    Apart (hearEvent close event h) := by
  intro c tale s
  unfold hearEvent
  split
  · rw [record_recast _ _ _ rfl]
    exact apart_perform hc _ c tale _
  · exact apart_handleFrame hc _ c tale s
  · rw [abortPending_recast]
  · rfl

theorem apart_emitWith (g : Nat) (event : Transport.Event) : Apart (emitWith close g event) := by
  intro c tale s
  unfold emitWith
  rw [record_recast _ _ _ rfl]
  exact foldl_recast (fun h => apart_hearEvent hc event h) _

omit hc

theorem apart_stop (w : Work) : Apart (stop w) := by
  intro c tale s
  unfold stop
  split <;> simp

@[simp] theorem takeDown_recast : (s.recast c tale).takeDown = s.takeDown.recast c tale := by
  unfold takeDown
  simp only [recast_transport, modifyTransport_recast]
  have hstops (t : State) : s.transport.tasks.foldl (fun s w => s.stop w) (t.recast c tale) =
      (s.transport.tasks.foldl (fun s w => s.stop w) t).recast c tale := foldl_recast apart_stop _
  split
  · rw [← hstops]
    unfold releaseSender
    simp only [connection?_recast]
    split
    · split <;> simp
    · rfl
  · exact hstops _

theorem apart_id : Apart id := fun _ _ _ => rfl

@[simp] theorem shut_recast (g : Option Nat) (reason : CloseReason) :
    (s.recast c tale).shut g reason = (s.shut g reason).recast c tale := by
  unfold shut
  rw [recast_transport, takeDown_recast]
  split
  · rfl
  · exact apart_emitWith apart_id _ _ c tale _

theorem apart_disconnect : Apart disconnect := by
  intro c tale s
  simp [disconnect]

@[simp] theorem emit_recast (g : Nat) (event : Transport.Event) :
    (s.recast c tale).emit g event = (s.emit g event).recast c tale :=
  apart_emitWith apart_disconnect g event c tale s

@[simp] theorem failConnection_recast (g : Nat) (text : String) :
    (s.recast c tale).failConnection g text = (s.failConnection g text).recast c tale := by
  unfold failConnection
  rw [isCurrent_recast]
  split
  · rw [warn_recast c tale s rfl]
    simp
  · rfl

@[simp] theorem endReader_recast (g : Nat) :
    (s.recast c tale).endReader g = (s.endReader g).recast c tale := by
  unfold endReader
  rw [connection?_recast]
  split <;> rfl

@[simp] theorem endWriter_recast (g : Nat) :
    (s.recast c tale).endWriter g = (s.endWriter g).recast c tale := by
  unfold endWriter
  rw [connection?_recast]
  split <;> rfl

theorem apart_beginAttempt : Apart fun s => s.beginAttempt.2 := by
  intro c tale s
  simp only [beginAttempt]
  rw [recast_transport]
  split <;> rfl

theorem apart_completeAttempt (g l : Nat) : Apart fun s => (s.completeAttempt g l).2 := by
  intro c tale s
  simp only [completeAttempt]
  rw [isAttempting_recast]
  split
  · have hestablish : (s.recast c tale).establish g l = (s.establish g l).recast c tale := by
      unfold establish
      rw [recast_transport]
      simp only [modifyTransport_recast, wake_recast]
      split <;> rfl
    simp [hestablish]
  · rfl

theorem apart_failAttempt (g : Nat) (e : Fault) : Apart (failAttempt g e) := by
  intro c tale s
  unfold failAttempt
  rw [isAttempting_recast]
  split <;> simp

theorem apart_readItem (g : Nat) (item : Outcome String) : Apart (readItem g item) := by
  intro c tale s
  unfold readItem
  rw [reading_recast]
  split
  · cases item <;> simp [readFrame, failReading]
  · rfl

theorem apart_writeItem (g : Nat) : Apart (writeItem g) := by
  intro c tale s
  unfold writeItem
  simp only [writing?_recast]
  split <;> simp [unqueue]

theorem apart_failWrite (g : Nat) (text : String) : Apart (failWrite g text) := by
  intro c tale s
  unfold failWrite
  simp only [writing?_recast]
  split <;> simp [unqueue, failWriting]

@[simp] theorem endTicker_recast (g : Nat) :
    (s.recast c tale).endTicker g = (s.endTicker g).recast c tale := by
  unfold endTicker
  simp only
  rw [modifyConnection_recast, recast_transport]
  split <;> simp

theorem apart_queueTicks (g : Nat) (ticks : List Nat) : Apart (queueTicks g ticks) := by
  intro c tale s
  induction ticks generalizing s with
  | nil => rfl
  | cons due ticks ih =>
    rw [queueTicks, modifyConnection_recast, wake_recast, record_recast _ _ _ rfl]
    exact ih _

theorem apart_runTicker (g : Nat) : Apart (runTicker g) := by
  intro c tale s
  unfold runTicker
  simp only [connection?_recast, recast_transport]
  split
  · rename_i k every _ _
    split
    · rfl
    · simp
    · split
      · simp
      · unfold tick
        split
        · rfl
        · rw [recast_now]
          simp only
          rw [apart_queueTicks g _ c tale s]
          split <;> rfl
  · rfl

theorem apart_dropEngine : Apart dropEngine := by
  intro c tale s
  unfold dropEngine
  simp only [recast_engine]
  cases s.engine.inbound <;> simp

theorem apart_endReader (g : Nat) : Apart (endReader g) := fun c tale s => endReader_recast c tale s g

theorem Apart.ite {p : State → Prop} [DecidablePred p] {f g : State → State}
    (hp : ∀ c tale s, p (recast c tale s) = p s) (hf : Apart f) (hg : Apart g) :
    Apart fun s => if p s then f s else g s := by
  intro c tale s
  simp only [hp, hf c tale s, hg c tale s]
  split <;> rfl

theorem apart_finishReading (g : Nat) : Apart (finishReading g) := by
  intro c tale s
  simp [finishReading]

theorem apart_finishWriting (g : Nat) : Apart (finishWriting g) := by
  intro c tale s
  simp [finishWriting]

variable {f : State → State}

theorem Apart.session (h : Apart f) (s : State) : (f s).session = s.session := by
  have hf : f s = (f s).recast s.session .plain := h s.session .plain s
  rw [hf]
  rfl

theorem Apart.grows (h : Apart f) (s : State) : Grows (fun e => e.onOrder = false) s (f s) := by
  -- the same is done with the journal empty, and there with nothing to leave out
  have hpast : f s = (f { s with journal := [] }).recast s.session (.following s.journal) := by
    rw [← h]
    simp [recast, Retelling.following]
  have hquiet : f { s with journal := [] } =
      (f { s with journal := [] }).recast s.session .quiet := h s.session .quiet { s with journal := [] }
  refine ⟨(f { s with journal := [] }).journal, congrArg State.journal hpast, fun e he => ?_⟩
  rw [hquiet] at he
  simpa using (List.mem_filter.mp he).2

end State

/-- The move is an operation of the session, or a remark about the order. -/
def Move.isOfSession : Move → Bool
  | .beginInitialize | .completeInitialize _ | .initialized | .beginShutdown | .completeShutdown _
  | .didOpen _ | .openFile .. | .didChange .. | .didSave .. | .didClose _ | .feature .. => true
  | .note n => (Entry.note n).onOrder
  | _ => false

theorem Move.apart {m : Move} (h : m.isOfSession = false) : State.Apart m.apply := by
  intro c tale s
  cases m with
  | around t => rfl
  | note n => exact State.record_recast c tale s h
  | finished operation outcome => exact State.record_recast c tale s rfl
  | listen topic handler name => exact State.listen_recast c tale s topic handler name
  | unlisten name => simp [apply]
  | connect => exact State.apart_beginAttempt c tale s
  | found g l => exact State.apart_completeAttempt g l c tale s
  | missed g e => exact State.apart_failAttempt g e c tale s
  | disconnect => exact State.apart_disconnect c tale s
  | send frame => simp [apply]
  | read g item => exact State.apart_readItem g item c tale s
  | readEnd g =>
    exact State.Apart.ite (p := fun s => s.reading g) (fun _ _ _ => rfl)
      (State.apart_finishReading g) State.apart_id c tale s
  | readerStops g =>
    exact State.Apart.ite (p := fun s => s.reading g) (fun _ _ _ => rfl)
      State.apart_id (State.apart_endReader g) c tale s
  | write g => exact State.apart_writeItem g c tale s
  | failWrite g text => exact State.apart_failWrite g text c tale s
  | closeSink g =>
    exact State.Apart.ite (p := fun s => s.writing? g = some [] ∧ s.sendersGone g)
      (fun _ _ _ => rfl) (State.apart_finishWriting g) State.apart_id c tale s
  | tick g => exact State.apart_runTicker g c tale s
  | notify method params => simp [apply]
  | request method params options => simp [apply]
  | hear frame => exact State.apart_handleFrame State.apart_disconnect frame c tale s
  | watch id => exact State.apart_watch id c tale s
  | lapse id => exact State.apart_lapse id c tale s
  | cancelToken token => exact State.cancelToken_recast c tale s token
  | abandon id => exact State.abandon_recast c tale s id
  | collect id =>
    simp only [apply, State.collect_recast]
    cases s.collect id <;> rfl
  | abort reason => simp [apply]
  | dropEngine => exact State.apart_dropEngine c tale s
  | _ => cases h

end LanguageClient.Client
