import LanguageClient.Client.Calls
import LanguageClient.Schema.Structures
/-!
Events and what they call: the handlers of an event run one after the other, in the order of their
registration, on a snapshot taken before the first of them. A handler of the user's may close the
connection, which is an event of its own; the handlers of that event find the connection closed
already, so that the chain ends there.
-/
namespace LanguageClient.Client
open Rpc Json Schema

/-- The notifications that the client itself understands. -/
def logMethod : String := "window/logMessage"

def diagnosticsMethod : String := "textDocument/publishDiagnostics"

namespace State

def modifyTransport (f : TransportState → TransportState) (s : State) : State :=
  { s with transport := f s.transport }

/-- Registers a handler, and names the registration if it is the user's. -/
def listen (topic : Topic) (handler : Handler) (name : String) (s : State) : State :=
  match topic with
  | .event kind =>
    let (reg, hub) := s.transport.hub.subscribe kind handler
    { s.modifyTransport (fun t => { t with hub }) with
      handles := s.handles.put name ⟨topic, reg.token⟩ }
  | .method method =>
    let (reg, topics) := s.engine.topics.subscribe method handler
    { s.modifyEngine (fun e => { e with topics }) with
      handles := s.handles.put name ⟨topic, reg.token⟩ }

/-- Ends the registration that a name stands for, and tells whether there was one. -/
def unlisten (name : String) (s : State) : Bool × State :=
  match s.handles.get? name with
  | none => (false, s)
  | some reg =>
    let s := { s with handles := s.handles.erase name }
    match reg.key with
    | .event kind =>
      (true, s.modifyTransport (fun t => { t with hub := t.hub.unsubscribe ⟨kind, reg.token⟩ }))
    | .method method =>
      (true, s.modifyEngine (fun e => { e with topics := e.topics.unsubscribe ⟨method, reg.token⟩ }))

/-- Does what a handler wants done; closing the connection is left to `close`. -/
def act (close : State → State) (a : Action) (s : State) : State :=
  match a with
  | .fail => s
  | .unsubscribe name => (s.unlisten name).2
  | .subscribe topic raw name actions => s.listen topic (.user ⟨name, raw, actions⟩) name
  | .send frame =>
    let (r, s) := s.send frame
    s.record (.sent r)
  | .disconnect => close s
  | .notify method params =>
    let (r, s) := s.notify method (encodeParams params)
    s.record (.announced r)
  | .cancel token => s.cancelToken token
  | .abort reason =>
    let (n, s) := s.abortPending reason
    s.record (.aborted n)

/-- Runs the actions of a handler up to the first failure, which is reported and goes no further. -/
def perform (close : State → State) : List Action → State → State
  | [], s => s
  | .fail :: _, s => s.record (.note ⟨.error, "subscriber panicked"⟩)
  | a :: rest, s => perform close rest (act close a s)

def logLevel (type : Int) : String :=
  if type = 1 then "ERROR" else if type = 2 then "WARN" else if type = 3 then "INFO" else "DEBUG"

/-- Passes a log message of the server on; one that is malformed is dropped. -/
def forward (params : Value) (s : State) : State :=
  match (logMessage params).bind (·.intAt? "type"), (logMessage params).bind (·.textAt? "message") with
  | some type, some text => s.record (.note ⟨.server (logLevel type), text⟩)
  | _, _ => s

def hearNotification (close : State → State) (method : String) (params : Value) (h : Handler)
    (s : State) : State :=
  match h with
  | .user u => perform close u.actions (s.record (.notified u.name method params))
  | .diagnostics name =>
    match publishDiagnostics params with
    | some v => s.record (.diagnosed name v)
    | none => s.warn "dropping malformed publishDiagnostics"
  | .forwardLog => s.forward params
  | .engine | .abortPending => s

def deliver (close : State → State) (method : String) (params : Value) (s : State) : State :=
  (s.engine.topics.snapshot method).foldl (fun s h => hearNotification close method params h s) s

/-- Handles one message of a frame; a request of the server is not answered. -/
def handleMessage (close : State → State) (v : Value) (s : State) : State :=
  match Message.ofValue v with
  | .ok (.response r) => s.resolve r
  | .ok (.notification n) => s.deliver close n.method (n.params.getD .null)
  | .ok (.request _) => s
  | .error _ => s.warn "dropping malformed message"

/-- Handles an inbound frame; the messages of a batch stand on their own. -/
def handleFrame (close : State → State) (frame : String) (s : State) : State :=
  match Payload.parse frame with
  | .error _ => s.warn "dropping malformed frame"
  | .ok payload => payload.values.foldl (fun s v => handleMessage close v s) s

def hearEvent (close : State → State) (event : Transport.Event) (h : Handler) (s : State) : State :=
  match h, event with
  | .user u, event => perform close u.actions (s.record (.heard u.name u.raw event))
  | .engine, .message frame => s.handleFrame close frame
  | .abortPending, .closed reason =>
    (s.abortPending ("connection closed (" ++ reason.name ++ ")")).2
  | _, _ => s

/-- Tells everybody who listens of an event of a connection. -/
def emitWith (close : State → State) (generation : Nat) (event : Transport.Event) (s : State) :
    State :=
  (s.transport.hub.snapshot event.kind).foldl (fun s h => hearEvent close event h s)
    (s.record (.emitted generation event))

/-- Tells a piece of work to stop; it ends at its next turn. -/
def stop (w : Work) (s : State) : State :=
  match w with
  | .reader g =>
    (s.modifyConnection g (fun c =>
      if c.reader = .running then { c with reader := .stopping } else c)).wake w
  | .ticker g =>
    (s.modifyConnection g (fun c =>
      if c.ticker = .running then { c with ticker := .stopping } else c)).wake w
  | _ => s

/-- The sender of a connection is gone, and with the ticker gone too its writer has an end to
reach. -/
def releaseSender (g : Nat) (s : State) : State :=
  match s.connection? g with
  | some c => if c.ticker = .ended then s.wake (.writer g) else s
  | none => s

/-- Takes the connection out of service and stops the work that serves it. -/
def takeDown (s : State) : State :=
  let tasks := s.transport.tasks
  let closing := s.transport.outbound
  let s := s.modifyTransport (fun t => { t with
    state := .disconnected
    outbound := none
    tasks := [] })
  let s := match closing with
    | some g => s.releaseSender g
    | none => s
  tasks.foldl (fun s w => s.stop w) s

/-- Closes the connection and says so. With a generation given, only that connection is closed, so
that nothing that is late can end a later one. -/
def shut (generation : Option Nat) (reason : Transport.CloseReason) (s : State) : State :=
  if generation.any (· != s.transport.generation) || s.transport.state == .disconnected then s
  else emitWith id s.transport.generation (.closed reason) s.takeDown

def disconnect (s : State) : State := (s.record .hungUp).shut none .byClient

def emit (generation : Nat) (event : Transport.Event) (s : State) : State :=
  emitWith disconnect generation event s

/-- The connection is the one of the present attempt and has not ended. -/
def isCurrent (generation : Nat) (s : State) : Bool :=
  generation == s.transport.generation && s.transport.state != .disconnected

/-- Reading or writing has failed, which ends the connection if it is still current. -/
def failConnection (generation : Nat) (text : String) (s : State) : State :=
  if s.isCurrent generation then
    ((s.warn "transport failure").emit generation (.failed text)).shut (some generation) .byFailure
  else s

end State

end LanguageClient.Client
