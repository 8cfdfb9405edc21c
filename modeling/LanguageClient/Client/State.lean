import LanguageClient.Client.Subscriber
import LanguageClient.Rpc.Message
import LanguageClient.Session.Capabilities
import LanguageClient.Session.Documents
/-!
The state of a client: its transport, its engine of pending requests and its session, together
with the in-memory link to its peer, the work that is ready to run, a virtual clock, and a journal
of everything that an observer can see.
-/
namespace LanguageClient.Client
open Transport Rpc Session Json

/-- A piece of asynchronous work. -/
inductive Work where
  | operation (n : Nat)
  | writer (generation : Nat)
  | reader (generation : Nat)
  | ticker (generation : Nat)
  | watchdog (id : Int)
  deriving DecidableEq, Repr

/-- Work runs until it ends; work that was told to stop ends when it next gets its turn. -/
inductive Activity where
  | running
  | stopping
  | ended
  deriving DecidableEq, Repr

/-- A connection that reached the open state: the frames accepted for it and not yet written, and
the work that serves it. -/
structure Connection where
  link : Nat
  queue : List String
  writing : Bool
  reader : Activity
  ticker : Activity
  /-- When the next keepalive frame is due, once the ticker has started. -/
  nextTick : Option Nat
  deriving Repr

structure TransportState where
  options : Options
  state : ConnectionState
  generation : Nat
  outbound : Option Nat
  tasks : List Work
  connections : Keyed Nat Connection
  hub : Registry EventKind Handler

/-- An unsettled request, and whether its watchdog has been attached to it. -/
structure Pending where
  method : String
  guarded : Bool
  deriving DecidableEq, Repr

/-- What waits for a request's deadline and its cancellation; the deadline is fixed when the
watchdog first runs. -/
structure Watchdog where
  timeout : Nat
  token : Option String
  deadline : Option Nat
  deriving DecidableEq, Repr

structure Engine where
  /-- What brings inbound frames to the engine, as long as it is there. -/
  inbound : Option (Registration EventKind)
  nextId : Int
  pending : Keyed Int Pending
  watchdogs : Keyed Int Watchdog
  topics : Registry String Handler
  requestTimeout : Nat
  cancelled : List String
  outcomes : Keyed Int (Outcome Value)

inductive Lifecycle where
  | uninitialized
  | initializing
  | ready
  | shuttingDown
  | shutdown
  deriving DecidableEq, Repr

namespace Lifecycle

def name : Lifecycle → String
  | uninitialized => "Uninitialized"
  | initializing => "Initializing"
  | ready => "Ready"
  | shuttingDown => "ShuttingDown"
  | shutdown => "Shutdown"

def isReady (l : Lifecycle) : Bool := l == ready

def isClosing (l : Lifecycle) : Bool := l == shuttingDown || l == shutdown

end Lifecycle

structure Conversation where
  lifecycle : Lifecycle
  capabilities : Option Capabilities
  syncKind : SyncKind
  serverInfo : Option Value
  warned : Bool
  documents : Documents

/-- The options of one request: a token that cancels it, and a deadline of its own. -/
structure CallOptions where
  token : Option String
  timeout : Option Nat
  deriving DecidableEq, Repr

def CallOptions.none : CallOptions := ⟨.none, .none⟩

/-- How far a connection attempt has come; the peer may hold one and let it go on or fail. -/
inductive Attempt where
  | fresh
  | held (generation : Nat)
  | released (generation : Nat) (failure : Option String)
  deriving DecidableEq, Repr

/-- How far the start of a session has come. -/
inductive LaunchPhase where
  | connecting (attempt : Attempt)
  | negotiating (call : Int)
  deriving DecidableEq, Repr

/-- An operation that takes several turns. -/
inductive Operation where
  | connect (attempt : Attempt) (keepsSession : Bool)
  /-- Connects, negotiates with these parameters, and announces that the session is ready. -/
  | launch (params : Outcome Value) (phase : LaunchPhase)
  | negotiate (params : Value) (options : CallOptions) (call : Option Int)
  | shutdown (call : Option Int)
  deriving Repr

/-- One in-memory link between client and peer. -/
structure Link where
  toPeer : List String
  clientWrites : Bool
  peerReads : Bool
  /-- Frames and failures that the client has not read yet. -/
  toClient : List (Outcome String)
  peerWrites : Bool
  clientReads : Bool
  deriving Repr

structure Peer where
  refusal : Option Fault
  /-- Attempts wait inside the connector while this is set. -/
  holds : Bool
  waiting : List Nat
  writeFault : Option String
  /-- The link that the peer reads from, and the one it writes to until it closes it. -/
  reads : Option Nat
  writes : Option Nat
  links : Keyed Nat Link

inductive Level where
  | warn
  | error
  | server (name : String)
  deriving DecidableEq, Repr

structure Note where
  level : Level
  text : String
  deriving DecidableEq, Repr

/-- What happens to a client, and what it does. -/
inductive Entry where
  | emitted (generation : Nat) (event : Event)
  | heard (name : String) (raw : Bool) (event : Event)
  | notified (name method : String) (params : Value)
  | diagnosed (name : String) (params : Value)
  | sent (result : Outcome Unit)
  | announced (result : Outcome Unit)
  | aborted (count : Nat)
  | note (n : Note)
  /-- A frame was offered to the transport, and taken for a connection or refused. -/
  | offered (frame : String) (taken : Option Nat)
  /-- A keepalive frame was queued for the tick that was due at the given time. -/
  | keptAlive (generation due : Nat)
  | received (generation : Nat) (item : Outcome String)
  | streamEnded (generation : Nat)
  | written (generation : Nat) (frame : String)
  | writeFailed (generation : Nat) (text : String)
  | sinkClosed (generation : Nat)
  | hungUp
  /-- A request took an id, to settle within so many milliseconds and before its token is
  cancelled. -/
  | issued (id : Int) (method : String) (timeout : Nat) (token : Option String)
  /-- A request was not sent, its token having been cancelled before. -/
  | withdrawn (id : Int)
  /-- A request was not sent, its frame having been refused. -/
  | unsent (id : Int) (cause : Fault)
  | answered (response : Response)
  /-- The deadline of a request was seen to have passed. -/
  | lapsed (id : Int)
  /-- The token of a request was seen to have been cancelled. -/
  | revoked (id : Int)
  | gaveUp (reason : String)
  | abandoned (id : Int)
  | settled (id : Int) (outcome : Outcome Value)
  /-- A session has told the server to exit and has forgotten its documents. -/
  | shutDown
  | finished (operation : Nat) (outcome : Outcome Value)

structure State where
  transport : TransportState
  engine : Engine
  session : Conversation
  operations : Keyed Nat Operation
  lastOperation : Nat
  handles : Keyed String (Registration Topic)
  peer : Peer
  now : Nat
  ready : List Work
  /-- Times at which work becomes ready, in the order in which they were asked for. -/
  alarms : List (Nat × Work)
  journal : List Entry
  /-- The user has let go of the client: what no unfinished operation needs is dropped. -/
  released : Bool

namespace State

def record (e : Entry) (s : State) : State := { s with journal := s.journal ++ [e] }

def warn (text : String) (s : State) : State := s.record (.note ⟨.warn, text⟩)

/-- Makes work ready, after everything that is ready already. -/
def wake (w : Work) (s : State) : State :=
  if s.ready.contains w then s else { s with ready := s.ready ++ [w] }

def setAlarm (time : Nat) (w : Work) (s : State) : State :=
  { s with alarms := s.alarms ++ [(time, w)] }

def connection? (s : State) (g : Nat) : Option Connection := s.transport.connections.get? g

def modifyConnection (g : Nat) (f : Connection → Connection) (s : State) : State :=
  { s with transport := { s.transport with connections := s.transport.connections.modify g f } }

def link? (s : State) (l : Nat) : Option Link := s.peer.links.get? l

def modifyLink (l : Nat) (f : Link → Link) (s : State) : State :=
  { s with peer := { s.peer with links := s.peer.links.modify l f } }

def generationOf? (s : State) (l : Nat) : Option Nat :=
  (s.transport.connections.find? (fun c => c.2.link == l)).map Prod.fst

/-- Hands a frame to the transport. A frame is taken exactly when the connection is open; it is then the
writer of that connection that owes it to the peer. -/
def send (frame : String) (s : State) : Outcome Unit × State :=
  match s.transport.state, s.transport.outbound with
  | .opened, some g =>
    (.ok (), ((s.modifyConnection g (fun c => { c with queue := c.queue ++ [frame] })).wake
      (.writer g)).record (.offered frame (some g)))
  | state, _ =>
    (.error (.transport ("cannot send while " ++ state.name)), s.record (.offered frame none))

end State

end LanguageClient.Client
