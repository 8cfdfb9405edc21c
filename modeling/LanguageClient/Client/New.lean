import LanguageClient.Client.Schedule
import LanguageClient.Session.Handshake
/-!
Clients that have done nothing yet: a disconnected transport over an in-memory peer, and above it an
engine and a session. A configuration describes such a client, and with it the start of a session:
nothing is attempted unless the configuration is valid.
-/
namespace LanguageClient.Client

/-- How much of a client there is. -/
inductive Layer where
  | transport
  | engine
  | session
  deriving DecidableEq, Repr

namespace State

def freshPeer : Peer := ⟨none, false, [], none, none, none, []⟩

def freshConversation : Conversation := ⟨.uninitialized, none, .full, none, false, []⟩

def freshTransport (options : Transport.Options) : TransportState :=
  ⟨options, .disconnected, 0, none, [], [], Registry.empty⟩

def freshEngine (requestTimeout : Nat) : Engine :=
  ⟨none, 1, [], [], Registry.empty, requestTimeout, [], []⟩

/-- A transport and nothing above it. -/
def bare (options : Transport.Options) (requestTimeout : Nat) : State :=
  { transport := freshTransport options, engine := freshEngine requestTimeout,
    session := freshConversation, operations := [], lastOperation := 0, handles := [],
    peer := freshPeer, now := 0, ready := [], alarms := [], journal := [], released := false }

/-- The engine listens to inbound frames. -/
def attachEngine (s : State) : State :=
  let (reg, hub) := s.transport.hub.subscribe .message .engine
  (s.modifyTransport (fun t => { t with hub })).modifyEngine (fun e => { e with inbound := some reg })

/-- The session listens to the log messages of the server. -/
def attachSession (s : State) : State :=
  let (_, topics) := s.engine.topics.subscribe logMethod .forwardLog
  s.modifyEngine (fun e => { e with topics })

def new (layer : Layer) (options : Transport.Options) (requestTimeout : Nat) : State :=
  match layer with
  | .transport => bare options requestTimeout
  | .engine => (bare options requestTimeout).attachEngine
  | .session => (bare options requestTimeout).attachEngine.attachSession

/-- The client that a configuration describes, not yet connected. -/
def describedBy (c : Config.SessionConfig) : State :=
  new .session c.transport.options c.rpc.requestTimeoutMs

/-- The client for a configuration that can be used. -/
def ofConfig (c : Config.SessionConfig) : Outcome State := c.validate.map fun _ => describedBy c

def launch (c : Config.SessionConfig) (processId : Nat) (s : State) : Nat × State :=
  s.start (.launch (Session.initializeParams c.client processId) (.connecting .fresh))

end State

end LanguageClient.Client
