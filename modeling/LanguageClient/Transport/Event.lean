import LanguageClient.Fault
/-!
The lifecycle of a connection and the events that tell of it.
-/
namespace LanguageClient.Transport

inductive ConnectionState where
  | disconnected
  | connecting
  | opened
  deriving DecidableEq, Repr, Inhabited

def ConnectionState.name : ConnectionState → String
  | disconnected => "disconnected"
  | connecting => "connecting"
  | opened => "open"

/-- Who ended a connection. -/
inductive CloseReason where
  | byClient
  | byPeer
  | byFailure
  deriving DecidableEq, Repr

def CloseReason.name : CloseReason → String
  | byClient => "Local"
  | byPeer => "Remote"
  | byFailure => "Error"

inductive EventKind where
  | opened
  | message
  | closed
  | failed
  deriving DecidableEq, Repr

inductive Event where
  | opened
  | message (frame : String)
  | closed (reason : CloseReason)
  | failed (text : String)
  deriving DecidableEq, Repr

def Event.kind : Event → EventKind
  | opened => .opened
  | message _ => .message
  | closed _ => .closed
  | failed _ => .failed

/-- How a transport keeps its connection alive: a frame at every interval, unless disabled. -/
structure Options where
  keepaliveMs : Option Nat
  keepaliveFrame : String
  deriving DecidableEq, Repr

/-- A notification without arguments, for a method that a server is expected to ignore. -/
def defaultKeepalive : String := "\x7b\"jsonrpc\":\"2.0\",\"method\":\"$/keepalive\"\x7d"

def Options.standard : Options := ⟨some 30000, defaultKeepalive⟩

end LanguageClient.Transport
