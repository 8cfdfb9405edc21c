import LanguageClient.Fault
import LanguageClient.Json.Value
import LanguageClient.Text.Blank
import LanguageClient.Transport.Event
/-!
The configuration of a session: how to reach the server, how long to wait for it, and who the
client is. A configuration is checked before it is used, and the first thing that is wrong is
reported.
-/
namespace LanguageClient.Config
open Json

inductive TransportKind where
  | stdio
  | websocket
  deriving DecidableEq, Repr

namespace TransportKind

def name : TransportKind → String
  | stdio => "stdio"
  | websocket => "websocket"

def all : List TransportKind := [stdio, websocket]

def ofName? (s : String) : Option TransportKind := all.find? (fun k => k.name == s)

end TransportKind

structure TransportSettings where
  kind : TransportKind
  command : Option String
  args : List String
  url : Option String
  /-- Seconds between keepalive frames; none are sent when it is zero. -/
  keepaliveSeconds : Nat
  /-- Further environment variables of the server, sorted by name. -/
  env : List (String × String)
  deriving DecidableEq, Repr

structure RpcSettings where
  requestTimeoutMs : Nat
  deriving DecidableEq, Repr

structure ClientSettings where
  name : String
  root : Option String
  initializationOptions : Option Value
  deriving DecidableEq

structure SessionConfig where
  transport : TransportSettings
  rpc : RpcSettings
  client : ClientSettings
  deriving DecidableEq

def defaultKeepaliveSeconds : Nat := 30

def defaultRequestTimeoutMs : Nat := 10000

def defaultClientName : String := "lspmux"

def invalid (reason : String) : Outcome Unit := .error (.invalidConfig reason)

namespace TransportSettings

/-- The settings of a configuration that says nothing about the transport. -/
def default : TransportSettings :=
  ⟨.stdio, some "rust-analyzer", [], none, defaultKeepaliveSeconds, []⟩

def keepaliveMs? (t : TransportSettings) : Option Nat :=
  if t.keepaliveSeconds = 0 then none else some (t.keepaliveSeconds * 1000)

def options (t : TransportSettings) : Transport.Options :=
  { Transport.Options.standard with keepaliveMs := t.keepaliveMs? }

/-- The selected kind has what it needs. -/
def validate (t : TransportSettings) : Outcome Unit :=
  match t.kind with
  | .stdio =>
    if Text.allBlank (t.command.getD "") then
      invalid "transport.command cannot be empty for stdio"
    else .ok ()
  | .websocket =>
    let url := t.url.getD ""
    if Text.allBlank url then invalid "transport.url cannot be empty for websocket"
    else if "ws://".isPrefixOf url || "wss://".isPrefixOf url then .ok ()
    else invalid ("transport.url must use ws:// or wss://, got '" ++ url ++ "'")

end TransportSettings

def RpcSettings.default : RpcSettings := ⟨defaultRequestTimeoutMs⟩

def ClientSettings.default : ClientSettings := ⟨defaultClientName, none, none⟩

namespace SessionConfig

def default : SessionConfig :=
  ⟨TransportSettings.default, RpcSettings.default, ClientSettings.default⟩

def validate (c : SessionConfig) : Outcome Unit :=
  c.transport.validate.bind fun _ =>
  if c.rpc.requestTimeoutMs = 0 then invalid "rpc.request_timeout_ms must be greater than zero"
  else if Text.allBlank c.client.name then invalid "client.name cannot be empty"
  else .ok ()

end SessionConfig

end LanguageClient.Config
