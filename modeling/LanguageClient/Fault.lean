import LanguageClient.Rpc.ErrorObject
/-!
The causes of failure that a caller can see, and the one place where each gets its wording.
-/
namespace LanguageClient

inductive Fault where
  | transport (reason : String)
  /-- No response came before the request's deadline. -/
  | timeout (method : String) (elapsedMs : Nat)
  | protocol (reason : String)
  | rpc (error : Rpc.ErrorObject)
  /-- The request was cancelled before it settled. -/
  | cancelled (method : String)
  | initFailed (reason : String)
  | spawnFailed (command source : String)
  | invalidUri (text : String)
  | configNotFound (path : String)
  | invalidConfig (reason : String)
  | io (source : String)
  | json (reason : String)
  | toml (reason : String)
  | tomlWrite (reason : String)
  deriving DecidableEq, Repr

namespace Fault

def message : Fault → String
  | transport reason => "transport error: " ++ reason
  | timeout method ms => "request '" ++ method ++ "' timed out after " ++ toString ms ++ " ms"
  | protocol reason => "protocol error: " ++ reason
  | rpc error => "server error: " ++ error.display
  | cancelled method => "request '" ++ method ++ "' was cancelled"
  | initFailed reason => "LSP initialization failed: " ++ reason
  | spawnFailed command source =>
    "failed to spawn language server '" ++ command ++ "': " ++ source
  | invalidUri text => "invalid URI: " ++ text
  | configNotFound path => "configuration file not found: " ++ path
  | invalidConfig reason => "invalid configuration: " ++ reason
  | io source => "I/O error: " ++ source
  | json reason => "JSON error: " ++ reason
  | toml reason => "TOML parsing error: " ++ reason
  | tomlWrite reason => "TOML serialization error: " ++ reason

/-- The text of the fault that caused this one, when it has one of its own. -/
def source? : Fault → Option String
  | spawnFailed _ source => some source
  | io source => some source
  | json reason => some reason
  | toml reason => some reason
  | tomlWrite reason => some reason
  | _ => none

def isTimeout : Fault → Bool
  | timeout .. => true
  | _ => false

def isCancelled : Fault → Bool
  | cancelled _ => true
  | _ => false

def rpc? : Fault → Option Rpc.ErrorObject
  | rpc error => some error
  | _ => none

end Fault

/-- What an operation ends with. -/
abbrev Outcome (α : Type) := Except Fault α

end LanguageClient
