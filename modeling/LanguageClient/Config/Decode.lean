import LanguageClient.Config.Settings
/-!
Reading settings from a value. Every group of settings is an object without unknown keys, or the
list of its leading settings in order; what is left out has its default.
-/
namespace LanguageClient.Config
open Json

/-- The language in which a configuration was written. TOML has no null of its own: a null is a
value that has no type. -/
inductive Dialect where
  | json
  | toml
  deriving DecidableEq, Repr

namespace Dialect

/-- A null stands for a setting that is left out. -/
def nullIsAbsent (d : Dialect) : Bool := d == json

/-- A list may go on after the last setting. -/
def longLists (d : Dialect) : Bool := d == toml

/-- What stands for nothing after a name. -/
def isNothing (d : Dialect) (v : Value) : Bool :=
  match d with
  | json => v == .null
  | toml => v == .obj [] || v == .arr []

/-- The values of the named settings. -/
def columns (d : Dialect) (names : List String) (v : Value) : Option (List (Option Value)) :=
  match v with
  | .obj fs =>
    if fs.all (fun f => names.contains f.1) then some (names.map (Fields.get? fs)) else none
  | .arr vs =>
    if vs.length ≤ names.length || d.longLists then some (names.mapIdx (fun i _ => vs[i]?)) else none
  | _ => none

/-- A setting with a default. -/
def setting (default : α) (read : Value → Option α) : Option Value → Option α
  | none => some default
  | some v => read v

/-- A setting that may be left out. -/
def option (d : Dialect) (read : Value → Option α) : Option Value → Option (Option α)
  | none => some none
  | some .null => if d.nullIsAbsent then some none else (read .null).map some
  | some v => (read v).map some

def texts (v : Value) : Option (List String) := v.items?.bind (·.mapM Value.string?)

def environment (v : Value) : Option (List (String × String)) :=
  v.fields?.bind fun fs => fs.mapM (fun (f : String × Value) => f.2.string?.map (f.1, ·))

/-- The name of a kind, or an object of that one key without content. -/
def kind (d : Dialect) (v : Value) : Option TransportKind :=
  match v with
  | .str s => TransportKind.ofName? s
  | .obj [(s, content)] => if d.isNothing content then TransportKind.ofName? s else none
  | _ => none

def transport (d : Dialect) (v : Value) : Option TransportSettings :=
  match d.columns ["kind", "command", "args", "url", "keepalive_seconds", "env"] v with
  | some [k, command, args, url, keepalive, env] => do
    return ⟨← setting .stdio d.kind k, ← d.option Value.string? command, ← setting [] texts args,
      ← d.option Value.string? url, ← setting defaultKeepaliveSeconds Value.nat64? keepalive,
      ← setting [] environment env⟩
  | _ => none

def rpc (d : Dialect) (v : Value) : Option RpcSettings :=
  match d.columns ["request_timeout_ms"] v with
  | some [timeout] => (setting defaultRequestTimeoutMs Value.nat64? timeout).map RpcSettings.mk
  | _ => none

def client (d : Dialect) (v : Value) : Option ClientSettings :=
  match d.columns ["name", "root", "initialization_options"] v with
  | some [name, root, options] => do
    return ⟨← setting defaultClientName Value.string? name, ← d.option Value.string? root,
      ← d.option some options⟩
  | _ => none

def session (d : Dialect) (v : Value) : Option SessionConfig :=
  match d.columns ["transport", "rpc", "client"] v with
  | some [t, r, c] => do
    return ⟨← setting TransportSettings.default d.transport t, ← setting RpcSettings.default d.rpc r,
      ← setting ClientSettings.default d.client c⟩
  | _ => none

end Dialect

end LanguageClient.Config
