import LanguageClient.Config.Decode
import LanguageClient.Files
import LanguageClient.Toml.Reader
import LanguageClient.Toml.Writer
/-!
Loading a configuration from a file, finding that file, and writing a configuration out.
-/
namespace LanguageClient.Config
open Json Files

/-- The configuration that a text describes, if that is one that can be used. -/
def ofToml (text : String) : Outcome SessionConfig :=
  match (Toml.read? text).bind Dialect.toml.session with
  | none => .error (.toml "the text is no configuration")
  | some config => config.validate.map (fun _ => config)

/-- Loads the file at a path, given what there is. -/
def load (path : String) (entry : Entry) : Outcome SessionConfig :=
  if entry = .missing then .error (.configNotFound path) else entry.text.bind ofToml

/-- The environment variable that names a configuration file. -/
def pathVariable : String := "LSPMUX_CONFIG"

def fileName : String := "lspmux.toml"

/-- The file of a user, below the directory of the user's configurations. -/
def userFile (directory : String) : String := directory ++ "/lspmux/" ++ fileName

/-- The file to load: the one that the environment names, whether or not it is there, otherwise the
first there is. -/
def locate (named : Option String) (userDirectory : Option String) (lookup : String → Entry) :
    Option String :=
  match named with
  | some path => some path
  | none =>
    if lookup fileName ≠ .missing then some fileName
    else (userDirectory.map userFile).filter (fun path => lookup path ≠ .missing)

/-- Loads the file that is found; without one, everything has its default. -/
def loadDefault (named : Option String) (userDirectory : Option String) (lookup : String → Entry) :
    Outcome SessionConfig :=
  match locate named userDirectory lookup with
  | some path => load path (lookup path)
  | none => .ok SessionConfig.default

def TransportSettings.fields (t : TransportSettings) : Fields :=
  Fields.present
    [("kind", some (.str t.kind.name)), ("command", t.command.map Value.str),
     ("args", some (.arr (t.args.map Value.str))), ("url", t.url.map Value.str),
     ("keepalive_seconds", some (.nat t.keepaliveSeconds)),
     ("env", some (.obj (t.env.map (fun e => (e.1, .str e.2)))))]

def RpcSettings.fields (r : RpcSettings) : Fields := [("request_timeout_ms", .nat r.requestTimeoutMs)]

def ClientSettings.fields (c : ClientSettings) : Fields :=
  Fields.present
    [("name", some (.str c.name)), ("root", c.root.map Value.str),
     ("initialization_options", c.initializationOptions)]

/-- The settings in the order in which they are written. -/
def SessionConfig.fields (c : SessionConfig) : Fields :=
  [("transport", .obj c.transport.fields), ("rpc", .obj c.rpc.fields), ("client", .obj c.client.fields)]

def SessionConfig.toToml (c : SessionConfig) : Outcome String :=
  match Toml.render? c.fields with
  | some text => .ok text
  | none => .error (.tomlWrite "unsupported unit type")

end LanguageClient.Config
