import LanguageClient.CommandLine.Arguments
import LanguageClient.CommandLine.Failure
import LanguageClient.Rehearsal.Exchange
/-!
The commands: what each of them prints, and what becomes of the server it talks to. Whatever has
been printed when a command fails stays printed.
-/
namespace LanguageClient.CommandLine
open Config Json Rehearsal

structure Site where
  workingDirectory : String
  lookup : String → Files.Entry
  /-- The place that a path leads to and what is there, or why the path leads nowhere. -/
  resolve : String → Except String (String × Files.Entry)
  environment : Environment
  processId : Nat
  /-- The server that a configuration reaches, or why it reaches none. -/
  reach : SessionConfig → Outcome Server

/-- A command runs among the files of a tree. -/
def Site.among (files : Files.Tree) (environment : Environment) (processId : Nat)
    (reach : SessionConfig → Outcome Server) : Site :=
  { workingDirectory := files.workingDirectory.path
    lookup := files.lookup
    resolve := fun path => (files.resolve path).map fun r => (r.path, files.entryAt r)
    environment, processId, reach }

/-- What a command leaves behind. -/
structure Ending where
  code : Nat
  output : String
  errors : String
  received : List Value

namespace Ending

def succeeded (output : String) (received : List Value) : Ending := ⟨0, output, "", received⟩

def failed (output : String) (f : Failure) (received : List Value) : Ending :=
  ⟨1, output, f.report, received⟩

def usage : String := "Usage: lspmux [OPTIONS] <COMMAND>\n"

/-- The command line made no sense. -/
def misused : Ending := ⟨2, "", usage, []⟩

end Ending

/-- The directory of a user's configurations. -/
def userDirectory (environment : Environment) : Option String :=
  match (environment.lookup "XDG_CONFIG_HOME").filter (fun d => d.startsWith "/") with
  | some d => some d
  | none =>
    ((environment.lookup "HOME").filter (fun d => !d.isEmpty)).map (fun d => d ++ "/.config")

def loadConfig (site : Site) (path : Option String) : Except Failure SessionConfig :=
  match path with
  | some path =>
    (load path (site.lookup path)).mapError
      (Failure.ofFault ("failed to load config from " ++ path))
  | none =>
    (loadDefault none (userDirectory site.environment) site.lookup).mapError
      (Failure.ofFault "failed to load configuration")

/-- Without a root of its own, a configuration has the working directory for it. -/
def withRoot (site : Site) (c : SessionConfig) : SessionConfig :=
  { c with client := { c.client with root := c.client.root.or (some site.workingDirectory) } }

def showConfig (c : SessionConfig) : Ending :=
  match c.toToml with
  | .ok text => .succeeded text []
  | .error e => .failed "" (.ofFault "failed to serialize configuration" e) []

/-- Ends the session, after which nothing more can go wrong. -/
def conclude (output : String) (x : Exchange) : Ending :=
  let (outcome, x) := x.shutdown
  let received := x.disconnect.server.received
  match outcome with
  | .ok _ => .succeeded output received
  | .error e => .failed output (.ofFault "language server shutdown failed" e) received

def failedStart : Fault → Failure := Failure.ofFault "failed to start language server session"

def announcement (s : Client.State) : Value :=
  .obj [("capabilities", .obj (s.session.capabilities.getD [])),
    ("server", s.session.serverInfo.getD .null), ("syncKind", .str s.session.syncKind.name)]

def capabilities (site : Site) (c : SessionConfig) : Ending :=
  match Exchange.start c site.processId (site.reach c) with
  | (.error e, x) => .failed "" (failedStart e) x.server.received
  | (.ok _, x) => conclude ((announcement x.client).pretty ++ "\n") x

/-- The symbols of a document, as the server's answer lists them. -/
def symbolsOf (uri : Uri) (x : Exchange) : Outcome Value × Exchange :=
  let params := .obj [("textDocument", .obj [("uri", .str uri.text)])]
  let (outcome, x) := x.call (Client.State.feature .documentSymbol params none)
  (outcome.bind fun v =>
    match Schema.Feature.documentSymbol.result v with
    | some w => .ok w
    | none =>
      .error (.json "data did not match any variant of untagged enum DocumentSymbolResponse"), x)

/-- Prints the symbols of the file at a place, in a session that has been started. -/
def printSymbols (path : String) (entry : Files.Entry) (x : Exchange) : Ending :=
  match x.act (Client.State.openFile path entry.text) with
  | (.error e, x) => .failed "" (.ofFault ("failed to open " ++ path) e) x.server.received
  | (.ok uri, x) =>
    match symbolsOf uri x with
    | (.error e, x) =>
      .failed "" (.ofFault "textDocument/documentSymbol failed" e) x.server.received
    | (.ok v, x) =>
      let (_, x) := x.act (Client.State.didClose uri)
      conclude (v.pretty ++ "\n") x

def symbols (site : Site) (c : SessionConfig) (file : String) : Ending :=
  match site.resolve file with
  | .error reason => .failed "" ⟨"cannot resolve " ++ file, [reason]⟩ []
  | .ok (path, entry) =>
    match Exchange.start c site.processId (site.reach c) with
    | (.error e, x) => .failed "" (failedStart e) x.server.received
    | (.ok _, x) => printSymbols path entry x

def runCommand (site : Site) (c : SessionConfig) : Command → Ending
  | .config => showConfig c
  | .capabilities => capabilities site c
  | .symbols file => symbols site c file

def run (site : Site) (arguments : List String) : Ending :=
  match read site.environment arguments with
  | .error .usage => .misused
  | .error (.version program) => .succeeded (program ++ " " ++ Session.clientVersion ++ "\n") []
  | .error (.help _) => .succeeded Ending.usage []
  | .ok a =>
    match loadConfig site a.config with
    | .error f => .failed "" f []
    | .ok c => runCommand site (withRoot site c) a.command

end LanguageClient.CommandLine
