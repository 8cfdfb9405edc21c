import LanguageClient.CommandLine.Commands
import LanguageClient.Transport.WebSocket
/-!
The program. It looks up the files that the arguments and the environment name, runs the command on
them, and prints what that gives. No server can be started from here.
-/
namespace LanguageClient.Program
open CommandLine

/-- What a path was found to lead to. -/
abbrev Finding := String × Except String (String × Files.Entry)

def lookAt (path : String) : IO Finding := do
  try
    let place ← IO.FS.realPath path
    let entry ← if ← place.isDir then pure Files.Entry.directory
      else pure (Files.Entry.file (← IO.FS.readBinFile place).toList)
    return (path, .ok (place.toString, entry))
  catch _ =>
    return (path, .error Files.Entry.noSuchFile)

/-- The variables that the program knows, as far as they are set. -/
def readEnvironment : IO Environment := do
  let names := [Config.pathVariable, logLevelVariable, logJsonVariable, "XDG_CONFIG_HOME", "HOME"]
  let found ← names.mapM fun name => do
    return (← IO.getEnv name).map (name, ·)
  return found.filterMap id

/-- The paths that a run with these arguments may look at. -/
def paths (environment : Environment) (arguments : List String) : List String :=
  let user := ((userDirectory environment).map Config.userFile).toList
  match read environment arguments with
  | .error _ => []
  | .ok a =>
    let file := match a.command with
      | .symbols file => [file]
      | _ => []
    a.config.toList ++ [Config.fileName] ++ user ++ file

/-- A server cannot be started. -/
def unreachable (c : Config.SessionConfig) : Outcome Rehearsal.Server :=
  match c.transport.kind with
  | .stdio =>
    .error (.spawnFailed (c.transport.command.getD "") "Function not implemented (os error 38)")
  | .websocket =>
    .error (Transport.WebSocket.connectFault (c.transport.url.getD "")
      "IO error: Function not implemented (os error 38)")

def known (findings : List Finding) (path : String) : Except String (String × Files.Entry) :=
  (findings.lookup path).getD (.error Files.Entry.noSuchFile)

def knownEntry (findings : List Finding) (path : String) : Files.Entry :=
  match known findings path with
  | .ok (_, entry) => entry
  | .error _ => .missing

end LanguageClient.Program

open LanguageClient LanguageClient.CommandLine LanguageClient.Program

def main (arguments : List String) : IO UInt32 := do
  let environment ← readEnvironment
  let here ← IO.FS.realPath "."
  let findings ← (paths environment arguments).mapM lookAt
  let ending := CommandLine.run
    { workingDirectory := here.toString
      lookup := knownEntry findings
      resolve := known findings
      environment
      processId := 1
      reach := unreachable } arguments
  IO.print ending.output
  IO.eprint ending.errors
  return UInt32.ofNat ending.code
