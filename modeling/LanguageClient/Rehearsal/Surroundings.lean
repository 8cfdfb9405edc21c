import LanguageClient.Config.Load
import LanguageClient.Rehearsal.Server
import LanguageClient.Transport.WebSocket
/-!
What surrounds a client: files, and programs that are servers. Every other program fails to start,
for the reason that its path and its directory give, and nobody listens to WebSocket connections.
-/
namespace LanguageClient.Rehearsal
open Config Files

structure Surroundings where
  files : Tree
  programs : List (String × Server)

namespace Surroundings

/-- The directory in which a server starts. -/
def startDirectory (w : Surroundings) (root : Option String) : Except String Route :=
  match root with
  | none => .ok w.files.workingDirectory
  | some root =>
    (w.files.resolve root).bind fun place =>
    match w.files.entryAt place with
    | .directory => .ok place
    | _ => .error Entry.notDirectory

/-- Why a command that is no server does not start. A command without a slash is the name of a
program. -/
def complaint (w : Surroundings) (directory : Route) (command : String) : String :=
  if command.toList.contains '/' then
    match { w.files with workingDirectory := directory }.resolve command with
    | .ok _ => "Permission denied (os error 13)"
    | .error reason => reason
  else Entry.noSuchFile

/-- A text that no program can be given. -/
def holdsNul (s : String) : Bool := s.toList.contains '\x00'

def spawn (w : Surroundings) (c : SessionConfig) (command : String) : Except String Server :=
  let t := c.transport
  if holdsNul command || t.args.any holdsNul || c.client.root.any holdsNul ||
      t.env.any (fun e => holdsNul e.1 || holdsNul e.2) then
    .error "nul byte found in provided data"
  else
    (w.startDirectory c.client.root).bind fun directory =>
    match w.programs.lookup command with
    | some server => .ok server
    | none => .error (w.complaint directory command)

/-- The server that a configuration reaches, or why it reaches none. -/
def reach (w : Surroundings) (c : SessionConfig) : Outcome Server :=
  match c.transport.kind with
  | .stdio =>
    let command := c.transport.command.getD ""
    (w.spawn c command).mapError (Fault.spawnFailed command)
  | .websocket =>
    .error (Transport.WebSocket.connectFault (c.transport.url.getD "")
      "IO error: Connection refused (os error 111)")

end Surroundings

end LanguageClient.Rehearsal
