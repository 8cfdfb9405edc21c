import LanguageClient.Client.New
import LanguageClient.Client.Peer
import LanguageClient.Rehearsal.Server
/-!
A client and a scripted server that talk until the client has what it waits for. Time passes only
when neither of them has anything left to do.
-/
namespace LanguageClient.Rehearsal
open Client Json Transport

structure Exchange where
  client : State
  server : Server

namespace Exchange

/-- More rounds than any exchange takes. -/
def roundLimit : Nat := 100000

/-- Everything that has been written reaches the other side, for at most so many rounds. -/
def deliver : Nat → Exchange → Exchange
  | 0, x => x
  | rounds + 1, x =>
    let (frames, client) := x.client.rest.peerTake
    let (notes, item, server) := (frames.foldl Server.receive x.server).next
    let client := notes.foldl (fun s text => s.warn text) client
    match item with
    | some item => deliver rounds ⟨(client.peerPut item).2, server⟩
    | none => if frames.isEmpty then ⟨client, server⟩ else deliver rounds ⟨client, server⟩

/-- Lets both sides go on, and the clock, until the client is done. -/
def await (done : State → Bool) : Nat → Exchange → Exchange
  | 0, x => x
  | rounds + 1, x =>
    let x := x.deliver roundLimit
    if done x.client then x
    else
      match x.client.nextAlarm? with
      | none => x
      | some time =>
        await done rounds { x with client := x.client.advance (time - x.client.now) }

/-- Does something at the client that takes no time. -/
def act (f : State → α × State) (x : Exchange) : α × Exchange :=
  let (a, client) := f x.client
  (a, { x with client })

def unfinished : Fault := .transport "the operation has not ended"

def run (start : State → Nat × State) (x : Exchange) : Outcome Value × Exchange :=
  let (n, x) := x.act start
  let x := x.await (fun s => !s.operations.contains n) roundLimit
  let ended := x.client.journal.findSome? fun e =>
    match e with
    | .finished m outcome => if m = n then some outcome else none
    | _ => none
  (ended.getD (.error unfinished), x)

def call (issue : State → Int × State) (x : Exchange) : Outcome Value × Exchange :=
  let (id, x) := x.act issue
  let x := x.await (fun s => s.engine.outcomes.contains id) roundLimit
  match x.client.collect id with
  | some (outcome, client) => (outcome, { x with client })
  | none => (.error unfinished, x)

/-- A client and the server that it will reach, or why it will reach none. -/
def between (client : State) (reached : Outcome Server) : Exchange :=
  match reached with
  | .ok server => ⟨client, server⟩
  | .error f => ⟨client.setRefusal (some f), .scripted []⟩

/-- Starts the session of a configuration, if the configuration can be used. -/
def start (c : Config.SessionConfig) (processId : Nat) (reached : Outcome Server) :
    Outcome Unit × Exchange :=
  match State.ofConfig c with
  | .error e => (.error e, ⟨State.describedBy c, .scripted []⟩)
  | .ok client =>
    let (outcome, x) := (between client reached).run (State.launch c processId)
    (outcome.map (fun _ => ()), x)

def shutdown (x : Exchange) : Outcome Unit × Exchange :=
  let (outcome, x) := x.run (State.start (.shutdown none))
  (outcome.map (fun _ => ()), x)

/-- Closes the connection; what had been accepted before still arrives. -/
def disconnect (x : Exchange) : Exchange :=
  { x with client := x.client.disconnect }.deliver roundLimit

def log (x : Exchange) : List Note := x.client.journal.filterMap fun e =>
  match e with
  | .note n => some n
  | _ => none

end Exchange

end LanguageClient.Rehearsal
