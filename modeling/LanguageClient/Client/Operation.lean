import LanguageClient.Client.Session
/-!
Operations that wait: for the peer to let an attempt go on, or for a request to settle. Each turn
of an operation takes it as far as it gets; an operation that has ended is no longer listed.
-/
namespace LanguageClient.Client.State
open Json

/-- An unfinished operation keeps the session. -/
def keepsSession : Operation → Bool
  | .connect _ keeps => keeps
  | .negotiate .. | .launch .. | .shutdown _ => true

/-- The engine goes: it hears no more frames, and what is pending will not settle otherwise. -/
def dropEngine (s : State) : State :=
  let s := match s.engine.inbound with
    | some reg => s.modifyTransport (fun t => { t with hub := t.hub.unsubscribe reg })
    | none => s
  ((s.modifyEngine (fun e => { e with inbound := none })).abortPending
    "engine dropped before the request settled").2

/-- The session goes with the last operation that needs it, the transport with the last of all. -/
def dropUnneeded (s : State) : State :=
  if !s.released then s
  else if s.operations.any (fun o => keepsSession o.2) then s
  else
    let s := s.dropEngine
    if s.operations.isEmpty then s.disconnect else s

/-- The user lets go of the client. -/
def release (s : State) : State := { s with released := true }.dropUnneeded

/-- Starts an operation; it gets its first turn after what is ready already. -/
def start (op : Operation) (s : State) : Nat × State :=
  let n := s.lastOperation + 1
  (n, { s with lastOperation := n, operations := s.operations.put n op }.wake (.operation n))

def finish (n : Nat) (outcome : Outcome Value) (s : State) : State :=
  ({ s with operations := s.operations.erase n }.record (.finished n outcome)).dropUnneeded

def unitOutcome (outcome : Outcome Unit) : Outcome Value := outcome.map (fun _ => .null)

def putOperation (n : Nat) (op : Operation) (s : State) : State :=
  { s with operations := s.operations.put n op }

/-- What a turn of an attempt comes to. -/
inductive AttemptTurn where
  | waiting (attempt : Attempt)
  | done (outcome : Outcome Unit)

def reach (g : Nat) (s : State) : AttemptTurn × State :=
  let (r, s) := s.reachPeer g
  (.done r, s)

/-- One turn of an attempt. With a connection or an attempt there already, nothing is to be done. -/
def turnAttempt (attempt : Attempt) (s : State) : AttemptTurn × State :=
  match attempt with
  | .fresh =>
    match s.beginAttempt with
    | (none, s) => (.done (.ok ()), s)
    | (some g, s) => if s.peer.holds then (.waiting (.held g), s) else s.reach g
  | .held g => (.waiting (.held g), s)
  | .released g none => s.reach g
  | .released g (some text) => (.done (.error (.transport text)), s.failAttempt g (.transport text))

/-- The attempt of an operation waits for the peer. -/
def waitForPeer (n : Nat) (op : Operation) (s : State) : State :=
  let s := s.putOperation n op
  if s.peer.waiting.contains n then s
  else { s with peer := { s.peer with waiting := s.peer.waiting ++ [n] } }

/-- Takes the outcome of a request, if it has settled. -/
def collect (id : Int) (s : State) : Option (Outcome Value × State) :=
  (s.engine.outcomes.get? id).map fun outcome =>
    (outcome, s.modifyEngine (fun e => { e with outcomes := e.outcomes.erase id }))

def runConnect (n : Nat) (attempt : Attempt) (keeps : Bool) (s : State) : State :=
  match s.turnAttempt attempt with
  | (.waiting attempt, s) => s.waitForPeer n (.connect attempt keeps)
  | (.done outcome, s) => s.finish n (unitOutcome outcome)

def launchFault (what : String) (e : Fault) : Fault := .initFailed (what ++ " failed: " ++ e.message)

/-- The server has answered: the session is ready once that has been announced. -/
def completeLaunch (outcome : Outcome Value) (s : State) : Outcome Unit × State :=
  match s.completeInitialize outcome with
  | (.error e, s) => (.error (launchFault "initialize request" e), s)
  | (.ok _, s) =>
    let (r, s) := s.initialized
    (r.mapError (launchFault "initialized notification"), s)

def awaitLaunch (n : Nat) (id : Int) (s : State) : State :=
  match s.collect id with
  | none => s
  | some (outcome, s) =>
    let (r, s) := s.completeLaunch outcome
    s.finish n (unitOutcome r)

/-- The connection is there: the request that negotiates goes out, if it has parameters. -/
def negotiateLaunch (n : Nat) (params : Outcome Value) (s : State) : State :=
  match params with
  | .error e => s.finish n (.error e)
  | .ok p =>
    let (id, s) := s.beginInitialize.request "initialize" p CallOptions.none
    (s.putOperation n (.launch params (.negotiating id))).awaitLaunch n id

def runLaunch (n : Nat) (params : Outcome Value) (phase : LaunchPhase) (s : State) : State :=
  match phase with
  | .negotiating id => s.awaitLaunch n id
  | .connecting attempt =>
    match s.turnAttempt attempt with
    | (.waiting attempt, s) => s.waitForPeer n (.launch params (.connecting attempt))
    | (.done (.error e), s) => s.finish n (.error e)
    | (.done (.ok _), s) => s.negotiateLaunch n params

def awaitInitialize (n : Nat) (id : Int) (s : State) : State :=
  match s.collect id with
  | none => s
  | some (outcome, s) =>
    let (r, s) := s.completeInitialize outcome
    s.finish n r

def awaitShutdown (n : Nat) (id : Int) (s : State) : State :=
  match s.collect id with
  | none => s
  | some (outcome, s) =>
    let (r, s) := s.completeShutdown outcome
    s.finish n (unitOutcome r)

def runOperation (n : Nat) (s : State) : State :=
  match s.operations.get? n with
  | none => s
  | some (.connect attempt keeps) => s.runConnect n attempt keeps
  | some (.launch params phase) => s.runLaunch n params phase
  | some (.negotiate params options none) =>
    let (id, s) := s.beginInitialize.request "initialize" params options
    (s.putOperation n (.negotiate params options (some id))).awaitInitialize n id
  | some (.negotiate _ _ (some id)) => s.awaitInitialize n id
  | some (.shutdown none) =>
    let (id, s) := s.beginShutdown.request "shutdown" .null CallOptions.none
    (s.putOperation n (.shutdown (some id))).awaitShutdown n id
  | some (.shutdown (some id)) => s.awaitShutdown n id

end LanguageClient.Client.State
