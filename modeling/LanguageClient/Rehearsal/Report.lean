import LanguageClient.Rehearsal.Step
/-!
What is reported after a step: its reply, and everything that happened since the last report.
-/
namespace LanguageClient.Rehearsal
open Client Json

structure Report where
  reply : Reply
  sent : List String
  /-- What handlers heard and what came of their actions. -/
  heard : List Entry
  /-- The calls that settled, by id. -/
  settled : List (Int × Outcome Value)
  tasks : List (Nat × Outcome Value)
  log : List Note
  peerClosed : Option Bool
  state : Option Transport.ConnectionState
  pending : Option Nat
  lifecycle : Option Lifecycle

/-- An entry that reports what a handler heard or did. -/
def isHeard : Entry → Bool
  | .heard .. | .notified .. | .diagnosed .. | .sent _ | .announced _ | .aborted _ => true
  | _ => false

def note? : Entry → Option Note
  | .note n => some n
  | _ => none

def finished? : Entry → Option (Nat × Outcome Value)
  | .finished n o => some (n, o)
  | _ => none

namespace Stage

/-- The outcome of a call as the type that its caller asked for. -/
def decoded (result : Schema.Shape) (o : Outcome Value) : Outcome Value :=
  o.bind fun v =>
    match result v with
    | some w => .ok w.canonical
    | none => .error (.json "the result has another type")

def settledCalls (st : Stage) : List (Int × Outcome Value) :=
  (st.calls.filterMap (fun (c : Int × Schema.Shape) =>
    (st.client.engine.outcomes.get? c.1).map fun o => (c.1, decoded c.2 o))).mergeSort
      (fun a b => a.1 ≤ b.1)

/-- Forgets the calls that have been reported as settled. -/
def forget (ids : List Int) (st : Stage) : Stage :=
  { st with
    calls := st.calls.filter (fun c => !ids.contains c.1)
    client := st.client.modifyEngine (fun e => { e with
      outcomes := e.outcomes.filter (fun o => !ids.contains o.1) }) }

def sessionHeld (st : Stage) : Bool :=
  !st.client.released || st.client.operations.any (fun o => State.keepsSession o.2)

def report (reply : Reply) (st : Stage) : Report × Stage :=
  let entries := st.client.journal.drop st.reported
  let (sent, client) := st.client.peerTake
  let closed := client.peerSeesEnd
  let settled := st.settledCalls
  let st' := forget (settled.map Prod.fst)
    { st with client, reported := st.client.journal.length, peerClosed := closed }
  (⟨reply, sent, entries.filter isHeard, settled,
    (entries.filterMap finished?).mergeSort (fun a b => a.1 ≤ b.1), entries.filterMap note?,
    if closed = st.peerClosed then none else some closed,
    if client.released then none else some client.transport.state,
    if st.layer = .transport || !st.sessionHeld then none else some client.engine.pending.length,
    if st.layer = .session && !client.released then some client.session.lifecycle else none⟩, st')

/-- Takes a step and lets everything that is ready run. A step that is not awaited is only taken;
what comes of it is reported with a later one. -/
def take (step : Step) (awaited : Bool) (st : Stage) : Reply × Option Report × Stage :=
  let (reply, st) := st.perform step
  if awaited then
    let (r, st) := { st with client := st.client.rest }.report reply
    (reply, some r, st)
  else (reply, none, st)

end Stage

end LanguageClient.Rehearsal
