import LanguageClient.Client.State
/-!
Requests and how they settle. A request is entered in the table of pending requests, its frame is
handed over, and a watchdog is started and attached to the entry. Whoever removes the entry settles
the request, so that it settles once: a response, its deadline, its token, an abort, or the failure
to send it.
-/
namespace LanguageClient.Client.State
open Rpc Json

def modifyEngine (f : Engine → Engine) (s : State) : State := { s with engine := f s.engine }

/-- The operation that waits for a request. -/
def awaiting? (s : State) (id : Int) : Option Nat :=
  (s.operations.find? (fun o =>
    match o.2 with
    | .negotiate _ _ call => call == some id
    | .shutdown call => call == some id
    | .launch _ (.negotiating call) => call == id
    | .launch _ (.connecting _) | .connect .. => false)).map Prod.fst

/-- Removes an entry and stops the watchdog that is attached to it. -/
def remove (id : Int) (entry : Pending) (s : State) : State :=
  s.modifyEngine (fun e => { e with
    pending := e.pending.erase id
    watchdogs := if entry.guarded then e.watchdogs.erase id else e.watchdogs })

def conclude (id : Int) (outcome : Outcome Value) (s : State) : State :=
  let s := (s.modifyEngine (fun e => { e with outcomes := e.outcomes.put id outcome })).record
    (.settled id outcome)
  match s.awaiting? id with
  | some n => s.wake (.operation n)
  | none => s

/-- Settles a request, unless it has settled. -/
def settle (id : Int) (outcome : Pending → Outcome Value) (s : State) : State :=
  match s.engine.pending.get? id with
  | none => s
  | some entry => (s.remove id entry).conclude id (outcome entry)

def notify (method : String) (params : Option Value) (s : State) : Outcome Unit × State :=
  s.send (Notification.new method params).wire

def cancelMethod : String := "$/cancelRequest"

def cancelParams (id : Int) : Value := .obj [("id", .int id)]

def expire (id : Int) (timeout : Nat) (s : State) : State :=
  (s.record (.lapsed id)).settle id (fun entry => .error (.timeout entry.method timeout))

/-- The token of a request has been cancelled: the peer is told, whether or not it can be. -/
def cancel (id : Int) (s : State) : State :=
  let s := s.record (.revoked id)
  match s.engine.pending.get? id with
  | none => s
  | some entry =>
    ((s.remove id entry).notify cancelMethod (some (cancelParams id))).2.conclude id
      (.error (.cancelled entry.method))

/-- A response settles the pending request that its id names, if that is a number. -/
def resolve (r : Response) (s : State) : State :=
  let s := s.record (.answered r)
  match r.id with
  | some (.number id) => s.settle id (fun _ => r.outcome)
  | _ => s

/-- Settles every pending request with a transport fault and tells how many they were. -/
def abortPending (reason : String) (s : State) : Nat × State :=
  let s := s.record (.gaveUp reason)
  let ids := (s.engine.pending.keys).mergeSort
  (ids.length, ids.foldl (fun s id => s.settle id (fun _ => .error (.transport reason))) s)

/-- Forgets a request whose caller has gone. -/
def abandon (id : Int) (s : State) : State :=
  let s := (s.record (.abandoned id)).modifyEngine (fun e => { e with
    outcomes := e.outcomes.erase id })
  match s.engine.pending.get? id with
  | none => s
  | some entry => s.remove id entry

/-- The deadline of a request: its own, or that of the engine. -/
def effectiveTimeout (options : CallOptions) (s : State) : Nat :=
  options.timeout.getD s.engine.requestTimeout

/-- Takes the next id and enters the request in the table. -/
def enter (method : String) (options : CallOptions) (s : State) : Int × State :=
  let id := s.engine.nextId
  (id, (s.modifyEngine (fun e => { e with
    nextId := id + 1
    pending := e.pending.put id ⟨method, false⟩ })).record
      (.issued id method (s.effectiveTimeout options) options.token))

def tokenCancelled (options : CallOptions) (s : State) : Bool :=
  match options.token with
  | some t => s.engine.cancelled.contains t
  | none => false

/-- Hands the frame over; a request whose frame is refused settles with the refusal. -/
def handOver (id : Int) (method : String) (params : Value) (s : State) : Bool × State :=
  match s.send (Request.new id method (encodeParams params)).wire with
  | (.ok _, s) => (true, s)
  | (.error e, s) => (false, (s.record (.unsent id e)).settle id (fun _ => .error e))

def guard (id : Int) (options : CallOptions) (s : State) : State :=
  (s.modifyEngine (fun e => { e with
    watchdogs := e.watchdogs.put id ⟨s.effectiveTimeout options, options.token, none⟩ })).wake
      (.watchdog id)

/-- Attaches the watchdog to the entry of its request, or stops it when there is none any more. -/
def attach (id : Int) (s : State) : State :=
  s.modifyEngine (fun e =>
    if e.pending.contains id then
      { e with pending := e.pending.modify id (fun p => { p with guarded := true }) }
    else { e with watchdogs := e.watchdogs.erase id })

/-- Issues a request. A token that has been cancelled already settles it without a frame. -/
def request (method : String) (params : Value) (options : CallOptions) (s : State) :
    Int × State :=
  let (id, s) := s.enter method options
  if s.tokenCancelled options then
    (id, (s.record (.withdrawn id)).settle id (fun p => .error (.cancelled p.method)))
  else
    match s.handOver id method params with
    | (false, s) => (id, s)
    | (true, s) => (id, (s.guard id options).attach id)

def endWatchdog (id : Int) (s : State) : State :=
  s.modifyEngine (fun e => { e with watchdogs := e.watchdogs.erase id })

/-- A watchdog looks at its token and at its deadline, and waits on if neither calls. -/
def watch (id : Int) (s : State) : State :=
  match s.engine.watchdogs.get? id with
  | none => s
  | some w =>
    let deadline := w.deadline.getD (s.now + w.timeout)
    if s.tokenCancelled ⟨w.token, none⟩ then (s.endWatchdog id).cancel id
    else if deadline ≤ s.now then (s.endWatchdog id).expire id w.timeout
    else if w.deadline.isSome then s
    else
      (s.modifyEngine (fun e => { e with
        watchdogs := e.watchdogs.put id { w with deadline := some deadline } })).setAlarm deadline
        (.watchdog id)

/-- Cancels a token for good; the watchdogs that look at it get their turn in the order of ids. -/
def cancelToken (token : String) (s : State) : State :=
  if s.engine.cancelled.contains token then s
  else
    let s := s.modifyEngine (fun e => { e with cancelled := e.cancelled ++ [token] })
    let watching := s.engine.watchdogs.filter (fun (w : Int × Watchdog) => w.2.token == some token)
    ((Keyed.keys watching).mergeSort).foldl (fun s id => s.wake (.watchdog id)) s

end LanguageClient.Client.State
