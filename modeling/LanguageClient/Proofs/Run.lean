import LanguageClient.Client.New
/-!
Runs of a client. A move is one thing that the user, the peer or the clock brings about, with all
that the handlers make of it; a run is any sequence of moves from a client that has done nothing yet.
Nothing is assumed of the peer: what it sends, when its link fails or ends, and whether an attempt
finds a link is up to the moves.
-/
namespace LanguageClient.Client
open Transport Json Session

inductive Move where
  /-- The schedule, the clock, the operations under way and the peer become anything at all. -/
  | around (t : State)
  | note (n : Note)
  | finished (operation : Nat) (outcome : Outcome Value)
  | listen (topic : Topic) (handler : Handler) (name : String)
  | unlisten (name : String)
  -- connections
  | connect
  | found (generation link : Nat)
  | missed (generation : Nat) (e : Fault)
  | disconnect
  | send (frame : String)
  | read (generation : Nat) (item : Outcome String)
  | readEnd (generation : Nat)
  | readerStops (generation : Nat)
  | write (generation : Nat)
  | failWrite (generation : Nat) (text : String)
  | closeSink (generation : Nat)
  | tick (generation : Nat)
  -- requests
  | notify (method : String) (params : Option Value)
  | request (method : String) (params : Value) (options : CallOptions)
  | hear (frame : String)
  | watch (id : Int)
  | lapse (id : Int)
  | cancelToken (token : String)
  | abandon (id : Int)
  | collect (id : Int)
  | abort (reason : String)
  | dropEngine
  -- the session
  | beginInitialize
  | completeInitialize (outcome : Outcome Value)
  | initialized
  | beginShutdown
  | completeShutdown (outcome : Outcome Value)
  | didOpen (item : TextItem)
  | openFile (path : String) (contents : Outcome String)
  | didChange (uri : Uri) (text : String) (edits : List ContentChange)
  | didSave (uri : Uri) (text : Option String)
  | didClose (uri : Uri)
  | feature (f : Schema.Feature) (params : Value) (token : Option String)

namespace State

/-- The state among the surroundings of another. -/
def among (t s : State) : State :=
  { t with
    transport := s.transport, engine := s.engine, session := s.session
    handles := s.handles, journal := s.journal }

/-- The reader takes an item off its stream, unless it has been told to stop. -/
def readItem (g : Nat) (item : Outcome String) (s : State) : State :=
  if s.reading g then
    match item with
    | .ok frame => s.readFrame g frame
    | .error e => s.failReading g e
  else s

/-- The writer of a connection and the frames that are queued for it, while it writes. -/
def writing? (g : Nat) (s : State) : Option (List String) :=
  (s.connection? g).bind fun c => if c.writing then some c.queue else none

def writeItem (g : Nat) (s : State) : State :=
  match s.writing? g with
  | some (frame :: _) => (s.unqueue g).record (.written g frame)
  | _ => s

def failWrite (g : Nat) (text : String) (s : State) : State :=
  match s.writing? g with
  | some (_ :: _) => (s.unqueue g).failWriting g text
  | _ => s

/-- A watchdog whose deadline has passed may see that before it sees its token. -/
def lapse (id : Int) (s : State) : State :=
  match s.engine.watchdogs.get? id with
  | none => s
  | some w =>
    if w.deadline.any (· ≤ s.now) then (s.endWatchdog id).expire id w.timeout else s

end State

open State

def Move.apply (m : Move) (s : State) : State :=
  match m with
  | .around t => t.among s
  | .note n => s.record (.note n)
  | .finished operation outcome => s.record (.finished operation outcome)
  | .listen topic handler name => s.listen topic handler name
  | .unlisten name => (s.unlisten name).2
  | .connect => s.beginAttempt.2
  | .found g l => (s.completeAttempt g l).2
  | .missed g e => s.failAttempt g e
  | .disconnect => s.disconnect
  | .send frame => (s.send frame).2
  | .read g item => s.readItem g item
  | .readEnd g => if s.reading g then s.finishReading g else s
  | .readerStops g => if s.reading g then s else s.endReader g
  | .write g => s.writeItem g
  | .failWrite g text => s.failWrite g text
  | .closeSink g => if s.writing? g = some [] ∧ s.sendersGone g then s.finishWriting g else s
  | .tick g => s.runTicker g
  | .notify method params => (s.notify method params).2
  | .request method params options => (s.request method params options).2
  | .hear frame => s.handleFrame State.disconnect frame
  | .watch id => s.watch id
  | .lapse id => s.lapse id
  | .cancelToken token => s.cancelToken token
  | .abandon id => s.abandon id
  | .collect id => (s.collect id).elim s Prod.snd
  | .abort reason => (s.abortPending reason).2
  | .dropEngine => s.dropEngine
  | .beginInitialize => s.beginInitialize
  | .completeInitialize outcome => (s.completeInitialize outcome).2
  | .initialized => s.initialized.2
  | .beginShutdown => s.beginShutdown
  | .completeShutdown outcome => (s.completeShutdown outcome).2
  | .didOpen item => (s.didOpen item).2
  | .openFile path contents => (s.openFile path contents).2
  | .didChange uri text edits => (s.didChange uri text edits).2
  | .didSave uri text => (s.didSave uri text).2
  | .didClose uri => (s.didClose uri).2
  | .feature f params token => (s.feature f params token).2

def State.after (s : State) (moves : List Move) : State := moves.foldl (fun s m => m.apply s) s

theorem State.after_append (s : State) (moves more : List Move) :
    s.after (moves ++ more) = (s.after moves).after more := List.foldl_append

/-- What holds at the start and is kept by every move holds after every run. -/
theorem State.after_keeps {Q : State → Prop} (step : ∀ m s, Q s → Q (Move.apply m s)) {s : State}
    (hs : Q s) (moves : List Move) : Q (s.after moves) := by
  induction moves generalizing s with
  | nil => exact hs
  | cons m moves ih => exact ih (step m s hs)

theorem State.after_keeps_of {Q : State → Prop} {M : Move → Prop}
    (step : ∀ m s, M m → Q s → Q (Move.apply m s)) {s : State} (hs : Q s) {moves : List Move}
    (hm : ∀ m ∈ moves, M m) : Q (s.after moves) := by
  induction moves generalizing s with
  | nil => exact hs
  | cons m moves ih =>
    exact ih (step m s (hm m List.mem_cons_self) hs) fun k hk => hm k (List.mem_cons_of_mem m hk)

end LanguageClient.Client
