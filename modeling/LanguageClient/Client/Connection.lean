import LanguageClient.Client.Dispatch
/-!
Connections: how an attempt becomes one, and the reader, the writer and the ticker that serve it.
-/
namespace LanguageClient.Client.State

/-- Makes a link to the peer. The peer lets go of both its ends of the link before. -/
def makeLink (s : State) : Nat × State :=
  let l := s.peer.links.length
  let s := match s.peer.reads with
    | some old => s.modifyLink old (fun k => { k with peerReads := false, toPeer := [] })
    | none => s
  let s := match s.peer.writes with
    | some old =>
      let s := s.modifyLink old (fun k => { k with peerWrites := false })
      match s.generationOf? old with
      | some g => s.wake (.reader g)
      | none => s
    | none => s
  (l, { s with peer := { s.peer with
    reads := some l
    writes := some l
    links := s.peer.links.put l ⟨[], true, true, [], true, true⟩ } })

/-- Both of the client's ends of a link are dropped. -/
def dropLink (l : Nat) (s : State) : State :=
  s.modifyLink l (fun k => { k with clientWrites := false, clientReads := false, toClient := [] })

def abortedAttempt : Fault := .transport "connection attempt aborted by disconnect"

def refusedAttempt : Fault := .transport "connection refused by peer"

/-- Starts an attempt, unless there is a connection or an attempt at one already. -/
def beginAttempt (s : State) : Option Nat × State :=
  if s.transport.state == .disconnected then
    let g := s.transport.generation + 1
    (some g, s.modifyTransport (fun t => { t with state := .connecting, generation := g }))
  else (none, s)

/-- The attempt is the present one and nobody has called it off. -/
def isAttempting (g : Nat) (s : State) : Bool :=
  s.transport.generation == g && s.transport.state == .connecting

/-- The attempt found no link. -/
def failAttempt (g : Nat) (e : Fault) (s : State) : State :=
  if s.isAttempting g then
    (s.modifyTransport (fun t => { t with state := .disconnected })).emit g (.failed e.message)
  else s

/-- Puts a connection over a link into service. -/
def establish (g l : Nat) (s : State) : State :=
  let ticks := s.transport.options.keepaliveMs.isSome
  let s := s.modifyTransport (fun t => { t with
    state := .opened
    outbound := some g
    tasks := .reader g :: (if ticks then [.ticker g] else [])
    connections := t.connections.put g
      ⟨l, [], true, .running, if ticks then .running else .ended, none⟩ })
  let s := (s.wake (.writer g)).wake (.reader g)
  if ticks then s.wake (.ticker g) else s

/-- The attempt found a link: it becomes the connection, unless it was called off meanwhile. -/
def completeAttempt (g l : Nat) (s : State) : Outcome Unit × State :=
  if s.isAttempting g then (.ok (), (s.establish g l).emit g .opened)
  else (.error abortedAttempt, s.dropLink l)

def reachPeer (g : Nat) (s : State) : Outcome Unit × State :=
  match s.peer.refusal with
  | some e => (.error e, s.failAttempt g e)
  | none =>
    let (l, s) := s.makeLink
    s.completeAttempt g l

def endReader (g : Nat) (s : State) : State :=
  match s.connection? g with
  | none => s
  | some c =>
    (s.modifyConnection g (fun c => { c with reader := .ended })).modifyLink c.link
      (fun k => { k with clientReads := false, toClient := [] })

def reading (g : Nat) (s : State) : Bool :=
  match s.connection? g with
  | some c => c.reader == .running
  | none => false

/-- The peer will send nothing more over a link. -/
def peerDone (l : Nat) (s : State) : Bool :=
  match s.link? l with
  | some k => !k.peerWrites
  | none => true

def readFrame (g : Nat) (frame : String) (s : State) : State :=
  (s.record (.received g (.ok frame))).emit g (.message frame)

def failReading (g : Nat) (e : Fault) (s : State) : State :=
  ((s.record (.received g (.error e))).failConnection g e.message).endReader g

def finishReading (g : Nat) (s : State) : State :=
  ((s.record (.streamEnded g)).shut (some g) .byPeer).endReader g

/-- Dispatches what has arrived over a link, one item after the other, as long as nobody stops the
reader. -/
def readItems (g l : Nat) : List (Outcome String) → State → State
  | [], s =>
    if !s.reading g then s.endReader g
    else if s.peerDone l then s.finishReading g
    else s
  | item :: rest, s =>
    if !s.reading g then s.endReader g
    else
      let s := s.modifyLink l (fun k => { k with toClient := rest })
      match item with
      | .ok frame => readItems g l rest (s.readFrame g frame)
      | .error e => s.failReading g e

def runReader (g : Nat) (s : State) : State :=
  match s.connection? g with
  | none => s
  | some c =>
    if c.reader = .ended then s
    else readItems g c.link (((s.link? c.link).map Link.toClient).getD []) s

/-- The writer lets go of the link; what it has not written is lost. -/
def endWriter (g : Nat) (s : State) : State :=
  match s.connection? g with
  | none => s
  | some c =>
    (s.modifyConnection g (fun c => { c with writing := false, queue := [] })).modifyLink c.link
      (fun k => { k with clientWrites := false })

/-- Nobody can queue frames for a connection any more. -/
def sendersGone (g : Nat) (s : State) : Bool :=
  s.transport.outbound != some g &&
    match s.connection? g with
    | some c => c.ticker == .ended
    | none => true

/-- Puts a frame on a link, or says why that fails. -/
def deliverFrame (l : Nat) (frame : String) (s : State) : Except String State :=
  match s.peer.writeFault, s.link? l with
  | some reason, _ => .error reason
  | none, some k =>
    if k.peerReads then .ok (s.modifyLink l (fun k => { k with toPeer := k.toPeer ++ [frame] }))
    else .error "send failed because receiver is gone"
  | none, none => .error "send failed because receiver is gone"

def unqueue (g : Nat) (s : State) : State :=
  s.modifyConnection g (fun c => { c with queue := c.queue.tail })

def failWriting (g : Nat) (text : String) (s : State) : State :=
  ((s.record (.writeFailed g text)).failConnection g text).endWriter g

def finishWriting (g : Nat) (s : State) : State := (s.endWriter g).record (.sinkClosed g)

/-- Writes what is queued for a connection, in order. -/
def writeFrames (g l : Nat) : List String → State → State
  | [], s => if s.sendersGone g then s.finishWriting g else s
  | frame :: rest, s =>
    let s := s.unqueue g
    match s.deliverFrame l frame with
    | .ok s => writeFrames g l rest (s.record (.written g frame))
    | .error reason => s.failWriting g (Fault.transport reason).message

def runWriter (g : Nat) (s : State) : State :=
  match s.connection? g with
  | none => s
  | some c => if c.writing then writeFrames g c.link c.queue s else s

def endTicker (g : Nat) (s : State) : State :=
  let s := s.modifyConnection g (fun c => { c with ticker := .ended })
  if s.transport.outbound == some g then s else s.wake (.writer g)

/-- Queues the frames of the ticks that are due, every so many milliseconds from `due` on. -/
def queueTicks (g : Nat) : List Nat → State → State
  | [], s => s
  | due :: rest, s =>
    queueTicks g rest (((s.modifyConnection g (fun c =>
      { c with queue := c.queue ++ [s.transport.options.keepaliveFrame] })).wake (.writer g)).record
        (.keptAlive g due))

/-- The ticks due by `now`, the first of them at `due`. -/
def ticksDue (every due now : Nat) : List Nat :=
  if now < due then []
  else (List.range ((now - due) / every + 1)).map (fun i => due + i * every)

def tick (g every : Nat) (c : Connection) (s : State) : State :=
  match c.nextTick with
  | none =>
    (s.modifyConnection g (fun c => { c with nextTick := some (s.now + every) })).setAlarm
      (s.now + every) (.ticker g)
  | some due =>
    let ticks := ticksDue every due s.now
    let next := due + ticks.length * every
    let s := queueTicks g ticks s
    if ticks.isEmpty then s
    else (s.modifyConnection g (fun c => { c with nextTick := some next })).setAlarm next (.ticker g)

/-- A ticker cannot tick at no interval: it ends at once. -/
def runTicker (g : Nat) (s : State) : State :=
  match s.connection? g, s.transport.options.keepaliveMs with
  | some c, some every =>
    match c.ticker with
    | .ended => s
    | .stopping => s.endTicker g
    | .running =>
      if every = 0 then s.endTicker g else tick g every c s
  | _, _ => s

end LanguageClient.Client.State
