import LanguageClient.Client.Schedule
/-!
What the peer of an in-memory link can do, and what it can make of connection attempts.
-/
namespace LanguageClient.Client.State

def modifyPeer (f : Peer → Peer) (s : State) : State := { s with peer := f s.peer }

/-- The reader of the connection over a link has something to look at. -/
def wakeReader (l : Nat) (s : State) : State :=
  match s.generationOf? l with
  | some g => s.wake (.reader g)
  | none => s

/-- Puts a frame or a failure on the way to the client, and tells whether a link took it. -/
def peerPut (item : Outcome String) (s : State) : Bool × State :=
  match s.peer.writes with
  | none => (false, s)
  | some l =>
    match s.link? l with
    | none => (false, s)
    | some k =>
      if k.clientReads then
        (true, (s.modifyLink l (fun k => { k with toClient := k.toClient ++ [item] })).wakeReader l)
      else (false, s)

def peerSend (frame : String) (s : State) : Bool × State := s.peerPut (.ok frame)

def peerFail (reason : String) (s : State) : Bool × State := s.peerPut (.error (.transport reason))

def peerClose (s : State) : State :=
  match s.peer.writes with
  | none => s
  | some l =>
    ((s.modifyPeer (fun p => { p with writes := none })).modifyLink l
      (fun k => { k with peerWrites := false })).wakeReader l

/-- The frames that have reached the peer, which takes them. -/
def peerTake (s : State) : List String × State :=
  match s.peer.reads with
  | none => ([], s)
  | some l =>
    (((s.link? l).map Link.toPeer).getD [], s.modifyLink l (fun k => { k with toPeer := [] }))

def peerSeesEnd (s : State) : Bool :=
  match s.peer.reads.bind s.link? with
  | some k => !k.clientWrites && k.toPeer.isEmpty
  | none => false

def setHold (on : Bool) (s : State) : State := s.modifyPeer (fun p => { p with holds := on })

def setRefusal (refusal : Option Fault) (s : State) : State := s.modifyPeer (fun p => { p with refusal })

def setWriteFault (reason : Option String) (s : State) : State :=
  s.modifyPeer (fun p => { p with writeFault := reason })

/-- The operation goes on from an attempt that waits. -/
def letGo (failure : Option String) : Operation → Option Operation
  | .connect (.held g) keeps => some (.connect (.released g failure) keeps)
  | .launch params (.connecting (.held g)) => some (.launch params (.connecting (.released g failure)))
  | _ => none

/-- Lets the oldest attempt that waits go on or fail, and tells whether one waited. -/
def releaseAttempt (failure : Option String) (s : State) : Bool × State :=
  match s.peer.waiting with
  | [] => (false, s)
  | n :: rest =>
    let s := s.modifyPeer (fun p => { p with waiting := rest })
    match (s.operations.get? n).bind (letGo failure) with
    | some op => (true, (s.putOperation n op).wake (.operation n))
    | none => (true, s)

end LanguageClient.Client.State
