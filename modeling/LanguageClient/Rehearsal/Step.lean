import LanguageClient.Client.New
import LanguageClient.Client.Peer
/-!
The steps of a rehearsal: what the user, the peer and the clock do, and what each of them gives.
-/
namespace LanguageClient.Rehearsal
open Client Json Session

inductive Step where
  | connect (keepsSession : Bool)
  | disconnect
  | send (frame : String)
  | transportOptions
  | advance (ms : Nat)
  | hold (on : Bool)
  | release (failure : Option String)
  | failWrites (reason : Option String)
  | peerSend (frame : String)
  | peerFail (reason : String)
  | peerClose
  | peerRefuse (on : Bool)
  | peerConnections
  | subscribe (topic : Topic) (raw : Bool) (name : String) (actions : List Action)
  | unsubscribe (name : String)
  | drop
  | request (method : String) (params : Value) (options : CallOptions) (result : Schema.Shape)
  | notify (method : String) (params : Value)
  | subscriberCount (method : String)
  | cancel (token : String)
  | dropCall (id : Int)
  | abort (reason : String)
  | abortOnClose (name : String)
  | negotiate (params : Outcome Value) (options : CallOptions)
  | initialized
  | shutdown
  | didOpen (item : TextItem)
  | didChange (uri : Uri) (text : String) (edits : List ContentChange)
  | didSave (uri : Uri) (text : Option String)
  | didClose (uri : Uri)
  | openFile (path : String)
  | document (uri : Uri)
  | info
  | onDiagnostics (name : String)
  | feature (f : Schema.Feature) (params : Value) (token : Option String)
  /-- A step that could not be read; its complaint is all it gives. -/
  | unreadable (kind : String)

/-- What a session tells of itself. -/
structure Info where
  lifecycle : Lifecycle
  syncKind : SyncKind
  serverInfo : Option Value
  capabilities : Option Capabilities

inductive Reply where
  | nothing
  | flag (b : Bool)
  | count (n : Nat)
  | outcome (o : Outcome Value)
  | task (n : Nat)
  | call (id : Int) (method : String)
  | options (o : Transport.Options)
  | document (d : Option Document)
  | info (i : Info)
  | complaint (kind : String)

/-- A client on stage, with the calls that the user waits for and what has been reported. -/
structure Stage where
  layer : Layer
  client : State
  calls : Keyed Int Schema.Shape
  reported : Nat
  peerClosed : Bool
  files : String → Outcome String

namespace Stage

def act (f : State → State) (st : Stage) : Reply × Stage :=
  (.nothing, { st with client := f st.client })

def ask (f : State → α × State) (reply : α → Reply) (st : Stage) : Reply × Stage :=
  let (a, client) := f st.client
  (reply a, { st with client })

def tell (reply : Reply) (st : Stage) : Reply × Stage := (reply, st)

def unit (o : Outcome Unit) : Reply := .outcome (o.map (fun _ => .null))

/-- Issues a request whose outcome the user waits for. -/
def call (method : String) (result : Schema.Shape) (issue : State → Int × State) (st : Stage) :
    Reply × Stage :=
  let (id, client) := issue st.client
  (.call id method, { st with client, calls := st.calls.put id result })

def perform (step : Step) (st : Stage) : Reply × Stage :=
  match step with
  | .connect keeps => st.ask (State.start (.connect .fresh keeps)) .task
  | .disconnect => st.act State.disconnect
  | .send frame => st.ask (State.send frame) unit
  | .transportOptions => st.tell (.options st.client.transport.options)
  | .advance ms => st.act (State.advance ms)
  | .hold on => st.act (State.setHold on)
  | .release failure => st.ask (State.releaseAttempt failure) .flag
  | .failWrites reason => st.act (State.setWriteFault reason)
  | .peerSend frame => st.ask (State.peerSend frame) .flag
  | .peerFail reason => st.ask (State.peerFail reason) .flag
  | .peerClose => st.act State.peerClose
  | .peerRefuse on => st.act (State.setRefusal (if on then some State.refusedAttempt else none))
  | .peerConnections => st.tell (.count st.client.peer.links.length)
  | .subscribe topic raw name actions =>
    st.act (State.listen topic (.user ⟨name, raw, actions⟩) name)
  | .unsubscribe name => st.ask (State.unlisten name) .flag
  | .drop => st.act State.release
  | .request method params options result => st.call method result (State.request method params options)
  | .notify method params => st.ask (State.notify method (Rpc.encodeParams params)) unit
  | .subscriberCount method => st.tell (.count (st.client.engine.topics.count method))
  | .cancel token => st.act (State.cancelToken token)
  | .dropCall id =>
    if st.calls.contains id then
      (.flag true, { st with calls := st.calls.erase id, client := st.client.abandon id })
    else st.tell (.flag false)
  | .abort reason => st.ask (State.abortPending reason) .count
  | .abortOnClose name => st.act (State.listen (.event .closed) .abortPending name)
  | .negotiate (.error e) _ => st.tell (.outcome (.error e))
  | .negotiate (.ok params) options => st.ask (State.start (.negotiate params options none)) .task
  | .initialized => st.ask State.initialized unit
  | .shutdown => st.ask (State.start (.shutdown none)) .task
  | .didOpen item => st.ask (State.didOpen item) unit
  | .didChange uri text edits =>
    st.ask (State.didChange uri text edits) (fun o => .outcome (o.map (Value.ofOption Value.int)))
  | .didSave uri text => st.ask (State.didSave uri text) unit
  | .didClose uri => st.ask (State.didClose uri) unit
  | .openFile path =>
    st.ask (State.openFile path (st.files path)) (fun o => .outcome (o.map (fun u => .str u.text)))
  | .document uri => st.tell (.document (st.client.session.documents.get? uri.text))
  | .info =>
    let c := st.client.session
    st.tell (.info ⟨c.lifecycle, c.syncKind, c.serverInfo, c.capabilities⟩)
  | .onDiagnostics name => st.act (State.listen (.method diagnosticsMethod) (.diagnostics name) name)
  | .feature f params token => st.call f.method f.result (State.feature f params token)
  | .unreadable kind => st.tell (.complaint kind)

end Stage

end LanguageClient.Rehearsal
