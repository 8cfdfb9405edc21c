import LanguageClient.Client.Connection
import LanguageClient.Path
import LanguageClient.Schema.Features
import LanguageClient.Session.TextSync
/-!
The session: the handshake that opens it and the one that closes it, the notifications that keep
documents in step, and the feature requests. The session keeps track of its lifecycle without
enforcing it.
-/
namespace LanguageClient.Client.State
open Json Session

def modifySession (f : Conversation → Conversation) (s : State) : State :=
  { s with session := f s.session }

def setLifecycle (l : Lifecycle) (s : State) : State :=
  s.modifySession (fun c => { c with lifecycle := l })

def beginInitialize (s : State) : State :=
  (if s.session.lifecycle = .uninitialized then s else s.warn "initialize sent again").setLifecycle
    .initializing

/-- Records what the server has answered, and gives its capabilities. -/
def completeInitialize (outcome : Outcome Value) (s : State) : Outcome Value × State :=
  match outcome with
  | .error e => (.error e, s.setLifecycle .uninitialized)
  | .ok result =>
    let caps := Capabilities.ofResult result
    let (kind, notes) := caps.syncKind
    let info := (result.get? "serverInfo").bind Schema.serverInfo
    (.ok (.obj caps), (notes.foldl (fun s text => s.warn text) s).modifySession (fun c => { c with
      capabilities := some caps
      syncKind := kind
      serverInfo := info }))

def initialized (s : State) : Outcome Unit × State :=
  match s.notify "initialized" (some (.obj [])) with
  | (.ok _, s) => (.ok (), s.setLifecycle .ready)
  | (.error e, s) => (.error e, s)

def beginShutdown (s : State) : State := s.setLifecycle .shuttingDown

/-- Whatever became of the shutdown request, the server is told to exit, and the documents are
forgotten. -/
def completeShutdown (outcome : Outcome Value) (s : State) : Outcome Unit × State :=
  let s := match outcome with
    | .ok _ => s
    | .error _ => s.warn "shutdown request failed, sending exit anyway"
  let (exit, s) := s.notify "exit" none
  (outcome.bind (fun _ => exit), (s.modifySession (fun c => { c with
    lifecycle := .shutdown
    documents := [] })).record .shutDown)

def announceOpen (item : TextItem) (s : State) : Outcome Unit × State :=
  s.notify "textDocument/didOpen" (some (didOpenParams item))

def recordOpen (item : TextItem) (s : State) : State :=
  s.modifySession (fun c => { c with
    documents := c.documents.opened item.uri.text item.languageId item.version })

def didOpen (item : TextItem) (s : State) : Outcome Unit × State :=
  match s.announceOpen item with
  | (.ok _, s) => (.ok (), s.recordOpen item)
  | (.error e, s) => (.error e, s)

/-- Opens a file at its first version, given what reading it gave. -/
def openFile (path : String) (contents : Outcome String) (s : State) : Outcome Uri × State :=
  match contents, Path.toUri path with
  | .error e, _ => (.error e, s)
  | .ok _, .error e => (.error e, s)
  | .ok text, .ok uri =>
    match s.didOpen ⟨uri, Path.detectLanguage path, 1, text⟩ with
    | (.ok _, s) => (.ok uri, s)
    | (.error e, s) => (.error e, s)

/-- Tracks the version that a change has brought a document to. -/
def recordChange (uri : Uri) (version : Int) (s : State) : State :=
  s.modifySession (fun c => { c with
    documents :=
      if c.documents.contains uri.text then c.documents.withVersion uri.text version
      else c.documents.opened uri.text (Path.detectLanguage uri.text) version })

/-- Sends a change in the form that the server takes, and gives the version sent, if any. -/
def didChange (uri : Uri) (text : String) (edits : List ContentChange) (s : State) :
    Outcome (Option Int) × State :=
  match shapeChange s.session.syncKind text edits with
  | none => (.ok none, s)
  | some changes =>
    let (version, s) := match s.session.documents.nextVersion? uri.text with
      | some version => (version, s)
      | none => (1, s.warn "change for a document that was never opened")
    match s.notify "textDocument/didChange" (some (didChangeParams uri version changes)) with
    | (.ok _, s) => (.ok (some version), s.recordChange uri version)
    | (.error e, s) => (.error e, s)

def didSave (uri : Uri) (text : Option String) (s : State) : Outcome Unit × State :=
  let included := s.session.capabilities.any Capabilities.saveIncludesText
  s.notify "textDocument/didSave" (some (didSaveParams uri text included))

def didClose (uri : Uri) (s : State) : Outcome Unit × State :=
  match s.notify "textDocument/didClose" (some (didCloseParams uri)) with
  | (.ok _, s) =>
    (.ok (), s.modifySession (fun c => { c with documents := c.documents.closed uri.text }))
  | (.error e, s) => (.error e, s)

/-- The first request before the session is ready gives a warning. -/
def warnIfNotReady (s : State) : State :=
  if s.session.lifecycle.isReady || s.session.warned then s
  else
    (s.modifySession (fun c => { c with warned := true })).warn
      "request sent before the initialized notification"

/-- Issues the request of a feature. -/
def feature (f : Schema.Feature) (params : Value) (token : Option String) (s : State) :
    Int × State :=
  s.warnIfNotReady.request f.method params ⟨token, none⟩

end LanguageClient.Client.State
