import LanguageClient.Proofs.Apart
/-!
The lifecycle of a session. Each move puts the session into one state or leaves it in the one that it
is in; what has been negotiated is replaced by a successful handshake alone. A failed handshake puts
the session back to the start, whatever state it was in before.
-/
namespace LanguageClient.Client
open Json Session

namespace Move

/-- The state that a move puts the session into, unless it leaves it as it was. -/
def puts? : Move → State → Option Lifecycle
  | .beginInitialize, _ => some .initializing
  | .completeInitialize (.error _), _ => some .uninitialized
  | .initialized, s =>
    match (s.notify "initialized" (some (.obj []))).1 with
    | .ok _ => some .ready
    | .error _ => none
  | .beginShutdown, _ => some .shuttingDown
  | .completeShutdown _, _ => some .shutdown
  | _, _ => none

/-- The move is the end of a handshake that the server has agreed to. -/
def negotiates : Move → Bool
  | .completeInitialize (.ok _) => true
  | _ => false

end Move

/-- What has been negotiated: the capabilities of the server, the form of changes, and who it is. -/
def Conversation.negotiated (c : Conversation) : Option Capabilities × SyncKind × Option Value :=
  (c.capabilities, c.syncKind, c.serverInfo)

namespace State

variable (s : State)

@[simp] theorem notify_session (method : String) (params : Option Value) :
    (s.notify method params).2.session = s.session := send_session _ s

theorem notify_result (method : String) (params : Option Value) :
    ∃ r t, s.notify method params = (r, t) ∧ t.session = s.session :=
  ⟨_, _, rfl, s.notify_session method params⟩

@[simp] theorem warn_session (text : String) : (s.warn text).session = s.session := rfl

@[simp] theorem record_session (e : Entry) : (s.record e).session = s.session := rfl

theorem apart_notify (method : String) (params : Option Value) :
    Apart fun s => (s.notify method params).2 := fun c tale s => by simp

theorem apart_request (method : String) (params : Value) (options : CallOptions) :
    Apart fun s => (s.request method params options).2 := fun c tale s => by simp

theorem warns_session (texts : List String) :
    (texts.foldl (fun s text => s.warn text) s).session = s.session := by
  induction texts generalizing s with
  | nil => rfl
  | cons text texts ih => exact ih _

theorem completeInitialize_ok_lifecycle (result : Value) :
    (s.completeInitialize (.ok result)).2.session.lifecycle = s.session.lifecycle := by
  simp [completeInitialize, modifySession, warns_session]

theorem beginInitialize_session :
    s.beginInitialize.session = { s.session with lifecycle := .initializing } := by
  unfold beginInitialize
  split <;> rfl

theorem initialized_session : s.initialized.2.session =
    { s.session with lifecycle := (Move.initialized.puts? s).getD s.session.lifecycle } := by
  obtain ⟨r, t, h, ht⟩ := s.notify_result "initialized" (some (.obj []))
  rw [initialized, Move.puts?, h]
  cases r <;> simp [setLifecycle, modifySession, ht]

theorem completeShutdown_session (outcome : Outcome Value) :
    (s.completeShutdown outcome).2.session =
      { s.session with lifecycle := .shutdown, documents := [] } := by
  cases outcome <;> simp [completeShutdown, modifySession]

theorem didOpen_session (item : TextItem) :
    ∃ documents, (s.didOpen item).2.session = { s.session with documents } := by
  obtain ⟨r, t, h, ht⟩ := s.notify_result "textDocument/didOpen" (some (didOpenParams item))
  rw [didOpen, announceOpen, h, ← ht]
  cases r <;> exact ⟨_, rfl⟩

theorem openFile_session (path : String) (contents : Outcome String) :
    ∃ documents, (s.openFile path contents).2.session = { s.session with documents } := by
  unfold openFile
  split
  · exact ⟨_, rfl⟩
  · exact ⟨_, rfl⟩
  · rename_i text uri _
    obtain ⟨documents, h⟩ := s.didOpen_session ⟨uri, Path.detectLanguage path, 1, text⟩
    refine ⟨documents, ?_⟩
    rw [← h]
    split <;> rename_i heq <;> rw [heq]

theorem didChange_session (uri : Uri) (text : String) (edits : List ContentChange) :
    ∃ documents, (s.didChange uri text edits).2.session = { s.session with documents } := by
  unfold didChange
  split
  · exact ⟨_, rfl⟩
  · rename_i changes _
    -- the warning about an unopened document, if there is one, comes before
    split
    rename_i version u hu
    have hus : u.session = s.session := by
      split at hu <;> cases hu <;> rfl
    obtain ⟨r, t, h, ht⟩ := u.notify_result "textDocument/didChange"
      (some (didChangeParams uri version changes))
    rw [h, ← hus, ← ht]
    cases r <;> exact ⟨_, rfl⟩

theorem didClose_session (uri : Uri) :
    ∃ documents, (s.didClose uri).2.session = { s.session with documents } := by
  obtain ⟨r, t, h, ht⟩ := s.notify_result "textDocument/didClose" (some (didCloseParams uri))
  rw [didClose, h, ← ht]
  cases r <;> exact ⟨_, rfl⟩

theorem feature_session (f : Schema.Feature) (params : Value) (token : Option String) :
    ∃ warned, (s.feature f params token).2.session = { s.session with warned } := by
  have h := (apart_request f.method params ⟨token, none⟩).session s.warnIfNotReady
  refine ⟨s.warnIfNotReady.session.warned, ?_⟩
  rw [feature, h, warnIfNotReady]
  split <;> rfl

end State

open State

/-- A move that is not the end of a successful handshake may touch the lifecycle, the warning and the
documents of the session, and the lifecycle as it is said to. -/
theorem Move.session_apply {m : Move} (h : m.negotiates = false) (s : State) :
    ∃ warned documents, (m.apply s).session = { s.session with
      lifecycle := (m.puts? s).getD s.session.lifecycle, warned, documents } := by
  cases hm : m.isOfSession with
  | false =>
    rw [(Move.apart hm).session s]
    cases m <;> first | exact ⟨_, _, rfl⟩ | cases hm
  | true =>
    cases m with
    | beginInitialize => exact ⟨_, _, s.beginInitialize_session⟩
    | completeInitialize outcome =>
      cases outcome with
      | error e => exact ⟨_, _, rfl⟩
      | ok result => cases h
    | initialized => exact ⟨_, _, s.initialized_session⟩
    | beginShutdown => exact ⟨_, _, rfl⟩
    | completeShutdown outcome => exact ⟨_, _, s.completeShutdown_session outcome⟩
    | didOpen item => exact ⟨_, s.didOpen_session item⟩
    | openFile path contents => exact ⟨_, s.openFile_session path contents⟩
    | didChange uri text edits => exact ⟨_, s.didChange_session uri text edits⟩
    | didSave uri text => exact ⟨_, _, s.notify_session _ _⟩
    | didClose uri => exact ⟨_, s.didClose_session uri⟩
    | feature f params token =>
      obtain ⟨warned, hw⟩ := s.feature_session f params token
      exact ⟨warned, _, hw⟩
    | note n => exact ⟨_, _, rfl⟩
    | _ => cases hm

/-- Every move puts the session into the state that it is said to put it into. -/
theorem Move.lifecycle_apply (m : Move) (s : State) :
    (m.apply s).session.lifecycle = (m.puts? s).getD s.session.lifecycle := by
  cases h : m.negotiates with
  | false =>
    obtain ⟨_, _, hs⟩ := Move.session_apply h s
    rw [hs]
  | true =>
    cases m with
    | completeInitialize outcome =>
      cases outcome with
      | ok result => exact s.completeInitialize_ok_lifecycle result
      | error e => cases h
    | _ => cases h

/-- Only the end of a successful handshake replaces what has been negotiated. -/
theorem Move.negotiated_apply {m : Move} (h : m.negotiates = false) (s : State) :
    (m.apply s).session.negotiated = s.session.negotiated := by
  obtain ⟨_, _, hs⟩ := Move.session_apply h s
  rw [hs]
  rfl

/-- The state that a session is left in by moves of which each may put it into another. -/
def Lifecycle.leftBy (l : Lifecycle) : List Move → State → Lifecycle
  | [], _ => l
  | m :: moves, s => leftBy ((m.puts? s).getD l) moves (m.apply s)

theorem State.lifecycle_after (s : State) (moves : List Move) :
    (s.after moves).session.lifecycle = s.session.lifecycle.leftBy moves s := by
  induction moves generalizing s with
  | nil => rfl
  | cons m moves ih =>
    rw [Lifecycle.leftBy, ← m.lifecycle_apply]
    exact ih (m.apply s)

theorem State.negotiated_after {moves : List Move} (h : ∀ m ∈ moves, m.negotiates = false)
    (s : State) : (s.after moves).session.negotiated = s.session.negotiated := by
  have step (m : Move) (t : State) (hm : m.negotiates = false)
      (ht : t.session.negotiated = s.session.negotiated) :
      (m.apply t).session.negotiated = s.session.negotiated := (Move.negotiated_apply hm t).trans ht
  exact State.after_keeps_of step rfl h

/-- However an `initialize` call fails, and whatever happens while its request is in flight, the caller
gets the failure, and the session is as it was found except that it is uninitialized. So what has been
negotiated stays; but the session is in the state that it was in before the call, or that other
operations have put it into meanwhile, only if that is the uninitialized one. -/
theorem failed_initialize_leaves_uninitialized (s : State) (params : Value) (options : CallOptions)
    (between : List Move) (e : Fault) (u : State)
    (failed : ((s.beginInitialize.request "initialize" params options).2.after between).collect
      (s.beginInitialize.request "initialize" params options).1 = some (.error e, u)) :
    let sent := (s.beginInitialize.request "initialize" params options).2
    let done := u.completeInitialize (.error e)
    let due := s.session.lifecycle.leftBy between sent
    done.1 = .error e ∧
      done.2 = { u with session := { (sent.after between).session with
        lifecycle := .uninitialized } } ∧
      ((∀ m ∈ between, m.negotiates = false) →
        done.2.session.negotiated = s.session.negotiated) ∧
      (sent.after between).session.lifecycle = Lifecycle.initializing.leftBy between sent ∧
      (done.2.session.lifecycle = due ↔ due = .uninitialized) := by
  intro sent done due
  have hu : u.session = (sent.after between).session := by
    obtain ⟨_, _, h⟩ := Option.map_eq_some_iff.mp failed
    cases h
    rfl
  have hsent : sent.session = { s.session with lifecycle := .initializing } :=
    ((apart_request "initialize" params options).session _).trans s.beginInitialize_session
  refine ⟨rfl, ?_, fun hb => ?_, ?_, eq_comm⟩
  · rw [← hu]
    rfl
  · calc done.2.session.negotiated
      _ = u.session.negotiated := rfl
      _ = (sent.after between).session.negotiated := by rw [hu]
      _ = sent.session.negotiated := sent.negotiated_after hb
      _ = s.session.negotiated := by rw [hsent]; rfl
  · rw [State.lifecycle_after, hsent]

def State.fault? (id : Int) (s : State) : Option Fault :=
  match s.engine.outcomes.get? id with
  | some (.error e) => some e
  | _ => none

theorem State.collect_of_fault? {id : Int} {s : State} {e : Fault} (h : s.fault? id = some e) :
    ∃ u, s.collect id = some (.error e, u) := by
  unfold fault? at h
  split at h
  · rename_i f hf
    cases h
    exact ⟨_, by rw [collect, hf]; rfl⟩
  · cases h

def handshake : List Move :=
  [.connect, .found 1 0, .beginInitialize, .request "initialize" (.obj []) .none,
    .hear "\x7b\"jsonrpc\":\"2.0\",\"id\":1,\"result\":\x7b\"capabilities\":\x7b\x7d\x7d\x7d",
    .collect 1, .completeInitialize (.ok (.obj [("capabilities", .obj [])])), .initialized]

def alreadyInitialized : Move :=
  .hear ("\x7b\"jsonrpc\":\"2.0\",\"id\":2,\"error\":" ++
    "\x7b\"code\":-32600,\"message\":\"already initialized\"\x7d\x7d")

def established : State := (State.new .session .standard 30000).after handshake

theorem established_refused :
    ((established.beginInitialize.request "initialize" (.obj []) .none).2.after [alreadyInitialized]).fault?
      (established.beginInitialize.request "initialize" (.obj []) .none).1 =
      some (.rpc ⟨-32600, "already initialized", none⟩) := by decide +kernel

/-- A ready session whose second handshake is refused is uninitialized from then on. -/
theorem refused_handshake_uninitialized : established.session.lifecycle = .ready ∧ ∃ u,
    ((established.beginInitialize.request "initialize" (.obj []) .none).2.after [alreadyInitialized]).collect
      (established.beginInitialize.request "initialize" (.obj []) .none).1 =
      some (.error (.rpc ⟨-32600, "already initialized", none⟩), u) ∧
    (u.completeInitialize (.error (.rpc ⟨-32600, "already initialized", none⟩))).2.session.lifecycle =
      .uninitialized := by
  obtain ⟨u, h⟩ := State.collect_of_fault? established_refused
  have hdone := failed_initialize_leaves_uninitialized established (.obj []) .none [alreadyInitialized] _ u h
  exact ⟨by decide +kernel, u, h, congrArg (fun t => t.session.lifecycle) hdone.2.1⟩

/-- So a failed handshake does not always leave the session in the state that it was in. -/
theorem failed_initialize_moves_lifecycle :
    ¬ ∀ (s : State) (params : Value) (options : CallOptions) (between : List Move) (e : Fault)
      (u : State), (∃ before, s = (State.new .session .standard 30000).after before) →
      ((s.beginInitialize.request "initialize" params options).2.after between).collect
        (s.beginInitialize.request "initialize" params options).1 = some (.error e, u) →
      (u.completeInitialize (.error e)).2.session.lifecycle = s.session.lifecycle.leftBy between
        (s.beginInitialize.request "initialize" params options).2 := by
  intro hall
  obtain ⟨u, h⟩ := State.collect_of_fault? established_refused
  have hkept := hall established (.obj []) .none [alreadyInitialized] _ u ⟨handshake, rfl⟩ h
  have hready : established.session.lifecycle.leftBy [alreadyInitialized]
    (established.beginInitialize.request "initialize" (.obj []) .none).2 = .ready := by decide +kernel
  rw [hready] at hkept
  cases hkept

end LanguageClient.Client
