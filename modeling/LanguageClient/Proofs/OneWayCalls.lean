import LanguageClient.Proofs.DocumentHistory
import LanguageClient.Proofs.Lifecycle
import LanguageClient.Proofs.Representation
/-!
The calls of a session that send a notification and wait for no answer. Each hands its frame over
before it takes note of anything, so that a call that fails has changed nothing, and a call that
succeeds has had exactly one frame accepted.
-/
namespace LanguageClient.Client
open Transport Rpc Json Session

/-- A call that sends a notification. By the time that a file is opened it has been read, or not. -/
inductive OneWay where
  | initialized
  | didOpen (item : TextItem)
  | openFile (path : String) (contents : Outcome String)
  | didChange (uri : Uri) (text : String) (edits : List ContentChange)
  | didSave (uri : Uri) (text : Option String)
  | didClose (uri : Uri)

namespace State

def accepted (s : State) : List String := s.journal.filterMap Entry.accepted?

/-- Why a frame would be refused. -/
def refusal? (s : State) : Option Fault :=
  if s.transport.state = .opened then none
  else some (.transport ("cannot send while " ++ s.transport.state.name))

/-- Hands a notification over, and changes the session once that has been accepted. -/
def announce (method : String) (params : Option Value) (f : Conversation → Conversation)
    (s : State) : Outcome Unit × State :=
  match s.notify method params with
  | (.ok _, s) => (.ok (), s.modifySession f)
  | (.error e, s) => (.error e, s)

end State

open State

namespace OneWay

/-- What a call comes to, whatever it gives when it succeeds. -/
def call (c : OneWay) (s : State) : Outcome Unit × State :=
  match c with
  | initialized => s.initialized
  | didOpen item => s.didOpen item
  | openFile path contents => (s.openFile path contents).map (Except.map fun _ => ()) id
  | didChange uri text edits => (s.didChange uri text edits).map (Except.map fun _ => ()) id
  | didSave uri text => s.didSave uri text
  | didClose uri => s.didClose uri

def method : OneWay → String
  | initialized => "initialized"
  | didOpen _ | openFile .. => "textDocument/didOpen"
  | didChange .. => "textDocument/didChange"
  | didSave .. => "textDocument/didSave"
  | didClose _ => "textDocument/didClose"

/-- A change that the server does not want to hear of. -/
def isSilent (s : State) : OneWay → Bool
  | didChange .. => s.session.syncKind == .none
  | _ => false

/-- Why there is nothing to open: the file cannot be read, or its path has no URI. -/
def fileFault? : OneWay → Option Fault
  | openFile path contents =>
    match contents with
    | .error e => some e
    | .ok _ =>
      match Path.toUri path with
      | .error e => some e
      | .ok _ => none
  | _ => none

/-- Why a call fails. -/
def obstacle? (c : OneWay) (s : State) : Option Fault :=
  c.fileFault?.or (if c.isSilent s then none else s.refusal?)

end OneWay

/-- Nothing has changed; at most the log says more, and no frame was accepted. -/
def Untouched (s t : State) : Prop :=
  ∃ more, t = { s with journal := s.journal ++ more } ∧ ∀ e ∈ more, e.accepted? = none

/-- One frame was accepted: it is the last that waits for the writer of the open connection. Nothing else
has happened to the transport, and nothing to the requests and to what has been negotiated. -/
structure Delivered (frame : String) (s t : State) : Prop where
  accepted : t.accepted = s.accepted ++ [frame]
  opened : s.transport.state = .opened
  queued : ∃ c, s.connection? s.transport.generation = some c ∧ c.writing = true ∧
    t.connection? s.transport.generation = some { c with queue := c.queue ++ [frame] }
  transport : t.transport = (s.modifyConnection s.transport.generation fun c =>
    { c with queue := c.queue ++ [frame] }).transport
  engine : t.engine = s.engine
  negotiated : t.session.negotiated = s.session.negotiated

variable {s t u : State}

theorem Untouched.accepted (h : Untouched s t) : t.accepted = s.accepted := by
  obtain ⟨more, rfl, hm⟩ := h
  have hnone : more.filterMap Entry.accepted? = [] := List.filterMap_eq_nil_iff.mpr hm
  rw [State.accepted, List.filterMap_append, hnone, List.append_nil]
  rfl

theorem Untouched.trans (h : Untouched s t) (k : Untouched t u) : Untouched s u := by
  obtain ⟨more, rfl, hm⟩ := h
  obtain ⟨further, rfl, hf⟩ := k
  exact ⟨more ++ further, by rw [List.append_assoc], List.forall_mem_append.mpr ⟨hm, hf⟩⟩

theorem Untouched.refl (s : State) : Untouched s s := ⟨[], by rw [List.append_nil], nofun⟩

theorem untouched_record {e : Entry} (h : e.accepted? = none) (s : State) :
    Untouched s (s.record e) := ⟨[e], rfl, List.forall_mem_singleton.mpr h⟩

theorem Untouched.refusal (h : Untouched s t) : t.refusal? = s.refusal? := by
  obtain ⟨_, rfl, _⟩ := h
  rfl

theorem Untouched.fit (h : Untouched s t) (hs : Fit s) : Fit t := by
  obtain ⟨_, rfl, _⟩ := h
  exact ⟨hs.1, hs.2, hs.3, hs.4⟩

theorem Delivered.after {frame : String} (h : Untouched s t) (k : Delivered frame t u) :
    Delivered frame s u := by
  have haccepted := h.accepted
  obtain ⟨_, rfl, _⟩ := h
  exact ⟨by rw [k.accepted, haccepted], k.opened, k.queued, k.transport, k.engine, k.negotiated⟩

/-- A notification has been handed over: it was refused and nothing has changed, or it was accepted. -/
def Announced (method : String) (s : State) (r : Outcome Unit × State) : Prop :=
  match s.refusal? with
  | some e => r.1 = .error e ∧ Untouched s r.2
  | none => r.1 = .ok () ∧ ∃ params, Delivered (Notification.new method params).wire s r.2

theorem Announced.after {method : String} {r : Outcome Unit × State} (h : Untouched s t)
    (k : Announced method t r) : Announced method s r := by
  unfold Announced at k ⊢
  rw [h.refusal] at k
  split at k
  · exact ⟨k.1, h.trans k.2⟩
  · obtain ⟨hr, params, hd⟩ := k
    exact ⟨hr, params, hd.after h⟩

/-- As the frame goes first, a call that announces something does all of it or nothing. -/
theorem Fit.announce (hs : Fit s) (method : String) (params : Option Value)
    {f : Conversation → Conversation} (hf : ∀ c, (f c).negotiated = c.negotiated) :
    Announced method s (s.announce method params f) := by
  unfold Announced State.refusal? State.announce State.notify
  obtain ⟨g, ready, hopen, ho, hsend⟩ | ⟨hclosed, hsend⟩ :=
    State.send_cases (Notification.new method params).wire s
  · rw [hs.outbound, if_pos hopen] at ho
    obtain rfl := Option.some.inj ho
    obtain ⟨c, hc, hw⟩ := hs.writer hopen
    rw [if_pos hopen, hsend]
    refine ⟨rfl, params, ?_, hopen, ⟨c, hc, hw, ?_⟩, rfl, rfl, hf _⟩
    · exact List.filterMap_append ..
    · exact (connection?_modify ..).trans (by rw [if_pos rfl, hc]; rfl)
  · have hopen : s.transport.state ≠ .opened := fun h =>
      hclosed _ h (by rw [hs.outbound, if_pos h])
    rw [if_neg hopen, hsend]
    exact ⟨rfl, untouched_record rfl s⟩

theorem didSave_eq_announce (uri : Uri) (text : Option String) (s : State) :
    s.didSave uri text = s.announce "textDocument/didSave" (some (didSaveParams uri text
      (s.session.capabilities.any Capabilities.saveIncludesText))) id := by
  unfold State.didSave State.announce
  simp only
  rcases s.notify _ _ with ⟨_ | _, t⟩ <;> rfl

/-- A file that could be read is opened as a document of its own. -/
theorem openFile_eq_didOpen {path text : String} {uri : Uri} (h : Path.toUri path = .ok uri)
    (s : State) : (s.openFile path (.ok text)).map (Except.map fun _ => ()) id =
      s.didOpen ⟨uri, Path.detectLanguage path, 1, text⟩ := by
  unfold State.openFile
  simp only [h]
  rcases s.didOpen ⟨uri, Path.detectLanguage path, 1, text⟩ with ⟨_ | _, t⟩ <;> rfl

theorem Fit.didOpen (hs : Fit s) (item : TextItem) :
    Announced "textDocument/didOpen" s (s.didOpen item) :=
  hs.announce "textDocument/didOpen" _ (f := fun c => { c with
    documents := c.documents.opened item.uri.text item.languageId item.version }) fun _ => rfl

/-- A change at its version, as it is announced. -/
def State.announceChange (uri : Uri) (version : Int) (changes : List ContentChange) (s : State) :
    Outcome Unit × State :=
  s.announce "textDocument/didChange" (some (didChangeParams uri version changes)) fun c =>
    { c with documents :=
      if c.documents.contains uri.text then c.documents.withVersion uri.text version
      else c.documents.opened uri.text (Path.detectLanguage uri.text) version }

/-- A change is announced at the version that is due, after what there is to warn of. -/
theorem didChange_eq_announce {uri : Uri} {text : String} {edits changes : List ContentChange}
    {s : State} (h : shapeChange s.session.syncKind text edits = some changes) :
    (s.didChange uri text edits).map (Except.map fun _ => ()) id =
      (s.forewarn uri.text).announceChange uri (s.nextVersion uri.text) changes := by
  rw [didChange_eq, State.announceChange, State.announce]
  simp only [h]
  rcases (s.forewarn uri.text).notify _ _ with ⟨_ | _, t⟩ <;> rfl

theorem Fit.didChange (hs : Fit s) (uri : Uri) (text : String) (edits : List ContentChange)
    (h : s.session.syncKind ≠ .none) : Announced "textDocument/didChange" s
      ((s.didChange uri text edits).map (Except.map fun _ => ()) id) := by
  obtain ⟨changes, hc⟩ : ∃ changes, shapeChange s.session.syncKind text edits = some changes := by
    cases hk : s.session.syncKind with
    | none => exact absurd hk h
    | full => exact ⟨_, rfl⟩
    | incremental => exact ⟨_, rfl⟩
  have hwarned : Untouched s (s.forewarn uri.text) := by
    obtain hsame | hwarn := s.forewarn_cases uri.text
    · rw [hsame]
      exact .refl s
    · rw [hwarn]
      exact untouched_record rfl s
  have hannounced : Announced "textDocument/didChange" (s.forewarn uri.text)
      ((s.forewarn uri.text).announceChange uri (s.nextVersion uri.text) changes) :=
    (hwarned.fit hs).announce _ _ fun _ => rfl
  rw [didChange_eq_announce hc]
  exact hannounced.after hwarned

theorem OneWay.call_of_isSilent {c : OneWay} (h : c.isSilent s = true) : c.call s = (.ok (), s) := by
  cases c with
  | didChange uri text edits =>
    have hkind : s.session.syncKind = .none := by simpa [isSilent] using h
    unfold call State.didChange
    simp only [hkind]
    rfl
  | _ => cases h

/-- What a call comes to: it fails for what is in its way and has changed nothing; or nothing is in its
way, and one frame was accepted, unless there was nothing to send. -/
def OneWay.AllOrNothing (c : OneWay) (s : State) : Prop :=
  match c.obstacle? s with
  | some e => (c.call s).1 = .error e ∧ Untouched s (c.call s).2
  | none => (c.call s).1 = .ok () ∧
    if c.isSilent s then (c.call s).2 = s
    else ∃ params, Delivered (Notification.new c.method params).wire s (c.call s).2

theorem OneWay.call_of_fileFault? {c : OneWay} {e : Fault} (h : c.fileFault? = some e) (s : State) :
    c.call s = (.error e, s) := by
  unfold fileFault? at h
  split at h
  · rename_i path contents
    unfold call State.openFile
    simp only
    split at h
    · cases h
      rfl
    · split at h
      · rename_i huri
        cases h
        simp only [huri]
        rfl
      · cases h
  · cases h

theorem OneWay.allOrNothing_of_fileFault? {c : OneWay} {e : Fault} (h : c.fileFault? = some e)
    (s : State) : c.AllOrNothing s := by
  unfold AllOrNothing obstacle?
  rw [h, call_of_fileFault? h]
  exact ⟨rfl, .refl s⟩

theorem Fit.announced (hs : Fit s) (c : OneWay) (hc : c.isSilent s = false)
    (hf : c.fileFault? = none) : Announced c.method s (c.call s) := by
  cases c with
  | initialized =>
    exact hs.announce "initialized" _ (f := fun c => { c with lifecycle := .ready }) fun _ => rfl
  | didOpen item => exact hs.didOpen item
  | openFile path contents =>
    unfold OneWay.fileFault? at hf
    simp only at hf
    split at hf
    · cases hf
    · split at hf
      · cases hf
      · rename_i uri huri
        unfold OneWay.call
        simp only [openFile_eq_didOpen huri]
        exact hs.didOpen _
  | didChange uri text edits => exact hs.didChange uri text edits (by simpa [OneWay.isSilent] using hc)
  | didSave uri text =>
    unfold OneWay.call
    simp only [didSave_eq_announce]
    exact hs.announce _ _ fun _ => rfl
  | didClose uri =>
    exact hs.announce "textDocument/didClose" _
      (f := fun c => { c with documents := c.documents.closed uri.text }) fun _ => rfl

theorem Fit.allOrNothing (hs : Fit s) (c : OneWay) : c.AllOrNothing s := by
  cases hf : c.fileFault? with
  | some e => exact c.allOrNothing_of_fileFault? hf s
  | none =>
    unfold OneWay.AllOrNothing OneWay.obstacle?
    rw [hf]
    cases hc : c.isSilent s with
    | true =>
      rw [OneWay.call_of_isSilent hc]
      exact ⟨rfl, rfl⟩
    | false => exact hs.announced c hc hf

def OneWay.move : OneWay → Move
  | initialized => .initialized
  | didOpen item => .didOpen item
  | openFile path contents => .openFile path contents
  | didChange uri text edits => .didChange uri text edits
  | didSave uri text => .didSave uri text
  | didClose uri => .didClose uri

theorem OneWay.move_apply (c : OneWay) (s : State) : c.move.apply s = (c.call s).2 := by
  cases c <;> rfl

/-- After every run, each of these calls does all of it or nothing. It fails exactly if its file cannot be
opened or there is no open connection for what it has to send; then the log and the offer that was
refused are all that has been added, and the whole client is otherwise as it was. It succeeds with
exactly one frame accepted for the open connection, or with nothing done at all if it is a change and
the server takes none. -/
theorem one_way_all_or_nothing (layer : Layer) (options : Options) (timeout : Nat)
    (moves : List Move) (c : OneWay) :
    let s := (State.new layer options timeout).after moves
    c.AllOrNothing s ∧ c.move.apply s = (c.call s).2 := by
  intro s
  have hs : Fit s := State.after_keeps Fit.move (fit_new layer options timeout) moves
  exact ⟨hs.allOrNothing c, c.move_apply s⟩

/-- Nothing can be announced before there is a connection. -/
example : OneWay.initialized.obstacle? (State.new .session .standard 30000) =
    some (.transport "cannot send while disconnected") := by decide

end LanguageClient.Client
