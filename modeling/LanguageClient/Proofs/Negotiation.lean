import LanguageClient.Proofs.OperationTurns
/-!
What a session has negotiated is always of one piece: however many handshakes there are, and however
they overlap and fail, the capabilities, the form of changes and the name of the server are those of one
result, which the last handshake to succeed has completed with.
-/
namespace LanguageClient

namespace Session
open Json

/-- The value under `textDocumentSync` says how changes are sent, itself or in its field `change`. -/
def Says (sync : Option Value) (kind : SyncKind) : Prop :=
  sync = some (.int kind.toWire) ∨
    ∃ options, sync = some (.obj options) ∧ Fields.get? options "change" = some (.int kind.toWire)

theorem SyncKind.ofWire?_eq_some {n : Int} {kind : SyncKind} :
    ofWire? n = some kind ↔ n = kind.toWire := by
  constructor
  · intro h
    unfold ofWire? at h
    split at h
    · cases h
      assumption
    · split at h
      · cases h
        assumption
      · split at h
        · cases h
          assumption
        · cases h
  · rintro rfl
    cases kind <;> rfl

/-- A number says a kind exactly if it is the number of that kind, so never if it is not whole. -/
theorem kind_of_number {n : Number} {kind : SyncKind} :
    (Value.num n).int64?.bind SyncKind.ofWire? = some kind ↔ Value.num n = .int kind.toWire := by
  cases n with
  | real x =>
    constructor
    · intro h
      cases h
    · intro h
      cases h
  | int i =>
    have hint : Value.num (.int i) = .int kind.toWire ↔ i = kind.toWire := by simp [Value.int]
    have hsmall : Limits.minInt64 ≤ kind.toWire ∧ kind.toWire ≤ Limits.maxInt64 := by
      cases kind <;> decide
    rw [hint, Value.int64?, Value.intBetween?]
    split
    · exact SyncKind.ofWire?_eq_some
    · rename_i hlarge
      constructor
      · intro h
        cases h
      · intro h
        exact absurd (h ▸ hsmall) hlarge

theorem syncKind_of_says {caps : Capabilities} {kind : SyncKind}
    (h : Says (Fields.get? caps "textDocumentSync") kind) : caps.syncKind.1 = kind := by
  have hread : caps.syncNumber.bind (·.bind SyncKind.ofWire?) = some kind := by
    unfold Capabilities.syncNumber
    obtain h | ⟨options, h, hc⟩ := h
    · rw [h]
      exact kind_of_number.mpr rfl
    · rw [h]
      simp only [hc]
      exact kind_of_number.mpr rfl
  obtain ⟨n, hn, hk⟩ := Option.bind_eq_some_iff.mp hread
  rw [Capabilities.syncKind, hn]
  simp only [hk]

theorem syncKind_of_unsaid {caps : Capabilities}
    (h : ∀ kind, ¬ Says (Fields.get? caps "textDocumentSync") kind) : caps.syncKind.1 = .full := by
  have hread (n : Option Int) (hn : caps.syncNumber = some n) (kind : SyncKind) :
      n.bind SyncKind.ofWire? ≠ some kind := by
    intro hk
    unfold Capabilities.syncNumber at hn
    split at hn
    · rename_i hget
      cases hn
      exact h kind (.inl (hget.trans (congrArg some (kind_of_number.mp hk))))
    · rename_i options hget
      split at hn
      · rename_i hchange
        cases hn
        exact h kind (.inr ⟨options, hget, hchange.trans (congrArg some (kind_of_number.mp hk))⟩)
      · cases hn
    · cases hn
  rw [Capabilities.syncKind]
  split
  · rfl
  · rename_i n hn
    split
    · rename_i kind hk
      exact absurd hk (hread n hn kind)
    · rfl

end Session

namespace Client
open Relation Transport Rpc Json Session

/-- What a session has negotiated when the server has answered with this result. -/
def agreement (result : Value) : Option Capabilities × SyncKind × Option Value :=
  (some (.ofResult result), (Capabilities.ofResult result).syncKind.1,
    (result.get? "serverInfo").bind Schema.serverInfo)

/-- What a session has negotiated is what this result says. -/
structure Derived (result : Value) (c : Conversation) : Prop where
  /-- The capabilities are the object of the result, or there are none. -/
  capabilities : c.capabilities = some (((result.get? "capabilities").bind Value.fields?).getD [])
  fields : ∀ field, c.capabilities.bind (Fields.get? · field) =
    (result.get? "capabilities").bind (·.get? field)
  said : ∀ kind, Says ((result.get? "capabilities").bind (·.get? "textDocumentSync")) kind →
    c.syncKind = kind
  unsaid : (∀ kind, ¬ Says ((result.get? "capabilities").bind (·.get? "textDocumentSync")) kind) →
    c.syncKind = .full
  serverInfo : c.serverInfo = (result.get? "serverInfo").bind Schema.serverInfo

theorem ofResult_eq (result : Value) : Capabilities.ofResult result =
    ((result.get? "capabilities").bind Value.fields?).getD [] := by
  unfold Capabilities.ofResult
  split
  · rename_i h
    rw [h]
    rfl
  · rename_i hno
    cases h : result.get? "capabilities" with
    | none => rfl
    | some v =>
      cases v with
      | obj fields => exact absurd h (hno fields)
      | _ => rfl

/-- Every field of the capabilities is the field that the result has under them. -/
theorem get?_ofResult (result : Value) (field : String) :
    Fields.get? (Capabilities.ofResult result) field =
      (result.get? "capabilities").bind (·.get? field) := by
  rw [ofResult_eq]
  cases result.get? "capabilities" with
  | none => rfl
  | some v => cases v <;> rfl

theorem derived_of_agreement {result : Value} {c : Conversation}
    (h : c.negotiated = agreement result) : Derived result c := by
  obtain ⟨hcaps, hrest⟩ := Prod.mk.inj h
  obtain ⟨hkind, hinfo⟩ := Prod.mk.inj hrest
  refine ⟨?_, fun field => ?_, fun kind hsays => ?_, fun hunsaid => ?_, hinfo⟩
  · rw [hcaps, ofResult_eq]
  · rw [hcaps]
    exact get?_ofResult result field
  · rw [hkind]
    rw [← get?_ofResult] at hsays
    exact syncKind_of_says hsays
  · rw [hkind]
    simp only [← get?_ofResult] at hunsaid
    exact syncKind_of_unsaid hunsaid

/-- The `initialize` request that an operation waits for. -/
def Operation.negotiation? : Operation → Option Int
  | .negotiate _ _ call => call
  | .launch _ (.negotiating call) => some call
  | _ => none

namespace State

/-- The result that a request has succeeded with, until it is collected. -/
def result? (s : State) (id : Int) : Option Value :=
  match s.engine.outcomes.get? id with
  | some (.ok result) => some result
  | _ => none

/-- The result that an operation completes its handshake with when it has its turn. -/
def agreed? (n : Nat) (s : State) : Option Value :=
  ((s.operations.get? n).bind Operation.negotiation?).bind s.result?

end State

/-- What was negotiated before, unless there is a new result. -/
def State.renegotiated (s : State) (result : Option Value) :
    Option Capabilities × SyncKind × Option Value :=
  (result.map agreement).getD s.session.negotiated

variable {s t : State} {timeout : Nat}

theorem completeInitialize_negotiated (outcome : Outcome Value) (s : State) :
    (s.completeInitialize outcome).2.session.negotiated = s.renegotiated outcome.toOption := by
  cases outcome with
  | error e => rfl
  | ok result => rfl

/-- Once an operation has collected the outcome of a request, it makes a result its own. -/
theorem collect_negotiated {id : Int} {next : Outcome Value × State → State}
    (hnext : ∀ outcome v, v.session = s.session →
      (next (outcome, v)).session.negotiated = v.renegotiated outcome.toOption) :
    ((s.collect id).elim s next).session.negotiated = s.renegotiated (s.result? id) := by
  rw [State.collect, State.result?]
  cases h : s.engine.outcomes.get? id with
  | none => rfl
  | some outcome =>
    refine (hnext outcome (s.modifyEngine fun e => { e with outcomes := e.outcomes.erase id }) rfl).trans ?_
    cases outcome <;> rfl

theorem awaitInitialize_negotiated (n : Nat) (id : Int) (s : State) :
    (s.awaitInitialize n id).session.negotiated = s.renegotiated (s.result? id) := by
  rw [awaitInitialize_eq]
  refine collect_negotiated fun outcome v _ => ?_
  change (State.finish n _ _).session.negotiated = _
  rw [finish_session]
  exact completeInitialize_negotiated outcome v

theorem completeLaunch_negotiated (outcome : Outcome Value) (s : State) :
    (s.completeLaunch outcome).2.session.negotiated = s.renegotiated outcome.toOption := by
  rw [← completeInitialize_negotiated, State.completeLaunch]
  obtain ⟨_ | _, t⟩ := s.completeInitialize outcome
  · rfl
  · have hready : t.initialized.2.session.negotiated = t.session.negotiated := by
      rw [t.initialized_session]
      rfl
    exact hready

theorem awaitLaunch_negotiated (n : Nat) (id : Int) (s : State) :
    (s.awaitLaunch n id).session.negotiated = s.renegotiated (s.result? id) := by
  rw [awaitLaunch_eq]
  refine collect_negotiated fun outcome v _ => ?_
  change (State.finish n _ _).session.negotiated = _
  rw [finish_session]
  exact completeLaunch_negotiated outcome v

theorem awaitShutdown_negotiated (n : Nat) (id : Int) (s : State) :
    (s.awaitShutdown n id).session.negotiated = s.session.negotiated := by
  rw [awaitShutdown_eq, State.collect]
  cases s.engine.outcomes.get? id with
  | none => rfl
  | some outcome =>
    change (State.finish n _ _).session.negotiated = _
    rw [finish_session, State.completeShutdown_session]
    rfl

theorem Sound.request_result? (hs : Sound timeout s) (method : String) (params : Value)
    (options : CallOptions) :
    (s.request method params options).2.result? (s.request method params options).1 = none := by
  rw [request_fst, State.result?]
  split
  · rename_i result h
    obtain ⟨e, he⟩ := hs.request_outcome method params options h
    cases he
  · rfl

theorem Sound.beginInitialize (hs : Sound timeout s) : Sound timeout s.beginInitialize :=
  hs.move .beginInitialize

theorem begun_negotiated (hs : Sound timeout s) (params : Value) (options : CallOptions)
    {f : Int → Operation} {n : Nat} {await : Nat → Int → State → State}
    (hawait : ∀ n id t, (await n id t).session.negotiated = t.renegotiated (t.result? id)) :
    let issued := s.beginInitialize.request "initialize" params options
    (await n issued.1 (issued.2.putOperation n (f issued.1))).session.negotiated =
      s.session.negotiated := by
  intro issued
  have hnone : (issued.2.putOperation n (f issued.1)).result? issued.1 = none :=
    hs.beginInitialize.request_result? "initialize" params options
  rw [hawait, hnone]
  change issued.2.session.negotiated = _
  rw [(beside_request "initialize" params options s.beginInitialize).session,
    s.beginInitialize_session]
  rfl

private theorem runConnect_session (n : Nat) (attempt : Attempt) (keeps : Bool) (s : State) :
    (s.runConnect n attempt keeps).session = s.session := by
  have hattempt := (beside_turnAttempt attempt s).session
  rw [State.runConnect]
  split <;> rename_i h <;> rw [h] at hattempt
  · exact (waitForPeer_session ..).trans hattempt
  · exact (finish_session ..).trans hattempt

private theorem runLaunch_negotiated (hs : Sound timeout s) (n : Nat) (params : Outcome Value)
    (phase : LaunchPhase) : (s.runLaunch n params phase).session.negotiated =
      s.renegotiated ((Operation.launch params phase).negotiation?.bind s.result?) := by
  cases phase with
  | negotiating id => exact awaitLaunch_negotiated n id s
  | connecting attempt =>
    have hattempt := (beside_turnAttempt attempt s).session
    have hsound := hs.works (works_turnAttempt attempt (Works.refl s))
    rw [State.runLaunch]
    split <;> rename_i h <;> rw [h] at hattempt hsound
    · exact congrArg Conversation.negotiated ((waitForPeer_session ..).trans hattempt)
    · exact congrArg Conversation.negotiated ((finish_session ..).trans hattempt)
    · refine Eq.trans ?_ (congrArg Conversation.negotiated hattempt)
      cases params with
      | error e => exact congrArg Conversation.negotiated (finish_session ..)
      | ok p =>
        exact begun_negotiated hsound p CallOptions.none (f := fun id => .launch (.ok p) (.negotiating id))
          awaitLaunch_negotiated

/-- What a turn of an operation makes of what has been negotiated. -/
theorem turn_negotiated (hs : Sound timeout s) (n : Nat) :
    (s.run (.operation n)).session.negotiated = s.renegotiated (s.agreed? n) := by
  rw [State.run, State.runOperation, State.agreed?]
  split <;> rename_i h <;> rw [h]
  · rfl
  · exact congrArg Conversation.negotiated (runConnect_session n _ _ s)
  · exact runLaunch_negotiated hs n _ _
  · rename_i params options
    exact begun_negotiated hs params options (f := fun id => .negotiate params options (some id))
      awaitInitialize_negotiated
  · exact awaitInitialize_negotiated n _ s
  · have hsent := (beside_request "shutdown" .null CallOptions.none s.beginShutdown).session
    refine (awaitShutdown_negotiated n _ _).trans ?_
    change (s.beginShutdown.request "shutdown" .null CallOptions.none).2.session.negotiated = _
    rw [hsent]
    rfl
  · exact awaitShutdown_negotiated n _ s

/-- The result that an occasion completes a handshake with. -/
def Occasion.agreed? : Occasion → State → Option Value
  | turn n, s => s.agreed? n
  | _, _ => none

/-- The results that handshakes complete with, one after the other. -/
def State.agreements (s : State) : List Occasion → List Value
  | [] => []
  | o :: occasions => (o.agreed? s).toList ++ (o.apply s).agreements occasions

theorem Occasion.negotiated_apply (hs : Sound timeout s) (o : Occasion) :
    (o.apply s).session.negotiated = s.renegotiated (o.agreed? s) := by
  cases o with
  | move m h =>
    have hm : m.negotiates = false := by
      cases m <;> first | rfl | cases h
    exact Move.negotiated_apply hm s
  | start op h => exact congrArg Conversation.negotiated (beside_wake _ _).session
  | turn n => exact turn_negotiated hs n
  | release failure =>
    obtain hbeside | ⟨_, _, _, _, _, _, _, hsession⟩ := releaseAttempt_cases failure s
    · exact congrArg Conversation.negotiated hbeside.session
    · exact congrArg Conversation.negotiated hsession

/-- What has been negotiated is what the last result says, if there has been one. -/
theorem State.negotiated_amid (hs : Sound timeout s) (occasions : List Occasion) :
    (s.amid occasions).session.negotiated = s.renegotiated (s.agreements occasions).getLast? := by
  induction occasions generalizing s with
  | nil => rfl
  | cons o occasions ih =>
    have hrest := ih (hs.occasion o)
    change (((o.apply s).amid occasions).session.negotiated = _)
    rw [hrest, State.renegotiated, State.renegotiated, o.negotiated_apply hs, State.agreements,
      List.getLast?_append]
    cases ((o.apply s).agreements occasions).getLast? with
    | some result => rfl
    | none => cases o.agreed? s <;> rfl

/-- The result was the outcome of an `initialize` request. -/
def Issued (journal : List Entry) (result : Value) : Prop :=
  ∃ id timeout token, .issued id "initialize" timeout token ∈ journal ∧
    .settled id (.ok result) ∈ journal

theorem State.agreed?_eq_some {n : Nat} {result : Value} (h : s.agreed? n = some result) :
    ∃ op id, s.operations.get? n = some op ∧ op.method = "initialize" ∧ op.call? = some id ∧
      s.engine.outcomes.get? id = some (.ok result) := by
  obtain ⟨id, hcall, hresult⟩ := Option.bind_eq_some_iff.mp h
  obtain ⟨op, hop, hnegotiation⟩ := Option.bind_eq_some_iff.mp hcall
  refine ⟨op, id, hop, ?_, ?_, ?_⟩
  · cases op with
    | shutdown call => cases hnegotiation
    | _ => rfl
  · cases op with
    | launch params phase => cases phase <;> exact hnegotiation
    | negotiate params options call => exact hnegotiation
    | _ => cases hnegotiation
  · unfold State.result? at hresult
    split at hresult
    · cases hresult
      assumption
    · cases hresult

/-- Every result that a handshake completes with is the outcome of a request of its own. -/
theorem agreements_issued (hs : Sound timeout s) (hcalled : Called s) (occasions : List Occasion) :
    ∀ result ∈ s.agreements occasions, Issued (s.amid occasions).journal result := by
  induction occasions generalizing s with
  | nil => exact fun _ h => absurd h List.not_mem_nil
  | cons o occasions ih =>
    intro result hresult
    obtain hnow | hlater := List.mem_append.mp hresult
    · cases o with
      | turn n =>
        obtain ⟨op, id, hop, hmethod, hcall, houtcome⟩ :=
          State.agreed?_eq_some (Option.mem_toList.mp hnow)
        obtain ⟨timeout, token, hissued⟩ := hcalled n op id hop hcall
        have hgrows := s.amid_grows (.turn n :: occasions)
        exact ⟨id, timeout, token, hgrows.mem (hmethod ▸ hissued),
          hgrows.mem (hs.settled_mem houtcome)⟩
      | _ => cases hnow
    · exact ih (hs.occasion o) (hcalled.occasion o) result hlater

/-- However many handshakes there are, and however they overlap and fail, what a session has negotiated is
either what it starts with or all that one result says: the result of the `initialize` request whose
handshake was the last to succeed. -/
theorem negotiated_of_one_piece (layer : Layer) (options : Options) (timeout : Nat)
    (occasions : List Occasion) :
    let new := State.new layer options timeout
    let s := new.amid occasions
    match (new.agreements occasions).getLast? with
    | none => s.session.negotiated = (none, .full, none)
    | some result => Derived result s.session ∧ Issued s.journal result := by
  intro new s
  have hsound := sound_new layer options timeout
  have hlast : s.session.negotiated = new.renegotiated (new.agreements occasions).getLast? :=
    State.negotiated_amid hsound occasions
  cases h : (new.agreements occasions).getLast? with
  | none =>
    rw [h] at hlast
    refine hlast.trans ?_
    cases layer <;> rfl
  | some result =>
    rw [h] at hlast
    exact ⟨derived_of_agreement hlast, agreements_issued hsound (called_new layer options timeout)
      occasions result (List.mem_of_getLast? h)⟩

/-- Two handshakes overlap, and the one that began first is the last to get its answer. -/
example : ((State.new .session .standard 30000).amid
    [.move .connect rfl, .move (.found 1 0) rfl,
      .start (.negotiate .null .none none) rfl, .start (.negotiate .null .none none) rfl,
      .turn 1, .turn 2,
      .move (.hear ("\x7b\"jsonrpc\":\"2.0\",\"id\":2,\"result\":" ++
        "\x7b\"capabilities\":\x7b\"textDocumentSync\":0\x7d\x7d\x7d")) rfl,
      .turn 2,
      .move (.hear ("\x7b\"jsonrpc\":\"2.0\",\"id\":1,\"result\":" ++
        "\x7b\"capabilities\":\x7b\"textDocumentSync\":\x7b\"change\":2\x7d\x7d\x7d\x7d")) rfl,
      .turn 1]).session.syncKind = .incremental := by decide +kernel

end Client
end LanguageClient
