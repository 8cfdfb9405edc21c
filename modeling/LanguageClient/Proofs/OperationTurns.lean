import LanguageClient.Proofs.Lifecycle
import LanguageClient.Proofs.Schedule
import LanguageClient.Proofs.Settlement
/-!
Operations that take their turns while everything else goes on. What handlers, connections and requests
do leaves the operations under way alone; a turn touches the entry of its own operation only, and an
operation waits for no request but one that it has issued itself.
-/
namespace LanguageClient.Client
open Relation Transport Rpc Json Session

/-- The operations under way and the conversation are as they were. -/
structure Beside (s t : State) : Prop where
  operations : t.operations = s.operations
  lastOperation : t.lastOperation = s.lastOperation
  session : t.session = s.session

variable {s t u : State}

theorem Beside.refl (s : State) : Beside s s := ⟨rfl, rfl, rfl⟩

theorem Beside.trans (h : Beside s t) (k : Beside t u) : Beside s u :=
  ⟨k.operations.trans h.operations, k.lastOperation.trans h.lastOperation, k.session.trans h.session⟩

theorem beside_record (e : Entry) (s : State) : Beside s (s.record e) := ⟨rfl, rfl, rfl⟩

theorem Beside.record (h : Beside s t) (e : Entry) : Beside s (t.record e) :=
  h.trans (beside_record e t)

theorem beside_modifyEngine (f : Engine → Engine) (s : State) : Beside s (s.modifyEngine f) :=
  ⟨rfl, rfl, rfl⟩

theorem beside_wake (w : Work) (s : State) : Beside s (s.wake w) := by
  obtain ⟨_, h⟩ := State.wake_eq w s
  rw [h]
  exact ⟨rfl, rfl, rfl⟩

theorem beside_send (frame : String) (s : State) : Beside s (s.send frame).2 := by
  obtain ⟨_, _, _, _, h⟩ | ⟨_, h⟩ := State.send_cases frame s <;> rw [h] <;> exact ⟨rfl, rfl, rfl⟩

theorem beside_notify (method : String) (params : Option Value) (s : State) :
    Beside s (s.notify method params).2 := beside_send _ s

theorem beside_settle (id : Int) (f : Pending → Outcome Value) (s : State) :
    Beside s (s.settle id f) := by
  obtain ⟨_, _, _, _, _, h⟩ := State.settle_eq id f s
  rw [h]
  exact ⟨rfl, rfl, rfl⟩

theorem beside_abort (reason : String) (s : State) : Beside s (s.abortPending reason).2 :=
  State.abortPending_keeps (Q := Beside s) (beside_record _ s) fun id t h =>
    h.trans (beside_settle id _ t)

theorem beside_takeDown (s : State) : Beside s s.takeDown := by
  obtain ⟨_, _, h⟩ := State.takeDown_eq s
  rw [h]
  exact ⟨rfl, rfl, rfl⟩

theorem react_beside {P : String → Prop} (h : React P s t) : Beside s t := by
  cases h with
  | remark e s _ => exact beside_record e s
  | listen topic handler name s _ =>
    obtain ⟨_, _, _, h⟩ := State.listen_eq topic handler name s
    rw [h]
    exact ⟨rfl, rfl, rfl⟩
  | unlisten name s =>
    obtain ⟨_, _, _, h⟩ := State.unlisten_eq name s
    rw [h]
    exact ⟨rfl, rfl, rfl⟩
  | send frame s _ => exact beside_send frame s
  | cancelToken token s =>
    obtain ⟨_, _, h⟩ := State.cancelToken_eq token s
    rw [h]
    exact ⟨rfl, rfl, rfl⟩
  | abortPending reason s => exact beside_abort reason s
  | hangUp s =>
    by_cases h : s.transport.state = .disconnected
    · rw [State.hangUp_of_down h]
      exact beside_record _ s
    · rw [State.hangUp_of_up h]
      exact ((beside_record _ s).trans (beside_takeDown _)).record _

theorem reacts_beside {P : String → Prop} (h : Reacts P s t) : Beside s t :=
  h.keeps (Q := Beside s) (fun _ _ h hs => hs.trans (react_beside h)) (.refl s)

theorem beside_emitWith {close : State → State} (hc : Closes (fun _ => True) close) (g : Nat)
    {event : Transport.Event} (he : event.kind ≠ .message) (s : State) :
    Beside s (State.emitWith close g event s) :=
  (beside_record _ s).trans (reacts_beside (emitWith_reacts hc g he (heeds_anything s)))

theorem beside_disconnect (s : State) : Beside s s.disconnect :=
  reacts_beside (closes_disconnect (P := fun _ => True) s (heeds_anything s))

theorem beside_failAttempt (g : Nat) (e : Fault) (s : State) : Beside s (s.failAttempt g e) := by
  rw [State.failAttempt]
  split
  · have hdown : Beside s (s.modifyTransport fun t => { t with state := .disconnected }) :=
      ⟨rfl, rfl, rfl⟩
    exact hdown.trans (beside_emitWith closes_disconnect g (by simp [Transport.Event.kind]) _)
  · exact .refl s

theorem beside_completeAttempt (g l : Nat) (s : State) : Beside s (s.completeAttempt g l).2 := by
  rw [State.completeAttempt]
  split
  · obtain ⟨_, _, _, h⟩ := State.establish_eq g l s
    have hup : Beside s (s.establish g l) := by
      rw [h]
      exact ⟨rfl, rfl, rfl⟩
    exact hup.trans (beside_emitWith closes_disconnect g (by decide) _)
  · exact ⟨rfl, rfl, rfl⟩

theorem beside_reachPeer (g : Nat) (s : State) : Beside s (s.reachPeer g).2 := by
  rw [State.reachPeer]
  split
  · exact beside_failAttempt g _ s
  · obtain ⟨_, _, h⟩ := State.makeLink_eq s
    have hmade : Beside s s.makeLink.2 := by
      rw [h]
      exact ⟨rfl, rfl, rfl⟩
    exact hmade.trans (beside_completeAttempt g s.makeLink.1 _)

theorem beside_turnAttempt (attempt : Attempt) (s : State) : Beside s (s.turnAttempt attempt).2 := by
  cases attempt with
  | fresh =>
    have hbegun : Beside s s.beginAttempt.2 := by
      rw [State.beginAttempt]
      split <;> exact ⟨rfl, rfl, rfl⟩
    rw [State.turnAttempt]
    cases hb : s.beginAttempt with
    | mk g t =>
      rw [hb] at hbegun
      cases g with
      | none => exact hbegun
      | some g =>
        simp only
        split
        · exact hbegun
        · exact hbegun.trans (beside_reachPeer g t)
  | held g => exact .refl s
  | released g failure =>
    cases failure with
    | none => exact beside_reachPeer g s
    | some text => exact beside_failAttempt g _ s

theorem beside_request (method : String) (params : Value) (options : CallOptions) (s : State) :
    Beside s (s.request method params options).2 := by
  have hentered : Beside s (s.enter method options).2 := ⟨rfl, rfl, rfl⟩
  have hhanded (t : State) (id : Int) : Beside t (t.handOver id method params).2 := by
    obtain ⟨v, hv, h | ⟨e, h⟩⟩ := State.handOver_cases id method params t <;>
      rw [h, hv]
    · exact beside_send _ t
    · exact ((beside_send _ t).record _).trans (beside_settle _ _ _)
  rw [State.request]
  simp only
  split
  · exact (hentered.record _).trans (beside_settle _ _ _)
  · have h := hentered.trans (hhanded _ (s.enter method options).1)
    generalize State.handOver _ method params _ = r at h ⊢
    obtain ⟨_ | _, v⟩ := r
    · exact h
    · have hguarded : Beside v (v.guard (s.enter method options).1 options) :=
        (beside_modifyEngine _ v).trans (beside_wake _ _)
      exact (h.trans hguarded).trans ⟨rfl, rfl, rfl⟩

theorem beside_dropEngine (s : State) : Beside s s.dropEngine := by
  have hdropped (t : State) (h : Beside s t) : Beside s ((t.modifyEngine fun e =>
      { e with inbound := none }).abortPending "engine dropped before the request settled").2 :=
    (h.trans (beside_modifyEngine _ t)).trans (beside_abort _ _)
  rw [State.dropEngine]
  cases s.engine.inbound with
  | none => exact hdropped s (.refl s)
  | some reg => exact hdropped _ ⟨rfl, rfl, rfl⟩

theorem beside_dropUnneeded (s : State) : Beside s s.dropUnneeded := by
  rw [State.dropUnneeded]
  split
  · exact .refl s
  split
  · exact .refl s
  simp only
  split
  · exact (beside_dropEngine s).trans (beside_disconnect _)
  · exact beside_dropEngine s

def Operation.call? : Operation → Option Int
  | .negotiate _ _ call => call
  | .shutdown call => call
  | .launch _ (.negotiating call) => some call
  | .launch _ (.connecting _) => none
  | .connect .. => none

def Operation.method : Operation → String
  | .shutdown _ => "shutdown"
  | _ => "initialize"

/-- A turn of an operation: it keeps its hands off the others, and if it waits for a request
afterwards that it did not wait for before, then it has issued that itself. -/
structure Turned (n : Nat) (s t : State) : Prop where
  others : ∀ k, k ≠ n → t.operations.get? k = s.operations.get? k
  lastOperation : t.lastOperation = s.lastOperation
  own : ∀ op id, t.operations.get? n = some op → op.call? = some id →
    s.operations.get? n = some op ∨ ∃ timeout token, .issued id op.method timeout token ∈ t.journal

variable {n : Nat}

theorem Turned.of_eq (operations : t.operations = s.operations)
    (lastOperation : t.lastOperation = s.lastOperation) : Turned n s t :=
  ⟨fun k _ => by rw [operations], lastOperation, fun op id ho _ => .inl (operations ▸ ho)⟩

theorem Turned.after (h : Beside s t) (k : Turned n t u) : Turned n s u :=
  ⟨fun i hi => (k.others i hi).trans (by rw [h.operations]), k.lastOperation.trans h.lastOperation,
    fun op id ho hc => h.operations ▸ k.own op id ho hc⟩

theorem turned_putOperation {op : Operation} (h : ∀ id, op.call? = some id →
    ∃ timeout token, .issued id op.method timeout token ∈ s.journal) :
    Turned n s (s.putOperation n op) := by
  refine ⟨fun k hk => ?_, rfl, fun o id ho hc => ?_⟩
  · exact (Keyed.get?_put ..).trans (if_neg (Ne.symm hk))
  · obtain rfl : op = o := Option.some.inj ((Keyed.get?_put_self ..).symm.trans ho)
    exact .inr (h id hc)

theorem finish_operations (n : Nat) (outcome : Outcome Value) (s : State) :
    (s.finish n outcome).operations = s.operations.erase n := (beside_dropUnneeded _).operations

theorem finish_lastOperation (n : Nat) (outcome : Outcome Value) (s : State) :
    (s.finish n outcome).lastOperation = s.lastOperation := (beside_dropUnneeded _).lastOperation

theorem finish_session (n : Nat) (outcome : Outcome Value) (s : State) :
    (s.finish n outcome).session = s.session := (beside_dropUnneeded _).session

theorem Turned.finish (h : Turned n s t) (operations : u.operations = t.operations)
    (lastOperation : u.lastOperation = t.lastOperation) (outcome : Outcome Value) :
    Turned n s (u.finish n outcome) := by
  refine ⟨fun k hk => ?_, ?_, fun op id ho _ => ?_⟩
  · rw [finish_operations, Keyed.get?_erase, if_neg (Ne.symm hk), operations]
    exact h.others k hk
  · rw [finish_lastOperation, lastOperation, h.lastOperation]
  · rw [finish_operations, Keyed.get?_erase, if_pos rfl] at ho
    cases ho

theorem turned_finish (n : Nat) (outcome : Outcome Value) (s : State) :
    Turned n s (s.finish n outcome) := Turned.finish (.of_eq rfl rfl) rfl rfl outcome

theorem waitForPeer_session (n : Nat) (op : Operation) (s : State) :
    (s.waitForPeer n op).session = s.session := by
  rw [State.waitForPeer]
  simp only
  split <;> rfl

theorem turned_waitForPeer {op : Operation} (h : op.call? = none) (s : State) :
    Turned n s (s.waitForPeer n op) := by
  have hput : Turned n s (s.putOperation n op) :=
    turned_putOperation fun id hid => by rw [h] at hid; cases hid
  rw [State.waitForPeer]
  simp only
  split
  · exact hput
  · exact ⟨hput.others, hput.lastOperation, hput.own⟩

theorem warns_operations (texts : List String) (s : State) :
    (texts.foldl (fun s text => s.warn text) s).operations = s.operations ∧
      (texts.foldl (fun s text => s.warn text) s).lastOperation = s.lastOperation := by
  induction texts generalizing s with
  | nil => exact ⟨rfl, rfl⟩
  | cons text texts ih => exact ih _

theorem completeInitialize_operations (outcome : Outcome Value) (s : State) :
    (s.completeInitialize outcome).2.operations = s.operations ∧
      (s.completeInitialize outcome).2.lastOperation = s.lastOperation := by
  cases outcome with
  | error e => exact ⟨rfl, rfl⟩
  | ok result => exact warns_operations (Capabilities.ofResult result).syncKind.2 s

theorem beginInitialize_operations (s : State) : s.beginInitialize.operations = s.operations ∧
    s.beginInitialize.lastOperation = s.lastOperation := by
  rw [State.beginInitialize]
  split <;> exact ⟨rfl, rfl⟩

theorem initialized_operations (s : State) : s.initialized.2.operations = s.operations ∧
    s.initialized.2.lastOperation = s.lastOperation := by
  have h := beside_notify "initialized" (some (.obj [])) s
  rw [State.initialized]
  generalize s.notify "initialized" (some (.obj [])) = r at h ⊢
  obtain ⟨_ | _, t⟩ := r <;> exact ⟨h.operations, h.lastOperation⟩

theorem completeLaunch_operations (outcome : Outcome Value) (s : State) :
    (s.completeLaunch outcome).2.operations = s.operations ∧
      (s.completeLaunch outcome).2.lastOperation = s.lastOperation := by
  have h := completeInitialize_operations outcome s
  rw [State.completeLaunch]
  generalize s.completeInitialize outcome = r at h ⊢
  obtain ⟨_ | _, t⟩ := r
  · exact h
  · have hi := initialized_operations t
    exact ⟨hi.1.trans h.1, hi.2.trans h.2⟩

theorem completeShutdown_operations (outcome : Outcome Value) (s : State) :
    (s.completeShutdown outcome).2.operations = s.operations ∧
      (s.completeShutdown outcome).2.lastOperation = s.lastOperation := by
  have hexit (t : State) := beside_notify "exit" none t
  cases outcome with
  | ok _ => exact ⟨(hexit s).operations, (hexit s).lastOperation⟩
  | error _ => exact ⟨(hexit (s.warn _)).operations, (hexit (s.warn _)).lastOperation⟩

theorem Turned.collect (h : Turned n s t) {id : Int} {next : Outcome Value × State → State}
    (hnext : ∀ outcome v, v.operations = t.operations → v.lastOperation = t.lastOperation →
      ∃ r w, next (outcome, v) = State.finish n r w ∧ w.operations = v.operations ∧
        w.lastOperation = v.lastOperation) :
    Turned n s ((t.collect id).elim t next) := by
  rw [State.collect]
  cases t.engine.outcomes.get? id with
  | none => exact h
  | some outcome =>
    obtain ⟨r, w, hw, ho, hl⟩ := hnext outcome
      (t.modifyEngine fun e => { e with outcomes := e.outcomes.erase id }) rfl rfl
    change Turned n s (next (outcome, _))
    rw [hw]
    exact h.finish ho hl r

theorem awaitInitialize_eq (n : Nat) (id : Int) (s : State) : s.awaitInitialize n id =
    (s.collect id).elim s fun (outcome, t) =>
      (t.completeInitialize outcome).2.finish n (t.completeInitialize outcome).1 := by
  rw [State.awaitInitialize]
  cases s.collect id <;> rfl

theorem awaitLaunch_eq (n : Nat) (id : Int) (s : State) : s.awaitLaunch n id =
    (s.collect id).elim s fun (outcome, t) =>
      (t.completeLaunch outcome).2.finish n (State.unitOutcome (t.completeLaunch outcome).1) := by
  rw [State.awaitLaunch]
  cases s.collect id <;> rfl

theorem awaitShutdown_eq (n : Nat) (id : Int) (s : State) : s.awaitShutdown n id =
    (s.collect id).elim s fun (outcome, t) =>
      (t.completeShutdown outcome).2.finish n (State.unitOutcome (t.completeShutdown outcome).1) := by
  rw [State.awaitShutdown]
  cases s.collect id <;> rfl

theorem Turned.awaitInitialize (h : Turned n s t) (id : Int) :
    Turned n s (t.awaitInitialize n id) := by
  rw [awaitInitialize_eq]
  exact h.collect fun outcome v _ _ => ⟨_, _, rfl, completeInitialize_operations outcome v⟩

theorem Turned.awaitLaunch (h : Turned n s t) (id : Int) : Turned n s (t.awaitLaunch n id) := by
  rw [awaitLaunch_eq]
  exact h.collect fun outcome v _ _ => ⟨_, _, rfl, completeLaunch_operations outcome v⟩

theorem Turned.awaitShutdown (h : Turned n s t) (id : Int) : Turned n s (t.awaitShutdown n id) := by
  rw [awaitShutdown_eq]
  exact h.collect fun outcome v _ _ => ⟨_, _, rfl, completeShutdown_operations outcome v⟩

theorem request_fst (method : String) (params : Value) (options : CallOptions) (s : State) :
    (s.request method params options).1 = s.engine.nextId := by
  rw [State.request]
  simp only
  split
  · rfl
  · split <;> rfl

theorem Turned.request {f : Int → Operation} (hcall : ∀ id, (f id).call? = some id)
    {method : String} (hmethod : ∀ id, (f id).method = method)
    (operations : t.operations = s.operations) (lastOperation : t.lastOperation = s.lastOperation)
    (params : Value) (options : CallOptions) :
    Turned n s ((t.request method params options).2.putOperation n
      (f (t.request method params options).1)) := by
  have hbeside := beside_request method params options t
  have hput : Turned n (t.request method params options).2 ((t.request method params options).2.putOperation n
      (f (t.request method params options).1)) := by
    refine turned_putOperation fun id hid => ?_
    rw [hcall] at hid
    obtain rfl := Option.some.inj hid
    rw [hmethod, request_journal, request_fst]
    exact ⟨_, _, List.mem_append_right _ List.mem_cons_self⟩
  refine ⟨fun k hk => ?_, ?_, fun o id ho hc => ?_⟩
  · exact (hput.others k hk).trans (by rw [hbeside.operations, operations])
  · exact hput.lastOperation.trans (hbeside.lastOperation.trans lastOperation)
  · rw [← operations, ← hbeside.operations]
    exact hput.own o id ho hc

private theorem turned_runConnect (n : Nat) (attempt : Attempt) (keeps : Bool) (s : State) :
    Turned n s (s.runConnect n attempt keeps) := by
  have hbeside := beside_turnAttempt attempt s
  rw [State.runConnect]
  split <;> rename_i h <;> rw [h] at hbeside
  · exact (turned_waitForPeer rfl _).after hbeside
  · exact (turned_finish n _ _).after hbeside

private theorem turned_negotiateLaunch (n : Nat) (params : Outcome Value) (s : State) :
    Turned n s (s.negotiateLaunch n params) := by
  cases params with
  | error e => exact turned_finish n _ s
  | ok p =>
    have hissued := Turned.request (f := fun id => .launch (.ok p) (.negotiating id)) (n := n)
      (fun _ => rfl) (fun _ => rfl) (beginInitialize_operations s).1 (beginInitialize_operations s).2 p
      CallOptions.none
    exact hissued.awaitLaunch _

private theorem turned_runLaunch (n : Nat) (params : Outcome Value) (phase : LaunchPhase) (s : State) :
    Turned n s (s.runLaunch n params phase) := by
  cases phase with
  | negotiating id => exact Turned.awaitLaunch (.of_eq rfl rfl) id
  | connecting attempt =>
    have hbeside := beside_turnAttempt attempt s
    rw [State.runLaunch]
    split <;> rename_i h <;> rw [h] at hbeside
    · exact (turned_waitForPeer rfl _).after hbeside
    · exact (turned_finish n _ _).after hbeside
    · exact (turned_negotiateLaunch n params _).after hbeside

/-- What a turn of an operation leaves alone, and what it may wait for afterwards. -/
theorem turned_run (n : Nat) (s : State) : Turned n s (s.run (.operation n)) := by
  rw [State.run, State.runOperation]
  split
  · exact .of_eq rfl rfl
  · exact turned_runConnect n _ _ s
  · exact turned_runLaunch n _ _ s
  · rename_i params options _
    have hissued := Turned.request (f := fun id => .negotiate params options (some id)) (n := n)
      (fun _ => rfl) (fun _ => rfl) (beginInitialize_operations s).1 (beginInitialize_operations s).2
      params options
    exact hissued.awaitInitialize _
  · exact Turned.awaitInitialize (.of_eq rfl rfl) _
  · have hissued := Turned.request (f := fun id => .shutdown (some id)) (s := s) (t := s.beginShutdown)
      (n := n) (fun _ => rfl) (fun _ => rfl) rfl rfl .null CallOptions.none
    exact hissued.awaitShutdown _
  · exact Turned.awaitShutdown (.of_eq rfl rfl) _

variable {timeout : Nat}

theorem Sound.move (hs : Sound timeout s) (m : Move) : Sound timeout (m.apply s) :=
  (m.deals s).keeps (Q := Sound timeout) (fun _ _ h hs => hs.deal h) hs

/-- An outcome that can be collected is the one that was dictated and given, once. -/
theorem Sound.outcome (hs : Sound timeout s) {id : Int} {outcome : Outcome Value}
    (h : s.engine.outcomes.get? id = some outcome) :
    standing id s.journal = .ruled (some outcome) ∧ settlements id s.journal = [outcome] := by
  have hbalanced := hs.balanced id
  generalize ha : account id s = a at hbalanced
  have hstanding := congrArg Account.standing ha
  have hsettled := congrArg Account.settled ha
  have houtcome := congrArg Account.outcome ha
  simp only [account] at hstanding hsettled houtcome
  rw [h] at houtcome
  cases hbalanced with
  | unissued => cases houtcome
  | owed => cases houtcome
  | ruled dictated w kept hk =>
    obtain rfl := hk outcome houtcome.symm
    exact ⟨hstanding, hsettled⟩

theorem Sound.unsettled (hs : Sound timeout s) {id : Int} (h : s.engine.nextId ≤ id) :
    settlements id s.journal = [] := by
  have hbalanced := hs.balanced id
  generalize ha : account id s = a at hbalanced
  have hstanding := congrArg Account.standing ha
  have hsettled := congrArg Account.settled ha
  simp only [account] at hstanding hsettled
  rw [hs.fresh id h] at hstanding
  cases hbalanced with
  | unissued => exact hsettled
  | owed => cases hstanding
  | ruled => cases hstanding

theorem Sound.settled_mem (hs : Sound timeout s) {id : Int} {outcome : Outcome Value}
    (h : s.engine.outcomes.get? id = some outcome) : .settled id outcome ∈ s.journal := by
  have hmem : outcome ∈ settlements id s.journal := by
    rw [(hs.outcome h).2]
    exact List.mem_cons_self
  obtain ⟨e, he, hsettles⟩ := List.mem_filterMap.mp hmem
  unfold settlement? at hsettles
  split at hsettles
  · split at hsettles
    · rename_i hid
      cases hsettles
      exact hid ▸ he
    · cases hsettles
  · cases hsettles

theorem Sound.standing_request (hs : Sound timeout s) (method : String) (params : Value)
    (options : CallOptions) :
    (∃ terms, standing s.engine.nextId (s.request method params options).2.journal = .owed terms) ∨
      ∃ e, standing s.engine.nextId (s.request method params options).2.journal =
        .ruled (some (.error e)) := by
  have hnone : sinceIssue? s.engine.nextId s.journal = none := by
    have hfresh := hs.fresh _ (Int.le_refl _)
    unfold standing at hfresh
    split at hfresh
    · assumption
    · split at hfresh <;> cases hfresh
  rw [request_journal, standing, sinceIssue?_append, hnone]
  simp only [sinceIssue?, if_true]
  generalize hrest : (if s.tokenCancelled options then _ else _) = rest
  obtain h | ⟨e, h⟩ : rest.findSome? (ruling? s.engine.nextId ⟨method,
      options.timeout.getD s.engine.requestTimeout, options.token⟩) = none ∨
      ∃ e, rest.findSome? (ruling? s.engine.nextId ⟨method,
        options.timeout.getD s.engine.requestTimeout, options.token⟩) = some (some (.error e)) := by
    rw [← hrest]
    split
    · exact .inr ⟨.cancelled method, by simp only [List.findSome?_cons, ruling?, if_true]⟩
    · split
      · exact .inl rfl
      · exact .inr ⟨.transport ("cannot send while " ++ s.transport.state.name),
          by simp only [List.findSome?_cons, ruling?, if_true]⟩
  · exact .inl ⟨_, by rw [h]⟩
  · exact .inr ⟨e, by rw [h]⟩

theorem Sound.request_outcome (hs : Sound timeout s) (method : String) (params : Value)
    (options : CallOptions) {outcome : Outcome Value}
    (h : (s.request method params options).2.engine.outcomes.get? s.engine.nextId = some outcome) :
    ∃ e, outcome = .error e := by
  have hruled := ((hs.move (.request method params options)).outcome h).1
  change standing _ (s.request method params options).2.journal = _ at hruled
  obtain ⟨terms, howed⟩ | ⟨e, hfailed⟩ := hs.standing_request method params options
  · rw [howed] at hruled
    cases hruled
  · rw [hfailed] at hruled
    exact ⟨e, (Option.some.inj (Standing.ruled.inj hruled)).symm⟩

/-- The operation has not had a turn yet. -/
def Operation.isFresh : Operation → Bool
  | .connect .fresh _ | .launch _ (.connecting .fresh) | .negotiate _ _ none | .shutdown none => true
  | _ => false

/-- A part of a handshake, which is for its operation to do. -/
def Move.isOfOperation : Move → Bool
  | .beginInitialize | .completeInitialize _ | .beginShutdown | .completeShutdown _ => true
  | _ => false

/-- One thing that happens to a client with operations under way. -/
inductive Occasion where
  /-- The user, the peer or the clock does something, or other work has a turn. -/
  | move (m : Move) (h : m.isOfOperation = false)
  | start (op : Operation) (h : op.isFresh = true)
  /-- An operation has a turn, whether or not it has anything to go on with. -/
  | turn (n : Nat)
  | release (failure : Option String)

namespace Occasion

/-- What an occasion comes to. The operations under way are for themselves alone to change, and for the
peer that holds an attempt. -/
def apply (o : Occasion) (s : State) : State :=
  match o with
  | move m _ => { m.apply s with operations := s.operations, lastOperation := s.lastOperation }
  | start op _ => (s.start op).2
  | turn n => s.run (.operation n)
  | release failure => (s.releaseAttempt failure).2

theorem runs (o : Occasion) (s : State) : ∃ moves, o.apply s = s.after moves := by
  cases o with
  | move m h =>
    exact ⟨[m, .around { m.apply s with operations := s.operations, lastOperation := s.lastOperation }],
      rfl⟩
  | start op h =>
    obtain ⟨moves, _, hm⟩ := Rehearsal.works_start op s
    exact ⟨moves, hm⟩
  | turn n =>
    obtain ⟨moves, _, hm⟩ := works_run (.operation n) (Works.refl s)
    exact ⟨moves, hm⟩
  | release failure =>
    obtain ⟨moves, _, hm⟩ := Rehearsal.works_releaseAttempt failure s
    exact ⟨moves, hm⟩

end Occasion

def State.amid (s : State) (occasions : List Occasion) : State :=
  occasions.foldl (fun s o => o.apply s) s

theorem State.amid_append (s : State) (occasions more : List Occasion) :
    s.amid (occasions ++ more) = (s.amid occasions).amid more := List.foldl_append

theorem State.amid_concat (s : State) (occasions : List Occasion) (o : Occasion) :
    s.amid (occasions ++ [o]) = o.apply (s.amid occasions) := s.amid_append occasions [o]

theorem Sound.after (hs : Sound timeout s) (moves : List Move) : Sound timeout (s.after moves) :=
  State.after_keeps (fun m _ h => h.move m) hs moves

theorem Sound.works (hs : Sound timeout s) (h : Works s t) : Sound timeout t := by
  obtain ⟨moves, _, rfl⟩ := h
  exact hs.after moves

theorem Sound.occasion (hs : Sound timeout s) (o : Occasion) : Sound timeout (o.apply s) := by
  obtain ⟨moves, hm⟩ := o.runs s
  rw [hm]
  exact hs.after moves

/-- Whatever occasions there are, they come to a run of moves. -/
theorem State.amid_runs (s : State) (occasions : List Occasion) :
    ∃ moves, s.amid occasions = s.after moves := by
  induction occasions generalizing s with
  | nil => exact ⟨[], rfl⟩
  | cons o occasions ih =>
    obtain ⟨moves, hm⟩ := o.runs s
    obtain ⟨more, hmore⟩ := ih (o.apply s)
    refine ⟨moves ++ more, ?_⟩
    rw [State.after_append, ← hm]
    exact hmore

theorem Occasion.grows (o : Occasion) (s : State) : Grows (fun _ => True) s (o.apply s) := by
  obtain ⟨moves, hm⟩ := o.runs s
  rw [hm]
  exact s.after_grows moves

theorem Grows.mem {C : Entry → Prop} (h : Grows C s t) {e : Entry} (he : e ∈ s.journal) :
    e ∈ t.journal := by
  obtain ⟨more, hj, _⟩ := h
  rw [hj]
  exact List.mem_append_left more he

/-- Every operation that waits for a request waits for one of its own. -/
def Called (s : State) : Prop :=
  ∀ n op id, s.operations.get? n = some op → op.call? = some id →
    ∃ timeout token, .issued id op.method timeout token ∈ s.journal

theorem Called.put (hs : Called s) {op : Operation} (h : op.call? = none)
    (operations : t.operations = s.operations.put n op) (hj : Grows (fun _ => True) s t) :
    Called t := by
  intro k o id ho hc
  rw [operations, Keyed.get?_put] at ho
  split at ho
  · obtain rfl := Option.some.inj ho
    rw [h] at hc
    cases hc
  · obtain ⟨timeout, token, hi⟩ := hs k o id ho hc
    exact ⟨timeout, token, hj.mem hi⟩

theorem Operation.call?_of_isFresh {op : Operation} (h : op.isFresh = true) : op.call? = none := by
  unfold isFresh at h
  split at h <;> first | rfl | cases h

theorem letGo_call? {failure : Option String} {old op : Operation}
    (h : State.letGo failure old = some op) : op.call? = none := by
  unfold State.letGo at h
  split at h <;> cases h <;> rfl

theorem releaseAttempt_cases (failure : Option String) (s : State) :
    Beside s (s.releaseAttempt failure).2 ∨ ∃ n old op, s.operations.get? n = some old ∧
      State.letGo failure old = some op ∧
      (s.releaseAttempt failure).2.operations = s.operations.put n op ∧
      (s.releaseAttempt failure).2.lastOperation = s.lastOperation ∧
      (s.releaseAttempt failure).2.session = s.session := by
  rw [State.releaseAttempt]
  split
  · exact .inl (.refl s)
  · rename_i n rest _
    simp only
    split
    · rename_i op hop
      obtain ⟨old, hold, hlet⟩ := Option.bind_eq_some_iff.mp hop
      have hwoken := beside_wake (.operation n)
        ((s.modifyPeer fun p => { p with waiting := rest }).putOperation n op)
      exact .inr ⟨n, old, op, hold, hlet, hwoken.operations, hwoken.lastOperation, hwoken.session⟩
    · exact .inl ⟨rfl, rfl, rfl⟩

theorem Called.occasion (hs : Called s) (o : Occasion) : Called (o.apply s) := by
  have hj := o.grows s
  have hsame (h : (o.apply s).operations = s.operations) : Called (o.apply s) := by
    intro k op id ho hc
    obtain ⟨timeout, token, hi⟩ := hs k op id (h ▸ ho) hc
    exact ⟨timeout, token, hj.mem hi⟩
  cases o with
  | move m h => exact hsame rfl
  | start op h =>
    refine hs.put (n := s.lastOperation + 1) (Operation.call?_of_isFresh h) ?_ hj
    exact (beside_wake _ _).operations
  | turn n =>
    have hturned := turned_run n s
    intro k op id ho hc
    by_cases hk : k = n
    · subst hk
      obtain hold | hnew := hturned.own op id ho hc
      · obtain ⟨timeout, token, hi⟩ := hs k op id hold hc
        exact ⟨timeout, token, hj.mem hi⟩
      · exact hnew
    · obtain ⟨timeout, token, hi⟩ := hs k op id ((hturned.others k hk).symm.trans ho) hc
      exact ⟨timeout, token, hj.mem hi⟩
  | release failure =>
    obtain hbeside | ⟨k, old, op, _, hop, hput, _⟩ := releaseAttempt_cases failure s
    · exact hsame hbeside.operations
    · exact hs.put (letGo_call? hop) hput hj

theorem Occasion.lastOperation_le (o : Occasion) (s : State) :
    s.lastOperation ≤ (o.apply s).lastOperation := by
  cases o with
  | move m h => exact Nat.le_refl _
  | start op h =>
    have hnext : (s.start op).2.lastOperation = s.lastOperation + 1 := (beside_wake _ _).lastOperation
    rw [apply, hnext]
    exact Nat.le_succ _
  | turn n => exact Nat.le_of_eq (turned_run n s).lastOperation.symm
  | release failure =>
    obtain hbeside | ⟨_, _, _, _, _, _, hlast, _⟩ := releaseAttempt_cases failure s
    · exact Nat.le_of_eq hbeside.lastOperation.symm
    · exact Nat.le_of_eq hlast.symm

/-- An operation that waits for no attempt is touched by its own turns only. -/
theorem Occasion.entry_eq {o : Occasion} (ho : o ≠ .turn n) (hn : n ≤ s.lastOperation)
    (h : ∀ failure op, s.operations.get? n = some op → State.letGo failure op = none) :
    (o.apply s).operations.get? n = s.operations.get? n := by
  cases o with
  | move m hm => rfl
  | start op hop =>
    have hput : (s.start op).2.operations = s.operations.put (s.lastOperation + 1) op :=
      (beside_wake _ _).operations
    rw [apply, hput, Keyed.get?_put, if_neg (by omega)]
  | turn k => exact (turned_run k s).others n fun hk => ho (by rw [hk])
  | release failure =>
    obtain hbeside | ⟨k, old, op, hold, hlet, hput, _⟩ := releaseAttempt_cases failure s
    · rw [apply, hbeside.operations]
    · rw [apply, hput, Keyed.get?_put, if_neg]
      rintro rfl
      rw [h failure old hold] at hlet
      cases hlet

theorem State.amid_grows (s : State) (occasions : List Occasion) :
    Grows (fun _ => True) s (s.amid occasions) := by
  obtain ⟨moves, hm⟩ := s.amid_runs occasions
  rw [hm]
  exact s.after_grows moves

theorem called_new (layer : Layer) (options : Options) (timeout : Nat) :
    Called (State.new layer options timeout) := by
  intro n op id ho
  cases layer <;> cases ho

end LanguageClient.Client
