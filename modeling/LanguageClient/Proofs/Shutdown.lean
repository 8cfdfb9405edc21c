import LanguageClient.Proofs.LaunchConnection
import LanguageClient.Proofs.OneWayCalls
import LanguageClient.Proofs.OperationTurns
/-!
The end of a session. Whatever becomes of the `shutdown` request, and whatever else goes on meanwhile,
the operation that has sent it tells the server to exit once the outcome is known, and once only; then
the session is shut down and tracks no documents.
-/
namespace LanguageClient.Client
open Relation Transport Rpc Json Session

def shutdownFrame (id : Int) : String := (Request.new id "shutdown" (encodeParams .null)).wire

def exitFrame : String := (Notification.new "exit" none).wire

def Entry.tellsExit : Entry → Bool
  | .offered frame _ => frame == exitFrame
  | _ => false

/-- A shutdown returns the failure of its request, or else that of the exit notification. -/
def shutdownOutcome (refusal : Option Fault) : Outcome Value → Outcome Value
  | .error e => .error e
  | .ok _ =>
    match refusal with
    | some e => .error e
    | none => .ok .null

def shutdownRemarks : Outcome Value → List Entry
  | .ok _ => []
  | .error _ => [.note ⟨.warn, "shutdown request failed, sending exit anyway"⟩]

/-- What a shutdown tells once it knows the outcome of its request. -/
def lastWords (n : Nat) (outcome : Outcome Value) (s : State) : List Entry :=
  shutdownRemarks outcome ++
    [.offered exitFrame (if s.transport.state = .opened then some s.transport.generation else none),
      .shutDown, .finished n (shutdownOutcome s.refusal? outcome)]

/-- What a shutdown tells of its request: the frame goes out, or it is refused at once. -/
inductive Asked (id : Int) : List Entry → Prop where
  | sent (timeout g : Nat) : Asked id
    [.issued id "shutdown" timeout none, .offered (shutdownFrame id) (some g)]
  | refused (timeout : Nat) (e : Fault) : Asked id
    [.issued id "shutdown" timeout none, .offered (shutdownFrame id) none, .unsent id e,
      .settled id (.error e)]

theorem shutdownFrame_ne_exitFrame (id : Int) : shutdownFrame id ≠ exitFrame :=
  Request.wire_ne_notification _ _

theorem Asked.tellsExit {id : Int} {request : List Entry} (h : Asked id request) :
    request.countP Entry.tellsExit = 0 := by
  have hne : (shutdownFrame id == exitFrame) = false := by simpa using shutdownFrame_ne_exitFrame id
  cases h <;> simp [Entry.tellsExit, hne]

theorem lastWords_tellsExit (n : Nat) (outcome : Outcome Value) (s : State) :
    (lastWords n outcome s).countP Entry.tellsExit = 1 := by
  cases outcome <;> simp [lastWords, shutdownRemarks, Entry.tellsExit]

variable {n : Nat} {s t : State} {timeout : Nat}

theorem Fit.notify_exit (hs : Fit s) :
    (s.notify "exit" none).1 = (match s.refusal? with | some e => .error e | none => .ok ()) ∧
      (s.notify "exit" none).2.journal = s.journal ++ [.offered exitFrame
        (if s.transport.state = .opened then some s.transport.generation else none)] := by
  rw [State.refusal?, State.notify]
  obtain ⟨hopen, hok, hj⟩ | ⟨hclosed, h⟩ := hs.send (Notification.new "exit" none).wire
  · rw [if_pos hopen, if_pos hopen]
    exact ⟨hok, hj⟩
  · rw [if_neg hclosed, if_neg hclosed, h]
    exact ⟨rfl, rfl⟩

theorem Fit.completeShutdown (hs : Fit s) (outcome : Outcome Value) :
    State.unitOutcome (s.completeShutdown outcome).1 = shutdownOutcome s.refusal? outcome ∧
      (s.completeShutdown outcome).2.journal = s.journal ++ (shutdownRemarks outcome ++
        [.offered exitFrame (if s.transport.state = .opened then some s.transport.generation else none),
          .shutDown]) := by
  cases outcome with
  | ok v =>
    obtain ⟨hr, hj⟩ := hs.notify_exit
    refine ⟨?_, (congrArg (· ++ [Entry.shutDown]) hj).trans (List.append_assoc ..)⟩
    change State.unitOutcome (s.notify "exit" none).1 = _
    rw [hr]
    cases s.refusal? <;> rfl
  | error e =>
    obtain ⟨_, hj⟩ := (hs.record (.note ⟨.warn, "shutdown request failed, sending exit anyway"⟩)).notify_exit
    refine ⟨rfl, (congrArg (· ++ [Entry.shutDown]) hj).trans ?_⟩
    rw [State.record, List.append_assoc, List.append_assoc]
    rfl

theorem dropUnneeded_grows (s : State) : Grows (fun _ => True) s s.dropUnneeded := by
  have hdropped : Grows (fun _ => True) s s.dropEngine :=
    (Move.dropEngine.adds s).mono fun _ _ => trivial
  rw [State.dropUnneeded]
  split
  · exact .refl s
  split
  · exact .refl s
  simp only
  split
  · exact hdropped.trans ((Move.disconnect.adds _).mono fun _ _ => trivial)
  · exact hdropped

theorem finish_journal (n : Nat) (outcome : Outcome Value) (s : State) :
    ∃ dropped, (s.finish n outcome).journal = s.journal ++ .finished n outcome :: dropped ∧
      (s.released = false → dropped = []) := by
  obtain ⟨dropped, hj, _⟩ := dropUnneeded_grows
    ({ s with operations := s.operations.erase n }.record (.finished n outcome))
  have hjournal : (s.finish n outcome).journal = s.journal ++ .finished n outcome :: dropped := by
    rw [State.finish, hj, State.record, List.append_assoc]
    rfl
  refine ⟨dropped, hjournal, fun hreleased => ?_⟩
  rw [finish_eq hreleased] at hjournal
  have hsame := List.append_cancel_left hjournal
  exact (List.cons.inj hsame).2.symm

/-- The turn with which a shutdown ends. It knows the outcome of its request by then. -/
structure ShutdownEnds (n : Nat) (outcome : Outcome Value) (s t : State) : Prop where
  journal : ∃ dropped, t.journal = s.journal ++ lastWords n outcome s ++ dropped ∧
    (s.released = false → dropped = [])
  session : t.session = { s.session with lifecycle := .shutdown, documents := [] }
  gone : t.operations.get? n = none

theorem completeShutdown_released (outcome : Outcome Value) (s : State) :
    (s.completeShutdown outcome).2.released = s.released := by
  have hexit (t : State) : (t.notify "exit" none).2.released = t.released := by
    rw [State.notify]
    obtain ⟨_, _, _, _, h⟩ | ⟨_, h⟩ := State.send_cases (Notification.new "exit" none).wire t <;>
      rw [h] <;> rfl
  cases outcome with
  | ok _ => exact hexit s
  | error _ => exact hexit (s.warn _)

theorem Fit.shutdownEnds (hs : Fit s) {id : Int} {outcome : Outcome Value}
    (h : s.engine.outcomes.get? id = some outcome) :
    ShutdownEnds n outcome s (s.awaitShutdown n id) := by
  rw [awaitShutdown_eq, State.collect, h]
  generalize hu : (s.modifyEngine fun e => { e with outcomes := e.outcomes.erase id }) = u
  have hfit : Fit u := hs.of_transport (by rw [← hu]; rfl)
  obtain ⟨hresult, hjournal⟩ := hfit.completeShutdown outcome
  obtain ⟨dropped, hfinish, hkept⟩ := finish_journal n (shutdownOutcome u.refusal? outcome)
    (u.completeShutdown outcome).2
  change ShutdownEnds n outcome s ((u.completeShutdown outcome).2.finish n
    (State.unitOutcome (u.completeShutdown outcome).1))
  rw [hresult]
  subst hu
  refine ⟨⟨dropped, ?_, fun hreleased => hkept ?_⟩, ?_, ?_⟩
  · rw [hfinish, hjournal, lastWords]
    simp only [List.append_assoc, List.cons_append, List.nil_append]
    rfl
  · exact (completeShutdown_released ..).trans hreleased
  · exact (finish_session ..).trans (State.completeShutdown_session ..)
  · rw [finish_operations, Keyed.get?_erase, if_pos rfl]

theorem Fit.request_refused (hs : Fit s) {e : Fault} (he : s.refusal? = some e) (method : String)
    (params : Value) : ∃ u, s.request method params CallOptions.none = (s.engine.nextId, u) ∧
      u.engine.outcomes.get? s.engine.nextId = some (.error e) ∧ u.transport = s.transport ∧
      u.session = s.session ∧ u.released = s.released ∧
      u.journal = s.journal ++ [.issued s.engine.nextId method s.engine.requestTimeout none,
        .offered (Request.new s.engine.nextId method (encodeParams params)).wire none,
        .unsent s.engine.nextId e, .settled s.engine.nextId (.error e)] := by
  have hentered : Fit (s.enter method CallOptions.none).2 := hs.of_transport rfl
  have htoken : (s.enter method CallOptions.none).2.tokenCancelled CallOptions.none = false := rfl
  have hid : (s.enter method CallOptions.none).1 = s.engine.nextId := rfl
  have hsend : (s.enter method CallOptions.none).2.send
      (Request.new s.engine.nextId method (encodeParams params)).wire =
      (.error e, (s.enter method CallOptions.none).2.record
        (.offered (Request.new s.engine.nextId method (encodeParams params)).wire none)) := by
    unfold State.refusal? at he
    split at he
    · cases he
    · rename_i hclosed
      obtain ⟨hopen, _⟩ | ⟨_, h⟩ := hentered.send
        (Request.new s.engine.nextId method (encodeParams params)).wire
      · exact absurd hopen hclosed
      · cases he
        exact h
  generalize hv : ((s.enter method CallOptions.none).2.record (.offered
    (Request.new s.engine.nextId method (encodeParams params)).wire none)).record
      (.unsent s.engine.nextId e) = v
  have hpending : v.engine.pending.get? s.engine.nextId = some ⟨method, false⟩ := by
    rw [← hv]
    exact Keyed.get?_put_self _ _ _
  refine ⟨v.settle s.engine.nextId fun _ => .error e, ?_, ?_, ?_, ?_, ?_, ?_⟩
  · rw [State.request]
    simp only [htoken, hid, State.handOver, hsend, Bool.false_eq_true, if_false, hv]
  · exact congrArg Account.outcome (account_settle_self hpending _)
  all_goals obtain ⟨_, _, _, _, _, hsettle⟩ := State.settle_eq s.engine.nextId (fun _ => .error e) v
  · rw [hsettle, ← hv]
    rfl
  · rw [hsettle, ← hv]
    rfl
  · rw [hsettle, ← hv]
    rfl
  · rw [State.settle_journal hpending, ← hv]
    simp [State.enter, State.record, State.modifyEngine, State.effectiveTimeout, CallOptions.none]

/-- The first turn has the request go out, or finds that it cannot and ends with that. -/
theorem shutdown_firstTurn (hs : Fit s) (hsound : Sound timeout s)
    (h : s.operations.get? n = some (.shutdown none)) :
    (∃ g, (s.run (.operation n)).operations.get? n = some (.shutdown (some s.engine.nextId)) ∧
      (s.run (.operation n)).journal = s.journal ++
        [.issued s.engine.nextId "shutdown" s.engine.requestTimeout none,
          .offered (shutdownFrame s.engine.nextId) (some g)]) ∨
    ∃ e u, u.transport = s.transport ∧ u.released = s.released ∧
      u.session = { s.session with lifecycle := .shuttingDown } ∧
      u.journal = s.journal ++ [.issued s.engine.nextId "shutdown" s.engine.requestTimeout none,
        .offered (shutdownFrame s.engine.nextId) none, .unsent s.engine.nextId e,
        .settled s.engine.nextId (.error e)] ∧
      ShutdownEnds n (.error e) u (s.run (.operation n)) := by
  have hbegun : Fit s.beginShutdown := hs.of_transport rfl
  rw [State.run, State.runOperation, h]
  simp only
  cases hrefusal : s.refusal? with
  | none =>
    have hopen : s.transport.state = .opened := by
      unfold State.refusal? at hrefusal
      split at hrefusal
      · assumption
      · cases hrefusal
    obtain ⟨u, hu, hissues⟩ := request_issues (s := s.beginShutdown) (g := s.transport.generation)
      hopen (hs.outbound.trans (if_pos hopen)) "shutdown" .null
    have hnone : u.engine.outcomes.get? s.engine.nextId = none := by
      rw [hissues.outcomes]
      cases ho : s.engine.outcomes.get? s.engine.nextId with
      | none => exact ho
      | some outcome =>
        have hruled := (hsound.outcome ho).1
        rw [hsound.fresh _ (Int.le_refl _)] at hruled
        cases hruled
    have hwaits : (u.putOperation n (.shutdown (some s.engine.nextId))).awaitShutdown n
        s.engine.nextId = u.putOperation n (.shutdown (some s.engine.nextId)) := by
      rw [awaitShutdown_eq, State.collect]
      change ((u.engine.outcomes.get? _).map _).elim _ _ = _
      rw [hnone]
      rfl
    rw [hu]
    refine .inl ⟨s.transport.generation, ?_, ?_⟩
    · exact (congrArg (fun t => t.operations.get? n) hwaits).trans (Keyed.get?_put_self ..)
    · exact (congrArg State.journal hwaits).trans hissues.journal
  | some e =>
    obtain ⟨u, hu, houtcome, htransport, hsession, hreleased, hjournal⟩ :=
      hbegun.request_refused hrefusal "shutdown" .null
    rw [hu]
    have hput : Fit (u.putOperation n (.shutdown (some s.engine.nextId))) :=
      hs.of_transport (by exact htransport)
    refine .inr ⟨e, u.putOperation n (.shutdown (some s.engine.nextId)), htransport, hreleased,
      hsession, hjournal, ?_⟩
    exact hput.shutdownEnds houtcome

/-- A later turn waits on, or ends the shutdown with the outcome of the request. -/
theorem shutdown_nextTurn (hs : Fit s) (hsound : Sound timeout s) {id : Int}
    (h : s.operations.get? n = some (.shutdown (some id))) :
    s.engine.outcomes.get? id = none ∧ s.run (.operation n) = s ∨
      ∃ outcome, s.engine.outcomes.get? id = some outcome ∧ settlements id s.journal = [outcome] ∧
        ShutdownEnds n outcome s (s.run (.operation n)) := by
  rw [State.run, State.runOperation, h]
  cases ho : s.engine.outcomes.get? id with
  | none =>
    refine .inl ⟨rfl, ?_⟩
    change s.awaitShutdown n id = s
    rw [awaitShutdown_eq, State.collect, ho]
    rfl
  | some outcome => exact .inr ⟨outcome, rfl, (hsound.outcome ho).2, hs.shutdownEnds ho⟩

/-- What an operation tells in its own turns. -/
def Occasion.deeds (n : Nat) (s : State) : Occasion → List Entry
  | turn k => if k = n then (s.run (.operation n)).journal.drop s.journal.length else []
  | _ => []

def State.deeds (n : Nat) (s : State) : List Occasion → List Entry
  | [] => []
  | o :: occasions => o.deeds n s ++ (o.apply s).deeds n occasions

theorem State.deeds_concat (n : Nat) (s : State) (occasions : List Occasion) (o : Occasion) :
    s.deeds n (occasions ++ [o]) = s.deeds n occasions ++ o.deeds n (s.amid occasions) := by
  induction occasions generalizing s with
  | nil => simp [deeds, amid]
  | cons d occasions ih =>
    rw [List.cons_append, deeds, ih, deeds, List.append_assoc]
    rfl

theorem Occasion.deeds_of_ne {o : Occasion} (h : o ≠ .turn n) (s : State) : o.deeds n s = [] := by
  cases o with
  | turn k => exact if_neg fun hk => h (by rw [hk])
  | _ => rfl

theorem deeds_turn {more : List Entry} (h : (s.run (.operation n)).journal = s.journal ++ more) :
    (Occasion.turn n).deeds n s = more := by
  rw [Occasion.deeds, if_pos rfl, h, List.drop_left]

/-- How a shutdown stands that was started from here, after all these occasions, with what it has told
so far. -/
inductive ShutdownStands (n : Nat) (start : State) (occasions : List Occasion) : Prop where
  | unbegun (entry : (start.amid occasions).operations.get? n = some (.shutdown none))
    (idle : .turn n ∉ occasions) (deeds : start.deeds n occasions = [])
  /-- The request is out, and with its outcome there the next turn is the last. -/
  | waiting (id : Int) (timeout g : Nat)
    (entry : (start.amid occasions).operations.get? n = some (.shutdown (some id)))
    (deeds : start.deeds n occasions =
      [.issued id "shutdown" timeout none, .offered (shutdownFrame id) (some g)])
    (goesOn : ∀ outcome, (start.amid occasions).engine.outcomes.get? id = some outcome →
      ((start.amid occasions).run (.operation n)).operations.get? n = none)
  /-- With one of its turns, the shutdown has said exit, knowing the outcome of its request; it has ended
  with that turn. -/
  | ended (earlier later : List Occasion) (split : occasions = earlier ++ .turn n :: later)
    (id : Int) (outcome : Outcome Value) (request dropped : List Entry) (asked : Asked id request)
    (deeds : start.deeds n occasions = request ++ lastWords n outcome (start.amid earlier) ++ dropped)
    (once : (request ++ lastWords n outcome (start.amid earlier)).countP Entry.tellsExit = 1)
    (known : ∃ before, ((start.amid earlier).run (.operation n)).journal =
      before ++ lastWords n outcome (start.amid earlier) ++ dropped ∧ settlements id before = [outcome])
    (session : ((start.amid earlier).run (.operation n)).session =
      { (start.amid earlier).session with lifecycle := .shutdown, documents := [] })
    (held : (start.amid earlier).released = false → dropped = [])
    (gone : (start.amid occasions).operations.get? n = none)

theorem run_of_gone (h : s.operations.get? n = none) : s.run (.operation n) = s := by
  rw [State.run, State.runOperation, h]

theorem lastWords_eq (transport : t.transport = s.transport) (outcome : Outcome Value) :
    lastWords n outcome t = lastWords n outcome s := by
  rw [lastWords, lastWords, State.refusal?, State.refusal?, transport]

theorem goesOn_of_waiting (hs : Fit s) (hsound : Sound timeout s) {id : Int}
    (h : s.operations.get? n = some (.shutdown (some id))) (outcome : Outcome Value)
    (ho : s.engine.outcomes.get? id = some outcome) :
    (s.run (.operation n)).operations.get? n = none := by
  obtain ⟨hnone, _⟩ | ⟨_, _, _, hends⟩ := shutdown_nextTurn hs hsound h
  · rw [hnone] at ho
    cases ho
  · exact hends.gone

theorem ShutdownStands.other {start : State} {occasions : List Occasion}
    (hs : ShutdownStands n start occasions) {o : Occasion} (ho : o ≠ .turn n)
    (hn : n ≤ (start.amid occasions).lastOperation) (hfit : Fit (start.amid (occasions ++ [o])))
    (hsound : Sound timeout (start.amid (occasions ++ [o]))) :
    ShutdownStands n start (occasions ++ [o]) := by
  have hdeeds : start.deeds n (occasions ++ [o]) = start.deeds n occasions := by
    rw [State.deeds_concat, o.deeds_of_ne ho, List.append_nil]
  have hentry (h : ∀ failure op, (start.amid occasions).operations.get? n = some op →
      State.letGo failure op = none) : (start.amid (occasions ++ [o])).operations.get? n =
      (start.amid occasions).operations.get? n := by
    rw [State.amid_concat]
    exact Occasion.entry_eq ho hn h
  cases hs with
  | unbegun entry idle deeds =>
    have hidle : .turn n ∉ occasions ++ [o] := by simpa [idle] using Ne.symm ho
    refine .unbegun ((hentry fun failure op hop => ?_).trans entry) hidle (hdeeds.trans deeds)
    rw [entry] at hop
    cases hop
    rfl
  | waiting id timeout g entry deeds =>
    have hwaits := (hentry fun failure op hop => by rw [entry] at hop; cases hop; rfl).trans entry
    exact .waiting id timeout g hwaits (hdeeds.trans deeds) (goesOn_of_waiting hfit hsound hwaits)
  | ended earlier later split id outcome request dropped asked deeds once known session held gone =>
    refine .ended earlier (later ++ [o]) (by rw [split]; simp) id outcome request dropped asked
      (hdeeds.trans deeds) once known session held ((hentry fun failure op hop => ?_).trans gone)
    rw [gone] at hop
    cases hop

/-- The turn that ends a shutdown, with what it tells of its request in the same turn. -/
theorem ShutdownEnds.stands {start u v : State} {occasions : List Occasion} {outcome : Outcome Value}
    (h : ShutdownEnds n outcome v (u.run (.operation n))) (hu : start.amid occasions = u) (id : Int)
    {rest : List Entry} (asked : Asked id (start.deeds n occasions ++ rest))
    (journal : v.journal = u.journal ++ rest) (known : settlements id v.journal = [outcome])
    (transport : v.transport = u.transport) (released : v.released = u.released)
    (session : ∃ lifecycle, v.session = { u.session with lifecycle }) :
    ShutdownStands n start (occasions ++ [.turn n]) := by
  subst hu
  obtain ⟨⟨dropped, htold, hheld⟩, hsession, hgone⟩ := h
  rw [lastWords_eq transport] at htold
  refine .ended occasions [] rfl id outcome (start.deeds n occasions ++ rest) dropped asked ?_ ?_
    ⟨v.journal, htold, known⟩ ?_ (fun hreleased => hheld (released.trans hreleased)) ?_
  · have hdeeds : (Occasion.turn n).deeds n (start.amid occasions) =
        rest ++ lastWords n outcome (start.amid occasions) ++ dropped := by
      refine deeds_turn (htold.trans ?_)
      rw [journal]
      simp only [List.append_assoc]
    rw [State.deeds_concat, hdeeds]
    simp only [List.append_assoc]
  · rw [List.countP_append, asked.tellsExit, lastWords_tellsExit]
  · obtain ⟨_, hbefore⟩ := session
    rw [hsession, hbefore]
  · rw [State.amid_concat]
    exact hgone

theorem ShutdownStands.turn {start : State} {occasions : List Occasion}
    (hs : ShutdownStands n start occasions) (hfit : Fit (start.amid occasions))
    (hsound : Sound timeout (start.amid occasions)) (hfit' : Fit (start.amid (occasions ++ [.turn n])))
    (hsound' : Sound timeout (start.amid (occasions ++ [.turn n]))) :
    ShutdownStands n start (occasions ++ [.turn n]) := by
  have hafter : start.amid (occasions ++ [.turn n]) = (start.amid occasions).run (.operation n) :=
    State.amid_concat ..
  have hdeeds : start.deeds n (occasions ++ [.turn n]) =
      start.deeds n occasions ++ (Occasion.turn n).deeds n (start.amid occasions) :=
    State.deeds_concat ..
  generalize hu : start.amid occasions = u at hfit hsound hafter hdeeds
  have hidle (h : u.run (.operation n) = u) : start.deeds n (occasions ++ [.turn n]) =
      start.deeds n occasions := by
    have hnothing : (Occasion.turn n).deeds n u = [] := deeds_turn (by rw [h, List.append_nil])
    rw [hdeeds, hnothing, List.append_nil]
  cases hs with
  | unbegun entry _ deeds =>
    rw [hu] at entry
    obtain ⟨g, hentry, hjournal⟩ | ⟨e, v, htransport, hreleased, hsession, hjournal, hends⟩ :=
      shutdown_firstTurn hfit hsound entry
    · rw [← hafter] at hentry
      exact .waiting _ _ g hentry (by rw [hdeeds, deeds, deeds_turn hjournal]; rfl)
        (goesOn_of_waiting hfit' hsound' hentry)
    · refine hends.stands hu u.engine.nextId ?_ hjournal ?_ htransport hreleased ⟨_, hsession⟩
      · rw [deeds]
        exact .refused _ e
      · rw [hjournal, settlements, List.filterMap_append, ← settlements, hsound.unsettled (Int.le_refl _)]
        simp [List.filterMap_cons, settlement?]
  | waiting id timeout g entry deeds =>
    rw [hu] at entry
    obtain ⟨_, hsame⟩ | ⟨outcome, _, hknown, hends⟩ := shutdown_nextTurn hfit hsound entry
    · have hwaits : (start.amid (occasions ++ [.turn n])).operations.get? n =
          some (.shutdown (some id)) := by rw [hafter, hsame, entry]
      exact .waiting id timeout g hwaits ((hidle hsame).trans deeds)
        (goesOn_of_waiting hfit' hsound' hwaits)
    · refine hends.stands hu id ?_ (List.append_nil _).symm hknown rfl rfl ⟨_, rfl⟩
      rw [deeds]
      exact .sent timeout g
  | ended earlier later split id outcome request dropped asked deeds once known session held gone =>
    rw [hu] at gone
    have hsame := run_of_gone gone
    exact .ended earlier (later ++ [.turn n]) (by rw [split]; simp) id outcome request dropped asked
      ((hidle hsame).trans deeds) once known session held (by rw [hafter, hsame, gone])

theorem Fit.occasion (hs : Fit s) (o : Occasion) : Fit (o.apply s) := by
  obtain ⟨moves, hm⟩ := o.runs s
  rw [hm]
  exact State.after_keeps Fit.move hs moves

theorem ShutdownStands.occasion {start : State} {occasions : List Occasion}
    (hs : ShutdownStands n start occasions) (hfit : Fit (start.amid occasions))
    (hsound : Sound timeout (start.amid occasions)) (hn : n ≤ (start.amid occasions).lastOperation)
    (o : Occasion) : ShutdownStands n start (occasions ++ [o]) := by
  have hfit' : Fit (start.amid (occasions ++ [o])) := State.amid_concat .. ▸ hfit.occasion o
  have hsound' : Sound timeout (start.amid (occasions ++ [o])) :=
    State.amid_concat .. ▸ hsound.occasion o
  by_cases ho : o = .turn n
  · subst ho
    exact hs.turn hfit hsound hfit' hsound'
  · exact hs.other ho hn hfit' hsound'

/-- A shutdown that is awaited to its end says exit, once, and not before it knows the outcome of its
request, in whatever state of the client it is started and whatever happens beside it: a result, an
error, a deadline, a refused frame and an abort are all outcomes. With the turn in which it says exit the
session is shut down and tracks no documents; the exit frame is taken exactly if the connection is open
then; and what the shutdown returns is the failure of its request if that failed, or else the refusal of
the exit frame if that was refused. -/
theorem shutdown_says_exit (layer : Layer) (options : Options) (timeout : Nat)
    (before occasions : List Occasion) :
    let s := (State.new layer options timeout).amid before
    ShutdownStands (s.lastOperation + 1) (s.start (.shutdown none)).2 occasions := by
  intro s
  have hwoken := beside_wake (.operation (s.lastOperation + 1)) { s with
    lastOperation := s.lastOperation + 1
    operations := s.operations.put (s.lastOperation + 1) (.shutdown none) }
  change Beside _ (s.start (.shutdown none)).2 at hwoken
  have hentry : (s.start (.shutdown none)).2.operations.get? (s.lastOperation + 1) =
      some (.shutdown none) := by
    rw [hwoken.operations]
    exact Keyed.get?_put_self ..
  obtain ⟨moves, hmoves⟩ := (State.new layer options timeout).amid_runs (before ++
    [.start (.shutdown none) rfl])
  rw [State.amid_concat] at hmoves
  change (s.start (.shutdown none)).2 = _ at hmoves
  have hfit : Fit (s.start (.shutdown none)).2 :=
    hmoves ▸ State.after_keeps Fit.move (fit_new layer options timeout) moves
  have hsound : Sound timeout (s.start (.shutdown none)).2 :=
    hmoves ▸ (sound_new layer options timeout).after moves
  have hlast := hwoken.lastOperation
  generalize (s.start (.shutdown none)).2 = start at hentry hfit hsound hlast ⊢
  have hstands : (Fit (start.amid occasions) ∧ Sound timeout (start.amid occasions) ∧
      s.lastOperation + 1 ≤ (start.amid occasions).lastOperation) ∧
      ShutdownStands (s.lastOperation + 1) start occasions := by
    induction occasions using List.reverseRecOn with
    | nil => exact ⟨⟨hfit, hsound, Nat.le_of_eq hlast.symm⟩, .unbegun hentry List.not_mem_nil rfl⟩
    | append_singleton occasions o ih =>
      obtain ⟨⟨hf, hso, hn⟩, hst⟩ := ih
      refine ⟨?_, hst.occasion hf hso hn o⟩
      rw [State.amid_concat]
      exact ⟨hf.occasion o, hso.occasion o, Nat.le_trans hn (o.lastOperation_le _)⟩
  exact hstands.2

/-- The server refuses to shut down, and is told to exit all the same. -/
example : ((State.new .session .standard 30000).amid
    [.move .connect rfl, .move (.found 1 0) rfl, .start (.shutdown none) rfl, .turn 1,
      .move (.hear ("\x7b\"jsonrpc\":\"2.0\",\"id\":1,\"error\":" ++
        "\x7b\"code\":-32603,\"message\":\"busy\"\x7d\x7d")) rfl,
      .turn 1]).accepted = [shutdownFrame 1, exitFrame] := by decide +kernel

end LanguageClient.Client
