import LanguageClient.Proofs.ConnectionEvents
/-!
Late work of connection attempts. Every attempt has a generation of its own, so that work which is late
is known for what it is, even when another attempt is under way or has become the open connection. It
changes nothing that others could see, and an attempt that was called off never becomes a connection.
-/
namespace LanguageClient.Client
open Relation Transport Rpc Json Session

/-- What can come of an attempt, or of the connection that it became, after it was started. -/
inductive LateStep (g : Nat) : State → State → Prop where
  | found (l : Nat) (s : State) : LateStep g s (s.completeAttempt g l).2
  | missed (e : Fault) (s : State) : LateStep g s (s.failAttempt g e)
  | streamEnd (s : State) : LateStep g s (s.finishReading g)
  | readFailure (e : Fault) (s : State) : LateStep g s (s.failReading g e)
  | writeFailure (text : String) (s : State) : LateStep g s (s.failWriting g text)

/-- A generation that is past, or whose connection is no more. -/
def Stale (g : Nat) (s : State) : Prop :=
  s.transport.generation ≠ g ∨ s.transport.state = .disconnected

def Entry.isEvent : Entry → Bool
  | .emitted .. => true
  | _ => false

/-- The transport is as before, apart from what it keeps about the one connection, and no event is
told. -/
structure Undisturbed (g : Nat) (s t : State) : Prop where
  state : t.transport.state = s.transport.state
  generation : t.transport.generation = s.transport.generation
  outbound : t.transport.outbound = s.transport.outbound
  tasks : t.transport.tasks = s.transport.tasks
  hub : t.transport.hub = s.transport.hub
  others : ∀ k, k ≠ g → t.connection? k = s.connection? k
  silent : Grows (fun e => e.isEvent = false) s t

private theorem Undisturbed.of_transport {g : Nat} {s t : State} (h : t.transport = s.transport)
    (silent : Grows (fun e => e.isEvent = false) s t) : Undisturbed g s t := by
  refine ⟨?_, ?_, ?_, ?_, ?_, fun k _ => ?_, silent⟩
  all_goals first | rw [h] | rw [State.connection?, h]; rfl

private theorem Undisturbed.modify {g : Nat} {s t : State} (h : Undisturbed g s t)
    (f : Connection → Connection) : Undisturbed g s (t.modifyConnection g f) :=
  { h with
    others k hk := by
      rw [← h.others k hk]
      simp only [State.connection?, State.modifyConnection, Keyed.get?_modify]
      exact if_neg (Ne.symm hk) }

private theorem Undisturbed.modifyLink {g : Nat} {s t : State} (h : Undisturbed g s t) (l : Nat)
    (f : Link → Link) : Undisturbed g s (t.modifyLink l f) := { h with }

private theorem Undisturbed.endReader {g : Nat} {s t : State} (h : Undisturbed g s t) :
    Undisturbed g s (t.endReader g) := by
  rw [State.endReader]
  split
  · exact h
  · exact (h.modify _).modifyLink _ _

private theorem Undisturbed.endWriter {g : Nat} {s t : State} (h : Undisturbed g s t) :
    Undisturbed g s (t.endWriter g) := by
  rw [State.endWriter]
  split
  · exact h
  · exact (h.modify _).modifyLink _ _

private theorem undisturbed_record {g : Nat} {e : Entry} (he : e.isEvent = false) (s : State) :
    Undisturbed g s (s.record e) := .of_transport rfl (grows_record he s)

theorem not_isAttempting {g : Nat} {s : State} (h : Stale g s) :
    s.isAttempting g = false := by
  rw [← Bool.not_eq_true, isAttempting_iff]
  rintro ⟨hg, hc⟩
  rcases h with h | h
  · exact h hg
  · rw [hc] at h
    cases h

private theorem failConnection_of_stale {g : Nat} {s : State} (h : Stale g s) (text : String) :
    s.failConnection g text = s := by
  have hcur : s.isCurrent g = false := by
    rcases h with h | h
    · simp [State.isCurrent, Ne.symm h]
    · simp [State.isCurrent, h]
  rw [State.failConnection, hcur]
  rfl

/-- A step that is late disturbs nothing. -/
theorem LateStep.undisturbed {g : Nat} {s t : State} (h : Stale g s)
    (step : LateStep g s t) : Undisturbed g s t := by
  cases step with
  | found l s =>
    rw [State.completeAttempt, not_isAttempting h]
    exact (Undisturbed.of_transport rfl (.refl s)).modifyLink l _
  | missed e s =>
    rw [State.failAttempt, not_isAttempting h]
    exact .of_transport rfl (.refl s)
  | streamEnd s =>
    have hr : Undisturbed g s (s.record (.streamEnded g)) := undisturbed_record rfl s
    rw [State.finishReading, State.shut_of_stale (s := s.record (.streamEnded g)) h]
    exact hr.endReader
  | readFailure e s =>
    have hr : Undisturbed g s (s.record (.received g (.error e))) := undisturbed_record rfl s
    rw [State.failReading, failConnection_of_stale (s := s.record (.received g (.error e))) h]
    exact hr.endReader
  | writeFailure text s =>
    have hr : Undisturbed g s (s.record (.writeFailed g text)) := undisturbed_record rfl s
    rw [State.failWriting, failConnection_of_stale (s := s.record (.writeFailed g text)) h]
    exact hr.endWriter

/-- The attempt is over, and it did not become a connection. -/
structure CutOff (g : Nat) (s : State) : Prop where
  begun : g ≤ s.transport.generation
  ended : s.isAttempting g = false
  none : s.connection? g = none

/-- No attempt begins and none succeeds. -/
structure Calm (s t : State) : Prop where
  generation : t.transport.generation = s.transport.generation
  state : t.transport.state = s.transport.state ∨ t.transport.state = .disconnected
  connections : ∀ g, s.connection? g = none → t.connection? g = none

theorem Calm.of_transport {s t : State} (h : t.transport = s.transport) : Calm s t :=
  ⟨by rw [h], .inl (by rw [h]), fun g hg => by rw [State.connection?, h]; exact hg⟩

theorem calm_record (e : Entry) (s : State) : Calm s (s.record e) := .of_transport rfl

theorem Calm.trans {s t u : State} (h : Calm s t) (k : Calm t u) : Calm s u := by
  refine ⟨k.generation.trans h.generation, ?_, fun g hg => k.connections g (h.connections g hg)⟩
  rcases k.state with hs | hs
  · exact hs ▸ h.state
  · exact .inr hs

variable {P : String → Prop} {R : Response → Prop} {s t : State}

private theorem calm_of_connections (generation : t.transport.generation = s.transport.generation)
    (state : t.transport.state = s.transport.state) (connections : ConnectionsFrom s t) : Calm s t := by
  refine ⟨generation, .inl state, fun g hg => Option.eq_none_iff_forall_ne_some.mpr fun c hc => ?_⟩
  obtain ⟨d, hd, -⟩ := connections g c hc
  rw [hg] at hd
  cases hd

private theorem calm_step (h : Step P s t) : Calm s t :=
  calm_of_connections h.minor.generation h.minor.state h.minor.connections

private theorem calm_steps (h : Steps P s t) : Calm s t :=
  h.keeps (Q := Calm s) (fun _ _ h hs => hs.trans (calm_step h)) (.of_transport rfl)

private theorem calm_takeDown (s : State) : Calm s s.takeDown := by
  refine ⟨?_, .inr ?_, fun g hg => ?_⟩
  · obtain ⟨_, _, h⟩ := State.takeDown_eq s
    rw [h]
  · obtain ⟨_, _, h⟩ := State.takeDown_eq s
    rw [h]
  · cases hc : s.takeDown.connection? g with
    | none => rfl
    | some c =>
      obtain ⟨d, hd, _⟩ := takeDown_served hc
      rw [hg] at hd
      cases hd

private theorem calm_hangUp (s : State) : Calm s s.hangUp := by
  rw [State.hangUp]
  split
  · exact calm_record .hungUp s
  · exact ((calm_record .hungUp s).trans (calm_takeDown _)).trans (calm_record _ _)

private theorem calm_hears (h : Hears P R s t) : Calm s t :=
  h.keeps_of_steps (Q := Calm s) (fun _ _ h hs => hs.trans (calm_step h))
    (fun _ hs => hs.trans (calm_hangUp _)) (.of_transport rfl)

private theorem calm_emit {close : State → State} (hc : Closes (fun _ => True) close) (g : Nat)
    (event : Transport.Event) (s : State) : Calm s (State.emitWith close g event s) :=
  (calm_record (.emitted g event) s).trans
    (calm_hears (emitWith_hears hc g event (heeds_anything s)))

private theorem calm_shut (g : Option Nat) (reason : CloseReason) (s : State) :
    Calm s (s.shut g reason) := by
  rw [State.shut]
  split
  · exact .of_transport rfl
  · exact (calm_takeDown s).trans (calm_emit closes_id _ _ _)

private theorem calm_failConnection (g : Nat) (text : String) (s : State) :
    Calm s (s.failConnection g text) := by
  rw [State.failConnection]
  split
  · exact ((calm_record _ s).trans (calm_emit closes_disconnect g _ _)).trans (calm_shut _ _ _)
  · exact .of_transport rfl

private theorem calm_failAttempt (g : Nat) (e : Fault) (s : State) : Calm s (s.failAttempt g e) := by
  rw [State.failAttempt]
  split
  · have hdown : Calm s (s.modifyTransport fun t => { t with state := .disconnected }) :=
      ⟨rfl, .inr rfl, fun _ hg => hg⟩
    exact hdown.trans (calm_emit closes_disconnect g _ _)
  · exact .of_transport rfl

private theorem calm_chores (h : Chores P s t) : Calm s t := calm_steps h.steps

private theorem calm_readItem (g : Nat) (item : Outcome String) (s : State) :
    Calm s (s.readItem g item) := by
  unfold State.readItem
  split
  · cases item with
    | ok frame =>
      exact (calm_record (.received g (.ok frame)) s).trans (calm_emit closes_disconnect g _ _)
    | error e =>
      have hfail := (calm_record (.received g (.error e)) s).trans
        (calm_failConnection g e.message _)
      exact hfail.trans (calm_chores (P := fun _ => True) (chores_endReader g _))
  · exact .of_transport rfl

private theorem calm_failWrite (g : Nat) (text : String) (s : State) :
    Calm s (s.failWrite g text) := by
  rw [State.failWrite]
  split
  · have hfail := (calm_record (.writeFailed g text) (s.unqueue g)).trans
      (calm_failConnection g text _)
    exact ((calm_chores (P := fun _ => True) (chores_unqueue g s)).trans hfail).trans
      (calm_chores (P := fun _ => True) (chores_endWriter g _))
  · exact .of_transport rfl

private theorem calm_filing {P : String → Prop} (h : Filing P s t) : Calm s t := by
  cases h with
  | send frame s _ => exact calm_step (.send (P := fun _ => True) frame s trivial)
  | note n s => exact calm_record _ s
  | session c s => exact .of_transport rfl
  | shutDown s => exact calm_record _ s

/-- Only these moves begin an attempt or make it a connection. -/
def Move.attempts : Move → Bool
  | .connect | .found .. => true
  | _ => false

private theorem Move.calm {m : Move} (h : m.attempts = false) (s : State) : Calm s (m.apply s) := by
  by_cases hc : m.concernsConnections = true
  · cases m with
    | missed g e => exact calm_failAttempt g e s
    | disconnect => exact calm_hears (Reacts.hears (R := fun _ => False)
        (closes_disconnect (P := fun _ => True) s (heeds_anything s)))
    | read g item => exact calm_readItem g item s
    | readEnd g =>
      simp only [Move.apply]
      split
      · have hshut := (calm_record (.streamEnded g) s).trans (calm_shut (some g) .byPeer _)
        exact hshut.trans (calm_chores (P := fun _ => True) (chores_endReader g _))
      · exact .of_transport rfl
    | failWrite g text => exact calm_failWrite g text s
    | hear frame =>
      exact calm_hears (handleFrame_hears (P := fun _ => True) closes_disconnect frame
        (heeds_anything s))
    | connect | found g l => cases h
    | _ => cases hc
  · by_cases hd : m.concernsDocuments = true
    · exact (m.filings hd s).keeps (Q := Calm s) (fun _ _ h hs => hs.trans (calm_filing h))
        (.of_transport rfl)
    · exact calm_steps
        (m.steps own_anything (by simpa using hc) (by simpa using hd) m.sends_anything s)

private theorem CutOff.calm {g : Nat} (hs : CutOff g s) (h : Calm s t) : CutOff g t where
  begun := h.generation ▸ hs.begun
  ended := by
    rw [← Bool.not_eq_true, isAttempting_iff]
    rintro ⟨hg, hc⟩
    rcases h.state with hst | hst
    · have hatt : s.isAttempting g = true :=
        isAttempting_iff.mpr ⟨h.generation.symm.trans hg, hst.symm.trans hc⟩
      rw [hs.ended] at hatt
      cases hatt
    · rw [hst] at hc
      cases hc
  none := h.connections g hs.none

private theorem CutOff.beginAttempt {g : Nat} (hs : CutOff g s) : CutOff g s.beginAttempt.2 := by
  rw [State.beginAttempt]
  split
  · refine ⟨Nat.le_succ_of_le hs.begun, ?_, hs.none⟩
    rw [← Bool.not_eq_true, isAttempting_iff]
    rintro ⟨hg, _⟩
    have hbegun := hs.begun
    simp only [State.modifyTransport] at hg
    omega
  · exact hs

private theorem CutOff.completeAttempt {g : Nat} (hs : CutOff g s) (k l : Nat) :
    CutOff g (s.completeAttempt k l).2 := by
  rw [State.completeAttempt]
  split
  · rename_i hk
    have hne : k ≠ g := by
      rintro rfl
      rw [hs.ended] at hk
      cases hk
    have hup : CutOff g (s.establish k l) := by
      obtain ⟨tasks, c, _, he⟩ := State.establish_eq k l s
      rw [he]
      refine ⟨hs.begun, ?_, ?_⟩
      · rw [← Bool.not_eq_true, isAttempting_iff]
        rintro ⟨_, hc⟩
        cases hc
      · simp only [State.connection?, Keyed.get?_put, if_neg hne]
        exact hs.none
    exact hup.calm (calm_emit closes_disconnect k _ _)
  · exact hs.calm (.of_transport rfl)

private theorem CutOff.move {g : Nat} (m : Move) (s : State) (hs : CutOff g s) :
    CutOff g (m.apply s) := by
  by_cases hm : m.attempts = true
  · cases m with
    | connect => exact hs.beginAttempt
    | found k l => exact hs.completeAttempt k l
    | _ => cases hm
  · exact hs.calm (Move.calm (by simpa using hm) s)

/-- The caller of an attempt that is over hears of an error, whether or not the peer has a link for it,
and nothing else comes of it. -/
private theorem turnAttempt_over {g : Nat} (h : s.isAttempting g = false) (failure : Option String) :
    ∃ e t, s.turnAttempt (.released g failure) = (.done (.error e), t) ∧
      t.transport = s.transport ∧ t.journal = s.journal := by
  have hfail (e : Fault) : s.failAttempt g e = s := by
    rw [State.failAttempt, h]
    rfl
  cases failure with
  | some text => exact ⟨_, s, by rw [State.turnAttempt, hfail], rfl, rfl⟩
  | none =>
    cases hr : s.peer.refusal with
    | some e =>
      refine ⟨e, s, ?_, rfl, rfl⟩
      simp only [State.turnAttempt, State.reach, State.reachPeer, hr, hfail]
    | none =>
      obtain ⟨_, _, hmade⟩ := State.makeLink_eq s
      have hlink : s.makeLink.2.isAttempting g = false := by
        rw [hmade]
        exact h
      refine ⟨State.abortedAttempt, s.makeLink.2.dropLink s.makeLink.1, ?_, by rw [hmade]; rfl,
        by rw [hmade]; rfl⟩
      simp only [State.turnAttempt, State.reach, State.reachPeer, hr, State.completeAttempt, hlink]
      rfl

private theorem disconnect_state (s : State) : s.disconnect.transport.state = .disconnected := by
  by_cases h : s.transport.state = .disconnected
  · rw [State.disconnect_of_down h]
    exact h
  · have hdown : (s.record .hungUp).takeDown.transport.state = .disconnected := by
      obtain ⟨_, _, ht⟩ := State.takeDown_eq (s.record .hungUp)
      rw [ht]
    rw [State.disconnect_of_up h]
    rcases (calm_emit closes_id s.transport.generation (.closed .byClient)
      (s.record .hungUp).takeDown).state with hst | hst
    · exact hst.trans hdown
    · exact hst

private theorem Told.attempting {failure : Option String} (hs : Told failure s) {g : Nat}
    (h : s.isAttempting g = true) : s.connection? g = none := by
  obtain ⟨hg, hst⟩ := isAttempting_iff.mp h
  cases hc : s.connection? g with
  | none => rfl
  | some c => exact absurd hst ((hs.known g c hc).2.1 hg.symm)

private theorem Told.attempt_move {failure : Option String} (hs : Told failure s) {g : Nat}
    (h : s.isAttempting g = true) (m : Move) :
    (m.apply s).isAttempting g = true ∨ CutOff g (m.apply s) ∨ ∃ l, m = .found g l := by
  have hnone := hs.attempting h
  obtain ⟨hg, hst⟩ := isAttempting_iff.mp h
  have hcalm : Calm s (m.apply s) →
      (m.apply s).isAttempting g = true ∨ CutOff g (m.apply s) ∨ ∃ l, m = .found g l := by
    intro hm
    by_cases ha : (m.apply s).isAttempting g = true
    · exact .inl ha
    · have hbegun : g ≤ (m.apply s).transport.generation :=
        Nat.le_of_eq (hg.symm.trans hm.generation.symm)
      exact .inr (.inl ⟨hbegun, by simpa using ha, hm.connections g hnone⟩)
  by_cases hm : m.attempts = true
  · cases m with
    | connect =>
      refine .inl ?_
      have hbegin : s.beginAttempt = (none, s) := by
        rw [State.beginAttempt, if_neg (by simp [hst])]
      rw [Move.apply, hbegin]
      exact h
    | found k l =>
      by_cases hk : k = g
      · exact .inr (.inr ⟨l, by rw [hk]⟩)
      · refine hcalm ?_
        have hover : s.isAttempting k = false := not_isAttempting (.inl (by rw [hg]; exact Ne.symm hk))
        rw [Move.apply, State.completeAttempt, hover]
        exact .of_transport rfl
    | _ => cases hm
  · exact hcalm (Move.calm (by simpa using hm) s)

/-- The generation counts the attempts: one that begins takes the next number, and nothing else
changes it. -/
structure CountsAttempts (s : State) : Prop where
  begins : s.transport.state = .disconnected → s.beginAttempt.1 = some (s.transport.generation + 1) ∧
    (Move.apply .connect s).transport.generation = s.transport.generation + 1
  ignored : s.transport.state ≠ .disconnected → s.beginAttempt = (none, s)
  kept : ∀ m : Move, m ≠ .connect → (m.apply s).transport.generation = s.transport.generation

theorem countsAttempts (s : State) : CountsAttempts s where
  begins h := by
    rw [Move.apply, State.beginAttempt, if_pos (by simp [h])]
    exact ⟨rfl, rfl⟩
  ignored h := by rw [State.beginAttempt, if_neg (by simpa using h)]
  kept m hm := by
    by_cases ha : m.attempts = true
    · cases m with
      | connect => exact absurd rfl hm
      | found g l =>
        rw [Move.apply, State.completeAttempt]
        split
        · obtain ⟨_, _, _, he⟩ := State.establish_eq g l s
          refine (calm_emit closes_disconnect g .opened _).generation.trans ?_
          rw [he]
        · rfl
      | _ => cases ha
    · exact (Move.calm (by simpa using ha) s).generation

/-- Attempts and connections do not stand in each other's way, whatever happens in a run. A step of an
attempt whose generation is past, or whose connection is no more, disturbs nothing. An attempt that is
under way ends without a connection if the client is told to disconnect, and otherwise only a link that
is found for it makes it a connection; once it has ended without one it never has one, and its caller
gets an error. The generation counts the attempts. -/
theorem late_steps_harmless (layer : Layer) (options : Options) (timeout : Nat)
    (moves : List Move) :
    let s := (State.new layer options timeout).after moves
    (∀ g t, Stale g s → LateStep g s t → Undisturbed g s t) ∧
    (∀ g, s.isAttempting g = true → CutOff g s.disconnect ∧ ∀ m : Move,
      (m.apply s).isAttempting g = true ∨ CutOff g (m.apply s) ∨ ∃ l, m = .found g l) ∧
    (∀ g, CutOff g s → (∀ more, CutOff g (s.after more)) ∧ ∀ failure, ∃ e t,
      s.turnAttempt (.released g failure) = (.done (.error e), t) ∧
        t.transport = s.transport ∧ t.journal = s.journal) ∧
    CountsAttempts s := by
  intro s
  have hs : Told none s := State.after_keeps Told.move (told_new layer options timeout) moves
  refine ⟨fun g t h step => step.undisturbed h, fun g h => ⟨?_, hs.attempt_move h⟩, fun g h => ?_,
    countsAttempts s⟩
  · refine ((hs.attempt_move h .disconnect).resolve_left fun ha => ?_).resolve_right nofun
    have hst := (isAttempting_iff.mp ha).2
    rw [Move.apply, disconnect_state s] at hst
    cases hst
  · exact ⟨State.after_keeps CutOff.move h, turnAttempt_over h.ended⟩

/-- An attempt is called off, and another one becomes the open connection. -/
def superseding : List Move := [.connect, .disconnect, .connect, .found 2 0]

/-- A link that is found for the first attempt even so does not replace the connection of the second. -/
theorem late_steps_harmless_superseded :
    let s := (State.new .transport .standard 30000).after superseding
    Stale 1 s ∧ Undisturbed 1 s (s.completeAttempt 1 1).2 ∧ s.transport.outbound = some 2 := by
  have hstale : Stale 1 ((State.new .transport .standard 30000).after superseding) :=
    .inl (by decide)
  exact ⟨hstale, (late_steps_harmless .transport .standard 30000 superseding).1 1 _ hstale
    (.found 1 _), rfl⟩

end LanguageClient.Client
