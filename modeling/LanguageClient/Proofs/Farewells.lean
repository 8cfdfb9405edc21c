import LanguageClient.Proofs.StaleAttempts
import Mathlib.Data.List.Induction
/-!
How the end of a connection is told. Whatever ends it, the client says so once, and says nothing of it
afterwards; so does an attempt that is called off. An attempt for which the peer has no link is the
exception: it tells of its failure and not of its end, though it leaves the client disconnected just
as well.
-/
namespace LanguageClient.Client
open Relation Transport Rpc Json Session

/-- The event tells of an end. -/
def tellsEnd : Transport.Event → Bool
  | .closed _ => true
  | _ => false

/-- How often a journal tells of the end of an attempt, or of the connection that it became. -/
def closings (g : Nat) (journal : List Entry) : Nat := (events g journal).countP tellsEnd

/-- The attempt, or the connection that it became, is no more. -/
def Bygone (g : Nat) (s : State) : Prop :=
  g ≤ s.transport.generation ∧ (g = s.transport.generation → s.transport.state = .disconnected)

/-- In a run from a state, the attempt found no link. -/
def Missed (g : Nat) (e : Fault) (start : State) (moves : List Move) : Prop :=
  ∃ before after, moves = before ++ .missed g e :: after ∧ (start.after before).isAttempting g = true

/-- The move leaves the client disconnected, which was not, and not because its attempt found no
link. -/
def Move.Ends (m : Move) (s : State) : Prop :=
  s.transport.state ≠ .disconnected ∧ (m.apply s).transport.state = .disconnected ∧
    ∀ e, m ≠ .missed s.transport.generation e

variable {g : Nat} {s t : State}

private theorem events_append (g : Nat) (journal more : List Entry) :
    events g (journal ++ more) = events g journal ++ events g more := List.filterMap_append

private theorem events_grow {C : Entry → Prop} (h : Grows C s t) (g : Nat) :
    events g s.journal <+: events g t.journal := by
  obtain ⟨more, hj, -⟩ := h
  exact ⟨events g more, by rw [hj, events_append]⟩

private theorem events_move (g : Nat) (m : Move) (s : State) :
    events g s.journal <+: events g (m.apply s).journal := events_grow (m.grows s) g

private theorem events_after (g : Nat) (s : State) (moves : List Move) :
    events g s.journal <+: events g (s.after moves).journal :=
  State.after_keeps (Q := fun t => events g s.journal <+: events g t.journal)
    (fun m _ h => h.trans (events_move g m _)) (List.prefix_refl _) moves

private theorem events_hangUp (g : Nat) (s : State) :
    events g s.journal <+: events g s.hangUp.journal := by
  by_cases hdown : s.transport.state = .disconnected
  · rw [State.hangUp_of_down hdown]
    exact events_grow (grows_record (C := fun _ => True) trivial s) g
  · obtain ⟨_, _, htaken⟩ := State.takeDown_eq (s.record .hungUp)
    rw [State.hangUp_of_up hdown, htaken]
    exact events_grow ((grows_record (C := fun _ => True) trivial s).trans (grows_record trivial _)) g

private theorem events_hears {P : String → Prop} {R : Response → Prop} (h : Hears P R s t) (g : Nat) :
    events g s.journal <+: events g t.journal :=
  h.keeps_of_steps (Q := fun t => events g s.journal <+: events g t.journal)
    (fun _ _ h hs => hs.trans (events_grow (step_grows h) g))
    (fun t hs => hs.trans (events_hangUp g t)) (List.prefix_refl _)

/-- The attempt is under way, or it has been told that it succeeded or ended. -/
def Accounted (g : Nat) (s : State) : Prop :=
  s.isAttempting g = true ∨ ∃ e ∈ events g s.journal, e = .opened ∨ tellsEnd e = true

private theorem Accounted.told (h : ∃ e ∈ events g s.journal, e = .opened ∨ tellsEnd e = true)
    (hp : events g s.journal <+: events g t.journal) : Accounted g t := by
  obtain ⟨e, he, htells⟩ := h
  exact .inr ⟨e, hp.subset he, htells⟩

private theorem Accounted.of_grows {C : Entry → Prop} (hs : Accounted g s)
    (generation : t.transport.generation = s.transport.generation)
    (state : t.transport.state = s.transport.state) (journal : Grows C s t) : Accounted g t := by
  rcases hs with h | h
  · refine .inl ?_
    rw [State.isAttempting, generation, state]
    exact h
  · exact .told h (events_grow journal g)

private theorem Accounted.step {P : String → Prop} (h : Step P s t) (hs : Accounted g s) :
    Accounted g t := hs.of_grows h.minor.generation h.minor.state (step_grows h)

private theorem Accounted.hangUp (hs : Accounted g s) : Accounted g s.hangUp := by
  rcases hs with h | h
  · obtain ⟨hg, hst⟩ := isAttempting_iff.mp h
    refine .inr ⟨.closed .byClient, ?_, .inr rfl⟩
    rw [State.hangUp_of_up (by rw [hst]; decide), hg, State.record, events_append]
    refine List.mem_append_right _ ?_
    simp [events, event?]
  · exact .told h (events_hangUp g s)

private theorem Accounted.hears {P : String → Prop} {R : Response → Prop} (h : Hears P R s t)
    (hs : Accounted g s) : Accounted g t :=
  h.keeps_of_steps (fun _ _ h => Accounted.step h) (fun _ h => h.hangUp) hs

private theorem Accounted.filing {P : String → Prop} (h : Filing P s t) (hs : Accounted g s) :
    Accounted g t := by
  cases h with
  | send frame s _ => exact hs.step (.send (P := fun _ => True) frame s trivial)
  | note n s => exact hs.step (.record (P := fun _ => True) _ s rfl)
  | session c s => exact hs.of_grows (C := fun _ => True) rfl rfl (.of_eq rfl)
  | shutDown s => exact hs.of_grows (C := fun _ => True) rfl rfl (grows_record trivial s)

private theorem accounted_found (h : s.isAttempting g = true) (k l : Nat) :
    Accounted g (s.completeAttempt k l).2 := by
  by_cases hk : s.isAttempting k = true
  · obtain rfl : k = g := (isAttempting_iff.mp hk).1.symm.trans (isAttempting_iff.mp h).1
    rw [State.completeAttempt, if_pos hk]
    have hopened : Accounted k ((s.establish k l).record (.emitted k .opened)) := by
      refine .inr ⟨.opened, ?_, .inl rfl⟩
      rw [State.record, events_append]
      refine List.mem_append_right _ ?_
      simp [events, event?]
    exact Accounted.hears (emitWith_hears closes_disconnect k .opened (heeds_anything _)) hopened
  · rw [State.completeAttempt, if_neg hk]
    exact .inl h

private theorem Accounted.attempt_move (hs : Told none s) (h : s.isAttempting g = true) {m : Move}
    (hm : ∀ e, m ≠ .missed g e) : Accounted g (m.apply s) := by
  have hat : Accounted g s := .inl h
  obtain ⟨hg, hst⟩ := isAttempting_iff.mp h
  have hunread (k : Nat) : s.reading k = false := by
    rw [← Bool.not_eq_true]
    intro hr
    have hopen := (hs.reading hr).2
    rw [hst] at hopen
    cases hopen
  by_cases hc : m.concernsConnections = true
  · cases m with
    | connect =>
      rw [Move.apply, (countsAttempts s).ignored (by rw [hst]; decide)]
      exact hat
    | found k l => exact accounted_found h k l
    | missed k e =>
      have hk : s.isAttempting k = false := by
        refine not_isAttempting (.inl fun hk => ?_)
        exact hm e (by rw [hg.symm.trans hk])
      rw [Move.apply, State.failAttempt, hk]
      exact hat
    | disconnect =>
      exact hat.hears (Reacts.hears (R := fun _ => False) (closes_disconnect s (heeds_anything s)))
    | read k item =>
      rw [Move.apply]
      unfold State.readItem
      rw [hunread k]
      exact hat
    | readEnd k =>
      simp only [Move.apply, hunread k]
      exact hat
    | failWrite k text =>
      rw [Move.apply, State.failWrite]
      split
      · rename_i hw
        obtain ⟨c, hc, -⟩ := Option.bind_eq_some_iff.mp hw
        have hk : s.transport.generation ≠ k := fun hk => (hs.known k c hc).2.1 hk.symm hst
        have hlate := LateStep.undisturbed (s := s.unqueue k) (.inl hk) (.writeFailure text _)
        exact hat.of_grows hlate.generation hlate.state hlate.silent
      · exact hat
    | hear frame => exact hat.hears (handleFrame_hears closes_disconnect frame (heeds_anything s))
    | _ => cases hc
  · by_cases hd : m.concernsDocuments = true
    · exact (m.filings hd s).keeps (Q := Accounted g) (fun _ _ h => Accounted.filing h) hat
    · exact (m.steps own_anything (by simpa using hc) (by simpa using hd) m.sends_anything s).keeps
        (fun _ _ h => Accounted.step h) hat

private theorem Missed.more {e : Fault} {start : State} {moves : List Move}
    (h : Missed g e start moves) (m : Move) : Missed g e start (moves ++ [m]) := by
  obtain ⟨before, after, rfl, hat⟩ := h
  exact ⟨before, after ++ [m], by simp, hat⟩

private theorem after_move (s : State) (moves : List Move) (m : Move) :
    s.after (moves ++ [m]) = m.apply (s.after moves) := by
  rw [State.after_append]
  rfl

/-- Of every attempt that has begun it is told what became of it, unless the peer had no link for it. -/
private theorem accounted_after {start : State} (hstart : Told none start)
    (hnone : start.transport.generation = 0) (moves : List Move) (hg : 0 < g)
    (hbegun : g ≤ (start.after moves).transport.generation) :
    Accounted g (start.after moves) ∨ ∃ e, Missed g e start moves := by
  induction moves using List.reverseRecOn with
  | nil =>
    have hzero : (start.after []).transport.generation = 0 := hnone
    omega
  | append_singleton moves m ih =>
    rw [after_move] at hbegun ⊢
    have hs : Told none (start.after moves) := State.after_keeps Told.move hstart moves
    by_cases hold : g ≤ (start.after moves).transport.generation
    · rcases ih hold with (hat | htold) | ⟨e, hmissed⟩
      · by_cases hm : ∃ e, m = .missed g e
        · obtain ⟨e, rfl⟩ := hm
          exact .inr ⟨e, moves, [], rfl, hat⟩
        · exact .inl (.attempt_move hs hat fun e he => hm ⟨e, he⟩)
      · exact .inl (.told htold (events_move g m _))
      · exact .inr ⟨e, hmissed.more m⟩
    · -- the attempt has just begun
      have hcounts := countsAttempts (start.after moves)
      by_cases hm : m = .connect
      · subst hm
        by_cases hdown : (start.after moves).transport.state = .disconnected
        · refine .inl (.inl (isAttempting_iff.mpr ?_))
          have hnext := (hcounts.begins hdown).2
          refine ⟨by omega, ?_⟩
          rw [Move.apply, State.beginAttempt, if_pos (by simp [hdown])]
          rfl
        · rw [Move.apply, hcounts.ignored hdown] at hbegun
          exact absurd hbegun hold
      · rw [hcounts.kept m hm] at hbegun
        exact absurd hbegun hold

private theorem not_bygone_iff : ¬Bygone g s ↔
    s.transport.generation < g ∨ g = s.transport.generation ∧ s.transport.state ≠ .disconnected := by
  rw [Bygone, not_and_or, Nat.not_le, Classical.not_imp]

private theorem closings_eq_zero (hs : Told none s) (h : ¬Bygone g s) :
    closings g s.journal = 0 := by
  have hnothing (hc : course g s.journal = ⟨[], [], .unopened⟩) : closings g s.journal = 0 := by
    rw [closings, (Course.mk.inj hc).1]
    rfl
  rcases not_bygone_iff.mp h with h | ⟨rfl, hup⟩
  · exact hnothing (hs.ahead g h)
  · cases hst : s.transport.state with
    | disconnected => exact absurd hst hup
    | connecting => exact hnothing (hs.attempt hst)
    | opened =>
      obtain ⟨read, hc⟩ := hs.present hst
      rw [closings, (Course.mk.inj hc).1, List.countP_eq_zero]
      simp [Fate.ofFailure, Fate.farewell, tellsEnd]

private theorem Fate.farewell_ends {fate : Fate} (h : fate.isOver = true) :
    ∃ told reason, fate.farewell = told ++ [.closed reason] ∧ ∀ e ∈ told, tellsEnd e = false := by
  cases fate with
  | left | finished => exact ⟨[], _, rfl, nofun⟩
  | failed text | failedAndLeft text => exact ⟨[.failed text], _, rfl, List.forall_mem_singleton.mpr rfl⟩
  | unopened | live | failing text => cases h

private theorem Accounted.ending (hs : Told none s) (hpast : Bygone g s) (h : Accounted g s) :
    ∃ told reason, events g s.journal = told ++ [.closed reason] ∧
      ∀ event ∈ told, tellsEnd event = false := by
  rcases hs.past g hpast.1 hpast.2 with ⟨-, hunopened, -, hlength⟩ | ⟨hover, hevents⟩
  · rcases h with hat | ⟨e, he, htells⟩
    · have hdown := hpast.2 (isAttempting_iff.mp hat).1.symm
      rw [(isAttempting_iff.mp hat).2] at hdown
      cases hdown
    · have hend : tellsEnd e = true := htells.resolve_left fun ho => hunopened (ho ▸ he)
      obtain ⟨reason, rfl⟩ : ∃ reason, e = .closed reason := by
        cases e <;> first | exact ⟨_, rfl⟩ | cases hend
      have hone : events g s.journal = [.closed reason] := by
        obtain ⟨front, back, hsplit⟩ := List.append_of_mem he
        have hevents : events g s.journal = front ++ .closed reason :: back := hsplit
        have hlen : (events g s.journal).length ≤ 1 := hlength
        rw [hevents, List.length_append, List.length_cons] at hlen
        obtain rfl : front = [] := List.eq_nil_of_length_eq_zero (by omega)
        obtain rfl : back = [] := List.eq_nil_of_length_eq_zero (by omega)
        exact hevents
      exact ⟨[], reason, hone, nofun⟩
  · have hevents : events g s.journal =
        .opened :: (frames g s.journal).map .message ++ (fate g s.journal).farewell := hevents
    have hover : (fate g s.journal).isOver = true := hover
    obtain ⟨told, reason, hends, htold⟩ := Fate.farewell_ends hover
    refine ⟨.opened :: (frames g s.journal).map .message ++ told, reason, ?_, ?_⟩
    · rw [hevents, hends, List.append_assoc]
    · simp only [List.cons_append, List.mem_cons, List.mem_append, List.mem_map]
      rintro event (rfl | ⟨frame, -, rfl⟩ | he)
      · rfl
      · rfl
      · exact htold event he

private theorem closings_eq_one (hs : Told none s) (hpast : Bygone g s) (h : Accounted g s) :
    closings g s.journal = 1 := by
  obtain ⟨told, reason, hevents, htold⟩ := h.ending hs hpast
  have hnone : told.countP tellsEnd = 0 :=
    List.countP_eq_zero.mpr fun event he => by simp [htold event he]
  rw [closings, hevents, List.countP_append, hnone]
  rfl

private theorem events_missed (hs : Told none s) (h : s.isAttempting g = true) (e : Fault) :
    [.failed e.message] <+: events g (s.failAttempt g e).journal := by
  obtain ⟨hg, hst⟩ := isAttempting_iff.mp h
  have hnone : events g s.journal = [] := hg ▸ (Course.mk.inj (hs.attempt hst)).1
  have hfirst : events g (s.journal ++ [.emitted g (.failed e.message)]) = [.failed e.message] := by
    rw [events_append, hnone]
    simp [events, event?]
  rw [State.failAttempt, if_pos h, ← hfirst]
  exact events_hears (emitWith_hears (P := fun _ => True) closes_disconnect g (.failed e.message)
    (heeds_anything (s.modifyTransport fun t => { t with state := .disconnected }))) g

private theorem events_failedFirst (hs : Told none s) {text : String}
    (h : [.failed text] <+: events g s.journal) :
    Bygone g s ∧ events g s.journal = [.failed text] := by
  obtain ⟨more, hmore⟩ := h
  have hopened (rest : List Transport.Event) : events g s.journal ≠ .opened :: rest := by
    rw [← hmore]
    exact fun he => by cases he
  have hsome : events g s.journal ≠ [] := by
    rw [← hmore]
    exact fun he => by cases he
  have hpast : Bygone g s := by
    refine ⟨Nat.le_of_not_lt fun hlt => hsome (Course.mk.inj (hs.ahead g hlt)).1, fun hg => ?_⟩
    subst hg
    cases hst : s.transport.state with
    | disconnected => rfl
    | connecting => exact absurd (Course.mk.inj (hs.attempt hst)).1 hsome
    | opened =>
      obtain ⟨read, hc⟩ := hs.present hst
      exact absurd (Course.mk.inj hc).1 (hopened _)
  refine ⟨hpast, ?_⟩
  rcases hs.past g hpast.1 hpast.2 with ⟨-, -, -, hlength⟩ | ⟨-, hevents⟩
  · have hlen : (events g s.journal).length ≤ 1 := hlength
    rw [← hmore] at hlen ⊢
    have hnone : more = [] := List.eq_nil_of_length_eq_zero (by simpa using hlen)
    rw [hnone, List.append_nil]
  · exact absurd hevents (hopened _)

private theorem missed_events {start : State} (hstart : Told none start) {moves : List Move} {e : Fault}
    (h : Missed g e start moves) : Bygone g (start.after moves) ∧
      events g (start.after moves).journal = [.failed e.message] := by
  obtain ⟨before, after, rfl, hat⟩ := h
  have hbefore : Told none (start.after before) := State.after_keeps Told.move hstart before
  refine events_failedFirst (State.after_keeps Told.move hstart _) ?_
  rw [State.after_append]
  exact (events_missed hbefore hat e).trans (events_after g _ after)

private theorem closings_missed {start : State} (hstart : Told none start) {moves : List Move}
    {e : Fault} (h : Missed g e start moves) : closings g (start.after moves).journal = 0 := by
  rw [closings, (missed_events hstart h).2]
  rfl

private theorem closings_of_ends (hs : Told none s) {m : Move} (h : m.Ends s) :
    closings s.transport.generation s.journal = 0 ∧
      closings s.transport.generation (m.apply s).journal = 1 := by
  obtain ⟨hup, hdown, hm⟩ := h
  have hconnect : m ≠ .connect := by
    rintro rfl
    rw [Move.apply, (countsAttempts s).ignored hup] at hdown
    exact hup hdown
  have hpast : Bygone s.transport.generation (m.apply s) :=
    ⟨Nat.le_of_eq ((countsAttempts s).kept m hconnect).symm, fun _ => hdown⟩
  refine ⟨closings_eq_zero hs (not_bygone_iff.mpr (.inr ⟨rfl, hup⟩)), closings_eq_one (hs.move m s) hpast ?_⟩
  cases hst : s.transport.state with
  | disconnected => exact absurd hst hup
  | connecting => exact .attempt_move hs (isAttempting_iff.mpr ⟨rfl, hst⟩) hm
  | opened =>
    obtain ⟨read, hc⟩ := hs.present hst
    refine .told ⟨.opened, ?_, .inl rfl⟩ (events_move _ m s)
    rw [(Course.mk.inj hc).1]
    exact List.mem_cons_self

private theorem closings_of_bygone {start : State} (hstart : Told none start)
    (hnone : start.transport.generation = 0) {moves : List Move} (hg : 0 < g)
    (hpast : Bygone g (start.after moves)) (m : Move) :
    closings g (m.apply (start.after moves)).journal = closings g (start.after moves).journal := by
  have hs : Told none (start.after moves) := State.after_keeps Told.move hstart moves
  rcases accounted_after hstart hnone moves hg hpast.1 with h | ⟨e, hmissed⟩
  · have hone := closings_eq_one hs hpast h
    obtain ⟨told, reason, hevents, -⟩ := h.ending hs hpast
    have hclosed : Event.closed reason ∈ events g (m.apply (start.after moves)).journal :=
      (events_move g m _).subset (by simp [hevents])
    have hlater : Bygone g (m.apply (start.after moves)) := by
      by_contra hnot
      have hzero := closings_eq_zero (g := g) (Told.move m _ hs) hnot
      exact absurd (List.countP_eq_zero.mp hzero _ hclosed) (by simp [tellsEnd])
    rw [hone, closings_eq_one (Told.move m _ hs) hlater (.inr ⟨_, hclosed, .inr rfl⟩)]
  · rw [closings_missed hstart hmissed, ← after_move, closings_missed hstart (hmissed.more m)]

private theorem bygone_move (hnot : ¬Bygone g s) {m : Move} (h : Bygone g (m.apply s)) :
    g = s.transport.generation ∧ s.transport.state ≠ .disconnected ∧
      (m.apply s).transport.state = .disconnected := by
  have hcounts := countsAttempts s
  by_cases hm : m = .connect
  · exfalso
    subst hm
    by_cases hdown : s.transport.state = .disconnected
    · have hnext := (hcounts.begins hdown).2
      have hconnecting : (Move.apply .connect s).transport.state = .connecting := by
        rw [Move.apply, State.beginAttempt, if_pos (by simp [hdown])]
        rfl
      obtain ⟨hle, hlast⟩ := h
      rcases not_bygone_iff.mp hnot with hlt | ⟨-, hup⟩
      · have hended := hlast (by omega)
        rw [hconnecting] at hended
        cases hended
      · exact hup hdown
    · rw [Move.apply, hcounts.ignored hdown] at h
      exact hnot h
  · obtain ⟨hle, hlast⟩ := h
    rw [hcounts.kept m hm] at hle hlast
    rcases not_bygone_iff.mp hnot with hlt | ⟨hg, hup⟩
    · omega
    · exact ⟨hg, hup, hlast hg⟩

private theorem closings_of_not_bygone {start : State} (hstart : Told none start) {moves : List Move}
    (hnot : ¬Bygone g (start.after moves)) {m : Move}
    (hm : ¬(m.Ends (start.after moves) ∧ g = (start.after moves).transport.generation)) :
    closings g (m.apply (start.after moves)).journal = 0 := by
  have hs : Told none (start.after moves) := State.after_keeps Told.move hstart moves
  by_cases hlater : Bygone g (m.apply (start.after moves))
  · obtain ⟨hg, hup, hdown⟩ := bygone_move hnot hlater
    obtain ⟨e, rfl⟩ : ∃ e, m = .missed g e := by
      by_contra hother
      exact hm ⟨⟨hup, hdown, fun e he => hother ⟨e, hg ▸ he⟩⟩, hg⟩
    by_cases hat : (start.after moves).isAttempting g = true
    · rw [← after_move]
      exact closings_missed hstart ⟨moves, [], rfl, hat⟩
    · rw [Move.apply, State.failAttempt, if_neg hat] at hdown
      exact absurd hdown hup
  · exact closings_eq_zero (Told.move m _ hs) hlater

/-- In every run the client tells of the end of whatever has ended, once, when it ends, and as the last
thing that it tells of it; before that it does not. So what fails is told to have ended before the next
attempt begins. The exception are attempts for which the peer has no link: of them only the failure is
told. -/
theorem ends_announced (layer : Layer) (options : Options) (timeout : Nat) (moves : List Move) :
    let start := State.new layer options timeout
    let s := start.after moves
    (∀ m : Move, m.Ends s → closings s.transport.generation s.journal = 0 ∧
      closings s.transport.generation (m.apply s).journal = 1) ∧
    (∀ (m : Move) (g : Nat), 0 < g → ¬(m.Ends s ∧ g = s.transport.generation) →
      closings g (m.apply s).journal = closings g s.journal) ∧
    ∀ g, 0 < g → Bygone g s →
      (∃ told reason, events g s.journal = told ++ [.closed reason] ∧
        ∀ event ∈ told, tellsEnd event = false) ∨
      ∃ e, Missed g e start moves ∧ events g s.journal = [.failed e.message] := by
  intro start s
  have hstart : Told none start := told_new layer options timeout
  have hnone : start.transport.generation = 0 := by cases layer <;> rfl
  have hs : Told none s := State.after_keeps Told.move hstart moves
  refine ⟨fun m hm => closings_of_ends hs hm, fun m g hg hm => ?_, fun g hg hpast => ?_⟩
  · by_cases hpast : Bygone g s
    · exact closings_of_bygone hstart hnone hg hpast m
    · rw [closings_eq_zero hs hpast, closings_of_not_bygone hstart hpast hm]
  · rcases accounted_after hstart hnone moves hg hpast.1 with h | ⟨e, hmissed⟩
    · exact .inl (h.ending hs hpast)
    · exact .inr ⟨e, hmissed, (missed_events hstart hmissed).2⟩

/-- An attempt finds no link, and the next one begins. -/
def retrying : List Move := [.connect, .missed 1 State.refusedAttempt, .connect]

/-- A failure is not always followed by a word about the end before the next attempt begins. -/
theorem failed_attempt_not_closed :
    ¬∀ (layer : Layer) (options : Options) (timeout : Nat) (moves : List Move) (g : Nat),
      let s := (State.new layer options timeout).after moves
      g < s.transport.generation → (∃ text, Event.failed text ∈ events g s.journal) →
        ∃ reason, Event.closed reason ∈ events g s.journal := by
  intro h
  have hevents : events 1 ((State.new .transport .standard 30000).after retrying).journal =
      [.failed "transport error: connection refused by peer"] := by rfl
  obtain ⟨reason, hclosed⟩ := h .transport .standard 30000 retrying 1 (by decide)
    ⟨"transport error: connection refused by peer", by simp [hevents]⟩
  simp [hevents] at hclosed

end LanguageClient.Client
