import LanguageClient.Proofs.LaunchConnection
import LanguageClient.Rehearsal.Exchange
/-!
The start of a session, from its configuration to its outcome. Nothing is assumed of the connector, of
the server or of the schedule: whatever they do, the start succeeds only with an answer of the server to
the `initialize` request that came in time, and otherwise it fails with the fault of the first thing that
went wrong, and nothing goes out after that.
-/
namespace LanguageClient.Client
open Relation Transport Rpc Json Session Config

variable {c : SessionConfig} {processId : Nat} {attempt : Attempt} {params : Value}
  {past : List Happening} {outcome : Outcome Unit} {s t : State}

theorem State.through_append (s : State) (hs more : List Happening) :
    s.through (hs ++ more) = (s.through hs).through more := List.foldl_append

theorem launched_concat (c : SessionConfig) (processId : Nat) (hs : List Happening) (h : Happening) :
    State.launched c processId (hs ++ [h]) = h.apply (State.launched c processId hs) :=
  State.through_append _ hs [h]

theorem Happening.works (h : Happening) (hw : Works s t) : Works s (h.apply t) := by
  cases h with
  | turn w => exact works_run w hw
  | pass ms => exact hw.around rfl rfl rfl rfl rfl
  | peer p => exact hw.around rfl rfl rfl rfl rfl
  | schedule ready alarms => exact hw.around rfl rfl rfl rfl rfl
  | release failure => exact hw.trans (Rehearsal.works_releaseAttempt failure t)
  | note n => exact hw.move (.note n) rfl

/-- Whatever happens to a start is a run of moves of a new client. -/
theorem launched_after (c : SessionConfig) (processId : Nat) (hs : List Happening) : ∃ moves,
    State.launched c processId hs =
      (State.new .session c.transport.options c.rpc.requestTimeoutMs).after moves := by
  have hworks : Works (State.describedBy c) (State.launched c processId hs) := by
    induction hs using List.reverseRecOn with
    | nil => exact Rehearsal.works_start _ (State.describedBy c)
    | append_singleton hs h ih =>
      rw [launched_concat]
      exact h.works ih
  obtain ⟨moves, _, hmoves⟩ := hworks
  exact ⟨moves, hmoves⟩

theorem launched_sound (c : SessionConfig) (processId : Nat) (hs : List Happening) :
    Sound c.rpc.requestTimeoutMs (State.launched c processId hs) := by
  obtain ⟨moves, hmoves⟩ := launched_after c processId hs
  rw [hmoves]
  exact sound_after _ _ _ moves

theorem launched_fit (c : SessionConfig) (processId : Nat) (hs : List Happening) :
    Fit (State.launched c processId hs) := by
  obtain ⟨moves, hmoves⟩ := launched_after c processId hs
  rw [hmoves]
  exact State.after_keeps Fit.move (fit_new _ _ _) moves

/-- A start stands in one of its phases. -/
inductive Stands (c : SessionConfig) (processId : Nat) (past : List Happening) (s : State) : Prop where
  | connecting (attempt : Attempt) (h : Connecting c processId attempt s)
  | negotiating (params : Value) (h : Negotiating c processId params s) (awaited : Awaited 1 s)
  | returned (outcome : Outcome Unit) (h : Returned c processId past outcome s)

theorem launched_nil (c : SessionConfig) (processId : Nat) :
    Setting c (State.launched c processId []) ∧
      Connecting c processId .fresh (State.launched c processId []) := by
  obtain ⟨ready, hwake⟩ := State.wake_eq (.operation 1) { State.describedBy c with
    lastOperation := 1
    operations := [(1, .launch (initializeParams c.client processId) (.connecting .fresh))] }
  have hstart : State.launched c processId [] = { State.describedBy c with
      lastOperation := 1
      operations := [(1, .launch (initializeParams c.client processId) (.connecting .fresh))]
      ready } := hwake
  rw [hstart]
  refine ⟨⟨rfl, ⟨fun kind => ?_, fun method => ?_⟩, nofun, ?_, nofun⟩, rfl, ⟨rfl, rfl⟩, rfl, rfl, rfl,
    rfl, rfl⟩
  · exact (Registry.snapshot_subscribe Registry.empty _ _ _).trans (if_congr eq_comm rfl rfl)
  · exact (Registry.snapshot_subscribe Registry.empty _ _ _).trans (if_congr eq_comm rfl rfl)
  · exact fun before r after h => absurd h.symm (List.append_ne_nil_of_right_ne_nil _ (List.cons_ne_nil _ _))

theorem Negotiating.apply (hs : Negotiating c processId params s) (hset : Setting c s)
    (hsound : Sound c.rpc.requestTimeoutMs s) (hfit : Fit s) (h : Happening) (past : List Happening) :
    Setting c (h.apply s) ∧ (Tends s (h.apply s) ∧ Negotiating c processId params (h.apply s) ∨
      ∃ outcome, Returned c processId past outcome (h.apply s)) := by
  by_cases hh : h = .turn (.operation 1)
  · subst hh
    cases ho : s.engine.outcomes.get? 1 with
    | none =>
      rw [Happening.apply, hs.turn_pending ho]
      exact ⟨hset, .inl ⟨.refl, hs⟩⟩
    | some o =>
      obtain ⟨hset', hlast⟩ := hs.turn_settled hset hsound hfit ho past
      exact ⟨hset', .inr ⟨_, hlast⟩⟩
  · have htends := hs.beside hset hh
    exact ⟨hset.tends htends, .inl ⟨htends, hs.tends htends⟩⟩

/-- At any time the start stands in one of its phases. -/
theorem launched_stands (c : SessionConfig) (processId : Nat) (hs : List Happening) :
    Setting c (State.launched c processId hs) ∧
      Stands c processId hs (State.launched c processId hs) := by
  induction hs using List.reverseRecOn with
  | nil =>
    obtain ⟨hset, hfresh⟩ := launched_nil c processId
    exact ⟨hset, .connecting .fresh hfresh⟩
  | append_singleton hs h ih =>
    obtain ⟨hset, hphase⟩ := ih
    rw [launched_concat]
    cases hphase with
    | connecting attempt hconnecting =>
      by_cases hh : h = .turn (.operation 1)
      · subst hh
        obtain ⟨hset', ⟨_, hwaits⟩ | ⟨r, _, ⟨params, _, hnext, hawaited⟩ | ⟨e, _, hlast⟩⟩⟩ :=
          hconnecting.turn hset rfl
        · exact ⟨hset', .connecting _ hwaits⟩
        · exact ⟨hset', .negotiating params hnext hawaited⟩
        · exact ⟨hset', .returned _ hlast⟩
      · obtain ⟨hset', next, hwaits⟩ := hconnecting.beside hset hh
        exact ⟨hset', .connecting next hwaits⟩
    | negotiating params hnegotiating hawaited =>
      obtain ⟨hset', ⟨htends, hnext⟩ | ⟨outcome, hlast⟩⟩ :=
        hnegotiating.apply hset (launched_sound c processId hs) (launched_fit c processId hs) h
          (hs ++ [h])
      · exact ⟨hset', .negotiating params hnext (htends.awaited hawaited)⟩
      · exact ⟨hset', .returned outcome hlast⟩
    | returned outcome hreturned =>
      have htends := hreturned.beside hset h
      exact ⟨hset.tends htends, .returned outcome (hreturned.tends htends [h])⟩

theorem Returned.later (hs : Returned c processId past outcome (State.launched c processId past))
    (more : List Happening) :
    Returned c processId (past ++ more) outcome (State.launched c processId (past ++ more)) := by
  induction more using List.reverseRecOn with
  | nil => rwa [List.append_nil]
  | append_singleton more h ih =>
    rw [← List.append_assoc, launched_concat]
    exact ih.tends (ih.beside (launched_stands c processId _).1 h) [h]

/-- The start still waits for the answer while something holds of the request, or it has ended. -/
def Waits (c : SessionConfig) (processId : Nat) (params : Value) (Q : State → Prop)
    (past : List Happening) : Prop :=
  Negotiating c processId params (State.launched c processId past) ∧
      Q (State.launched c processId past) ∨
    ∃ outcome, Returned c processId past outcome (State.launched c processId past)

variable {Q P : State → Prop}

theorem Waits.concat (hs : Waits c processId params Q past) (h : Happening)
    (step : ∀ s t, Setting c s → s = State.launched c processId past → t = h.apply s → Tends s t →
      Q s → P t) : Waits c processId params P (past ++ [h]) := by
  obtain ⟨hset, _⟩ := launched_stands c processId past
  obtain ⟨hnegotiating, hq⟩ | ⟨outcome, hreturned⟩ := hs
  · obtain ⟨_, ⟨htends, hnext⟩ | ⟨outcome, hlast⟩⟩ :=
      hnegotiating.apply hset (launched_sound c processId past) (launched_fit c processId past) h
        (past ++ [h])
    · rw [Waits, launched_concat]
      exact .inl ⟨hnext, step _ _ hset rfl rfl htends hq⟩
    · rw [Waits, launched_concat]
      exact .inr ⟨outcome, hlast⟩
  · exact .inr ⟨outcome, hreturned.later [h]⟩

theorem Waits.append (hQ : ∀ s t, Tend s t → Q s → Q t) (hs : Waits c processId params Q past)
    (more : List Happening) : Waits c processId params Q (past ++ more) := by
  induction more using List.reverseRecOn with
  | nil => rwa [List.append_nil]
  | append_singleton more h ih =>
    rw [← List.append_assoc]
    exact ih.concat h fun s t _ _ _ htends hq => htends.keeps hQ hq

/-- The watchdog of the request has a turn, the time for the request passes, and then the watchdog and
the start have their turns again. -/
def TimeUp (c : SessionConfig) (s : State) (hs : List Happening) : Prop :=
  ∃ later more, hs = .turn (.watchdog 1) :: later ++ .turn (.watchdog 1) :: more ++
      [.turn (.operation 1)] ∧
    s.now + c.rpc.requestTimeoutMs ≤ (s.through (.turn (.watchdog 1) :: later)).now

/-- By the time the request has to be answered, the start has ended. -/
theorem Negotiating.timeUp (hs : Negotiating c processId params (State.launched c processId past))
    (awaited : Awaited 1 (State.launched c processId past)) {rest : List Happening}
    (htime : TimeUp c (State.launched c processId past) rest) :
    ∃ outcome, Returned c processId (past ++ rest) outcome
      (State.launched c processId (past ++ rest)) := by
  obtain ⟨later, more, rfl, hdue⟩ := htime
  generalize hd : (State.launched c processId past).now + c.rpc.requestTimeoutMs = due at hdue
  have hwaits : Waits c processId params (Awaited 1) past := .inl ⟨hs, awaited⟩
  -- with its first turn the watchdog has a deadline, unless the request has settled
  have harmed : Waits c processId params (fun s => Awaited 1 s ∧ Armed 1 due s)
      (past ++ [.turn (.watchdog 1)]) := by
    refine hwaits.concat _ fun s t hset hpast ht htends ha => ⟨htends.awaited ha, ?_⟩
    obtain ⟨moves, hmoves⟩ := launched_after c processId past
    have hwatched : Watched 1 s := by
      rw [hpast, hmoves]
      exact watched_after _ _ _ moves 1
    rw [ht, ← hd, ← hpast]
    exact armed_watch hset.punctual hwatched
  have hlate := harmed.append (fun s t h ha => ⟨h.awaited ha.1, h.armed ha.2⟩) later
  -- at its second turn that deadline has passed
  have hsettled : Waits c processId params
      (fun s => Awaited 1 s ∧ s.engine.pending.get? 1 = none)
      (past ++ [.turn (.watchdog 1)] ++ later ++ [.turn (.watchdog 1)]) := by
    refine hlate.concat _ fun s t hset hpast ht htends ha => ⟨htends.awaited ha.1, ?_⟩
    rw [ht]
    refine watch_due hset.punctual ha.2 ?_
    rw [hpast, List.append_assoc]
    exact Nat.le_trans hdue (Nat.le_of_eq (congrArg State.now (State.through_append _ past _).symm))
  have hlast := hsettled.append (fun s t h ha => ⟨h.awaited ha.1, h.settled ha.2⟩) more
  have hpast : past ++ (.turn (.watchdog 1) :: later ++ .turn (.watchdog 1) :: more ++
      [.turn (.operation 1)]) = past ++ [.turn (.watchdog 1)] ++ later ++ [.turn (.watchdog 1)] ++
        more ++ [.turn (.operation 1)] := by simp
  rw [hpast]
  generalize past ++ [.turn (.watchdog 1)] ++ later ++ [.turn (.watchdog 1)] ++ more = earlier at hlast
  obtain ⟨hnegotiating, hawaited, hpending⟩ | ⟨outcome, hreturned⟩ := hlast
  · obtain ⟨o, ho⟩ := Option.ne_none_iff_exists'.mp (hawaited.resolve_left (· hpending))
    rw [launched_concat]
    exact ⟨_, (hnegotiating.turn_settled (launched_stands c processId earlier).1
      (launched_sound c processId earlier) (launched_fit c processId earlier) ho _).2⟩
  · exact ⟨outcome, hreturned.later _⟩

/-- The frames that have been offered for a connection and accepted, in order. -/
def acceptedFrames (g : Nat) (offers : List (String × Option Nat)) : List String :=
  offers.filterMap fun offer => if offer.2 = some g then some offer.1 else none

theorem queued_accepted (keepalive : String) (g : Nat) (journal : List Entry) :
    (ledger keepalive g journal).queued.filter (· ≠ keepalive) =
      (acceptedFrames g (journal.filterMap Entry.offer?)).filter (· ≠ keepalive) := by
  induction journal using List.reverseRecOn with
  | nil => rfl
  | append_singleton journal e ih =>
    rw [ledger_concat, acceptedFrames, List.filterMap_append, List.filterMap_append, List.filter_append]
    rw [acceptedFrames] at ih
    rw [← ih]
    generalize ledger keepalive g journal = l
    -- only accepted offers and keepalives add to the queue, and the latter are left out
    unfold Ledger.after
    split
    · split <;> exact (List.append_nil _).symm
    · split <;> exact (List.append_nil _).symm
    · rename_i frame k
      simp only [List.filterMap_cons, List.filterMap_nil, Entry.offer?, Option.some.injEq]
      split
      · exact List.filter_append _ _
      · exact (List.append_nil _).symm
    · split
      · simp [Entry.offer?]
      · exact (List.append_nil _).symm
    · split <;> exact (List.append_nil _).symm
    · split <;> exact (List.append_nil _).symm
    · split <;> exact (List.append_nil _).symm
    · rename_i hno _ _ _ _
      cases e with
      | offered frame taken =>
        cases taken with
        | none => exact (List.append_nil _).symm
        | some k => exact absurd rfl (hno frame k)
      | _ => exact (List.append_nil _).symm

/-- On every connection, what has been written, apart from keepalives, is what the connection has
accepted, in that order, up to some frame. -/
def State.WritesOffers (keepalive : String) (s : State) : Prop :=
  ∀ g, (ledger keepalive g s.journal).written.filter (· ≠ keepalive) <+:
    (acceptedFrames g s.offers).filter (· ≠ keepalive)

theorem Carried.writesOffers {keepalive : String} (h : Carried keepalive none s) :
    s.WritesOffers keepalive := by
  intro g
  rw [State.offers, ← queued_accepted]
  exact (h.regular g).order.filter _

/-- What the start of a session has come to after all this has happened, and the client with it. -/
def startSession (c : SessionConfig) (processId : Nat) (hs : List Happening) :
    Option (Outcome Unit) × State :=
  match State.ofConfig c with
  | .error e => (some (.error e), State.describedBy c)
  | .ok _ =>
    ((State.launched c processId hs).returned?.map fun outcome => outcome.map fun _ => (),
      State.launched c processId hs)

/-- How the start of a session may stand. -/
inductive StartStands (c : SessionConfig) (processId : Nat) (past : List Happening) :
    Option (Outcome Unit) × State → Prop where
  /-- An invalid configuration is refused before anything is attempted. -/
  | invalid (e : Fault) (s : State) (validation : c.validate = .error e)
    (attempts : s.transport.generation = 0) (journal : s.journal = []) :
    StartStands c processId past (some (.error e), s)
  | connecting (s : State) (attempt : Attempt) (validation : c.validate = .ok ())
    (phase : s.phase? = some (.connecting attempt)) (offers : s.offers = []) :
    StartStands c processId past (none, s)
  | negotiating (s : State) (params : Value) (validation : c.validate = .ok ())
    (built : initializeParams c.client processId = .ok params)
    (phase : s.phase? = some (.negotiating 1)) (offers : s.offers = [(initializeFrame params, some 1)]) :
    StartStands c processId past (none, s)
  | returned (outcome : Outcome Unit) (s : State) (validation : c.validate = .ok ())
    (ending : LaunchEnd c processId past s outcome) : StartStands c processId past (some outcome, s)

/-- What becomes of the start of a session. -/
structure StartGoesOn (c : SessionConfig) (processId : Nat) (past : List Happening) : Prop where
  /-- The start takes the answer of the connector at its next turn. -/
  connected : ∀ r, (State.launched c processId past).connectorAnswer? = some r →
    let t := State.launched c processId (past ++ [.turn (.operation 1)])
    match r.bind fun _ => initializeParams c.client processId with
    | .error e => t.returned? = some (.error e)
    | .ok _ => t.phase? = some (.negotiating 1)
  /-- The start takes the outcome of the request at its next turn. -/
  settled : (State.launched c processId past).phase? = some (.negotiating 1) →
    ∀ o, (State.launched c processId past).engine.outcomes.get? 1 = some o →
      (State.launched c processId (past ++ [.turn (.operation 1)])).returned? =
        some (State.unitOutcome
          (launchOutcome (State.launched c processId past).transport.state o))
  /-- The start does not wait for an answer beyond the time that the request has. What is not there by
  then is too late. -/
  ends : (State.launched c processId past).phase? = some (.negotiating 1) →
    ∀ rest, TimeUp c (State.launched c processId past) rest →
      (State.launched c processId (past ++ rest)).returned? ≠ none
  final : ∀ outcome, (State.launched c processId past).returned? = some outcome →
    ∀ more, (State.launched c processId (past ++ more)).returned? = some outcome

theorem Negotiating.phase (hs : Negotiating c processId params s) :
    s.phase? = some (.negotiating 1) := by
  rw [State.phase?, hs.operations]
  rfl

theorem Returned.phase (hs : Returned c processId past outcome s) : s.phase? = none := by
  rw [State.phase?, hs.operations]
  rfl

theorem startStands (c : SessionConfig) (processId : Nat) (hs : List Happening) :
    StartStands c processId hs (startSession c processId hs) := by
  rw [startSession, State.ofConfig]
  cases hv : c.validate with
  | error e => exact .invalid e _ hv rfl rfl
  | ok u =>
    obtain ⟨_, ⟨attempt, h⟩ | ⟨params, h, _⟩ | ⟨outcome, h⟩⟩ := launched_stands c processId hs
    · simp only [Except.map, h.returned, Option.map_none]
      exact .connecting _ attempt hv h.phase h.offers
    · simp only [Except.map, h.returned, Option.map_none]
      exact .negotiating _ params hv h.built h.phase h.offers
    · have hsame : (State.unitOutcome outcome).map (fun _ => ()) = outcome := by
        cases outcome <;> rfl
      simp only [Except.map.eq_2, h.returned, Option.map_some, hsame]
      exact .returned outcome _ hv h.ending

theorem negotiating_of_phase {hs : List Happening}
    (h : (State.launched c processId hs).phase? = some (.negotiating 1)) :
    ∃ params, Negotiating c processId params (State.launched c processId hs) ∧
      Awaited 1 (State.launched c processId hs) := by
  obtain ⟨_, ⟨attempt, hs⟩ | ⟨params, hs, hawaited⟩ | ⟨outcome, hs⟩⟩ := launched_stands c processId hs
  · cases hs.phase.symm.trans h
  · exact ⟨params, hs, hawaited⟩
  · cases hs.phase.symm.trans h

theorem connecting_of_answer {hs : List Happening} {r : Outcome Unit}
    (h : (State.launched c processId hs).connectorAnswer? = some r) :
    ∃ attempt, Connecting c processId attempt (State.launched c processId hs) := by
  obtain ⟨_, ⟨attempt, hs⟩ | ⟨params, hs, _⟩ | ⟨outcome, hs⟩⟩ := launched_stands c processId hs
  · exact ⟨attempt, hs⟩
  · rw [State.connectorAnswer?, hs.phase] at h
    cases h
  · rw [State.connectorAnswer?, hs.phase] at h
    cases h

theorem returned_of_outcome {hs : List Happening} {outcome : Outcome Value}
    (h : (State.launched c processId hs).returned? = some outcome) :
    ∃ ended, outcome = State.unitOutcome ended ∧
      Returned c processId hs ended (State.launched c processId hs) := by
  obtain ⟨_, ⟨attempt, hs⟩ | ⟨params, hs, _⟩ | ⟨ended, hs⟩⟩ := launched_stands c processId hs
  · cases hs.returned.symm.trans h
  · cases hs.returned.symm.trans h
  · exact ⟨ended, Option.some.inj (h.symm.trans hs.returned), hs⟩

theorem startGoesOn (c : SessionConfig) (processId : Nat) (hs : List Happening) :
    StartGoesOn c processId hs where
  connected r hr := by
    intro t
    obtain ⟨attempt, hconnecting⟩ := connecting_of_answer hr
    have ht : t = (State.launched c processId hs).run (.operation 1) := launched_concat _ _ hs _
    obtain ⟨_, ⟨hnone, _⟩ | ⟨q, hq, hcases⟩⟩ := hconnecting.turn (launched_stands c processId hs).1 rfl
    · cases hnone.symm.trans hr
    · cases hq.symm.trans hr
      obtain ⟨params, hok, hnext, _⟩ | ⟨e, herror, hlast⟩ := hcases
      · rw [hok, ht]
        exact hnext.phase
      · rw [herror, ht]
        exact hlast.returned
  settled hphase o ho := by
    obtain ⟨params, hnegotiating, _⟩ := negotiating_of_phase hphase
    rw [launched_concat]
    exact (hnegotiating.turn_settled (launched_stands c processId hs).1 (launched_sound c processId hs)
      (launched_fit c processId hs) ho hs).2.returned
  ends hphase rest htime := by
    obtain ⟨params, hnegotiating, hawaited⟩ := negotiating_of_phase hphase
    obtain ⟨outcome, hlast⟩ := hnegotiating.timeUp hawaited htime
    rw [hlast.returned]
    nofun
  final outcome ho more := by
    obtain ⟨ended, rfl, hlast⟩ := returned_of_outcome ho
    exact (hlast.later more).returned

/-- One state comes from another by what may happen to a start. -/
def Happens (s t : State) : Prop := ∃ hs : List Happening, t = s.through hs

theorem Happens.refl (s : State) : Happens s s := ⟨[], rfl⟩

theorem Happens.apply (h : Happens s t) (next : Happening) : Happens s (next.apply t) := by
  obtain ⟨hs, rfl⟩ := h
  exact ⟨hs ++ [next], (State.through_append s hs [next]).symm⟩

theorem Happens.wake (h : Happens s t) (w : Work) : Happens s (t.wake w) := by
  obtain ⟨ready, hw⟩ := State.wake_eq w t
  rw [hw]
  exact h.apply (.schedule ready t.alarms)

theorem Happens.ring (h : Happens s t) : Happens s t.ring := by
  obtain ⟨ready, alarms, hring⟩ := State.ring_eq t
  rw [hring]
  exact h.apply (.schedule ready alarms)

theorem Happens.settleWork (turns : Nat) (h : Happens s t) : Happens s (State.settleWork turns t) := by
  induction turns generalizing t with
  | zero => exact h
  | succ turns ih =>
    rw [State.settleWork]
    split
    · rename_i w rest _
      exact ih ((h.apply (.schedule rest t.alarms)).apply (.turn w))
    · split
      · exact h
      · exact ih h.ring

theorem Happens.peerTake (h : Happens s t) : Happens s t.peerTake.2 := by
  obtain ⟨peer, htake⟩ := State.peerTake_eq t
  rw [htake]
  exact h.apply (.peer peer)

theorem Happens.peerPut (h : Happens s t) (item : Outcome String) : Happens s (t.peerPut item).2 := by
  obtain ⟨peer, ready, hput⟩ := State.peerPut_eq item t
  rw [hput]
  exact (h.apply (.peer peer)).apply (.schedule ready t.alarms)

theorem Happens.warns (h : Happens s t) (texts : List String) :
    Happens s (texts.foldl (fun s text => s.warn text) t) := by
  induction texts generalizing t with
  | nil => exact h
  | cons text texts ih => exact ih (h.apply (.note ⟨.warn, text⟩))

end LanguageClient.Client

namespace LanguageClient.Rehearsal.Exchange
open Client Json Transport

theorem happens_deliver {s : State} (rounds : Nat) (x : Exchange) (h : Happens s x.client) :
    Happens s (deliver rounds x).client := by
  induction rounds generalizing x with
  | zero => exact h
  | succ rounds ih =>
    have htaken := (h.settleWork State.turnLimit).peerTake
    rw [deliver]
    simp only
    split
    · exact ih _ ((htaken.warns _).peerPut _)
    · split
      · exact htaken.warns _
      · exact ih _ (htaken.warns _)

theorem happens_await {s : State} (done : State → Bool) (rounds : Nat) (x : Exchange)
    (h : Happens s x.client) : Happens s (await done rounds x).client := by
  induction rounds generalizing x with
  | zero => exact h
  | succ rounds ih =>
    have hdelivered := happens_deliver roundLimit x h
    rw [await]
    split
    · exact hdelivered
    · split
      · exact hdelivered
      · exact ih _ (hdelivered.apply (.pass _))

end LanguageClient.Rehearsal.Exchange

namespace LanguageClient.Client
open Relation Transport Rpc Json Session Config Rehearsal

/-- What a rehearsal makes of a start is among what may happen to it. -/
theorem exchange_start (c : SessionConfig) (processId : Nat) (reached : Outcome Server) : ∃ hs,
    (Exchange.start c processId reached).1 =
        (startSession c processId hs).1.getD (.error Exchange.unfinished) ∧
      (Exchange.start c processId reached).2.client = (startSession c processId hs).2 := by
  cases hvalid : State.ofConfig c with
  | error e => exact ⟨[], by simp only [Exchange.start, startSession, hvalid, Option.getD_some, and_self]⟩
  | ok client =>
    have hclient : client = State.describedBy c := by
      rw [State.ofConfig] at hvalid
      cases hv : c.validate with
      | error e =>
        rw [hv] at hvalid
        cases hvalid
      | ok u =>
        rw [hv] at hvalid
        exact (Except.ok.inj hvalid).symm
    subst hclient
    obtain ⟨p, server, hbetween⟩ : ∃ p server, Exchange.between (State.describedBy c) reached =
        ⟨{ State.describedBy c with peer := p }, server⟩ := by
      cases reached with
      | ok server => exact ⟨_, server, rfl⟩
      | error f => exact ⟨_, _, rfl⟩
    -- the start takes no notice of the peer before its first turn
    have hlaunch : State.launch c processId { State.describedBy c with peer := p } =
        (1, Happening.apply (.peer p) (State.launched c processId [])) := rfl
    obtain ⟨hs, hrun⟩ := Exchange.happens_await (fun s => !s.operations.contains 1) Exchange.roundLimit
      ⟨Happening.apply (.peer p) (State.launched c processId []), server⟩
      ((Happens.refl (State.launched c processId [])).apply (.peer p))
    refine ⟨hs, ?_⟩
    simp only [Exchange.start, startSession, hvalid, hbetween, Exchange.run, Exchange.act, hlaunch]
    rw [hrun]
    refine ⟨?_, rfl⟩
    change (((State.launched c processId hs).returned?).getD _).map _ = _
    cases (State.launched c processId hs).returned? <;> rfl

/-- Of the start of a session, whatever the connector, the server and the schedule make of it, and so of
every rehearsal: it stands in one of its phases or has ended for a reason of its own, nothing but what it
has offered goes out besides keepalives, and it takes the answers that come and waits no longer than it
is to. -/
theorem session_start (c : SessionConfig) (processId : Nat) :
    (∀ hs, StartStands c processId hs (startSession c processId hs) ∧
      (startSession c processId hs).2.WritesOffers c.transport.options.keepaliveFrame ∧
      StartGoesOn c processId hs) ∧
    ∀ reached, ∃ hs,
      (Exchange.start c processId reached).1 =
          (startSession c processId hs).1.getD (.error Exchange.unfinished) ∧
        (Exchange.start c processId reached).2.client = (startSession c processId hs).2 := by
  refine ⟨fun hs => ⟨startStands c processId hs, ?_, startGoesOn c processId hs⟩,
    exchange_start c processId⟩
  obtain ⟨moves, hmoves⟩ := launched_after c processId hs
  have hnew := carried_new .session c.transport.options c.rpc.requestTimeoutMs
  rw [startSession]
  split
  · exact hnew.writesOffers
  · rw [hmoves]
    exact Carried.writesOffers (State.after_keeps Carried.move hnew moves)

def saying (frame : String) : Peer :=
  { State.freshPeer with
    reads := some 0
    writes := some 0
    links := [(0, ⟨[], true, true, [.ok frame], true, true⟩)] }

example : (startSession ⟨.default, .default, ⟨"editor", none, none⟩⟩ 7
    [.turn (.operation 1), .peer (saying "\x7b\"jsonrpc\":\"2.0\",\"id\":1,\"result\":\x7b\x7d\x7d"),
      .turn (.reader 1), .turn (.operation 1)]).1.map Except.toOption = some (some ()) := by
  decide +kernel

end LanguageClient.Client
