import LanguageClient.Proofs.LaunchPhases
/-!
The start of a session up to its connection and its request. Each turn leaves the start waiting for the
connector, or fails with what the connector has to say, or has the `initialize` request go out on the
connection that is there now.
-/
namespace LanguageClient.Client
open Relation Transport Rpc Json Session Config

variable {c : SessionConfig} {processId : Nat} {attempt : Attempt} {params : Value}
  {past : List Happening} {outcome : Outcome Unit} {s t : State}

/-- An attempt at a connection leaves the rest of the start as it was. -/
structure Tried (s t : State) : Prop where
  released : t.released = s.released
  hub : t.transport.hub = s.transport.hub
  now : t.now = s.now
  operations : t.operations = s.operations
  engine : t.engine = s.engine
  session : t.session = s.session
  journal : Grows (fun e => e.isOfService = true ∧ e.isAnswer = false) s t

theorem Tried.trans {u : State} (h : Tried s t) (k : Tried t u) : Tried s u :=
  ⟨k.released.trans h.released, k.hub.trans h.hub, k.now.trans h.now,
    k.operations.trans h.operations, k.engine.trans h.engine, k.session.trans h.session,
    h.journal.trans k.journal⟩

theorem Tried.grows (h : Tried s t) : Grows (·.isOfService = true) s t :=
  h.journal.mono fun _ he => he.1

theorem Tried.emitted (h : Tried s t) (g : Nat) (event : Transport.Event) :
    Tried s (t.record (.emitted g event)) :=
  h.trans ⟨rfl, rfl, rfl, rfl, rfl, rfl, grows_record ⟨rfl, rfl⟩ t⟩

theorem Setting.tried (hs : Setting c s) (h : Tried s t) : Setting c t :=
  hs.part ⟨h.released, h.hub, by rw [h.engine], by rw [h.engine], h.now,
    h.journal.mono fun _ he => ⟨.inl he.1, he.2⟩⟩

/-- The connection of the start is open. -/
structure Linked (s : State) : Prop where
  generation : s.transport.generation = 1
  state : s.transport.state = .opened
  outbound : s.transport.outbound = some 1
  told : .emitted 1 .opened ∈ s.journal

/-- What an attempt has come to that the connector has let go of. -/
inductive Reached (s : State) : Outcome Unit → State → Prop where
  | refused {t : State} (e : Fault) (tried : Tried s t)
    (told : .emitted 1 (.failed e.message) ∈ t.journal) : Reached s (.error e) t
  | linked {t : State} (tried : Tried s t) (linked : Linked t) : Reached s (.ok ()) t

theorem Reached.after {u : State} {r : Outcome Unit} (h : Tried s t)
    (k : Reached t r u) : Reached s r u := by
  cases k with
  | refused e tried told => exact .refused e (h.trans tried) told
  | linked tried linked => exact .linked (h.trans tried) linked

theorem failAttempt_reached (hset : Setting c s) (h : s.isAttempting 1 = true) (e : Fault) :
    Reached s (.error e) (s.failAttempt 1 e) := by
  have hdown : Tried s (s.modifyTransport fun t => { t with
      state := .disconnected }) :=
    ⟨rfl, rfl, rfl, rfl, rfl, rfl, .of_eq rfl⟩
  rw [State.failAttempt, if_pos h, State.emit, emitWith_unheard (hset.tried hdown).unobserved
    (by simp [Transport.Event.kind])]
  exact .refused e (hdown.emitted _ _) (List.mem_append_right _ List.mem_cons_self)

theorem completeAttempt_reached (hset : Setting c s) (h : s.isAttempting 1 = true) (l : Nat) :
    Reached s (s.completeAttempt 1 l).1 (s.completeAttempt 1 l).2 := by
  obtain ⟨tasks, k, ready, hest⟩ := State.establish_eq 1 l s
  have hup : Tried s (s.establish 1 l) := by
    rw [hest]
    exact ⟨rfl, rfl, rfl, rfl, rfl, rfl, .of_eq rfl⟩
  rw [State.completeAttempt, if_pos h, State.emit,
    emitWith_unheard (hset.tried hup).unobserved (by decide)]
  refine .linked (hup.emitted _ _) ⟨?_, ?_, ?_, List.mem_append_right _ List.mem_cons_self⟩ <;>
    simp only [State.record, hest]
  exact (isAttempting_iff.mp h).1

/-- An attempt that reaches the peer comes to what the peer has for it. -/
theorem reachPeer_reached (hset : Setting c s) (h : s.isAttempting 1 = true) : ∃ t,
    s.reachPeer 1 = (s.reachable, t) ∧ Reached s s.reachable t := by
  rw [State.reachPeer, State.reachable]
  cases s.peer.refusal with
  | some e => exact ⟨_, rfl, failAttempt_reached hset h e⟩
  | none =>
    obtain ⟨peer, ready, hlink⟩ := State.makeLink_eq s
    have hmade : Tried s s.makeLink.2 := by
      rw [hlink]
      exact ⟨rfl, rfl, rfl, rfl, rfl, rfl, .of_eq rfl⟩
    have h' : s.makeLink.2.isAttempting 1 = true := by
      rw [hlink]
      exact h
    have hreached := completeAttempt_reached (hset.tried hmade) h' s.makeLink.1
    have hok : (s.makeLink.2.completeAttempt 1 s.makeLink.1).1 = .ok () := by
      rw [State.completeAttempt, if_pos h']
    rw [hok] at hreached
    exact ⟨_, Prod.ext hok rfl, hreached.after hmade⟩

theorem Connecting.phase (hs : Connecting c processId attempt s) :
    s.phase? = some (.connecting attempt) := by
  rw [State.phase?, hs.operations]
  rfl

/-- A turn of the attempt takes it to the connector, leaves it there, or takes what the connector says. -/
theorem Connecting.turnAttempt (hs : Connecting c processId attempt s) (hset : Setting c s) :
    (s.connectorAnswer? = none ∧ ∃ t, s.turnAttempt attempt = (.waiting (.held 1), t) ∧
      Tried s t ∧ t.transport.connections = s.transport.connections ∧
        (Attempt.held 1).Suits t.transport) ∨
    ∃ r t, s.connectorAnswer? = some r ∧ s.turnAttempt attempt = (.done r, t) ∧
      Reached s r t := by
  have hphase := hs.phase
  have hsuits := hs.suits
  have hsame : Tried s s :=
    ⟨rfl, rfl, rfl, rfl, rfl, rfl, .refl s⟩
  rw [State.connectorAnswer?, hphase]
  cases attempt with
  | held g =>
    obtain ⟨rfl, _⟩ := hsuits
    exact .inl ⟨rfl, s, rfl, hsame, rfl, hs.suits⟩
  | released g failure =>
    obtain ⟨rfl, hstate, hgen⟩ := hsuits
    have hattempt : s.isAttempting 1 = true := isAttempting_iff.mpr ⟨hgen, hstate⟩
    cases failure with
    | some text => exact .inr ⟨_, _, rfl, rfl, failAttempt_reached hset hattempt _⟩
    | none =>
      obtain ⟨t, hreach, hreached⟩ := reachPeer_reached hset hattempt
      refine .inr ⟨_, t, rfl, ?_, hreached⟩
      simp only [State.turnAttempt, State.reach, hreach]
  | fresh =>
    obtain ⟨hstate, hgen⟩ := hsuits
    have hbegin : s.beginAttempt = (some 1, s.modifyTransport fun t => { t with
        state := .connecting, generation := 1 }) := by
      rw [State.beginAttempt, hstate, hgen]
      rfl
    have hbegun : Tried s (s.modifyTransport fun t => { t with
        state := .connecting, generation := 1 }) :=
      ⟨rfl, rfl, rfl, rfl, rfl, rfl, .of_eq rfl⟩
    have hholds : (s.modifyTransport fun t => { t with
        state := .connecting, generation := 1 }).peer.holds = s.peer.holds := rfl
    rw [State.turnAttempt]
    simp only [hbegin, hholds]
    cases s.peer.holds with
    | true => exact .inl ⟨rfl, _, rfl, hbegun, rfl, rfl, rfl, rfl⟩
    | false =>
      obtain ⟨t, hreach, hreached⟩ := reachPeer_reached (hset.tried hbegun)
        (isAttempting_iff.mpr ⟨rfl, rfl⟩)
      refine .inr ⟨_, t, rfl, ?_, hreached.after hbegun⟩
      simp only [Bool.false_eq_true, if_false, State.reach, hreach]
      rfl

theorem map_eq_error {ε α β : Type} {f : α → β} {x : Except ε α} {e : ε}
    (h : x.map f = .error e) : x = .error e := by
  cases x with
  | error _ => exact congrArg Except.error (Except.error.inj h)
  | ok _ => cases h

theorem mapM_outcome {α β : Type} (f : α → Outcome β) (a : α) : (some a).mapM f = (f a).map some := rfl

theorem toUri_error {root : String} {e : Fault} (h : Path.toUri root = .error e) :
    Uri.ofString? ("file://" ++ root) = none ∧ e = .invalidUri ("file://" ++ root) := by
  unfold Path.toUri at h
  generalize "file://" ++ root = text at h ⊢
  simp only at h
  cases huri : Uri.ofString? text with
  | none =>
    rw [huri] at h
    exact ⟨rfl, (Except.error.inj h).symm⟩
  | some uri =>
    rw [huri] at h
    cases h

/-- Only a root without a URI stands in the way of the parameters. -/
theorem initializeParams_error {client : ClientSettings} {e : Fault}
    (h : initializeParams client processId = .error e) : ∃ root, client.root = some root ∧
      Uri.ofString? ("file://" ++ root) = none ∧ e = .invalidUri ("file://" ++ root) := by
  rw [initializeParams] at h
  have hfolder := map_eq_error h
  cases hroot : client.root with
  | none =>
    rw [hroot] at hfolder
    cases hfolder
  | some root =>
    rw [hroot, mapM_outcome] at hfolder
    have hwhole := map_eq_error hfolder
    rw [workspaceFolder] at hwhole
    exact ⟨root, rfl, toUri_error (map_eq_error hwhole)⟩

/-- A request that is issued while the connection is open, on the engine's own terms. -/
structure Issues (method : String) (params : Value) (g : Nat) (s t : State) : Prop where
  core : t.core = s.core
  state : t.transport.state = s.transport.state
  now : t.now = s.now
  pending : t.engine.pending.get? s.engine.nextId ≠ none
  watchdogs : t.engine.watchdogs =
    s.engine.watchdogs.put s.engine.nextId ⟨s.engine.requestTimeout, none, none⟩
  outcomes : t.engine.outcomes = s.engine.outcomes
  journal : t.journal = s.journal ++ [.issued s.engine.nextId method s.engine.requestTimeout none,
    .offered (Request.new s.engine.nextId method (encodeParams params)).wire (some g)]

theorem guard_keeps (id : Int) (options : CallOptions) (s : State) :
    let t := (s.guard id options).attach id
    t.core = s.core ∧ t.transport = s.transport ∧ t.now = s.now := by
  obtain ⟨ready, hw⟩ := State.wake_eq (.watchdog id) (s.modifyEngine fun e => { e with
    watchdogs := e.watchdogs.put id ⟨s.effectiveTimeout options, options.token, none⟩ })
  rw [State.guard, hw, State.attach, State.modifyEngine]
  refine ⟨?_, rfl, rfl⟩
  simp only [State.core]
  split <;> rfl

theorem request_issues {g : Nat} (hopen : s.transport.state = .opened)
    (hout : s.transport.outbound = some g) (method : String) (params : Value) :
    ∃ t, s.request method params CallOptions.none = (s.engine.nextId, t) ∧
      Issues method params g s t := by
  have hid : (s.enter method CallOptions.none).1 = s.engine.nextId := rfl
  have htoken : (s.enter method CallOptions.none).2.tokenCancelled CallOptions.none = false := rfl
  obtain ⟨k, ready, _, hk, hsend⟩ | ⟨hno, _⟩ := State.send_cases
    (Request.new s.engine.nextId method (encodeParams params)).wire (s.enter method CallOptions.none).2
  · obtain rfl : k = g := Option.some.inj (hk.symm.trans hout)
    rw [State.request]
    simp only [htoken, hid, State.handOver, hsend, Bool.false_eq_true, if_false]
    generalize hu : ({ (s.enter method CallOptions.none).2.modifyConnection k fun c => { c with
        queue := c.queue ++ [(Request.new s.engine.nextId method (encodeParams params)).wire] } with
      ready := ready
      journal := (s.enter method CallOptions.none).2.journal ++ [.offered
        (Request.new s.engine.nextId method (encodeParams params)).wire (some k)] } : State) = u
    have hpending : u.engine.pending.get? s.engine.nextId = some ⟨method, false⟩ := by
      rw [← hu]
      exact Keyed.get?_put_self _ _ _
    obtain ⟨hcore, htransport, hnow⟩ := guard_keeps s.engine.nextId CallOptions.none u
    have hengine := guard_engine hpending CallOptions.none
    refine ⟨_, rfl, hcore.trans ?_, ?_, hnow.trans ?_, ?_, ?_, ?_, (guard_journal _ _ u).trans ?_⟩
    · rw [← hu]
      rfl
    · rw [htransport, ← hu]
      rfl
    · rw [← hu]
      rfl
    · rw [hengine]
      simp only [Keyed.get?_modify, hpending, if_true, Option.map_some]
      exact Option.some_ne_none _
    · rw [hengine, ← hu]
      rfl
    · rw [hengine, ← hu]
      rfl
    · rw [← hu]
      exact List.append_assoc _ _ _
  · exact absurd hout (hno g hopen)

theorem negotiateLaunch_rootless (hset : Setting c s) (hlinked : Linked s)
    (operations : s.operations.erase 1 = []) (session : s.session = State.freshConversation)
    (offers : s.offers = []) (returned : s.returned? = none) {e : Fault}
    (hp : initializeParams c.client processId = .error e) (past : List Happening) :
    let t := s.negotiateLaunch 1 (initializeParams c.client processId)
    Setting c t ∧ Returned c processId past (.error e) t := by
  intro t
  obtain ⟨root, hroot, huri, he⟩ := initializeParams_error hp
  have hend : LaunchEnd c processId past s (.error e) := by
    rw [he]
    exact .rootless root hroot huri hlinked.told offers (by rw [session]; rfl)
  have ht : t = s.finish 1 (State.unitOutcome (.error e)) := by
    simp only [t, hp, State.negotiateLaunch]
    rfl
  rw [ht]
  exact hset.returns operations returned hend

/-- The first request of a client that has a connection, which is to initialize the session. -/
structure Introduces (c : SessionConfig) (params : Value) (s u : State) : Prop where
  core : u.core = (s.setLifecycle .initializing).core
  state : u.transport.state = s.transport.state
  pending : u.engine.pending.get? 1 ≠ none
  watchdogs : u.engine.watchdogs = [(1, ⟨c.rpc.requestTimeoutMs, none, none⟩)]
  outcomes : u.engine.outcomes = []
  journal : u.journal = s.journal ++ [.issued 1 "initialize" c.rpc.requestTimeoutMs none,
    .offered (initializeFrame params) (some 1)]

theorem request_introduces (hlinked : Linked s) (engine : s.engine = (State.describedBy c).engine)
    (params : Value) : ∃ u,
      (s.setLifecycle .initializing).request "initialize" params CallOptions.none = (1, u) ∧
      Introduces c params s u := by
  obtain ⟨u, hrequest, hissues⟩ := request_issues (s := s.setLifecycle .initializing) hlinked.state
    hlinked.outbound "initialize" params
  have hengine : (s.setLifecycle .initializing).engine = (State.describedBy c).engine := engine
  have hid : (State.describedBy c).engine.nextId = 1 := rfl
  have hpending := hissues.pending
  have hwatchdogs := hissues.watchdogs
  have houtcomes := hissues.outcomes
  have hjournal := hissues.journal
  rw [hengine] at hrequest hpending hwatchdogs houtcomes hjournal
  rw [hid] at hrequest hpending
  exact ⟨u, hrequest, hissues.core, hissues.state, hpending, hwatchdogs, houtcomes, hjournal⟩

private theorem introduction_ofTurn (c : SessionConfig) (params : Value) :
    ∀ e ∈ [Entry.issued 1 "initialize" c.rpc.requestTimeoutMs none,
      .offered (initializeFrame params) (some 1)], e.OfTurn c.rpc.requestTimeoutMs :=
  List.forall_mem_cons.mpr ⟨⟨.inr (.inr (.inl rfl)), rfl⟩,
    List.forall_mem_singleton.mpr (Entry.ofTurn_offered _ _ _)⟩

section Introduces
variable {u : State} (hu : Introduces c params s u)
include hu

theorem Introduces.setting (hset : Setting c s) : Setting c u := by
  have hentries := introduction_ofTurn c params
  have hheard : Unobserved (s.setLifecycle .initializing) :=
    ⟨hset.unobserved.events, hset.unobserved.topics⟩
  refine ⟨(congrArg Core.released hu.core).trans hset.released, hheard.of_core hu.core, ?_,
    hset.credited.grows (s := s) (fun r h => by cases h.2) ⟨_, hu.journal, hentries⟩, ?_⟩
  · -- the only watchdog is that of the request, which has not had a turn yet
    intro id w hw
    rw [hu.watchdogs, Keyed.get?_cons] at hw
    split at hw <;> cases hw
    exact ⟨rfl, rfl, fun _ hd => by cases hd⟩
  · rw [hu.journal]
    exact List.forall_mem_append.mpr ⟨hset.entries, fun e he => (hentries e he).1⟩

theorem Introduces.negotiating (hlinked : Linked s) {old : LaunchPhase}
    (operations : s.operations = [(1, .launch (initializeParams c.client processId) old)])
    (offers : s.offers = []) (returned : s.returned? = none)
    (hp : initializeParams c.client processId = .ok params) :
    Negotiating c processId params (u.putOperation 1 (.launch (.ok params) (.negotiating 1))) := by
  have hkept : u.operations = s.operations := congrArg Core.operations hu.core
  refine ⟨hp, ?_, (congrArg Core.generation hu.core).trans hlinked.generation, ?_,
    congrArg (fun core => core.session.lifecycle) hu.core,
    (State.offers_append (s := s) hu.journal).trans (by rw [offers]; rfl),
    (State.returned?_append (s := s) hu.journal).trans (by rw [returned]; rfl)⟩
  · rw [State.putOperation, hkept, operations]
    rfl
  · change u.transport.state ≠ .connecting
    rw [hu.state, hlinked.state]
    decide

end Introduces

/-- With the connection there, the request goes out, and the start waits for what comes of it. -/
theorem negotiateLaunch_issues (hset : Setting c s) (hlinked : Linked s) {old : LaunchPhase}
    (operations : s.operations = [(1, .launch (initializeParams c.client processId) old)])
    (engine : s.engine = (State.describedBy c).engine) (session : s.session = State.freshConversation)
    (offers : s.offers = []) (returned : s.returned? = none)
    (hp : initializeParams c.client processId = .ok params) :
    let t := s.negotiateLaunch 1 (initializeParams c.client processId)
    Setting c t ∧ Negotiating c processId params t ∧ Awaited 1 t := by
  intro t
  have hbegin : s.beginInitialize = s.setLifecycle .initializing := by
    rw [State.beginInitialize, if_pos (by rw [session]; rfl)]
  obtain ⟨u, hrequest, hu⟩ := request_introduces hlinked engine params
  have hnone : (u.putOperation 1 (.launch (.ok params) (.negotiating 1))).collect 1 = none := by
    simp only [State.collect, State.putOperation, hu.outcomes]
    rfl
  have ht : t = u.putOperation 1 (.launch (.ok params) (.negotiating 1)) := by
    simp only [t, hp, State.negotiateLaunch, hbegin, hrequest, State.awaitLaunch, hnone]
  rw [ht]
  exact ⟨(hu.setting hset).part ⟨rfl, rfl, rfl, rfl, rfl, .of_eq rfl⟩,
    hu.negotiating hlinked operations offers returned hp, .inl hu.pending⟩

theorem Connecting.onward {next : Attempt} (hs : Connecting c processId attempt s)
    (operations : t.operations =
      [(1, .launch (initializeParams c.client processId) (.connecting next))])
    (suits : next.Suits t.transport) (engine : t.engine = s.engine) (session : t.session = s.session)
    (connections : t.transport.connections = s.transport.connections)
    (journal : Grows (·.isOfService = true) s t) : Connecting c processId next t :=
  ⟨operations, suits, engine.trans hs.engine, session.trans hs.session,
    connections.trans hs.connections, journal.offers.trans hs.offers,
    journal.returned?.trans hs.returned⟩

theorem waitForPeer_eq (n : Nat) (op : Operation) (s : State) :
    ∃ peer, s.waitForPeer n op = { s.putOperation n op with peer } := by
  rw [State.waitForPeer]
  split
  · exact ⟨_, rfl⟩
  · exact ⟨_, rfl⟩

/-- While the connector holds the attempt, which is noted at the peer, the start waits. -/
private theorem Connecting.waits {u : State} (hs : Connecting c processId attempt s) (hset : Setting c s)
    (tried : Tried s u) (connections : u.transport.connections = s.transport.connections)
    (suits : (Attempt.held 1).Suits u.transport) :
    let t := u.waitForPeer 1 (.launch (initializeParams c.client processId) (.connecting (.held 1)))
    Setting c t ∧ Connecting c processId (.held 1) t := by
  obtain ⟨peer, hwait⟩ := waitForPeer_eq 1
    (.launch (initializeParams c.client processId) (.connecting (.held 1))) u
  simp only [hwait]
  refine ⟨(hset.tried tried).part ⟨rfl, rfl, rfl, rfl, rfl, .of_eq rfl⟩,
    hs.onward ?_ suits tried.engine tried.session connections tried.grows⟩
  change u.operations.put 1 _ = _
  rw [tried.operations, hs.operations]
  rfl

private theorem Connecting.refused {u : State} (hs : Connecting c processId attempt s)
    (hset : Setting c s) (hlaunched : State.launched c processId past = s) {e : Fault}
    (hanswer : s.connectorAnswer? = some (.error e)) (tried : Tried s u)
    (told : .emitted 1 (.failed e.message) ∈ u.journal) :
    let t := u.finish 1 (State.unitOutcome (.error e))
    Setting c t ∧ Returned c processId (past ++ [.turn (.operation 1)]) (.error e) t := by
  have hend : LaunchEnd c processId (past ++ [.turn (.operation 1)]) u (.error e) :=
    .refused e ⟨past, [], rfl, hlaunched ▸ hanswer⟩ told (tried.grows.offers.trans hs.offers)
      (by rw [tried.session, hs.session]; rfl)
  exact (hset.tried tried).returns (by rw [tried.operations, hs.operations]; rfl)
    (tried.grows.returned?.trans hs.returned) hend

private theorem Connecting.linked {u : State} (hs : Connecting c processId attempt s)
    (hset : Setting c s) (tried : Tried s u) (linked : Linked u) (past : List Happening) :
    let t := u.negotiateLaunch 1 (initializeParams c.client processId)
    Setting c t ∧
      ((∃ params, initializeParams c.client processId = .ok params ∧
          Negotiating c processId params t ∧ Awaited 1 t) ∨
        ∃ e, initializeParams c.client processId = .error e ∧ Returned c processId past (.error e) t) := by
  have hsession := tried.session.trans hs.session
  have hoffers := tried.grows.offers.trans hs.offers
  have hreturned := tried.grows.returned?.trans hs.returned
  cases hp : initializeParams c.client processId with
  | error e =>
    have hended := negotiateLaunch_rootless (hset.tried tried) linked
      (by rw [tried.operations, hs.operations]; rfl) hsession hoffers hreturned hp past
    rw [hp] at hended
    exact ⟨hended.1, .inr ⟨e, rfl, hended.2⟩⟩
  | ok params =>
    have hissued := negotiateLaunch_issues (hset.tried tried) linked
      (tried.operations.trans hs.operations) (tried.engine.trans hs.engine) hsession hoffers hreturned hp
    rw [hp] at hissued
    exact ⟨hissued.1, .inl ⟨params, rfl, hissued.2⟩⟩

/-- A turn of the start leaves it waiting until the connector has answered. Then the start fails, or the
request goes out. -/
theorem Connecting.turn (hs : Connecting c processId attempt s) (hset : Setting c s)
    (hlaunched : State.launched c processId past = s) :
    let t := s.run (.operation 1)
    Setting c t ∧ ((s.connectorAnswer? = none ∧ Connecting c processId (.held 1) t) ∨
      ∃ r, s.connectorAnswer? = some r ∧
        ((∃ params, r.bind (fun _ => initializeParams c.client processId) = .ok params ∧
            Negotiating c processId params t ∧ Awaited 1 t) ∨
          ∃ e, r.bind (fun _ => initializeParams c.client processId) = .error e ∧
            Returned c processId (past ++ [.turn (.operation 1)]) (.error e) t)) := by
  intro t
  have hop : s.operations.get? 1 =
      some (.launch (initializeParams c.client processId) (.connecting attempt)) := by
    rw [hs.operations]
    rfl
  have hrun : t = s.runLaunch 1 (initializeParams c.client processId) (.connecting attempt) := by
    simp only [t, State.run, State.runOperation, hop]
  rw [hrun, State.runLaunch]
  obtain ⟨hnone, u, hturn, tried, hconnections, hsuits⟩ | ⟨r, u, hanswer, hturn, hreached⟩ :=
    hs.turnAttempt hset
  · obtain ⟨hset', hwaits⟩ := hs.waits hset tried hconnections hsuits
    rw [hturn]
    exact ⟨hset', .inl ⟨hnone, hwaits⟩⟩
  · rw [hturn]
    cases hreached with
    | refused e tried told =>
      obtain ⟨hset', hlast⟩ := hs.refused hset hlaunched hanswer tried told
      exact ⟨hset', .inr ⟨_, hanswer, .inr ⟨e, rfl, hlast⟩⟩⟩
    | linked tried linked =>
      obtain ⟨hset', hnext⟩ := hs.linked hset tried linked (past ++ [.turn (.operation 1)])
      exact ⟨hset', .inr ⟨_, hanswer, hnext⟩⟩

/-- Until there is a connection, no other work has anything to do. -/
theorem Connecting.turn_other (hs : Connecting c processId attempt s) {w : Work}
    (hw : w ≠ .operation 1) : s.run w = s := by
  have hno (g : Nat) : s.connection? g = none := by
    rw [State.connection?, hs.connections, Keyed.get?_nil]
  cases w with
  | operation n =>
    have hn : 1 ≠ n := fun hn => hw (hn ▸ rfl)
    rw [State.run, State.runOperation, hs.operations, Keyed.get?_cons, if_neg hn, Keyed.get?_nil]
  | writer g => rw [State.run, State.runWriter, hno]
  | reader g => rw [State.run, State.runReader, hno]
  | ticker g => simp only [State.run, State.runTicker, hno]
  | watchdog id =>
    rw [State.run, State.watch, hs.engine]
    rfl

theorem letGo_launch {params : Outcome Value} {failure : Option String} {op : Operation}
    (h : State.letGo failure (.launch params (.connecting attempt)) = some op) :
    ∃ g, attempt = .held g ∧ op = .launch params (.connecting (.released g failure)) := by
  cases attempt with
  | held g => exact ⟨g, rfl, (Option.some.inj h).symm⟩
  | fresh => cases h
  | released g f => cases h

/-- Whatever else happens meanwhile, the start still waits for its connection. -/
theorem Connecting.beside (hs : Connecting c processId attempt s) (hset : Setting c s) {h : Happening}
    (hh : h ≠ .turn (.operation 1)) :
    Setting c (h.apply s) ∧ ∃ next, Connecting c processId next (h.apply s) := by
  cases h with
  | turn w =>
    rw [Happening.apply, hs.turn_other fun hw => hh (hw ▸ rfl)]
    exact ⟨hset, attempt, hs⟩
  | pass ms =>
    have hpass : Tends s (s.advance ms) :=
      .single (.quiet ⟨rfl, .inl rfl, rfl, Nat.le_add_right _ _, rfl⟩)
    exact ⟨hset.tends hpass, attempt, hs.onward hs.operations hs.suits rfl rfl rfl (.of_eq rfl)⟩
  | peer p =>
    exact ⟨hset.part ⟨rfl, rfl, rfl, rfl, rfl, .of_eq rfl⟩, attempt,
      hs.onward hs.operations hs.suits rfl rfl rfl (.of_eq rfl)⟩
  | schedule ready alarms =>
    exact ⟨hset.part ⟨rfl, rfl, rfl, rfl, rfl, .of_eq rfl⟩, attempt,
      hs.onward hs.operations hs.suits rfl rfl rfl (.of_eq rfl)⟩
  | note n =>
    exact ⟨hset.part (part_record (e := .note n) ⟨.inl rfl, rfl⟩ s), attempt, hs.onward hs.operations
      hs.suits rfl rfl rfl (grows_record (C := (·.isOfService = true)) (e := .note n) rfl s)⟩
  | release failure =>
    rw [Happening.apply, State.releaseAttempt]
    split
    · exact ⟨hset, attempt, hs⟩
    · rename_i n rest _
      simp only
      split
      · rename_i op hop
        change (s.operations.get? n).bind (State.letGo failure) = some op at hop
        rw [hs.operations, Keyed.get?_cons] at hop
        split at hop
        · rename_i hn
          obtain ⟨g, rfl, rfl⟩ := letGo_launch hop
          obtain ⟨ready, hwake⟩ := State.wake_eq (.operation n)
            ((s.modifyPeer fun p => { p with waiting := rest }).putOperation n
              (.launch (initializeParams c.client processId) (.connecting (.released g failure))))
          rw [hwake]
          refine ⟨hset.part ⟨rfl, rfl, rfl, rfl, rfl, .of_eq rfl⟩, .released g failure,
            hs.onward ?_ hs.suits rfl rfl rfl (.of_eq rfl)⟩
          change s.operations.put n _ = _
          rw [hs.operations, ← hn]
          rfl
        · cases hop
      · exact ⟨hset.part ⟨rfl, rfl, rfl, rfl, rfl, .of_eq rfl⟩, attempt,
          hs.onward hs.operations hs.suits rfl rfl rfl (.of_eq rfl)⟩

end LanguageClient.Client
