import LanguageClient.Client.New
import LanguageClient.Proofs.HandshakeOrder
import LanguageClient.Proofs.OutboundFrames
import LanguageClient.Proofs.Tending
/-!
How the start of a session stands after anything that may have happened: it waits for its connection, or
for the answer of the server, or it has ended in one of a few ways. Here are these phases, what they keep
while other work has its turns, and what the start makes of the answer.
-/
namespace LanguageClient.Client
open Relation Transport Rpc Json Session Config

/-- What may happen while a session starts. Any work may have its turn at any time, and what the peer
makes of its side of the links, of the attempts at one and of the frames written is up to it. -/
inductive Happening where
  | turn (w : Work)
  | pass (ms : Nat)
  | peer (p : Peer)
  | schedule (ready : List Work) (alarms : List (Nat × Work))
  | release (failure : Option String)
  | note (n : Note)

def Happening.apply (h : Happening) (s : State) : State :=
  match h with
  | .turn w => s.run w
  | .pass ms => s.advance ms
  | .peer p => { s with peer := p }
  | .schedule ready alarms => { s with ready, alarms }
  | .release failure => (s.releaseAttempt failure).2
  | .note n => s.record (.note n)

namespace State

/-- The client after all this has happened. -/
def through (s : State) (hs : List Happening) : State := hs.foldl (fun s h => h.apply s) s

/-- The client of a configuration, its session started, after all this has happened. -/
def launched (c : SessionConfig) (processId : Nat) (hs : List Happening) : State :=
  (launch c processId (describedBy c)).2.through hs

end State

def Entry.returns? : Entry → Option (Outcome Value)
  | .finished n outcome => if n = 1 then some outcome else none
  | _ => none

namespace State

/-- What the first operation of a client has ended with. -/
def returned? (s : State) : Option (Outcome Value) := s.journal.findSome? Entry.returns?

/-- How far the start has come, until it ends. -/
def phase? (s : State) : Option LaunchPhase :=
  match s.operations.get? 1 with
  | some (.launch _ phase) => some phase
  | _ => none

/-- The peer refuses an attempt that reaches it, or has a link for it. -/
def reachable (s : State) : Outcome Unit :=
  match s.peer.refusal with
  | some e => .error e
  | none => .ok ()

/-- What the connector has to say when the start has its turn, unless the attempt is still with it. -/
def connectorAnswer? (s : State) : Option (Outcome Unit) :=
  match s.phase? with
  | some (.connecting .fresh) => if s.peer.holds then none else some s.reachable
  | some (.connecting (.released _ none)) => some s.reachable
  | some (.connecting (.released _ (some text))) => some (.error (.transport text))
  | _ => none

end State

def initializeFrame (params : Value) : String :=
  (Request.new 1 "initialize" (encodeParams params)).wire

def initializedFrame : String := (Notification.new "initialized" (some (.obj []))).wire

/-- Why the notification cannot go out. -/
def unconnected : Fault := .transport "cannot send while disconnected"

/-- What the start makes of the outcome of the `initialize` request, with the connection as it is. -/
def launchOutcome (state : ConnectionState) : Outcome Value → Outcome Unit
  | .error cause => .error (.initFailed ("initialize request failed: " ++ cause.message))
  | .ok _ =>
    if state = .opened then .ok ()
    else .error (.initFailed ("initialized notification failed: " ++ unconnected.message))

/-- What came of the `initialize` request: an answer of the server that was read before its deadline had
been seen to pass, or else that. -/
inductive Answered (timeout : Nat) (journal : List Entry) : Outcome Value → Prop where
  | result (before after : List Entry) (r : Response) (hj : journal = before ++ .answered r :: after)
    (owed : standing 1 before = .owed ⟨"initialize", timeout, none⟩) (brought : Brought r before)
    (id : r.id = some (.number 1)) (error : r.error = none) :
    Answered timeout journal (.ok (r.result.getD .null))
  | refusal (before after : List Entry) (r : Response) (e : ErrorObject)
    (hj : journal = before ++ .answered r :: after)
    (owed : standing 1 before = .owed ⟨"initialize", timeout, none⟩) (brought : Brought r before)
    (id : r.id = some (.number 1)) (error : r.error = some e) :
    Answered timeout journal (.error (.rpc e))
  | silence (before after : List Entry) (hj : journal = before ++ .lapsed 1 :: after)
    (owed : standing 1 before = .owed ⟨"initialize", timeout, none⟩) :
    Answered timeout journal (.error (.timeout "initialize" timeout))

/-- How a start may end, with the frames that have been offered to the transport by then. -/
inductive LaunchEnd (c : SessionConfig) (processId : Nat) (past : List Happening) (s : State) :
    Outcome Unit → Prop where
  /-- The connector fails, with a fault of its own. -/
  | refused (e : Fault)
    (connector : ∃ earlier later, past = earlier ++ .turn (.operation 1) :: later ∧
      (State.launched c processId earlier).connectorAnswer? = some (.error e))
    (told : .emitted 1 (.failed e.message) ∈ s.journal) (offers : s.offers = [])
    (lifecycle : s.session.lifecycle = .uninitialized) : LaunchEnd c processId past s (.error e)
  /-- The root of the workspace has no URI, which shows only after the connection has been opened. -/
  | rootless (root : String) (hroot : c.client.root = some root)
    (uri : Uri.ofString? ("file://" ++ root) = none) (opened : .emitted 1 .opened ∈ s.journal)
    (offers : s.offers = []) (lifecycle : s.session.lifecycle = .uninitialized) :
    LaunchEnd c processId past s (.error (.invalidUri ("file://" ++ root)))
  | declined (params : Value) (hp : initializeParams c.client processId = .ok params) (cause : Fault)
    (answered : Answered c.rpc.requestTimeoutMs s.journal (.error cause))
    (offers : s.offers = [(initializeFrame params, some 1)])
    (lifecycle : s.session.lifecycle = .uninitialized) :
    LaunchEnd c processId past s (.error (.initFailed ("initialize request failed: " ++ cause.message)))
  /-- The server has agreed, but the connection has gone. -/
  | unannounced (params result : Value) (hp : initializeParams c.client processId = .ok params)
    (answered : Answered c.rpc.requestTimeoutMs s.journal (.ok result))
    (offers : s.offers = [(initializeFrame params, some 1), (initializedFrame, none)])
    (lifecycle : s.session.lifecycle = .initializing) :
    LaunchEnd c processId past s
      (.error (.initFailed ("initialized notification failed: " ++ unconnected.message)))
  | ready (params result : Value) (hp : initializeParams c.client processId = .ok params)
    (answered : Answered c.rpc.requestTimeoutMs s.journal (.ok result))
    (offers : s.offers = [(initializeFrame params, some 1), (initializedFrame, some 1)])
    (lifecycle : s.session.lifecycle = .ready)
    (capabilities : s.session.capabilities = some (Capabilities.ofResult result)) :
    LaunchEnd c processId past s (.ok ())

/-- Entries that the start of a session may make. -/
def Entry.OfLaunch (timeout : Nat) (e : Entry) : Prop :=
  e.isOfService = true ∨ (∃ frame taken, e = .offered frame taken) ∨
    e = .issued 1 "initialize" timeout none ∨ ∃ n outcome, e = .finished n outcome

def Entry.isAnswer : Entry → Bool
  | .answered _ => true
  | _ => false

/-- Entries that a turn of the start itself may make. They tell of no response. -/
def Entry.OfTurn (timeout : Nat) (e : Entry) : Prop := e.OfLaunch timeout ∧ e.isAnswer = false

theorem Entry.ofTurn_offered (timeout : Nat) (frame : String) (taken : Option Nat) :
    (Entry.offered frame taken).OfTurn timeout := ⟨.inr (.inl ⟨frame, taken, rfl⟩), rfl⟩

theorem State.offers_append {s t : State} {more : List Entry} (h : t.journal = s.journal ++ more) :
    t.offers = s.offers ++ more.filterMap Entry.offer? := by
  rw [State.offers, h, List.filterMap_append]
  rfl

theorem Grows.offers {s t : State} (h : Grows (·.isOfService = true) s t) : t.offers = s.offers := by
  obtain ⟨more, hj, hm⟩ := h
  have hnone : more.filterMap Entry.offer? = [] := by
    refine List.filterMap_eq_nil_iff.mpr fun e he => ?_
    have hservice := hm e he
    cases e <;> first | rfl | cases hservice
  rw [State.offers_append hj, hnone, List.append_nil]

theorem Grows.isPrefix {C : Entry → Prop} {s t : State} (h : Grows C s t) : s.journal <+: t.journal := by
  obtain ⟨more, hj, _⟩ := h
  exact ⟨more, hj.symm⟩

theorem State.returned?_append {s t : State} {more : List Entry} (h : t.journal = s.journal ++ more) :
    t.returned? = s.returned?.or (more.findSome? Entry.returns?) := by
  rw [State.returned?, h, List.findSome?_append]
  rfl

theorem Grows.returned? {s t : State} (h : Grows (·.isOfService = true) s t) :
    t.returned? = s.returned? := by
  obtain ⟨more, hj, hm⟩ := h
  have hnone : more.findSome? Entry.returns? = none := by
    refine List.findSome?_eq_none_iff.mpr fun e he => ?_
    have hservice := hm e he
    cases e <;> first | rfl | cases hservice
  rw [State.returned?_append hj, hnone, Option.or_none]

theorem ruled_split {id : Int} {journal : List Entry} {outcome : Option (Outcome Value)}
    (h : standing id journal = .ruled outcome) : ∃ before e after terms,
      journal = before ++ e :: after ∧ standing id before = .owed terms ∧
        ruling? id terms e = some outcome := by
  induction journal using List.reverseRecOn with
  | nil => cases h
  | append_singleton journal e ih =>
    rw [standing_concat] at h
    cases hs : standing id journal with
    | unissued =>
      rw [hs] at h
      simp only [Standing.after] at h
      split at h
      · split at h <;> cases h
      · cases h
    | owed terms =>
      rw [hs] at h
      simp only [Standing.after] at h
      cases hr : ruling? id terms e with
      | none =>
        rw [hr] at h
        cases h
      | some o =>
        rw [hr] at h
        cases h
        exact ⟨journal, e, [], terms, rfl, hs, hr⟩
    | ruled o =>
      rw [hs] at h
      cases h
      obtain ⟨before, d, after, terms, rfl, howed, hruling⟩ := ih hs
      exact ⟨before, d, after ++ [e], terms, by simp, howed, hruling⟩

theorem issued_of_owed {id : Int} {journal : List Entry} {terms : Terms}
    (h : standing id journal = .owed terms) :
    .issued id terms.method terms.timeout terms.token ∈ journal := by
  induction journal using List.reverseRecOn with
  | nil => cases h
  | append_singleton journal e ih =>
    rw [standing_concat] at h
    rw [List.mem_append, List.mem_singleton]
    cases hs : standing id journal with
    | unissued =>
      rw [hs] at h
      simp only [Standing.after] at h
      split at h
      · split at h
        · rename_i hid
          cases h
          exact .inr (hid ▸ rfl)
        · cases h
      · cases h
    | owed earlier =>
      rw [hs] at h
      simp only [Standing.after] at h
      split at h <;> cases h
      exact .inl (ih hs)
    | ruled o =>
      rw [hs] at h
      cases h

/-- In the journal of a start, a ruling on the request is an answer or the deadline. -/
theorem answered_of_ruled {timeout : Nat} {journal : List Entry} {outcome : Outcome Value}
    (entries : ∀ e ∈ journal, e.OfLaunch timeout) (credited : Credited journal)
    (h : standing 1 journal = .ruled (some outcome)) : Answered timeout journal outcome := by
  obtain ⟨before, e, after, terms, hj, howed, hruling⟩ := ruled_split h
  have hissued : .issued 1 terms.method terms.timeout terms.token ∈ journal := by
    rw [hj]
    exact List.mem_append_left _ (issued_of_owed howed)
  obtain ⟨method, time, token⟩ := terms
  obtain h | ⟨_, _, h⟩ | h | ⟨_, _, h⟩ := entries _ hissued
  · cases h
  · cases h
  · cases h
    have he : e.OfLaunch _ :=
      entries e (hj ▸ List.mem_append_right before List.mem_cons_self)
    cases e with
    | answered r =>
      have hbrought : Brought r before := credited before r after hj
      simp only [ruling?] at hruling
      split at hruling
      · rename_i hid
        cases herror : r.error with
        | some error =>
          rw [herror] at hruling
          cases hruling
          exact .refusal before after r error hj howed hbrought hid herror
        | none =>
          rw [herror] at hruling
          cases hruling
          exact .result before after r hj howed hbrought hid herror
      · cases hruling
    | lapsed n =>
      simp only [ruling?] at hruling
      split at hruling
      · rename_i hid
        cases hruling
        exact .silence before after (hid ▸ hj) howed
      · cases hruling
    | withdrawn _ | unsent _ _ | revoked _ | gaveUp _ | abandoned _ =>
      obtain h | ⟨_, _, h⟩ | h | ⟨_, _, h⟩ := he <;> cases h
    | _ => cases hruling
  · cases h

/-- What holds of the client at all times. -/
structure Setting (c : SessionConfig) (s : State) : Prop where
  released : s.released = false
  unobserved : Unobserved s
  punctual : Punctual c.rpc.requestTimeoutMs s
  credited : Credited s.journal
  entries : ∀ e ∈ s.journal, e.OfLaunch c.rpc.requestTimeoutMs

/-- The connection is as the attempt at it has left it. -/
def Attempt.Suits (t : TransportState) : Attempt → Prop
  | .fresh => t.state = .disconnected ∧ t.generation = 0
  | .held g | .released g _ => g = 1 ∧ t.state = .connecting ∧ t.generation = 1

/-- The start waits for its connection. -/
structure Connecting (c : SessionConfig) (processId : Nat) (attempt : Attempt) (s : State) : Prop where
  operations : s.operations =
    [(1, .launch (initializeParams c.client processId) (.connecting attempt))]
  suits : attempt.Suits s.transport
  engine : s.engine = (State.describedBy c).engine
  session : s.session = State.freshConversation
  connections : s.transport.connections = []
  offers : s.offers = []
  returned : s.returned? = none

/-- The start waits for the answer of the server. -/
structure Negotiating (c : SessionConfig) (processId : Nat) (params : Value) (s : State) : Prop where
  built : initializeParams c.client processId = .ok params
  operations : s.operations = [(1, .launch (.ok params) (.negotiating 1))]
  generation : s.transport.generation = 1
  state : s.transport.state ≠ .connecting
  lifecycle : s.session.lifecycle = .initializing
  offers : s.offers = [(initializeFrame params, some 1)]
  returned : s.returned? = none

structure Returned (c : SessionConfig) (processId : Nat) (past : List Happening) (outcome : Outcome Unit)
    (s : State) : Prop where
  operations : s.operations = []
  returned : s.returned? = some (State.unitOutcome outcome)
  ending : LaunchEnd c processId past s outcome

variable {c : SessionConfig} {processId : Nat} {attempt : Attempt} {params : Value}
  {past : List Happening} {outcome : Outcome Unit} {s t : State}

theorem Answered.append {timeout : Nat} {journal : List Entry} {outcome : Outcome Value}
    (h : Answered timeout journal outcome) (more : List Entry) :
    Answered timeout (journal ++ more) outcome := by
  cases h with
  | result before after r hj owed brought id error =>
    exact .result before (after ++ more) r (by simp [hj]) owed brought id error
  | refusal before after r e hj owed brought id error =>
    exact .refusal before (after ++ more) r e (by simp [hj]) owed brought id error
  | silence before after hj owed => exact .silence before (after ++ more) (by simp [hj]) owed

/-- An ending remains one as long as no more frames are offered and nothing becomes of the session. -/
theorem LaunchEnd.later (h : LaunchEnd c processId past s outcome) (offers : t.offers = s.offers)
    (journal : s.journal <+: t.journal) (session : t.session = s.session) (more : List Happening) :
    LaunchEnd c processId (past ++ more) t outcome := by
  have hmem {e : Entry} (he : e ∈ s.journal) : e ∈ t.journal := journal.subset he
  have htold {o : Outcome Value} (h : Answered c.rpc.requestTimeoutMs s.journal o) :
      Answered c.rpc.requestTimeoutMs t.journal o := by
    obtain ⟨rest, hj⟩ := journal
    exact hj ▸ h.append rest
  cases h with
  | refused e connector told hoffers lifecycle =>
    obtain ⟨before, after, rfl, hanswer⟩ := connector
    exact .refused e ⟨before, after ++ more, by simp, hanswer⟩ (hmem told) (offers.trans hoffers)
      (session ▸ lifecycle)
  | rootless root hroot uri opened hoffers lifecycle =>
    exact .rootless root hroot uri (hmem opened) (offers.trans hoffers) (session ▸ lifecycle)
  | declined params hp cause answered hoffers lifecycle =>
    exact .declined params hp cause (htold answered) (offers.trans hoffers) (session ▸ lifecycle)
  | unannounced params result hp answered hoffers lifecycle =>
    exact .unannounced params result hp (htold answered) (offers.trans hoffers) (session ▸ lifecycle)
  | ready params result hp answered hoffers lifecycle capabilities =>
    exact .ready params result hp (htold answered) (offers.trans hoffers) (session ▸ lifecycle)
      (session ▸ capabilities)

theorem Setting.tends (h : Tends s t) (hs : Setting c s) : Setting c t where
  released := (congrArg Core.released h.core).trans hs.released
  unobserved := hs.unobserved.of_core h.core
  punctual := h.keeps (fun _ _ h hs => h.punctual hs) hs.punctual
  credited := h.keeps (Q := fun s => Credited s.journal) (fun _ _ h hs => h.credited hs) hs.credited
  entries e he := by
    obtain ⟨more, hj, hm⟩ := h.grows
    rw [hj] at he
    rcases List.mem_append.mp he with he | he
    · exact hs.entries e he
    · exact .inl (hm e he)

theorem Negotiating.tends (h : Tends s t) (hs : Negotiating c processId params s) :
    Negotiating c processId params t where
  built := hs.built
  operations := (congrArg Core.operations h.core).trans hs.operations
  generation := (congrArg Core.generation h.core).trans hs.generation
  state := by
    refine h.keeps (Q := fun s => s.transport.state ≠ .connecting) (fun s t h hs => ?_) hs.state
    obtain h | h := h.state <;> rw [h]
    · exact hs
    · exact ConnectionState.noConfusion
  lifecycle := by
    rw [show t.session = s.session from congrArg Core.session h.core]
    exact hs.lifecycle
  offers := h.grows.offers.trans hs.offers
  returned := h.grows.returned?.trans hs.returned

theorem Returned.tends (h : Tends s t) (hs : Returned c processId past outcome s)
    (more : List Happening) : Returned c processId (past ++ more) outcome t where
  operations := (congrArg Core.operations h.core).trans hs.operations
  returned := h.grows.returned?.trans hs.returned
  ending := hs.ending.later h.grows.offers h.grows.isPrefix (congrArg Core.session h.core) more

/-- Whatever happens beside the start is a sequence of tendings, once the connector has answered. -/
theorem Happening.tends (hs : Setting c s) (single : ∀ n, n ≠ 1 → s.operations.get? n = none)
    (free : ∀ n failure, (s.operations.get? n).bind (State.letGo failure) = none) {h : Happening}
    (hh : h ≠ .turn (.operation 1)) : Tends s (h.apply s) := by
  cases h with
  | turn w =>
    by_cases hw : ∃ n, w = .operation n
    · obtain ⟨n, rfl⟩ := hw
      have hn : n ≠ 1 := fun hn => hh (hn ▸ rfl)
      rw [Happening.apply, State.run, State.runOperation, single n hn]
    · exact tends_run hs.unobserved hs.punctual fun n hn => hw ⟨n, hn⟩
  | pass ms => exact .single (.quiet ⟨rfl, .inl rfl, rfl, Nat.le_add_right _ _, rfl⟩)
  | peer p => exact Tends.quiet .refl rfl rfl rfl rfl rfl
  | schedule ready alarms => exact Tends.quiet .refl rfl rfl rfl rfl rfl
  | release failure =>
    rw [Happening.apply, State.releaseAttempt]
    split
    · exact .refl
    · rename_i n rest _
      have hnone : ((s.modifyPeer fun p => { p with waiting := rest }).operations.get? n).bind
          (State.letGo failure) = none := free n failure
      simp only [hnone]
      exact Tends.quiet .refl rfl rfl rfl rfl rfl
  | note n => exact Tends.record .refl rfl rfl

theorem Negotiating.beside (hs : Negotiating c processId params s) (hset : Setting c s) {h : Happening}
    (hh : h ≠ .turn (.operation 1)) : Tends s (h.apply s) := by
  refine h.tends hset (fun n hn => ?_) (fun n failure => ?_) hh
  · rw [hs.operations, Keyed.get?_cons, if_neg (Ne.symm hn), Keyed.get?_nil]
  · rw [hs.operations, Keyed.get?_cons]
    split <;> rfl

theorem Returned.beside (hs : Returned c processId past outcome s) (hset : Setting c s)
    (h : Happening) : Tends s (h.apply s) := by
  by_cases hh : h = .turn (.operation 1)
  · rw [hh, Happening.apply, State.run, State.runOperation, hs.operations, Keyed.get?_nil]
  · exact h.tends hset (fun n _ => by rw [hs.operations, Keyed.get?_nil])
      (fun n failure => by rw [hs.operations, Keyed.get?_nil]; rfl) hh

/-- A part of a turn of the start. It concerns no handler and no watchdog, and tells of no response. -/
structure Part (timeout : Nat) (s t : State) : Prop where
  released : t.released = s.released
  hub : t.transport.hub = s.transport.hub
  topics : t.engine.topics = s.engine.topics
  watchdogs : t.engine.watchdogs = s.engine.watchdogs
  now : t.now = s.now
  journal : Grows (Entry.OfTurn timeout) s t

theorem Setting.part (hs : Setting c s) (h : Part c.rpc.requestTimeoutMs s t) : Setting c t where
  released := h.released.trans hs.released
  unobserved := ⟨fun kind => h.hub ▸ hs.unobserved.events kind,
    fun method => h.topics ▸ hs.unobserved.topics method⟩
  punctual id w hw := by
    rw [h.now]
    exact hs.punctual id w (h.watchdogs ▸ hw)
  credited := hs.credited.grows (fun r h => by cases h.2) h.journal
  entries e he := by
    obtain ⟨more, hj, hm⟩ := h.journal
    rw [hj] at he
    rcases List.mem_append.mp he with he | he
    · exact hs.entries e he
    · exact (hm e he).1

theorem part_record {timeout : Nat} {e : Entry} (h : e.OfTurn timeout) (s : State) :
    Part timeout s (s.record e) := ⟨rfl, rfl, rfl, rfl, rfl, grows_record h s⟩

theorem finish_eq (h : s.released = false) (n : Nat) (outcome : Outcome Value) : s.finish n outcome =
    ({ s with operations := s.operations.erase n } : State).record (.finished n outcome) := by
  unfold State.finish State.dropUnneeded
  rw [show (State.record (.finished n outcome)
    { s with operations := s.operations.erase n }).released = false from h]
  rfl

theorem Setting.returns (hset : Setting c s) (operations : s.operations.erase 1 = [])
    (returned : s.returned? = none) (ending : LaunchEnd c processId past s outcome) :
    Setting c (s.finish 1 (State.unitOutcome outcome)) ∧
      Returned c processId past outcome (s.finish 1 (State.unitOutcome outcome)) := by
  rw [finish_eq hset.released]
  have hset' : Setting c { s with operations := s.operations.erase 1 } :=
    hset.part ⟨rfl, rfl, rfl, rfl, rfl, .of_eq rfl⟩
  refine ⟨hset'.part (part_record ⟨.inr (.inr (.inr ⟨_, _, rfl⟩)), rfl⟩ _), operations, ?_, ?_⟩
  · rw [State.returned?_append (s := s) rfl, returned]
    rfl
  · have hlast := ending.later (t := ({ s with operations := s.operations.erase 1 } : State).record
      (.finished 1 (State.unitOutcome outcome))) ?_ (List.prefix_append _ _) rfl []
    · rwa [List.append_nil] at hlast
    · exact (State.offers_append (s := s) rfl).trans (List.append_nil _)

theorem warns_grow (texts : List String) (s : State) :
    texts.foldl (fun s text => s.warn text) s =
      { s with journal := s.journal ++ texts.map fun text => .note ⟨.warn, text⟩ } := by
  induction texts generalizing s with
  | nil => simp
  | cons text texts ih =>
    rw [List.foldl_cons, ih, List.map_cons, State.warn, State.record, List.append_assoc]
    rfl

theorem completeInitialize_agreed (timeout : Nat) (result : Value) (s : State) : ∃ t,
    s.completeInitialize (.ok result) = (.ok (.obj (Capabilities.ofResult result)), t) ∧
      Part timeout s t ∧ Grows (·.isOfService = true) s t ∧ t.operations = s.operations ∧
      t.transport = s.transport ∧ t.session.capabilities = some (Capabilities.ofResult result) ∧
      t.session.lifecycle = s.session.lifecycle := by
  refine ⟨_, rfl, ?_⟩
  rw [warns_grow]
  have hnotes : ∀ e ∈ List.map (fun text => Entry.note ⟨.warn, text⟩)
      (Capabilities.ofResult result).syncKind.2, ∃ n, e = .note n := by
    intro e he
    obtain ⟨text, _, rfl⟩ := List.mem_map.mp he
    exact ⟨_, rfl⟩
  refine ⟨⟨rfl, rfl, rfl, rfl, rfl, _, rfl, fun e he => ?_⟩, ⟨_, rfl, fun e he => ?_⟩, rfl, rfl, rfl, rfl⟩
  · obtain ⟨n, rfl⟩ := hnotes e he
    exact ⟨.inl rfl, rfl⟩
  · obtain ⟨n, rfl⟩ := hnotes e he
    rfl

theorem initialized_cases (timeout : Nat) (hfit : Fit s) (hstate : s.transport.state ≠ .connecting) :
    ∃ r t taken, s.initialized = (r, t) ∧ Part timeout s t ∧ t.operations = s.operations ∧
      t.journal = s.journal ++ [.offered initializedFrame taken] ∧
      ((s.transport.state = .opened ∧ r = .ok () ∧ taken = some s.transport.generation ∧
          t.session = { s.session with lifecycle := .ready }) ∨
        s.transport.state ≠ .opened ∧ r = .error unconnected ∧ taken = none ∧
          t.session = s.session) := by
  have hoffered := Entry.ofTurn_offered timeout initializedFrame
  rw [State.initialized, State.notify]
  obtain ⟨g, ready, hopen, hg, h⟩ | ⟨hno, h⟩ := State.send_cases initializedFrame s
  · have hgen : g = s.transport.generation := by
      have hout := hfit.outbound
      rw [hg, if_pos hopen] at hout
      exact Option.some.inj hout
    rw [initializedFrame] at h
    rw [h]
    exact ⟨_, _, some g, rfl, ⟨rfl, rfl, rfl, rfl, rfl, _, rfl,
      List.forall_mem_singleton.mpr (hoffered _)⟩, rfl, rfl, .inl ⟨hopen, rfl, congrArg some hgen, rfl⟩⟩
  · have hdown : s.transport.state = .disconnected := by
      cases hs : s.transport.state with
      | disconnected => rfl
      | connecting => exact absurd hs hstate
      | opened =>
        have hout := hfit.outbound
        rw [if_pos hs] at hout
        exact absurd hout (hno _ hs)
    rw [initializedFrame] at h
    rw [h, hdown]
    exact ⟨_, _, none, rfl, part_record (hoffered none) s, rfl, rfl, .inr ⟨by decide, rfl, rfl, rfl⟩⟩

theorem answered_of_outcome {timeout : Nat} {o : Outcome Value} (hsound : Sound timeout s)
    (entries : ∀ e ∈ s.journal, e.OfLaunch timeout) (credited : Credited s.journal)
    (h : s.engine.outcomes.get? 1 = some o) : Answered timeout s.journal o := by
  refine answered_of_ruled entries credited ?_
  have ho : (account 1 s).outcome = some o := h
  change (account 1 s).standing = .ruled (some o)
  obtain ⟨_, ha⟩ | ⟨_, _, _, _, _, ha⟩ | ⟨_, _, _, _, hkept, ha⟩ :=
    balanced_cases (hsound.balanced 1) <;> rw [ha] at ho ⊢
  · cases ho
  · cases ho
  · rw [hkept o ho]

/-- While the request is pending, the turn of the start changes nothing. -/
theorem Negotiating.turn_pending (hs : Negotiating c processId params s)
    (ho : s.engine.outcomes.get? 1 = none) : s.run (.operation 1) = s := by
  have hop : s.operations.get? 1 = some (.launch (.ok params) (.negotiating 1)) := by
    rw [hs.operations]
    rfl
  rw [State.run, State.runOperation, hop]
  simp only [State.runLaunch, State.awaitLaunch, State.collect, ho, Option.map_none]

/-- The start makes of the outcome of the request an ending of its own. -/
theorem Negotiating.complete (hs : Negotiating c processId params s) (hset : Setting c s)
    (hfit : Fit s) {o : Outcome Value} (hanswered : Answered c.rpc.requestTimeoutMs s.journal o)
    (past : List Happening) : ∃ t, s.completeLaunch o = (launchOutcome s.transport.state o, t) ∧
      Setting c t ∧ t.operations = s.operations ∧ t.returned? = none ∧
        LaunchEnd c processId past t (launchOutcome s.transport.state o) := by
  rw [State.completeLaunch]
  cases o with
  | error cause =>
    exact ⟨_, rfl, hset.part ⟨rfl, rfl, rfl, rfl, rfl, .of_eq rfl⟩, rfl, hs.returned,
      .declined params hs.built cause hanswered hs.offers rfl⟩
  | ok result =>
    obtain ⟨u, hagreed, hpart, hgrows, hop, htransport, hcapabilities, hlifecycle⟩ :=
      completeInitialize_agreed c.rpc.requestTimeoutMs result s
    have hfit' : Fit u := hfit.of_transport htransport
    have hstate : u.transport.state ≠ .connecting := by
      rw [htransport]
      exact hs.state
    obtain ⟨r, t, taken, hsent, hpart', hop', hjournal, hcases⟩ :=
      initialized_cases c.rpc.requestTimeoutMs hfit' hstate
    simp only [hagreed, hsent]
    have hreturned : t.returned? = none := by
      rw [State.returned?_append hjournal, hgrows.returned?, hs.returned]
      rfl
    have hoffers : t.offers = [(initializeFrame params, some 1), (initializedFrame, taken)] := by
      rw [State.offers_append hjournal, hgrows.offers, hs.offers]
      rfl
    have htold : Answered c.rpc.requestTimeoutMs t.journal (.ok result) := by
      obtain ⟨more, hj, _⟩ := hgrows
      rw [hjournal, hj, List.append_assoc]
      exact hanswered.append _
    rw [launchOutcome]
    rw [htransport] at hcases
    obtain ⟨hopen, rfl, rfl, hsession⟩ | ⟨hclosed, rfl, rfl, hsession⟩ := hcases
    · rw [if_pos hopen]
      rw [hs.generation] at hoffers
      refine ⟨t, rfl, (hset.part hpart).part hpart', hop'.trans hop, hreturned,
        .ready params result hs.built htold hoffers ?_ ?_⟩ <;> rw [hsession]
      exact hcapabilities
    · rw [if_neg hclosed]
      refine ⟨t, rfl, (hset.part hpart).part hpart', hop'.trans hop, hreturned,
        .unannounced params result hs.built htold hoffers ?_⟩
      rw [hsession, hlifecycle, hs.lifecycle]

/-- With the outcome of the request there, the turn of the start ends it. -/
theorem Negotiating.turn_settled (hs : Negotiating c processId params s) (hset : Setting c s)
    (hsound : Sound c.rpc.requestTimeoutMs s) (hfit : Fit s) {o : Outcome Value}
    (ho : s.engine.outcomes.get? 1 = some o) (past : List Happening) :
    Setting c (s.run (.operation 1)) ∧
      Returned c processId past (launchOutcome s.transport.state o) (s.run (.operation 1)) := by
  have hanswered := answered_of_outcome hsound hset.entries hset.credited ho
  have hop : s.operations.get? 1 = some (.launch (.ok params) (.negotiating 1)) := by
    rw [hs.operations]
    rfl
  -- that the outcome is collected concerns nothing else
  have hcollected : Negotiating c processId params
      (s.modifyEngine fun e => { e with outcomes := e.outcomes.erase 1 }) :=
    ⟨hs.built, hs.operations, hs.generation, hs.state, hs.lifecycle, hs.offers, hs.returned⟩
  obtain ⟨t, hdone, hset', hop', hreturned, hend⟩ :=
    hcollected.complete (hset.part ⟨rfl, rfl, rfl, rfl, rfl, .of_eq rfl⟩) (hfit.of_transport rfl)
      hanswered past
  have herase : t.operations.erase 1 = [] := by
    rw [hop', hcollected.operations]
    rfl
  rw [State.run, State.runOperation, hop]
  simp only [State.runLaunch, State.awaitLaunch, State.collect, ho, Option.map_some, hdone]
  exact hset'.returns herase hreturned hend

end LanguageClient.Client
