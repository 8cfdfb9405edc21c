import LanguageClient.Proofs.GivingUp
/-!
What becomes of pending requests when the connection opens, fails, closes and opens again: nothing, as
long as no handler asks for it. With the handler that gives up what is pending when a connection has
closed, each closing settles all that is pending at that moment, and says why the connection closed; what
is issued afterwards is none of its business.
-/
namespace LanguageClient.Client
open Relation Transport Rpc Json Session

variable {P : String → Prop} {timeout : Nat} {s t u : State} {c : Callers}

/-- What an event has cost: either all requests stand as they did, or everything pending has been given
up for a reason. -/
def Costs (price : Option String) (s t : State) : Prop :=
  match price with
  | none => Still s t
  | some reason => GivenUp reason s t

theorem Costs.trans {price further : Option String} (h : Costs price s t)
    (k : Costs further t u) : Costs (price.or further) s u := by
  cases price with
  | none =>
    have hstill : Still s t := h
    cases further with
    | none => exact hstill.trans k
    | some reason => exact GivenUp.before hstill.same k
  | some reason =>
    have hgiven : GivenUp reason s t := h
    cases further with
    | none => exact hgiven.still k
    | some other => exact hgiven.again k

theorem Costs.nextId {price : Option String} (h : Costs price s t) :
    t.engine.nextId = s.engine.nextId := by
  cases price with
  | none => exact Still.nextId h
  | some reason => exact GivenUp.nextId h

private theorem react_cost (h : React P s t) : ∃ price, Costs price s t := by
  obtain hstill | ⟨reason, rfl⟩ := react_cases h
  · exact ⟨none, hstill⟩
  · exact ⟨some reason, givenUp_abortPending reason s⟩

private theorem reacts_cost (h : Reacts P s t) : ∃ price, Costs price s t := by
  induction h with
  | refl => exact ⟨none, Still.refl s⟩
  | tail _ h ih =>
    obtain ⟨price, hprice⟩ := ih
    obtain ⟨further, hfurther⟩ := react_cost h
    exact ⟨price.or further, hprice.trans hfurther⟩

private theorem emitWith_cost {close : State → State} (hc : Closes (fun _ => True) close) (g : Nat)
    {event : Transport.Event} (he : event.kind ≠ .message) (s : State) :
    ∃ price, Costs price s (State.emitWith close g event s) := by
  have hrecord : Costs none s (s.record (.emitted g event)) := still_record rfl s
  obtain ⟨price, hprice⟩ := reacts_cost (emitWith_reacts hc g he (heeds_anything s))
  exact ⟨_, hrecord.trans hprice⟩

mutual

/-- The action gives nothing up, now or in a handler that it registers. -/
def Action.Forbears : Action → Prop
  | .abort _ => False
  | .subscribe _ _ _ actions => Action.AllForbear actions
  | .fail | .unsubscribe _ | .send _ | .disconnect | .notify .. | .cancel _ => True

def Action.AllForbear : List Action → Prop
  | [] => True
  | a :: actions => a.Forbears ∧ Action.AllForbear actions

end

def Handler.Forbears : Handler → Prop
  | .user u => Action.AllForbear u.actions
  | .abortPending => False
  | .engine | .forwardLog | .diagnostics _ => True

/-- No handler of the transport's events, inbound frames apart, gives up what is pending. -/
def Forbears (s : State) : Prop :=
  ∀ kind, kind ≠ .message → ∀ h ∈ s.transport.hub.slot kind, h.2.Forbears

/-- On the way from one state to another no request has been touched, and no handler has come that
would. -/
structure Unmoved (s t : State) : Prop where
  still : Still s t
  forbears : Forbears t

theorem Forbears.of_hub (hs : Forbears s) (h : t.transport.hub = s.transport.hub) : Forbears t := by
  rw [Forbears, h]
  exact hs

theorem Unmoved.trans (h : Unmoved s t) (k : Forbears t → Unmoved t u) : Unmoved s u :=
  ⟨h.still.trans (k h.forbears).still, (k h.forbears).forbears⟩

theorem Forbears.unmoved (hs : Forbears s) (h : Still s t)
    (hub : t.transport.hub = s.transport.hub) : Unmoved s t := ⟨h, hs.of_hub hub⟩

private theorem unmoved_listen (hs : Forbears s) (topic : Topic) {handler : Handler}
    (hh : handler.Forbears) (name : String) : Unmoved s (s.listen topic handler name) := by
  refine ⟨still_listen topic handler name s, ?_⟩
  cases topic with
  | method method => exact hs
  | event key =>
    intro kind hkind h hm
    change h ∈ (s.transport.hub.subscribe key handler).2.slot kind at hm
    rw [Registry.slot_subscribe] at hm
    split at hm
    · rename_i hkey
      rcases List.mem_append.mp hm with hm | hm
      · exact hs key (hkey ▸ hkind) h hm
      · rw [List.mem_singleton.mp hm]
        exact hh
    · exact hs kind hkind h hm

private theorem unmoved_unlisten (hs : Forbears s) (name : String) :
    Unmoved s (s.unlisten name).2 := by
  refine ⟨still_unlisten name s, ?_⟩
  rw [State.unlisten]
  split
  · exact hs
  · simp only
    split
    · intro kind hkind h hm
      simp only [State.modifyTransport, Registry.slot_unsubscribe] at hm
      split at hm
      · exact hs kind hkind h (List.mem_filter.mp hm).1
      · exact hs kind hkind h hm
    · exact hs

section
variable {close : State → State} (hclose : ∀ s, Forbears s → Unmoved s (close s))
include hclose

private theorem unmoved_act {a : Action} (ha : a.Forbears) (hs : Forbears s) :
    Unmoved s (State.act close a s) := by
  cases a with
  | fail => exact hs.unmoved (.refl s) rfl
  | unsubscribe name => exact unmoved_unlisten hs name
  | subscribe topic raw name actions =>
    have hh : Handler.Forbears (.user ⟨name, raw, actions⟩) := ha
    exact unmoved_listen hs topic hh name
  | send frame => exact hs.unmoved ((still_send frame s).record rfl) (State.send_hub frame s)
  | disconnect => exact hclose s hs
  | notify method params => exact hs.unmoved ((still_send _ s).record rfl) (State.send_hub _ s)
  | cancel token =>
    obtain ⟨_, _, h⟩ := State.cancelToken_eq token s
    exact hs.unmoved (still_cancelToken token s) (by rw [State.act, h])
  | abort reason => exact ha.elim

private theorem unmoved_perform {actions : List Action} (ha : Action.AllForbear actions)
    (hs : Forbears s) : Unmoved s (State.perform close actions s) := by
  induction actions generalizing s with
  | nil => exact hs.unmoved (.refl s) rfl
  | cons a actions ih =>
    have hrest := (unmoved_act hclose ha.1 hs).trans (ih ha.2)
    cases a with
    | fail => exact hs.unmoved (still_record rfl s) rfl
    | _ => exact hrest

private theorem unmoved_hearEvent {event : Transport.Event} (he : event.kind ≠ .message)
    {h : Handler} (hh : h.Forbears) (hs : Forbears s) :
    Unmoved s (State.hearEvent close event h s) := by
  have hself : Unmoved s s := hs.unmoved (.refl s) rfl
  cases h with
  | engine => cases event <;> first | exact hself | exact absurd rfl he
  | abortPending => exact hh.elim
  | forwardLog => exact hself
  | diagnostics name => exact hself
  | user u =>
    have hheard : Unmoved s (s.record (.heard u.name u.raw event)) :=
      hs.unmoved (still_record rfl s) rfl
    exact hheard.trans (unmoved_perform hclose hh)

private theorem unmoved_emitWith (g : Nat) {event : Transport.Event} (he : event.kind ≠ .message)
    (hs : Forbears s) : Unmoved s (State.emitWith close g event s) := by
  have hfold (handlers : List Handler) (hh : ∀ h ∈ handlers, h.Forbears) (t : State)
      (ht : Forbears t) :
      Unmoved t (handlers.foldl (fun s h => State.hearEvent close event h s) t) := by
    induction handlers generalizing t with
    | nil => exact ht.unmoved (.refl t) rfl
    | cons h handlers ih =>
      exact (unmoved_hearEvent hclose he (hh h List.mem_cons_self) ht).trans
        (ih (fun k hk => hh k (List.mem_cons_of_mem h hk)) _)
  have htold : Unmoved s (s.record (.emitted g event)) := hs.unmoved (still_record rfl s) rfl
  refine htold.trans (hfold _ (fun h hm => ?_) _)
  obtain ⟨e, hslot, rfl⟩ := List.mem_map.mp hm
  exact hs event.kind he e hslot

end

/-- The moves that open, serve and end connections, other than the arrival of a frame. -/
def Move.isOfTransport : Move → Bool
  | .connect | .found .. | .missed .. | .disconnect | .read _ (.error _) | .readEnd _
  | .readerStops _ | .write _ | .failWrite .. | .closeSink _ | .tick _ => true
  | _ => false

/-- What such moves are made of: steps that concern neither requests nor handlers, and events. -/
inductive Stir : State → State → Prop where
  | quiet {s t : State} (h : Still s t) (hub : t.transport.hub = s.transport.hub) : Stir s t
  | opened (g : Nat) (s : State) : Stir s (s.emit g .opened)
  | failed (g : Nat) (text : String) (s : State) : Stir s (s.emit g (.failed text))
  | closed (g : Nat) (reason : CloseReason) (s : State) :
    Stir s (State.emitWith id g (.closed reason) s)

abbrev Stirs : State → State → Prop := ReflTransGen Stir

private theorem quiet_takeDown (s : State) : Stir s s.takeDown := by
  obtain ⟨_, _, h⟩ := State.takeDown_eq s
  rw [h]
  exact .quiet (.of_eq rfl rfl) rfl

private theorem quiet_record {e : Entry} (h : e.isIdle = true) (s : State) : Stir s (s.record e) :=
  .quiet (still_record h s) rfl

private theorem Chore.quiet (h : Chore P s t) : Stir s t := by
  cases h with
  | record e s h =>
    exact quiet_record (by cases e <;> first | rfl | cases h) s
  | aside transport engine _ journal => exact .quiet (.of_eq engine journal) (by rw [transport])
  | connection g f s _ => exact .quiet (.of_eq rfl rfl) rfl
  | send frame s _ => exact .quiet (still_send frame s) (State.send_hub frame s)

private theorem Chores.stirs (h : Chores (fun _ => True) s t) : Stirs s t :=
  ReflTransGen.mono (fun _ _ => Chore.quiet) _ _ h

private theorem shut_stirs (g : Option Nat) (reason : CloseReason) (s : State) :
    Stirs s (s.shut g reason) := by
  rw [State.shut]
  split
  · exact .refl
  · exact .tail (.single (quiet_takeDown s)) (.closed _ reason _)

private theorem disconnect_stirs (s : State) : Stirs s s.disconnect :=
  (ReflTransGen.single (quiet_record rfl s)).trans (shut_stirs none .byClient _)

private theorem failConnection_stirs (g : Nat) (text : String) (s : State) :
    Stirs s (s.failConnection g text) := by
  rw [State.failConnection]
  split
  · have hwarned : Stirs s (s.warn "transport failure") := .single (quiet_record rfl s)
    exact (hwarned.tail (.failed g text _)).trans (shut_stirs (some g) .byFailure _)
  · exact .refl

private theorem completeAttempt_stirs (g l : Nat) (s : State) :
    Stirs s (s.completeAttempt g l).2 := by
  rw [State.completeAttempt]
  split
  · obtain ⟨_, _, _, h⟩ := State.establish_eq g l s
    have hquiet : Stir s (s.establish g l) := by
      rw [h]
      exact .quiet (.of_eq rfl rfl) rfl
    exact .tail (.single hquiet) (.opened g _)
  · exact .single (.quiet (.of_eq rfl rfl) rfl)

private theorem failAttempt_stirs (g : Nat) (e : Fault) (s : State) :
    Stirs s (s.failAttempt g e) := by
  rw [State.failAttempt]
  split
  · have hdown : Stir s (s.modifyTransport fun t => { t with state := .disconnected }) :=
      .quiet (.of_eq rfl rfl) rfl
    exact .tail (.single hdown) (.failed g e.message _)
  · exact .refl

private theorem failReading_stirs (g : Nat) (e : Fault) (s : State) :
    Stirs s (s.failReading g e) :=
  ((ReflTransGen.single (quiet_record rfl s)).trans (failConnection_stirs g e.message _)).trans
    (chores_endReader g _).stirs

private theorem finishReading_stirs (g : Nat) (s : State) : Stirs s (s.finishReading g) :=
  ((ReflTransGen.single (quiet_record rfl s)).trans (shut_stirs (some g) .byPeer _)).trans
    (chores_endReader g _).stirs

private theorem failWriting_stirs (g : Nat) (text : String) (s : State) :
    Stirs s (s.failWriting g text) :=
  ((ReflTransGen.single (quiet_record rfl s)).trans (failConnection_stirs g text _)).trans
    (chores_endWriter g _).stirs

theorem Move.stirs {m : Move} (h : m.isOfTransport = true) (s : State) : Stirs s (m.apply s) := by
  cases m with
  | connect =>
    simp only [Move.apply, State.beginAttempt]
    split
    · exact .single (.quiet (.of_eq rfl rfl) rfl)
    · exact .refl
  | found g l => exact completeAttempt_stirs g l s
  | missed g e => exact failAttempt_stirs g e s
  | disconnect => exact disconnect_stirs s
  | read g item =>
    cases item with
    | ok frame => cases h
    | error e =>
      simp only [Move.apply, State.readItem]
      split
      · exact failReading_stirs g e s
      · exact .refl
  | readEnd g =>
    simp only [Move.apply]
    split
    · exact finishReading_stirs g s
    · exact .refl
  | readerStops g =>
    simp only [Move.apply]
    split
    · exact .refl
    · exact (chores_endReader g s).stirs
  | write g => exact (chores_writeItem g s).stirs
  | failWrite g text =>
    simp only [Move.apply, State.failWrite]
    split
    · exact (chores_unqueue g s).stirs.trans (failWriting_stirs g text _)
    · exact .refl
  | closeSink g =>
    simp only [Move.apply]
    split
    · exact ((chores_endWriter g s).record rfl).stirs
    · exact .refl
  | tick g => exact (chores_runTicker g s).stirs
  | _ => cases h

private theorem Stir.cost (h : Stir s t) : ∃ price, Costs price s t := by
  cases h with
  | quiet h _ => exact ⟨none, h⟩
  | opened g s => exact emitWith_cost closes_disconnect g (by decide) s
  | failed g text s => exact emitWith_cost closes_disconnect g (by simp [Transport.Event.kind]) s
  | closed g reason s => exact emitWith_cost closes_id g (by simp [Transport.Event.kind]) s

private theorem Stirs.cost (h : Stirs s t) : ∃ price, Costs price s t := by
  induction h with
  | refl => exact ⟨none, Still.refl s⟩
  | tail _ h ih =>
    obtain ⟨price, hprice⟩ := ih
    obtain ⟨further, hfurther⟩ := h.cost
    exact ⟨price.or further, hprice.trans hfurther⟩

private theorem unmoved_id (s : State) (hs : Forbears s) : Unmoved s (id s) :=
  hs.unmoved (.refl s) rfl

private theorem unmoved_shut (g : Option Nat) (reason : CloseReason) (hs : Forbears s) :
    Unmoved s (s.shut g reason) := by
  rw [State.shut]
  split
  · exact hs.unmoved (.refl s) rfl
  · obtain ⟨_, _, h⟩ := State.takeDown_eq s
    have hdown : Unmoved s s.takeDown := by
      rw [h]
      exact hs.unmoved (.of_eq rfl rfl) rfl
    exact hdown.trans (unmoved_emitWith unmoved_id _ (by simp [Transport.Event.kind]))

private theorem unmoved_disconnect (s : State) (hs : Forbears s) : Unmoved s s.disconnect := by
  have hup : Unmoved s (s.record .hungUp) := hs.unmoved (still_record rfl s) rfl
  exact hup.trans (unmoved_shut none .byClient)

private theorem Stir.unmoved (h : Stir s t) (hs : Forbears s) : Unmoved s t := by
  cases h with
  | quiet h hub => exact hs.unmoved h hub
  | opened g s => exact unmoved_emitWith unmoved_disconnect g (by decide) hs
  | failed g text s =>
    exact unmoved_emitWith unmoved_disconnect g (by simp [Transport.Event.kind]) hs
  | closed g reason s =>
    exact unmoved_emitWith unmoved_id g (by simp [Transport.Event.kind]) hs

private theorem Stirs.unmoved (h : Stirs s t) (hs : Forbears s) : Unmoved s t := by
  induction h with
  | refl => exact hs.unmoved (.refl s) rfl
  | tail _ h ih => exact ih.trans h.unmoved

/-- However often connections fail, close and are made again, requests stay pending as long as no
handler gives them up. -/
private theorem after_unmoved {moves : List Move} (hm : ∀ m ∈ moves, m.isOfTransport = true)
    (hs : Forbears s) : Unmoved s (s.after moves) :=
  State.after_keeps_of (Q := Unmoved s) (fun _ t hm ht => ht.trans (Move.stirs hm t).unmoved)
    (hs.unmoved (.refl s) rfl) hm

def Action.reason? : Action → Option String
  | .abort reason => some reason
  | _ => none

/-- The reason for which the actions of a handler first give up what is pending; those that come after
a failure are not done. -/
def Action.firstReason? : List Action → Option String
  | [] => none
  | .fail :: _ => none
  | a :: actions => a.reason?.or (Action.firstReason? actions)

def closingText (reason : CloseReason) : String := "connection closed (" ++ reason.name ++ ")"

/-- The reason for which a handler gives up what is pending when the connection closes. -/
def Handler.reason? (closed : CloseReason) : Handler → Option String
  | .abortPending => some (closingText closed)
  | .user u => Action.firstReason? u.actions
  | .engine | .forwardLog | .diagnostics _ => none

/-- The connection is there to be closed; with a generation given, it is that one. -/
def Shuts (g : Option Nat) (s : State) : Prop :=
  (∀ n ∈ g, n = s.transport.generation) ∧ s.transport.state ≠ .disconnected

private theorem shuts_iff (g : Option Nat) (s : State) : Shuts g s ↔
    ¬(g.any (· != s.transport.generation) || s.transport.state == .disconnected) = true := by
  cases g <;> simp [Shuts]

theorem shut_of_shuts {g : Option Nat} (h : Shuts g s) (reason : CloseReason) :
    s.shut g reason =
      State.emitWith id s.transport.generation (.closed reason) s.takeDown := by
  rw [State.shut, if_neg ((shuts_iff g s).mp h)]

theorem shut_of_not_shuts {g : Option Nat} (h : ¬Shuts g s) (reason : CloseReason) :
    s.shut g reason = s := by
  rw [State.shut, if_pos (not_not.mp (mt (shuts_iff g s).mpr h))]

private theorem act_costs (a : Action) (s : State) : Costs a.reason? s (State.act id a s) := by
  cases a with
  | fail => exact Still.refl s
  | unsubscribe name => exact still_unlisten name s
  | subscribe topic raw name actions => exact still_listen topic _ name s
  | send frame => exact Still.record (still_send frame s) rfl
  | disconnect => exact Still.refl s
  | notify method params => exact Still.record (still_send _ s) rfl
  | cancel token => exact still_cancelToken token s
  | abort reason => exact (givenUp_abortPending reason s).still (still_record rfl _)

private theorem perform_costs (actions : List Action) (s : State) :
    Costs (Action.firstReason? actions) s (State.perform id actions s) := by
  induction actions generalizing s with
  | nil => exact Still.refl s
  | cons a actions ih =>
    have hgo := (act_costs a s).trans (ih _)
    cases a with
    | fail => exact still_record rfl s
    | _ => exact hgo

private theorem hearClosed_costs (reason : CloseReason) (h : Handler) (s : State) :
    Costs (h.reason? reason) s (State.hearEvent id (.closed reason) h s) := by
  cases h with
  | engine => exact Still.refl s
  | abortPending => exact givenUp_abortPending (closingText reason) s
  | forwardLog => exact Still.refl s
  | diagnostics name => exact Still.refl s
  | user u =>
    have hheard : Costs none s (s.record (.heard u.name u.raw (.closed reason))) :=
      still_record rfl s
    exact hheard.trans (perform_costs u.actions _)

/-- The first of the handlers that has a reason to give up what is pending decides. -/
private theorem hearAllClosed_costs (reason : CloseReason) (handlers : List Handler) (s : State) :
    Costs (handlers.findSome? (Handler.reason? reason)) s
      (handlers.foldl (fun s h => State.hearEvent id (.closed reason) h s) s) := by
  induction handlers generalizing s with
  | nil => exact Still.refl s
  | cons h handlers ih =>
    have hboth := (hearClosed_costs reason h s).trans (ih _)
    rw [List.findSome?_cons]
    cases hreason : h.reason? reason with
    | none =>
      rw [hreason] at hboth
      exact hboth
    | some text =>
      rw [hreason] at hboth
      exact hboth

theorem shut_costs {g : Option Nat} (h : Shuts g s) (reason : CloseReason) :
    Costs ((s.transport.hub.snapshot .closed).findSome? (Handler.reason? reason)) s
      (s.shut g reason) := by
  obtain ⟨_, _, hdown⟩ := State.takeDown_eq s
  have hstill : Still s s.takeDown := by
    rw [hdown]
    exact .of_eq rfl rfl
  have hquiet : Costs none s (s.takeDown.record (.emitted s.transport.generation (.closed reason))) :=
    hstill.record rfl
  have hhub : s.takeDown.transport.hub = s.transport.hub := by rw [hdown]
  rw [shut_of_shuts h, State.emitWith, Transport.Event.kind, hhub]
  exact hquiet.trans (hearAllClosed_costs reason _ _)

/-- Events of the transport, inbound frames apart, leave every request as it is, unless a handler gives
up what is pending; and then everything pending is given up, for one reason. Connections may fail, close
and be made again as often as they like. -/
structure SparesRequests (s : State) : Prop where
  event : ∀ g event, event.kind ≠ .message →
    (Forbears s → Still s (s.emit g event)) ∧ ∃ price, Costs price s (s.emit g event)
  shut : ∀ g reason,
    (Forbears s → Still s (s.shut g reason)) ∧ ∃ price, Costs price s (s.shut g reason)
  move : ∀ m : Move, m.isOfTransport = true → ∃ price, Costs price s (m.apply s)
  moves : ∀ moves : List Move, (∀ m ∈ moves, m.isOfTransport = true) → Forbears s →
    Still s (s.after moves)

theorem sparesRequests (s : State) : SparesRequests s where
  event g _ he := ⟨fun hs => (unmoved_emitWith unmoved_disconnect g he hs).still,
    emitWith_cost closes_disconnect g he s⟩
  shut g reason := ⟨fun hs => (unmoved_shut g reason hs).still, (shut_stirs g reason s).cost⟩
  move _ hm := (Move.stirs hm s).cost
  moves _ hm hs := (after_unmoved hm hs).still

/-- Closing the connection gives up what is pending if the handler for it is registered, and each time
the connection is closed anew. -/
structure ClosingGivesUp (s : State) : Prop where
  subscribe : ∀ name,
    (s.listen (.event .closed) .abortPending name).transport.hub.snapshot .closed =
      s.transport.hub.snapshot .closed ++ [.abortPending]
  /-- A connection that has gone, or that another has replaced, cannot be closed. -/
  late : ∀ g reason, ¬Shuts g s → s.shut g reason = s
  price : ∀ g reason, Shuts g s →
    Costs ((s.transport.hub.snapshot .closed).findSome? (Handler.reason? reason)) s (s.shut g reason)
  registered : ∀ g reason, Shuts g s → .abortPending ∈ s.transport.hub.snapshot .closed →
    ∃ text, GivenUp text s (s.shut g reason)
  /-- The requests are told why the connection closed, unless a handler that was registered before had
  a reason of its own. -/
  named : ∀ g reason before after, Shuts g s →
    s.transport.hub.snapshot .closed = before ++ .abortPending :: after →
    (∀ h ∈ before, h.reason? reason = none) → GivenUp (closingText reason) s (s.shut g reason)

theorem closingGivesUp (s : State) : ClosingGivesUp s where
  subscribe name := (Registry.snapshot_subscribe ..).trans (if_pos rfl)
  late _ reason h := shut_of_not_shuts h reason
  price _ reason h := shut_costs h reason
  registered g reason h hmem := by
    have hcost := shut_costs h reason
    cases hfind : (s.transport.hub.snapshot .closed).findSome? (Handler.reason? reason) with
    | none =>
      have hnone : Handler.reason? reason .abortPending = none :=
        List.findSome?_eq_none_iff.mp hfind _ hmem
      cases hnone
    | some text =>
      rw [hfind] at hcost
      exact ⟨text, hcost⟩
  named g reason before after h hsnapshot hbefore := by
    have hcost := shut_costs h reason
    rw [hsnapshot, List.findSome?_append, List.findSome?_eq_none_iff.mpr hbefore] at hcost
    exact hcost

/-- A move by which requests were given up has no effect on requests that are issued later, and none on
these again. -/
structure Final (m : Move) (c : Callers) : Prop where
  spent : ∀ reason, GivenUp reason c.client (m.apply c.client) →
    ∀ id, c.client.engine.pending.get? id ≠ none → ∀ later,
      Spent id (.error (.transport reason)) ((Turn.apply (.move m) c).after later).client
  /-- What becomes of a later request is in what the journal tells from then on. -/
  newcomers : ∀ id, c.client.engine.nextId ≤ id → ∀ later, ∃ told,
    ((Turn.apply (.move m) c).after later).client.journal = (m.apply c.client).journal ++ told ∧
      settlements id ((Turn.apply (.move m) c).after later).client.journal =
        (verdict id told).toList ∧
      (((Turn.apply (.move m) c).after later).client.engine.pending.contains id ↔
        ∃ terms, standing id told = .owed terms)

private theorem Fair.final (hc : Fair timeout c) {m : Move}
    (hnext : (m.apply c.client).engine.nextId = c.client.engine.nextId) : Final m c where
  spent _ h _ hp later := h.spent hc hp later
  newcomers id hid later := by
    have hfair : Fair timeout (Turn.apply (.move m) c) := hc.turn (.move m)
    exact hfair.newcomer (hnext ▸ hid) later

/-- Giving up settles what is pending, and nothing else: so many requests as it says, each with the
reason, in whatever order. The counter of ids stands as it did. -/
structure GivesUpPending (reason : String) (c : Callers) : Prop where
  count : (c.client.abortPending reason).1 = c.client.engine.pending.length
  distinct : c.client.engine.pending.keys.Nodup
  effect : ∃ watchdogs outcomes ready, (c.client.abortPending reason).2 =
    { c.client with
      engine := { c.client.engine with pending := [], watchdogs, outcomes }
      ready
      journal := c.client.journal ++ .gaveUp reason ::
        (c.client.engine.pending.keys.mergeSort).map fun id =>
          .settled id (.error (.transport reason)) }
  requests : GivenUp reason c.client (c.client.abortPending reason).2
  order : ∀ ids : List Int, ids.Perm c.client.engine.pending.keys →
    GivenUp reason c.client (ids.foldl (fun s id => s.settle id fun _ => .error (.transport reason))
      (c.client.record (.gaveUp reason)))
  final : Final (.abort reason) c

/-- In every run, however calls run side by side: events of the transport spare the requests, closing a
connection gives them up if that was asked for, and giving up everything settles exactly what is pending,
for good. -/
theorem requests_outlast_connections (layer : Layer) (options : Options) (timeout : Nat)
    (turns : List Turn) :
    let c := (Callers.new layer options timeout).after turns
    (∀ s, SparesRequests s ∧ ClosingGivesUp s) ∧ (∀ m : Move, m.isOfTransport = true → Final m c) ∧
      ∀ reason, GivesUpPending reason c := by
  intro c
  have hfair : Fair timeout c := fair_after layer options timeout turns
  have hlisted : Listed c.client := listed_after layer options timeout turns
  refine ⟨fun s => ⟨sparesRequests s, closingGivesUp s⟩, fun m hm => ?_, fun reason => ?_⟩
  · obtain ⟨price, hprice⟩ := (Move.stirs hm c.client).cost
    exact hfair.final hprice.nextId
  · have hgiven := givenUp_abortPending reason c.client
    exact {
      count := abortPending_count reason c.client
      distinct := hlisted
      effect := abortPending_eq hlisted reason
      requests := hgiven
      order := fun ids hids => givenUp_settles (fun id hid => hids.mem_iff.mpr hid) reason
      final := hfair.final hgiven.nextId }

/-- Two requests on two connections, with the handler registered: each closing is told to its own. -/
example :
    let s := (State.new .engine .standard 30000).after
      [.listen (.event .closed) .abortPending "teardown", .connect, .found 1 0,
        .request "first" .null CallOptions.none, .readEnd 1, .connect, .found 2 1,
        .request "second" .null CallOptions.none, .disconnect]
    settlements 1 s.journal = [.error (.transport "connection closed (Remote)")] ∧
      settlements 2 s.journal = [.error (.transport "connection closed (Local)")] := by
  cbv

end LanguageClient.Client
