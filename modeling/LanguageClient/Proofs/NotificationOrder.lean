import LanguageClient.Proofs.Anatomy
import LanguageClient.Proofs.InboundFrames
import LanguageClient.Proofs.MessageGrammar
/-!
Who is called when a notification comes. Those are called who are registered for its method at that
moment, each once for each of its registrations and in the order of these; what any of them does, its
failure included, neither adds a call nor takes one away. Who is registered meanwhile stands behind all
the others and is called from the next notification on.
-/
namespace LanguageClient

namespace Registry
variable {κ η : Type} [DecidableEq κ] {r r' r'' : Registry κ η}

/-- What registering and unregistering make of a registry that was empty. -/
inductive Built : Registry κ η → Prop where
  | empty : Built empty
  | subscribe {r : Registry κ η} (h : Built r) (key : κ) (handler : η) :
    Built (r.subscribe key handler).2
  | unsubscribe {r : Registry κ η} (h : Built r) (reg : Registration κ) : Built (r.unsubscribe reg)

/-- The registrations of every key stand in the order in which they were made, and every token has been
given out. -/
structure Ordered (r : Registry κ η) : Prop where
  ascending : ∀ key, (r.slot key).Pairwise fun a b => a.1 < b.1
  given : ∀ key, ∀ h ∈ r.slot key, h.1 ≤ r.lastToken

theorem Ordered.subscribe (hr : Ordered r) (key : κ) (handler : η) :
    Ordered (r.subscribe key handler).2 := by
  have hlast : (r.subscribe key handler).2.lastToken = r.lastToken + 1 := rfl
  refine ⟨fun other => ?_, fun other h hm => ?_⟩
  · rw [slot_subscribe]
    split
    · refine List.pairwise_append.mpr ⟨hr.ascending key, List.pairwise_singleton _ _, ?_⟩
      intro a ha b hb
      rw [List.mem_singleton.mp hb]
      exact Nat.lt_succ_of_le (hr.given key a ha)
    · exact hr.ascending other
  · rw [slot_subscribe] at hm
    rw [hlast]
    split at hm
    · rcases List.mem_append.mp hm with hm | hm
      · exact Nat.le_succ_of_le (hr.given key h hm)
      · exact Nat.le_of_eq (congrArg Prod.fst (List.mem_singleton.mp hm))
    · exact Nat.le_succ_of_le (hr.given other h hm)

theorem slot_unsubscribe_sublist (reg : Registration κ) (r : Registry κ η) (key : κ) :
    ((r.unsubscribe reg).slot key).Sublist (r.slot key) := by
  rw [slot_unsubscribe]
  split
  · exact List.filter_sublist
  · exact List.Sublist.refl _

theorem Ordered.unsubscribe (hr : Ordered r) (reg : Registration κ) : Ordered (r.unsubscribe reg) where
  ascending key := (hr.ascending key).sublist (slot_unsubscribe_sublist reg r key)
  given key h hm := by
    rw [lastToken_unsubscribe]
    exact hr.given key h ((slot_unsubscribe_sublist reg r key).subset hm)

theorem Built.ordered (h : Built r) : Ordered r := by
  induction h with
  | empty => exact ⟨fun _ => List.Pairwise.nil, fun _ _ hm => absurd hm List.not_mem_nil⟩
  | subscribe _ key handler ih => exact ih.subscribe key handler
  | unsubscribe _ reg ih => exact ih.unsubscribe reg

/-- A registry at a later time: some of the registrations may have gone, and new ones stand behind
those that are left. -/
structure Later (r r' : Registry κ η) : Prop where
  lastToken : r.lastToken ≤ r'.lastToken
  slots : ∀ key, ∃ left added, r'.slot key = left ++ added ∧ left.Sublist (r.slot key) ∧
    ∀ h ∈ added, r.lastToken < h.1

theorem Later.refl (r : Registry κ η) : Later r r :=
  ⟨Nat.le_refl _, fun key => ⟨r.slot key, [], (List.append_nil _).symm, List.Sublist.refl _,
    List.forall_mem_nil _⟩⟩

theorem Later.subscribe (hr : Later r r') (key : κ) (handler : η) :
    Later r (r'.subscribe key handler).2 where
  lastToken := Nat.le_succ_of_le hr.lastToken
  slots other := by
    obtain ⟨left, added, hslot, hleft, hadded⟩ := hr.slots other
    rw [slot_subscribe]
    split
    · rename_i hkey
      subst hkey
      refine ⟨left, added ++ [(r'.lastToken + 1, handler)], ?_, hleft, ?_⟩
      · rw [hslot, List.append_assoc]
      · exact List.forall_mem_append.mpr ⟨hadded,
          List.forall_mem_singleton.mpr (Nat.lt_succ_of_le hr.lastToken)⟩
    · exact ⟨left, added, hslot, hleft, hadded⟩

theorem Later.unsubscribe (hr : Later r r') (reg : Registration κ) :
    Later r (r'.unsubscribe reg) where
  lastToken := by rw [lastToken_unsubscribe]; exact hr.lastToken
  slots key := by
    obtain ⟨left, added, hslot, hleft, hadded⟩ := hr.slots key
    have hsub := slot_unsubscribe_sublist reg r' key
    rw [hslot] at hsub
    obtain ⟨kept, more, hkept, hkeptLeft, hmore⟩ := List.sublist_append_iff.mp hsub
    exact ⟨kept, more, hkept, hkeptLeft.trans hleft, fun h hm => hadded h (hmore.subset hm)⟩

end Registry

namespace Client
open Relation Transport Rpc Json Session Schema

variable {P : String → Prop} {E : Entry → Prop} {Q : Registry String Handler → Prop} {s t : State}

/-- What registering and unregistering keep. -/
structure Stable (Q : Registry String Handler → Prop) : Prop where
  subscribe : ∀ r key handler, Q r → Q (r.subscribe key handler).2
  unsubscribe : ∀ r reg, Q r → Q (r.unsubscribe reg)

theorem stable_built : Stable Registry.Built :=
  ⟨fun _ key handler h => h.subscribe key handler, fun _ reg h => h.unsubscribe reg⟩

theorem stable_later (r : Registry String Handler) : Stable (Registry.Later r) :=
  ⟨fun _ key handler h => h.subscribe key handler, fun _ reg h => h.unsubscribe reg⟩

theorem Stable.shifts (hQ : Stable Q) (h : Shifts P E s t) (hs : Q s.engine.topics) :
    Q t.engine.topics := by
  refine h.keeps (Q := fun s => Q s.engine.topics) (fun s t h hs => ?_)
    (fun s t h hs => h.topics ▸ hs) hs
  cases h with
  | record e s _ => exact hs
  | aside _ topics _ _ => exact topics ▸ hs
  | connection g f s _ => exact hs
  | send frame s _ => rw [State.send_engine]; exact hs
  | listen topic handler name s _ =>
    cases topic with
    | event kind => exact hs
    | method method => exact hQ.subscribe _ method handler hs
  | unlisten name s =>
    rw [State.unlisten]
    split
    · exact hs
    · simp only
      split
      · exact hs
      · exact hQ.unsubscribe _ _ hs
  | unhook reg s => exact hs

theorem Stable.move (hQ : Stable Q) (m : Move) (s : State) (hs : Q s.engine.topics) :
    Q (m.apply s).engine.topics := by
  by_cases hd : m.concernsDocuments = true
  · refine (Move.filings hd s).keeps (Q := fun s => Q s.engine.topics) (fun s t h hs => ?_) hs
    cases h with
    | send frame s _ => rw [State.send_engine]; exact hs
    | note n s => exact hs
    | session c s => exact hs
    | shutDown s => exact hs
  · exact hQ.shifts (m.shifts own_anything (by simpa using hd) m.sends_anything (heeds_anything s)) hs

theorem Stable.handleMessage (hQ : Stable Q) (v : Value) (hs : Q s.engine.topics) :
    Q (State.handleMessage State.disconnect v s).engine.topics := by
  have hhears : Hears (fun _ => True) (fun _ => True) s (State.handleMessage State.disconnect v s) :=
    handleMessage_hears closes_disconnect (fun _ _ => trivial) (heeds_anything s)
  exact hQ.shifts (hhears.shifts (E := fun _ => True) ⟨fun _ _ => trivial, trivial⟩) hs

theorem Stable.handleMessages (hQ : Stable Q) (vs : List Value) (hs : Q s.engine.topics) :
    Q (vs.foldl (fun s v => State.handleMessage State.disconnect v s) s).engine.topics := by
  induction vs generalizing s with
  | nil => exact hs
  | cons v vs ih => exact ih (hQ.handleMessage v hs)

/-- In every state that a client comes to its registry of topics is one that was built. -/
theorem built_after (layer : Layer) (options : Options) (timeout : Nat) (moves : List Move) :
    ((State.new layer options timeout).after moves).engine.topics.Built := by
  refine State.after_keeps (Q := fun s => s.engine.topics.Built)
    (fun m s hs => stable_built.move m s hs) ?_ moves
  cases layer with
  | transport => exact .empty
  | engine => exact .empty
  | session => exact .subscribe .empty logMethod Handler.forwardLog

def unreadableDiagnostics : Note := ⟨.warn, "dropping malformed publishDiagnostics"⟩

/-- The entry tells that a handler was called with a notification. -/
def Entry.isCall : Entry → Bool
  | .notified .. | .diagnosed .. | .note ⟨.server _, _⟩ => true
  | .note n => n == unreadableDiagnostics
  | _ => false

def calls (journal : List Entry) : List Entry := journal.filter Entry.isCall

/-- What is told of a handler that is called with a notification. The handler of log messages passes
over those that it cannot read, and handlers of events alone do nothing. -/
def Handler.call? (method : String) (params : Value) : Handler → Option Entry
  | .user u => some (.notified u.name method params)
  | .diagnostics name =>
    match publishDiagnostics params with
    | some v => some (.diagnosed name v)
    | none => some (.note unreadableDiagnostics)
  | .forwardLog =>
    match (logMessage params).bind (·.intAt? "type"), (logMessage params).bind (·.textAt? "message") with
    | some type, some text => some (.note ⟨.server (State.logLevel type), text⟩)
    | _, _ => none
  | .engine | .abortPending => none

/-- No call has been told of. -/
abbrev Uncalled (s t : State) : Prop := Grows (fun e => e.isCall = false) s t

theorem calls_append (journal more : List Entry) :
    calls (journal ++ more) = calls journal ++ calls more := List.filter_append ..

theorem Uncalled.calls (h : Uncalled s t) : calls t.journal = calls s.journal := by
  obtain ⟨more, hj, hm⟩ := h
  have hnone : Client.calls more = [] :=
    List.filter_eq_nil_iff.mpr fun e he => by simp [hm e he]
  rw [hj, calls_append, hnone, List.append_nil]

theorem uncalled_record {e : Entry} (h : e.isCall = false) (s : State) : Uncalled s (s.record e) :=
  grows_record h s

theorem uncalled_send (frame : String) (s : State) : Uncalled s (s.send frame).2 := by
  obtain ⟨g, _, _, _, h⟩ | ⟨_, h⟩ := State.send_cases frame s
  · rw [h]
    exact ⟨[.offered frame (some g)], rfl, List.forall_mem_singleton.mpr rfl⟩
  · rw [h]
    exact uncalled_record rfl s

theorem uncalled_settle (id : Int) (f : Pending → Outcome Value) (s : State) :
    Uncalled s (s.settle id f) := by
  cases hp : s.engine.pending.get? id with
  | none =>
    rw [State.settle_absent hp]
    exact .refl s
  | some entry => exact ⟨_, State.settle_journal hp f, List.forall_mem_singleton.mpr rfl⟩

theorem uncalled_abortPending (reason : String) (s : State) :
    Uncalled s (s.abortPending reason).2 :=
  State.abortPending_keeps (Q := Uncalled s) (uncalled_record rfl s) fun id t h =>
    h.trans (uncalled_settle id _ t)

theorem uncalled_listen (topic : Topic) (handler : Handler) (name : String) (s : State) :
    Uncalled s (s.listen topic handler name) := by
  obtain ⟨_, _, _, h⟩ := State.listen_eq topic handler name s
  rw [h]
  exact .of_eq rfl

theorem uncalled_unlisten (name : String) (s : State) : Uncalled s (s.unlisten name).2 := by
  obtain ⟨_, _, _, h⟩ := State.unlisten_eq name s
  rw [h]
  exact .of_eq rfl

section
variable {close : State → State} (hc : ∀ s, Uncalled s (close s))
include hc

theorem uncalled_act (a : Action) (s : State) : Uncalled s (State.act close a s) := by
  cases a with
  | fail => exact .refl s
  | unsubscribe name => exact uncalled_unlisten name s
  | subscribe topic raw name actions => exact uncalled_listen topic _ name s
  | send frame => exact (uncalled_send frame s).trans (uncalled_record rfl _)
  | disconnect => exact hc s
  | notify method params => exact (uncalled_send _ s).trans (uncalled_record rfl _)
  | cancel token =>
    obtain ⟨_, _, h⟩ := State.cancelToken_eq token s
    rw [State.act, h]
    exact .of_eq rfl
  | abort reason => exact (uncalled_abortPending reason s).trans (uncalled_record rfl _)

/-- Whatever a handler does, up to its failure if it fails, it calls nobody. -/
theorem uncalled_perform (actions : List Action) (s : State) :
    Uncalled s (State.perform close actions s) := by
  induction actions generalizing s with
  | nil => exact .refl s
  | cons a actions ih =>
    cases a with
    | fail => exact uncalled_record rfl s
    | _ => exact (uncalled_act hc _ s).trans (ih _)

end

theorem uncalled_hearClosed (reason : CloseReason) (h : Handler) (s : State) :
    Uncalled s (State.hearEvent id (.closed reason) h s) := by
  cases h with
  | user u => exact (uncalled_record rfl s).trans (uncalled_perform (fun s => .refl s) u.actions _)
  | abortPending => exact uncalled_abortPending _ s
  | engine => exact .refl s
  | forwardLog => exact .refl s
  | diagnostics name => exact .refl s

theorem uncalled_disconnect (s : State) : Uncalled s s.disconnect := by
  have hfold (handlers : List Handler) (t : State) : Uncalled t
      (handlers.foldl (fun s h => State.hearEvent id (.closed .byClient) h s) t) := by
    induction handlers generalizing t with
    | nil => exact .refl t
    | cons h handlers ih => exact (uncalled_hearClosed .byClient h t).trans (ih _)
  by_cases h : s.transport.state = .disconnected
  · rw [State.disconnect_of_down h]
    exact uncalled_record rfl s
  · rw [State.disconnect_of_up h]
    obtain ⟨_, _, htake⟩ := State.takeDown_eq (s.record .hungUp)
    have hdown : Uncalled s (s.record .hungUp).takeDown := by
      rw [htake]
      exact uncalled_record rfl s
    exact (hdown.trans (uncalled_record rfl _)).trans (hfold _ _)

/-- A handler that is called is called once, and what it does calls nobody else. -/
theorem calls_hearNotification (method : String) (params : Value) (h : Handler) (s : State) :
    calls (State.hearNotification State.disconnect method params h s).journal =
      calls s.journal ++ (h.call? method params).toList := by
  have hrecord (e : Entry) (he : e.isCall = true) :
      calls (s.record e).journal = calls s.journal ++ [e] := by
    rw [State.record, calls_append]
    exact congrArg _ (List.filter_cons_of_pos he)
  cases h with
  | user u =>
    rw [State.hearNotification, (uncalled_perform uncalled_disconnect u.actions _).calls]
    exact hrecord (.notified u.name method params) rfl
  | diagnostics name =>
    rw [State.hearNotification, Handler.call?]
    cases publishDiagnostics params with
    | some v => exact hrecord (.diagnosed name v) rfl
    | none => exact hrecord (.note unreadableDiagnostics) rfl
  | forwardLog =>
    rw [State.hearNotification, State.forward, Handler.call?]
    cases (logMessage params).bind (·.intAt? "type") with
    | none => exact (List.append_nil _).symm
    | some type =>
      cases (logMessage params).bind (·.textAt? "message") with
      | none => exact (List.append_nil _).symm
      | some text => exact hrecord (.note ⟨.server (State.logLevel type), text⟩) rfl
  | engine => exact (List.append_nil _).symm
  | abortPending => exact (List.append_nil _).symm

theorem calls_deliver (method : String) (params : Value) (s : State) :
    calls (s.deliver State.disconnect method params).journal =
      calls s.journal ++ (s.engine.topics.snapshot method).filterMap (Handler.call? method params) := by
  have hfold (handlers : List Handler) (t : State) :
      calls (handlers.foldl (fun s h => State.hearNotification State.disconnect method params h s)
        t).journal = calls t.journal ++ handlers.filterMap (Handler.call? method params) := by
    induction handlers generalizing t with
    | nil => exact (List.append_nil _).symm
    | cons h handlers ih =>
      rw [List.foldl_cons, ih, calls_hearNotification, List.append_assoc, List.filterMap_cons]
      cases h.call? method params <;> rfl
  exact hfold _ s

/-- A handler that gives nothing up, whatever else it does: it may fail, register and unregister
handlers, send, and cancel tokens. -/
def Handler.Spares : Handler → Prop
  | .user u => ∀ a ∈ u.actions, a ≠ .disconnect ∧ ∀ reason, a ≠ .abort reason
  | .engine | .abortPending | .forwardLog | .diagnostics _ => True

private theorem still_act {a : Action} (h : a ≠ .disconnect ∧ ∀ reason, a ≠ .abort reason)
    (close : State → State) (s : State) : Still s (State.act close a s) := by
  cases a with
  | fail => exact .refl s
  | unsubscribe name => exact still_unlisten name s
  | subscribe topic raw name actions => exact still_listen topic _ name s
  | send frame => exact (still_send frame s).record rfl
  | disconnect => exact (h.1 rfl).elim
  | notify method params => exact (still_send _ s).record rfl
  | cancel token => exact still_cancelToken token s
  | abort reason => exact (h.2 reason rfl).elim

private theorem still_perform {actions : List Action}
    (h : ∀ a ∈ actions, a ≠ .disconnect ∧ ∀ reason, a ≠ .abort reason) (close : State → State)
    (s : State) : Still s (State.perform close actions s) := by
  induction actions generalizing s with
  | nil => exact .refl s
  | cons a actions ih =>
    have hact := still_act (h a List.mem_cons_self) close s
    have hrest := hact.trans (ih (fun b hb => h b (List.mem_cons_of_mem a hb)) _)
    cases a with
    | fail => exact still_record rfl s
    | _ => exact hrest

theorem still_hearNotification {h : Handler} (hh : h.Spares) (close : State → State)
    (method : String) (params : Value) (s : State) :
    Still s (State.hearNotification close method params h s) := by
  cases h with
  | user u => exact (still_record rfl s).trans (still_perform hh close _)
  | diagnostics name =>
    rw [State.hearNotification]
    split
    · exact still_record rfl s
    · exact still_record rfl s
  | forwardLog =>
    rw [State.hearNotification, State.forward]
    split
    · exact still_record rfl s
    · exact .refl s
  | engine => exact .refl s
  | abortPending => exact .refl s

theorem still_deliver {method : String} (hh : ∀ h ∈ s.engine.topics.snapshot method, h.Spares)
    (close : State → State) (params : Value) : Still s (s.deliver close method params) := by
  have hfold (handlers : List Handler) (hh : ∀ h ∈ handlers, h.Spares) (t : State) : Still t
      (handlers.foldl (fun s h => State.hearNotification close method params h s) t) := by
    induction handlers generalizing t with
    | nil => exact .refl t
    | cons h handlers ih =>
      exact (still_hearNotification (hh h List.mem_cons_self) close method params t).trans
        (ih (fun k hk => hh k (List.mem_cons_of_mem h hk)) _)
  exact hfold _ hh s

theorem notification_parts {v : Value} {n : Notification}
    (h : Message.ofValue v = .ok (.notification n)) : v.get? "method" = some (.str n.method) ∧
      n.params.getD .null = (v.get? "params").getD .null := by
  cases form_of_ofValue h with
  | @notification fs method version hi hm hv =>
    refine ⟨hm, ?_⟩
    have hget : Value.get? (.obj fs) "params" = fs.get? "params" := rfl
    rw [hget]
    change (fs.nonNull? "params").getD .null = _
    rw [Fields.nonNull?]
    cases fs.get? "params" with
    | none => rfl
    | some w =>
      rw [Option.bind_some, Value.nonNull?]
      split
      · rename_i hw
        rw [hw]
        rfl
      · rfl

/-- What comes of a notification. -/
structure Dispatched (v : Value) (method : String) (s t : State) : Prop where
  /-- The handlers of the method stand in the order of their registration, each with its own token. -/
  inOrder : (s.engine.topics.slot method).Pairwise fun a b => a.1 < b.1
  /-- Each of them hears the notification in turn, whatever those before it have done. -/
  heard : t = (s.engine.topics.snapshot method).foldl (fun s h =>
    State.hearNotification State.disconnect method ((v.get? "params").getD .null) h s) s
  /-- They are called one after the other, and nobody else is. -/
  called : calls t.journal = calls s.journal ++
    (s.engine.topics.snapshot method).filterMap (Handler.call? method ((v.get? "params").getD .null))
  /-- Whoever is registered meanwhile stands behind all those who were there and are left. -/
  later : s.engine.topics.Later t.engine.topics
  built : t.engine.topics.Built
  /-- Everything that is held and told of requests stays the same, unless a handler gives them up. -/
  requests : (∀ id, account id t = account id s) ∨ GivesUp s t
  spared : (∀ h ∈ s.engine.topics.snapshot method, h.Spares) → Still s t

theorem handleMessage_dispatches {v : Value} {n : Notification} (hs : s.engine.topics.Built)
    (hv : Message.ofValue v = .ok (.notification n)) :
    Dispatched v n.method s (State.handleMessage State.disconnect v s) := by
  obtain ⟨-, hparams⟩ := notification_parts hv
  have hdeliver : State.handleMessage State.disconnect v s =
      s.deliver State.disconnect n.method ((v.get? "params").getD .null) := by
    rw [State.handleMessage, hv, ← hparams]
  have hsilent : ∀ r ∈ response? v, False := by
    intro r hr
    rw [response?, hv] at hr
    cases hr
  have hhears : Hears (fun _ => True) (fun _ => False) s (State.handleMessage State.disconnect v s) :=
    handleMessage_hears closes_disconnect hsilent (heeds_anything s)
  refine ⟨hs.ordered.ascending n.method, hdeliver, ?_, (stable_later _).handleMessage v (.refl _),
    stable_built.handleMessage v hs, ?_, fun hh => ?_⟩
  · rw [hdeliver]
    exact calls_deliver n.method _ s
  · exact (handles_hears hhears).kept.imp_left fun h id => h id fun _ hr => hr.elim
  · rw [hdeliver]
    exact still_deliver hh State.disconnect _

/-- The registry of topics of a client is always one that was built, and from such a registry on every
notification in a frame, whatever stands before it there, is dispatched to those who are registered when
its turn comes. -/
theorem notifications_dispatched :
    (∀ layer options timeout moves,
      ((State.new layer options timeout).after moves).engine.topics.Built) ∧
    ∀ s : State, s.engine.topics.Built → ∀ frame before v after n,
      elements frame = before ++ v :: after → Message.ofValue v = .ok (.notification n) →
      let handle := fun s v => State.handleMessage State.disconnect v s
      let met := before.foldl handle s
      s.handleFrame State.disconnect frame = after.foldl handle (handle met v) ∧
        v.get? "method" = some (.str n.method) ∧ Dispatched v n.method met (handle met v) := by
  refine ⟨built_after, fun s hs frame before v after n hframe hv => ?_⟩
  intro handle met
  have hmet : met.engine.topics.Built := stable_built.handleMessages before hs
  refine ⟨?_, (notification_parts hv).1, handleMessage_dispatches hmet hv⟩
  rw [handleFrame_elements (by rw [hframe]; simp), hframe, List.foldl_append, List.foldl_cons]

/-- A handler that ends another one's registration and registers a third, one that fails, the one whose
registration ends, and one of another method. -/
def meddling : List Move :=
  [.listen (.method "m")
      (.user ⟨"a", false, [.unsubscribe "c", .subscribe (.method "m") false "d" []]⟩) "a",
    .listen (.method "m") (.user ⟨"b", false, [.fail]⟩) "b",
    .listen (.method "m") (.user ⟨"c", false, []⟩) "c",
    .listen (.method "other") (.user ⟨"e", false, []⟩) "e"]

def twoNotifications : String :=
  "[\x7b\"method\":\"m\",\"params\":null\x7d,\x7b\"method\":\"m\",\"params\":[1]\x7d]"

private theorem elements_twoNotifications : elements twoNotifications =
    [.obj [("method", .str "m"), ("params", .null)],
      .obj [("method", .str "m"), ("params", .arr [.nat 1])]] := by decide +kernel

/-- The first of two notifications still reaches the handler whose registration ends meanwhile, and the
second one reaches the handler that has been registered instead. -/
theorem notifications_dispatched_meddling :
    let s := (State.new .engine .standard 30000).after meddling
    calls (s.handleFrame State.disconnect twoNotifications).journal =
      [.notified "a" "m" .null, .notified "b" "m" .null, .notified "c" "m" .null,
        .notified "a" "m" (.arr [.nat 1]), .notified "b" "m" (.arr [.nat 1]),
        .notified "d" "m" (.arr [.nat 1])] := by
  intro s
  have hs : s.engine.topics.Built := notifications_dispatched.1 .engine .standard 30000 meddling
  obtain ⟨-, -, hfirst⟩ := notifications_dispatched.2 s hs twoNotifications [] _ _
    ⟨"2.0", "m", none⟩ elements_twoNotifications rfl
  obtain ⟨hframe, -, hsecond⟩ := notifications_dispatched.2 s hs twoNotifications
    [.obj [("method", .str "m"), ("params", .null)]] _ [] ⟨"2.0", "m", some (.arr [.nat 1])⟩
    elements_twoNotifications rfl
  have hcalled := hsecond.called.trans (congrArg (· ++ _) hfirst.called)
  rw [hframe]
  exact hcalled

end Client

end LanguageClient
