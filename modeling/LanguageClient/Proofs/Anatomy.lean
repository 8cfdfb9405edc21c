import LanguageClient.Proofs.Reaction
import LanguageClient.Proofs.Run
/-!
What moves are made of. Apart from the moves that change what connection there is or what documents
are open, every move is a sequence of small steps, and so is everything that handlers do apart from
closing the connection. Whatever each small step keeps is kept by all of them.
-/
namespace LanguageClient.Client
open Relation Transport Rpc Json Session

/-- Entries that tell neither of connections, nor of frames offered, nor of the end of a session. -/
def Entry.isPlain : Entry → Bool
  | .emitted .. | .received .. | .streamEnded _ | .writeFailed .. | .hungUp | .offered ..
  | .shutDown => false
  | _ => true

/-- A small step. No connection opens or closes, no document is opened, changed or closed, and only
frames with a property are sent. -/
inductive Step (P : String → Prop) : State → State → Prop where
  | record (e : Entry) (s : State) (h : e.isPlain = true) : Step P s (s.record e)
  | aside {s t : State} (transport : t.transport = s.transport)
    (topics : t.engine.topics = s.engine.topics)
    (documents : t.session.documents = s.session.documents) (journal : t.journal = s.journal) :
    Step P s t
  | connection (g : Nat) (f : Connection → Connection) (s : State)
    (h : ∀ c, (f c).reader = .running → c.reader = .running) : Step P s (s.modifyConnection g f)
  | send (frame : String) (s : State) (h : P frame) : Step P s (s.send frame).2
  | listen (topic : Topic) (handler : Handler) (name : String) (s : State) (h : handler.Sends P) :
    Step P s (s.listen topic handler name)
  | unlisten (name : String) (s : State) : Step P s (s.unlisten name).2
  | unhook (reg : Registration EventKind) (s : State) :
    Step P s (s.modifyTransport fun t => { t with hub := t.hub.unsubscribe reg })

abbrev Steps (P : String → Prop) : State → State → Prop := ReflTransGen (Step P)

theorem Steps.keeps {P : String → Prop} {Q : State → Prop}
    (hQ : ∀ s t, Step P s t → Q s → Q t) {s t : State} (h : Steps P s t) (hs : Q s) : Q t := by
  induction h with
  | refl => exact hs
  | tail _ h ih => exact hQ _ _ h ih

/-- Entries that small steps tell: plain ones, and that frames with a property are offered. -/
def Entry.IsMinor (P : String → Prop) : Entry → Prop
  | .offered frame _ => P frame
  | e => e.isPlain = true

/-- Connections come from connections, and no reader of theirs has begun. -/
def ConnectionsFrom (s t : State) : Prop :=
  ∀ g c, t.connection? g = some c →
    ∃ d, s.connection? g = some d ∧ (c.reader = .running → d.reader = .running)

theorem connections_self {s t : State} (h : t.transport.connections = s.transport.connections) :
    ConnectionsFrom s t :=
  fun _ c hc => ⟨c, by rw [State.connection?, ← h]; exact hc, id⟩

theorem connections_modify {s t : State} {k : Nat} {f : Connection → Connection}
    (ht : t.transport.connections = s.transport.connections.modify k f)
    (hf : ∀ c, (f c).reader = .running → c.reader = .running) : ConnectionsFrom s t := by
  intro g c hc
  rw [State.connection?, ht, Keyed.get?_modify] at hc
  split at hc
  · obtain ⟨d, hd, rfl⟩ := Option.map_eq_some_iff.mp hc
    exact ⟨d, hd, hf d⟩
  · exact ⟨c, hc, id⟩

/-- What a small step leaves as it is, and what it tells. -/
structure Minor (P : String → Prop) (s t : State) : Prop where
  generation : t.transport.generation = s.transport.generation
  state : t.transport.state = s.transport.state
  tasks : t.transport.tasks = s.transport.tasks
  connections : ConnectionsFrom s t
  documents : t.session.documents = s.session.documents
  journal : Grows (Entry.IsMinor P) s t

theorem Step.minor {P : String → Prop} {s t : State} (h : Step P s t) : Minor P s t := by
  cases h with
  | record e s h =>
    have he : e.IsMinor P := by cases e <;> first | exact h | cases h
    exact ⟨rfl, rfl, rfl, connections_self rfl, rfl, grows_record he s⟩
  | aside transport _ documents journal =>
    exact ⟨by rw [transport], by rw [transport], by rw [transport], connections_self (by rw [transport]),
      documents, .of_eq journal⟩
  | connection g f s hf => exact ⟨rfl, rfl, rfl, connections_modify rfl hf, rfl, .of_eq rfl⟩
  | send frame s hP =>
    have hoffered (taken : Option Nat) : ∀ e ∈ [Entry.offered frame taken], e.IsMinor P :=
      List.forall_mem_singleton.mpr hP
    obtain ⟨g, _, _, _, h⟩ | ⟨_, h⟩ := State.send_cases frame s <;> rw [h]
    · exact ⟨rfl, rfl, rfl, connections_modify (k := g)
        (f := fun c => { c with queue := c.queue ++ [frame] }) rfl fun _ h => h, rfl, _, rfl,
        hoffered (some g)⟩
    · exact ⟨rfl, rfl, rfl, connections_self rfl, rfl, _, rfl, hoffered none⟩
  | listen topic handler name s _ =>
    obtain ⟨_, _, _, h⟩ := State.listen_eq topic handler name s
    rw [h]
    exact ⟨rfl, rfl, rfl, connections_self rfl, rfl, .of_eq rfl⟩
  | unlisten name s =>
    obtain ⟨_, _, _, h⟩ := State.unlisten_eq name s
    rw [h]
    exact ⟨rfl, rfl, rfl, connections_self rfl, rfl, .of_eq rfl⟩
  | unhook reg s => exact ⟨rfl, rfl, rfl, connections_self rfl, rfl, .of_eq rfl⟩

/-- The frames that the client sends on its own account, other than those about documents. -/
structure Own (P : String → Prop) : Prop where
  request : ∀ r : Request, P r.wire
  notification : ∀ method params, method ≠ "textDocument/didOpen" →
    method ≠ "textDocument/didChange" → method ≠ "textDocument/didClose" →
    P (Notification.new method params).wire

variable {P : String → Prop} {R : Response → Prop}

/-- Entries of the work that serves connections and operations. -/
def Entry.isChore : Entry → Bool
  | .note _ | .finished .. | .keptAlive .. | .written .. | .sinkClosed _ => true
  | _ => false

/-- A small step that concerns neither requests nor handlers. -/
inductive Chore (P : String → Prop) : State → State → Prop where
  | record (e : Entry) (s : State) (h : e.isChore = true) : Chore P s (s.record e)
  | aside {s t : State} (transport : t.transport = s.transport) (engine : t.engine = s.engine)
    (documents : t.session.documents = s.session.documents) (journal : t.journal = s.journal) :
    Chore P s t
  | connection (g : Nat) (f : Connection → Connection) (s : State)
    (h : ∀ c, (f c).reader = .running → c.reader = .running) : Chore P s (s.modifyConnection g f)
  | send (frame : String) (s : State) (h : P frame) : Chore P s (s.send frame).2

abbrev Chores (P : String → Prop) : State → State → Prop := ReflTransGen (Chore P)

theorem Chore.step {s t : State} (h : Chore P s t) : Step P s t := by
  cases h with
  | record e s h => exact .record e s (by cases e <;> first | rfl | cases h)
  | aside transport engine documents journal =>
    exact .aside transport (by rw [engine]) documents journal
  | connection g f s h => exact .connection g f s h
  | send frame s h => exact .send frame s h

theorem Chores.steps {s t : State} (h : Chores P s t) : Steps P s t :=
  ReflTransGen.mono (fun _ _ => Chore.step) _ _ h

theorem chores_aside {s t : State} (transport : t.transport = s.transport)
    (engine : t.engine = s.engine) (documents : t.session.documents = s.session.documents)
    (journal : t.journal = s.journal) : Chores P s t :=
  .single (.aside transport engine documents journal)

theorem Chores.wake {s t : State} (h : Chores P s t) (w : Work) : Chores P s (t.wake w) :=
  h.tail (.aside (by simp) (by simp) (by simp) (by simp))

theorem Chores.record {s t : State} (h : Chores P s t) {e : Entry} (he : e.isChore = true) :
    Chores P s (t.record e) := h.tail (.record e t he)

theorem chores_endReader (g : Nat) (s : State) : Chores P s (s.endReader g) := by
  rw [State.endReader]
  split
  · exact .refl
  · have hend : Chores P s (s.modifyConnection g fun c => { c with reader := .ended }) :=
      .single (.connection g _ s nofun)
    exact hend.tail (.aside rfl rfl rfl rfl)

theorem chores_endWriter (g : Nat) (s : State) : Chores P s (s.endWriter g) := by
  rw [State.endWriter]
  split
  · exact .refl
  · have hend : Chores P s (s.modifyConnection g fun c => { c with writing := false, queue := [] }) :=
      .single (.connection g _ s fun _ h => h)
    exact hend.tail (.aside rfl rfl rfl rfl)

theorem chores_unqueue (g : Nat) (s : State) : Chores P s (s.unqueue g) :=
  .single (.connection g (fun c => { c with queue := c.queue.tail }) s fun _ h => h)

theorem chores_writeItem (g : Nat) (s : State) : Chores P s (s.writeItem g) := by
  rw [State.writeItem]
  split
  · exact (chores_unqueue g s).record rfl
  · exact .refl

theorem chores_endTicker (g : Nat) (s : State) : Chores P s (s.endTicker g) := by
  have he : Chores P s (s.modifyConnection g fun c => { c with ticker := .ended }) :=
    .single (.connection g (fun c => { c with ticker := .ended }) s fun _ h => h)
  unfold State.endTicker
  simp only
  split
  · exact he
  · exact he.wake _

theorem chores_queueTicks (g : Nat) (ticks : List Nat) (s : State) :
    Chores P s (State.queueTicks g ticks s) := by
  induction ticks generalizing s with
  | nil => exact .refl
  | cons due ticks ih =>
    have hqueue : Chores P s (s.modifyConnection g fun c =>
        { c with queue := c.queue ++ [s.transport.options.keepaliveFrame] }) :=
      .single (.connection g _ s fun _ h => h)
    exact ((hqueue.wake _).record rfl).trans (ih _)

theorem chores_tick (g every : Nat) (c : Connection) (s : State) :
    Chores P s (State.tick g every c s) := by
  have hnext (t : State) (due : Nat) : Chores P t (t.modifyConnection g fun c =>
      { c with nextTick := some due }) := .single (.connection g _ t fun _ h => h)
  rw [State.tick]
  split
  · exact (hnext s _).tail (.aside rfl rfl rfl rfl)
  · simp only
    split
    · exact chores_queueTicks g _ s
    · exact ((chores_queueTicks g _ s).trans (hnext _ _)).tail (.aside rfl rfl rfl rfl)

theorem chores_runTicker (g : Nat) (s : State) : Chores P s (s.runTicker g) := by
  rw [State.runTicker]
  split
  · split
    · exact .refl
    · exact chores_endTicker g s
    · split
      · exact chores_endTicker g s
      · exact chores_tick g _ _ s
  · exact .refl

theorem chores_notify {method : String} {params : Option Value}
    (h : P (Notification.new method params).wire) (s : State) :
    Chores P s (s.notify method params).2 := .single (.send _ s h)

theorem chores_warn (text : String) (s : State) : Chores P s (s.warn text) :=
  .single (.record _ s rfl)

theorem chores_beginInitialize (s : State) : Chores P s s.beginInitialize := by
  rw [State.beginInitialize]
  split
  · exact chores_aside rfl rfl rfl rfl
  · exact (chores_warn _ s).tail (.aside rfl rfl rfl rfl)

theorem chores_completeInitialize (outcome : Outcome Value) (s : State) :
    Chores P s (s.completeInitialize outcome).2 := by
  have hwarns : ∀ (texts : List String) (t : State),
      Chores P t (texts.foldl (fun s text => s.warn text) t) := by
    intro texts
    induction texts with
    | nil => exact fun _ => .refl
    | cons text texts ih => exact fun t => (chores_warn text t).trans (ih _)
  cases outcome with
  | error e => exact chores_aside rfl rfl rfl rfl
  | ok result => exact (hwarns _ s).tail (.aside rfl rfl rfl rfl)

theorem chores_initialized (h : P (Notification.new "initialized" (some (.obj []))).wire)
    (s : State) : Chores P s s.initialized.2 := by
  have hn : Chores P s (s.notify "initialized" (some (.obj []))).2 := chores_notify h s
  rw [State.initialized]
  split <;> rename_i h <;> rw [h] at hn
  · exact hn.tail (.aside rfl rfl rfl rfl)
  · exact hn

theorem chores_warnIfNotReady (s : State) : Chores P s s.warnIfNotReady := by
  rw [State.warnIfNotReady]
  split
  · exact .refl
  · have hw : Chores P s (s.modifySession fun c => { c with warned := true }) :=
      chores_aside rfl rfl rfl rfl
    exact hw.trans (chores_warn _ _)

theorem steps_aside {s t u : State} (h : Steps P s t) (transport : u.transport = t.transport)
    (topics : u.engine.topics = t.engine.topics)
    (documents : u.session.documents = t.session.documents) (journal : u.journal = t.journal) :
    Steps P s u := h.tail (.aside transport topics documents journal)

theorem steps_record {e : Entry} (he : e.isPlain = true) {s t : State} (h : Steps P s t) :
    Steps P s (t.record e) := h.tail (.record e t he)

theorem steps_wake (w : Work) {s t : State} (h : Steps P s t) : Steps P s (t.wake w) :=
  steps_aside h (by simp) (by simp) (by simp) (by simp)

theorem steps_remove (id : Int) (entry : Pending) {s t : State} (h : Steps P s t) :
    Steps P s (t.remove id entry) := steps_aside h rfl rfl rfl rfl

theorem steps_conclude (id : Int) (outcome : Outcome Value) {s t : State} (h : Steps P s t) :
    Steps P s (t.conclude id outcome) := by
  unfold State.conclude
  have hr : Steps P s ((t.modifyEngine fun e => { e with
      outcomes := e.outcomes.put id outcome }).record (.settled id outcome)) :=
    steps_record rfl (steps_aside h rfl rfl rfl rfl)
  simp only
  split
  · exact steps_wake _ hr
  · exact hr

theorem steps_settle (id : Int) (f : Pending → Outcome Value) {s t : State} (h : Steps P s t) :
    Steps P s (t.settle id f) := by
  rw [State.settle]
  split
  · exact h
  · exact steps_conclude id _ (steps_remove id _ h)

theorem steps_resolve (r : Response) (s : State) : Steps P s (s.resolve r) := by
  have hr : Steps P s (s.record (.answered r)) := steps_record rfl .refl
  unfold State.resolve
  simp only
  split
  · exact steps_settle _ _ hr
  · exact hr

theorem steps_abortPending (reason : String) {s t : State} (h : Steps P s t) :
    Steps P s (t.abortPending reason).2 :=
  State.abortPending_keeps (Q := Steps P s) (steps_record rfl h) fun id _ h => steps_settle id _ h

theorem steps_cancelToken (token : String) (s : State) : Steps P s (s.cancelToken token) := by
  obtain ⟨_, _, h⟩ := State.cancelToken_eq token s
  rw [h]
  exact steps_aside .refl rfl rfl rfl rfl

/-- What handlers do is a sequence of small steps, but for closing the connection. -/
theorem hear_steps {s t : State} (h : Hear P R s t) : Steps P s t ∨ t = s.hangUp := by
  cases h with
  | resolve r s _ => exact .inl (steps_resolve r s)
  | react h =>
    cases h with
    | remark e s he => exact .inl (.single (.record e s (by cases e <;> first | rfl | cases he)))
    | listen topic handler name s hh => exact .inl (.single (.listen topic handler name s hh))
    | unlisten name s => exact .inl (.single (.unlisten name s))
    | send frame s hf => exact .inl (.single (.send frame s hf))
    | cancelToken token s => exact .inl (steps_cancelToken token s)
    | abortPending reason s => exact .inl (steps_abortPending reason .refl)
    | hangUp s => exact .inr rfl

theorem Hears.keeps_of_steps {Q : State → Prop} (hQ : ∀ s t, Step P s t → Q s → Q t)
    (hup : ∀ s, Q s → Q s.hangUp) {s t : State} (h : Hears P R s t) (hs : Q s) : Q t := by
  refine h.keeps (fun s t h hs => ?_) hs
  rcases hear_steps h with h | rfl
  · exact h.keeps hQ hs
  · exact hup s hs

theorem steps_cancel (hc : ∀ params, P (Notification.new State.cancelMethod params).wire) (id : Int)
    {s t : State} (h : Steps P s t) : Steps P s (t.cancel id) := by
  have hr : Steps P s (t.record (.revoked id)) := steps_record rfl h
  unfold State.cancel
  simp only
  split
  · exact hr
  · exact steps_conclude id _ (.tail (steps_remove id _ hr) (.send _ _ (hc _)))

theorem steps_expire (id : Int) (timeout : Nat) {s t : State} (h : Steps P s t) :
    Steps P s (t.expire id timeout) := steps_settle id _ (steps_record rfl h)

theorem steps_endWatchdog (id : Int) (s : State) : Steps P s (s.endWatchdog id) :=
  steps_aside .refl rfl rfl rfl rfl

theorem steps_watch (hc : ∀ params, P (Notification.new State.cancelMethod params).wire) (id : Int)
    (s : State) : Steps P s (s.watch id) := by
  rw [State.watch]
  split
  · exact .refl
  · simp only
    split
    · exact steps_cancel hc id (steps_endWatchdog id s)
    · split
      · exact steps_expire id _ (steps_endWatchdog id s)
      · split
        · exact .refl
        · exact steps_aside .refl rfl rfl rfl rfl

theorem steps_lapse (id : Int) (s : State) : Steps P s (s.lapse id) := by
  rw [State.lapse]
  split
  · exact .refl
  · split
    · exact steps_expire id _ (steps_endWatchdog id s)
    · exact .refl

theorem steps_abandon (id : Int) (s : State) : Steps P s (s.abandon id) := by
  have hd : Steps P s ((s.record (.abandoned id)).modifyEngine
      fun e => { e with outcomes := e.outcomes.erase id }) :=
    steps_aside (steps_record rfl .refl) rfl rfl rfl rfl
  unfold State.abandon
  simp only
  split
  · exact hd
  · exact steps_remove id _ hd

theorem steps_request (hr : ∀ r : Request, P r.wire) (method : String) (params : Value)
    (options : CallOptions) {s t : State} (h : Steps P s t) :
    Steps P s (t.request method params options).2 := by
  have he : Steps P s (t.enter method options).2 :=
    steps_record rfl (steps_aside h rfl rfl rfl rfl)
  rw [State.request]
  simp only
  split
  · exact steps_settle _ _ (steps_record rfl he)
  · obtain ⟨u, hu, h | ⟨e, h⟩⟩ := State.handOver_cases (t.enter method options).1 method params
      (t.enter method options).2
    · have hsend : Steps P s u := hu ▸ he.tail (.send _ _ (hr _))
      rw [h]
      have hg : Steps P s (u.guard (t.enter method options).1 options) :=
        steps_wake _ (steps_aside hsend rfl rfl rfl rfl)
      refine steps_aside hg rfl ?_ rfl rfl
      simp only [State.attach, State.modifyEngine]
      split <;> rfl
    · have hsend : Steps P s u := hu ▸ he.tail (.send _ _ (hr _))
      rw [h]
      exact steps_settle _ _ (steps_record rfl hsend)

theorem steps_dropEngine (s : State) : Steps P s s.dropEngine := by
  rw [State.dropEngine]
  cases s.engine.inbound with
  | none => exact steps_abortPending _ (steps_aside .refl rfl rfl rfl rfl)
  | some reg =>
    exact steps_abortPending _ (steps_aside (.single (.unhook reg s)) rfl rfl rfl rfl)

theorem steps_collect (id : Int) (s : State) : Steps P s ((s.collect id).elim s Prod.snd) := by
  rw [State.collect]
  cases s.engine.outcomes.get? id with
  | none => exact .refl
  | some outcome => exact steps_aside .refl rfl rfl rfl rfl

/-- The moves that open or close a connection, or read from one. -/
def Move.concernsConnections : Move → Bool
  | .connect | .found .. | .missed .. | .disconnect | .read .. | .readEnd _ | .failWrite ..
  | .hear _ => true
  | _ => false

/-- The moves that open, change or close documents. -/
def Move.concernsDocuments : Move → Bool
  | .didOpen _ | .openFile .. | .didChange .. | .didClose _ | .completeShutdown _ => true
  | _ => false

/-- The frames that a move sends at the user's wish have the property, and so have those of the
handlers that it registers. -/
def Move.Sends (P : String → Prop) : Move → Prop
  | .send frame => P frame
  | .notify method params => P (Notification.new method params).wire
  | .listen _ handler _ => handler.Sends P
  | _ => True

/-- The frames that a move sends on the client's own account have the property, other than those about
documents. -/
def Move.Owns (P : String → Prop) : Move → Prop
  | .request .. | .feature .. => ∀ r : Request, P r.wire
  | .watch _ => ∀ params, P (Notification.new State.cancelMethod params).wire
  | .initialized => P (Notification.new "initialized" (some (.obj []))).wire
  | .didSave .. => ∀ params, P (Notification.new "textDocument/didSave" params).wire
  | _ => True

theorem Own.owns (own : Own P) (m : Move) : m.Owns P := by
  cases m with
  | request method params options => exact own.request
  | feature f params token => exact own.request
  | watch id => exact fun params => own.notification _ params (by decide) (by decide) (by decide)
  | initialized => exact own.notification _ _ (by decide) (by decide) (by decide)
  | didSave uri text =>
    exact fun params => own.notification _ params (by decide) (by decide) (by decide)
  | _ => trivial

/-- The moves that concern neither requests nor handlers. -/
def Move.isChore : Move → Bool
  | .around _ | .note _ | .finished .. | .send _ | .readerStops _ | .write _ | .closeSink _ | .tick _
  | .notify .. | .beginInitialize | .completeInitialize _ | .initialized | .beginShutdown
  | .didSave .. => true
  | _ => false

theorem Move.chores_of {m : Move} (ho : m.Owns P) (hc : m.isChore = true) (hm : m.Sends P)
    (s : State) : Chores P s (m.apply s) := by
  cases m with
  | around t => exact chores_aside rfl rfl rfl rfl
  | note n => exact .single (.record _ s rfl)
  | finished operation outcome => exact .single (.record _ s rfl)
  | send frame => exact .single (.send frame s hm)
  | readerStops g =>
    simp only [Move.apply]
    split
    · exact .refl
    · exact chores_endReader g s
  | write g => exact chores_writeItem g s
  | closeSink g =>
    simp only [Move.apply]
    split
    · exact (chores_endWriter g s).record rfl
    · exact .refl
  | tick g => exact chores_runTicker g s
  | notify method params => exact .single (.send _ s hm)
  | beginInitialize => exact chores_beginInitialize s
  | completeInitialize outcome => exact chores_completeInitialize outcome s
  | initialized => exact chores_initialized ho s
  | beginShutdown => exact chores_aside rfl rfl rfl rfl
  | didSave uri text => exact chores_notify (ho _) s
  | _ => cases hc

theorem Move.chores (own : Own P) {m : Move} (hc : m.isChore = true) (hm : m.Sends P) (s : State) :
    Chores P s (m.apply s) := m.chores_of (own.owns m) hc hm s

/-- Every move but those of connections and of documents is a sequence of small steps. -/
theorem Move.steps_of {m : Move} (ho : m.Owns P) (hc : m.concernsConnections = false)
    (hd : m.concernsDocuments = false) (hm : m.Sends P) (s : State) : Steps P s (m.apply s) := by
  by_cases hchore : m.isChore = true
  · exact (m.chores_of ho hchore hm s).steps
  cases m with
  | listen topic handler name => exact .single (.listen topic handler name s hm)
  | unlisten name => exact .single (.unlisten name s)
  | request method params options => exact steps_request ho method params options .refl
  | watch id => exact steps_watch ho id s
  | lapse id => exact steps_lapse id s
  | cancelToken token => exact steps_cancelToken token s
  | abandon id => exact steps_abandon id s
  | collect id => exact steps_collect id s
  | abort reason => exact steps_abortPending reason .refl
  | dropEngine => exact steps_dropEngine s
  | feature f params token => exact steps_request ho _ _ _ (chores_warnIfNotReady s).steps
  | connect | found _ _ | missed _ _ | disconnect | read _ _ | readEnd _ | failWrite _ _ | hear _ =>
    cases hc
  | completeShutdown _ | didOpen _ | openFile _ _ | didChange _ _ _ | didClose _ => cases hd
  | _ => exact absurd rfl hchore

theorem Move.steps (own : Own P) {m : Move} (hc : m.concernsConnections = false)
    (hd : m.concernsDocuments = false) (hm : m.Sends P) (s : State) : Steps P s (m.apply s) :=
  m.steps_of (own.owns m) hc hd hm s

theorem own_anything : Own fun _ => True := ⟨fun _ => trivial, fun _ _ _ _ _ => trivial⟩

theorem Move.sends_anything (m : Move) : m.Sends fun _ => True := by
  cases m with
  | listen topic handler name => exact handler.sends_anything
  | _ => trivial

/-- Entries that tell of connections. -/
def Entry.isOfConnection : Entry → Bool
  | .emitted .. | .received .. | .streamEnded _ | .writeFailed .. | .hungUp => true
  | _ => false

/-- The moves that an event may come of, and so all that handlers do. -/
def Move.emits : Move → Bool
  | .found .. | .missed .. | .disconnect | .read .. | .readEnd _ | .failWrite .. | .hear _ => true
  | _ => false

/-- What a move may tell of connections. -/
inductive Reports : Move → Entry → Prop where
  | emitted {m : Move} (h : m.emits = true) (g : Nat) (event : Transport.Event) :
    Reports m (.emitted g event)
  | hungUp {m : Move} (h : m.emits = true) : Reports m .hungUp
  | received (g : Nat) (item : Outcome String) : Reports (.read g item) (.received g item)
  | streamEnded (g : Nat) : Reports (.readEnd g) (.streamEnded g)
  | writeFailed (g : Nat) (text : String) : Reports (.failWrite g text) (.writeFailed g text)

theorem Reports.isOfConnection {m : Move} {e : Entry} (h : Reports m e) :
    e.isOfConnection = true := by
  cases h <;> rfl

/-- Events may be told, and what handlers make of them. -/
structure Eventful (E : Entry → Prop) : Prop where
  emitted : ∀ g event, E (.emitted g event)
  hungUp : E .hungUp

theorem reports_eventful {m : Move} (h : m.emits = true) : Eventful (Reports m) :=
  ⟨.emitted h, .hungUp h⟩

/-- Nothing changes but the connection, and nothing is told but what is allowed. -/
structure Switch (E : Entry → Prop) (s t : State) : Prop where
  hub : t.transport.hub = s.transport.hub
  topics : t.engine.topics = s.engine.topics
  documents : t.session.documents = s.session.documents
  journal : Grows E s t

/-- A small step, or a change of the connection. -/
inductive Shift (P : String → Prop) (E : Entry → Prop) : State → State → Prop where
  | step {s t : State} (h : Step P s t) : Shift P E s t
  | switch {s t : State} (h : Switch E s t) : Shift P E s t

abbrev Shifts (P : String → Prop) (E : Entry → Prop) : State → State → Prop :=
  ReflTransGen (Shift P E)

variable {E : Entry → Prop}

theorem Shifts.keeps {Q : State → Prop} (hstep : ∀ s t, Step P s t → Q s → Q t)
    (hswitch : ∀ s t, Switch E s t → Q s → Q t) {s t : State} (h : Shifts P E s t) (hs : Q s) :
    Q t := by
  induction h with
  | refl => exact hs
  | tail _ h ih =>
    cases h with
    | step h => exact hstep _ _ h ih
    | switch h => exact hswitch _ _ h ih

theorem Steps.shifts {s t : State} (h : Steps P s t) : Shifts P E s t :=
  ReflTransGen.mono (fun _ _ => Shift.step) _ _ h

theorem Chores.shifts {s t : State} (h : Chores P s t) : Shifts P E s t := h.steps.shifts

theorem Switch.shifts {s t : State} (h : Switch E s t) : Shifts P E s t := .single (.switch h)

theorem Switch.record {e : Entry} (he : E e) {s t : State} (h : Switch E s t) :
    Switch E s (t.record e) :=
  ⟨h.hub, h.topics, h.documents, h.journal.trans (grows_record he t)⟩

theorem Switch.refl (s : State) : Switch E s s := ⟨rfl, rfl, rfl, .refl s⟩

theorem Switch.takeDown {s t : State} (h : Switch E s t) : Switch E s t.takeDown := by
  obtain ⟨_, _, ht⟩ := State.takeDown_eq t
  rw [ht]
  exact ⟨h.hub, h.topics, h.documents, h.journal⟩

theorem switch_hangUp (hE : Eventful E) (s : State) : Switch E s s.hangUp := by
  have hup : Switch E s (s.record .hungUp) := (Switch.refl s).record hE.hungUp
  rw [State.hangUp]
  split
  · exact hup
  · exact hup.takeDown.record (hE.emitted _ _)

theorem Hears.shifts (hE : Eventful E) {s t : State} (h : Hears P R s t) : Shifts P E s t := by
  induction h with
  | refl => exact .refl
  | tail _ h ih =>
    rcases hear_steps h with h | rfl
    · exact ih.trans h.shifts
    · exact ih.trans (switch_hangUp hE _).shifts

theorem Heeds.shifts {s t : State} (h : Shifts P E s t) (hs : Heeds P s) : Heeds P t := by
  refine h.keeps (fun s t h hs => ?_) (fun s t h hs => hs.of_eq h.hub h.topics) hs
  cases h with
  | record e s _ => exact hs
  | aside transport topics _ _ => exact hs.of_eq (by rw [transport]) topics
  | connection g f s _ => exact hs
  | send frame s h => exact hs.react (.send frame s h)
  | listen topic handler name s h => exact hs.react (.listen topic handler name s h)
  | unlisten name s => exact hs.react (.unlisten name s)
  | unhook reg s => exact hs.unhook reg

theorem shifts_emit (hE : Eventful E) {close : State → State} (hc : Closes P close) (g : Nat)
    (event : Transport.Event) {s t : State} (h : Switch E s t) (hs : Heeds P s) :
    Shifts P E s (State.emitWith close g event t) := by
  have hheard := emitWith_hears hc g event (hs.of_eq h.hub h.topics)
  exact (h.record (hE.emitted g event)).shifts.trans (Hears.shifts hE hheard)

theorem shifts_shut (hE : Eventful E) (g : Option Nat) (reason : CloseReason) {s t : State}
    (h : Switch E s t) (hs : Heeds P s) : Shifts P E s (t.shut g reason) := by
  rw [State.shut]
  split
  · exact h.shifts
  · exact shifts_emit hE closes_id _ _ h.takeDown hs

theorem shifts_failConnection (hE : Eventful E) (g : Nat) (text : String) {s t : State}
    (h : Switch E s t) (hs : Heeds P s) : Shifts P E s (t.failConnection g text) := by
  have ht : Heeds P t := hs.of_eq h.hub h.topics
  have hwarn : Shifts P E t (t.warn "transport failure") := (chores_warn _ t).shifts
  have hemit := hwarn.trans (shifts_emit hE closes_disconnect g (.failed text) (.refl _)
    (ht.shifts hwarn))
  have hshut := shifts_shut hE (some g) .byFailure (.refl _) (ht.shifts hemit)
  rw [State.failConnection]
  split
  · exact h.shifts.trans (hemit.trans hshut)
  · exact h.shifts

private theorem shifts_readItem (hE : Eventful E) (g : Nat) {item : Outcome String}
    (hr : E (.received g item)) {s : State} (hs : Heeds P s) : Shifts P E s (s.readItem g item) := by
  have hread : Switch E s (s.record (.received g item)) := (Switch.refl s).record hr
  unfold State.readItem
  split
  · cases item with
    | ok frame => exact shifts_emit hE closes_disconnect g _ hread hs
    | error e => exact (shifts_failConnection hE g _ hread hs).trans (chores_endReader g _).shifts
  · exact .refl

private theorem shifts_failWrite (hE : Eventful E) (g : Nat) {text : String}
    (hw : E (.writeFailed g text)) {s : State} (hs : Heeds P s) :
    Shifts P E s (s.failWrite g text) := by
  rw [State.failWrite]
  split
  · have hun : Shifts P E s (s.unqueue g) := (chores_unqueue g s).shifts
    have hfail := shifts_failConnection hE g text ((Switch.refl (s.unqueue g)).record hw)
      (hs.shifts hun)
    exact hun.trans (hfail.trans (chores_endWriter g _).shifts)
  · exact .refl

private theorem shifts_completeAttempt (hE : Eventful E) (g l : Nat) {s : State} (hs : Heeds P s) :
    Shifts P E s (s.completeAttempt g l).2 := by
  rw [State.completeAttempt]
  split
  · obtain ⟨_, _, _, he⟩ := State.establish_eq g l s
    refine shifts_emit hE closes_disconnect g _ ?_ hs
    rw [he]
    exact ⟨rfl, rfl, rfl, .of_eq rfl⟩
  · have hdrop : Chores P s (s.dropLink l) := chores_aside rfl rfl rfl rfl
    exact hdrop.shifts

/-- Every move but those of documents is a sequence of small steps and changes of the connection, of
which it tells only what it may. -/
theorem Move.shifts_of {m : Move} (ho : m.Owns P) (hd : m.concernsDocuments = false)
    (hm : m.Sends P) {s : State} (hs : Heeds P s) : Shifts P (Reports m) s (m.apply s) := by
  by_cases hc : m.concernsConnections = true
  · cases m with
    | connect =>
      simp only [Move.apply, State.beginAttempt]
      split
      · exact Switch.shifts ⟨rfl, rfl, rfl, .of_eq rfl⟩
      · exact .refl
    | found g l => exact shifts_completeAttempt (reports_eventful rfl) g l hs
    | missed g e =>
      simp only [Move.apply, State.failAttempt]
      split
      · exact shifts_emit (reports_eventful rfl) closes_disconnect g _ ⟨rfl, rfl, rfl, .of_eq rfl⟩ hs
      · exact .refl
    | disconnect =>
      have hheard := Reacts.hears (R := fun _ => False) (closes_disconnect s hs)
      exact Hears.shifts (reports_eventful rfl) hheard
    | read g item => exact shifts_readItem (reports_eventful rfl) g (.received g item) hs
    | readEnd g =>
      simp only [Move.apply]
      split
      · exact (shifts_shut (reports_eventful rfl) (some g) .byPeer
          ((Switch.refl s).record (.streamEnded g)) hs).trans (chores_endReader g _).shifts
      · exact .refl
    | failWrite g text => exact shifts_failWrite (reports_eventful rfl) g (.writeFailed g text) hs
    | hear frame =>
      exact Hears.shifts (reports_eventful rfl) (handleFrame_hears closes_disconnect frame hs)
    | _ => cases hc
  · exact (m.steps_of ho (by simpa using hc) hd hm s).shifts

theorem Move.shifts (own : Own P) {m : Move} (hd : m.concernsDocuments = false) (hm : m.Sends P)
    {s : State} (hs : Heeds P s) : Shifts P (Reports m) s (m.apply s) :=
  m.shifts_of (own.owns m) hd hm hs

/-- A step of a move of documents. -/
inductive Filing (P : String → Prop) : State → State → Prop where
  | send (frame : String) (s : State) (h : P frame) : Filing P s (s.send frame).2
  | note (n : Note) (s : State) : Filing P s (s.record (.note n))
  | session (c : Conversation) (s : State) : Filing P s { s with session := c }
  | shutDown (s : State) : Filing P s (s.record .shutDown)

abbrev Filings (P : String → Prop) : State → State → Prop := ReflTransGen (Filing P)

/-- The frames that a move sends about documents have the property. -/
def Move.Files (P : String → Prop) : Move → Prop
  | .didOpen _ | .openFile .. => ∀ params, P (Notification.new "textDocument/didOpen" params).wire
  | .didChange .. => ∀ params, P (Notification.new "textDocument/didChange" params).wire
  | .didClose _ => ∀ params, P (Notification.new "textDocument/didClose" params).wire
  | .completeShutdown _ => P (Notification.new "exit" none).wire
  | _ => True

theorem Filings.keeps {Q : State → Prop} (hQ : ∀ s t, Filing P s t → Q s → Q t) {s t : State}
    (h : Filings P s t) (hs : Q s) : Q t := by
  induction h with
  | refl => exact hs
  | tail _ h ih => exact hQ _ _ h ih

private theorem filings_offer {α : Type} {frame : String} (h : P frame) (ok : α)
    (error : Fault → α) {f : State → State} (hf : ∀ s, Filing P s (f s)) (s : State) :
    Filings P s (match s.send frame with
      | (.ok _, s) => (ok, f s)
      | (.error e, s) => (error e, s)).2 := by
  have hsend : Filings P s (s.send frame).2 := .single (.send frame s h)
  split <;> rename_i h <;> rw [h] at hsend
  · exact hsend.tail (hf _)
  · exact hsend

private theorem filings_didOpen (item : TextItem)
    (h : ∀ params, P (Notification.new "textDocument/didOpen" params).wire) (s : State) :
    Filings P s (s.didOpen item).2 :=
  filings_offer (h _) _ _ (fun s => .session _ s) s

private theorem filings_openFile (path : String) (contents : Outcome String)
    (h : ∀ params, P (Notification.new "textDocument/didOpen" params).wire) (s : State) :
    Filings P s (s.openFile path contents).2 := by
  unfold State.openFile
  split
  · exact .refl
  · exact .refl
  · rename_i text uri _
    have h := filings_didOpen ⟨uri, Path.detectLanguage path, 1, text⟩ h s
    split <;> rename_i hd <;> rw [hd] at h <;> exact h

private theorem filings_didChange (uri : Uri) (text : String) (edits : List ContentChange)
    (h : ∀ params, P (Notification.new "textDocument/didChange" params).wire) (s : State) :
    Filings P s (s.didChange uri text edits).2 := by
  unfold State.didChange State.notify
  split
  · exact .refl
  · cases s.session.documents.nextVersion? uri.text with
    | some version =>
      exact filings_offer (h _) _ _ (f := fun s => s.recordChange uri version)
        (fun s => .session _ s) s
    | none =>
      refine .head (.note ⟨.warn, "change for a document that was never opened"⟩ s) ?_
      exact filings_offer (h _) _ _ (f := fun s => s.recordChange uri 1) (fun s => .session _ s) _

private theorem filings_didClose (uri : Uri)
    (h : ∀ params, P (Notification.new "textDocument/didClose" params).wire) (s : State) :
    Filings P s (s.didClose uri).2 :=
  filings_offer (h _) _ _ (fun s => .session _ s) s

private theorem filings_completeShutdown (outcome : Outcome Value)
    (h : P (Notification.new "exit" none).wire) (s : State) :
    Filings P s (s.completeShutdown outcome).2 := by
  have hexit (t : State) : Filings P t (((t.notify "exit" none).2.modifySession fun c =>
      { c with lifecycle := .shutdown, documents := [] }).record .shutDown) :=
    .tail (.tail (.single (.send _ t h)) (.session _ _)) (.shutDown _)
  cases outcome with
  | ok _ => exact hexit s
  | error e => exact .head (.note _ s) (hexit _)

theorem Move.filings_of {m : Move} (hf : m.Files P) (hd : m.concernsDocuments = true) (s : State) :
    Filings P s (m.apply s) := by
  cases m with
  | didOpen item => exact filings_didOpen item hf s
  | openFile path contents => exact filings_openFile path contents hf s
  | didChange uri text edits => exact filings_didChange uri text edits hf s
  | didClose uri => exact filings_didClose uri hf s
  | completeShutdown outcome => exact filings_completeShutdown outcome hf s
  | _ => cases hd

theorem Move.files_anything (m : Move) : m.Files fun _ => True := by
  cases m with
  | didOpen _ | openFile _ _ | didChange _ _ _ | didClose _ => exact fun _ => trivial
  | _ => trivial

theorem Move.filings {m : Move} (hd : m.concernsDocuments = true) (s : State) :
    Filings (fun _ => True) s (m.apply s) := m.filings_of m.files_anything hd s

theorem Heeds.move_of {m : Move} (ho : m.Owns P) (hm : m.Sends P) {s : State} (hs : Heeds P s) :
    Heeds P (m.apply s) := by
  by_cases hd : m.concernsDocuments = true
  · refine (Move.filings hd s).keeps (fun s t h hs => ?_) hs
    cases h with
    | send frame s _ => exact hs.of_eq (State.send_hub frame s) (by rw [State.send_engine])
    | note n s => exact hs
    | session c s => exact hs
    | shutDown s => exact hs
  · exact hs.shifts (m.shifts_of ho (by simpa using hd) hm hs)

theorem Heeds.move (own : Own P) {m : Move} (hm : m.Sends P) {s : State} (hs : Heeds P s) :
    Heeds P (m.apply s) := hs.move_of (own.owns m) hm

theorem heeds_new (layer : Layer) (options : Options) (timeout : Nat) :
    Heeds P (State.new layer options timeout) := by
  have hbare : Heeds P (State.bare options timeout) := ⟨nofun, nofun⟩
  have hengine : Heeds P (State.bare options timeout).attachEngine :=
    ⟨slot_subscribe_sends hbare.1 trivial, hbare.2⟩
  cases layer with
  | transport => exact hbare
  | engine => exact hengine
  | session => exact ⟨hengine.1, slot_subscribe_sends hengine.2 trivial⟩

theorem step_grows {s t : State} (h : Step P s t) : Grows (fun e => e.isOfConnection = false) s t := by
  refine h.minor.journal.mono fun e he => ?_
  cases e <;> first | rfl | cases he

private theorem filing_grows {s t : State} (h : Filing P s t) :
    Grows (fun e => e.isOfConnection = false) s t := by
  cases h with
  | send frame s _ => exact step_grows (.send (P := fun _ => True) frame s trivial)
  | note n s => exact grows_record (by rfl) s
  | session c s => exact .of_eq rfl
  | shutDown s => exact grows_record (by rfl) s

theorem shifts_grow {s t : State} (h : Shifts P E s t) :
    Grows (fun e => e.isOfConnection = true → E e) s t := by
  refine h.keeps (Q := Grows (fun e => e.isOfConnection = true → E e) s) (fun _ _ h hs => ?_)
    (fun _ _ h hs => hs.trans (h.journal.mono fun _ he _ => he)) (.refl s)
  refine hs.trans ((step_grows h).mono fun e he hc => ?_)
  rw [he] at hc
  cases hc

/-- A move tells of connections only what it may. -/
theorem Move.grows (m : Move) (s : State) :
    Grows (fun e => e.isOfConnection = true → Reports m e) s (m.apply s) := by
  by_cases hd : m.concernsDocuments = true
  · refine (m.filings hd s).keeps (Q := Grows _ s) (fun _ _ h hs => hs.trans ?_) (.refl s)
    refine (filing_grows h).mono fun e he hc => ?_
    rw [he] at hc
    cases hc
  · exact shifts_grow (m.shifts own_anything (by simpa using hd) m.sends_anything (heeds_anything s))

theorem State.after_grows (s : State) (moves : List Move) :
    Grows (fun _ => True) s (s.after moves) :=
  State.after_keeps (Q := Grows (fun _ => True) s)
    (fun m t h => h.trans ((m.grows t).mono fun _ _ => trivial)) (.refl s) moves

end LanguageClient.Client
