import LanguageClient.Proofs.Frame
import Mathlib.Logic.Relation
/-!
What the handlers of an event can bring about. However many of them run and however deep they are
nested, all that happens is a sequence of a few reactions; what each reaction keeps is kept by every
event, every inbound frame and every closing of a connection.
-/
namespace LanguageClient.Client
open Relation Transport Rpc Json

mutual

/-- Every frame that the action sends, now or in a handler it registers, has the property. -/
def Action.Sends (P : String → Prop) : Action → Prop
  | .send frame => P frame
  | .notify method params => P (Notification.new method (encodeParams params)).wire
  | .subscribe _ _ _ actions => Action.AllSend P actions
  | .fail | .unsubscribe _ | .disconnect | .cancel _ | .abort _ => True

def Action.AllSend (P : String → Prop) : List Action → Prop
  | [] => True
  | a :: actions => a.Sends P ∧ Action.AllSend P actions

end

def Handler.Sends (P : String → Prop) : Handler → Prop
  | .user u => Action.AllSend P u.actions
  | .engine | .abortPending | .forwardLog | .diagnostics _ => True

/-- Entries that tell of a handler or of a record in the log, and of nothing else. -/
def Entry.isRemark : Entry → Bool
  | .heard .. | .notified .. | .diagnosed .. | .sent _ | .announced _ | .aborted _ | .note _ => true
  | _ => false

namespace State

/-- The connection goes at the user's wish, and nobody has heard of it yet. -/
def hangUp (s : State) : State :=
  if s.transport.state == .disconnected then s.record .hungUp
  else (s.record .hungUp).takeDown.record (.emitted s.transport.generation (.closed .byClient))

theorem hangUp_of_down {s : State} (h : s.transport.state = .disconnected) :
    s.hangUp = s.record .hungUp := by
  rw [hangUp, h]
  rfl

theorem hangUp_of_up {s : State} (h : s.transport.state ≠ .disconnected) :
    s.hangUp =
      (s.record .hungUp).takeDown.record (.emitted s.transport.generation (.closed .byClient)) := by
  rw [hangUp, if_neg (by simpa using h)]

theorem shut_of_current {s : State} {g : Nat} (hg : s.transport.generation = g)
    (h : s.transport.state ≠ .disconnected) (reason : CloseReason) :
    s.shut (some g) reason = emitWith id g (.closed reason) s.takeDown := by
  rw [shut, if_neg (by simpa [hg] using h), hg]

theorem shut_of_stale {s : State} {g : Nat}
    (h : s.transport.generation ≠ g ∨ s.transport.state = .disconnected) (reason : CloseReason) :
    s.shut (some g) reason = s := by
  rw [shut, if_pos]
  rcases h with h | h
  · simp [Ne.symm h]
  · simp [h]

theorem disconnect_of_down {s : State} (h : s.transport.state = .disconnected) :
    s.disconnect = s.record .hungUp := by
  rw [disconnect, shut, if_pos (by simp [record, h])]

theorem disconnect_of_up {s : State} (h : s.transport.state ≠ .disconnected) :
    s.disconnect =
      emitWith id s.transport.generation (.closed .byClient) (s.record .hungUp).takeDown := by
  rw [disconnect, shut, if_neg (by simpa [record] using h)]
  rfl

end State

/-- One thing that a handler does. The frames that handlers send are limited to those with a
property. -/
inductive React (P : String → Prop) : State → State → Prop where
  | remark (e : Entry) (s : State) (h : e.isRemark = true) : React P s (s.record e)
  | listen (topic : Topic) (handler : Handler) (name : String) (s : State) (h : handler.Sends P) :
    React P s (s.listen topic handler name)
  | unlisten (name : String) (s : State) : React P s (s.unlisten name).2
  | send (frame : String) (s : State) (h : P frame) : React P s (s.send frame).2
  | cancelToken (token : String) (s : State) : React P s (s.cancelToken token)
  | abortPending (reason : String) (s : State) : React P s (s.abortPending reason).2
  | hangUp (s : State) : React P s s.hangUp

def response? (v : Value) : Option Response :=
  match Message.ofValue v with
  | .ok (.response r) => some r
  | _ => none

/-- The responses in a frame, in wire order; elements that are no messages do not stand in the way. -/
def responses (frame : String) : List Response :=
  match Payload.parse frame with
  | .error _ => []
  | .ok payload => payload.values.filterMap response?

/-- What handlers do, and the responses that the engine finds in a frame. -/
inductive Hear (P : String → Prop) (R : Response → Prop) : State → State → Prop where
  | react {s t : State} (h : React P s t) : Hear P R s t
  | resolve (r : Response) (s : State) (h : R r) : Hear P R s (s.resolve r)

abbrev Reacts (P : String → Prop) : State → State → Prop := ReflTransGen (React P)

abbrev Hears (P : String → Prop) (R : Response → Prop) : State → State → Prop :=
  ReflTransGen (Hear P R)

theorem Reacts.hears {P : String → Prop} {R : Response → Prop} {s t : State} (h : Reacts P s t) :
    Hears P R s t := ReflTransGen.mono (fun _ _ => Hear.react) _ _ h

theorem Reacts.keeps {P : String → Prop} {Q : State → Prop}
    (hQ : ∀ s t, React P s t → Q s → Q t) {s t : State} (h : Reacts P s t) (hs : Q s) : Q t := by
  induction h with
  | refl => exact hs
  | tail _ h ih => exact hQ _ _ h ih

theorem Hears.keeps {P : String → Prop} {R : Response → Prop} {Q : State → Prop}
    (hQ : ∀ s t, Hear P R s t → Q s → Q t) {s t : State} (h : Hears P R s t) (hs : Q s) : Q t := by
  induction h with
  | refl => exact hs
  | tail _ h ih => exact hQ _ _ h ih

theorem Hears.mono {P : String → Prop} {R R' : Response → Prop} (hR : ∀ r, R r → R' r)
    {s t : State} (h : Hears P R s t) : Hears P R' s t := by
  refine ReflTransGen.mono (fun s t (h : Hear P R s t) => ?_) _ _ h
  cases h with
  | react h => exact .react h
  | resolve r s hr => exact .resolve r s (hR r hr)

/-- Every handler that is registered sends only frames with the property. -/
def Heeds (P : String → Prop) (s : State) : Prop :=
  (∀ kind, ∀ h ∈ s.transport.hub.slot kind, h.2.Sends P) ∧
    ∀ method, ∀ h ∈ s.engine.topics.slot method, h.2.Sends P

variable {P : String → Prop} {R : Response → Prop}

theorem Heeds.of_eq {s t : State} (h : Heeds P s) (hub : t.transport.hub = s.transport.hub)
    (topics : t.engine.topics = s.engine.topics) : Heeds P t :=
  ⟨by rw [hub]; exact h.1, by rw [topics]; exact h.2⟩

theorem slot_subscribe_sends {κ : Type} [DecidableEq κ] {r : Registry κ Handler} {key : κ}
    {handler : Handler} (hr : ∀ k, ∀ h ∈ r.slot k, h.2.Sends P) (hh : handler.Sends P) :
    ∀ k, ∀ h ∈ (r.subscribe key handler).2.slot k, h.2.Sends P := by
  intro k h hm
  rw [Registry.slot_subscribe] at hm
  split at hm
  · rcases List.mem_append.mp hm with hm | hm
    · exact hr key h hm
    · rw [List.mem_singleton] at hm
      rw [hm]
      exact hh
  · exact hr k h hm

private theorem slot_unsubscribe_sends {κ : Type} [DecidableEq κ] {r : Registry κ Handler}
    {reg : Registration κ} (hr : ∀ k, ∀ h ∈ r.slot k, h.2.Sends P) :
    ∀ k, ∀ h ∈ (r.unsubscribe reg).slot k, h.2.Sends P := by
  intro k h hm
  rw [Registry.slot_unsubscribe] at hm
  split at hm
  · exact hr k h (List.mem_filter.mp hm).1
  · exact hr k h hm

theorem Heeds.listen {s : State} (hs : Heeds P s) {handler : Handler} (h : handler.Sends P)
    (topic : Topic) (name : String) : Heeds P (s.listen topic handler name) := by
  cases topic with
  | event kind => exact ⟨slot_subscribe_sends hs.1 h, hs.2⟩
  | method method => exact ⟨hs.1, slot_subscribe_sends hs.2 h⟩

theorem Heeds.unlisten {s : State} (hs : Heeds P s) (name : String) :
    Heeds P (s.unlisten name).2 := by
  rw [State.unlisten]
  split
  · exact hs
  · simp only
    split
    · exact ⟨slot_unsubscribe_sends hs.1, hs.2⟩
    · exact ⟨hs.1, slot_unsubscribe_sends hs.2⟩

theorem Heeds.unhook {s : State} (hs : Heeds P s) (reg : Registration EventKind) :
    Heeds P (s.modifyTransport fun t => { t with hub := t.hub.unsubscribe reg }) :=
  ⟨slot_unsubscribe_sends hs.1, hs.2⟩

private theorem Heeds.settle {s : State} (hs : Heeds P s) (id : Int)
    (f : Pending → Outcome Value) : Heeds P (s.settle id f) := by
  obtain ⟨_, _, _, _, _, h⟩ := State.settle_eq id f s
  rw [h]
  exact hs

private theorem Heeds.hangUp {s : State} (hs : Heeds P s) : Heeds P s.hangUp := by
  rw [State.hangUp]
  split
  · exact hs
  · obtain ⟨_, _, h⟩ := State.takeDown_eq (s.record .hungUp)
    rw [h]
    exact hs

theorem Heeds.react {s t : State} (h : React P s t) (hs : Heeds P s) : Heeds P t := by
  cases h with
  | remark e s _ => exact hs
  | listen topic handler name s h => exact hs.listen h topic name
  | unlisten name s => exact hs.unlisten name
  | send frame s _ => exact hs.of_eq (State.send_hub frame s) (by rw [State.send_engine])
  | cancelToken token s =>
    obtain ⟨_, _, h⟩ := State.cancelToken_eq token s
    rw [h]
    exact hs
  | abortPending reason s =>
    exact State.abortPending_keeps (Q := Heeds P) hs fun id _ h => h.settle id _
  | hangUp s => exact hs.hangUp

theorem Heeds.hear {s t : State} (h : Hear P R s t) (hs : Heeds P s) : Heeds P t := by
  cases h with
  | react h => exact hs.react h
  | resolve r s _ =>
    unfold State.resolve
    simp only
    split
    · exact Heeds.settle (s := s.record (.answered r)) hs _ _
    · exact hs

private theorem foldl_reacts {f : State → Handler → State}
    (hf : ∀ s h, Heeds P s → h.Sends P → Reacts P s (f s h)) {handlers : List Handler} {s : State}
    (hs : Heeds P s) (hh : ∀ h ∈ handlers, h.Sends P) : Reacts P s (handlers.foldl f s) := by
  induction handlers generalizing s with
  | nil => exact .refl
  | cons h handlers ih =>
    have h1 := hf s h hs (hh h List.mem_cons_self)
    have h2 := h1.keeps (fun _ _ h => Heeds.react h) hs
    exact h1.trans (ih h2 fun k hm => hh k (List.mem_cons_of_mem h hm))

private theorem foldl_hears {α : Type} {M : α → Prop} {f : State → α → State}
    (hf : ∀ s a, Heeds P s → M a → Hears P R s (f s a)) {items : List α} {s : State}
    (hs : Heeds P s) (hm : ∀ a ∈ items, M a) : Hears P R s (items.foldl f s) := by
  induction items generalizing s with
  | nil => exact .refl
  | cons a items ih =>
    have h1 := hf s a hs (hm a List.mem_cons_self)
    have h2 := h1.keeps (fun _ _ h => Heeds.hear h) hs
    exact h1.trans (ih h2 fun b hb => hm b (List.mem_cons_of_mem a hb))

/-- The way in which a handler may close the connection. -/
def Closes (P : String → Prop) (close : State → State) : Prop :=
  ∀ s, Heeds P s → Reacts P s (close s)

theorem closes_id : Closes P id := fun _ _ => .refl

variable {close : State → State}

theorem act_reacts (hc : Closes P close) {a : Action} (ha : a.Sends P) {s : State}
    (hs : Heeds P s) : Reacts P s (State.act close a s) := by
  cases a with
  | fail => exact .refl
  | unsubscribe name => exact .single (.unlisten name s)
  | subscribe topic raw name actions => exact .single (.listen topic _ name s ha)
  | send frame => exact .tail (.single (.send frame s ha)) (.remark _ _ rfl)
  | disconnect => exact hc s hs
  | notify method params => exact .tail (.single (.send _ s ha)) (.remark _ _ rfl)
  | cancel token => exact .single (.cancelToken token s)
  | abort reason => exact .tail (.single (.abortPending reason s)) (.remark _ _ rfl)

theorem perform_reacts (hc : Closes P close) {actions : List Action}
    (ha : Action.AllSend P actions) {s : State} (hs : Heeds P s) :
    Reacts P s (State.perform close actions s) := by
  induction actions generalizing s with
  | nil => exact .refl
  | cons a actions ih =>
    have h1 := act_reacts hc ha.1 hs
    have h2 := h1.trans (ih ha.2 (h1.keeps (fun _ _ h => Heeds.react h) hs))
    cases a with
    | fail => exact .single (.remark _ s rfl)
    | _ => exact h2

theorem hearNotification_reacts (hc : Closes P close) (method : String) (params : Value)
    {h : Handler} (hh : h.Sends P) {s : State} (hs : Heeds P s) :
    Reacts P s (State.hearNotification close method params h s) := by
  cases h with
  | engine => exact .refl
  | abortPending => exact .refl
  | forwardLog =>
    simp only [State.hearNotification, State.forward]
    split
    · exact .single (.remark _ s rfl)
    · exact .refl
  | diagnostics name =>
    simp only [State.hearNotification]
    split
    · exact .single (.remark _ s rfl)
    · exact .single (.remark _ s rfl)
  | user u =>
    exact (ReflTransGen.single (.remark _ s rfl)).trans
      (perform_reacts hc hh (hs.react (.remark (.notified u.name method params) s rfl)))

theorem deliver_reacts (hc : Closes P close) (method : String) (params : Value) {s : State}
    (hs : Heeds P s) : Reacts P s (State.deliver close method params s) := by
  refine foldl_reacts (fun s h hs hh => hearNotification_reacts hc method params hh hs) hs ?_
  intro h hm
  obtain ⟨e, he, rfl⟩ := List.mem_map.mp hm
  exact hs.2 method e he

theorem handleMessage_hears (hc : Closes P close) {v : Value} (hv : ∀ r ∈ response? v, R r)
    {s : State} (hs : Heeds P s) : Hears P R s (State.handleMessage close v s) := by
  rw [State.handleMessage]
  split
  · rename_i r h
    exact .single (.resolve r s (hv r (by rw [response?, h]; rfl)))
  · exact (deliver_reacts hc _ _ hs).hears
  · exact .refl
  · exact .single (.react (.remark _ s rfl))

theorem handleFrame_hears (hc : Closes P close) (frame : String) {s : State} (hs : Heeds P s) :
    Hears P (· ∈ responses frame) s (State.handleFrame close frame s) := by
  rw [State.handleFrame, responses]
  cases Payload.parse frame with
  | error e => exact .single (.react (.remark _ s rfl))
  | ok payload =>
    refine foldl_hears (fun s v hs hv => handleMessage_hears hc (fun r hr => ?_) hs) hs
      fun v (hv : v ∈ payload.values) => hv
    exact List.mem_filterMap.mpr ⟨v, hv, hr⟩

/-- The responses that an event brings. -/
def Brings (event : Transport.Event) (r : Response) : Prop :=
  ∃ frame, event = .message frame ∧ r ∈ responses frame

theorem hearEvent_reacts (hc : Closes P close) {event : Transport.Event}
    (he : event.kind ≠ .message) {h : Handler} (hh : h.Sends P) {s : State} (hs : Heeds P s) :
    Reacts P s (State.hearEvent close event h s) := by
  cases h with
  | engine => cases event <;> first | exact .refl | exact absurd rfl he
  | abortPending =>
    cases event <;> first | exact .refl | exact .single (.abortPending _ s)
  | forwardLog => exact .refl
  | diagnostics name => exact .refl
  | user u =>
    exact (ReflTransGen.single (.remark _ s rfl)).trans
      (perform_reacts hc hh (hs.react (.remark (.heard u.name u.raw event) s rfl)))

theorem hearEvent_hears (hc : Closes P close) (event : Transport.Event) {h : Handler}
    (hh : h.Sends P) {s : State} (hs : Heeds P s) :
    Hears P (Brings event) s (State.hearEvent close event h s) := by
  by_cases he : event.kind = .message
  · cases event with
    | message frame =>
      cases h with
      | engine => exact (handleFrame_hears hc frame hs).mono fun r hr => ⟨frame, rfl, hr⟩
      | abortPending => exact .refl
      | forwardLog => exact .refl
      | diagnostics name => exact .refl
      | user u =>
        exact Reacts.hears ((ReflTransGen.single (.remark _ s rfl)).trans
          (perform_reacts hc hh (hs.react (.remark (.heard u.name u.raw _) s rfl))))
    | opened => cases he
    | closed reason => cases he
    | failed text => cases he
  · exact (hearEvent_reacts hc he hh hs).hears

theorem emitWith_reacts (hc : Closes P close) (g : Nat) {event : Transport.Event}
    (he : event.kind ≠ .message) {s : State} (hs : Heeds P s) :
    Reacts P (s.record (.emitted g event)) (State.emitWith close g event s) := by
  refine foldl_reacts (fun s h hs hh => hearEvent_reacts hc he hh hs) hs ?_
  intro h hm
  obtain ⟨e, he, rfl⟩ := List.mem_map.mp hm
  exact hs.1 event.kind e he

theorem closes_disconnect : Closes P State.disconnect := by
  intro s hs
  refine .head (.hangUp s) ?_
  have h1 := hs.hangUp
  by_cases h : s.transport.state = .disconnected
  · rw [State.hangUp_of_down h, State.disconnect_of_down h]
  · rw [State.hangUp_of_up h] at h1 ⊢
    rw [State.disconnect_of_up h]
    have he : (Transport.Event.closed .byClient).kind ≠ .message := by decide
    exact emitWith_reacts closes_id _ he h1

theorem emitWith_hears (hc : Closes P close) (g : Nat) (event : Transport.Event) {s : State}
    (hs : Heeds P s) :
    Hears P (Brings event) (s.record (.emitted g event)) (State.emitWith close g event s) := by
  have hh : ∀ h ∈ s.transport.hub.snapshot event.kind, h.Sends P := by
    intro h hm
    obtain ⟨e, he, rfl⟩ := List.mem_map.mp hm
    exact hs.1 event.kind e he
  exact foldl_hears (fun s h hs hh => hearEvent_hears hc event hh hs) hs hh

mutual

private theorem Action.sends_anything (a : Action) : a.Sends (fun _ => True) := by
  cases a with
  | subscribe topic raw name actions => exact Action.allSend_anything actions
  | _ => trivial

private theorem Action.allSend_anything (actions : List Action) :
    Action.AllSend (fun _ => True) actions := by
  cases actions with
  | nil => trivial
  | cons a actions => exact ⟨a.sends_anything, Action.allSend_anything actions⟩

end

theorem Handler.sends_anything (h : Handler) : h.Sends (fun _ => True) := by
  cases h with
  | user u => exact Action.allSend_anything u.actions
  | _ => trivial

theorem heeds_anything (s : State) : Heeds (fun _ => True) s :=
  ⟨fun _ h _ => h.2.sends_anything, fun _ h _ => h.2.sends_anything⟩

end LanguageClient.Client
