import LanguageClient.Proofs.WireDiscipline
/-!
What an inbound frame can do. The engine itself writes nothing and takes no id for it; a response that
names a pending request settles that request, and nothing else in a frame settles anything. All the
rest is the doing of handlers of the user's, and without such there is no rest.
-/
namespace LanguageClient.Client
open Relation Transport Rpc Json Session

/-- The elements of a frame, in wire order; a text that is not JSON has none. -/
def elements (frame : String) : List Value :=
  match Payload.parse frame with
  | .error _ => []
  | .ok payload => payload.values

theorem responses_eq (frame : String) : responses frame = (elements frame).filterMap response? := by
  rw [responses, elements]
  cases Payload.parse frame <;> rfl

/-- Some element of the frame is a response with the number as its id. -/
def Names (frame : String) (id : Int) : Prop := ∃ r ∈ responses frame, r.id = some (.number id)

theorem handleFrame_elements {frame : String} (h : elements frame ≠ []) (close : State → State)
    (s : State) : s.handleFrame close frame =
      (elements frame).foldl (fun s v => State.handleMessage close v s) s := by
  rw [State.handleFrame]
  rw [elements] at h ⊢
  cases hp : Payload.parse frame with
  | error e =>
    rw [hp] at h
    exact absurd rfl h
  | ok payload => rfl

/-- The client after some frames, handled one after the other. -/
def State.handleFrames (frames : List String) (s : State) : State :=
  frames.foldl (fun s frame => s.handleFrame State.disconnect frame) s

/-- On the way from one state to another everything pending has been given up, and nothing is pending
any more. -/
structure GivesUp (s t : State) : Prop where
  told : ∃ more reason, t.journal = s.journal ++ more ∧ .gaveUp reason ∈ more
  empty : ∀ id, t.engine.pending.get? id = none

/-- What handling responses with a property does with requests, unless a handler gives them up. -/
structure Handles (R : Response → Prop) (s t : State) : Prop where
  journal : Grows (fun _ => True) s t
  nextId : t.engine.nextId = s.engine.nextId
  absent : ∀ id, s.engine.pending.get? id = none → t.engine.pending.get? id = none
  kept : (∀ id, (∀ r, R r → r.id ≠ some (.number id)) → account id t = account id s) ∨ GivesUp s t

variable {P : String → Prop} {R : Response → Prop} {s t u : State}

theorem GivesUp.before (h : Grows (fun _ => True) s t) (k : GivesUp t u) : GivesUp s u := by
  obtain ⟨more, hj, _⟩ := h
  obtain ⟨further, reason, kj, hmem⟩ := k.told
  refine ⟨⟨more ++ further, reason, ?_, List.mem_append_right more hmem⟩, k.empty⟩
  rw [kj, hj, List.append_assoc]

theorem GivesUp.after (h : GivesUp s t) (k : Handles R t u) : GivesUp s u := by
  obtain ⟨more, reason, hj, hmem⟩ := h.told
  obtain ⟨further, kj, _⟩ := k.journal
  refine ⟨⟨more ++ further, reason, ?_, List.mem_append_left further hmem⟩,
    fun id => k.absent id (h.empty id)⟩
  rw [kj, hj, List.append_assoc]

theorem Handles.refl (s : State) : Handles R s s := ⟨.refl s, rfl, fun _ h => h, .inl fun _ _ => rfl⟩

theorem Handles.trans (h : Handles R s t) (k : Handles R t u) : Handles R s u := by
  refine ⟨h.journal.trans k.journal, k.nextId.trans h.nextId,
    fun id hid => k.absent id (h.absent id hid), ?_⟩
  obtain hk | hg := h.kept
  · obtain kk | kg := k.kept
    · exact .inl fun id hr => (kk id hr).trans (hk id hr)
    · exact .inr (kg.before h.journal)
  · exact .inr (hg.after k)

theorem handles_still (h : Still s t) : Handles R s t where
  journal := h.journal.mono fun _ _ => trivial
  nextId := h.nextId
  absent id hid := by rw [h.pending]; exact hid
  kept := .inl fun id _ => h.same.accounts id

private theorem settles_pending_none {id : Int} {ids : List Int} (f : Pending → Outcome Value)
    (h : s.engine.pending.get? id = none ∨ id ∈ ids) :
    (ids.foldl (fun s id => s.settle id f) s).engine.pending.get? id = none := by
  induction ids generalizing s with
  | nil => exact h.resolve_right List.not_mem_nil
  | cons n ids ih =>
    obtain h | h := h
    · exact ih (.inl (settle_pending_none (.inl h)))
    · rcases List.mem_cons.mp h with rfl | h
      · exact ih (.inl (settle_pending_none (.inr rfl)))
      · exact ih (.inr h)

theorem handles_abort (reason : String) (s : State) : Handles R s (s.abortPending reason).2 := by
  obtain ⟨more, hj⟩ := Leads.of_grows (adds_abort (C := fun _ => False) reason s)
  have hempty (id : Int) : (s.abortPending reason).2.engine.pending.get? id = none := by
    refine settles_pending_none (s := s.record (.gaveUp reason)) _ ?_
    exact (Keyed.get?_none_or_mem_keys _ id).imp_right List.mem_mergeSort.mpr
  have hnext : (s.abortPending reason).2.engine.nextId = s.engine.nextId :=
    State.abortPending_keeps (Q := fun t => t.engine.nextId = s.engine.nextId) rfl fun n t h =>
      (nextId_settle n t _).trans h
  exact ⟨⟨_, hj, fun _ _ => trivial⟩, hnext, fun id _ => hempty id,
    .inr ⟨⟨_, reason, hj, List.mem_cons_self⟩, hempty⟩⟩

theorem resolve_number {r : Response} {id : Int} (h : r.id = some (.number id)) (s : State) :
    s.resolve r = (s.record (.answered r)).settle id fun _ => r.outcome := by
  rw [State.resolve]
  simp only [h]

theorem resolve_pending_none {r : Response} {id : Int} (h : r.id = some (.number id)) (s : State) :
    (s.resolve r).engine.pending.get? id = none := by
  rw [resolve_number h]
  exact settle_pending_none (.inr rfl)

/-- The account of a request that a response has named: if it was pending, it has been given the
response's outcome. -/
def Account.answered (id : Int) (r : Response) (a : Account) : Account :=
  match a.pending with
  | none => { a with standing := a.standing.after id (.answered r) }
  | some entry =>
    { a with
      standing := a.standing.after id (.answered r)
      settled := a.settled ++ [r.outcome]
      pending := none
      watchdog := if entry.guarded then none else a.watchdog
      outcome := some r.outcome }

theorem Account.answered_of_absent {a : Account} (h : a.pending = none) (id : Int) (r : Response) :
    a.answered id r = { a with standing := a.standing.after id (.answered r) } := by
  unfold answered
  split
  · rfl
  · rename_i heq
    cases h.symm.trans heq

theorem Account.answered_of_pending {a : Account} {entry : Pending} (h : a.pending = some entry)
    (id : Int) (r : Response) : a.answered id r =
      { a with
        standing := a.standing.after id (.answered r)
        settled := a.settled ++ [r.outcome]
        pending := none
        watchdog := if entry.guarded then none else a.watchdog
        outcome := some r.outcome } := by
  unfold answered
  split
  · rename_i heq
    cases h.symm.trans heq
  · rename_i heq
    obtain rfl := Option.some.inj (h.symm.trans heq)
    rfl

theorem account_resolve {r : Response} {id : Int} (h : r.id = some (.number id)) (s : State) :
    account id (s.resolve r) = (account id s).answered id r := by
  have hheed := account_heed (n := id) (e := .answered r) rfl rfl s
  rw [resolve_number h]
  cases hp : s.engine.pending.get? id with
  | none =>
    rw [State.settle_absent (s := s.record (.answered r)) hp, Account.answered_of_absent hp]
    exact hheed
  | some entry =>
    rw [account_settle_self (s := s.record (.answered r)) hp, Account.answered_of_pending hp, hheed]

theorem resolve_other {r : Response} {id : Int} (h : r.id ≠ some (.number id)) (s : State) :
    account id (s.resolve r) = account id s := by
  have hsilent : (Entry.answered r).Silent id := silent_of_ruling rfl rfl fun _ => if_neg h
  unfold State.resolve
  simp only
  split
  · rename_i n hn
    have hne : n ≠ id := by
      rintro rfl
      exact h hn
    exact (account_settle_other hne _ _).trans (account_record hsilent s)
  · exact account_record hsilent s

theorem handles_resolve {r : Response} (hr : R r) (s : State) : Handles R s (s.resolve r) where
  journal := ((grows_record (e := .answered r) trivial s).trans
    ((adds_resolve (C := fun _ => True) r s).mono fun _ _ => trivial))
  nextId := by
    unfold State.resolve
    simp only
    split
    · exact nextId_settle _ (s.record (.answered r)) _
    · rfl
  absent id hid := by
    by_cases h : r.id = some (.number id)
    · exact resolve_pending_none h s
    · exact (congrArg Account.pending (resolve_other h s)).trans hid
  kept := .inl fun id h => resolve_other (h r hr) s

theorem handles_hears (h : Hears P R s t) : Handles R s t := by
  refine h.keeps (fun u v h hs => hs.trans ?_) (.refl s)
  cases h with
  | resolve r u hr => exact handles_resolve hr u
  | react h =>
    obtain h | ⟨reason, rfl⟩ := react_cases h
    · exact handles_still h
    · exact handles_abort reason u

theorem handles_handleMessage {v : Value} (hv : ∀ r ∈ response? v, R r) (s : State) :
    Handles R s (State.handleMessage State.disconnect v s) :=
  handles_hears (handleMessage_hears (P := fun _ => True) closes_disconnect hv (heeds_anything s))

theorem handles_handleMessages {vs : List Value} (h : ∀ r ∈ vs.filterMap response?, R r)
    (s : State) :
    Handles R s (vs.foldl (fun s v => State.handleMessage State.disconnect v s) s) := by
  induction vs generalizing s with
  | nil => exact .refl s
  | cons v vs ih =>
    have hv : ∀ r ∈ response? v, R r := fun r hr =>
      h r (List.mem_filterMap.mpr ⟨v, List.mem_cons_self, hr⟩)
    have hvs : ∀ r ∈ vs.filterMap response?, R r := fun r hr => by
      obtain ⟨w, hw, hwr⟩ := List.mem_filterMap.mp hr
      exact h r (List.mem_filterMap.mpr ⟨w, List.mem_cons_of_mem v hw, hwr⟩)
    exact (handles_handleMessage hv s).trans (ih hvs _)

theorem handleMessage_response {v : Value} {r : Response} (h : response? v = some r)
    (close : State → State) (s : State) : State.handleMessage close v s = s.resolve r := by
  rw [response?] at h
  rw [State.handleMessage]
  split at h
  · rename_i m hm
    rw [hm]
    exact congrArg s.resolve (Option.some.inj h)
  · cases h

/-- Wherever in a batch a response stands, the request that it names is not pending afterwards. -/
theorem handleMessages_named {vs : List Value} {r : Response} {id : Int}
    (hr : r ∈ vs.filterMap response?) (h : r.id = some (.number id)) (s : State) :
    (vs.foldl (fun s v => State.handleMessage State.disconnect v s) s).engine.pending.get? id =
      none := by
  induction vs generalizing s with
  | nil => cases hr
  | cons v vs ih =>
    obtain ⟨w, hw, hwr⟩ := List.mem_filterMap.mp hr
    rcases List.mem_cons.mp hw with rfl | hw
    · have hv : Message.ofValue w = .ok (.response r) := by
        rw [response?] at hwr
        split at hwr
        · rename_i hm
          rw [hm, Option.some.inj hwr]
        · cases hwr
      have hnone : (State.handleMessage State.disconnect w s).engine.pending.get? id = none := by
        rw [State.handleMessage, hv]
        exact resolve_pending_none h s
      have hvs : Handles (fun _ => True) (State.handleMessage State.disconnect w s)
          (vs.foldl (fun s v => State.handleMessage State.disconnect v s)
            (State.handleMessage State.disconnect w s)) :=
        handles_handleMessages (fun _ _ => trivial) _
      exact hvs.absent id hnone
    · exact ih (List.mem_filterMap.mpr ⟨w, hw, hwr⟩) _

/-- What settles nothing: an element that is no message, a request of the server's, and a response
that names no pending request, be its id a text, null, or a number that is not pending. -/
def Unsettling (v : Value) (s : State) : Prop :=
  match Message.ofValue v with
  | .error _ | .ok (.request _) => True
  | .ok (.response r) => ∀ n, r.id = some (.number n) → s.engine.pending.get? n = none
  | .ok (.notification _) => False

/-- The handling of such an element is told, and makes no other difference. -/
theorem handleMessage_unsettling {v : Value} (h : Unsettling v s) (close : State → State) :
    ∃ seen, State.handleMessage close v s = { s with journal := s.journal ++ seen } ∧
      ∀ e ∈ seen, e = .note ⟨.warn, "dropping malformed message"⟩ ∨ ∃ r, e = .answered r := by
  rw [State.handleMessage]
  rw [Unsettling] at h
  cases hv : Message.ofValue v with
  | error e => exact ⟨[_], rfl, List.forall_mem_singleton.mpr (.inl rfl)⟩
  | ok m =>
    rw [hv] at h
    cases m with
    | request r => exact ⟨[], by rw [List.append_nil], List.forall_mem_nil _⟩
    | notification n => exact h.elim
    | response r =>
      refine ⟨[.answered r], ?_, List.forall_mem_singleton.mpr (.inr ⟨r, rfl⟩)⟩
      simp only [State.resolve]
      split
      · rename_i n hn
        exact State.settle_absent (s := s.record (.answered r)) (h n hn) _
      · rfl

/-- A handler of the user's that does nothing, or fails. -/
def Handler.Listens : Handler → Prop
  | .user u => ∀ a ∈ u.actions, a = .fail
  | .engine | .abortPending | .forwardLog | .diagnostics _ => True

/-- Nobody who hears of notifications does anything. -/
def Listening (s : State) : Prop := ∀ method, ∀ h ∈ s.engine.topics.slot method, h.2.Listens

/-- That a handler of the user's has been given a notification. -/
structure Notice where
  name : String
  method : String
  params : Value

def notices (journal : List Entry) : List Notice :=
  journal.filterMap fun e =>
    match e with
    | .notified name method params => some ⟨name, method, params⟩
    | _ => none

def Handler.notice? (method : String) (params : Value) : Handler → Option Notice
  | .user u => some ⟨u.name, method, params⟩
  | .engine | .abortPending | .forwardLog | .diagnostics _ => none

/-- The handlers that an element is for, in the order of their registration. -/
def announcements (topics : Registry String Handler) (v : Value) : List Notice :=
  match Message.ofValue v with
  | .ok (.notification n) =>
    (topics.snapshot n.method).filterMap (Handler.notice? n.method (n.params.getD .null))
  | _ => []

/-- Entries that handling a frame may make when nobody who hears of it does anything. -/
def Entry.isOfFrame : Entry → Bool
  | .answered _ | .settled .. | .notified .. | .diagnosed .. | .note _ => true
  | _ => false

/-- Notices have been given, and otherwise only requests are concerned. -/
structure Heard (given : List Notice) (s t : State) : Prop where
  rest : ∃ pending watchdogs outcomes ready journal, t =
    { s with engine := { s.engine with pending, watchdogs, outcomes }, ready, journal }
  journal : Grows (·.isOfFrame = true) s t
  notices : notices t.journal = notices s.journal ++ given

theorem Heard.refl (s : State) : Heard [] s s :=
  ⟨⟨_, _, _, _, _, rfl⟩, .refl s, (List.append_nil _).symm⟩

theorem Heard.trans {given more : List Notice} (h : Heard given s t) (k : Heard more t u) :
    Heard (given ++ more) s u := by
  refine ⟨?_, h.journal.trans k.journal, by rw [k.notices, h.notices, List.append_assoc]⟩
  obtain ⟨_, _, _, _, _, ht⟩ := h.rest
  obtain ⟨_, _, _, _, _, hu⟩ := k.rest
  rw [ht] at hu
  exact ⟨_, _, _, _, _, hu⟩

theorem Heard.listening {given : List Notice} (h : Heard given s t) (hs : Listening s) :
    Listening t := by
  obtain ⟨_, _, _, _, _, ht⟩ := h.rest
  rw [ht]
  exact hs

theorem Heard.topics {given : List Notice} (h : Heard given s t) :
    t.engine.topics = s.engine.topics := by
  obtain ⟨_, _, _, _, _, ht⟩ := h.rest
  rw [ht]

private theorem notices_append (journal more : List Entry) :
    notices (journal ++ more) = notices journal ++ notices more := List.filterMap_append

theorem heard_record {e : Entry} (h : e.isOfFrame = true) (hn : notices [e] = []) (s : State) :
    Heard [] s (s.record e) := by
  refine ⟨⟨_, _, _, _, _, rfl⟩, grows_record h s, ?_⟩
  exact (notices_append _ _).trans (congrArg (notices s.journal ++ ·) hn)

theorem heard_settle (n : Int) (f : Pending → Outcome Value) (s : State) :
    Heard [] s (s.settle n f) := by
  cases hp : s.engine.pending.get? n with
  | none =>
    rw [State.settle_absent hp]
    exact .refl s
  | some entry =>
    have hj := State.settle_journal hp f
    refine ⟨State.settle_eq n f s, ⟨_, hj, List.forall_mem_singleton.mpr rfl⟩, ?_⟩
    rw [hj, notices_append]
    rfl

theorem heard_resolve (r : Response) (s : State) : Heard [] s (s.resolve r) := by
  have hr : Heard [] s (s.record (.answered r)) := heard_record rfl rfl s
  unfold State.resolve
  simp only
  split
  · exact hr.trans (heard_settle _ _ _)
  · exact hr

theorem heard_hearNotification {h : Handler} (hh : h.Listens) (close : State → State)
    (method : String) (params : Value) (s : State) :
    Heard (h.notice? method params).toList s (State.hearNotification close method params h s) := by
  cases h with
  | engine => exact .refl s
  | abortPending => exact .refl s
  | forwardLog =>
    rw [State.hearNotification, State.forward]
    split
    · exact heard_record rfl rfl s
    · exact .refl s
  | diagnostics name =>
    rw [State.hearNotification]
    split
    · exact heard_record rfl rfl s
    · exact heard_record rfl rfl s
  | user u =>
    have hnotified : Heard [⟨u.name, method, params⟩] s
        (s.record (.notified u.name method params)) :=
      ⟨⟨_, _, _, _, _, rfl⟩, ⟨_, rfl, List.forall_mem_singleton.mpr rfl⟩, notices_append _ _⟩
    rw [State.hearNotification, Handler.notice?]
    cases ha : u.actions with
    | nil => exact hnotified
    | cons a actions =>
      obtain rfl : a = .fail := hh a (by rw [ha]; exact List.mem_cons_self)
      exact hnotified.trans (heard_record rfl rfl _)

theorem heard_hearNotifications {handlers : List Handler} (hh : ∀ h ∈ handlers, h.Listens)
    (close : State → State) (method : String) (params : Value) (s : State) :
    Heard (handlers.filterMap (Handler.notice? method params)) s
      (handlers.foldl (fun s h => State.hearNotification close method params h s) s) := by
  induction handlers generalizing s with
  | nil => exact .refl s
  | cons h handlers ih =>
    have hhead := heard_hearNotification (hh h List.mem_cons_self) close method params s
    have hrest := hhead.trans (ih (fun k hk => hh k (List.mem_cons_of_mem h hk)) _)
    rw [List.filterMap_cons]
    cases hn : h.notice? method params <;> rw [hn] at hrest <;> exact hrest

theorem heard_handleMessage (hs : Listening s) (close : State → State) (v : Value) :
    Heard (announcements s.engine.topics v) s (State.handleMessage close v s) := by
  rw [State.handleMessage, announcements]
  cases hv : Message.ofValue v with
  | error e => exact heard_record rfl rfl s
  | ok m =>
    cases m with
    | request r => exact .refl s
    | response r => exact heard_resolve r s
    | notification n =>
      refine heard_hearNotifications (fun h hm => ?_) close _ _ s
      obtain ⟨e, he, rfl⟩ := List.mem_map.mp hm
      exact hs n.method e he

theorem heard_handleMessages (hs : Listening s) (close : State → State) (vs : List Value) :
    Heard (vs.flatMap (announcements s.engine.topics)) s
      (vs.foldl (fun s v => State.handleMessage close v s) s) := by
  induction vs generalizing s with
  | nil => exact .refl s
  | cons v vs ih =>
    have hv := heard_handleMessage hs close v
    have hrest := ih (hv.listening hs)
    rw [hv.topics] at hrest
    exact hv.trans hrest

/-- When nobody who hears of notifications does anything, all of them are heard, in the order in which
they stand in the frame. -/
theorem heard_handleFrame (hs : Listening s) (close : State → State) (frame : String) :
    Heard ((elements frame).flatMap (announcements s.engine.topics)) s
      (s.handleFrame close frame) := by
  rw [State.handleFrame, elements]
  cases Payload.parse frame with
  | error e => exact heard_record rfl rfl s
  | ok payload => exact heard_handleMessages hs close payload.values

/-- What an inbound frame brings about. -/
structure FrameEffect (frame : String) (s t : State) : Prop where
  nextId : t.engine.nextId = s.engine.nextId
  /-- Only handlers of the user's hand frames to the transport, each of them its own. -/
  offered : ∀ P, Heeds P s → Grows (Entry.Offering P) s t
  /-- Every response in the frame is looked at, in order. -/
  answers : answers t.journal = answers s.journal ++ responses frame
  named : ∀ id, Names frame id → t.engine.pending.get? id = none
  /-- All that the client holds of any other request, and all it has told of it, stays as it is. -/
  unnamed : ∀ id, ¬ Names frame id → account id t = account id s ∨ GivesUp s t
  /-- An element that settles nothing makes no difference to what is done with the others. -/
  others : ∀ vs v ws, elements frame = vs ++ v :: ws →
    let handle := fun s v => State.handleMessage State.disconnect v s
    Unsettling v (vs.foldl handle s) → ∃ seen,
      t = ws.foldl handle { vs.foldl handle s with journal := (vs.foldl handle s).journal ++ seen } ∧
      ∀ e ∈ seen, e = .note ⟨.warn, "dropping malformed message"⟩ ∨ ∃ r, e = .answered r
  /-- Without handlers that do anything the frame concerns the requests that it names and nothing else,
  and all of its notifications are heard. -/
  quiet : Listening s →
    Heard ((elements frame).flatMap (announcements s.engine.topics)) s t ∧
    ∀ id, ¬ Names frame id → account id t = account id s

theorem handleFrame_effect (frame : String) (s : State) :
    FrameEffect frame s (s.handleFrame State.disconnect frame) := by
  have hhandles : Handles (· ∈ responses frame) s (s.handleFrame State.disconnect frame) :=
    handles_hears (handleFrame_hears closes_disconnect frame (heeds_anything s))
  have hunnamed (id : Int) (hid : ¬ Names frame id) :
      account id (s.handleFrame State.disconnect frame) = account id s ∨
        GivesUp s (s.handleFrame State.disconnect frame) :=
    hhandles.kept.imp_left fun h => h id fun r hr he => hid ⟨r, hr, he⟩
  refine ⟨hhandles.nextId, fun P hP => ?_, answers_handleFrame frame s, fun id hid => ?_, hunnamed,
    fun vs v ws hframe => ?_, fun hs => ?_⟩
  · exact offering_shifts (m := .hear frame) (Hears.shifts (reports_eventful rfl)
      (handleFrame_hears closes_disconnect frame hP))
  · obtain ⟨r, hr, hid⟩ := hid
    rw [responses_eq] at hr
    have hne : elements frame ≠ [] := by
      intro hnil
      rw [hnil] at hr
      cases hr
    rw [handleFrame_elements hne]
    exact handleMessages_named hr hid s
  · intro handle hv
    obtain ⟨seen, heq, hseen⟩ := handleMessage_unsettling hv State.disconnect
    refine ⟨seen, ?_, hseen⟩
    rw [handleFrame_elements (by rw [hframe]; simp), hframe, List.foldl_append, List.foldl_cons, heq]
  · have hheard := heard_handleFrame hs State.disconnect frame
    refine ⟨hheard, fun id hid => (hunnamed id hid).resolve_right fun hgives => ?_⟩
    -- giving up would have been told, and a frame does not tell of it of its own accord
    obtain ⟨more, reason, hj, hmem⟩ := hgives.told
    obtain ⟨entries, hj', hown⟩ := hheard.journal
    obtain rfl := List.append_cancel_left (hj.symm.trans hj')
    cases hown _ hmem

/-- A number, responses with a text and with null for an id, a request of the server's with the id of a
pending one, and a response. -/
def mixedBatch : String :=
  "[7,\x7b\"id\":\"2\",\"result\":0\x7d,\x7b\"id\":null\x7d,\x7b\"id\":2,\"method\":\"m\"\x7d," ++
    "\x7b\"id\":1,\"result\":5\x7d]"

theorem responses_mixedBatch : responses mixedBatch =
    [⟨"2.0", some (.text "2"), some (.int 0), none⟩, ⟨"2.0", none, none, none⟩,
      ⟨"2.0", some (.number 1), some (.int 5), none⟩] := by decide +kernel

def awaitingTwo : List Move :=
  [.connect, .found 1 0, .request "first" .null .none, .request "second" .null .none]

private theorem awaitingTwo_listening :
    Listening ((State.new .engine .standard 30000).after awaitingTwo) := by
  have htopics : ((State.new .engine .standard 30000).after awaitingTwo).engine.topics =
      (State.new .engine .standard 30000).engine.topics := rfl
  intro method h hm
  rw [htopics] at hm
  exact absurd hm List.not_mem_nil

/-- Of two pending requests the batch settles the one, and the other is left alone. -/
theorem handleFrame_effect_mixed :
    let s := (State.new .engine .standard 30000).after awaitingTwo
    let t := s.handleFrame State.disconnect mixedBatch
    s.engine.pending.contains 1 = true ∧ t.engine.pending.get? 1 = none ∧
      s.engine.pending.contains 2 = true ∧ account 2 t = account 2 s := by
  have hfirst : Names mixedBatch 1 := by
    refine ⟨⟨"2.0", some (.number 1), some (.int 5), none⟩, ?_, rfl⟩
    rw [responses_mixedBatch]
    exact List.mem_cons_of_mem _ (List.mem_cons_of_mem _ List.mem_cons_self)
  have hsecond : ¬ Names mixedBatch 2 := by
    rintro ⟨r, hr, hid⟩
    rw [responses_mixedBatch] at hr
    simp only [List.mem_cons, List.not_mem_nil, or_false] at hr
    obtain rfl | rfl | rfl := hr <;> cases hid
  have heffect := handleFrame_effect mixedBatch ((State.new .engine .standard 30000).after awaitingTwo)
  have hnamed := heffect.named 1 hfirst
  have hunnamed := (heffect.quiet awaitingTwo_listening).2 2 hsecond
  exact ⟨rfl, hnamed, rfl, hunnamed⟩

end LanguageClient.Client
