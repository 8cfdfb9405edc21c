import LanguageClient.Proofs.Lifecycle
/-!
The order of the handshake is observed and never enforced. The lifecycle of a session, and whether it
has warned of an early request, show in its remarks about the order and nowhere else: two sessions that
differ in these alone send the same frames, give the same results and keep the same books. The warning
itself comes once, with the first feature request before the session is ready.
-/
namespace LanguageClient.Client
open Json Session Rpc

/-- The conversation without what it knows of the order of the handshake. -/
def Conversation.unordered (c : Conversation) : Conversation :=
  { c with lifecycle := .uninitialized, warned := false }

/-- The client as it is for one who does not look at the order of the handshake. -/
def State.regardless (s : State) : State := s.recast s.session.unordered .quiet

/-- A frame that was offered to the transport, with the connection that took it, if one did. -/
def Entry.offer? : Entry → Option (String × Option Nat)
  | .offered frame taken => some (frame, taken)
  | _ => none

def State.offers (s : State) : List (String × Option Nat) := s.journal.filterMap Entry.offer?

/-- What a move gives back to its caller. -/
inductive Reply where
  | nothing
  | attempt (generation : Option Nat)
  | ended (found : Bool)
  | aborted (count : Nat)
  | issued (id : Int)
  | collected (outcome : Option (Outcome Value))
  | capabilities (outcome : Outcome Value)
  | done (outcome : Outcome Unit)
  | opened (outcome : Outcome Uri)
  | changed (outcome : Outcome (Option Int))

def Move.reply : Move → State → Reply
  | .unlisten name, s => .ended (s.unlisten name).1
  | .connect, s => .attempt s.beginAttempt.1
  | .found g l, s => .done (s.completeAttempt g l).1
  | .send frame, s => .done (s.send frame).1
  | .notify method params, s => .done (s.notify method params).1
  | .request method params options, s => .issued (s.request method params options).1
  | .collect id, s => .collected ((s.collect id).map Prod.fst)
  | .abort reason, s => .aborted (s.abortPending reason).1
  | .completeInitialize outcome, s => .capabilities (s.completeInitialize outcome).1
  | .initialized, s => .done s.initialized.1
  | .completeShutdown outcome, s => .done (s.completeShutdown outcome).1
  | .didOpen item, s => .done (s.didOpen item).1
  | .openFile path contents, s => .opened (s.openFile path contents).1
  | .didChange uri text edits, s => .changed (s.didChange uri text edits).1
  | .didSave uri text, s => .done (s.didSave uri text).1
  | .didClose uri, s => .done (s.didClose uri).1
  | .feature f params token, s => .issued (s.feature f params token).1
  | _, _ => .nothing

/-- Two clients that differ in nothing but the order of the handshake. -/
def Twins (s t : State) : Prop := s.regardless = t.regardless

/-- The same result, from clients that differ in nothing but the order. -/
def Agree {α : Type} (r q : α × State) : Prop := ∃ a s t, r = (a, s) ∧ q = (a, t) ∧ Twins s t

/-- Operations that give the same result, and do the same, whatever the order. -/
def Blind {α : Type} (op : State → α × State) : Prop := ∀ s t, Twins s t → Agree (op s) (op t)

theorem Agree.result {α : Type} {r q : α × State} (h : Agree r q) : r.1 = q.1 := by
  obtain ⟨_, _, _, rfl, rfl, _⟩ := h
  rfl

theorem Agree.twins {α : Type} {r q : α × State} (h : Agree r q) : Twins r.2 q.2 := by
  obtain ⟨_, _, _, rfl, rfl, h⟩ := h
  exact h

theorem syncKind_notes {caps : Capabilities} {text : String} (h : text ∈ caps.syncKind.2) :
    (Entry.note ⟨.warn, text⟩).onOrder = false := by
  unfold Capabilities.syncKind at h
  split at h
  · cases h
  · split at h
    · cases h
    · rw [List.mem_singleton.mp h]
      rfl

theorem apart_warns {texts : List String}
    (h : ∀ text ∈ texts, (Entry.note ⟨.warn, text⟩).onOrder = false) :
    State.Apart fun s => texts.foldl (fun s text => s.warn text) s := by
  intro c tale s
  show texts.foldl (fun s text => s.warn text) (s.recast c tale) =
    (texts.foldl (fun s text => s.warn text) s).recast c tale
  induction texts generalizing s with
  | nil => rfl
  | cons text texts ih =>
    rw [List.foldl_cons, List.foldl_cons, State.warn_recast c tale s (h text List.mem_cons_self)]
    exact ih (fun t ht => h t (List.mem_cons_of_mem text ht)) _

namespace Twins
open State

variable {s t : State}

theorem offers (h : Twins s t) : s.offers = t.offers := by
  have hoffers (s : State) : s.regardless.offers = s.offers := by
    unfold State.offers regardless
    rw [recast_journal, Retelling.quiet, List.filterMap_filter]
    congr 1
    funext e
    cases e <;> simp [Entry.offer?]
  rw [← hoffers s, ← hoffers t, h]

theorem engine (h : Twins s t) : s.engine = t.engine := (congrArg State.engine h :)

theorem transport (h : Twins s t) : s.transport = t.transport := (congrArg State.transport h :)

theorem unordered (h : Twins s t) : s.session.unordered = t.session.unordered :=
  (congrArg State.session h :)

theorem negotiated (h : Twins s t) : s.session.negotiated = t.session.negotiated :=
  (congrArg Conversation.negotiated h.unordered :)

theorem documents (h : Twins s t) : s.session.documents = t.session.documents :=
  (congrArg Conversation.documents h.unordered :)

theorem apart (h : Twins s t) {f : State → State} (hf : Apart f) : Twins (f s) (f t) := by
  have hrecast (s : State) : (f s).regardless = f s.regardless := by
    rw [regardless, regardless, hf, hf.session]
  rw [Twins, hrecast s, hrecast t, h]

theorem modifySession (h : Twins s t) {f : Conversation → Conversation}
    (hf : ∀ c d, c.unordered = d.unordered → (f c).unordered = (f d).unordered) :
    Twins (s.modifySession f) (t.modifySession f) := by
  have hs := hf _ _ h.unordered
  unfold Twins regardless recast State.modifySession at *
  rw [State.mk.injEq] at h ⊢
  simp only [hs, true_and]
  exact ⟨h.1, h.2.1, h.2.2.2⟩

theorem agree {α : Type} {op : State → α × State}
    (hop : ∀ c tale s, op (s.recast c tale) = ((op s).1, (op s).2.recast c tale)) (h : Twins s t) :
    Agree (op s) (op t) := by
  have hsecond : Apart fun s => (op s).2 := fun c tale s => congrArg Prod.snd (hop c tale s)
  have hfirst (s : State) : (op s.regardless).1 = (op s).1 := by rw [regardless, hop]
  have hresult : (op s).1 = (op t).1 := by rw [← hfirst s, ← hfirst t, h]
  exact ⟨(op s).1, (op s).2, (op t).2, rfl, by rw [hresult], h.apart hsecond⟩

theorem notify (h : Twins s t) (method : String) (params : Option Value) :
    Agree (s.notify method params) (t.notify method params) :=
  h.agree fun c tale s => notify_recast c tale s method params

theorem request (h : Twins s t) (method : String) (params : Value) (options : CallOptions) :
    Agree (s.request method params options) (t.request method params options) :=
  h.agree fun c tale s => request_recast c tale s method params options

theorem setLifecycle (s : State) (l : Lifecycle) : Twins (s.setLifecycle l) s := rfl

theorem record_onOrder {e : Entry} (he : e.onOrder = true) (s : State) : Twins (s.record e) s := by
  simp [Twins, regardless, recast, record, Retelling.quiet, he]

theorem trans {u : State} (h : Twins s t) (k : Twins t u) : Twins s u := Eq.trans h k

theorem symm (h : Twins s t) : Twins t s := Eq.symm h

theorem notify_then {α : Type} {method : String} {params : Option Value} {a : α} {g : State → State}
    (h : Twins s t) (hg : ∀ s t, Twins s t → Twins (g s) (g t)) :
    Agree
      (match s.notify method params with
      | (.ok _, s) => ((.ok a : Outcome α), g s)
      | (.error e, s) => (.error e, s))
      (match t.notify method params with
      | (.ok _, s) => (.ok a, g s)
      | (.error e, s) => (.error e, s)) := by
  obtain ⟨r, s, t, hs, ht, h⟩ := h.notify method params
  rw [hs, ht]
  cases r with
  | ok _ => exact ⟨_, _, _, rfl, rfl, hg s t h⟩
  | error e => exact ⟨_, _, _, rfl, rfl, h⟩

theorem beginInitialize (h : Twins s t) : Twins s.beginInitialize t.beginInitialize := by
  have hbegin (s : State) : Twins s.beginInitialize s := by
    unfold State.beginInitialize
    refine (setLifecycle _ _).trans ?_
    split
    · rfl
    · exact record_onOrder rfl s
  exact (hbegin s).trans (h.trans (hbegin t).symm)

theorem warnIfNotReady (h : Twins s t) : Twins s.warnIfNotReady t.warnIfNotReady := by
  have hwarn (s : State) : Twins s.warnIfNotReady s := by
    unfold State.warnIfNotReady
    split
    · rfl
    · exact record_onOrder rfl _
  exact (hwarn s).trans (h.trans (hwarn t).symm)

theorem completeInitialize (outcome : Outcome Value) :
    Blind fun s => s.completeInitialize outcome := by
  intro s t h
  cases outcome with
  | error e => exact ⟨_, _, _, rfl, rfl, h⟩
  | ok result =>
    refine ⟨_, _, _, rfl, rfl, (h.apart (apart_warns fun _ => syncKind_notes)).modifySession
      fun c d hcd => ?_⟩
    simp_all [Conversation.unordered]

theorem initialized : Blind State.initialized :=
  fun _ _ h => h.notify_then fun _ _ h => h

theorem changeDocuments (h : Twins s t) (f : Documents → Documents) :
    Twins (s.modifySession fun c => { c with documents := f c.documents })
      (t.modifySession fun c => { c with documents := f c.documents }) :=
  h.modifySession fun c d hcd => by simp_all [Conversation.unordered]

theorem recordOpen (h : Twins s t) (item : TextItem) :
    Twins (s.recordOpen item) (t.recordOpen item) :=
  h.changeDocuments fun ds => ds.opened item.uri.text item.languageId item.version

theorem recordChange (h : Twins s t) (uri : Uri) (version : Int) :
    Twins (s.recordChange uri version) (t.recordChange uri version) :=
  h.changeDocuments fun ds =>
    if ds.contains uri.text then ds.withVersion uri.text version
    else ds.opened uri.text (Path.detectLanguage uri.text) version

theorem completeShutdown (outcome : Outcome Value) : Blind fun s => s.completeShutdown outcome := by
  intro s t h
  have hdone {s t : State} (h : Twins s t) :
      Twins ((s.modifySession fun c => { c with lifecycle := .shutdown, documents := [] }).record
        .shutDown)
      ((t.modifySession fun c => { c with lifecycle := .shutdown, documents := [] }).record
        .shutDown) := by
    refine Twins.apart ?_ fun c tale s => record_recast c tale s rfl
    exact h.modifySession fun c d hcd => by simp_all [Conversation.unordered]
  cases outcome with
  | ok _ =>
    obtain ⟨exit, s, t, hs, ht, h⟩ := h.notify "exit" none
    simp only [State.completeShutdown, hs, ht]
    exact ⟨_, _, _, rfl, rfl, hdone h⟩
  | error e =>
    have hwarned : Twins (s.warn "shutdown request failed, sending exit anyway")
        (t.warn "shutdown request failed, sending exit anyway") :=
      h.apart fun c tale s => warn_recast c tale s rfl
    obtain ⟨exit, s, t, hs, ht, h⟩ := hwarned.notify "exit" none
    simp only [State.completeShutdown, hs, ht]
    exact ⟨_, _, _, rfl, rfl, hdone h⟩

theorem didOpen (item : TextItem) : Blind fun s => s.didOpen item :=
  fun _ _ h => h.notify_then fun _ _ h => h.recordOpen item

theorem openFile (path : String) (contents : Outcome String) :
    Blind fun s => s.openFile path contents := by
  intro s t h
  show Agree (s.openFile path contents) (t.openFile path contents)
  unfold State.openFile
  generalize Path.toUri path = address
  cases contents with
  | error e => exact ⟨_, _, _, rfl, rfl, h⟩
  | ok text =>
    cases address with
    | error e => exact ⟨_, _, _, rfl, rfl, h⟩
    | ok uri =>
      obtain ⟨r, s, t, hs, ht, h⟩ := didOpen ⟨uri, Path.detectLanguage path, 1, text⟩ s t h
      simp only at hs ht
      simp only [hs, ht]
      cases r <;> exact ⟨_, _, _, rfl, rfl, h⟩

theorem didChange (uri : Uri) (text : String) (edits : List ContentChange) :
    Blind fun s => s.didChange uri text edits := by
  intro s t h
  have hkind : s.session.syncKind = t.session.syncKind := (congrArg (fun n => n.2.1) h.negotiated :)
  simp only [State.didChange, hkind, h.documents]
  split
  · exact ⟨_, _, _, rfl, rfl, h⟩
  · cases hv : t.session.documents.nextVersion? uri.text with
    | some version => exact h.notify_then fun _ _ h => h.recordChange uri _
    | none =>
      have hwarned : Twins (s.warn "change for a document that was never opened")
          (t.warn "change for a document that was never opened") :=
        h.apart fun c tale s => warn_recast c tale s rfl
      exact hwarned.notify_then fun _ _ h => h.recordChange uri _

theorem didSave (uri : Uri) (text : Option String) : Blind fun s => s.didSave uri text := by
  intro s t h
  have hcaps : s.session.capabilities = t.session.capabilities := (congrArg Prod.fst h.negotiated :)
  simp only [State.didSave, hcaps]
  exact h.notify _ _

theorem didClose (uri : Uri) : Blind fun s => s.didClose uri :=
  fun _ _ h => h.notify_then fun _ _ h => h.changeDocuments fun ds => ds.closed uri.text

theorem feature (f : Schema.Feature) (params : Value) (token : Option String) :
    Blind fun s => s.feature f params token :=
  fun _ _ h => h.warnIfNotReady.request _ _ _

end Twins

theorem Move.reply_recast {m : Move} (h : m.isOfSession = false) (c : Conversation)
    (tale : Retelling) (s : State) : m.reply (s.recast c tale) = m.reply s := by
  cases m with
  | connect =>
    simp only [reply, State.beginAttempt]
    rw [State.recast_transport]
    split <;> rfl
  | found g l =>
    simp only [reply, State.completeAttempt]
    rw [State.isAttempting_recast]
    split <;> rfl
  | collect id => simp [reply, Option.map_map, Function.comp_def]
  | unlisten name => simp [reply]
  | send frame => simp [reply]
  | notify method params => simp [reply]
  | request method params options => simp [reply]
  | abort reason => simp [reply]
  | beginInitialize | completeInitialize | initialized | beginShutdown | completeShutdown | didOpen
  | openFile | didChange | didSave | didClose | feature => cases h
  | _ => rfl

/-- Whatever the order, a move gives the same back and leads to the same. -/
theorem Twins.move {s t : State} (h : Twins s t) (m : Move) :
    m.reply s = m.reply t ∧ Twins (m.apply s) (m.apply t) := by
  cases hm : m.isOfSession with
  | false =>
    refine ⟨?_, h.apart (Move.apart hm)⟩
    rw [← Move.reply_recast hm s.session.unordered .quiet s,
      ← Move.reply_recast hm t.session.unordered .quiet t]
    exact congrArg m.reply h
  | true =>
    cases m with
    | beginInitialize => exact ⟨rfl, h.beginInitialize⟩
    | completeInitialize outcome =>
      have ha := Twins.completeInitialize outcome s t h
      exact ⟨congrArg Reply.capabilities ha.result, ha.twins⟩
    | initialized =>
      have ha := Twins.initialized s t h
      exact ⟨congrArg Reply.done ha.result, ha.twins⟩
    | beginShutdown => exact ⟨rfl, h⟩
    | completeShutdown outcome =>
      have ha := Twins.completeShutdown outcome s t h
      exact ⟨congrArg Reply.done ha.result, ha.twins⟩
    | didOpen item =>
      have ha := Twins.didOpen item s t h
      exact ⟨congrArg Reply.done ha.result, ha.twins⟩
    | openFile path contents =>
      have ha := Twins.openFile path contents s t h
      exact ⟨congrArg Reply.opened ha.result, ha.twins⟩
    | didChange uri text edits =>
      have ha := Twins.didChange uri text edits s t h
      exact ⟨congrArg Reply.changed ha.result, ha.twins⟩
    | didSave uri text =>
      have ha := Twins.didSave uri text s t h
      exact ⟨congrArg Reply.done ha.result, ha.twins⟩
    | didClose uri =>
      have ha := Twins.didClose uri s t h
      exact ⟨congrArg Reply.done ha.result, ha.twins⟩
    | feature f params token =>
      have ha := Twins.feature f params token s t h
      exact ⟨congrArg Reply.issued ha.result, ha.twins⟩
    | note n =>
      have hn : (Entry.note n).onOrder = true := hm
      have hnote (s : State) : Twins (s.record (.note n)) s := Twins.record_onOrder hn s
      exact ⟨rfl, (hnote s).trans (h.trans (hnote t).symm)⟩
    | _ => cases hm

theorem Twins.after {s t : State} (h : Twins s t) (moves : List Move) :
    Twins (s.after moves) (t.after moves) := by
  induction moves generalizing s t with
  | nil => exact h
  | cons m moves ih => exact ih (h.move m).2

/-- A feature request before the session is ready. -/
def Move.isEarly (m : Move) (s : State) : Bool :=
  match m with
  | .feature .. => !s.session.lifecycle.isReady
  | _ => false

/-- Somewhere in these moves there is a feature request before the session is ready. -/
def State.rushes (s : State) : List Move → Bool
  | [] => false
  | m :: moves => m.isEarly s || (m.apply s).rushes moves

def Entry.isEarlyRemark : Entry → Bool
  | .note n => n == requestedEarly
  | _ => false

/-- The remarks about an early request. -/
def State.earlyRemarks (s : State) : Nat := s.journal.countP Entry.isEarlyRemark

/-- Nothing is remarked about an early request. -/
structure Tame (s t : State) : Prop where
  warned : t.session.warned = s.session.warned
  grows : Grows (fun e => e.isEarlyRemark = false) s t

namespace Tame
open State

variable {s t u : State}

theorem refl (s : State) : Tame s s := ⟨rfl, .refl s⟩

theorem trans (h : Tame s t) (k : Tame t u) : Tame s u :=
  ⟨k.warned.trans h.warned, h.grows.trans k.grows⟩

theorem apart {f : State → State} (hf : Apart f) (s : State) : Tame s (f s) := by
  refine ⟨congrArg _ (hf.session s), (hf.grows s).mono fun e he => ?_⟩
  cases e <;> simp_all [Entry.onOrder, Entry.isEarlyRemark]

theorem record {e : Entry} (he : e.isEarlyRemark = false) (s : State) : Tame s (s.record e) :=
  ⟨rfl, grows_record he s⟩

theorem of_eq (hw : t.session.warned = s.session.warned) (hj : t.journal = s.journal) : Tame s t :=
  ⟨hw, .of_eq hj⟩

theorem notify (method : String) (params : Option Value) (s : State) :
    Tame s (s.notify method params).2 := apart (apart_notify method params) s

theorem notify_then {α : Type} {method : String} {params : Option Value} {a : α} {g : State → State}
    (s : State) (hg : ∀ t, Tame t (g t)) :
    Tame s (match s.notify method params with
      | (.ok _, s) => ((.ok a : Outcome α), g s)
      | (.error e, s) => (.error e, s)).2 := by
  have h := notify method params s
  rcases hn : s.notify method params with ⟨r, t⟩
  rw [hn] at h
  cases r with
  | ok _ => exact h.trans (hg t)
  | error e => exact h

theorem beginInitialize (s : State) : Tame s s.beginInitialize := by
  unfold State.beginInitialize
  split
  · exact of_eq rfl rfl
  · exact (record rfl s).trans (of_eq rfl rfl)

theorem completeInitialize (outcome : Outcome Value) (s : State) :
    Tame s (s.completeInitialize outcome).2 := by
  cases outcome with
  | error e => exact of_eq rfl rfl
  | ok result =>
    exact (apart (apart_warns fun _ => syncKind_notes) s).trans (of_eq rfl rfl)

theorem completeShutdown (outcome : Outcome Value) (s : State) :
    Tame s (s.completeShutdown outcome).2 := by
  have hexit (s : State) : Tame s (((s.notify "exit" none).2.modifySession fun c => { c with
      lifecycle := .shutdown, documents := [] }).record .shutDown) := by
    have hforget : Tame (s.notify "exit" none).2 ((s.notify "exit" none).2.modifySession fun c =>
      { c with lifecycle := .shutdown, documents := [] }) := of_eq rfl rfl
    exact ((notify "exit" none s).trans hforget).trans (record rfl _)
  cases outcome with
  | ok _ => exact hexit s
  | error e => exact (record rfl s).trans (hexit _)

theorem didOpen (item : TextItem) (s : State) : Tame s (s.didOpen item).2 :=
  notify_then s fun _ => of_eq rfl rfl

theorem openFile (path : String) (contents : Outcome String) (s : State) :
    Tame s (s.openFile path contents).2 := by
  unfold State.openFile
  generalize Path.toUri path = address
  cases contents with
  | error e => exact refl s
  | ok text =>
    cases address with
    | error e => exact refl s
    | ok uri =>
      have h := didOpen ⟨uri, Path.detectLanguage path, 1, text⟩ s
      rcases ho : s.didOpen ⟨uri, Path.detectLanguage path, 1, text⟩ with ⟨r, t⟩
      rw [ho] at h
      simp only [ho]
      cases r <;> exact h

theorem didChange (uri : Uri) (text : String) (edits : List ContentChange) (s : State) :
    Tame s (s.didChange uri text edits).2 := by
  unfold State.didChange
  split
  · exact refl s
  · cases s.session.documents.nextVersion? uri.text with
    | some version => exact notify_then s fun _ => of_eq rfl rfl
    | none => exact (record rfl s).trans (notify_then _ fun _ => of_eq rfl rfl)

theorem earlyRemarks (h : Tame s t) : t.earlyRemarks = s.earlyRemarks := by
  obtain ⟨more, hj, hm⟩ := h.grows
  unfold State.earlyRemarks
  rw [hj, List.countP_append, Nat.add_eq_left, List.countP_eq_zero]
  exact fun e he => Bool.eq_false_iff.mp (hm e he)

end Tame

/-- Only feature requests before the session is ready are warned of. -/
theorem Move.tame {m : Move} (h : m ≠ .note requestedEarly) {s : State}
    (hm : m.isEarly s = false) : Tame s (m.apply s) := by
  cases ho : m.isOfSession with
  | false => exact Tame.apart (Move.apart ho) s
  | true =>
    cases m with
    | beginInitialize => exact Tame.beginInitialize s
    | completeInitialize outcome => exact Tame.completeInitialize outcome s
    | initialized => exact Tame.notify_then s fun _ => Tame.of_eq rfl rfl
    | beginShutdown => exact Tame.of_eq rfl rfl
    | completeShutdown outcome => exact Tame.completeShutdown outcome s
    | didOpen item => exact Tame.didOpen item s
    | openFile path contents => exact Tame.openFile path contents s
    | didChange uri text edits => exact Tame.didChange uri text edits s
    | didSave uri text => exact Tame.notify _ _ s
    | didClose uri => exact Tame.notify_then s fun _ => Tame.of_eq rfl rfl
    | feature f params token =>
      have hready : s.session.lifecycle.isReady = true := by simpa [isEarly] using hm
      have hwarn : s.warnIfNotReady = s := by simp [State.warnIfNotReady, hready]
      show Tame s (s.warnIfNotReady.request f.method params ⟨token, none⟩).2
      rw [hwarn]
      exact Tame.apart (State.apart_request f.method params ⟨token, none⟩) s
    | note n => exact Tame.record (by simpa [Entry.isEarlyRemark] using h) s
    | _ => cases ho

/-- A move warns of an early request exactly if it is one, and the session has not warned yet. -/
theorem Move.earlyRemarks_apply {m : Move} (h : m ≠ .note requestedEarly) (s : State) :
    (m.apply s).session.warned = (s.session.warned || m.isEarly s) ∧
    (m.apply s).earlyRemarks =
      s.earlyRemarks + if m.isEarly s && !s.session.warned then 1 else 0 := by
  cases hm : m.isEarly s with
  | false =>
    have ht := Move.tame h hm
    rw [ht.warned, ht.earlyRemarks]
    simp
  | true =>
    cases m with
    | feature f params token =>
      have hready : s.session.lifecycle.isReady = false := by simpa [isEarly] using hm
      have hrequest := Tame.apart (State.apart_request f.method params ⟨token, none⟩) s.warnIfNotReady
      show (s.warnIfNotReady.request f.method params ⟨token, none⟩).2.session.warned = _ ∧
        (s.warnIfNotReady.request f.method params ⟨token, none⟩).2.earlyRemarks = _
      rw [hrequest.warned, hrequest.earlyRemarks]
      cases hw : s.session.warned with
      | false =>
        simp [State.warnIfNotReady, hready, hw, State.warn, State.record, State.modifySession,
          State.earlyRemarks, Entry.isEarlyRemark, requestedEarly]
      | true => simp [State.warnIfNotReady, hw]
    | _ => cases hm

theorem State.earlyRemarks_after {moves : List Move} (h : ∀ m ∈ moves, m ≠ .note requestedEarly)
    (s : State) : (s.after moves).session.warned = (s.session.warned || s.rushes moves) ∧
      (s.after moves).earlyRemarks =
        s.earlyRemarks + if s.rushes moves && !s.session.warned then 1 else 0 := by
  induction moves generalizing s with
  | nil => simp [State.after, rushes]
  | cons m moves ih =>
    obtain ⟨hw, hr⟩ := Move.earlyRemarks_apply (h m List.mem_cons_self) s
    obtain ⟨iw, ir⟩ := ih (fun m hm => h m (List.mem_cons_of_mem _ hm)) (m.apply s)
    have hcons : s.after (m :: moves) = (m.apply s).after moves := rfl
    rw [hcons, iw, ir, hw, hr, rushes]
    cases m.isEarly s <;> cases s.session.warned <;> simp

/-- The client with its session in another state, and with another memory of having warned. -/
def State.supposing (l : Lifecycle) (warned : Bool) (s : State) : State :=
  s.modifySession fun c => { c with lifecycle := l, warned }

/-- The lifecycle of a session, and whether it has warned of an early request, decide nothing: after
the same moves two sessions that differ in these alone have offered the same frames and go on to give
the same results, with the same documents, the same negotiated data and the same requests pending, and
differ in nothing but their lifecycle, their memory of having warned, and their remarks about the order.
That warning is given at most once in a run: by the first feature request that comes before the session
is ready. -/
theorem order_observed_only :
    (∀ (s : State) (l : Lifecycle) (warned : Bool) (moves : List Move),
      (∀ m : Move, m.reply ((s.supposing l warned).after moves) = m.reply (s.after moves)) ∧
      ((s.supposing l warned).after moves).offers = (s.after moves).offers ∧
      ((s.supposing l warned).after moves).session.documents = (s.after moves).session.documents ∧
      ((s.supposing l warned).after moves).session.negotiated = (s.after moves).session.negotiated ∧
      ((s.supposing l warned).after moves).engine.pending = (s.after moves).engine.pending ∧
      ((s.supposing l warned).after moves).regardless = (s.after moves).regardless) ∧
    ∀ (layer : Layer) (options : Transport.Options) (timeout : Nat) (moves : List Move),
      (∀ m ∈ moves, m ≠ .note requestedEarly) →
      let start := State.new layer options timeout
      (start.after moves).earlyRemarks ≤ 1 ∧
      ∀ m : Move, m ≠ .note requestedEarly →
        ((m.apply (start.after moves)).earlyRemarks = (start.after moves).earlyRemarks + 1 ↔
          m.isEarly (start.after moves) = true ∧ start.rushes moves = false) := by
  refine ⟨fun s l warned moves => ?_, fun layer options timeout moves hmoves => ?_⟩
  · have hsupposing : Twins (s.supposing l warned) s := rfl
    have htwins := hsupposing.after moves
    exact ⟨fun m => (htwins.move m).1, htwins.offers, htwins.documents, htwins.negotiated,
      congrArg Engine.pending htwins.engine, htwins⟩
  · have hnew : (State.new layer options timeout).session.warned = false ∧
        (State.new layer options timeout).earlyRemarks = 0 := by cases layer <;> exact ⟨rfl, rfl⟩
    obtain ⟨hwarned, hremarks⟩ := State.earlyRemarks_after hmoves (State.new layer options timeout)
    rw [hnew.1, Bool.false_or] at hwarned
    rw [hnew.1, hnew.2] at hremarks
    refine ⟨?_, fun m hm => ?_⟩
    · rw [hremarks]
      split <;> omega
    · rw [(Move.earlyRemarks_apply hm _).2, hwarned]
      cases m.isEarly _ <;> cases State.rushes _ moves <;> simp

/-- Of two early requests the first is warned of, and the second is not. -/
theorem second_early_request_unremarked :
    ((State.new .session .standard 30000).after
      [.feature .hover .null none]).earlyRemarks = 1 ∧
    ((State.new .session .standard 30000).after
      [.feature .hover .null none, .feature .hover .null none]).earlyRemarks ≤ 1 :=
  ⟨by decide +kernel, (order_observed_only.2 .session .standard 30000
    [.feature .hover .null none, .feature .hover .null none] (by simp)).1⟩

end LanguageClient.Client
