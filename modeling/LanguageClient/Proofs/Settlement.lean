import LanguageClient.Proofs.Accounts
import LanguageClient.Proofs.Anatomy
/-!
Every request settles as the first thing that happens to it says. Whatever a move brings about, what
it does with requests is a sequence of a few dealings. Each of them keeps the accounts in balance,
leaves nothing pending without a watchdog, and tells of requests only what the move may tell.
-/
namespace LanguageClient.Client
open Relation Transport Rpc Json Session

/-- Entries that issuing a request may make. -/
def Entry.isOfIssue : Entry → Bool
  | .issued .. | .withdrawn _ | .unsent .. => true
  | _ => false

/-- One dealing with requests, which tells of them only what it is allowed to. -/
inductive Deal (C : Entry → Prop) : State → State → Prop where
  | still {s t : State} (h : Still s t) : Deal C s t
  | request (method : String) (params : Value) (options : CallOptions) (s : State)
    (h : ∀ e : Entry, e.isOfIssue = true → C e) : Deal C s (s.request method params options).2
  | resolve (r : Response) (s : State) (h : C (.answered r)) : Deal C s (s.resolve r)
  | watch (id : Int) (s : State) (revoked : C (.revoked id)) (lapsed : C (.lapsed id)) :
    Deal C s (s.watch id)
  | lapse (id : Int) (s : State) (h : C (.lapsed id)) : Deal C s (s.lapse id)
  | abandon (id : Int) (s : State) (h : C (.abandoned id)) : Deal C s (s.abandon id)
  | abort (reason : String) (s : State) (h : C (.gaveUp reason)) :
    Deal C s (s.abortPending reason).2
  | collect (id : Int) (s : State) : Deal C s ((s.collect id).elim s Prod.snd)

abbrev Deals (C : Entry → Prop) : State → State → Prop := ReflTransGen (Deal C)

variable {C : Entry → Prop}

theorem Deals.keeps {Q : State → Prop} (hQ : ∀ s t, Deal C s t → Q s → Q t) {s t : State}
    (h : Deals C s t) (hs : Q s) : Q t := by
  induction h with
  | refl => exact hs
  | tail _ h ih => exact hQ _ _ h ih

theorem Still.deals {s t : State} (h : Still s t) : Deals C s t := .single (.still h)

theorem still_cancelToken (token : String) (s : State) : Still s (s.cancelToken token) := by
  obtain ⟨_, _, h⟩ := State.cancelToken_eq token s
  rw [h]
  exact ⟨rfl, rfl, rfl, rfl, rfl, Grows.refl s⟩

theorem still_listen (topic : Topic) (handler : Handler) (name : String) (s : State) :
    Still s (s.listen topic handler name) := by
  obtain ⟨_, _, _, h⟩ := State.listen_eq topic handler name s
  rw [h]
  exact ⟨rfl, rfl, rfl, rfl, rfl, Grows.refl s⟩

theorem still_unlisten (name : String) (s : State) : Still s (s.unlisten name).2 := by
  obtain ⟨_, _, _, h⟩ := State.unlisten_eq name s
  rw [h]
  exact ⟨rfl, rfl, rfl, rfl, rfl, Grows.refl s⟩

private theorem still_takeDown (s : State) : Still s s.takeDown := by
  obtain ⟨_, _, h⟩ := State.takeDown_eq s
  rw [h]
  exact .of_eq rfl rfl

private theorem still_hangUp (s : State) : Still s s.hangUp := by
  rw [State.hangUp]
  split
  · exact still_record rfl s
  · exact ((still_record rfl s).trans (still_takeDown _)).record rfl

/-- A handler may give up what is pending, and otherwise has no dealings with requests. -/
theorem react_cases {P : String → Prop} {s t : State} (h : React P s t) :
    Still s t ∨ ∃ reason, t = (s.abortPending reason).2 := by
  cases h with
  | remark e s he => exact .inl (still_record (by cases e <;> first | rfl | cases he) s)
  | listen topic handler name s _ => exact .inl (still_listen topic handler name s)
  | unlisten name s => exact .inl (still_unlisten name s)
  | send frame s _ => exact .inl (still_send frame s)
  | cancelToken token s => exact .inl (still_cancelToken token s)
  | abortPending reason s => exact .inr ⟨reason, rfl⟩
  | hangUp s => exact .inl (still_hangUp s)

theorem react_deal (hC : ∀ reason, C (.gaveUp reason)) {P : String → Prop} {s t : State}
    (h : React P s t) : Deal C s t := by
  obtain h | ⟨reason, rfl⟩ := react_cases h
  · exact .still h
  · exact .abort reason s (hC reason)

theorem hears_deals (hC : ∀ reason, C (.gaveUp reason)) {P : String → Prop} {R : Response → Prop}
    (hR : ∀ r, R r → C (.answered r)) {s t : State} (h : Hears P R s t) : Deals C s t := by
  refine ReflTransGen.mono (fun s t (h : Hear P R s t) => ?_) _ _ h
  cases h with
  | react h => exact react_deal hC h
  | resolve r s hr => exact .resolve r s (hR r hr)

private theorem deals_emit (hC : ∀ reason, C (.gaveUp reason)) {event : Transport.Event}
    (hR : ∀ r, Brings event r → C (.answered r)) {close : State → State}
    (hc : Closes (fun _ => True) close) (g : Nat) {s t : State} (h : Deals C s t) :
    Deals C s (State.emitWith close g event t) := by
  have hemit := hears_deals hC hR (emitWith_hears hc g event (heeds_anything t))
  exact (h.tail (.still (still_record rfl t))).trans hemit

theorem not_brings {event : Transport.Event} (h : event.kind ≠ .message) (r : Response) :
    ¬ Brings event r := by
  rintro ⟨frame, rfl, _⟩
  exact h rfl

private theorem deals_shut (hC : ∀ reason, C (.gaveUp reason)) (g : Option Nat)
    (reason : CloseReason) {s t : State} (h : Deals C s t) : Deals C s (t.shut g reason) := by
  rw [State.shut]
  split
  · exact h
  · refine deals_emit hC (fun r hr => ?_) closes_id _ (h.tail (.still (still_takeDown t)))
    exact absurd hr (not_brings (by simp [Transport.Event.kind]) r)

private theorem Chore.still {P : String → Prop} {s t : State} (h : Chore P s t) : Still s t := by
  cases h with
  | record e s h => exact still_record (by cases e <;> first | rfl | cases h) s
  | aside _ engine _ journal => exact .of_eq engine journal
  | connection g f s _ => exact .of_eq rfl rfl
  | send frame s _ => exact still_send frame s

private theorem Chores.still {P : String → Prop} {s t : State} (h : Chores P s t) : Still s t := by
  induction h with
  | refl => exact .refl s
  | tail _ h ih => exact ih.trans h.still

private theorem still_endReader (g : Nat) (s : State) : Still s (s.endReader g) :=
  (chores_endReader (P := fun _ => True) g s).still

private theorem still_establish (g l : Nat) (s : State) : Still s (s.establish g l) := by
  obtain ⟨_, _, _, h⟩ := State.establish_eq g l s
  rw [h]
  exact .of_eq rfl rfl

private theorem deals_failConnection (hC : ∀ reason, C (.gaveUp reason)) (g : Nat) (text : String)
    {s t : State} (h : Deals C s t) : Deals C s (t.failConnection g text) := by
  have hr (r : Response) (hr : Brings (.failed text) r) : C (.answered r) :=
    absurd hr (not_brings (by simp [Transport.Event.kind]) r)
  rw [State.failConnection]
  split
  · exact deals_shut hC _ _ (deals_emit hC hr closes_disconnect g
      (h.tail (.still (still_record rfl t))))
  · exact h

private theorem deals_completeAttempt (hC : ∀ reason, C (.gaveUp reason)) (g l : Nat) (s : State) :
    Deals C s (s.completeAttempt g l).2 := by
  rw [State.completeAttempt]
  split
  · exact deals_emit hC (fun r hr => absurd hr (not_brings (by decide) r)) closes_disconnect g
      (still_establish g l s).deals
  · exact Still.deals (.of_eq rfl rfl)

private theorem deals_failAttempt (hC : ∀ reason, C (.gaveUp reason)) (g : Nat) (e : Fault)
    (s : State) : Deals C s (s.failAttempt g e) := by
  rw [State.failAttempt]
  split
  · refine deals_emit hC (fun r hr => ?_) closes_disconnect g (Still.deals (.of_eq rfl rfl))
    exact absurd hr (not_brings (by simp [Transport.Event.kind]) r)
  · exact .refl

private theorem deals_readItem (hC : ∀ reason, C (.gaveUp reason)) (g : Nat) {item : Outcome String}
    (hR : ∀ frame, item = .ok frame → ∀ r ∈ responses frame, C (.answered r)) (s : State) :
    Deals C s (s.readItem g item) := by
  have hread : Deals C s (s.record (.received g item)) := (still_record rfl s).deals
  unfold State.readItem
  split
  · cases item with
    | ok frame =>
      refine deals_emit hC (fun r hr => ?_) closes_disconnect g hread
      obtain ⟨_, he, hr⟩ := hr
      cases he
      exact hR frame rfl r hr
    | error e => exact (deals_failConnection hC g _ hread).tail (.still (still_endReader g _))
  · exact .refl

private theorem deals_failWrite (hC : ∀ reason, C (.gaveUp reason)) (g : Nat) (text : String)
    (s : State) : Deals C s (s.failWrite g text) := by
  rw [State.failWrite]
  split
  · have hun : Still s ((s.unqueue g).record (.writeFailed g text)) :=
      (chores_unqueue (P := fun _ => True) g s).still.record rfl
    exact (deals_failConnection hC g text hun.deals).tail
      (.still (chores_endWriter (P := fun _ => True) g _).still)
  · exact .refl

private theorem deals_dropEngine (h : C (.gaveUp "engine dropped before the request settled"))
    (s : State) : Deals C s s.dropEngine := by
  unfold State.dropEngine
  simp only
  refine .tail (Still.deals ?_) (.abort _ _ h)
  split <;> exact ⟨rfl, rfl, rfl, rfl, rfl, Grows.refl s⟩

private theorem still_filings {P : String → Prop} {s t : State} (h : Filings P s t) :
    Still s t := by
  refine h.keeps (Q := Still s) (fun t u h hs => hs.trans ?_) (.refl s)
  cases h with
  | send frame t _ => exact still_send frame t
  | note n t => exact still_record rfl t
  | session c t => exact .of_eq rfl rfl
  | shutDown t => exact still_record rfl t

/-- What a move may tell of requests. -/
inductive Tells : Move → Entry → Prop where
  | request (method : String) (params : Value) (options : CallOptions) {e : Entry}
    (h : e.isOfIssue = true) : Tells (.request method params options) e
  | feature (f : Schema.Feature) (params : Value) (token : Option String) {e : Entry}
    (h : e.isOfIssue = true) : Tells (.feature f params token) e
  | hear {frame : String} {r : Response} (h : r ∈ responses frame) :
    Tells (.hear frame) (.answered r)
  | read (g : Nat) {frame : String} {r : Response} (h : r ∈ responses frame) :
    Tells (.read g (.ok frame)) (.answered r)
  | revoked (id : Int) : Tells (.watch id) (.revoked id)
  | lapsed (id : Int) : Tells (.watch id) (.lapsed id)
  | lapse (id : Int) : Tells (.lapse id) (.lapsed id)
  | abandon (id : Int) : Tells (.abandon id) (.abandoned id)
  | abort (reason : String) : Tells (.abort reason) (.gaveUp reason)
  | dropEngine : Tells .dropEngine (.gaveUp "engine dropped before the request settled")
  | handler {m : Move} (h : m.emits = true) (reason : String) : Tells m (.gaveUp reason)

/-- Every move is a sequence of dealings, and of requests it tells only what it may. -/
theorem Move.deals (m : Move) (s : State) : Deals (Tells m) s (m.apply s) := by
  by_cases hchore : m.isChore = true
  · exact (m.chores own_anything hchore m.sends_anything s).still.deals
  by_cases hd : m.concernsDocuments = true
  · exact (still_filings (m.filings hd s)).deals
  cases m with
  | listen topic handler name => exact (still_listen topic handler name s).deals
  | unlisten name => exact (still_unlisten name s).deals
  | connect =>
    simp only [Move.apply, State.beginAttempt]
    split
    · exact Still.deals (.of_eq rfl rfl)
    · exact .refl
  | found g l => exact deals_completeAttempt (.handler rfl) g l s
  | missed g e => exact deals_failAttempt (.handler rfl) g e s
  | disconnect => exact deals_shut (.handler rfl) none .byClient (still_record rfl s).deals
  | read g item =>
    refine deals_readItem (.handler rfl) g (fun frame he r hr => ?_) s
    rw [he]
    exact .read g hr
  | readEnd g =>
    simp only [Move.apply]
    split
    · exact (deals_shut (.handler rfl) (some g) .byPeer (still_record rfl s).deals).tail
        (.still (still_endReader g _))
    · exact .refl
  | failWrite g text => exact deals_failWrite (.handler rfl) g text s
  | request method params options =>
    exact .single (.request method params options s fun _ => .request method params options)
  | hear frame =>
    exact hears_deals (.handler rfl) (fun _ => .hear)
      (handleFrame_hears closes_disconnect frame (heeds_anything s))
  | watch id => exact .single (.watch id s (.revoked id) (.lapsed id))
  | lapse id => exact .single (.lapse id s (.lapse id))
  | cancelToken token => exact (still_cancelToken token s).deals
  | abandon id => exact .single (.abandon id s (.abandon id))
  | collect id => exact .single (.collect id s)
  | abort reason => exact .single (.abort reason s (.abort reason))
  | dropEngine => exact deals_dropEngine .dropEngine s
  | feature f params token =>
    have hwarn := (chores_warnIfNotReady (P := fun _ => True) s).still
    exact hwarn.deals.tail
      (.request f.method params ⟨token, none⟩ _ fun _ => .feature f params token)
  | completeShutdown _ | didOpen _ | openFile _ _ | didChange _ _ _ | didClose _ =>
    exact absurd rfl hd
  | _ => exact absurd rfl hchore

theorem Sound.deal {timeout : Nat} {s t : State} (h : Deal C s t) (hs : Sound timeout s) :
    Sound timeout t := by
  cases h with
  | still h => exact hs.of_still h
  | request method params options s _ => exact hs.request method params options
  | resolve r s _ => exact hs.resolve r
  | watch id s _ _ => exact hs.watch id
  | lapse id s _ => exact hs.lapse id
  | abandon id s _ => exact hs.abandon id
  | abort reason s _ => exact hs.abortPending reason
  | collect id s => exact hs.collect id

theorem sound_new (layer : Layer) (options : Options) (timeout : Nat) :
    Sound timeout (State.new layer options timeout) := by
  cases layer <;> exact ⟨fun _ => .unissued, fun _ _ => rfl, rfl⟩

/-- The accounts are in balance after every run. -/
theorem sound_after (layer : Layer) (options : Options) (timeout : Nat) (moves : List Move) :
    Sound timeout ((State.new layer options timeout).after moves) :=
  State.after_keeps (fun m s hs => (m.deals s).keeps (fun _ _ h => Sound.deal h) hs)
    (sound_new layer options timeout) moves

/-- A request that is pending has a watchdog. -/
def Watched (id : Int) (s : State) : Prop :=
  s.engine.pending.get? id ≠ none → s.engine.watchdogs.get? id ≠ none

private theorem Watched.of_account {id : Int} {s t : State} (h : account id t = account id s)
    (hs : Watched id s) : Watched id t := by
  have hp : t.engine.pending.get? id = s.engine.pending.get? id := congrArg Account.pending h
  have hw : t.engine.watchdogs.get? id = s.engine.watchdogs.get? id := congrArg Account.watchdog h
  rw [Watched, hp, hw]
  exact hs

private theorem Watched.settle {n id : Int} {s : State} (hs : n ≠ id → Watched id s)
    (f : Pending → Outcome Value) : Watched id (s.settle n f) := by
  by_cases h : n = id
  · exact fun hp => absurd (settle_pending_none (.inr h)) hp
  · exact (hs h).of_account (account_settle_other h s f)

private theorem watched_endWatchdog {n id : Int} {s : State} (hs : Watched id s) (h : n ≠ id) :
    Watched id (s.endWatchdog n) := by
  intro hp
  have hw := hs hp
  rw [State.endWatchdog, State.modifyEngine, Keyed.get?_erase, if_neg h]
  exact hw

private theorem Watched.expire {n id : Int} {s : State} (hs : n ≠ id → Watched id s) (t : Nat) :
    Watched id (s.expire n t) := Watched.settle (s := s.record (.lapsed n)) hs _

private theorem Watched.cancel {n id : Int} {s : State} (hs : n ≠ id → Watched id s) :
    Watched id (s.cancel n) :=
  (Watched.settle (s := s.record (.revoked n)) hs _).of_account ((same_cancel n s).accounts id)

private theorem Watched.watch {id : Int} {s : State} (hs : Watched id s) (n : Int) :
    Watched id (s.watch n) := by
  rw [State.watch]
  split
  · exact hs
  · simp only
    split
    · exact Watched.cancel (watched_endWatchdog hs)
    · split
      · exact Watched.expire (watched_endWatchdog hs) _
      · split
        · exact hs
        · intro hp
          change Keyed.get? (Keyed.put n _ s.engine.watchdogs) id ≠ none
          rw [Keyed.get?_put]
          split
          · exact Option.some_ne_none _
          · exact hs hp

private theorem Watched.abandon {id : Int} {s : State} (hs : Watched id s) (n : Int) :
    Watched id (s.abandon n) := by
  by_cases h : n = id
  · subst h
    refine fun hp => absurd ?_ hp
    unfold State.abandon
    simp only
    split
    · assumption
    · simp only [State.remove, State.modifyEngine, Keyed.get?_erase, if_true]
  · exact hs.of_account (account_abandon_other h s)

private theorem Watched.request {id : Int} {s : State} (hs : Watched id s) (method : String)
    (params : Value) (options : CallOptions) : Watched id (s.request method params options).2 := by
  have henter : s.engine.nextId ≠ id → Watched id (s.enter method options).2 := by
    intro h hp
    change Keyed.get? (Keyed.put s.engine.nextId ⟨method, false⟩ s.engine.pending) id ≠ none at hp
    rw [Keyed.get?_put, if_neg h] at hp
    exact hs hp
  rw [State.request]
  simp only
  split
  · exact Watched.settle (s := (s.enter method options).2.record _) henter _
  · obtain ⟨t, ht, h | ⟨e, h⟩⟩ := State.handOver_cases (s.enter method options).1 method params
      (s.enter method options).2
    · have hsend : Still (s.enter method options).2 t := ht ▸ still_send _ _
      have hp : t.engine.pending.get? s.engine.nextId = some ⟨method, false⟩ := by
        rw [hsend.pending]
        exact Keyed.get?_put_self _ _ _
      have hid : (s.enter method options).1 = s.engine.nextId := rfl
      rw [h]
      simp only [hid]
      rw [Watched, guard_engine hp]
      simp only [Keyed.get?_put, Keyed.get?_modify]
      split
      · exact fun _ => Option.some_ne_none _
      · rename_i hne
        exact (henter hne).of_account (hsend.same.accounts id)
    · have hsend : Still (s.enter method options).2 t := ht ▸ still_send _ _
      have hkeep : s.engine.nextId ≠ id → Watched id t := fun hne =>
        (henter hne).of_account (hsend.same.accounts id)
      rw [h]
      exact Watched.settle (s := t.record _) hkeep _

theorem Watched.deal {id : Int} {s t : State} (h : Deal C s t) (hs : Watched id s) :
    Watched id t := by
  cases h with
  | still h => exact hs.of_account (h.same.accounts id)
  | request method params options s _ => exact hs.request method params options
  | resolve r s _ =>
    unfold State.resolve
    simp only
    split
    · exact Watched.settle (s := s.record (.answered r)) (fun _ => hs) _
    · exact hs
  | watch n s _ _ => exact hs.watch n
  | lapse n s _ =>
    unfold State.lapse
    split
    · exact hs
    · split
      · exact Watched.expire (watched_endWatchdog hs) _
      · exact hs
  | abandon n s _ => exact hs.abandon n
  | abort reason s _ =>
    exact State.abortPending_keeps (Q := Watched id) hs fun _ _ h => Watched.settle (fun _ => h) _
  | collect n s =>
    unfold State.collect
    cases s.engine.outcomes.get? n with
    | none => exact hs
    | some outcome => exact hs

theorem watched_after (layer : Layer) (options : Options) (timeout : Nat) (moves : List Move)
    (id : Int) : Watched id ((State.new layer options timeout).after moves) := by
  refine State.after_keeps (fun m s hs => (m.deals s).keeps (fun _ _ h => Watched.deal h) hs) ?_ moves
  intro hp
  cases layer <;> exact absurd rfl hp

/-- A request that is owed its outcome has a watchdog that knows its timeout and its token. -/
theorem owed_watchdog {timeout : Nat} {s : State} (hs : Sound timeout s) {id : Int}
    (hw : Watched id s) {terms : Terms} (h : standing id s.journal = .owed terms) :
    ∃ w, s.engine.watchdogs.get? id = some w ∧ w.timeout = terms.timeout ∧ w.token = terms.token := by
  have hp : s.engine.pending.get? id ≠ none := by
    have hst : (account id s).standing = .owed terms := h
    obtain ⟨_, ha⟩ | ⟨_, _, _, hp, _, _⟩ | ⟨_, _, _, _, _, ha⟩ := balanced_cases (hs.balanced id)
    · rw [ha] at hst
      cases hst
    · rw [hp]
      exact Option.some_ne_none _
    · rw [ha] at hst
      cases hst
  obtain ⟨w, hget⟩ := Option.ne_none_iff_exists'.mp (hw hp)
  exact ⟨w, hget, hs.watchdog_terms hget h⟩

/-- The journal goes on with entries that are of no concern to requests, with outcomes, and with such
entries as are allowed. -/
abbrev Adds (C : Entry → Prop) : State → State → Prop :=
  Grows fun e => e.isIdle = true ∨ (∃ id outcome, e = .settled id outcome) ∨ C e

private theorem adds_record {e : Entry} (h : C e) (s : State) : Adds C s (s.record e) :=
  grows_record (.inr (.inr h)) s

private theorem adds_still {s t : State} (h : Still s t) : Adds C s t :=
  h.journal.mono fun _ he => .inl he

private theorem adds_conclude (n : Int) (outcome : Outcome Value) (s : State) :
    Adds C s (s.conclude n outcome) := by
  obtain ⟨_, hc⟩ := State.conclude_eq n outcome s
  rw [hc]
  exact ⟨[.settled n outcome], rfl, List.forall_mem_singleton.mpr (.inr (.inl ⟨n, outcome, rfl⟩))⟩

private theorem adds_settle (n : Int) (f : Pending → Outcome Value) (s : State) :
    Adds C s (s.settle n f) := by
  cases hp : s.engine.pending.get? n with
  | none =>
    rw [State.settle_absent hp]
    exact .refl s
  | some entry =>
    rw [State.settle_present hp]
    exact adds_conclude n (f entry) (s.remove n entry)

theorem adds_abort (reason : String) (s : State) :
    Adds C (s.record (.gaveUp reason)) (s.abortPending reason).2 :=
  State.abortPending_keeps (Q := Adds C (s.record (.gaveUp reason))) (.refl _) fun n t h =>
    h.trans (adds_settle n _ t)

theorem adds_resolve (r : Response) (s : State) :
    Adds C (s.record (.answered r)) (s.resolve r) := by
  unfold State.resolve
  simp only
  split
  · exact adds_settle _ _ _
  · exact .refl _

private theorem adds_cancel (n : Int) (s : State) :
    Adds C (s.record (.revoked n)) (s.cancel n) := by
  unfold State.cancel
  simp only
  split
  · exact .refl _
  · rename_i entry _
    have hsend : Adds C (s.record (.revoked n))
        (((s.record (.revoked n)).remove n entry).notify State.cancelMethod
          (some (State.cancelParams n))).2 :=
      adds_still (s := (s.record (.revoked n)).remove n entry) (still_send _ _)
    exact hsend.trans (adds_conclude n _ _)

private theorem adds_expire (n : Int) (t : Nat) (s : State) :
    Adds C (s.record (.lapsed n)) (s.expire n t) := adds_settle _ _ _

theorem abandon_journal (n : Int) (s : State) :
    (s.abandon n).journal = s.journal ++ [.abandoned n] := by
  unfold State.abandon
  simp only
  split <;> rfl

/-- The journal of a request tells its id and its terms, and then whether its token had been
cancelled, whether its frame was taken, or with what it was refused. -/
theorem request_journal (method : String) (params : Value) (options : CallOptions) (s : State) :
    (s.request method params options).2.journal = s.journal ++
      .issued s.engine.nextId method (options.timeout.getD s.engine.requestTimeout) options.token ::
        if s.tokenCancelled options then
          [.withdrawn s.engine.nextId, .settled s.engine.nextId (.error (.cancelled method))]
        else match s.transport.state, s.transport.outbound with
          | .opened, some g =>
            [.offered (Request.new s.engine.nextId method (encodeParams params)).wire (some g)]
          | state, _ =>
            [.offered (Request.new s.engine.nextId method (encodeParams params)).wire none,
              .unsent s.engine.nextId (.transport ("cannot send while " ++ state.name)),
              .settled s.engine.nextId (.error (.transport ("cannot send while " ++ state.name)))] := by
  have hp : (s.enter method options).2.engine.pending.get? s.engine.nextId = some ⟨method, false⟩ :=
    Keyed.get?_put_self _ _ _
  have htoken : (s.enter method options).2.tokenCancelled options = s.tokenCancelled options := rfl
  have hj : (s.enter method options).2.journal = s.journal ++
    [.issued s.engine.nextId method (options.timeout.getD s.engine.requestTimeout) options.token] :=
    rfl
  have hid : (s.enter method options).1 = s.engine.nextId := rfl
  rw [State.request]
  simp only [htoken, hid]
  split
  · rw [State.settle_journal (s := (s.enter method options).2.record _) hp, State.record, hj,
      List.append_assoc, List.append_assoc]
    rfl
  · unfold State.handOver
    obtain ⟨g, _, hs, ho, h⟩ | ⟨hno, h⟩ := State.send_cases
      (Request.new s.engine.nextId method (encodeParams params)).wire (s.enter method options).2
    · have hs : s.transport.state = .opened := hs
      have ho : s.transport.outbound = some g := ho
      rw [h, hs, ho]
      simp only [State.attach, State.guard, State.modifyEngine, State.wake_journal, hj,
        List.append_assoc, List.cons_append, List.nil_append]
    · rw [h]
      simp only
      rw [State.settle_journal (s := ((s.enter method options).2.record _).record _) hp, State.record,
        State.record, hj, List.append_assoc, List.append_assoc, List.append_assoc]
      split
      · rename_i g hs ho
        exact absurd ho (hno g hs)
      · rfl

private theorem adds_request (hC : ∀ e : Entry, e.isOfIssue = true → C e) (method : String)
    (params : Value) (options : CallOptions) (s : State) :
    Adds C s (s.request method params options).2 := by
  refine ⟨_, request_journal method params options s, List.forall_mem_cons.mpr ⟨?_, ?_⟩⟩
  · exact .inr (.inr (hC _ rfl))
  split
  · exact List.forall_mem_cons.mpr ⟨.inr (.inr (hC _ rfl)),
      List.forall_mem_singleton.mpr (.inr (.inl ⟨_, _, rfl⟩))⟩
  · split
    · exact List.forall_mem_singleton.mpr (.inl rfl)
    · exact List.forall_mem_cons.mpr ⟨.inl rfl, List.forall_mem_cons.mpr ⟨.inr (.inr (hC _ rfl)),
        List.forall_mem_singleton.mpr (.inr (.inl ⟨_, _, rfl⟩))⟩⟩

theorem Deal.adds {s t : State} (h : Deal C s t) : Adds C s t := by
  cases h with
  | still h => exact adds_still h
  | request method params options s h => exact adds_request h method params options s
  | resolve r s h => exact (adds_record h s).trans (adds_resolve r s)
  | watch id s revoked lapsed =>
    rw [State.watch]
    split
    · exact .refl s
    · simp only
      split
      · exact (adds_record revoked (s.endWatchdog id)).trans (adds_cancel id _)
      · split
        · exact (adds_record lapsed (s.endWatchdog id)).trans (adds_expire id _ _)
        · split
          · exact .refl s
          · exact Grows.refl s
  | lapse id s h =>
    rw [State.lapse]
    split
    · exact .refl s
    · split
      · exact (adds_record h (s.endWatchdog id)).trans (adds_expire id _ _)
      · exact .refl s
  | abandon id s h =>
    exact ⟨_, abandon_journal id s, List.forall_mem_singleton.mpr (.inr (.inr h))⟩
  | abort reason s h => exact (adds_record h s).trans (adds_abort reason s)
  | collect id s =>
    rw [State.collect]
    cases s.engine.outcomes.get? id with
    | none => exact .refl s
    | some outcome => exact Grows.refl s

theorem Move.adds (m : Move) (s : State) : Adds (Tells m) s (m.apply s) :=
  (m.deals s).keeps (Q := Adds (Tells m) s) (fun _ _ h hs => hs.trans h.adds) (.refl s)

/-- The responses that have been read. -/
def answers (journal : List Entry) : List Response :=
  journal.filterMap fun e =>
    match e with
    | .answered r => some r
    | _ => none

private theorem answers_append (journal more : List Entry) :
    answers (journal ++ more) = answers journal ++ answers more := List.filterMap_append

private theorem answers_of_adds (hC : ∀ r, ¬ C (.answered r)) {s t : State} (h : Adds C s t) :
    answers t.journal = answers s.journal := by
  obtain ⟨more, hj, hm⟩ := h
  have hnone : answers more = [] := by
    refine List.filterMap_eq_nil_iff.mpr fun e he => ?_
    cases e with
    | answered r =>
      obtain h | ⟨_, _, h⟩ | h := hm _ he
      · cases h
      · cases h
      · exact absurd h (hC r)
    | _ => rfl
  rw [hj, answers_append, hnone, List.append_nil]

private theorem answers_resolve (r : Response) (s : State) :
    answers (s.resolve r).journal = answers s.journal ++ [r] := by
  rw [answers_of_adds (C := fun _ => False) (fun _ => id) (adds_resolve r s)]
  exact answers_append s.journal [.answered r]

private theorem answers_react {P : String → Prop} {s t : State} (h : React P s t) :
    answers t.journal = answers s.journal := by
  refine answers_of_adds (C := fun e => ∃ reason, e = .gaveUp reason) ?_
    (react_deal (fun reason => ⟨reason, rfl⟩) h).adds
  rintro r ⟨_, h⟩
  cases h

private theorem answers_handleMessage (v : Value) (s : State) :
    answers (State.handleMessage State.disconnect v s).journal =
      answers s.journal ++ (response? v).toList := by
  rw [State.handleMessage, response?]
  split
  · rename_i r h
    rw [h]
    exact answers_resolve r s
  · rename_i n h
    rw [h, Option.toList_none, List.append_nil]
    have hd := deliver_reacts closes_disconnect n.method (n.params.getD .null) (heeds_anything s)
    exact hd.keeps (Q := fun t => answers t.journal = answers s.journal)
      (fun _ _ h hs => (answers_react h).trans hs) rfl
  · rename_i r h
    rw [h, Option.toList_none, List.append_nil]
  · rename_i e h
    rw [h, Option.toList_none, List.append_nil]
    exact (answers_append s.journal [.note _]).trans (List.append_nil _)

private theorem answers_handleMessages (vs : List Value) (s : State) :
    answers (vs.foldl (fun s v => State.handleMessage State.disconnect v s) s).journal =
      answers s.journal ++ vs.filterMap response? := by
  induction vs generalizing s with
  | nil => exact (List.append_nil _).symm
  | cons v vs ih =>
    rw [List.foldl_cons, ih, answers_handleMessage, List.append_assoc, List.filterMap_cons]
    cases response? v <;> rfl

/-- A frame brings exactly its own responses, in order, whatever its notifications set off. -/
theorem answers_handleFrame (frame : String) (s : State) :
    answers (s.handleFrame State.disconnect frame).journal = answers s.journal ++ responses frame := by
  rw [State.handleFrame, responses]
  cases Payload.parse frame with
  | error e => exact answers_append s.journal [.note _]
  | ok payload => exact answers_handleMessages payload.values s

private theorem leads_watch {id : Int} {w : Watchdog} {s : State}
    (h : s.engine.watchdogs.get? id = some w) :
    if s.tokenCancelled ⟨w.token, none⟩ then Leads (.revoked id) s (s.watch id)
    else if w.deadline.getD (s.now + w.timeout) ≤ s.now then Leads (.lapsed id) s (s.watch id)
    else (s.watch id).journal = s.journal := by
  rw [State.watch]
  rw [h]
  simp only
  split
  · exact Leads.of_grows (s := s.endWatchdog id) (adds_cancel (C := fun _ => False) id _)
  · split
    · exact Leads.of_grows (s := s.endWatchdog id) (adds_expire (C := fun _ => False) id _ _)
    · split <;> rfl

/-- The journal tells at once what happens to requests, and nothing that does not happen. -/
structure CandidAboutRequests (timeout : Nat) (s : State) : Prop where
  /-- Issuing a request tells its own timeout or else that of the engine, its token, whether that had
  been cancelled, and whether its frame was taken. -/
  request : ∀ method params call, (s.request method params call).2.journal = s.journal ++
    .issued s.engine.nextId method (call.timeout.getD timeout) call.token ::
      if s.tokenCancelled call then
        [.withdrawn s.engine.nextId, .settled s.engine.nextId (.error (.cancelled method))]
      else match s.transport.state, s.transport.outbound with
        | .opened, some g =>
          [.offered (Request.new s.engine.nextId method (encodeParams params)).wire (some g)]
        | state, _ =>
          [.offered (Request.new s.engine.nextId method (encodeParams params)).wire none,
            .unsent s.engine.nextId (.transport ("cannot send while " ++ state.name)),
            .settled s.engine.nextId (.error (.transport ("cannot send while " ++ state.name)))]
  /-- A frame brings exactly its own responses. -/
  frame : ∀ frame, answers (s.handleFrame State.disconnect frame).journal =
    answers s.journal ++ responses frame
  /-- Whatever is owed its outcome is watched for its own timeout and its own token. -/
  owed : ∀ id terms, standing id s.journal = .owed terms → ∃ w,
    s.engine.watchdogs.get? id = some w ∧ w.timeout = terms.timeout ∧ w.token = terms.token
  watch : ∀ id w, s.engine.watchdogs.get? id = some w →
    if s.tokenCancelled ⟨w.token, none⟩ then Leads (.revoked id) s (s.watch id)
    else if w.deadline.getD (s.now + w.timeout) ≤ s.now then Leads (.lapsed id) s (s.watch id)
    else (s.watch id).journal = s.journal
  abandon : ∀ id, (s.abandon id).journal = s.journal ++ [.abandoned id]
  abort : ∀ reason, Leads (.gaveUp reason) s (s.abortPending reason).2
  dropEngine : Leads (.gaveUp "engine dropped before the request settled") s s.dropEngine
  /-- No move tells anything else of requests. -/
  move : ∀ m : Move, Adds (Tells m) s (m.apply s)

private theorem candid_of_sound {timeout : Nat} {s : State} (hs : Sound timeout s)
    (hw : ∀ id, Watched id s) : CandidAboutRequests timeout s where
  request method params call := by
    rw [← hs.default]
    exact request_journal method params call s
  frame frame := answers_handleFrame frame s
  owed id _ h := owed_watchdog hs (hw id) h
  watch _ _ h := leads_watch h
  abandon id := abandon_journal id s
  abort reason := .of_grows (adds_abort (C := fun _ => False) reason s)
  dropEngine := by
    unfold State.dropEngine
    simp only
    split <;> exact Leads.of_grows (adds_abort (C := fun _ => False) _ _)
  move m := m.adds s

/-- After every run, what an id has been given is what the first entry about it dictates, at most
once; what its caller can collect is the same. And the journal is candid, so that the first entry
about it is the first thing that happened to it. -/
theorem settlements_eq_verdict (layer : Layer) (options : Options) (timeout : Nat)
    (moves : List Move) :
    let s := (State.new layer options timeout).after moves
    (∀ id, settlements id s.journal = (verdict id s.journal).toList ∧
      s.journal.countP (Entry.issues id) ≤ 1 ∧
      (s.engine.outcomes.get? id = none ∨ s.engine.outcomes.get? id = verdict id s.journal)) ∧
    CandidAboutRequests timeout s := by
  intro s
  have hs : Sound timeout s := sound_after layer options timeout moves
  refine ⟨fun id => ?_, candid_of_sound hs (watched_after layer options timeout moves)⟩
  rw [verdict_eq_standing]
  have hset : settlements id s.journal = (account id s).settled := rfl
  have hiss : s.journal.countP (Entry.issues id) = (account id s).issues := rfl
  have hout : s.engine.outcomes.get? id = (account id s).outcome := rfl
  have hst : standing id s.journal = (account id s).standing := rfl
  rw [hset, hiss, hout, hst]
  obtain ⟨_, ha⟩ | ⟨_, _, _, _, _, ha⟩ | ⟨outcome, w, kept, _, hk, ha⟩ :=
    balanced_cases (hs.balanced id) <;> rw [ha]
  · exact ⟨rfl, Nat.zero_le 1, .inl rfl⟩
  · exact ⟨rfl, Nat.le_refl 1, .inl rfl⟩
  · refine ⟨rfl, Nat.le_refl 1, ?_⟩
    cases kept with
    | none => exact .inl rfl
    | some o => exact .inr (hk o rfl).symm

end LanguageClient.Client
