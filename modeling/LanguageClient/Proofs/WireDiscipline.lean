import LanguageClient.Proofs.RequestFrames
import LanguageClient.Proofs.Settlement
/-!
The frames that requests hand to the transport. The frames of requests carry ascending ids, each the id
of its own call. The peer is told of a cancellation at most once for each id, after the frame of the
request was taken, and exactly when the token of the request removes it from the table. Handlers and
users may send whatever is neither the frame of a request nor that of a cancellation.
-/
namespace LanguageClient.Client
open Relation Transport Rpc Json Session

section
variable {P : String → Prop} {s t : State}

private theorem grows_and {C D : Entry → Prop} (h : Grows C s t) (k : Grows D s t) :
    Grows (fun e => C e ∧ D e) s t := by
  obtain ⟨more, hj, hm⟩ := h
  obtain ⟨other, kj, km⟩ := k
  obtain rfl : more = other := List.append_cancel_left (hj.symm.trans kj)
  exact ⟨more, hj, fun e he => ⟨hm e he, km e he⟩⟩

private theorem offering_of_isPlain {e : Entry} (h : e.isPlain = true) : e.Offering P := by
  rintro frame taken rfl
  cases h

private theorem offering_send {frame : String} (h : P frame) (s : State) :
    Grows (Entry.Offering P) s (s.send frame).2 := by
  have hoffer (taken : Option Nat) : (Entry.offered frame taken).Offering P := by
    rintro _ _ ⟨⟩
    exact h
  obtain ⟨g, _, _, _, hs⟩ | ⟨_, hs⟩ := State.send_cases frame s <;> rw [hs]
  · exact ⟨_, rfl, List.forall_mem_singleton.mpr (hoffer (some g))⟩
  · exact ⟨_, rfl, List.forall_mem_singleton.mpr (hoffer none)⟩

private theorem offering_step (h : Step P s t) : Grows (Entry.Offering P) s t :=
  h.minor.journal.mono fun e he frame taken heq => by
    subst heq
    exact he

theorem offering_shifts {m : Move} (h : Shifts P (Reports m) s t) :
    Grows (Entry.Offering P) s t :=
  h.keeps (Q := Grows (Entry.Offering P) s) (fun _ _ h hs => hs.trans (offering_step h))
    (fun _ _ h hs => hs.trans (h.journal.mono fun e he => by
      rintro frame taken rfl
      cases he.isOfConnection)) (.refl s)

private theorem offering_filings (h : Filings P s t) : Grows (Entry.Offering P) s t := by
  refine h.keeps (Q := Grows (Entry.Offering P) s) (fun t u h hs => hs.trans ?_) (.refl s)
  cases h with
  | send frame t h => exact offering_send h t
  | note n t => exact grows_record (offering_of_isPlain rfl) t
  | session c t => exact .of_eq rfl
  | shutDown t => exact grows_record (e := .shutDown) nofun t

/-- The moves that issue a request, or let a watchdog look at its token. -/
def Move.concernsRequests : Move → Bool
  | .request .. | .feature .. | .watch _ => true
  | _ => false

private theorem owns_neutral {m : Move} (h : m.concernsRequests = false) : m.Owns Neutral := by
  cases m with
  | request method params options | feature f params token | watch id => cases h
  | initialized => exact neutral_notification (by decide) _
  | didSave uri text => exact fun params => neutral_notification (by decide) params
  | _ => trivial

private theorem files_neutral (m : Move) : m.Files Neutral := by
  cases m with
  | didOpen _ | openFile _ _ | didChange _ _ _ | didClose _ =>
    exact fun params => neutral_notification (by decide) params
  | completeShutdown _ => exact neutral_notification (by decide) none
  | _ => trivial

private theorem Move.offers {m : Move} (hr : m.concernsRequests = false) (hm : m.Sends Neutral)
    (hs : Heeds Neutral s) : Grows (Entry.Offering Neutral) s (m.apply s) := by
  by_cases hd : m.concernsDocuments = true
  · exact offering_filings (m.filings_of (files_neutral m) hd s)
  · exact offering_shifts (m.shifts_of (owns_neutral hr) (by simpa using hd) hm hs)

/-- No id is taken and no watchdog is started. -/
private def Unguarding (s t : State) : Prop :=
  t.engine.nextId = s.engine.nextId ∧
    ∀ n, s.engine.watchdogs.get? n = none → t.engine.watchdogs.get? n = none

private theorem Unguarding.trans {u : State} (h : Unguarding s t) (k : Unguarding t u) :
    Unguarding s u := ⟨k.1.trans h.1, fun n hn => k.2 n (h.2 n hn)⟩

private theorem unguarding_settle (n : Int) (f : Pending → Outcome Value) (s : State) :
    Unguarding s (s.settle n f) := by
  refine ⟨nextId_settle n s f, fun k hk => ?_⟩
  by_cases h : n = k
  · subst h
    cases hp : s.engine.pending.get? n with
    | none => rw [State.settle_absent hp, hk]
    | some entry =>
      have ha := congrArg Account.watchdog (account_settle_self hp f)
      refine ha.trans ?_
      split
      · rfl
      · exact hk
  · exact (congrArg Account.watchdog (account_settle_other h s f)).trans hk

private theorem unguarding_endWatchdog (n : Int) (s : State) : Unguarding s (s.endWatchdog n) := by
  refine ⟨rfl, fun k hk => ?_⟩
  rw [State.endWatchdog, State.modifyEngine, Keyed.get?_erase]
  split
  · rfl
  · exact hk

private theorem unguarding_expire (n : Int) (timeout : Nat) (s : State) :
    Unguarding s (s.expire n timeout) := unguarding_settle n _ (s.record (.lapsed n))

private theorem unguarding_cancel (n : Int) (s : State) : Unguarding s (s.cancel n) := by
  have hsettle := unguarding_settle n (fun p => .error (.cancelled p.method)) (s.record (.revoked n))
  have hsame := same_cancel n s
  refine hsettle.trans ⟨hsame.nextId, fun k hk => ?_⟩
  exact (congrArg Account.watchdog (hsame.accounts k)).trans hk

private theorem unguarding_abandon (n : Int) (s : State) : Unguarding s (s.abandon n) := by
  unfold State.abandon
  simp only
  split
  · exact ⟨rfl, fun _ h => h⟩
  · refine ⟨rfl, fun k hk => ?_⟩
    simp only [State.remove, State.modifyEngine, State.record]
    split
    · rw [Keyed.get?_erase]
      split
      · rfl
      · exact hk
    · exact hk

private theorem unguarding_watch (n : Int) (s : State) : Unguarding s (s.watch n) := by
  rw [State.watch]
  cases hw : s.engine.watchdogs.get? n with
  | none => exact ⟨rfl, fun _ h => h⟩
  | some w =>
    simp only
    split
    · exact (unguarding_endWatchdog n s).trans (unguarding_cancel n _)
    · split
      · exact (unguarding_endWatchdog n s).trans (unguarding_expire n _ _)
      · split
        · exact ⟨rfl, fun _ h => h⟩
        · refine ⟨rfl, fun k hk => ?_⟩
          change Keyed.get? (Keyed.put n _ s.engine.watchdogs) k = none
          rw [Keyed.get?_put, if_neg, hk]
          rintro rfl
          rw [hw] at hk
          cases hk

private theorem unguarding_deal {C : Entry → Prop} (hC : ∀ e, C e → e.isOfIssue = false)
    (h : Deal C s t) : Unguarding s t := by
  cases h with
  | still h => exact ⟨h.nextId, fun n hn => by rw [h.watchdogs]; exact hn⟩
  | request method params options s h => cases hC (.withdrawn 0) (h _ rfl)
  | resolve r s _ =>
    unfold State.resolve
    simp only
    split
    · exact unguarding_settle _ _ (s.record (.answered r))
    · exact ⟨rfl, fun _ h => h⟩
  | watch n s _ _ => exact unguarding_watch n s
  | lapse n s _ =>
    unfold State.lapse
    split
    · exact ⟨rfl, fun _ h => h⟩
    · split
      · exact (unguarding_endWatchdog n s).trans (unguarding_expire n _ _)
      · exact ⟨rfl, fun _ h => h⟩
  | abandon n s _ => exact unguarding_abandon n s
  | abort reason s _ =>
    have htold : Unguarding s (s.record (.gaveUp reason)) := ⟨rfl, fun _ h => h⟩
    exact State.abortPending_keeps (Q := Unguarding s) htold fun n t h =>
      h.trans (unguarding_settle n _ t)
  | collect n s =>
    unfold State.collect
    cases s.engine.outcomes.get? n with
    | none => exact ⟨rfl, fun _ h => h⟩
    | some outcome => exact ⟨rfl, fun _ h => h⟩

private theorem mute_of_isIdle {e : Entry} (ho : e.Offering Neutral) (hi : e.isIdle = true) :
    e.Mute := by
  refine ⟨ho, ?_, fun id => ?_, ?_⟩
  · rintro id rfl
    cases hi
  · cases e <;> first | rfl | cases hi
  · rintro id rfl
    cases hi

private theorem Tells.mute {m : Move} {e : Entry} (hr : m.concernsRequests = false)
    (h : Tells m e) : e.Mute ∧ e.isOfIssue = false := by
  cases h with
  | request | feature | revoked | lapsed => cases hr
  | hear | read | lapse | abandon | abort | dropEngine | handler =>
    exact ⟨⟨nofun, nofun, fun _ => rfl, nofun⟩, rfl⟩

/-- Nothing happens that matters to the frames of requests. -/
private structure Quiet (s t : State) : Prop where
  engine : Unguarding s t
  journal : Grows Entry.Mute s t

private theorem Move.quiet {m : Move} (hr : m.concernsRequests = false) (hm : m.Sends Neutral)
    (hs : Heeds Neutral s) : Quiet s (m.apply s) := by
  have hengine : Unguarding s (m.apply s) :=
    (m.deals s).keeps (Q := Unguarding s)
      (fun _ _ h hs => hs.trans (unguarding_deal (fun _ he => (Tells.mute hr he).2) h))
      ⟨rfl, fun _ h => h⟩
  refine ⟨hengine, (grows_and (m.offers hr hm hs) (m.adds s)).mono ?_⟩
  rintro e ⟨ho, hi | ⟨id, outcome, rfl⟩ | ht⟩
  · exact mute_of_isIdle ho hi
  · exact Entry.mute_settled id outcome
  · exact (Tells.mute hr ht).1

/-- What is registered stays as it is. -/
private def Registers (s t : State) : Prop :=
  t.transport.hub = s.transport.hub ∧ t.engine.topics = s.engine.topics

private theorem registers_settle (n : Int) (f : Pending → Outcome Value) (s : State) :
    Registers s (s.settle n f) := by
  obtain ⟨_, _, _, _, _, h⟩ := State.settle_eq n f s
  rw [h]
  exact ⟨rfl, rfl⟩

private theorem registers_send (frame : String) (s : State) : Registers s (s.send frame).2 :=
  ⟨State.send_hub frame s, by rw [State.send_engine]⟩

private theorem Registers.trans {u : State} (h : Registers s t) (k : Registers t u) :
    Registers s u := ⟨k.1.trans h.1, k.2.trans h.2⟩

private theorem registers_watch (n : Int) (s : State) : Registers s (s.watch n) := by
  rw [State.watch]
  split
  · exact ⟨rfl, rfl⟩
  · simp only
    split
    · unfold State.cancel
      simp only
      split
      · exact ⟨rfl, rfl⟩
      · rename_i entry _
        have hsend : Registers s ((((s.endWatchdog n).record (.revoked n)).remove n entry).notify
            State.cancelMethod (some (State.cancelParams n))).2 :=
          registers_send _ (((s.endWatchdog n).record (.revoked n)).remove n entry)
        obtain ⟨_, hc⟩ := State.conclude_eq n (.error (.cancelled entry.method))
          ((((s.endWatchdog n).record (.revoked n)).remove n entry).notify
            State.cancelMethod (some (State.cancelParams n))).2
        rw [hc]
        exact hsend
    · split
      · exact registers_settle n _ ((s.endWatchdog n).record (.lapsed n))
      · split <;> exact ⟨rfl, rfl⟩

/-- What has become of the engine when a request has taken its id. -/
private structure Requested (s t : State) : Prop where
  registers : Registers s t
  nextId : t.engine.nextId = s.engine.nextId + 1
  /-- A watchdog is started only for a request whose frame has been taken. -/
  watchdogs : ∀ n, t.engine.watchdogs.get? n ≠ none →
    s.engine.watchdogs.get? n ≠ none ∨ ∃ e ∈ t.journal, e.Sent n

private theorem Requested.settle (n : Int) (f : Pending → Outcome Value) {u : State}
    (hu : Registers s u) (hid : u.engine.nextId = s.engine.nextId + 1)
    (hw : u.engine.watchdogs = s.engine.watchdogs) : Requested s (u.settle n f) := by
  have hun := unguarding_settle n f u
  refine ⟨hu.trans (registers_settle n f u), hun.1.trans hid, fun k hk => .inl fun hs => hk ?_⟩
  exact hun.2 k (by rw [hw]; exact hs)

private theorem Requested.guard {u : State} {entry : Pending} (options : CallOptions)
    (hu : Registers s u) (hid : u.engine.nextId = s.engine.nextId + 1)
    (hw : u.engine.watchdogs = s.engine.watchdogs)
    (hp : u.engine.pending.get? s.engine.nextId = some entry)
    (hsent : ∃ e ∈ u.journal, e.Sent s.engine.nextId) :
    Requested s ((u.guard s.engine.nextId options).attach s.engine.nextId) := by
  have hub : ((u.guard s.engine.nextId options).attach s.engine.nextId).transport.hub =
      u.transport.hub := by
    simp only [State.attach, State.guard, State.modifyEngine, State.wake_transport]
  have hengine := guard_engine hp options
  refine ⟨hu.trans ⟨hub, by rw [hengine]⟩, by rw [hengine]; exact hid, fun n hn => ?_⟩
  rw [guard_journal]
  rw [hengine, Keyed.get?_put, hw] at hn
  split at hn
  · rename_i he
    exact .inr (he ▸ hsent)
  · exact .inl hn

private theorem requested_request (method : String) (params : Value) (options : CallOptions)
    (s : State) : Requested s (s.request method params options).2 := by
  have hid : (s.enter method options).1 = s.engine.nextId := rfl
  rw [State.request]
  simp only [hid]
  split
  · exact .settle (u := (s.enter method options).2.record (.withdrawn s.engine.nextId)) _ _
      ⟨rfl, rfl⟩ rfl rfl
  · unfold State.handOver
    obtain ⟨g, ready, _, _, h⟩ | ⟨_, h⟩ := State.send_cases
      (Request.new s.engine.nextId method (encodeParams params)).wire (s.enter method options).2
    · rw [h]
      exact .guard options ⟨rfl, rfl⟩ rfl rfl (Keyed.get?_put_self _ _ _)
        ⟨_, List.mem_append_right _ List.mem_cons_self, method, encodeParams params, g, rfl⟩
    · rw [h]
      exact .settle (u := ((s.enter method options).2.record _).record _) _ _ ⟨rfl, rfl⟩ rfl rfl

private theorem request_tells (method : String) (params : Value) (options : CallOptions) (s : State) :
    ∃ timeout after, (s.request method params options).2.journal = s.journal ++
        .issued s.engine.nextId method timeout options.token :: after ∧
      ((s.tokenCancelled options = true ∧ ∃ outcome,
          after = [.withdrawn s.engine.nextId, .settled s.engine.nextId outcome]) ∨
        s.tokenCancelled options = false ∧ ∃ taken rest,
          after = .offered (Request.new s.engine.nextId method (encodeParams params)).wire taken ::
            rest ∧ ∀ e ∈ rest, e.Mute) := by
  refine ⟨_, _, request_journal method params options s, ?_⟩
  split
  · rename_i ht
    exact .inl ⟨ht, _, rfl⟩
  · rename_i ht
    refine .inr ⟨by simpa using ht, ?_⟩
    split
    · exact ⟨_, [], rfl, List.forall_mem_nil _⟩
    · exact ⟨_, _, rfl, List.forall_mem_cons.mpr ⟨Entry.mute_unsent _ _,
        List.forall_mem_singleton.mpr (Entry.mute_settled _ _)⟩⟩

/-- The watchdog of a request that is pending sees that its token has been cancelled. -/
def Revocable (n : Int) (s : State) : Prop :=
  s.engine.pending.get? n ≠ none ∧ ∃ w, s.engine.watchdogs.get? n = some w ∧
    s.tokenCancelled ⟨w.token, none⟩ = true

private theorem send_offers (frame : String) (s : State) :
    ∃ taken, (s.send frame).2.journal = s.journal ++ [Entry.offered frame taken] := by
  obtain ⟨g, _, _, _, h⟩ | ⟨_, h⟩ := State.send_cases frame s
  · exact ⟨some g, by rw [h]⟩
  · exact ⟨none, by rw [h]; rfl⟩

private theorem cancel_revokes {n : Int} {entry : Pending}
    (hp : s.engine.pending.get? n = some entry) : ∃ taken, (s.cancel n).journal = s.journal ++
      [.revoked n, .offered (cancelFrame n) taken, .settled n (.error (.cancelled entry.method))] ∧
    (s.cancel n).engine.pending.get? n = none := by
  have hcancel : s.cancel n = (((s.record (.revoked n)).remove n entry).notify State.cancelMethod
      (some (State.cancelParams n))).2.conclude n (.error (.cancelled entry.method)) := by
    simp only [State.cancel, State.record, hp]
  obtain ⟨taken, hsend⟩ := send_offers (cancelFrame n) ((s.record (.revoked n)).remove n entry)
  obtain ⟨_, hc⟩ := State.conclude_eq n (.error (.cancelled entry.method))
    (((s.record (.revoked n)).remove n entry).send (cancelFrame n)).2
  refine ⟨taken, ?_, ?_⟩
  · rw [hcancel, State.notify, ← cancelFrame, hc, hsend]
    simp only [State.remove, State.modifyEngine, State.record, List.append_assoc, List.cons_append,
      List.nil_append]
  · rw [hcancel, State.notify, ← cancelFrame, hc, State.modifyEngine, State.send_engine]
    simp only [State.remove, State.modifyEngine, Keyed.get?_erase, if_true]

private theorem watch_revocable {n : Int} (h : Revocable n s) : ∃ method taken,
    (s.watch n).journal = s.journal ++
      [.revoked n, .offered (cancelFrame n) taken, .settled n (.error (.cancelled method))] ∧
    (s.watch n).engine.pending.get? n = none := by
  obtain ⟨hp, w, hw, ht⟩ := h
  obtain ⟨entry, hp⟩ := Option.ne_none_iff_exists'.mp hp
  rw [State.watch, hw]
  simp only [ht, if_true]
  obtain ⟨taken, h⟩ := cancel_revokes (s := s.endWatchdog n) hp
  exact ⟨entry.method, taken, h⟩

private theorem grows_settle (n : Int) (f : Pending → Outcome Value) (s : State) :
    Grows Entry.Mute s (s.settle n f) := by
  cases hp : s.engine.pending.get? n with
  | none =>
    rw [State.settle_absent hp]
    exact .refl s
  | some entry =>
    exact ⟨_, State.settle_journal hp f,
      List.forall_mem_singleton.mpr (Entry.mute_settled n (f entry))⟩

private theorem watch_not_revocable {n : Int} (h : ¬ Revocable n s) :
    (s.engine.pending.get? n = none ∧ s.engine.watchdogs.get? n ≠ none ∧
      (s.watch n).journal = s.journal ++ [.revoked n]) ∨
    Grows Entry.Mute s (s.watch n) := by
  rw [State.watch]
  cases hw : s.engine.watchdogs.get? n with
  | none => exact .inr (.refl s)
  | some w =>
    simp only
    split
    · rename_i ht
      have hp : s.engine.pending.get? n = none :=
        Classical.byContradiction fun hp => h ⟨hp, w, hw, ht⟩
      refine .inl ⟨hp, Option.some_ne_none w, ?_⟩
      have hq : (s.endWatchdog n).engine.pending.get? n = none := hp
      simp only [State.cancel, State.record, hq]
      rfl
    · split
      · exact .inr ((grows_record (Entry.mute_lapsed n) (s.endWatchdog n)).trans
          (grows_settle n _ _))
      · split
        · exact .inr (.refl s)
        · exact .inr (.of_eq rfl)

/-- The journal is orderly, it tells of a frame for every request but those whose token had been
cancelled before, and only requests that have been sent are watched. -/
private structure Disciplined (s : State) : Prop where
  orderly : Orderly s.engine.nextId s.journal
  framed : Framed s.engine.nextId s.journal
  watched : ∀ n, s.engine.watchdogs.get? n ≠ none → ∃ e ∈ s.journal, e.Sent n

private theorem Disciplined.still_watched {more : List Entry} (hs : Disciplined s)
    (h : Unguarding s t) (hj : t.journal = s.journal ++ more) (n : Int)
    (hn : t.engine.watchdogs.get? n ≠ none) : ∃ e ∈ t.journal, e.Sent n := by
  obtain ⟨e, he, hsent⟩ := hs.watched n fun hw => hn (h.2 n hw)
  exact ⟨e, hj ▸ List.mem_append_left more he, hsent⟩

private theorem Disciplined.quiet (hs : Disciplined s) (h : Quiet s t) : Disciplined t := by
  obtain ⟨more, hj, hm⟩ := h.journal
  refine ⟨?_, ?_, hs.still_watched h.engine hj⟩ <;> rw [h.engine.1, hj]
  · exact hs.orderly.mute hm
  · exact hs.framed.mute hm

private theorem Disciplined.request (hs : Disciplined s) (method : String) (params : Value)
    (options : CallOptions) : Disciplined (s.request method params options).2 := by
  have hr := requested_request method params options s
  obtain ⟨timeout, after, hj, hafter⟩ := request_tells method params options s
  refine ⟨?_, ?_, fun n hn => ?_⟩
  · rw [hr.nextId, hj]
    obtain ⟨_, outcome, rfl⟩ | ⟨_, taken, rest, rfl, hrest⟩ := hafter
    · exact hs.orderly.withdraw method timeout options.token outcome
    · exact hs.orderly.offer method timeout options.token (encodeParams params) taken hrest
  · rw [hr.nextId, hj]
    obtain ⟨_, outcome, rfl⟩ | ⟨_, taken, rest, rfl, hrest⟩ := hafter
    · exact hs.framed.withdraw method timeout options.token outcome
    · exact hs.framed.offer method timeout options.token (encodeParams params) taken hrest
  · rcases hr.watchdogs n hn with h | h
    · obtain ⟨e, he, hsent⟩ := hs.watched n h
      exact ⟨e, hj ▸ List.mem_append_left _ he, hsent⟩
    · exact h

private theorem Disciplined.watch {timeout : Nat} (hs : Disciplined s) (hb : Sound timeout s)
    (n : Int) : Disciplined (s.watch n) := by
  have hun := unguarding_watch n s
  by_cases h : Revocable n s
  · obtain ⟨hp, w, hw, _⟩ := id h
    obtain ⟨method, taken, hj, _⟩ := watch_revocable h
    have hsent := hs.watched n (by rw [hw]; exact Option.some_ne_none w)
    obtain ⟨terms, howed⟩ : ∃ terms, standing n s.journal = .owed terms := by
      obtain ⟨hnone, _⟩ | ⟨terms, _, _, _, _, ha⟩ | ⟨_, _, _, hnone, _, _⟩ :=
        balanced_cases (hb.balanced n)
      · exact absurd hnone hp
      · exact ⟨terms, congrArg Account.standing ha⟩
      · exact absurd hnone hp
    refine ⟨?_, ?_, hs.still_watched hun hj⟩ <;> rw [hun.1, hj]
    · exact hs.orderly.tell howed hsent taken _
    · exact hs.framed.tell n taken _
  · rcases watch_not_revocable h with ⟨hp, hw, hj⟩ | hm
    · have hdecided : ∃ d, decider n s.journal = some d := by
        obtain ⟨_, ha⟩ | ⟨_, _, _, hsome, _, _⟩ | ⟨_, _, _, _, _, ha⟩ :=
          balanced_cases (hb.balanced n)
        · exact absurd (congrArg Account.watchdog ha) hw
        · rw [hp] at hsome
          cases hsome
        · exact decider_of_ruled (congrArg Account.standing ha)
      refine ⟨?_, ?_, hs.still_watched hun hj⟩ <;> rw [hun.1, hj]
      · exact hs.orderly.late hdecided
      · exact hs.framed.late n
    · exact hs.quiet ⟨hun, hm⟩

private theorem quiet_warnIfNotReady (s : State) : Quiet s s.warnIfNotReady := by
  rw [State.warnIfNotReady]
  split
  · exact ⟨⟨rfl, fun _ h => h⟩, .refl s⟩
  · have hmute : (Entry.note ⟨.warn, "request sent before the initialized notification"⟩).Mute :=
      mute_of_isIdle (offering_of_isPlain rfl) rfl
    exact ⟨⟨rfl, fun _ h => h⟩, grows_record hmute (s.modifySession _)⟩

private theorem registers_warnIfNotReady (s : State) : Registers s s.warnIfNotReady := by
  rw [State.warnIfNotReady]
  split <;> exact ⟨rfl, rfl⟩

private theorem Disciplined.move {timeout : Nat} {m : Move} (hs : Disciplined s)
    (hb : Sound timeout s) (hh : Heeds Neutral s) (hm : m.Sends Neutral) :
    Disciplined (m.apply s) := by
  by_cases hr : m.concernsRequests = true
  · cases m with
    | request method params options => exact hs.request method params options
    | feature f params token =>
      exact (hs.quiet (quiet_warnIfNotReady s)).request f.method params ⟨token, none⟩
    | watch n => exact hs.watch hb n
    | _ => cases hr
  · exact hs.quiet (m.quiet (by simpa using hr) hm hh)

private theorem heeds_move {m : Move} (hh : Heeds Neutral s) (hm : m.Sends Neutral) :
    Heeds Neutral (m.apply s) := by
  by_cases hr : m.concernsRequests = true
  · have hregisters : Registers s (m.apply s) := by
      cases m with
      | request method params options => exact (requested_request method params options s).registers
      | feature f params token =>
        exact (registers_warnIfNotReady s).trans
          (requested_request f.method params ⟨token, none⟩ s.warnIfNotReady).registers
      | watch n => exact registers_watch n s
      | _ => cases hr
    exact hh.of_eq hregisters.1 hregisters.2
  · exact hh.move_of (owns_neutral (by simpa using hr)) hm

private theorem cancels_request (n : Int) (method : String) (params : Value) (options : CallOptions)
    (s : State) :
    Grows (fun e => e.cancels n = false) s (s.request method params options).2 := by
  obtain ⟨timeout, after, hj, hafter⟩ := request_tells method params options s
  refine ⟨_, hj, List.forall_mem_cons.mpr ⟨rfl, ?_⟩⟩
  obtain ⟨_, outcome, rfl⟩ | ⟨_, taken, rest, rfl, hrest⟩ := hafter
  · exact List.forall_mem_cons.mpr ⟨rfl, List.forall_mem_singleton.mpr rfl⟩
  · have hne := (cancelFrame_ne_request n s.engine.nextId method (encodeParams params)).symm
    exact List.forall_mem_cons.mpr ⟨beq_false_of_ne hne, fun e he => (hrest e he).not_cancels n⟩

private theorem cancels_watch {n k : Int} (h : ¬ (k = n ∧ Revocable n s)) :
    Grows (fun e => e.cancels n = false) s (s.watch k) := by
  by_cases hk : Revocable k s
  · obtain ⟨method, taken, hj, _⟩ := watch_revocable hk
    have hne : cancelFrame k ≠ cancelFrame n := fun he => by
      obtain rfl := cancelFrame_inj he
      exact h ⟨rfl, hk⟩
    exact ⟨_, hj, List.forall_mem_cons.mpr ⟨rfl, List.forall_mem_cons.mpr ⟨beq_false_of_ne hne,
      List.forall_mem_singleton.mpr rfl⟩⟩⟩
  · rcases watch_not_revocable hk with ⟨_, _, hj⟩ | hm
    · exact ⟨_, hj, List.forall_mem_singleton.mpr rfl⟩
    · exact hm.mono fun e he => he.not_cancels n

private theorem Move.cancels {m : Move} {n : Int} (hm : m.Sends Neutral) (hh : Heeds Neutral s)
    (h : ¬ (m = .watch n ∧ Revocable n s)) :
    Grows (fun e => e.cancels n = false) s (m.apply s) := by
  by_cases hr : m.concernsRequests = true
  · cases m with
    | request method params options => exact cancels_request n method params options s
    | feature f params token =>
      exact ((quiet_warnIfNotReady s).journal.mono fun e he => he.not_cancels n).trans
        (cancels_request n f.method params ⟨token, none⟩ s.warnIfNotReady)
    | watch k => exact cancels_watch fun hk => h ⟨congrArg Move.watch hk.1, hk.2⟩
    | _ => cases hr
  · exact (m.quiet (by simpa using hr) hm hh).journal.mono fun e he => he.not_cancels n

def handedOver (journal : List Entry) : List String :=
  journal.filterMap fun e =>
    match e with
    | .offered frame _ => some frame
    | _ => none

/-- What holds of the frames of a client, and goes on to hold. -/
structure WireDiscipline (s : State) : Prop where
  /-- The frames of requests carry ascending ids. -/
  ascending : s.journal.Pairwise fun d e => ∀ n k, d.Requests n → e.Requests k → n < k
  /-- Every request takes an id, which its caller is told. Its frame carries that id; if its token has
  been cancelled already, nothing is handed over at all. -/
  request : ∀ method params call, let r := s.request method params call
    r.1 = s.engine.nextId ∧ r.2.engine.nextId = s.engine.nextId + 1 ∧
      handedOver r.2.journal = handedOver s.journal ++
        if s.tokenCancelled call then [] else
          [(Request.new s.engine.nextId method (encodeParams params)).wire]
  /-- A notification takes no id and leaves the table alone. -/
  notify : ∀ method params, (s.notify method params).2.engine = s.engine
  /-- The requests that have a frame are those that have been issued and not withdrawn. -/
  framed : ∀ n, (∃ e ∈ s.journal, e.Requests n) ↔
    (∃ e ∈ s.journal, e.issues n = true) ∧ .withdrawn n ∉ s.journal
  once : ∀ n, s.journal.countP (Entry.cancels n) ≤ 1
  /-- The peer is told of a cancellation if that was the first thing to happen to the request. -/
  told : ∀ n, (∃ e ∈ s.journal, e.cancels n = true) ↔ decider n s.journal = some (.revoked n)
  after : ∀ n before e, before ++ [e] <+: s.journal → e.cancels n = true → ∃ d ∈ before, d.Sent n
  /-- A watchdog that sees the token of its pending request, which has been sent, takes the request out
  of the table and tells the peer. -/
  revoke : ∀ n, Revocable n s → (∃ e ∈ s.journal, e.Sent n) ∧
    (s.watch n).engine.pending.get? n = none ∧ ∃ method taken, (s.watch n).journal = s.journal ++
      [.revoked n, .offered (cancelFrame n) taken, .settled n (.error (.cancelled method))]
  /-- Nothing else makes it tell the peer, whatever else ends the request. -/
  silent : ∀ m : Move, m.Sends Neutral → ∀ n, ¬ (m = .watch n ∧ Revocable n s) →
    Grows (fun e => e.cancels n = false) s (m.apply s)

private theorem request_id (method : String) (params : Value) (call : CallOptions) (s : State) :
    (s.request method params call).1 = s.engine.nextId := by
  rw [State.request]
  simp only
  split
  · rfl
  · split <;> rfl

private theorem handedOver_request (method : String) (params : Value) (call : CallOptions)
    (s : State) : handedOver (s.request method params call).2.journal = handedOver s.journal ++
      if s.tokenCancelled call then [] else
        [(Request.new s.engine.nextId method (encodeParams params)).wire] := by
  rw [request_journal, handedOver, List.filterMap_append, ← handedOver]
  refine congrArg (handedOver s.journal ++ ·) ?_
  split
  · rfl
  · split <;> rfl

private theorem wireDiscipline_of_disciplined (hs : Disciplined s) (hh : Heeds Neutral s) :
    WireDiscipline s where
  ascending := hs.orderly.ascending
  request method params call := ⟨request_id method params call s,
    (requested_request method params call s).nextId, handedOver_request method params call s⟩
  notify method params := State.send_engine _ s
  framed := hs.framed.frames
  once n := by rcases hs.orderly.tally n with ⟨_, hc⟩ | ⟨_, hc⟩ <;> omega
  told n := by
    have hpos := List.countP_pos_iff (p := Entry.cancels n) (l := s.journal)
    rcases hs.orderly.tally n with ⟨hd, hc⟩ | ⟨hd, hc⟩
    · exact iff_of_true (hpos.mp (by omega)) hd
    · refine iff_of_false (fun he => ?_) hd
      have := hpos.mpr he
      omega
  after := hs.orderly.after
  revoke n h := by
    obtain ⟨_, w, hw, _⟩ := id h
    obtain ⟨method, taken, hj, hp⟩ := watch_revocable h
    exact ⟨hs.watched n (by rw [hw]; exact Option.some_ne_none w), hp, method, taken, hj⟩
  silent m hm n h := m.cancels hm hh h

private theorem disciplined_new (layer : Layer) (options : Options) (timeout : Nat) :
    Disciplined (State.new layer options timeout) := by
  have hnil : Orderly 1 [] := ⟨.nil, List.forall_mem_nil _, fun n => .inr ⟨nofun, rfl⟩,
    fun n before e hp => by simp at hp⟩
  have hframed : Framed 1 [] := ⟨fun n => by simp, List.forall_mem_nil _, nofun⟩
  cases layer <;> exact ⟨hnil, hframed, fun n hn => absurd rfl hn⟩

end

/-- Whatever happens in a run, the frames of requests are disciplined, as long as users and handlers
send neither frames of requests nor those of cancellations of their own. -/
theorem request_frames_disciplined (layer : Layer) (options : Options) (timeout : Nat)
    (moves : List Move) (h : ∀ m ∈ moves, m.Sends Neutral) :
    WireDiscipline ((State.new layer options timeout).after moves) := by
  have hrun := State.after_keeps_of
    (Q := fun s => Sound timeout s ∧ Heeds Neutral s ∧ Disciplined s)
    (fun m s hm hs => ⟨(m.deals s).keeps (fun _ _ h => Sound.deal h) hs.1, heeds_move hs.2.1 hm,
      hs.2.2.move hs.1 hs.2.1 hm⟩)
    ⟨sound_new layer options timeout, heeds_new layer options timeout,
      disciplined_new layer options timeout⟩ h
  exact wireDiscipline_of_disciplined hrun.2.2 hrun.2.1

/-- A request is sent, its token is cancelled, and its watchdog sees that. -/
def cancelling : List Move :=
  [.connect, .found 1 0, .notify "textDocument/didSave" none,
    .request "textDocument/hover" .null ⟨some "hover", none⟩, .cancelToken "hover", .watch 1]

private theorem cancelling_neutral : ∀ m ∈ cancelling, m.Sends Neutral := by
  have hsave : Neutral (Notification.new "textDocument/didSave" none).wire :=
    neutral_notification (by decide) none
  simp [cancelling, Move.Sends, hsave]

theorem request_frames_disciplined_cancelling :
    (∀ m ∈ cancelling, m.Sends Neutral) ∧
    ∃ e ∈ ((State.new .engine .standard 30000).after cancelling).journal, e.cancels 1 = true :=
  ⟨cancelling_neutral,
    ((request_frames_disciplined .engine .standard 30000 cancelling cancelling_neutral).told 1).mpr
      (by with_unfolding_all rfl)⟩

end LanguageClient.Client
