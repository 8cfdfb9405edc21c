import LanguageClient.Proofs.Watchdogs
import Mathlib.Data.List.Nodup
/-!
The accounts of requests whose calls run side by side. Between any two steps of a call anything else may
go on; the accounts are in balance all the same, a call that is under way is owed its outcome on the
terms that it was made on, and the table lists each request once.
-/
namespace LanguageClient

namespace Keyed
variable {κ : Type u} {α : Type v} [DecidableEq κ]

theorem keys_put (k : κ) (a : α) (m : Keyed κ α) :
    keys (put k a m) = if k ∈ keys m then keys m else keys m ++ [k] := by
  induction m with
  | nil => rfl
  | cons e m ih =>
    unfold keys at ih ⊢
    rw [put, List.map_cons]
    by_cases h : e.1 = k
    · simp [h]
    · have hne : k ≠ e.1 := Ne.symm h
      simp only [if_neg h, List.map_cons, ih, List.mem_cons, hne, false_or]
      split <;> rfl

theorem nodup_keys_put {m : Keyed κ α} (h : (keys m).Nodup) (k : κ) (a : α) :
    (keys (put k a m)).Nodup := by
  rw [keys_put]
  split
  · exact h
  · rename_i hk
    exact List.nodup_append.mpr ⟨h, List.nodup_singleton k, fun x hx y hy hxy =>
      hk (List.mem_singleton.mp hy ▸ hxy ▸ hx)⟩

theorem nodup_keys_erase {m : Keyed κ α} (h : (keys m).Nodup) (k : κ) :
    (keys (erase k m)).Nodup :=
  List.Nodup.sublist (List.filter_sublist.map Prod.fst) h

theorem keys_modify (k : κ) (f : α → α) (m : Keyed κ α) : keys (modify k f m) = keys m := by
  rw [keys, modify, List.map_map]
  refine List.map_congr_left fun e _ => ?_
  simp only [Function.comp]
  split <;> rfl

theorem eq_nil_of_get? {m : Keyed κ α} (h : ∀ k, get? m k = none) : m = [] := by
  cases m with
  | nil => rfl
  | cons e m =>
    have he := h e.1
    rw [get?_cons, if_pos rfl] at he
    cases he

theorem get?_ne_none_of_mem {m : Keyed κ α} {k : κ} (h : k ∈ keys m) : get? m k ≠ none := by
  intro hnone
  obtain ⟨e, he, rfl⟩ := List.mem_map.mp h
  have hall := List.find?_eq_none.mp (Option.map_eq_none_iff.mp hnone) e he
  simp at hall

end Keyed

namespace Client
open Relation Transport Rpc Json Session

variable {timeout : Nat} {s t : State} {c : Callers} {id n : Int}

theorem standing_more_of_unissued {journal : List Entry} (h : standing id journal = .unissued)
    (more : List Entry) : standing id (journal ++ more) = standing id more := by
  unfold standing at h ⊢
  rw [sinceIssue?_append]
  cases hs : sinceIssue? id journal with
  | none => rfl
  | some issue =>
    rw [hs] at h
    obtain ⟨terms, rest⟩ := issue
    simp only at h
    split at h <;> cases h

theorem standing_more_of_ruled {journal : List Entry} {outcome : Option (Outcome Value)}
    (h : standing id journal = .ruled outcome) (more : List Entry) :
    standing id (journal ++ more) = .ruled outcome := by
  unfold standing at h ⊢
  rw [sinceIssue?_append]
  cases hs : sinceIssue? id journal with
  | none =>
    rw [hs] at h
    cases h
  | some issue =>
    rw [hs] at h
    obtain ⟨terms, rest⟩ := issue
    simp only at h ⊢
    rw [List.findSome?_append]
    cases hf : rest.findSome? (ruling? id terms) with
    | none =>
      rw [hf] at h
      cases h
    | some ruling =>
      rw [hf] at h
      exact h

theorem owed_before {journal more : List Entry} {terms : Terms}
    (hissued : standing id journal ≠ .unissued)
    (h : standing id (journal ++ more) = .owed terms) : standing id journal = .owed terms := by
  cases hst : standing id journal with
  | unissued => exact absurd hst hissued
  | ruled outcome =>
    rw [standing_more_of_ruled hst] at h
    cases h
  | owed before =>
    unfold standing at hst h
    rw [sinceIssue?_append] at h
    cases hs : sinceIssue? id journal with
    | none =>
      rw [hs] at hst
      cases hst
    | some issue =>
      obtain ⟨agreed, rest⟩ := issue
      rw [hs] at hst h
      simp only at hst h
      split at hst
      · split at h <;> cases h
        exact hst.symm
      · cases hst

theorem issued_more {journal more : List Entry} (hissued : standing id journal ≠ .unissued) :
    standing id (journal ++ more) ≠ .unissued := by
  unfold standing at hissued ⊢
  rw [sinceIssue?_append]
  cases hs : sinceIssue? id journal with
  | none => rw [hs] at hissued; exact absurd rfl hissued
  | some issue =>
    obtain ⟨terms, rest⟩ := issue
    simp only
    split <;> exact Standing.noConfusion

/-- The accounts are in balance, and a call that has not returned is owed its outcome, if at all, on
the terms that it was made on. -/
structure Fair (timeout : Nat) (c : Callers) : Prop where
  sound : Sound timeout c.client
  issued : ∀ id call, c.calls.get? id = some call → standing id c.client.journal ≠ .unissued
  terms : ∀ id call terms, c.calls.get? id = some call →
    standing id c.client.journal = .owed terms →
      terms = ⟨call.method, call.options.timeout.getD timeout, call.options.token⟩

private theorem Fair.leave (hc : Fair timeout c) (hs : Sound timeout s)
    (hothers : ∀ id, n ≠ id → account id s = account id c.client) : Fair timeout (c.leave n s) := by
  have hcall {id : Int} {call : Call} (h : (c.leave n s).calls.get? id = some call) :
      c.calls.get? id = some call ∧ standing id s.journal = standing id c.client.journal := by
    rw [Callers.calls_leave] at h
    split at h
    · cases h
    · rename_i hne
      exact ⟨h, congrArg Account.standing (hothers id hne)⟩
  refine ⟨hs, fun id call h => ?_, fun id call terms h hst => ?_⟩
  · obtain ⟨hbefore, hst⟩ := hcall h
    exact hst ▸ hc.issued id call hbefore
  · obtain ⟨hbefore, hsame⟩ := hcall h
    exact hc.terms id call terms hbefore (hsame ▸ hst)

private theorem Fair.advance {call : Call} (hc : Fair timeout c) (hcall : c.calls.get? n = some call)
    (progress : Progress) (hs : Sound timeout s)
    (hst : ∀ id, standing id s.journal = standing id c.client.journal) :
    Fair timeout (c.advance n call progress s) := by
  have hbefore {id : Int} {other : Call}
      (h : (c.advance n call progress s).calls.get? id = some other) :
      ∃ before, c.calls.get? id = some before ∧ other.method = before.method ∧
        other.options = before.options := by
    rw [Callers.calls_advance] at h
    split at h
    · rename_i hid
      cases h
      exact ⟨call, hid ▸ hcall, rfl, rfl⟩
    · exact ⟨other, h, rfl, rfl⟩
  refine ⟨hs, fun id other h => ?_, fun id other terms h howed => ?_⟩
  · obtain ⟨before, hb, _⟩ := hbefore h
    exact fun hnone => hc.issued id before hb ((hst id).symm.trans hnone)
  · obtain ⟨before, hb, hmethod, hoptions⟩ := hbefore h
    rw [hmethod, hoptions]
    exact hc.terms id before terms hb ((hst id).symm.trans howed)

private theorem Fair.enter (hc : Fair timeout c) (method : String) (params : Value)
    (options : CallOptions) : Fair timeout (c.enter method params options) := by
  have haccount := account_enter hc.sound method options
  have hstanding (id : Int) : standing id (c.client.enter method options).2.journal =
      if c.client.engine.nextId = id then
        .owed ⟨method, c.client.effectiveTimeout options, options.token⟩
      else standing id c.client.journal := by
    refine (congrArg Account.standing (haccount id)).trans ?_
    split <;> rfl
  have htimeout : c.client.effectiveTimeout options = options.timeout.getD timeout :=
    congrArg options.timeout.getD hc.sound.default
  refine ⟨hc.sound.enter method options, fun id call h => ?_, fun id call terms h howed => ?_⟩
  · change standing id (c.client.enter method options).2.journal ≠ .unissued
    rw [Callers.calls_enter] at h
    rw [hstanding]
    split at h
    · rename_i hid
      rw [if_pos hid]
      exact Standing.noConfusion
    · rename_i hid
      rw [if_neg hid]
      exact hc.issued id call h
  · change standing id (c.client.enter method options).2.journal = .owed terms at howed
    rw [Callers.calls_enter] at h
    rw [hstanding] at howed
    split at h
    · rename_i hid
      rw [if_pos hid, htimeout] at howed
      cases h
      cases howed
      rfl
    · rename_i hid
      rw [if_neg hid] at howed
      exact hc.terms id call terms h howed

private theorem Sound.start (hs : Sound timeout s) {options : CallOptions}
    (hissued : standing n s.journal ≠ .unissued)
    (hterms : ∀ terms, standing n s.journal = .owed terms →
      terms.timeout = options.timeout.getD timeout ∧ terms.token = options.token) :
    Sound timeout (s.guard n options) := by
  have hjournal : (s.guard n options).journal = s.journal := State.wake_journal _ _
  have hengine : (s.guard n options).engine = { s.engine with
      watchdogs := s.engine.watchdogs.put n
        ⟨options.timeout.getD timeout, options.token, none⟩ } := by
    rw [State.guard, State.wake_engine, State.effectiveTimeout, hs.default]
    rfl
  refine ⟨fun id => ?_, fun id hid => ?_, ?_⟩
  · have ha : account id (s.guard n options) = { account id s with
        watchdog := if n = id then some ⟨options.timeout.getD timeout, options.token, none⟩
          else (account id s).watchdog } := by
      simp only [account, hjournal, hengine, Keyed.get?_put]
    rw [ha]
    split
    · rename_i h
      subst h
      obtain ⟨_, he⟩ | ⟨terms, guarded, w, _, _, he⟩ | ⟨outcome, w, kept, _, hk, he⟩ :=
        balanced_cases (hs.balanced n)
      · exact absurd (congrArg Account.standing he) hissued
      · obtain ⟨htime, htoken⟩ := hterms terms (congrArg Account.standing he)
        rw [he]
        refine .owed terms guarded _ fun d hd => ?_
        cases hd
        exact ⟨htime.symm, htoken.symm⟩
      · rw [he]
        exact .ruled outcome _ kept hk
    · exact hs.balanced id
  · rw [hengine] at hid
    rw [hjournal]
    exact hs.fresh id hid
  · rw [hengine]
    exact hs.default

private theorem account_attach_other (h : n ≠ id) (s : State) :
    account id (s.attach n) = account id s := by
  simp only [account, State.attach, State.modifyEngine]
  split
  · simp only [Keyed.get?_modify, if_neg h]
  · simp only [Keyed.get?_erase, if_neg h]

private theorem account_attach_absent (h : s.engine.pending.get? n = none) :
    account n (s.attach n) = { account n s with watchdog := none } := by
  simp only [account, State.attach, State.modifyEngine, Keyed.contains, h, Option.isSome_none,
    Bool.false_eq_true, if_false, Keyed.get?_erase, if_true]

private theorem Sound.attach (hs : Sound timeout s) (n : Int) : Sound timeout (s.attach n) := by
  have hnext : (s.attach n).engine.nextId = s.engine.nextId ∧
      (s.attach n).engine.requestTimeout = s.engine.requestTimeout := by
    simp only [State.attach, State.modifyEngine]
    split <;> exact ⟨rfl, rfl⟩
  refine ⟨fun id => ?_, fun id hid => hs.fresh id (hnext.1 ▸ hid), hnext.2.trans hs.default⟩
  by_cases h : n = id
  · subst h
    obtain ⟨hp, he⟩ | ⟨terms, guarded, w, hp, hd, he⟩ | ⟨outcome, w, kept, hp, hk, he⟩ :=
      balanced_cases (hs.balanced n)
    · rw [account_attach_absent hp, he]
      exact .unissued
    · have ha : account n (s.attach n) =
          { account n s with pending := some ⟨terms.method, true⟩ } := by
        simp only [account, State.attach, State.modifyEngine, Keyed.contains, hp, Option.isSome_some,
          if_true, Keyed.get?_modify, Option.map_some]
      rw [ha, he]
      exact .owed terms true w hd
    · rw [account_attach_absent hp, he]
      exact .ruled outcome none kept hk
  · rw [account_attach_other h]
    exact hs.balanced id

private theorem silent_other {e : Entry} (h : n ≠ id)
    (he : e = .withdrawn n ∨ ∃ cause, e = .unsent n cause) : e.Silent id := by
  obtain rfl | ⟨cause, rfl⟩ := he <;> exact silent_of_ruling rfl rfl fun _ => if_neg h

private theorem Fair.proceed (hc : Fair timeout c) (n : Int) : Fair timeout (c.proceed n) := by
  cases hcall : c.calls.get? n with
  | none =>
    rw [Callers.proceed_absent hcall]
    exact hc
  | some call =>
    rw [Callers.proceed_present hcall]
    have hterms := fun terms => hc.terms n call terms hcall
    cases hprogress : call.progress with
    | entered =>
      simp only
      split
      · refine hc.leave (hc.sound.rule (fun id h => silent_other h (.inl rfl)) rfl rfl fun _ _ _ =>
          if_pos rfl) fun id h => ?_
        rw [account_settle_other h]
        exact account_record (silent_other h (.inl rfl)) c.client
      · exact hc.advance hcall .admitted hc.sound fun _ => rfl
    | admitted =>
      obtain ⟨t, ht, h | ⟨e, h⟩⟩ := State.handOver_cases n call.method call.params c.client
      · have hsent : Same c.client t := ht ▸ (still_send _ _).same
        rw [h]
        exact hc.advance hcall .handedOver (hc.sound.of_same hsent) fun id =>
          congrArg Account.standing (hsent.accounts id)
      · have hsent : Same c.client t := ht ▸ (still_send _ _).same
        rw [h]
        refine hc.leave ((hc.sound.of_same hsent).rule (fun id h => silent_other h (.inr ⟨e, rfl⟩)) rfl
          rfl fun _ _ _ => if_pos rfl) fun id h => ?_
        rw [account_settle_other h, account_record (silent_other h (.inr ⟨e, rfl⟩)) t]
        exact hsent.accounts id
    | handedOver =>
      refine hc.advance hcall .guarded (hc.sound.start (hc.issued n call hcall) fun terms h => ?_)
        fun id => congrArg (standing id) (State.wake_journal _ _)
      rw [hterms terms h]
      exact ⟨rfl, rfl⟩
    | guarded => exact hc.leave (hc.sound.attach n) fun id h => account_attach_other h c.client

theorem Fair.of_grows {C : Entry → Prop} (hc : Fair timeout c) (hs : Sound timeout s)
    (h : Grows C c.client s) : Fair timeout ⟨s, c.calls⟩ := by
  obtain ⟨more, hj, -⟩ := h
  refine ⟨hs, fun id call hcall => ?_, fun id call terms hcall howed => ?_⟩
  · rw [hj]
    exact issued_more (hc.issued id call hcall)
  · rw [hj] at howed
    exact hc.terms id call terms hcall (owed_before (hc.issued id call hcall) howed)

theorem Fair.turn (t : Turn) (hc : Fair timeout c) : Fair timeout (t.apply c) := by
  cases t with
  | enter method params options => exact hc.enter method params options
  | proceed id => exact hc.proceed id
  | move m =>
    exact hc.of_grows ((m.deals c.client).keeps (fun _ _ h => Sound.deal h) hc.sound)
      (m.adds c.client)

/-- What every turn keeps holds after every run of callers. -/
theorem Callers.after_keeps {Q : Callers → Prop} (step : ∀ t c, Q c → Q (Turn.apply t c))
    {c : Callers} (hc : Q c) (turns : List Turn) : Q (c.after turns) := by
  induction turns generalizing c with
  | nil => exact hc
  | cons t turns ih => exact ih (step t c hc)

theorem Fair.after (hc : Fair timeout c) (turns : List Turn) : Fair timeout (c.after turns) :=
  Callers.after_keeps (fun t _ hc => hc.turn t) hc turns

/-- The accounts are in balance however calls run side by side. -/
theorem fair_after (layer : Layer) (options : Options) (timeout : Nat) (turns : List Turn) :
    Fair timeout ((Callers.new layer options timeout).after turns) := by
  have hnew : Fair timeout (Callers.new layer options timeout) :=
    ⟨sound_new layer options timeout, nofun, nofun⟩
  exact hnew.after turns

/-- No request is listed twice in the table. -/
def Listed (s : State) : Prop := s.engine.pending.keys.Nodup

theorem Listed.of_eq (hs : Listed s) (h : t.engine.pending = s.engine.pending) : Listed t := by
  rw [Listed, h]
  exact hs

private theorem Listed.of_erase (hs : Listed s)
    (h : t.engine.pending = Keyed.erase n s.engine.pending) : Listed t := by
  rw [Listed, h]
  exact Keyed.nodup_keys_erase hs n

private theorem settle_pending (n : Int) (f : Pending → Outcome Value) (s : State) :
    (s.settle n f).engine.pending = Keyed.erase n s.engine.pending := by
  cases hp : s.engine.pending.get? n with
  | none => rw [State.settle_absent hp, Keyed.erase_of_get?_none hp]
  | some entry =>
    obtain ⟨_, hc⟩ := State.conclude_eq n (f entry) (s.remove n entry)
    rw [State.settle_present hp, hc]
    rfl

private theorem cancel_pending (n : Int) (s : State) :
    (s.cancel n).engine.pending = Keyed.erase n s.engine.pending := by
  unfold State.cancel
  simp only [State.record]
  split
  · rename_i hp
    exact (Keyed.erase_of_get?_none hp).symm
  · rename_i entry _
    obtain ⟨_, hc⟩ := State.conclude_eq n (.error (.cancelled entry.method))
      (((s.record (.revoked n)).remove n entry).notify State.cancelMethod
        (some (State.cancelParams n))).2
    refine (congrArg (fun s => s.engine.pending) hc).trans ?_
    exact congrArg Engine.pending (State.send_engine _ ((s.record (.revoked n)).remove n entry))

private theorem abandon_pending (n : Int) (s : State) :
    (s.abandon n).engine.pending = Keyed.erase n s.engine.pending := by
  unfold State.abandon
  simp only
  split
  · rename_i hp
    exact (Keyed.erase_of_get?_none hp).symm
  · rfl

private theorem Listed.settle (hs : Listed s) (n : Int) (f : Pending → Outcome Value) :
    Listed (s.settle n f) := hs.of_erase (settle_pending n f s)

private theorem Listed.watch (hs : Listed s) (n : Int) : Listed (s.watch n) := by
  rw [State.watch]
  split
  · exact hs
  · simp only
    split
    · exact hs.of_erase (cancel_pending n (s.endWatchdog n))
    · split
      · exact Listed.settle (s := (s.endWatchdog n).record _) hs n _
      · split <;> exact hs

private theorem Listed.lapse (hs : Listed s) (n : Int) : Listed (s.lapse n) := by
  rw [State.lapse]
  split
  · exact hs
  · split
    · exact Listed.settle (s := (s.endWatchdog n).record _) hs n _
    · exact hs

private theorem Listed.proceed (hc : Listed c.client) (n : Int) : Listed (c.proceed n).client := by
  cases hcall : c.calls.get? n with
  | none =>
    rw [Callers.proceed_absent hcall]
    exact hc
  | some call =>
    rw [Callers.proceed_present hcall]
    cases call.progress with
    | entered =>
      simp only
      split
      · exact Listed.settle (s := c.client.record _) hc n _
      · exact hc
    | admitted =>
      obtain ⟨t, ht, h | ⟨e, h⟩⟩ := State.handOver_cases n call.method call.params c.client
      · rw [h]
        exact hc.of_eq (ht ▸ (still_send _ _).pending)
      · rw [h]
        exact Listed.settle (s := t.record _) (hc.of_eq (ht ▸ (still_send _ _).pending)) n _
    | handedOver =>
      have hguard : (c.client.guard n call.options).engine.pending = c.client.engine.pending := by
        rw [State.guard, State.wake_engine]
        rfl
      exact hc.of_eq hguard
    | guarded =>
      change Listed (c.client.attach n)
      simp only [Listed, State.attach, State.modifyEngine]
      split
      · rw [Keyed.keys_modify]
        exact hc
      · exact hc

private theorem Listed.enter (hc : Listed c.client) (method : String) (params : Value)
    (options : CallOptions) : Listed (c.enter method params options).client :=
  Keyed.nodup_keys_put hc _ _

private theorem Listed.deal {C : Entry → Prop} (h : Deal C s t) (hs : Listed s) : Listed t := by
  cases h with
  | still h => exact hs.of_eq h.pending
  | request method params options s _ =>
    -- the steps of a call, one after the other
    obtain ⟨hclient, -, -⟩ := Callers.request_eq method params options ⟨s, []⟩
    rw [← hclient]
    exact ((((Listed.enter (c := ⟨s, []⟩) hs method params options).proceed _).proceed _).proceed
      _).proceed _
  | resolve r s _ =>
    unfold State.resolve
    simp only
    split
    · exact Listed.settle (s := s.record _) hs _ _
    · exact hs
  | watch n s _ _ => exact hs.watch n
  | lapse n s _ => exact hs.lapse n
  | abandon n s _ => exact hs.of_erase (abandon_pending n s)
  | abort reason s _ =>
    exact State.abortPending_keeps (Q := Listed) hs fun n _ h => h.settle n _
  | collect n s =>
    unfold State.collect
    cases s.engine.outcomes.get? n <;> exact hs

theorem listed_after (layer : Layer) (options : Options) (timeout : Nat) (turns : List Turn) :
    Listed ((Callers.new layer options timeout).after turns).client := by
  refine Callers.after_keeps (Q := fun c => Listed c.client) (fun t c hc => ?_) ?_ turns
  · cases t with
    | enter method params options => exact hc.enter method params options
    | proceed n => exact hc.proceed n
    | move m => exact (m.deals c.client).keeps (fun _ _ h => Listed.deal h) hc
  · cases layer <;> exact List.nodup_nil

private theorem settle_goesOn (n : Int) (f : Pending → Outcome Value) (s : State) :
    Grows (fun _ => True) s (s.settle n f) := by
  cases hp : s.engine.pending.get? n with
  | none =>
    rw [State.settle_absent hp]
    exact .refl s
  | some entry => exact ⟨_, State.settle_journal hp f, fun _ _ => trivial⟩

private theorem proceed_grows (n : Int) (c : Callers) :
    Grows (fun _ => True) c.client (c.proceed n).client := by
  cases hcall : c.calls.get? n with
  | none =>
    rw [Callers.proceed_absent hcall]
    exact .refl _
  | some call =>
    rw [Callers.proceed_present hcall]
    cases call.progress with
    | entered =>
      simp only
      split
      · exact (grows_record (e := .withdrawn n) trivial c.client).trans (settle_goesOn n _ _)
      · exact .refl _
    | admitted =>
      obtain ⟨t, ht, h | ⟨e, h⟩⟩ := State.handOver_cases n call.method call.params c.client
      · have hsent : Grows (fun _ => True) c.client t :=
          (ht ▸ (still_send _ _).journal).mono fun _ _ => trivial
        rw [h]
        exact hsent
      · have hsent : Grows (fun _ => True) c.client t :=
          (ht ▸ (still_send _ _).journal).mono fun _ _ => trivial
        rw [h]
        exact (hsent.trans (grows_record (e := .unsent n e) trivial t)).trans (settle_goesOn n _ _)
    | handedOver => exact .of_eq (State.wake_journal _ _)
    | guarded => exact Grows.refl c.client

theorem Turn.grows (t : Turn) (c : Callers) :
    Grows (fun _ => True) c.client (t.apply c).client := by
  cases t with
  | enter method params options => exact grows_record (e := .issued ..) trivial _
  | proceed n => exact proceed_grows n c
  | move m => exact (m.adds c.client).mono fun _ _ => trivial

theorem Callers.after_grows (turns : List Turn) (c : Callers) :
    Grows (fun _ => True) c.client (c.after turns).client :=
  Callers.after_keeps (Q := fun d => Grows (fun _ => True) c.client d.client)
    (fun t d h => h.trans (t.grows d)) (.refl _) turns

end Client

end LanguageClient
