import LanguageClient.Proofs.Settlement
import LanguageClient.Proofs.UniqueReading
/-!
The frames of requests, as a journal tells of them. A journal is orderly when the frames of requests
carry ascending ids, and the peer is told of a cancellation once for each request whose token was seen
first of all that concerns it, after its frame was taken, and of no other. Every entry that may follow
keeps a journal orderly.
-/
namespace LanguageClient.Client
open Transport Rpc Json

def cancelFrame (id : Int) : String :=
  (Notification.new State.cancelMethod (some (State.cancelParams id))).wire

/-- Frames that are neither those of a request nor those of a cancellation. -/
structure Neutral (frame : String) : Prop where
  request : ∀ id method params, frame ≠ (Request.new id method params).wire
  cancellation : ∀ id, frame ≠ cancelFrame id

theorem neutral_notification {method : String} (h : method ≠ State.cancelMethod)
    (params : Option Value) : Neutral (Notification.new method params).wire where
  request _ _ _ he := Request.wire_ne_notification _ _ he.symm
  cancellation _ he := h (Notification.wire_inj he).1

theorem cancelFrame_inj {n k : Int} (h : cancelFrame n = cancelFrame k) : n = k := by
  have hparams := (Notification.wire_inj h).2
  cases hparams with
  | some hparams =>
    obtain _ | ⟨hid, _⟩ := Value.Alike.obj hparams
    exact Value.Alike.int hid.2

theorem cancelFrame_ne_request (n id : Int) (method : String) (params : Option Value) :
    cancelFrame n ≠ (Request.new id method params).wire := fun h =>
  Request.wire_ne_notification _ _ h.symm

namespace Entry

/-- The frame of a request is handed over. -/
def Requests (id : Int) (e : Entry) : Prop :=
  ∃ method params taken, e = .offered (Request.new id method params).wire taken

def Sent (id : Int) (e : Entry) : Prop :=
  ∃ method params g, e = .offered (Request.new id method params).wire (some g)

/-- The peer is told of a cancellation, whether or not the transport takes that. -/
def cancels (id : Int) : Entry → Bool
  | .offered frame _ => frame == cancelFrame id
  | _ => false

/-- If a frame is handed over, it has the property. -/
def Offering (P : String → Prop) (e : Entry) : Prop := ∀ frame taken, e = .offered frame taken → P frame

/-- No frame that matters is handed over, no request is issued or withdrawn, and no token is seen to
have been cancelled. -/
structure Mute (e : Entry) : Prop where
  offering : e.Offering Neutral
  revoked : ∀ id, e ≠ .revoked id
  issues : ∀ id, e.issues id = false
  withdrawn : ∀ id, e ≠ .withdrawn id

theorem mute_settled (id : Int) (outcome : Outcome Value) : (settled id outcome).Mute :=
  ⟨nofun, nofun, fun _ => rfl, nofun⟩

theorem mute_lapsed (id : Int) : (lapsed id).Mute := ⟨nofun, nofun, fun _ => rfl, nofun⟩

theorem mute_unsent (id : Int) (cause : Fault) : (unsent id cause).Mute :=
  ⟨nofun, nofun, fun _ => rfl, nofun⟩

theorem requests_offered {id n : Int} {method : String} {params : Option Value}
    {taken : Option Nat}
    (h : (Entry.offered (Request.new n method params).wire taken).Requests id) : id = n := by
  obtain ⟨_, _, _, he⟩ := h
  exact (Request.wire_inj (Entry.offered.inj he).1).symm

theorem Mute.not_requests {e : Entry} (h : e.Mute) (id : Int) : ¬ e.Requests id := by
  rintro ⟨method, params, taken, rfl⟩
  exact (h.offering _ taken rfl).request id method params rfl

theorem Mute.not_cancels {e : Entry} (h : e.Mute) (id : Int) : e.cancels id = false := by
  cases e with
  | offered frame taken =>
    have hne := (h.offering frame taken rfl).cancellation id
    exact beq_false_of_ne hne
  | _ => rfl

end Entry

/-- The first entry about a request after its issue. -/
def decider (id : Int) (journal : List Entry) : Option Entry :=
  (sinceIssue? id journal).bind fun issue =>
    issue.2.find? fun e => (ruling? id issue.1 e).isSome

private theorem mem_of_sinceIssue? {id : Int} {journal : List Entry} {issue : Terms × List Entry}
    (h : sinceIssue? id journal = some issue) : ∀ e ∈ issue.2, e ∈ journal := by
  induction journal with
  | nil => cases h
  | cons d journal ih =>
    have hcons (hd : sinceIssue? id journal = some issue) : ∀ e ∈ issue.2, e ∈ d :: journal :=
      fun e he => List.mem_cons_of_mem d (ih hd e he)
    cases d with
    | issued n method timeout token =>
      rw [sinceIssue?] at h
      split at h
      · cases h
        exact fun e he => List.mem_cons_of_mem _ he
      · exact hcons h
    | _ => exact hcons h

theorem decider_append_of_some {id : Int} {journal : List Entry} {e : Entry}
    (h : decider id journal = some e) (more : List Entry) : decider id (journal ++ more) = some e := by
  obtain ⟨issue, hs, hf⟩ := Option.bind_eq_some_iff.mp h
  rw [decider, sinceIssue?_append, hs, Option.bind_some, List.find?_append, hf, Option.some_or]

theorem decider_append {id : Int} {journal more : List Entry} {e : Entry}
    (h : decider id (journal ++ more) = some e) : decider id journal = some e ∨ e ∈ more := by
  rw [decider, sinceIssue?_append] at h
  cases hs : sinceIssue? id journal with
  | some issue =>
    rw [hs, Option.bind_some, List.find?_append, Option.or_eq_some_iff] at h
    obtain h | ⟨_, h⟩ := h
    · exact .inl (by rw [decider, hs, Option.bind_some, h])
    · exact .inr (List.mem_of_find?_eq_some h)
  | none =>
    rw [hs] at h
    obtain ⟨issue, hs, hf⟩ := Option.bind_eq_some_iff.mp h
    exact .inr (mem_of_sinceIssue? hs e (List.mem_of_find?_eq_some hf))

theorem decider_concat {id : Int} {journal : List Entry} {terms : Terms} {e : Entry}
    (hs : standing id journal = .owed terms) (he : (ruling? id terms e).isSome = true) :
    decider id journal = none ∧ decider id (journal ++ [e]) = some e := by
  rw [standing] at hs
  cases h : sinceIssue? id journal with
  | none =>
    rw [h] at hs
    cases hs
  | some issue =>
    rw [h] at hs
    cases hf : issue.2.findSome? (ruling? id issue.1) with
    | some outcome =>
      simp only [hf] at hs
      cases hs
    | none =>
      simp only [hf] at hs
      cases hs
      have hnone : (issue.2.find? fun e => (ruling? id issue.1 e).isSome) = none := by
        rw [List.findSome?_eq_none_iff] at hf
        exact List.find?_eq_none.mpr fun x hx => by simp [hf x hx]
      constructor
      · rw [decider, h, Option.bind_some, hnone]
      · rw [decider, sinceIssue?_append, h, Option.bind_some, List.find?_append, hnone,
          Option.none_or]
        exact List.find?_cons_of_pos he

theorem decider_of_ruled {id : Int} {journal : List Entry} {outcome : Option (Outcome Value)}
    (hs : standing id journal = .ruled outcome) : ∃ e, decider id journal = some e := by
  rw [standing] at hs
  cases h : sinceIssue? id journal with
  | none =>
    rw [h] at hs
    cases hs
  | some issue =>
    rw [h] at hs
    cases hf : issue.2.findSome? (ruling? id issue.1) with
    | none =>
      simp only [hf] at hs
      cases hs
    | some outcome =>
      obtain ⟨e, he, hr⟩ := List.exists_of_findSome?_eq_some hf
      rw [decider, h, Option.bind_some]
      exact Option.isSome_iff_exists.mp (List.find?_isSome.mpr ⟨e, he, by simp [hr]⟩)

/-- The peer is told of the cancellation of a request once if the request was decided by its token, and
not at all otherwise. -/
def Tally (n : Int) (journal : List Entry) : Prop :=
  (decider n journal = some (.revoked n) ∧ journal.countP (Entry.cancels n) = 1) ∨
    (decider n journal ≠ some (.revoked n) ∧ journal.countP (Entry.cancels n) = 0)

/-- The frames of requests and of cancellations that a journal tells of. -/
structure Orderly (next : Int) (journal : List Entry) : Prop where
  ascending : journal.Pairwise fun d e => ∀ n k, d.Requests n → e.Requests k → n < k
  below : ∀ e ∈ journal, ∀ n, e.Requests n → n < next
  tally : ∀ n, Tally n journal
  after : ∀ n before e, before ++ [e] <+: journal → e.cancels n = true → ∃ d ∈ before, d.Sent n

variable {next : Int} {journal : List Entry}

theorem Orderly.mono (h : Orderly next journal) {more : Int} (hle : next ≤ more) :
    Orderly more journal :=
  { h with below e he n hr := Int.lt_of_lt_of_le (h.below e he n hr) hle }

private theorem ascending_concat {e : Entry}
    (h : journal.Pairwise fun d e => ∀ n k, d.Requests n → e.Requests k → n < k)
    (he : ∀ d ∈ journal, ∀ n k, d.Requests n → e.Requests k → n < k) :
    (journal ++ [e]).Pairwise fun d e => ∀ n k, d.Requests n → e.Requests k → n < k :=
  List.pairwise_append.mpr ⟨h, List.pairwise_singleton _ _, fun d hd x hx => by
    rw [List.mem_singleton.mp hx]
    exact he d hd⟩

private theorem after_concat {n : Int} {e : Entry}
    (h : ∀ before e, before ++ [e] <+: journal → e.cancels n = true → ∃ d ∈ before, d.Sent n)
    (he : e.cancels n = true → ∃ d ∈ journal, d.Sent n) :
    ∀ before x, before ++ [x] <+: journal ++ [e] → x.cancels n = true → ∃ d ∈ before, d.Sent n := by
  intro before x hp hx
  rcases List.prefix_concat_iff.mp hp with heq | hp
  · obtain ⟨rfl, hxe⟩ := List.append_inj' heq rfl
    rw [List.singleton_inj.mp hxe] at hx
    exact he hx
  · exact h before x hp hx

private theorem Tally.concat {n : Int} {e : Entry} (h : Tally n journal)
    (cancel : e.cancels n = false) (revoked : e = .revoked n → ∃ d, decider n journal = some d) :
    Tally n (journal ++ [e]) := by
  have hcount : (journal ++ [e]).countP (Entry.cancels n) = journal.countP (Entry.cancels n) := by
    rw [List.countP_append, List.countP_singleton, cancel]
    rfl
  rw [Tally, hcount]
  rcases h with ⟨hd, hc⟩ | ⟨hd, hc⟩
  · exact .inl ⟨decider_append_of_some hd _, hc⟩
  · refine .inr ⟨fun hd' => ?_, hc⟩
    rcases decider_append hd' with h' | h'
    · exact hd h'
    · obtain ⟨d, hsome⟩ := revoked (List.mem_singleton.mp h').symm
      rw [decider_append_of_some hsome] at hd'
      exact hd (hsome.trans hd')

private theorem Tally.revoke {n : Int} {terms : Terms} (h : Tally n journal)
    (howed : standing n journal = .owed terms) (taken : Option Nat) :
    Tally n (journal ++ [.revoked n] ++ [.offered (cancelFrame n) taken]) := by
  obtain ⟨hnone, hsome⟩ := decider_concat howed (e := .revoked n) (by simp [ruling?])
  have hcount : journal.countP (Entry.cancels n) = 0 := by
    rcases h with ⟨hd, _⟩ | ⟨_, hc⟩
    · rw [hnone] at hd
      cases hd
    · exact hc
  have hrevoked : Entry.cancels n (.revoked n) = false := rfl
  have hcancel : (Entry.offered (cancelFrame n) taken).cancels n = true := beq_self_eq_true _
  refine .inl ⟨decider_append_of_some hsome _, ?_⟩
  rw [List.countP_append, List.countP_append, List.countP_singleton, List.countP_singleton, hcount,
    hrevoked, hcancel]
  rfl

theorem Orderly.concat {e : Entry} (h : Orderly next journal)
    (request : ∀ n, ¬ e.Requests n) (cancel : ∀ n, e.cancels n = false)
    (revoked : ∀ n, e = .revoked n → ∃ d, decider n journal = some d) :
    Orderly next (journal ++ [e]) where
  ascending := ascending_concat h.ascending fun _ _ _ k _ hk => absurd hk (request k)
  below := List.forall_mem_append.mpr
    ⟨h.below, List.forall_mem_singleton.mpr fun n hr => absurd hr (request n)⟩
  tally n := (h.tally n).concat (cancel n) (revoked n)
  after n := after_concat (h.after n) fun hc => by
    rw [cancel n] at hc
    cases hc

theorem Orderly.mute {more : List Entry} (h : Orderly next journal)
    (hm : ∀ e ∈ more, e.Mute) : Orderly next (journal ++ more) := by
  induction more generalizing journal with
  | nil =>
    rw [List.append_nil]
    exact h
  | cons e more ih =>
    have he := hm e List.mem_cons_self
    have h1 : Orderly next (journal ++ [e]) :=
      h.concat he.not_requests he.not_cancels fun n hr => absurd hr (he.revoked n)
    have h2 := ih h1 fun d hd => hm d (List.mem_cons_of_mem e hd)
    rw [List.append_assoc] at h2
    exact h2

theorem Orderly.request (h : Orderly next journal) (method : String) (params : Option Value)
    (taken : Option Nat) :
    Orderly (next + 1) (journal ++ [.offered (Request.new next method params).wire taken]) where
  ascending := by
    refine ascending_concat h.ascending fun d hd n k hn hk => ?_
    rw [Entry.requests_offered hk]
    exact h.below d hd n hn
  below := by
    refine List.forall_mem_append.mpr ⟨fun d hd n hr => ?_, List.forall_mem_singleton.mpr ?_⟩
    · exact Int.lt_trans (h.below d hd n hr) (Int.lt_succ next)
    · intro n hr
      rw [Entry.requests_offered hr]
      exact Int.lt_succ next
  tally n := (h.tally n).concat
    (beq_false_of_ne (cancelFrame_ne_request n next method params).symm) nofun
  after n := after_concat (h.after n) fun hc =>
    absurd (beq_iff_eq.mp hc).symm (cancelFrame_ne_request n next method params)

theorem Entry.not_requests_cancel (n k : Int) (taken : Option Nat) :
    ¬ (Entry.offered (cancelFrame n) taken).Requests k := by
  rintro ⟨method, params, _, he⟩
  exact cancelFrame_ne_request n k method params (Entry.offered.inj he).1

theorem Orderly.revoke {n : Int} {terms : Terms} (h : Orderly next journal)
    (howed : standing n journal = .owed terms) (hsent : ∃ d ∈ journal, d.Sent n)
    (taken : Option Nat) :
    Orderly next (journal ++ [.revoked n] ++ [.offered (cancelFrame n) taken]) where
  ascending := by
    have hrevoked (k : Int) : ¬ (Entry.revoked n).Requests k := nofun
    refine ascending_concat (ascending_concat h.ascending ?_) ?_
    · exact fun _ _ _ k _ hk => absurd hk (hrevoked k)
    · exact fun _ _ _ k _ hk => absurd hk (Entry.not_requests_cancel n k taken)
  below := by
    refine List.forall_mem_append.mpr ⟨List.forall_mem_append.mpr ⟨h.below, ?_⟩, ?_⟩
    · exact List.forall_mem_singleton.mpr nofun
    · exact List.forall_mem_singleton.mpr fun k hr => absurd hr (Entry.not_requests_cancel n k taken)
  tally k := by
    by_cases hk : n = k
    · subst hk
      exact (h.tally n).revoke howed taken
    · have hrevoked : Tally k (journal ++ [.revoked n]) :=
        (h.tally k).concat rfl fun he => absurd (Entry.revoked.inj he) hk
      exact hrevoked.concat (beq_false_of_ne fun he => hk (cancelFrame_inj he)) nofun
  after k := by
    refine after_concat (after_concat (h.after k) nofun) fun hc => ?_
    rw [← cancelFrame_inj (beq_iff_eq.mp hc)]
    obtain ⟨d, hd, hs⟩ := hsent
    exact ⟨d, List.mem_append_left _ hd, hs⟩

/-- The frames handed over are those of the requests that have been issued, but for those whose token
had been cancelled before; and no id has been used that is still to come. -/
structure Framed (next : Int) (journal : List Entry) : Prop where
  frames : ∀ n, (∃ e ∈ journal, e.Requests n) ↔
    (∃ e ∈ journal, e.issues n = true) ∧ .withdrawn n ∉ journal
  issued : ∀ e ∈ journal, ∀ n, e.issues n = true → n < next
  withdrawn : ∀ n, .withdrawn n ∈ journal → n < next

private theorem exists_append_iff {p : Entry → Prop} {more : List Entry} (h : ∀ e ∈ more, ¬ p e) :
    (∃ e ∈ journal ++ more, p e) ↔ ∃ e ∈ journal, p e := by
  simp only [List.mem_append, or_and_right, exists_or]
  exact or_iff_left fun ⟨e, he, hp⟩ => h e he hp

private theorem framed_iff_append {n : Int} {more : List Entry}
    (h : (∃ e ∈ journal, e.Requests n) ↔
      (∃ e ∈ journal, e.issues n = true) ∧ .withdrawn n ∉ journal)
    (requests : ∀ e ∈ more, ¬ e.Requests n) (issues : ∀ e ∈ more, ¬ e.issues n = true)
    (withdrawn : .withdrawn n ∉ more) :
    (∃ e ∈ journal ++ more, e.Requests n) ↔
      (∃ e ∈ journal ++ more, e.issues n = true) ∧ .withdrawn n ∉ journal ++ more := by
  rw [exists_append_iff requests, exists_append_iff issues, List.mem_append, or_iff_left withdrawn]
  exact h

theorem Framed.append {more : List Entry} (h : Framed next journal)
    (hm : ∀ e ∈ more, ∀ n, ¬ e.Requests n ∧ e.issues n = false ∧ e ≠ .withdrawn n) :
    Framed next (journal ++ more) := by
  have hissues (n : Int) : ∀ e ∈ more, ¬ e.issues n = true := fun e he => by
    rw [(hm e he n).2.1]
    exact Bool.false_ne_true
  have hwithdrawn (n : Int) : .withdrawn n ∉ more := fun hw => (hm _ hw n).2.2 rfl
  refine ⟨fun n => ?_, fun e he n hi => ?_, fun n hw => ?_⟩
  · exact framed_iff_append (h.frames n) (fun e he => (hm e he n).1) (hissues n) (hwithdrawn n)
  · exact h.issued e ((List.mem_append.mp he).resolve_right fun he => hissues n e he hi) n hi
  · exact h.withdrawn n ((List.mem_append.mp hw).resolve_right (hwithdrawn n))

theorem Framed.mute {more : List Entry} (h : Framed next journal) (hm : ∀ e ∈ more, e.Mute) :
    Framed next (journal ++ more) :=
  h.append fun e he n => ⟨(hm e he).not_requests n, (hm e he).issues n, (hm e he).withdrawn n⟩

private theorem Framed.issue {more : List Entry} (h : Framed next journal)
    (requests : ∀ e ∈ more, ∀ n, e.Requests n → n = next)
    (issues : ∀ e ∈ more, ∀ n, e.issues n = true → n = next)
    (withdrawn : ∀ n, .withdrawn n ∈ more → n = next) (issued : ∃ e ∈ more, e.issues next = true)
    (either : (∃ e ∈ more, e.Requests next) ↔ .withdrawn next ∉ more) :
    Framed (next + 1) (journal ++ more) := by
  have hlt {n : Int} (hn : n < next) : n < next + 1 := Int.lt_trans hn (Int.lt_succ next)
  have hnew {n : Int} (hn : n = next) : n < next + 1 := hn ▸ Int.lt_succ next
  refine ⟨fun n => ?_, fun e he n hi => ?_, fun n hw => ?_⟩
  · by_cases hn : n = next
    · subst hn
      have hissued : ¬ ∃ e ∈ journal, e.issues n = true := fun ⟨e, he, hi⟩ =>
        Int.lt_irrefl n (h.issued e he n hi)
      have hrequests : ¬ ∃ e ∈ journal, e.Requests n := fun hr => hissued ((h.frames n).mp hr).1
      have hwithdrawn : .withdrawn n ∉ journal := fun hw => Int.lt_irrefl n (h.withdrawn n hw)
      simp only [List.mem_append, or_and_right, exists_or, hissued, hrequests, hwithdrawn, issued,
        false_or, either, true_and]
    · exact framed_iff_append (h.frames n) (fun e he hr => hn (requests e he n hr))
        (fun e he hi => hn (issues e he n hi)) fun hw => hn (withdrawn n hw)
  · rcases List.mem_append.mp he with he | he
    · exact hlt (h.issued e he n hi)
    · exact hnew (issues e he n hi)
  · rcases List.mem_append.mp hw with hw | hw
    · exact hlt (h.withdrawn n hw)
    · exact hnew (withdrawn n hw)

section
variable (method : String) (timeout : Nat) (token : Option String)

private theorem Orderly.issued (h : Orderly next journal) :
    Orderly next (journal ++ [.issued next method timeout token]) :=
  h.concat nofun (fun _ => rfl) nofun

theorem Orderly.withdraw (h : Orderly next journal) (outcome : Outcome Value) :
    Orderly (next + 1) (journal ++
      [.issued next method timeout token, .withdrawn next, .settled next outcome]) := by
  have hwithdrawn := (h.issued method timeout token).concat (e := .withdrawn next) nofun
    (fun _ => rfl) nofun
  have hsettled := hwithdrawn.mute (List.forall_mem_singleton.mpr (Entry.mute_settled next outcome))
  rw [List.append_assoc, List.append_assoc] at hsettled
  exact hsettled.mono (Int.le_of_lt (Int.lt_succ next))

theorem Orderly.offer (h : Orderly next journal) (params : Option Value) (taken : Option Nat)
    {rest : List Entry} (hm : ∀ e ∈ rest, e.Mute) :
    Orderly (next + 1) (journal ++ .issued next method timeout token ::
      .offered (Request.new next method params).wire taken :: rest) := by
  have hrest := ((h.issued method timeout token).request method params taken).mute hm
  rw [List.append_assoc, List.append_assoc] at hrest
  exact hrest

theorem Framed.withdraw (h : Framed next journal) (outcome : Outcome Value) :
    Framed (next + 1) (journal ++
      [.issued next method timeout token, .withdrawn next, .settled next outcome]) := by
  have hrequests (n : Int) : ∀ e ∈ [.issued next method timeout token, .withdrawn next,
      .settled next outcome], ¬ Entry.Requests n e := by
    simp only [List.forall_mem_cons]
    exact ⟨nofun, nofun, nofun, List.forall_mem_nil _⟩
  refine h.issue (fun e he n hr => absurd hr (hrequests n e he)) ?_ ?_ ?_ ?_
  · simp [Entry.issues]
  · simp
  · simp [Entry.issues]
  · simpa using hrequests next

theorem Framed.offer (h : Framed next journal) (params : Option Value) (taken : Option Nat)
    {rest : List Entry} (hm : ∀ e ∈ rest, e.Mute) :
    Framed (next + 1) (journal ++ .issued next method timeout token ::
      .offered (Request.new next method params).wire taken :: rest) := by
  have hwithdrawn (n : Int) : .withdrawn n ∉ .issued next method timeout token ::
      .offered (Request.new next method params).wire taken :: rest := by
    simp only [List.mem_cons, reduceCtorEq, false_or]
    exact fun hw => (hm _ hw).withdrawn n rfl
  refine h.issue ?_ ?_ (fun n hw => absurd hw (hwithdrawn n)) ?_ ?_
  · simp only [List.forall_mem_cons]
    exact ⟨nofun, fun n hr => Entry.requests_offered hr,
      fun e he n hr => absurd hr ((hm e he).not_requests n)⟩
  · simp only [List.forall_mem_cons]
    refine ⟨fun n hi => (beq_iff_eq.mp hi).symm, nofun, fun e he n hi => ?_⟩
    rw [(hm e he).issues n] at hi
    cases hi
  · exact ⟨_, List.mem_cons_self, beq_self_eq_true next⟩
  · exact iff_of_true ⟨_, List.mem_cons_of_mem _ List.mem_cons_self, method, params, taken, rfl⟩
      (hwithdrawn next)

end

theorem Orderly.late {n : Int} (h : Orderly next journal) (hd : ∃ d, decider n journal = some d) :
    Orderly next (journal ++ [.revoked n]) := by
  refine h.concat nofun (fun _ => rfl) fun k hk => ?_
  rw [← Entry.revoked.inj hk]
  exact hd

theorem Framed.late (h : Framed next journal) (n : Int) : Framed next (journal ++ [.revoked n]) :=
  h.append (List.forall_mem_singleton.mpr fun _ => ⟨nofun, rfl, nofun⟩)

theorem Orderly.tell {n : Int} {terms : Terms} (h : Orderly next journal)
    (howed : standing n journal = .owed terms) (hsent : ∃ d ∈ journal, d.Sent n)
    (taken : Option Nat) (outcome : Outcome Value) : Orderly next (journal ++
      [.revoked n, .offered (cancelFrame n) taken, .settled n outcome]) := by
  have hsettled := (h.revoke howed hsent taken).mute
    (List.forall_mem_singleton.mpr (Entry.mute_settled n outcome))
  rw [List.append_assoc, List.append_assoc] at hsettled
  exact hsettled

theorem Framed.tell (h : Framed next journal) (n : Int) (taken : Option Nat)
    (outcome : Outcome Value) : Framed next (journal ++
      [.revoked n, .offered (cancelFrame n) taken, .settled n outcome]) := by
  refine h.append (List.forall_mem_cons.mpr ⟨fun _ => ⟨nofun, rfl, nofun⟩, ?_⟩)
  refine List.forall_mem_cons.mpr ⟨fun k => ⟨Entry.not_requests_cancel n k taken, rfl, nofun⟩, ?_⟩
  exact List.forall_mem_singleton.mpr fun _ => ⟨nofun, rfl, nofun⟩

end LanguageClient.Client
