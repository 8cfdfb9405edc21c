import LanguageClient.Registry
/-!
What a registry remembers of its history. The handlers of a key are those that were registered under it
and not removed since, in the order of their registration, however often a handler was registered, under
however many keys, and however often an entry went away and came back.
-/
namespace LanguageClient.Registry
variable {κ η : Type} [DecidableEq κ]

/-- What is asked of a registry. A registration is removed by its number in the order of all. -/
inductive Request (κ η : Type) where
  | subscribe (key : κ) (handler : η)
  | unsubscribe (number : Nat)

/-- A registry, and the registrations that it has given out so far. -/
structure Issuer (κ η : Type) where
  registry : Registry κ η
  registrations : List (Registration κ)

def Issuer.serve (i : Issuer κ η) : Request κ η → Issuer κ η
  | .subscribe key handler =>
    let (reg, registry) := i.registry.subscribe key handler
    ⟨registry, i.registrations ++ [reg]⟩
  | .unsubscribe number =>
    match i.registrations[number]? with
    | none => i
    | some reg => { i with registry := i.registry.unsubscribe reg }

/-- A new registry that has served a sequence of requests. -/
def served (requests : List (Request κ η)) : Issuer κ η :=
  requests.foldl Issuer.serve ⟨empty, []⟩

/-- One registration of a history, which may have been removed. -/
structure Member (κ η : Type) where
  key : κ
  handler : η
  active : Bool

def Member.removed (m : Member κ η) : Member κ η := { m with active := false }

/-- All registrations ever made, in order. -/
abbrev History (κ η : Type) := List (Member κ η)

namespace History

def record (l : History κ η) : Request κ η → History κ η
  | .subscribe key handler => l ++ [⟨key, handler, true⟩]
  | .unsubscribe number => l.modify number Member.removed

def ofRequests (requests : List (Request κ η)) : History κ η := requests.foldl record []

/-- The handlers registered under a key and not removed since, in order. -/
def handlers (key : κ) (l : History κ η) : List η :=
  (l.filter fun m => m.active ∧ m.key = key).map Member.handler

/-- The same with the tokens that the registrations were given, the first of them `token`. -/
def slot (key : κ) : (token : Nat) → History κ η → List (Nat × η)
  | _, [] => []
  | token, m :: l =>
    if m.active ∧ m.key = key then (token, m.handler) :: slot key (token + 1) l
    else slot key (token + 1) l

theorem map_slot (key : κ) (token : Nat) (l : History κ η) :
    (slot key token l).map Prod.snd = l.handlers key := by
  induction l generalizing token with
  | nil => rfl
  | cons m l ih =>
    rw [slot, handlers, List.filter_cons]
    simp only [decide_eq_true_eq]
    split
    · exact congrArg (m.handler :: ·) (ih (token + 1))
    · exact ih (token + 1)

theorem slot_append (key : κ) (token : Nat) (l more : History κ η) :
    slot key token (l ++ more) = slot key token l ++ slot key (token + l.length) more := by
  induction l generalizing token with
  | nil => rfl
  | cons m l ih =>
    have hnext : token + 1 + l.length = token + (m :: l).length := by
      rw [List.length_cons]
      omega
    simp only [List.cons_append, slot, ih, hnext]
    split <;> rfl

theorem le_of_mem_slot {key : κ} {token : Nat} {l : History κ η} {e : Nat × η}
    (h : e ∈ slot key token l) : token ≤ e.1 := by
  induction l generalizing token with
  | nil => cases h
  | cons m l ih =>
    rw [slot] at h
    split at h
    · rcases List.mem_cons.mp h with rfl | h
      · exact Nat.le_refl _
      · exact Nat.le_of_succ_le (ih h)
    · exact Nat.le_of_succ_le (ih h)

private theorem filter_slot_of_lt (key : κ) {token other : Nat} (h : other < token)
    (l : History κ η) : (slot key token l).filter (fun e => e.1 ≠ other) = slot key token l := by
  refine List.filter_eq_self.mpr fun e he => ?_
  have := le_of_mem_slot he
  simp only [decide_eq_true_eq]
  omega

/-- Removing a registration takes its token away and no other. -/
theorem slot_modify (key : κ) (token number : Nat) (l : History κ η) :
    slot key token (l.modify number Member.removed) =
      (slot key token l).filter (fun e => e.1 ≠ token + number) := by
  -- one registration further on, the tokens begin one higher and the number is one less
  induction l generalizing token number with
  | nil => rw [List.modify_nil, slot, List.filter_nil]
  | cons m l ih =>
    cases number with
    | zero =>
      have hself : slot key token ((m :: l).modify 0 Member.removed) = slot key (token + 1) l := by
        rw [List.modify_zero_cons, slot, if_neg (by simp [Member.removed])]
      have hrest : (slot key (token + 1) l).filter (fun e => e.1 ≠ token + 0) = slot key (token + 1) l :=
        filter_slot_of_lt key (Nat.lt_succ_self token) l
      rw [hself, slot]
      split
      · rw [List.filter_cons_of_neg (by simp), hrest]
      · rw [hrest]
    | succ number =>
      have hnext : token + 1 + number = token + (number + 1) := by omega
      rw [List.modify_succ_cons, slot, slot, ih, hnext]
      split
      · rw [List.filter_cons_of_pos (by simp)]
      · rfl

theorem slot_modify_other {key : κ} {number : Nat} {l : History κ η} {m : Member κ η}
    (hm : l[number]? = some m) (hkey : m.key ≠ key) (token : Nat) :
    slot key token (l.modify number Member.removed) = slot key token l := by
  induction l generalizing number token with
  | nil => rw [List.modify_nil]
  | cons d l ih =>
    cases number with
    | zero =>
      obtain rfl : d = m := Option.some.inj hm
      rw [List.modify_zero_cons, slot, slot, if_neg (by simp [Member.removed]), if_neg fun h => hkey h.2]
    | succ number =>
      have hrest : l[number]? = some m := hm
      rw [List.modify_succ_cons, slot, slot, ih hrest]

theorem handlers_append (key : κ) (l more : History κ η) :
    (l ++ more).handlers key = l.handlers key ++ more.handlers key := by
  rw [handlers, List.filter_append, List.map_append]
  rfl

theorem handlers_modify (key : κ) (number : Nat) (l : History κ η) :
    handlers key (l.modify number Member.removed) =
      handlers key (l.take number) ++ handlers key (l.drop (number + 1)) := by
  induction l generalizing number with
  | nil => simp [handlers]
  | cons m l ih =>
    cases number with
    | zero => simp [handlers, Member.removed]
    | succ number =>
      have hcons (l : History κ η) : handlers key (m :: l) = handlers key [m] ++ handlers key l :=
        handlers_append key [m] l
      rw [List.modify_succ_cons, List.take_succ_cons, List.drop_succ_cons, hcons,
        hcons (l.take number), ih, List.append_assoc]

end History

/-- An issuer has served a history: the tokens that it gave out count up from one, and no entry is
empty. -/
structure Follows (i : Issuer κ η) (l : History κ η) : Prop where
  registrations : i.registrations = l.mapIdx fun n m => ⟨m.key, n + 1⟩
  lastToken : i.registry.lastToken = l.length
  slot : ∀ key, i.registry.slot key = l.slot key 1
  kept : ∀ key, i.registry.slots.get? key ≠ some []

theorem follows_empty : Follows (⟨empty, []⟩ : Issuer κ η) [] :=
  ⟨rfl, rfl, fun _ => rfl, fun _ => nofun⟩

theorem kept_subscribe {r : Registry κ η} (h : ∀ key, r.slots.get? key ≠ some []) (key other : κ)
    (handler : η) : (r.subscribe key handler).2.slots.get? other ≠ some [] := by
  rw [subscribe, Keyed.get?_put]
  split
  · simp
  · exact h other

theorem kept_unsubscribe {r : Registry κ η} (h : ∀ key, r.slots.get? key ≠ some [])
    (reg : Registration κ) (other : κ) : (r.unsubscribe reg).slots.get? other ≠ some [] := by
  rw [unsubscribe]
  split
  · exact h other
  · split
    · rw [Keyed.get?_erase]
      split
      · exact (Option.some_ne_none []).symm
      · exact h other
    · rename_i hne
      rw [Keyed.get?_put]
      split
      · exact fun hkept => hne (Option.some.inj hkept)
      · exact h other

private theorem Follows.subscribe {i : Issuer κ η} {l : History κ η} (h : Follows i l) (key : κ)
    (handler : η) : Follows (i.serve (.subscribe key handler)) (l ++ [⟨key, handler, true⟩]) where
  registrations := by
    rw [Issuer.serve, List.mapIdx_append, ← h.registrations, Registry.subscribe, h.lastToken,
      List.mapIdx_cons, List.mapIdx_nil, Nat.zero_add]
  lastToken := by
    rw [Issuer.serve, Registry.subscribe, h.lastToken, List.length_append]
    rfl
  slot other := by
    rw [Issuer.serve, slot_subscribe, h.slot, h.slot, h.lastToken, History.slot_append,
      History.slot, History.slot, Nat.add_comm 1]
    by_cases hkey : key = other
    · subst hkey
      rw [if_pos rfl, if_pos ⟨rfl, rfl⟩]
    · rw [if_neg hkey, if_neg fun h => hkey h.2, List.append_nil]
  kept other := kept_subscribe h.kept key other handler

private theorem Follows.unsubscribe {i : Issuer κ η} {l : History κ η} (h : Follows i l)
    (number : Nat) :
    Follows (i.serve (.unsubscribe number)) (l.modify number Member.removed) := by
  have hreg : i.registrations[number]? = l[number]?.map fun m => ⟨m.key, number + 1⟩ := by
    rw [h.registrations, List.getElem?_mapIdx]
  have hkeys : (l.modify number Member.removed).mapIdx (fun n m => Registration.mk m.key (n + 1)) =
      l.mapIdx fun n m => ⟨m.key, n + 1⟩ := by
    refine List.ext_getElem? fun n => ?_
    rw [List.getElem?_mapIdx, List.getElem?_mapIdx, List.getElem?_modify]
    cases l[n]? with
    | none => rfl
    | some m => by_cases hn : number = n <;> simp [hn, Member.removed]
  cases hm : l[number]? with
  | none =>
    -- a registration that has not been made yet
    have hsame : l.modify number Member.removed = l :=
      List.modify_eq_self (List.getElem?_eq_none_iff.mp hm)
    rw [hm, Option.map_none] at hreg
    rw [Issuer.serve, hreg, hsame]
    exact h
  | some m =>
    rw [hm, Option.map_some] at hreg
    rw [Issuer.serve, hreg]
    refine ⟨h.registrations.trans hkeys.symm, ?_, fun key => ?_, kept_unsubscribe h.kept _⟩
    · rw [lastToken_unsubscribe, h.lastToken, List.length_modify]
    · rw [slot_unsubscribe, h.slot]
      split
      · rw [History.slot_modify, Nat.add_comm 1]
      · rename_i hkey
        rw [History.slot_modify_other hm hkey]

theorem follows_served (requests : List (Request κ η)) :
    Follows (served requests) (History.ofRequests requests) := by
  have hfold (i : Issuer κ η) (l : History κ η) (h : Follows i l) :
      Follows (requests.foldl Issuer.serve i) (requests.foldl History.record l) := by
    induction requests generalizing i l with
    | nil => exact h
    | cons request requests ih =>
      cases request with
      | subscribe key handler => exact ih _ _ (h.subscribe key handler)
      | unsubscribe number => exact ih _ _ (h.unsubscribe number)
  exact hfold _ _ follows_empty

theorem Follows.snapshot {i : Issuer κ η} {l : History κ η} (h : Follows i l) (key : κ) :
    i.registry.snapshot key = l.handlers key := by
  rw [Registry.snapshot, h.slot, History.map_slot]

/-- There is an entry exactly for the keys that have handlers. -/
theorem Follows.contains_iff {i : Issuer κ η} {l : History κ η} (h : Follows i l) (key : κ) :
    i.registry.slots.contains key = true ↔ l.handlers key ≠ [] := by
  rw [← h.snapshot, Registry.snapshot, Registry.slot, Keyed.contains]
  cases hs : i.registry.slots.get? key with
  | none => simp
  | some handlers =>
    cases handlers with
    | nil => exact absurd hs (h.kept key)
    | cons e handlers => simp

/-- A registry holds what its history says. Whatever has been registered and removed, the handlers of a
key are those registered under it and not removed since, in the order of their registration; keys
without handlers have no entry. To remove a registration leaves all the others where they are, and no
token is given out twice. -/
theorem refines_history (requests : List (Request κ η)) :
    let i := served requests
    let l := History.ofRequests requests
    (∀ key, i.registry.snapshot key = l.handlers key ∧
      i.registry.count key = (l.handlers key).length ∧
      (i.registry.slots.contains key = true ↔ l.handlers key ≠ [])) ∧
    (∀ number key, (served (requests ++ [.unsubscribe number])).registry.snapshot key =
      History.handlers key (l.take number) ++ History.handlers key (l.drop (number + 1))) ∧
    i.registrations.map Registration.key = l.map Member.key ∧
    (i.registrations.map Registration.token).Pairwise (· < ·) := by
  intro i l
  have h : Follows i l := follows_served requests
  refine ⟨fun key => ⟨h.snapshot key, ?_, h.contains_iff key⟩, fun number key => ?_, ?_, ?_⟩
  · rw [← length_snapshot, h.snapshot]
  · have hnext : Follows (served (requests ++ [.unsubscribe number])) (l.modify number Member.removed) := by
      rw [served, List.foldl_append]
      exact h.unsubscribe number
    rw [hnext.snapshot, History.handlers_modify]
  · rw [h.registrations]
    refine List.ext_getElem? fun n => ?_
    rw [List.getElem?_map, List.getElem?_map, List.getElem?_mapIdx, Option.map_map]
    rfl
  · rw [h.registrations, List.pairwise_iff_getElem]
    intro m n hm hn hlt
    simpa using hlt

/-- A handler is registered three times; the first registration goes, and so does the only one of
another key. -/
example :
    let i := served (κ := String) [.subscribe "a" 1, .subscribe "a" 2, .subscribe "b" 1,
      .subscribe "a" 1, .unsubscribe 0, .unsubscribe 2]
    i.registry.snapshot "a" = [2, 1] ∧ i.registry.slots.keys = ["a"] := by decide

end LanguageClient.Registry
