/-!
Finite maps as lists of keyed entries in the order of first insertion. Each operation is described
by what a look-up sees afterwards.
-/
namespace LanguageClient

abbrev Keyed (κ : Type u) (α : Type v) := List (κ × α)

namespace Keyed
variable {κ : Type u} {α : Type v} [DecidableEq κ]

def get? (m : Keyed κ α) (k : κ) : Option α := (m.find? (fun e => e.1 = k)).map Prod.snd

def contains (m : Keyed κ α) (k : κ) : Bool := (get? m k).isSome

/-- Replaces the entry of a key where it stands, or adds one at the end. -/
def put (k : κ) (a : α) : Keyed κ α → Keyed κ α
  | [] => [(k, a)]
  | e :: m => if e.1 = k then (k, a) :: m else e :: put k a m

def erase (k : κ) (m : Keyed κ α) : Keyed κ α := m.filter (fun e => e.1 ≠ k)

/-- Changes the entry of a key, if there is one. -/
def modify (k : κ) (f : α → α) (m : Keyed κ α) : Keyed κ α :=
  m.map (fun e => if e.1 = k then (e.1, f e.2) else e)

def keys (m : Keyed κ α) : List κ := m.map Prod.fst

@[simp] theorem get?_nil (k : κ) : get? ([] : Keyed κ α) k = none := rfl

theorem get?_cons (e : κ × α) (m : Keyed κ α) (k : κ) :
    get? (e :: m) k = if e.1 = k then some e.2 else get? m k := by
  unfold get?
  by_cases h : e.1 = k <;> simp [h]

theorem get?_put (m : Keyed κ α) (k l : κ) (a : α) :
    get? (put k a m) l = if k = l then some a else get? m l := by
  induction m with
  | nil => simp [put, get?_cons]
  | cons e m ih =>
    rw [put]
    split
    · rename_i h
      rw [get?_cons, get?_cons, h]
      split <;> rfl
    · rename_i h
      rw [get?_cons, ih, get?_cons]
      by_cases hl : e.1 = l
      · subst hl; simp [Ne.symm h]
      · simp [hl]

@[simp] theorem get?_put_self (m : Keyed κ α) (k : κ) (a : α) : get? (put k a m) k = some a := by
  simp [get?_put]

theorem get?_erase (m : Keyed κ α) (k l : κ) :
    get? (erase k m) l = if k = l then none else get? m l := by
  induction m with
  | nil => simp [erase]
  | cons e m ih =>
    unfold erase at ih ⊢
    by_cases h : e.1 = k
    · rw [List.filter_cons_of_neg (by simp [h]), ih, get?_cons]
      by_cases hk : k = l <;> simp [hk, h]
    · rw [List.filter_cons_of_pos (by simp [h]), get?_cons, ih, get?_cons]
      by_cases hl : e.1 = l
      · subst hl; simp [Ne.symm h]
      · simp [hl]

theorem get?_modify (m : Keyed κ α) (k l : κ) (f : α → α) :
    get? (modify k f m) l = if k = l then (get? m l).map f else get? m l := by
  induction m with
  | nil => simp [modify]
  | cons e m ih =>
    unfold modify at ih ⊢
    rw [List.map_cons, get?_cons, ih, get?_cons]
    by_cases h : e.1 = k
    · subst h
      by_cases hl : e.1 = l <;> simp [hl]
    · by_cases hl : e.1 = l
      · subst hl; simp [h, Ne.symm h]
      · simp [h, hl]

end Keyed

end LanguageClient
