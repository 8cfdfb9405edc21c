import LanguageClient.Keyed
/-!
Registries of handlers by key. The handlers of a key keep the order of their registration, each
registration gets a token that is never used again, and a key without handlers has no entry.
-/
namespace LanguageClient

structure Registry (κ : Type) (η : Type) where
  lastToken : Nat
  slots : Keyed κ (List (Nat × η))

/-- What removes one registration. -/
structure Registration (κ : Type) where
  key : κ
  token : Nat
  deriving DecidableEq, Repr

namespace Registry
variable {κ η : Type} [DecidableEq κ]

def empty : Registry κ η := ⟨0, []⟩

instance : Inhabited (Registry κ η) := ⟨empty⟩

/-- The registrations of a key, oldest first. -/
def slot (r : Registry κ η) (key : κ) : List (Nat × η) := (r.slots.get? key).getD []

/-- Registers a handler after those already there. -/
def subscribe (key : κ) (handler : η) (r : Registry κ η) : Registration κ × Registry κ η :=
  let token := r.lastToken + 1
  (⟨key, token⟩, ⟨token, r.slots.put key (r.slot key ++ [(token, handler)])⟩)

/-- Removes exactly one registration, and the entry of its key with the last of them. -/
def unsubscribe (reg : Registration κ) (r : Registry κ η) : Registry κ η :=
  match r.slots.get? reg.key with
  | none => r
  | some handlers =>
    match handlers.filter (fun h => h.1 ≠ reg.token) with
    | [] => { r with slots := r.slots.erase reg.key }
    | kept => { r with slots := r.slots.put reg.key kept }

/-- The handlers to run for a key, oldest first. -/
def snapshot (r : Registry κ η) (key : κ) : List η := (r.slot key).map Prod.snd

def count (r : Registry κ η) (key : κ) : Nat := (r.slot key).length

@[simp] theorem snapshot_empty (key : κ) : (empty : Registry κ η).snapshot key = [] := rfl

theorem length_snapshot (r : Registry κ η) (key : κ) : (r.snapshot key).length = r.count key := by
  simp [snapshot, count]

theorem slot_subscribe (r : Registry κ η) (key other : κ) (handler : η) :
    (r.subscribe key handler).2.slot other =
      if key = other then r.slot key ++ [(r.lastToken + 1, handler)] else r.slot other := by
  simp only [subscribe, slot, Keyed.get?_put]
  split <;> rfl

theorem snapshot_subscribe (r : Registry κ η) (key other : κ) (handler : η) :
    (r.subscribe key handler).2.snapshot other =
      if key = other then r.snapshot key ++ [handler] else r.snapshot other := by
  rw [snapshot, slot_subscribe]
  split
  · exact List.map_append
  · rfl

@[simp] theorem lastToken_unsubscribe (reg : Registration κ) (r : Registry κ η) :
    (r.unsubscribe reg).lastToken = r.lastToken := by
  rw [unsubscribe]
  split
  · rfl
  · split <;> rfl

theorem slot_unsubscribe (r : Registry κ η) (reg : Registration κ) (other : κ) :
    (r.unsubscribe reg).slot other =
      if reg.key = other then (r.slot other).filter (fun h => h.1 ≠ reg.token)
      else r.slot other := by
  unfold unsubscribe
  cases hs : r.slots.get? reg.key with
  | none =>
    by_cases h : reg.key = other
    · subst h; simp [slot, hs]
    · simp [h]
  | some handlers =>
    simp only
    split
    · rename_i hf
      by_cases h : reg.key = other
      · subst h
        simp only [slot, Keyed.get?_erase, hs, if_true, Option.getD_none, Option.getD_some, hf]
      · simp [slot, Keyed.get?_erase, h]
    · by_cases h : reg.key = other
      · subst h; simp [slot, hs]
      · simp [slot, Keyed.get?_put, h]

end Registry

end LanguageClient
