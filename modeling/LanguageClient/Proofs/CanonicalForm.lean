import LanguageClient.Json.Value
import Mathlib.Data.List.Nodup
/-!
The canonical form of a value. It sorts the fields of every object, and so it changes nothing where the
keys of every object increase already, as they do in each canonical form; of a field it keeps what was
said last.
-/
namespace LanguageClient.Json

namespace Value

mutual
/-- The keys of every object increase strictly. -/
def isCanonical : Value → Bool
  | .arr items => itemsCanonical items
  | .obj fields => fieldsCanonical fields
  | .null | .bool _ | .num _ | .str _ => true

def itemsCanonical : List Value → Bool
  | [] => true
  | v :: vs => isCanonical v && itemsCanonical vs

def fieldsCanonical : List (String × Value) → Bool
  | [] => true
  | (k, v) :: fs => fs.all (fun f => k < f.1) && (isCanonical v && fieldsCanonical fs)
end

theorem itemsCanonical_mem {vs : List Value} (h : itemsCanonical vs = true) :
    ∀ v ∈ vs, v.isCanonical = true := by
  induction vs with
  | nil => exact List.forall_mem_nil _
  | cons v vs ih =>
    rw [itemsCanonical, Bool.and_eq_true] at h
    exact List.forall_mem_cons.mpr ⟨h.1, ih h.2⟩

theorem fieldsCanonical_cons {k : String} {v : Value} {fs : Fields} :
    fieldsCanonical ((k, v) :: fs) = true ↔
      (∀ f ∈ fs, k < f.1) ∧ v.isCanonical = true ∧ fieldsCanonical fs = true := by
  simp only [fieldsCanonical, Bool.and_eq_true, List.all_eq_true, decide_eq_true_eq]

theorem fieldsCanonical_sorted {fs : Fields} (h : fieldsCanonical fs = true) :
    (fs.map Prod.fst).Pairwise (· < ·) := by
  induction fs with
  | nil => exact .nil
  | cons f fs ih =>
    obtain ⟨hlt, -, hfs⟩ := fieldsCanonical_cons.mp h
    exact List.pairwise_cons.mpr ⟨List.forall_mem_map.mpr hlt, ih hfs⟩

end Value

theorem nodup_of_sorted {keys : List String} (h : keys.Pairwise (· < ·)) : keys.Nodup := by
  refine h.imp ?_
  rintro a _ hlt rfl
  exact String.lt_irrefl a hlt

theorem lookup_eq_none {α : Type} {l : List (String × α)} {key : String}
    (h : key ∉ l.map Prod.fst) : l.lookup key = none :=
  List.lookup_eq_none_iff.mpr fun f hf => by
    rw [bne_iff_ne]
    rintro rfl
    exact h (List.mem_map_of_mem hf)

theorem Fields.get?_cons (k : String) (v : Value) (fs : Fields) (key : String) :
    Fields.get? ((k, v) :: fs) key = if key = k then some v else fs.get? key := by
  by_cases h : key = k
  · subst h
    rw [Fields.get?, List.lookup_cons_self, if_pos rfl]
  · rw [Fields.get?, List.lookup_cons, beq_false_of_ne h, if_neg h]
    rfl

namespace Value

theorem fieldsCanonical_get? {fs : Fields} (h : fieldsCanonical fs = true) {key : String}
    {v : Value} (hget : fs.get? key = some v) : v.isCanonical = true := by
  induction fs with
  | nil => cases hget
  | cons f fs ih =>
    obtain ⟨k, w⟩ := f
    obtain ⟨_, hw, hfs⟩ := fieldsCanonical_cons.mp h
    rw [Fields.get?_cons] at hget
    split at hget
    · cases hget
      exact hw
    · exact ih hfs hget

end Value

namespace Fields

theorem get?_insert (k : String) (v : Value) (fs : Fields) (key : String) :
    (insert k v fs).get? key = if key = k then some v else fs.get? key := by
  induction fs with
  | nil => exact get?_cons k v [] key
  | cons f fs ih =>
    obtain ⟨l, w⟩ := f
    rw [insert]
    split
    · exact get?_cons k v _ key
    · split
      · subst k
        simp only [get?_cons]
        split <;> rfl
      · rename_i hkl
        rw [get?_cons, ih, get?_cons]
        split
        · subst key
          rw [if_neg (Ne.symm hkl)]
        · rfl

theorem mem_insert {k : String} {v : Value} {fs : Fields} {f : String × Value}
    (h : f ∈ insert k v fs) : f = (k, v) ∨ f ∈ fs := by
  induction fs with
  | nil => exact .inl (List.mem_singleton.mp h)
  | cons g fs ih =>
    rw [insert] at h
    split at h
    · exact List.mem_cons.mp h
    · split at h
      · exact (List.mem_cons.mp h).imp_right (List.mem_cons_of_mem g)
      · obtain rfl | h := List.mem_cons.mp h
        · exact .inr List.mem_cons_self
        · exact (ih h).imp_right (List.mem_cons_of_mem g)

private theorem insert_last {k : String} {v : Value} {fs : Fields} (h : ∀ f ∈ fs, f.1 < k) :
    insert k v fs = fs ++ [(k, v)] := by
  induction fs with
  | nil => rfl
  | cons f fs ih =>
    have hf := h f List.mem_cons_self
    have hne : k ≠ f.1 := by
      rintro rfl
      exact String.lt_irrefl _ hf
    rw [insert, if_neg (String.lt_asymm hf), if_neg hne,
      ih fun g hg => h g (List.mem_cons_of_mem f hg), List.cons_append]

theorem insert_canonical {k : String} {v : Value} {fs : Fields} (hv : v.isCanonical = true)
    (h : Value.fieldsCanonical fs = true) : Value.fieldsCanonical (insert k v fs) = true := by
  induction fs with
  | nil => exact Value.fieldsCanonical_cons.mpr ⟨nofun, hv, rfl⟩
  | cons f fs ih =>
    obtain ⟨l, w⟩ := f
    obtain ⟨hl, hw, hfs⟩ := Value.fieldsCanonical_cons.mp h
    rw [insert]
    split
    · rename_i hkl
      refine Value.fieldsCanonical_cons.mpr ⟨fun f hf => ?_, hv, h⟩
      obtain rfl | hf := List.mem_cons.mp hf
      · exact hkl
      · exact String.lt_trans hkl (hl f hf)
    · split
      · subst k
        exact Value.fieldsCanonical_cons.mpr ⟨hl, hv, hfs⟩
      · rename_i hkl hne
        refine Value.fieldsCanonical_cons.mpr ⟨fun f hf => ?_, hw, ih hfs⟩
        obtain rfl | hf := mem_insert hf
        · exact Std.lt_of_le_of_ne (String.not_lt.mp hkl) (Ne.symm hne)
        · exact hl f hf

end Fields

namespace Value

mutual

theorem isCanonical_canonical : ∀ v : Value, v.canonical.isCanonical = true := by
  intro v
  match v with
  | .arr items => exact itemsCanonical_canonicalItems items
  | .obj fields => exact fieldsCanonical_canonicalFields fields [] rfl
  | .null | .bool _ | .num _ | .str _ => rfl

private theorem itemsCanonical_canonicalItems : ∀ vs : List Value,
    itemsCanonical (canonicalItems vs) = true := by
  intro vs
  match vs with
  | [] => rfl
  | v :: vs =>
    rw [canonicalItems, itemsCanonical, isCanonical_canonical v, itemsCanonical_canonicalItems vs]
    rfl

private theorem fieldsCanonical_canonicalFields : ∀ fs acc : Fields,
    fieldsCanonical acc = true → fieldsCanonical (canonicalFields fs acc) = true := by
  intro fs acc h
  match fs with
  | [] => exact h
  | (k, v) :: fs =>
    exact fieldsCanonical_canonicalFields fs _
      (Fields.insert_canonical (isCanonical_canonical v) h)

end

mutual

theorem canonical_eq : ∀ {v : Value}, v.isCanonical = true → v.canonical = v := by
  intro v h
  match v with
  | .arr items =>
    rw [isCanonical] at h
    rw [canonical, canonicalItems_eq h]
  | .obj fields =>
    rw [isCanonical] at h
    rw [canonical, canonicalFields_eq h (List.forall_mem_nil _), List.nil_append]
  | .null | .bool _ | .num _ | .str _ => rfl

private theorem canonicalItems_eq : ∀ {vs : List Value}, itemsCanonical vs = true →
    canonicalItems vs = vs := by
  intro vs h
  match vs with
  | [] => rfl
  | v :: vs =>
    rw [itemsCanonical, Bool.and_eq_true] at h
    rw [canonicalItems, canonical_eq h.1, canonicalItems_eq h.2]

private theorem canonicalFields_eq : ∀ {fs acc : Fields}, fieldsCanonical fs = true →
    (∀ f ∈ acc, ∀ g ∈ fs, f.1 < g.1) → canonicalFields fs acc = acc ++ fs := by
  intro fs acc h hacc
  match fs with
  | [] => rw [canonicalFields, List.append_nil]
  | ⟨k, v⟩ :: fs =>
    obtain ⟨hk, hv, hfs⟩ := fieldsCanonical_cons.mp h
    have hlast := Fields.insert_last (v := v) fun f hf => hacc f hf (k, v) List.mem_cons_self
    have hnext : ∀ f ∈ acc ++ [(k, v)], ∀ g ∈ fs, f.1 < g.1 := by
      intro f hf g hg
      obtain hf | hf := List.mem_append.mp hf
      · exact hacc f hf g (List.mem_cons_of_mem _ hg)
      · rw [List.mem_singleton.mp hf]
        exact hk g hg
    rw [canonicalFields, canonical_eq hv, hlast, canonicalFields_eq hfs hnext, List.append_assoc,
      List.singleton_append]

end

private theorem get?_canonicalFields_append {fs : Fields} (h : (fs.map Prod.fst).Nodup)
    (acc : Fields) (key : String) : Fields.get? (canonicalFields fs acc) key =
      ((fs.get? key).map canonical).or (acc.get? key) := by
  induction fs generalizing acc with
  | nil => rfl
  | cons f fs ih =>
    obtain ⟨k, v⟩ := f
    obtain ⟨hk, hfs⟩ := List.nodup_cons.mp h
    rw [canonicalFields, ih hfs, Fields.get?_insert, Fields.get?_cons]
    by_cases hkey : key = k
    · subst hkey
      rw [Fields.get?, lookup_eq_none hk, if_pos rfl, if_pos rfl]
      rfl
    · rw [if_neg hkey, if_neg hkey]

/-- Where no key repeats, every field is found in the canonical form, with its value in canonical
form. -/
theorem get?_canonicalFields {fs : Fields} (h : (fs.map Prod.fst).Nodup) (key : String) :
    Fields.get? (canonicalFields fs []) key = (fs.get? key).map canonical := by
  rw [get?_canonicalFields_append h, Fields.get?, Fields.get?, List.lookup_nil, Option.or_none]

end Value

namespace Fields
variable {l : List (String × Option Value)}

theorem present_none (k : String) (l : List (String × Option Value)) :
    present ((k, none) :: l) = present l := rfl

theorem present_some (k : String) (v : Value) (l : List (String × Option Value)) :
    present ((k, some v) :: l) = (k, v) :: present l := rfl

theorem get?_present (h : (l.map Prod.fst).Nodup) (key : String) :
    (present l).get? key = (l.lookup key).join := by
  induction l with
  | nil => rfl
  | cons f l ih =>
    obtain ⟨k, o⟩ := f
    obtain ⟨hk, hl⟩ := List.nodup_cons.mp h
    by_cases hkey : key = k
    · subst hkey
      rw [List.lookup_cons_self]
      cases o with
      | none =>
        rw [present_none, ih hl, lookup_eq_none hk]
        rfl
      | some v =>
        rw [present_some, get?_cons, if_pos rfl]
        rfl
    · rw [List.lookup_cons, beq_false_of_ne hkey]
      cases o with
      | none => exact ih hl
      | some v =>
        rw [present_some, get?_cons, if_neg hkey]
        exact ih hl

theorem nodup_present (h : (l.map Prod.fst).Nodup) :
    ((present l).map Prod.fst).Nodup := by
  refine List.Nodup.sublist ?_ h
  induction l with
  | nil => exact .slnil
  | cons f l ih =>
    obtain ⟨k, _ | v⟩ := f
    · exact .cons k (ih (List.nodup_cons.mp h).2)
    · exact .cons_cons k (ih (List.nodup_cons.mp h).2)

end Fields

namespace Fields

private theorem insert_comm {k l : String} (hkl : k ≠ l) (v w : Value) (fs : Fields) :
    insert k v (insert l w fs) = insert l w (insert k v fs) := by
  have hlt : k < l ∨ l < k := by
    by_cases h : k < l
    · exact .inl h
    · exact .inr (Std.lt_of_le_of_ne (String.not_lt.mp h) (Ne.symm hkl))
  induction fs with
  | nil => grind [insert, String.lt_asymm]
  | cons f fs ih => grind [insert, String.lt_asymm, String.lt_trans]

/-- Where no key repeats, the order in which fields are given does not count. -/
theorem ofList_perm {fs gs : Fields} (hfs : (fs.map Prod.fst).Nodup) (h : fs.Perm gs) :
    ofList fs = ofList gs := by
  refine h.foldl_eq' (fun f hf g hg acc => ?_) []
  by_cases hkey : g.1 = f.1
  · rw [List.inj_on_of_nodup_map hfs hg hf hkey]
  · exact insert_comm hkey g.2 f.2 acc

end Fields

namespace Value

private theorem canonicalFields_eq_foldl (fs acc : Fields) : canonicalFields fs acc =
    (fs.map fun f => (f.1, f.2.canonical)).foldl (fun acc f => Fields.insert f.1 f.2 acc) acc := by
  induction fs generalizing acc with
  | nil => rfl
  | cons f fs ih => exact ih _

theorem canonicalFields_eq_ofList (fs : Fields) :
    canonicalFields fs [] = Fields.ofList (fs.map fun f => (f.1, f.2.canonical)) :=
  canonicalFields_eq_foldl fs []

end Value

end LanguageClient.Json
