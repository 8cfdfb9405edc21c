import LanguageClient.Proofs.CanonicalForm
import LanguageClient.Proofs.CorrectRounding
import LanguageClient.Toml.Table
import LanguageClient.Toml.Writer
import Mathlib.Data.List.Nodup
/-!
The tables that sections build. The sections of a table are put together to the table again, whether a
table inside it has a header of its own or is only implied by longer ones, and whether it stands alone or
in a list; the order in which its fields were written is lost.
-/
namespace LanguageClient.Toml
open Json

namespace Entries
variable {es : Entries} {k : String}

private theorem find?_append (es ds : Entries) (key : String) :
    find? (es ++ ds) key = (es.find? key).or (find? ds key) :=
  List.lookup_append

private theorem find?_single (k : String) (n : Node) (key : String) :
    find? [(k, n)] key = if key = k then some n else none := by
  rw [find?, List.lookup_cons]
  by_cases h : key = k
  · rw [if_pos h, beq_iff_eq.mpr h]
  · rw [if_neg h, beq_false_of_ne h]
    rfl

theorem find?_concat_of_ne (es : Entries) {k key : String} (h : key ≠ k) (n : Node) :
    find? (es ++ [(k, n)]) key = es.find? key := by
  rw [find?_append, find?_single, if_neg h, Option.or_none]

private theorem find?_concat (h : es.find? k = none) (n : Node) :
    find? (es ++ [(k, n)]) k = some n := by
  rw [find?_append, find?_single, if_pos rfl, h, Option.none_or]

private theorem find?_put (es : Entries) (k : String) (n : Node) :
    find? (es.put k n) k = some n := by
  induction es with
  | nil => rw [put, find?_single, if_pos rfl]
  | cons e es ih =>
    rw [put]
    split
    · exact List.lookup_cons_self
    · rename_i h
      rw [find?, List.lookup_cons, beq_false_of_ne (Ne.symm h)]
      exact ih

private theorem put_put (es : Entries) (k : String) (m n : Node) :
    (es.put k m).put k n = es.put k n := by
  induction es with
  | nil => exact if_pos rfl
  | cons e es ih =>
    rw [put]
    split
    · rename_i h
      rw [put, put, if_pos rfl, if_pos h]
    · rename_i h
      rw [put, put, if_neg h, if_neg h, ih]

private theorem put_new (h : es.find? k = none) (n : Node) : es.put k n = es ++ [(k, n)] := by
  induction es with
  | nil => rfl
  | cons e es ih =>
    obtain ⟨l, m⟩ := e
    rw [find?, List.lookup_cons] at h
    split at h
    · cases h
    · rename_i hne
      have hlk : l ≠ k := fun heq => by simp [heq] at hne
      rw [put, if_neg hlk, ih h, List.cons_append]

private theorem put_concat (h : es.find? k = none) (m n : Node) :
    put k n (es ++ [(k, m)]) = es ++ [(k, n)] := by
  rw [← put_new h, put_put, put_new h]

theorem within_cons (f : Entries → Option Entries) (k : String) (ks : List String) (es : Entries) :
    within f (k :: ks) es = within (within f ks) [k] es := by
  cases h : es.find? k with
  | none => simp only [within, h]
  | some n => cases n <;> simp only [within, h]

/-- Two changes inside one table are one change. -/
theorem within_bind (f g : Entries → Option Entries) (k : String) (es : Entries) :
    (within f [k] es).bind (within g [k]) = within (fun sub => (f sub).bind g) [k] es := by
  cases h : es.find? k with
  | none =>
    simp only [within, h]
    cases f [] with
    | none => rfl
    | some sub => simp only [Option.map_some, Option.bind_some, find?_put, put_put]
  | some n =>
    cases n with
    | value v => simp only [within, h, Option.bind_none]
    | table o sub =>
      simp only [within, h]
      cases f sub with
      | none => rfl
      | some sub => simp only [Option.map_some, Option.bind_some, find?_put, put_put]
    | tables elements =>
      cases hlast : elements.getLast? with
      | none => simp only [within, h, hlast, Option.bind_none]
      | some last =>
        simp only [within, h, hlast]
        cases f last with
        | none => rfl
        | some sub =>
          simp only [Option.map_some, Option.bind_some, find?_put, put_put, List.getLast?_concat,
            List.dropLast_concat]

theorem within_some {f : Entries → Option Entries} {ds : Entries} (h : within f [k] es = some ds) :
    within some [k] ds = some ds := by
  have hbind := within_bind f some k es
  have hsame : (fun sub => (f sub).bind some) = f := funext fun sub => Option.bind_fun_some _
  rwa [hsame, h] at hbind

theorem within_table (h : es.find? k = none) (f : Entries → Option Entries) (o : Origin)
    (sub : Entries) : within f [k] (es ++ [(k, .table o sub)]) =
      (f sub).map fun sub => es ++ [(k, .table o sub)] := by
  simp only [within, find?_concat h, put_concat h]

theorem within_tables (h : es.find? k = none) (f : Entries → Option Entries) (done : List Entries)
    (sub : Entries) : within f [k] (es ++ [(k, .tables (done ++ [sub]))]) =
      (f sub).map fun sub => es ++ [(k, .tables (done ++ [sub]))] := by
  simp only [within, find?_concat h, put_concat h, List.getLast?_concat, List.dropLast_concat]

theorem within_new (h : es.find? k = none) (f : Entries → Option Entries) :
    within f [k] es = (f []).map fun sub => es ++ [(k, .table .implied sub)] := by
  simp only [within, h, put_new h]

end Entries

mutual
/-- No null, no key twice in one object, no whole number but those of 64 bits, and every other number in its
usual form. -/
def expressible : Value → Bool
  | .null => false
  | .bool _ | .str _ => true
  | .num (.int n) => Limits.minInt64 ≤ n ∧ n ≤ Limits.maxNat64
  | .num (.real x) => x.Proper
  | .arr items => allExpressible items
  | .obj fields => (fields.map Prod.fst).Nodup && fieldsExpressible fields

def allExpressible : List Value → Bool
  | [] => true
  | v :: vs => expressible v && allExpressible vs

def fieldsExpressible : List (String × Value) → Bool
  | [] => true
  | (_, v) :: fs => expressible v && fieldsExpressible fs
end

theorem expressible_obj {fs : Fields} :
    expressible (.obj fs) = true ↔ (fs.map Prod.fst).Nodup ∧ fieldsExpressible fs = true := by
  rw [expressible, Bool.and_eq_true, decide_eq_true_eq]

theorem fieldsExpressible_iff {fs : Fields} :
    fieldsExpressible fs = true ↔ ∀ f ∈ fs, expressible f.2 = true := by
  induction fs with
  | nil => exact ⟨fun _ => List.forall_mem_nil _, fun _ => rfl⟩
  | cons f fs ih => rw [fieldsExpressible, Bool.and_eq_true, List.forall_mem_cons, ih]

mutual
/-- Every whole number has 64 bits, with or without a sign, and every other number is a value in its usual
form. -/
def numbersFit : Value → Bool
  | .num (.int n) => Limits.minInt64 ≤ n ∧ n ≤ Limits.maxNat64
  | .num (.real x) => x.Proper
  | .arr items => itemsFit items
  | .obj fields => fieldsFit fields
  | .null | .bool _ | .str _ => true

def itemsFit : List Value → Bool
  | [] => true
  | v :: vs => numbersFit v && itemsFit vs

def fieldsFit : List (String × Value) → Bool
  | [] => true
  | (_, v) :: fs => numbersFit v && fieldsFit fs
end

mutual

/-- A value in its canonical form can be said if its numbers can, unless there is a null in it. -/
theorem expressible_of_fit : ∀ v : Value, numbersFit v = true → v.isCanonical = true →
    hasNull v = false → expressible v = true := by
  intro v hf hc hn
  match v with
  | .null => cases hn
  | .bool _ | .str _ => rfl
  | .num (.int n) => exact hf
  | .num (.real x) => exact hf
  | .arr items => exact allExpressible_of_fit items hf hc hn
  | .obj fields =>
    exact expressible_obj.mpr
      ⟨nodup_of_sorted (Value.fieldsCanonical_sorted hc), fieldsExpressible_of_fit fields hf hc hn⟩

private theorem allExpressible_of_fit : ∀ vs : List Value, itemsFit vs = true →
    Value.itemsCanonical vs = true → anyNull vs = false → allExpressible vs = true := by
  intro vs hf hc hn
  match vs with
  | [] => rfl
  | v :: vs =>
    rw [itemsFit, Bool.and_eq_true] at hf
    rw [Value.itemsCanonical, Bool.and_eq_true] at hc
    rw [anyNull, Bool.or_eq_false_iff] at hn
    rw [allExpressible, Bool.and_eq_true]
    exact ⟨expressible_of_fit v hf.1 hc.1 hn.1, allExpressible_of_fit vs hf.2 hc.2 hn.2⟩

private theorem fieldsExpressible_of_fit : ∀ fs : Fields, fieldsFit fs = true →
    Value.fieldsCanonical fs = true → anyFieldNull fs = false → fieldsExpressible fs = true := by
  intro fs hf hc hn
  match fs with
  | [] => rfl
  | (k, v) :: fs =>
    rw [fieldsFit, Bool.and_eq_true] at hf
    obtain ⟨-, hv, hfs⟩ := Value.fieldsCanonical_cons.mp hc
    rw [anyFieldNull, Bool.or_eq_false_iff] at hn
    rw [fieldsExpressible, Bool.and_eq_true]
    exact ⟨expressible_of_fit v hf.1 hv hn.1, fieldsExpressible_of_fit fs hf.2 hfs hn.2⟩

end

/-- The plain values of a table in the form that the reader gives them. -/
def assignments (fs : Fields) : List (List String × String × Value) :=
  fs.map fun f => ([], f.1, f.2.canonical)

namespace Entries

def ofPlain (fs : Fields) : Entries := fs.map fun f => (f.1, .value f.2.canonical)

theorem insertAll_assignments {fs : Fields} (hfs : (fs.map Prod.fst).Nodup) {es : Entries}
    (hes : ∀ f ∈ fs, es.find? f.1 = none) : insertAll (assignments fs) es = some (es ++ ofPlain fs) := by
  induction fs generalizing es with
  | nil => rw [assignments, ofPlain, List.map_nil, List.map_nil, List.append_nil]; rfl
  | cons f fs ih =>
    obtain ⟨hf, hfs⟩ := List.nodup_cons.mp hfs
    have hnew := hes f List.mem_cons_self
    have hrest : ∀ g ∈ fs, find? (es ++ [(f.1, .value f.2.canonical)]) g.1 = none := by
      intro g hg
      have hne : g.1 ≠ f.1 := fun h => hf (h ▸ List.mem_map_of_mem hg)
      rw [find?_concat_of_ne es hne]
      exact hes g (List.mem_cons_of_mem f hg)
    have hput := put_new hnew (.value f.2.canonical)
    have hih := ih hfs hrest
    rw [insertAll] at hih ⊢
    rw [assignments, List.map_cons, List.foldlM_cons, insert, hnew, hput]
    change List.foldlM _ _ (assignments fs) = _
    rw [hih, List.append_assoc]
    rfl

end Entries

namespace Section

/-- The tables after a section was read. -/
def apply (s : Section) (es : Entries) : Option Entries :=
  let key := s.path.getLast?.getD ""
  Entries.within (if s.element then Entries.append key (assignments s.body)
    else Entries.define key (assignments s.body)) s.path.dropLast es

def applyAll (ss : List Section) (es : Entries) : Option Entries :=
  ss.foldlM (fun es s => s.apply es) es

/-- The section of the same table, seen from outside the table of a key. -/
def under (k : String) (s : Section) : Section := { s with path := k :: s.path }

theorem applyAll_cons (s : Section) (ss : List Section) (es : Entries) :
    applyAll (s :: ss) es = (s.apply es).bind (applyAll ss) := rfl

theorem applyAll_append (ss ts : List Section) (es : Entries) :
    applyAll (ss ++ ts) es = (applyAll ss es).bind (applyAll ts) :=
  List.foldlM_append

private theorem apply_under {s : Section} (h : s.path ≠ []) (k : String) (es : Entries) :
    (s.under k).apply es = Entries.within s.apply [k] es := by
  have hlast : (k :: s.path).getLast? = s.path.getLast? := by
    obtain ⟨l, ls, hl⟩ := List.exists_cons_of_ne_nil h
    rw [hl, List.getLast?_cons_cons]
  simp only [apply, under]
  rw [hlast, List.dropLast_cons_of_ne_nil h, Entries.within_cons]
  rfl

theorem applyAll_under {ss : List Section} (hss : ∀ s ∈ ss, s.path ≠ []) {k : String} {es : Entries}
    (hes : ss = [] → Entries.within some [k] es = some es) :
    applyAll (ss.map (under k)) es = Entries.within (applyAll ss) [k] es := by
  induction ss generalizing es with
  | nil => exact (hes rfl).symm
  | cons s ss ih =>
    have hss' : ∀ t ∈ ss, t.path ≠ [] := fun t ht => hss t (List.mem_cons_of_mem s ht)
    rw [List.map_cons, applyAll_cons, apply_under (hss s List.mem_cons_self)]
    calc (Entries.within s.apply [k] es).bind (applyAll (ss.map (under k)))
        = (Entries.within s.apply [k] es).bind (Entries.within (applyAll ss) [k]) := by
          cases h : Entries.within s.apply [k] es with
          | none => rfl
          | some ds => exact ih hss' fun _ => Entries.within_some h
      _ = Entries.within (applyAll (s :: ss)) [k] es := Entries.within_bind _ _ k es

end Section

mutual

private theorem sectionsOf_under (k : String) : ∀ (v : Value) (path : List String) (element : Bool),
    sectionsOf (k :: path) element v = (sectionsOf path element v).map (Section.under k) := by
  intro v path element
  match v with
  | .obj fs =>
    rw [sectionsOf, sectionsOf, List.map_cons, sections_under k fs path]
    rfl
  | .arr items =>
    rw [sectionsOf, sectionsOf]
    split
    · exact elements_under k items path
    · rfl
  | .null | .bool _ | .num _ | .str _ => rfl

private theorem sections_under (k : String) : ∀ (fs : Fields) (path : List String),
    sections (k :: path) fs = (sections path fs).map (Section.under k) := by
  intro fs path
  match fs with
  | [] => rfl
  | (l, v) :: fs =>
    rw [sections, sections, List.cons_append, sectionsOf_under k v, sections_under k fs,
      List.map_append]

private theorem elements_under (k : String) : ∀ (items : List Value) (path : List String),
    elements (k :: path) items = (elements path items).map (Section.under k) := by
  intro items path
  match items with
  | [] => rfl
  | v :: items =>
    rw [elements, elements, sectionsOf_under k v, elements_under k items, List.map_append]

end

mutual

private theorem sectionsOf_path : ∀ (v : Value) {path : List String} (element : Bool), path ≠ [] →
    ∀ s ∈ sectionsOf path element v, s.path ≠ [] := by
  intro v path element h s hs
  match v with
  | .obj fs =>
    rw [sectionsOf, List.mem_cons] at hs
    obtain rfl | hs := hs
    · exact h
    · exact sections_path fs path s hs
  | .arr items =>
    rw [sectionsOf] at hs
    split at hs
    · exact elements_path items h s hs
    · cases hs
  | .null | .bool _ | .num _ | .str _ => cases hs

private theorem sections_path : ∀ (fs : Fields) (path : List String),
    ∀ s ∈ sections path fs, s.path ≠ [] := by
  intro fs path s hs
  match fs with
  | [] => cases hs
  | (k, v) :: fs =>
    rw [sections, List.mem_append] at hs
    obtain hs | hs := hs
    · exact sectionsOf_path v false (List.append_ne_nil_of_right_ne_nil path (List.cons_ne_nil k [])) s hs
    · exact sections_path fs path s hs

private theorem elements_path : ∀ (items : List Value) {path : List String}, path ≠ [] →
    ∀ s ∈ elements path items, s.path ≠ [] := by
  intro items path h s hs
  match items with
  | [] => cases hs
  | v :: items =>
    rw [elements, List.mem_append] at hs
    obtain hs | hs := hs
    · exact sectionsOf_path v true h s hs
    · exact elements_path items h s hs

end

/-- The sections of the tables inside a table that have a header. -/
def written (fs : Fields) : List Section := (sections [] fs).filter Section.isWritten

private theorem filter_under (k : String) (ss : List Section) :
    (ss.map (Section.under k)).filter Section.isWritten =
      (ss.filter Section.isWritten).map (Section.under k) := by
  rw [List.filter_map]
  rfl

private theorem filter_sections (k : String) (fs : Fields) :
    (sections [k] fs).filter Section.isWritten = (written fs).map (Section.under k) := by
  rw [sections_under, filter_under, written]

theorem written_path (fs : Fields) : ∀ s ∈ written fs, s.path ≠ [] :=
  fun s hs => sections_path fs [] s (List.mem_filter.mp hs).1

/-- There are tables inside a table that has no header of its own. -/
def impliedOnly (fs : Fields) : Bool := (plain fs).isEmpty && fs.any (fun f => isTabular f.2)

private theorem isWritten_table (path : List String) (fs : Fields) :
    Section.isWritten ⟨path, false, plain fs, fs.any fun f => isTabular f.2⟩ = !impliedOnly fs := by
  simp only [Section.isWritten, impliedOnly, Bool.false_or, Bool.not_and]

mutual

private theorem sectionsOf_written : ∀ (v : Value) (path : List String) (element : Bool),
    isTabular v = true → (sectionsOf path element v).filter Section.isWritten ≠ [] := by
  intro v path element h
  match v with
  | .obj fs =>
    rw [sectionsOf, List.filter_cons]
    split
    · exact List.cons_ne_nil _ _
    · rename_i hw
      simp only [Section.isWritten, Bool.or_eq_true, Bool.not_eq_true', not_or] at hw
      exact sections_written fs path (by simpa using hw.2)
  | .arr (.obj fs :: items) =>
    rw [sectionsOf, if_pos h, elements, sectionsOf, List.cons_append, List.filter_cons_of_pos rfl]
    exact List.cons_ne_nil _ _
  | .arr [] | .arr (.null :: _) | .arr (.bool _ :: _) | .arr (.num _ :: _) | .arr (.str _ :: _)
  | .arr (.arr _ :: _) | .null | .bool _ | .num _ | .str _ => cases h

private theorem sections_written : ∀ (fs : Fields) (path : List String),
    fs.any (fun f => isTabular f.2) = true → (sections path fs).filter Section.isWritten ≠ [] := by
  intro fs path h
  match fs with
  | [] => cases h
  | (k, v) :: fs =>
    rw [List.any_cons, Bool.or_eq_true] at h
    rw [sections, List.filter_append]
    obtain h | h := h
    · exact List.append_ne_nil_of_left_ne_nil (sectionsOf_written v _ false h) _
    · exact List.append_ne_nil_of_right_ne_nil _ (sections_written fs path h)

end

mutual
/-- What the sections of a table or of a list of tables build. -/
def Node.ofTabular : Value → Node
  | .obj fs => .table (if impliedOnly fs then .implied else .header)
      (Entries.ofPlain (plain fs) ++ Entries.ofTables fs)
  | .arr items => .tables (Entries.ofElements items)
  | v => .value v

/-- What the sections of the tables among fields build. -/
def Entries.ofTables : Fields → Entries
  | [] => []
  | (k, v) :: fs =>
    if isTabular v then (k, Node.ofTabular v) :: Entries.ofTables fs else Entries.ofTables fs

def Entries.ofElements : List Value → List Entries
  | [] => []
  | .obj fs :: items => (Entries.ofPlain (plain fs) ++ Entries.ofTables fs) :: Entries.ofElements items
  | _ :: items => Entries.ofElements items
end

/-- Everything that is read of a table. -/
def Entries.ofTable (fs : Fields) : Entries := Entries.ofPlain (plain fs) ++ Entries.ofTables fs

private theorem nodup_plain {fs : Fields} (h : (fs.map Prod.fst).Nodup) :
    ((plain fs).map Prod.fst).Nodup :=
  h.sublist (List.filter_sublist.map Prod.fst)

private theorem find?_ofPlain {fs : Fields} (h : (fs.map Prod.fst).Nodup) {f : String × Value}
    (hf : f ∈ fs) (htab : isTabular f.2 = true) : (Entries.ofPlain (plain fs)).find? f.1 = none := by
  refine lookup_eq_none fun hmem => ?_
  rw [Entries.ofPlain, List.map_map, List.mem_map] at hmem
  obtain ⟨g, hg, hkey⟩ := hmem
  obtain ⟨hg, hplain⟩ := List.mem_filter.mp hg
  have heq : g = f := List.inj_on_of_nodup_map h hg hf hkey
  rw [heq, htab] at hplain
  cases hplain

private theorem insertAll_plain {fs : Fields} (h : (fs.map Prod.fst).Nodup) :
    Entries.insertAll (assignments (plain fs)) [] = some (Entries.ofPlain (plain fs)) := by
  rw [Entries.insertAll_assignments (nodup_plain h) fun _ _ => rfl, List.nil_append]

section table
variable {fs : Fields} (hkeys : (fs.map Prod.fst).Nodup)
  (hinner : ∀ {es : Entries}, (∀ f ∈ fs, isTabular f.2 = true → es.find? f.1 = none) →
    Section.applyAll (written fs) es = some (es ++ Entries.ofTables fs))
  {k : String} {es : Entries} (hk : es.find? k = none)
include hkeys hinner hk

private theorem applyAll_table : Section.applyAll
    ((sectionsOf [k] false (.obj fs)).filter Section.isWritten) es =
      some (es ++ [(k, Node.ofTabular (.obj fs))]) := by
  rw [sectionsOf, List.filter_cons, filter_sections, Node.ofTabular, isWritten_table]
  cases himplied : impliedOnly fs with
  | false =>
    have hheader : Section.apply ⟨[k], false, plain fs, fs.any fun f => isTabular f.2⟩ es =
        some (es ++ [(k, .table .header (Entries.ofPlain (plain fs)))]) := by
      simp only [Section.apply, List.getLast?_singleton, Option.getD_some, Bool.false_eq_true,
        if_false, List.dropLast_singleton, Entries.within, Entries.define, hk, insertAll_plain hkeys,
        Option.map_some, Entries.put_new hk]
    rw [Bool.not_false, if_pos rfl, Section.applyAll_cons, hheader, Option.bind_some,
      Section.applyAll_under (written_path fs) fun _ => Entries.within_table hk some _ _,
      Entries.within_table hk, hinner fun f hf htab => find?_ofPlain hkeys hf htab]
    rfl
  | true =>
    rw [impliedOnly, Bool.and_eq_true] at himplied
    have hplain : plain fs = [] := List.isEmpty_iff.mp himplied.1
    have hwritten : written fs ≠ [] := sections_written fs [] himplied.2
    rw [Bool.not_true, if_neg Bool.false_ne_true,
      Section.applyAll_under (written_path fs) fun h => absurd h hwritten, Entries.within_new hk,
      hinner fun _ _ _ => rfl, hplain]
    rfl

private theorem applyAll_element {done : List Entries} {ds : Entries}
    (hds : ds = es ∧ done = [] ∨ ds = es ++ [(k, .tables done)]) :
    Section.applyAll ((sectionsOf [k] true (.obj fs)).filter Section.isWritten) ds =
      some (es ++ [(k, .tables (done ++ [Entries.ofTable fs]))]) := by
  have hheader : Section.apply ⟨[k], true, plain fs, fs.any fun f => isTabular f.2⟩ ds =
      some (es ++ [(k, .tables (done ++ [Entries.ofPlain (plain fs)]))]) := by
    simp only [Section.apply, List.getLast?_singleton, Option.getD_some, if_true,
      List.dropLast_singleton, Entries.within, Entries.append, insertAll_plain hkeys, Option.bind_some]
    obtain ⟨rfl, rfl⟩ | rfl := hds
    · simp only [hk, Entries.put_new hk, List.nil_append]
    · simp only [Entries.find?_concat hk, Entries.put_concat hk]
  rw [sectionsOf, List.filter_cons_of_pos rfl, filter_sections, Section.applyAll_cons, hheader,
    Option.bind_some, Section.applyAll_under (written_path fs) fun _ => Entries.within_tables hk some _ _,
    Entries.within_tables hk, hinner fun f hf htab => find?_ofPlain hkeys hf htab]
  rfl

end table

mutual

private theorem applyAll_sectionsOf : ∀ (v : Value) {k : String} {es : Entries},
    expressible v = true → isTabular v = true → es.find? k = none →
      Section.applyAll ((sectionsOf [k] false v).filter Section.isWritten) es =
        some (es ++ [(k, Node.ofTabular v)]) := by
  intro v k es hv htab hk
  match v with
  | .obj fs =>
    obtain ⟨hkeys, hfs⟩ := expressible_obj.mp hv
    exact applyAll_table hkeys (applyAll_sections fs hkeys hfs) hk
  | .arr (.obj fs :: items) =>
    rw [expressible, allExpressible, Bool.and_eq_true] at hv
    obtain ⟨hkeys, hfs⟩ := expressible_obj.mp hv.1
    have hitems : items.all isTable = true := htab
    rw [sectionsOf, if_pos htab, elements, List.filter_append, Section.applyAll_append,
      applyAll_element hkeys (applyAll_sections fs hkeys hfs) hk (.inl ⟨rfl, rfl⟩), Option.bind_some,
      applyAll_elements items hv.2 hitems hk]
    rfl
  | .arr [] | .arr (.null :: _) | .arr (.bool _ :: _) | .arr (.num _ :: _) | .arr (.str _ :: _)
  | .arr (.arr _ :: _) | .null | .bool _ | .num _ | .str _ => cases htab

private theorem applyAll_sections : ∀ (fs : Fields) {es : Entries},
    (fs.map Prod.fst).Nodup → fieldsExpressible fs = true →
      (∀ f ∈ fs, isTabular f.2 = true → es.find? f.1 = none) →
        Section.applyAll (written fs) es = some (es ++ Entries.ofTables fs) := by
  intro fs es hkeys hfs hes
  match fs with
  | [] =>
    rw [Entries.ofTables, List.append_nil]
    rfl
  | (k, v) :: fs =>
    obtain ⟨hk, hkeys⟩ := List.nodup_cons.mp hkeys
    rw [fieldsExpressible, Bool.and_eq_true] at hfs
    have hwritten : written ((k, v) :: fs) =
        (sectionsOf [k] false v).filter Section.isWritten ++ written fs := List.filter_append ..
    rw [hwritten, Section.applyAll_append, Entries.ofTables]
    by_cases htab : isTabular v = true
    · have hnew : ∀ f ∈ fs, isTabular f.2 = true →
          (es ++ [(k, Node.ofTabular v)]).find? f.1 = none := by
        intro f hf hft
        have hne : f.1 ≠ k := fun h => hk (List.mem_map.mpr ⟨f, hf, h⟩)
        rw [Entries.find?_concat_of_ne es hne]
        exact hes f (List.mem_cons_of_mem _ hf) hft
      rw [applyAll_sectionsOf v hfs.1 htab (hes _ List.mem_cons_self htab), Option.bind_some,
        applyAll_sections fs hkeys hfs.2 hnew, if_pos htab, List.append_assoc]
      rfl
    · have hnone : sectionsOf [k] false v = [] := by
        cases v <;> first | rfl | exact absurd rfl htab | exact if_neg htab
      have hes' : ∀ f ∈ fs, isTabular f.2 = true → es.find? f.1 = none :=
        fun f hf => hes f (List.mem_cons_of_mem _ hf)
      rw [hnone, if_neg htab]
      exact applyAll_sections fs hkeys hfs.2 hes'

private theorem applyAll_elements : ∀ (items : List Value) {k : String} {es : Entries}
    {done : List Entries}, allExpressible items = true → items.all isTable = true →
      es.find? k = none →
        Section.applyAll ((elements [k] items).filter Section.isWritten) (es ++ [(k, .tables done)]) =
          some (es ++ [(k, .tables (done ++ Entries.ofElements items))]) := by
  intro items k es done hitems htables hk
  match items with
  | [] =>
    rw [Entries.ofElements, List.append_nil]
    rfl
  | .obj fs :: items =>
    rw [allExpressible, Bool.and_eq_true] at hitems
    obtain ⟨hkeys, hfs⟩ := expressible_obj.mp hitems.1
    rw [elements, List.filter_append, Section.applyAll_append,
      applyAll_element hkeys (applyAll_sections fs hkeys hfs) hk (.inr rfl), Option.bind_some,
      applyAll_elements items hitems.2 htables hk, List.append_assoc]
    rfl
  | .null :: _ | .bool _ :: _ | .num _ :: _ | .str _ :: _ | .arr _ :: _ => cases htables

end

private theorem entryFields_eq_foldl (es : Entries) (acc : Fields) : Node.entryFields es acc =
    (es.map fun e => (e.1, e.2.toValue)).foldl (fun acc f => Fields.insert f.1 f.2 acc) acc := by
  induction es generalizing acc with
  | nil => rfl
  | cons e es ih => exact ih _

private theorem toValue_ofPlain (fs : Fields) :
    (Entries.ofPlain fs).map (fun e => (e.1, e.2.toValue)) = fs.map fun f => (f.1, f.2.canonical) := by
  rw [Entries.ofPlain, List.map_map]
  rfl

theorem Node.toValue_ofPlain (o : Origin) (fs : Fields) :
    (Node.table o (Entries.ofPlain fs)).toValue = (Value.obj fs).canonical := by
  rw [Node.toValue, entryFields_eq_foldl, Toml.toValue_ofPlain, Value.canonical,
    Value.canonicalFields_eq_ofList]
  rfl

private theorem entryFields_ofTable {fs : Fields} (hkeys : (fs.map Prod.fst).Nodup)
    (htables : (Entries.ofTables fs).map (fun e => (e.1, e.2.toValue)) =
      (fs.filter fun f => isTabular f.2).map fun f => (f.1, f.2.canonical)) :
    Node.entryFields (Entries.ofTable fs) [] = Value.canonicalFields fs [] := by
  have hperm : (plain fs ++ fs.filter fun f => isTabular f.2).Perm fs :=
    List.perm_append_comm.trans (List.filter_append_perm _ fs)
  have hcanonical := hperm.map fun f => (f.1, f.2.canonical)
  have hnodup : (((fs.map fun f => (f.1, f.2.canonical))).map Prod.fst).Nodup := by
    rwa [List.map_map]
  rw [entryFields_eq_foldl, Entries.ofTable, List.map_append, toValue_ofPlain, htables,
    ← List.map_append, Value.canonicalFields_eq_ofList]
  exact (Fields.ofList_perm hnodup hcanonical.symm).symm

mutual

private theorem toValue_ofTabular : ∀ (v : Value), expressible v = true → isTabular v = true →
    (Node.ofTabular v).toValue = v.canonical := by
  intro v hv htab
  match v with
  | .obj fs =>
    obtain ⟨hkeys, hfs⟩ := expressible_obj.mp hv
    rw [Node.ofTabular, Node.toValue, Value.canonical]
    exact congrArg Value.obj (entryFields_ofTable hkeys (toValue_ofTables fs hfs))
  | .arr (.obj fs :: items) =>
    rw [Node.ofTabular, Node.toValue, Value.canonical]
    exact congrArg Value.arr (elementValues_ofElements (.obj fs :: items) hv htab)
  | .arr [] | .arr (.null :: _) | .arr (.bool _ :: _) | .arr (.num _ :: _) | .arr (.str _ :: _)
  | .arr (.arr _ :: _) | .null | .bool _ | .num _ | .str _ => cases htab

private theorem toValue_ofTables : ∀ (fs : Fields), fieldsExpressible fs = true →
    (Entries.ofTables fs).map (fun e => (e.1, e.2.toValue)) =
      (fs.filter fun f => isTabular f.2).map fun f => (f.1, f.2.canonical) := by
  intro fs hfs
  match fs with
  | [] => rfl
  | (k, v) :: fs =>
    rw [fieldsExpressible, Bool.and_eq_true] at hfs
    rw [Entries.ofTables, List.filter_cons]
    split
    · rename_i htab
      rw [List.map_cons, List.map_cons, toValue_ofTabular v hfs.1 htab, toValue_ofTables fs hfs.2]
    · exact toValue_ofTables fs hfs.2

private theorem elementValues_ofElements : ∀ (items : List Value), allExpressible items = true →
    items.all isTable = true →
      Node.elementValues (Entries.ofElements items) = Value.canonicalItems items := by
  intro items hitems htables
  match items with
  | [] => rfl
  | .obj fs :: items =>
    rw [allExpressible, Bool.and_eq_true] at hitems
    obtain ⟨hkeys, hfs⟩ := expressible_obj.mp hitems.1
    rw [Entries.ofElements, Node.elementValues, Value.canonicalItems, Value.canonical,
      elementValues_ofElements items hitems.2 htables]
    have hfields := entryFields_ofTable hkeys (toValue_ofTables fs hfs)
    rw [Entries.ofTable] at hfields
    rw [hfields]
  | .null :: _ | .bool _ :: _ | .num _ :: _ | .str _ :: _ | .arr _ :: _ => cases htables

end

/-- The plain values of a table and the sections inside it are put together to the table. -/
theorem applyAll_written {fs : Fields} (h : expressible (.obj fs) = true) :
    ((Entries.insertAll (assignments (plain fs)) []).bind (Section.applyAll (written fs))).map
      (fun es => (Node.table .header es).toValue) = some (Value.obj fs).canonical := by
  obtain ⟨hkeys, hfs⟩ := expressible_obj.mp h
  have htables := applyAll_sections fs hkeys hfs fun f hf htab => find?_ofPlain hkeys hf htab
  rw [insertAll_plain hkeys, Option.bind_some, htables, Option.map_some, Node.toValue,
    Value.canonical]
  exact congrArg (fun fields => some (Value.obj fields))
    (entryFields_ofTable hkeys (toValue_ofTables fs hfs))

end LanguageClient.Toml
