import LanguageClient.Proofs.ShortestDecimal
import LanguageClient.Proofs.TomlTables
import LanguageClient.Toml.Reader
/-!
What is read of a text, whatever the text is: the fields of every table are sorted, whole numbers have 64
bits, and other numbers are binary64 values. This holds of every unquoted value, of the tables that keys,
headers and inline tables build of such values, and so of the table of a text.
-/
namespace LanguageClient.Toml
open Json Decimal

/-- What every value that is read has in common. -/
structure Readable (v : Value) : Prop where
  canonical : v.isCanonical = true
  numbers : numbersFit v = true

theorem itemsFit_iff {vs : List Value} : itemsFit vs = true ↔ ∀ v ∈ vs, numbersFit v = true := by
  induction vs with
  | nil => exact ⟨fun _ => List.forall_mem_nil _, fun _ => rfl⟩
  | cons v vs ih => rw [itemsFit, Bool.and_eq_true, List.forall_mem_cons, ih]

theorem fieldsFit_iff {fs : Fields} : fieldsFit fs = true ↔ ∀ f ∈ fs, numbersFit f.2 = true := by
  induction fs with
  | nil => exact ⟨fun _ => List.forall_mem_nil _, fun _ => rfl⟩
  | cons f fs ih => rw [fieldsFit, Bool.and_eq_true, List.forall_mem_cons, ih]

private theorem mem_of_lookup {α : Type} {l : List (String × α)} {key : String} {a : α}
    (h : l.lookup key = some a) : (key, a) ∈ l := by
  obtain ⟨before, after, rfl, -⟩ := List.lookup_eq_some_iff.mp h
  exact List.mem_append_right before List.mem_cons_self

namespace Readable

theorem arr {vs : List Value} (h : ∀ v ∈ vs, Readable v) : Readable (.arr vs) where
  canonical := by
    rw [Value.isCanonical]
    induction vs with
    | nil => rfl
    | cons v vs ih =>
      obtain ⟨hv, hvs⟩ := List.forall_mem_cons.mp h
      rw [Value.itemsCanonical, hv.canonical, ih hvs]
      rfl
  numbers := itemsFit_iff.mpr fun v hv => (h v hv).numbers

theorem items {vs : List Value} (h : Readable (.arr vs)) : ∀ v ∈ vs, Readable v :=
  fun v hv => ⟨Value.itemsCanonical_mem h.canonical v hv, itemsFit_iff.mp h.numbers v hv⟩

theorem get? {fs : Fields} (h : Readable (.obj fs)) {key : String} {v : Value}
    (hv : fs.get? key = some v) : Readable v where
  canonical := Value.fieldsCanonical_get? h.canonical hv
  numbers := fieldsFit_iff.mp h.numbers _ (mem_of_lookup hv)

theorem insert {fs : Fields} (h : Readable (.obj fs)) {v : Value} (hv : Readable v) (k : String) :
    Readable (.obj (Fields.insert k v fs)) where
  canonical := Fields.insert_canonical hv.canonical h.canonical
  numbers := by
    refine fieldsFit_iff.mpr fun f hf => ?_
    obtain rfl | hf := Fields.mem_insert hf
    · exact hv.numbers
    · exact fieldsFit_iff.mp h.numbers f hf

end Readable

private theorem inRange?_readable {n : Int} {v : Value} (h : inRange? n = some v) : Readable v := by
  rw [inRange?] at h
  split at h
  · rename_i hn
    cases h
    exact ⟨rfl, decide_eq_true hn⟩
  · cases h

private theorem integer?_readable {s : List Char} {v : Value} (h : integer? s = some v) : Readable v := by
  have hread {o : Option (List Char)} {n : List Char → Int}
      (hbind : (o.bind fun ds => inRange? (n ds)) = some v) : Readable v := by
    obtain ⟨ds, -, hds⟩ := Option.bind_eq_some_iff.mp hbind
    exact inRange?_readable hds
  rw [integer?.eq_def] at h
  split at h <;> exact hread h

private theorem float?_readable {s : List Char} {v : Value} (h : float? s = some v) : Readable v := by
  rw [float?] at h
  dsimp only at h
  split at h
  · cases h
  split at h
  · obtain ⟨x, hx, rfl⟩ := Option.map_eq_some_iff.mp h
    exact ⟨rfl, decide_eq_true (ofDecimal_proper hx)⟩
  · cases h

private theorem atom?_readable {s : List Char} {v : Value} (h : atom? s = some v) : Readable v := by
  have hwords : ∀ w ∈ words, Readable w.2 := by
    intro w hw
    simp only [words, List.mem_cons, List.not_mem_nil, or_false] at hw
    obtain rfl | rfl | rfl | rfl | rfl | rfl | rfl | rfl := hw <;> exact ⟨rfl, rfl⟩
  rw [atom?, Option.or_eq_some_iff, Option.or_eq_some_iff, Option.or_eq_some_iff] at h
  obtain (hword | ⟨-, hinteger⟩) | ⟨-, hfloat | ⟨-, hdate⟩⟩ := h
  · exact hwords _ (mem_of_lookup hword)
  · exact integer?_readable hinteger
  · exact float?_readable hfloat
  · obtain ⟨t, -, rfl⟩ := Option.map_eq_some_iff.mp hdate
    exact ⟨rfl, rfl⟩

private theorem atomAt?_readable {s rest : List Char} {v : Value} (h : atomAt? s = some (v, rest)) :
    Readable v := by
  have hread {o : Option Value} {r : List Char} (hmap : (o.map fun v => (v, r)) = some (v, rest)) :
      o = some v := by
    obtain ⟨w, hw, heq⟩ := Option.map_eq_some_iff.mp hmap
    rw [hw, (Prod.mk.inj heq).1]
  rw [atomAt?] at h
  dsimp only at h
  split at h <;> exact atom?_readable (hread h)

mutual
def Node.Readable : Node → Prop
  | .value v => Toml.Readable v
  | .table _ es => entriesReadable es
  | .tables elements => elementsReadable elements

def entriesReadable : List (String × Node) → Prop
  | [] => True
  | (_, n) :: es => n.Readable ∧ entriesReadable es

def elementsReadable : List (List (String × Node)) → Prop
  | [] => True
  | es :: rest => entriesReadable es ∧ elementsReadable rest
end

private theorem entriesReadable_nil : entriesReadable [] := trivial

theorem entriesReadable_iff {es : Entries} : entriesReadable es ↔ ∀ e ∈ es, e.2.Readable := by
  induction es with
  | nil => exact ⟨fun _ => List.forall_mem_nil _, fun _ => trivial⟩
  | cons e es ih => rw [entriesReadable, List.forall_mem_cons, ih]

theorem elementsReadable_iff {elements : List Entries} :
    elementsReadable elements ↔ ∀ es ∈ elements, entriesReadable es := by
  induction elements with
  | nil => exact ⟨fun _ => List.forall_mem_nil _, fun _ => trivial⟩
  | cons es elements ih => rw [elementsReadable, List.forall_mem_cons, ih]

mutual

private theorem toValue_readable : ∀ n : Node, n.Readable → Readable n.toValue := by
  intro n h
  match n with
  | .value v => exact h
  | .table _ es => exact entryFields_readable es h ⟨rfl, rfl⟩
  | .tables elements => exact .arr (elementValues_readable elements h)

private theorem entryFields_readable : ∀ (es : List (String × Node)) {acc : Fields},
    entriesReadable es → Readable (.obj acc) → Readable (.obj (Node.entryFields es acc)) := by
  intro es acc h hacc
  match es with
  | [] => exact hacc
  | (k, n) :: es => exact entryFields_readable es h.2 (hacc.insert (toValue_readable n h.1) k)

private theorem elementValues_readable : ∀ elements : List (List (String × Node)),
    elementsReadable elements → ∀ v ∈ Node.elementValues elements, Readable v := by
  intro elements h
  match elements with
  | [] => exact List.forall_mem_nil _
  | es :: rest =>
    exact List.forall_mem_cons.mpr
      ⟨entryFields_readable es h.1 ⟨rfl, rfl⟩, elementValues_readable rest h.2⟩

end

namespace Entries
variable {es : Entries} (hes : entriesReadable es)
include hes

private theorem find?_readable {k : String} {n : Node} (h : es.find? k = some n) : n.Readable :=
  entriesReadable_iff.mp hes _ (mem_of_lookup h)

private theorem put_readable {n : Node} (hn : n.Readable) (k : String) :
    entriesReadable (es.put k n) := by
  induction es with
  | nil => exact ⟨hn, trivial⟩
  | cons e es ih =>
    rw [put]
    split
    · exact ⟨hn, hes.2⟩
    · exact ⟨hes.1, ih hes.2⟩

private theorem map_table_readable {changed : Option Entries}
    (hchanged : ∀ sub ∈ changed, entriesReadable sub) {k : String} {o : Origin} {ds : Entries}
    (h : (changed.map fun sub => es.put k (.table o sub)) = some ds) : entriesReadable ds := by
  obtain ⟨sub, hsub, rfl⟩ := Option.map_eq_some_iff.mp h
  exact put_readable hes (n := .table o sub) (hchanged sub hsub) k

omit hes in
private theorem last_readable {elements : List Entries} (h : elementsReadable elements)
    {last : Entries} (hlast : elements.getLast? = some last) : entriesReadable last :=
  elementsReadable_iff.mp h last (List.mem_of_getLast? hlast)

omit hes in
private theorem concat_readable {elements : List Entries} (h : elementsReadable elements) {es : Entries}
    (hes : entriesReadable es) : elementsReadable (elements ++ [es]) :=
  elementsReadable_iff.mpr (List.forall_mem_append.mpr
    ⟨elementsReadable_iff.mp h, List.forall_mem_singleton.mpr hes⟩)

private theorem map_last_readable {elements : List Entries} (helements : elementsReadable elements)
    {changed : Option Entries} (hchanged : ∀ sub ∈ changed, entriesReadable sub) {k : String} {ds : Entries}
    (h : (changed.map fun last => es.put k (.tables (elements.dropLast ++ [last]))) = some ds) :
    entriesReadable ds := by
  obtain ⟨last, hlast, rfl⟩ := Option.map_eq_some_iff.mp h
  have hinit : elementsReadable elements.dropLast := elementsReadable_iff.mpr fun es hes =>
    elementsReadable_iff.mp helements es (List.mem_of_mem_dropLast hes)
  exact put_readable hes (n := .tables (elements.dropLast ++ [last]))
    (concat_readable hinit (hchanged last hlast)) k

private theorem insert_readable {path : List String} {key : String} {v : Value} (hv : Readable v)
    {ds : Entries} (h : insert path key v es = some ds) : entriesReadable ds := by
  induction path generalizing es ds with
  | nil =>
    rw [insert] at h
    split at h
    · cases h
    · cases h
      exact put_readable hes (n := .value v) hv key
  | cons k ks ih =>
    rw [insert] at h
    split at h
    · exact map_table_readable hes (fun sub hsub => ih entriesReadable_nil hsub) h
    · rename_i sub hfind
      have hsub : entriesReadable sub := find?_readable hes hfind
      exact map_table_readable hes (fun sub' hsub' => ih hsub hsub') h
    · rename_i sub hfind
      have hsub : entriesReadable sub := find?_readable hes hfind
      split at h
      · cases h
      · exact map_table_readable hes (fun sub' hsub' => ih hsub hsub') h
    · rename_i elements hfind
      have helements : elementsReadable elements := find?_readable hes hfind
      split at h
      · rename_i last _ hlast
        exact map_last_readable hes helements
          (fun sub' hsub' => ih (last_readable helements hlast) hsub') h
      · cases h
    · cases h
    · cases h

private theorem insertAll_readable {pairs : List (List String × String × Value)}
    (hpairs : ∀ p ∈ pairs, Readable p.2.2) {ds : Entries} (h : insertAll pairs es = some ds) :
    entriesReadable ds := by
  induction pairs generalizing es with
  | nil =>
    cases h
    exact hes
  | cons p pairs ih =>
    rw [insertAll, List.foldlM_cons] at h
    obtain ⟨es', hes', hrest⟩ := Option.bind_eq_some_iff.mp h
    obtain ⟨hp, hpairs⟩ := List.forall_mem_cons.mp hpairs
    exact ih (insert_readable hes hp hes') hpairs hrest

private theorem within_readable {f : Entries → Option Entries}
    (hf : ∀ {es ds : Entries}, entriesReadable es → f es = some ds → entriesReadable ds)
    {path : List String} {ds : Entries} (h : within f path es = some ds) : entriesReadable ds := by
  induction path generalizing es ds with
  | nil => exact hf hes h
  | cons k ks ih =>
    rw [within] at h
    split at h
    · exact map_table_readable hes (fun sub hsub => ih entriesReadable_nil hsub) h
    · rename_i sub hfind
      have hsub : entriesReadable sub := find?_readable hes hfind
      exact map_table_readable hes (fun sub' hsub' => ih hsub hsub') h
    · rename_i elements hfind
      have helements : elementsReadable elements := find?_readable hes hfind
      split at h
      · rename_i last hlast
        exact map_last_readable hes helements
          (fun sub' hsub' => ih (last_readable helements hlast) hsub') h
      · cases h
    · cases h

private theorem define_readable {key : String} {pairs : List (List String × String × Value)}
    (hpairs : ∀ p ∈ pairs, Readable p.2.2) {ds : Entries} (h : define key pairs es = some ds) :
    entriesReadable ds := by
  rw [define] at h
  split at h
  · exact map_table_readable hes (fun sub hsub => insertAll_readable entriesReadable_nil hpairs hsub) h
  · rename_i sub hfind
    have hsub : entriesReadable sub := find?_readable hes hfind
    exact map_table_readable hes (fun sub' hsub' => insertAll_readable hsub hpairs hsub') h
  · cases h

private theorem append_readable {key : String} {pairs : List (List String × String × Value)}
    (hpairs : ∀ p ∈ pairs, Readable p.2.2) {ds : Entries} (h : append key pairs es = some ds) :
    entriesReadable ds := by
  rw [append] at h
  obtain ⟨sub, hsub, h⟩ := Option.bind_eq_some_iff.mp h
  have hsub : entriesReadable sub := insertAll_readable entriesReadable_nil hpairs hsub
  split at h
  · cases h
    exact put_readable hes (n := .tables [sub]) ⟨hsub, trivial⟩ key
  · rename_i elements hfind
    have helements : elementsReadable elements := find?_readable hes hfind
    cases h
    exact put_readable hes (n := .tables (elements ++ [sub])) (concat_readable helements hsub) key
  · cases h

end Entries

private theorem inlineTable?_readable {pairs : List (List String × String × Value)}
    (hpairs : ∀ p ∈ pairs, Readable p.2.2) {v : Value} (h : inlineTable? pairs = some v) :
    Readable v := by
  obtain ⟨es, hes, rfl⟩ := Option.map_eq_some_iff.mp h
  exact toValue_readable (.table .header es) (Entries.insertAll_readable entriesReadable_nil hpairs hes)

section
variable {item : List Char → Option (Value × List Char)}
  (hitem : ∀ {s rest : List Char} {v : Value}, item s = some (v, rest) → Readable v)
include hitem

private theorem items?_readable {fuel : Nat} {s rest : List Char} {vs : List Value}
    (h : items? item fuel s = some (vs, rest)) : ∀ v ∈ vs, Readable v := by
  induction fuel generalizing s vs with
  | zero => cases h
  | succ fuel ih =>
    rw [items?] at h
    split at h
    · cases h
      exact List.forall_mem_nil _
    · split at h
      · cases h
      · rename_i v _ hv
        have hv := hitem hv
        split at h
        · obtain ⟨⟨ws, rest'⟩, hws, heq⟩ := Option.map_eq_some_iff.mp h
          cases heq
          exact List.forall_mem_cons.mpr ⟨hv, ih hws⟩
        · cases h
          exact List.forall_mem_singleton.mpr hv
        · cases h
    · cases h

private theorem pairs?_readable {fuel : Nat} {s rest : List Char}
    {pairs : List (List String × String × Value)} (h : pairs? item fuel s = some (pairs, rest)) :
    ∀ p ∈ pairs, Readable p.2.2 := by
  induction fuel generalizing s pairs with
  | zero => cases h
  | succ fuel ih =>
    rw [pairs?] at h
    split at h
    · cases h
      exact List.forall_mem_nil _
    · split at h
      · cases h
      · split at h
        · cases h
        · rename_i v _ hv
          have hv := hitem hv
          split at h
          · obtain ⟨⟨ps, rest'⟩, hps, heq⟩ := Option.map_eq_some_iff.mp h
            cases heq
            exact List.forall_mem_cons.mpr ⟨hv, ih hps⟩
          · cases h
            exact List.forall_mem_singleton.mpr hv
          · cases h
    · cases h

end

private theorem value?_readable {room : Nat} {s rest : List Char} {v : Value}
    (h : value? room s = some (v, rest)) : Readable v := by
  induction room using Nat.strongRecOn generalizing s v rest with
  | ind room ih =>
    rw [value?.eq_def] at h
    dsimp only at h
    split at h
    · obtain ⟨⟨cs, r⟩, -, heq⟩ := Option.map_eq_some_iff.mp h
      cases heq
      exact ⟨rfl, rfl⟩
    · obtain ⟨⟨cs, r⟩, -, heq⟩ := Option.map_eq_some_iff.mp h
      cases heq
      exact ⟨rfl, rfl⟩
    · split at h
      · cases h
      · rename_i room
        obtain ⟨⟨vs, r⟩, hvs, heq⟩ := Option.map_eq_some_iff.mp h
        cases heq
        exact .arr (items?_readable (fun hitem => ih room (Nat.lt_succ_self room) hitem) hvs)
    · split at h
      · cases h
      · rename_i room
        split at h
        · rename_i pairs rest hpairs
          obtain ⟨w, hw, heq⟩ := Option.map_eq_some_iff.mp h
          cases heq
          exact inlineTable?_readable
            (pairs?_readable (fun hitem => ih room (Nat.lt_succ_self room) hitem) hpairs) hw
        · cases h
    · exact atomAt?_readable h

/-- The value of a line, if it has one, can be read. -/
private def lineReadable : Line → Prop
  | .pair _ _ v => Readable v
  | .blank | .header _ _ | .element _ _ => True

private theorem header?_readable {s rest : List Char} {line : Line} (h : header? s = some (line, rest)) :
    lineReadable line := by
  rw [header?.eq_def] at h
  split at h
  · split at h
    · cases h
      trivial
    · cases h
  · split at h
    · cases h
      trivial
    · cases h
  · cases h

private theorem assignment?_readable {s rest : List Char} {line : Line}
    (h : assignment? s = some (line, rest)) : lineReadable line := by
  rw [assignment?] at h
  split at h
  · obtain ⟨⟨v, r⟩, hv, heq⟩ := Option.map_eq_some_iff.mp h
    cases heq
    exact value?_readable hv
  · cases h

private theorem line?_readable {s rest : List Char} {line : Line} (h : line? s = some (line, rest)) :
    lineReadable line := by
  rw [line?] at h
  split at h
  any_goals
    cases h
    trivial
  · exact header?_readable h
  · exact assignment?_readable h

private theorem lines?_readable {fuel : Nat} {s : List Char} {lines : List Line}
    (h : lines? fuel s = some lines) : ∀ line ∈ lines, lineReadable line := by
  induction fuel generalizing s lines with
  | zero =>
    cases s with
    | nil =>
      cases h
      exact List.forall_mem_nil _
    | cons c s => cases h
  | succ fuel ih =>
    cases s with
    | nil =>
      cases h
      exact List.forall_mem_nil _
    | cons c s =>
      rw [lines?.eq_3 _ _ (List.cons_ne_nil c s)] at h
      split at h
      · cases h
      · rename_i line rest hline
        split at h
        · cases h
        · obtain ⟨rest, hrest, rfl⟩ := Option.map_eq_some_iff.mp h
          exact List.forall_mem_cons.mpr ⟨line?_readable hline, ih hrest⟩

private theorem block_readable {lines : List Line} (h : ∀ line ∈ lines, lineReadable line) :
    ∀ p ∈ (block lines).1, Readable p.2.2 := by
  induction lines with
  | nil => exact List.forall_mem_nil _
  | cons line lines ih =>
    obtain ⟨hline, hlines⟩ := List.forall_mem_cons.mp h
    cases line with
    | blank => exact ih hlines
    | pair path key v => exact List.forall_mem_cons.mpr ⟨hline, ih hlines⟩
    | header path key => exact List.forall_mem_nil _
    | element path key => exact List.forall_mem_nil _

private theorem build_readable {lines : List Line} (h : ∀ line ∈ lines, lineReadable line)
    {es ds : Entries} (hes : entriesReadable es) (hbuild : build lines es = some ds) :
    entriesReadable ds := by
  induction lines generalizing es with
  | nil =>
    cases hbuild
    exact hes
  | cons line lines ih =>
    obtain ⟨-, hlines⟩ := List.forall_mem_cons.mp h
    have hblock := block_readable hlines
    cases line with
    | blank => exact ih hlines hes hbuild
    | pair path key v => exact ih hlines hes hbuild
    | header path key =>
      rw [build] at hbuild
      split at hbuild
      · rename_i es' hwithin
        exact ih hlines (Entries.within_readable hes
          (fun hsub hdefine => Entries.define_readable hsub hblock hdefine) hwithin) hbuild
      · cases hbuild
    | element path key =>
      rw [build] at hbuild
      split at hbuild
      · rename_i es' hwithin
        exact ih hlines (Entries.within_readable hes
          (fun hsub happend => Entries.append_readable hsub hblock happend) hwithin) hbuild
      · cases hbuild

/-- Whatever text is read, its table has sorted fields and numbers that TOML can say. -/
theorem read?_readable {text : String} {v : Value} (h : read? text = some v) : Readable v := by
  obtain ⟨lines, hlines, h⟩ := Option.bind_eq_some_iff.mp h
  obtain ⟨es, hes, h⟩ := Option.bind_eq_some_iff.mp h
  obtain ⟨ds, hds, rfl⟩ := Option.map_eq_some_iff.mp h
  have hreadable := lines?_readable hlines
  have hfirst := Entries.insertAll_readable entriesReadable_nil (block_readable hreadable) hes
  exact toValue_readable (.table .header ds) (build_readable hreadable hfirst hds)

end LanguageClient.Toml
