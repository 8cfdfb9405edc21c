import LanguageClient.Proofs.TomlValues
/-!
The text of a table is read as the table, unless on one of its lines more arrays and inline tables stand
inside one another than the reader allows, or one of its headers has more words: then it is not read at all.
-/
namespace LanguageClient.Toml
open Json

/-- A line as it is written. -/
inductive Row where
  | blank
  | pair (key : String) (v : Value)
  | header (path : List String) (element : Bool)

namespace Row

def chars : Row → List Char
  | blank => ['\n']
  | pair key v => keyChars key ++ [' ', '=', ' '] ++ blockChars v ++ ['\n']
  | header path element => Section.headerChars ⟨path, element, [], false⟩

def line : Row → Line
  | blank => .blank
  | pair key v => .pair [] key v.canonical
  | header path true => .element path.dropLast (path.getLast?.getD "")
  | header path false => .header path.dropLast (path.getLast?.getD "")

/-- Not too much stands inside the value, and the header has not too many words. -/
def fits : Row → Bool
  | blank => true
  | pair _ v => v.depth ≤ maxDepth
  | header path _ => path.length ≤ maxWords

/-- A line that a table can have. -/
def Regular : Row → Prop
  | blank => True
  | pair _ v => expressible v = true
  | header path _ => path ≠ []

theorem chars_head (row : Row) : ∃ c cs, row.chars = c :: cs ∧ c ≠ '\uFEFF' := by
  cases row with
  | blank => exact ⟨_, _, rfl, by decide⟩
  | pair key v =>
    obtain ⟨c, cs, hc, hstart⟩ := keyChars_head key
    refine ⟨c, cs ++ [' ', '=', ' '] ++ blockChars v ++ ['\n'], by rw [chars, hc]; rfl, ?_⟩
    rintro rfl
    exact absurd hstart (by decide)
  | header path element => cases element <;> exact ⟨_, _, rfl, by decide⟩

theorem chars_ne_nil (row : Row) : row.chars ≠ [] := by
  obtain ⟨c, cs, hc, -⟩ := row.chars_head
  exact hc ▸ List.cons_ne_nil c cs

end Row

private theorem blockChars_head {v : Value} (h : expressible v = true) :
    ∃ c cs, blockChars v = c :: cs ∧ startsToken c = true := by
  match v with
  | .arr (a :: b :: vs) => exact ⟨_, _, rfl, by decide⟩
  | .arr [] | .arr [a] | .null | .bool _ | .num _ | .str _ | .obj _ => exact inlineChars_head h

private theorem startsKey_cases {c : Char} (h : startsKey c = true) :
    c ≠ '\n' ∧ c ≠ '\r' ∧ c ≠ '#' ∧ c ≠ '[' := by
  refine ⟨?_, ?_, ?_, ?_⟩ <;> rintro rfl <;> exact absurd h (by decide)

private theorem line?_pair (k : String) {v : Value} (hv : expressible v = true) (r : List Char) :
    line? (keyChars k ++ ' ' :: '=' :: ' ' :: (blockChars v ++ '\n' :: r)) =
      if v.depth ≤ maxDepth then some (.pair [] k v.canonical, '\n' :: r) else none := by
  obtain ⟨c, cs, hc, hkey⟩ := keyChars_head k
  obtain ⟨hline, hreturn, hhash, hbracket⟩ := startsKey_cases hkey
  have hassigned := assigned?_text k (blockChars_head hv) ('\n' :: r)
  have hstart : skipBlanks (keyChars k ++ ' ' :: '=' :: ' ' :: (blockChars v ++ '\n' :: r)) =
      keyChars k ++ ' ' :: '=' :: ' ' :: (blockChars v ++ '\n' :: r) := by
    rw [hc, List.cons_append, skipBlanks_cons (isBlank_of_startsKey hkey)]
  have hassignment : assignment? (keyChars k ++ ' ' :: '=' :: ' ' :: (blockChars v ++ '\n' :: r)) =
      if v.depth ≤ maxDepth then some (.pair [] k v.canonical, '\n' :: r) else none := by
    rw [assignment?, hassigned]
    simp only [value?_block maxDepth hv (.line r)]
    split <;> rfl
  rw [← hassignment, line?.eq_def, hstart, hc, List.cons_append]
  split <;> first | (rename_i h; cases h <;> contradiction) | rfl

private theorem pathChars_concat_head (ks : List String) (k : String) :
    ∃ c cs, pathChars (ks ++ [k]) = c :: cs ∧ startsKey c = true := by
  obtain ⟨l, ls, hpath⟩ := List.exists_cons_of_ne_nil
    (List.append_ne_nil_of_right_ne_nil ks (List.cons_ne_nil k []))
  rw [hpath]
  exact pathChars_head l ls

private theorem key?_header (ks : List String) (k : String) (r : List Char) :
    key? (skipBlanks (pathChars (ks ++ [k]) ++ ']' :: r)) =
      if ks.length < maxWords then some ((ks, k), ']' :: r) else none := by
  have hstop : skipBlanks (']' :: r) = ']' :: r := rfl
  have hbare : ∀ c ∈ (']' :: r).head?, isBareKey c = false := by simp; decide
  have hkey := key?_pathChars ks k hbare (by rw [hstop]; simp)
  obtain ⟨c, cs, hc, hstart⟩ := pathChars_concat_head ks k
  have hblank : skipBlanks (pathChars (ks ++ [k]) ++ ']' :: r) = pathChars (ks ++ [k]) ++ ']' :: r := by
    rw [hc, List.cons_append, skipBlanks_cons (isBlank_of_startsKey hstart)]
  rw [hblank, hkey, hstop]

private theorem line?_header (ks : List String) (k : String) (element : Bool) (r : List Char) :
    line? (Section.headerChars ⟨ks ++ [k], element, [], false⟩ ++ r) =
      if ks.length < maxWords then some ((Row.header (ks ++ [k]) element).line, '\n' :: r)
      else none := by
  have hbracket (s : List Char) : line? ('[' :: s) = header? ('[' :: s) := rfl
  cases element with
  | true =>
    have hkey := key?_header ks k (']' :: '\n' :: r)
    simp only [Section.headerChars, if_true, List.append_assoc, List.cons_append, List.nil_append]
    rw [hbracket, header?, hkey, Row.line, List.dropLast_concat, List.getLast?_concat]
    by_cases hwords : ks.length < maxWords
    · rw [if_pos hwords, if_pos hwords]
      rfl
    · rw [if_neg hwords, if_neg hwords]
  | false =>
    have hkey := key?_header ks k ('\n' :: r)
    simp only [Section.headerChars, Bool.false_eq_true, if_false, List.append_assoc, List.cons_append,
      List.nil_append]
    rw [hbracket, header?, hkey, Row.line, List.dropLast_concat, List.getLast?_concat]
    · by_cases hwords : ks.length < maxWords
      · rw [if_pos hwords, if_pos hwords]
        rfl
      · rw [if_neg hwords, if_neg hwords]
    · intro s h
      obtain ⟨c, cs, hc, hstart⟩ := pathChars_concat_head ks k
      rw [hc, List.cons_append] at h
      exact (startsKey_cases hstart).2.2.2 (List.cons.inj h).1

private theorem lines?_row {row : Row} (h : row.Regular) (fuel : Nat) (r : List Char) :
    lines? (fuel + 1) (row.chars ++ r) =
      if row.fits then (lines? fuel r).map (row.line :: ·) else none := by
  have hend : lineEnd? false ('\n' :: r) = some r := rfl
  have hne : row.chars ++ r ≠ [] := List.append_ne_nil_of_left_ne_nil row.chars_ne_nil r
  rw [lines?.eq_3 _ _ hne]
  match row with
  | .blank => rfl
  | .pair k v =>
    have hline := line?_pair k h r
    have htext : (Row.pair k v).chars ++ r =
        keyChars k ++ ' ' :: '=' :: ' ' :: (blockChars v ++ '\n' :: r) := by
      simp only [Row.chars, List.append_assoc, List.cons_append, List.nil_append]
    rw [htext, hline, Row.fits, Row.line]
    by_cases hdepth : v.depth ≤ maxDepth
    · simp only [hdepth, if_true, decide_true, hend]
    · simp only [hdepth, if_false, decide_false, Bool.false_eq_true]
  | .header path element =>
    obtain ⟨ks, k, rfl⟩ : ∃ ks k, path = ks ++ [k] :=
      ⟨path.dropLast, path.getLast h, (List.dropLast_append_getLast h).symm⟩
    rw [Row.chars, line?_header, Row.fits, List.length_append, List.length_singleton]
    by_cases hwords : ks.length < maxWords
    · simp only [hwords, Nat.succ_le_of_lt, if_true, decide_true, hend]
    · simp only [hwords, Nat.succ_le_iff, if_false, decide_false, Bool.false_eq_true]

private theorem length_le_chars (rows : List Row) : rows.length ≤ (rows.flatMap Row.chars).length := by
  induction rows with
  | nil => exact Nat.le_refl 0
  | cons row rows ih =>
    have hrow := List.length_pos_of_ne_nil row.chars_ne_nil
    rw [List.flatMap_cons, List.length_append, List.length_cons]
    omega

private theorem lines?_rows {rows : List Row} (h : ∀ row ∈ rows, row.Regular) {fuel : Nat}
    (hfuel : rows.length ≤ fuel) : lines? fuel (rows.flatMap Row.chars) =
      if rows.all Row.fits then some (rows.map Row.line) else none := by
  induction rows generalizing fuel with
  | nil => cases fuel <;> rfl
  | cons row rows ih =>
    obtain ⟨fuel, rfl⟩ : ∃ n, fuel = n + 1 := ⟨fuel - 1, by rw [List.length_cons] at hfuel; omega⟩
    rw [List.flatMap_cons, lines?_row (h row List.mem_cons_self),
      ih (fun r hr => h r (List.mem_cons_of_mem row hr)) (Nat.le_of_succ_le_succ hfuel), List.all_cons]
    cases row.fits with
    | false => rfl
    | true =>
      rw [if_pos rfl, Bool.true_and]
      split <;> rfl

def bodyRows (body : Fields) : List Row := body.map fun f => .pair f.1 f.2

def Section.rows (s : Section) : List Row := .header s.path s.element :: bodyRows s.body

/-- Sections with a blank line before each. -/
def sectionRows (ss : List Section) : List Row := ss.flatMap fun s => .blank :: s.rows

/-- The lines of the text of a table; it does not start with a blank line. -/
def tableRows (fs : Fields) : List Row :=
  if (plain fs).isEmpty then (sectionRows (written fs)).tail
  else bodyRows (plain fs) ++ sectionRows (written fs)

private theorem chars_bodyRows (body : Fields) :
    (bodyRows body).flatMap Row.chars = bodyChars body := by
  rw [bodyRows, bodyChars, List.flatMap_map]
  rfl

private theorem chars_rows (s : Section) : s.rows.flatMap Row.chars = s.chars := by
  rw [Section.rows, List.flatMap_cons, chars_bodyRows]
  rfl

private theorem intercalate_cons (sep x : List Char) (xs : List (List Char)) :
    sep.intercalate (x :: xs) = x ++ xs.flatMap (sep ++ ·) := by
  induction xs generalizing x with
  | nil => simp [List.intercalate]
  | cons y ys ih =>
    have hstep : sep.intercalate (x :: y :: ys) = x ++ (sep ++ sep.intercalate (y :: ys)) := by
      simp [List.intercalate]
    rw [hstep, ih, List.flatMap_cons, List.append_assoc]

private theorem chars_sectionRows (ss : List Section) : (sectionRows ss).flatMap Row.chars =
    (ss.map Section.chars).flatMap (['\n'] ++ ·) := by
  rw [sectionRows, List.flatMap_assoc, List.flatMap_map]
  refine List.flatMap_congr fun s _ => ?_
  rw [List.flatMap_cons, chars_rows]
  rfl

private theorem isEmpty_bodyChars (body : Fields) : (bodyChars body).isEmpty = body.isEmpty := by
  cases body with
  | nil => rfl
  | cons f fs =>
    obtain ⟨c, cs, hc, -⟩ := keyChars_head f.1
    rw [bodyChars, List.flatMap_cons, hc]
    rfl

theorem anyFieldNull_of_render? {fs : Fields} {text : String} (h : render? fs = some text) :
    anyFieldNull fs = false := by
  rw [render?] at h
  split at h
  · cases h
  · rename_i hnot
    exact Bool.eq_false_iff.mpr hnot

/-- The text of a table that has no null in it. -/
theorem render?_eq {fs : Fields} (h : anyFieldNull fs = false) :
    render? fs = some (String.ofList ((tableRows fs).flatMap Row.chars)) := by
  rw [render?, if_neg (by rw [h]; exact Bool.false_ne_true)]
  refine congrArg (fun cs => some (String.ofList cs)) ?_
  rw [isEmpty_bodyChars, tableRows, ← written]
  split
  · cases hw : written fs with
    | nil => rfl
    | cons s ss =>
      rw [List.map_cons, intercalate_cons, ← chars_sectionRows, ← chars_rows, ← List.flatMap_append]
      rfl
  · rw [intercalate_cons, ← chars_sectionRows, ← chars_bodyRows, List.flatMap_append]

/-- The fields that are written on lines: the plain values of a table and of the tables inside it. -/
def lineFields (fs : Fields) : Fields := plain fs ++ (sections [] fs).flatMap Section.body

private theorem forall_sectionRows {P : Row → Prop} (hblank : P .blank) {ss : List Section} :
    (∀ row ∈ sectionRows ss, P row) ↔
      ∀ s ∈ ss, P (.header s.path s.element) ∧ ∀ f ∈ s.body, P (.pair f.1 f.2) := by
  simp only [sectionRows, Section.rows, bodyRows, List.mem_flatMap, List.mem_cons, List.mem_map]
  grind

private theorem forall_tableRows {P : Row → Prop} (hblank : P .blank) {fs : Fields} :
    (∀ row ∈ tableRows fs, P row) ↔ (∀ f ∈ plain fs, P (.pair f.1 f.2)) ∧
      ∀ s ∈ written fs, P (.header s.path s.element) ∧ ∀ f ∈ s.body, P (.pair f.1 f.2) := by
  rw [← forall_sectionRows hblank, tableRows]
  split
  · rename_i hplain
    rw [List.isEmpty_iff.mp hplain]
    cases hw : written fs with
    | nil => simp [sectionRows]
    | cons s ss => simp [sectionRows, hblank]
  · simp only [bodyRows, List.mem_append, List.mem_map]
    grind

private theorem body_of_unwritten {s : Section} (h : s.isWritten = false) : s.body = [] := by
  simp only [Section.isWritten, Bool.or_eq_false_iff, Bool.not_eq_false'] at h
  exact List.isEmpty_iff.mp h.1.2

private theorem forall_lineFields {P : String × Value → Prop} {fs : Fields} :
    (∀ f ∈ lineFields fs, P f) ↔ (∀ f ∈ plain fs, P f) ∧ ∀ s ∈ written fs, ∀ f ∈ s.body, P f := by
  simp only [lineFields, written, List.mem_append, List.mem_flatMap, List.mem_filter]
  constructor
  · exact fun h => ⟨fun f hf => h f (.inl hf), fun s hs f hf => h f (.inr ⟨s, hs.1, hf⟩)⟩
  · rintro ⟨hplain, hsections⟩ f (hf | ⟨s, hs, hf⟩)
    · exact hplain f hf
    · cases hw : s.isWritten with
      | true => exact hsections s ⟨hs, hw⟩ f hf
      | false =>
        rw [body_of_unwritten hw] at hf
        cases hf

/-- On no line stand more arrays and inline tables inside one another than the reader allows, and no header
has more words. -/
structure Fits (fs : Fields) : Prop where
  depth : ∀ f ∈ lineFields fs, f.2.depth ≤ maxDepth
  words : ∀ s ∈ written fs, s.path.length ≤ maxWords

instance (fs : Fields) : Decidable (Fits fs) :=
  decidable_of_iff ((∀ f ∈ lineFields fs, f.2.depth ≤ maxDepth) ∧
    ∀ s ∈ written fs, s.path.length ≤ maxWords) ⟨fun h => ⟨h.1, h.2⟩, fun h => ⟨h.depth, h.words⟩⟩

private theorem all_fits (fs : Fields) : (tableRows fs).all Row.fits = true ↔ Fits fs := by
  have hfits : Fits fs ↔ (∀ f ∈ plain fs, f.2.depth ≤ maxDepth) ∧
      ∀ s ∈ written fs, s.path.length ≤ maxWords ∧ ∀ f ∈ s.body, f.2.depth ≤ maxDepth := by
    constructor
    · intro h
      obtain ⟨hplain, hsections⟩ := forall_lineFields.mp h.depth
      exact ⟨hplain, fun s hs => ⟨h.words s hs, hsections s hs⟩⟩
    · rintro ⟨hplain, hsections⟩
      exact ⟨forall_lineFields.mpr ⟨hplain, fun s hs => (hsections s hs).2⟩, fun s hs => (hsections s hs).1⟩
  rw [List.all_eq_true, forall_tableRows (P := fun row => row.fits = true) rfl, hfits]
  simp only [Row.fits, decide_eq_true_eq]

mutual

private theorem sectionsOf_expressible : ∀ (v : Value) (path : List String) (element : Bool),
    expressible v = true → ∀ s ∈ sectionsOf path element v, ∀ f ∈ s.body, expressible f.2 = true := by
  intro v path element hv s hs f hf
  match v with
  | .obj fs =>
    have hfs := (expressible_obj.mp hv).2
    rw [sectionsOf, List.mem_cons] at hs
    obtain rfl | hs := hs
    · exact fieldsExpressible_iff.mp hfs f (List.mem_filter.mp hf).1
    · exact sections_expressible fs path hfs s hs f hf
  | .arr items =>
    rw [sectionsOf] at hs
    split at hs
    · exact elements_expressible items path hv s hs f hf
    · cases hs
  | .null | .bool _ | .num _ | .str _ => cases hs

private theorem sections_expressible : ∀ (fs : Fields) (path : List String),
    fieldsExpressible fs = true → ∀ s ∈ sections path fs, ∀ f ∈ s.body, expressible f.2 = true := by
  intro fs path hfs s hs f hf
  match fs with
  | [] => cases hs
  | (k, v) :: fs =>
    rw [fieldsExpressible, Bool.and_eq_true] at hfs
    rw [sections, List.mem_append] at hs
    obtain hs | hs := hs
    · exact sectionsOf_expressible v _ _ hfs.1 s hs f hf
    · exact sections_expressible fs path hfs.2 s hs f hf

private theorem elements_expressible : ∀ (items : List Value) (path : List String),
    allExpressible items = true → ∀ s ∈ elements path items, ∀ f ∈ s.body, expressible f.2 = true := by
  intro items path hitems s hs f hf
  match items with
  | [] => cases hs
  | v :: items =>
    rw [allExpressible, Bool.and_eq_true] at hitems
    rw [elements, List.mem_append] at hs
    obtain hs | hs := hs
    · exact sectionsOf_expressible v _ _ hitems.1 s hs f hf
    · exact elements_expressible items path hitems.2 s hs f hf

end

private theorem regular {fs : Fields} (h : fieldsExpressible fs = true) :
    ∀ row ∈ tableRows fs, row.Regular := by
  refine (forall_tableRows trivial).mpr ⟨fun f hf => ?_, fun s hs => ⟨?_, fun f hf => ?_⟩⟩
  · exact fieldsExpressible_iff.mp h f (List.mem_filter.mp hf).1
  · exact written_path fs s hs
  · exact sections_expressible fs [] h s (List.mem_filter.mp hs).1 f hf

private theorem block_body (body : Fields) (rest : List Line) :
    block ((bodyRows body).map Row.line ++ rest) = (assignments body ++ (block rest).1, (block rest).2) := by
  induction body with
  | nil => rfl
  | cons f body ih =>
    change block (.pair [] f.1 f.2.canonical :: ((bodyRows body).map Row.line ++ rest)) = _
    rw [block, ih]
    rfl

private theorem build_body (body : Fields) (rest : List Line) (es : Entries) :
    build ((bodyRows body).map Row.line ++ rest) es = build rest es := by
  induction body with
  | nil => rfl
  | cons f body ih => exact ih

private theorem block_sections (ss : List Section) :
    (block ((sectionRows ss).map Row.line)).1 = [] := by
  cases ss with
  | nil => rfl
  | cons s ss =>
    cases h : s.element <;>
      simp [sectionRows, Section.rows, Row.line, block, h]

private theorem build_header (path : List String) (key : String) (rest : List Line) (es : Entries) :
    build (.header path key :: rest) es =
      (Entries.within (Entries.define key (block rest).1) path es).bind (build rest) := by
  rw [build]
  cases Entries.within (Entries.define key (block rest).1) path es <;> rfl

private theorem build_element (path : List String) (key : String) (rest : List Line) (es : Entries) :
    build (.element path key :: rest) es =
      (Entries.within (Entries.append key (block rest).1) path es).bind (build rest) := by
  rw [build]
  cases Entries.within (Entries.append key (block rest).1) path es <;> rfl

private theorem build_sections (ss : List Section) (es : Entries) :
    build ((sectionRows ss).map Row.line) es = Section.applyAll ss es := by
  induction ss generalizing es with
  | nil => rfl
  | cons s ss ih =>
    have hrows : (sectionRows (s :: ss)).map Row.line = .blank :: (Row.header s.path s.element).line ::
        ((bodyRows s.body).map Row.line ++ (sectionRows ss).map Row.line) := by
      simp [sectionRows, Section.rows, Row.line]
    have hpairs : (block ((bodyRows s.body).map Row.line ++ (sectionRows ss).map Row.line)).1 =
        assignments s.body := by
      rw [block_body, block_sections, List.append_nil]
    have hnext : build ((bodyRows s.body).map Row.line ++ (sectionRows ss).map Row.line) =
        Section.applyAll ss :=
      funext fun es => (build_body s.body _ es).trans (ih es)
    rw [hrows, Section.applyAll_cons, Section.apply]
    change build ((Row.header s.path s.element).line :: _) es = _
    cases s.element with
    | true => simp only [Row.line, build_element, hpairs, hnext, if_true]
    | false => simp only [Row.line, build_header, hpairs, hnext, Bool.false_eq_true, if_false]

private theorem lines_table (fs : Fields) :
    (block ((tableRows fs).map Row.line)).1 = assignments (plain fs) ∧
      ∀ es, build ((tableRows fs).map Row.line) es = Section.applyAll (written fs) es := by
  rw [tableRows]
  split
  · rename_i hplain
    have htail : block ((sectionRows (written fs)).tail.map Row.line) =
          block ((sectionRows (written fs)).map Row.line) ∧
        ∀ es, build ((sectionRows (written fs)).tail.map Row.line) es =
          build ((sectionRows (written fs)).map Row.line) es := by
      cases written fs with
      | nil => exact ⟨rfl, fun _ => rfl⟩
      | cons s ss => exact ⟨rfl, fun _ => rfl⟩
    rw [htail.1, block_sections, List.isEmpty_iff.mp hplain]
    exact ⟨rfl, fun es => (htail.2 es).trans (build_sections (written fs) es)⟩
  · rw [List.map_append, block_body, block_sections, List.append_nil]
    exact ⟨rfl, fun es => (build_body (plain fs) _ es).trans (build_sections (written fs) es)⟩

private theorem skipMark_rows (rows : List Row) :
    skipMark (rows.flatMap Row.chars) = rows.flatMap Row.chars := by
  cases rows with
  | nil => rfl
  | cons row rows =>
    obtain ⟨c, cs, hc, hmark⟩ := row.chars_head
    rw [List.flatMap_cons, hc, List.cons_append, skipMark]
    exact fun _ h => hmark (List.cons.inj h).1

/-- The text of a table is read as the table if it fits, and otherwise is not read. -/
theorem read?_render {fs : Fields} (h : expressible (.obj fs) = true) {text : String}
    (htext : render? fs = some text) : read? text =
      if Fits fs then some (Value.obj fs).canonical else none := by
  have hfs := (expressible_obj.mp h).2
  have hnull := anyFieldNull_of_render? htext
  obtain ⟨hplain, hsections⟩ := lines_table fs
  have hlines := lines?_rows (regular hfs) (Nat.le_succ_of_le (length_le_chars (tableRows fs)))
  rw [render?_eq hnull, Option.some.injEq] at htext
  rw [read?, ← htext, String.toList_ofList, skipMark_rows]
  rw [hlines]
  by_cases hfit : Fits fs
  · have htable := applyAll_written h
    rw [if_pos ((all_fits fs).mpr hfit), if_pos hfit, Option.bind_some, hplain]
    simp only [hsections]
    rwa [Option.map_bind] at htable
  · rw [if_neg fun hall => hfit ((all_fits fs).mp hall), if_neg hfit, Option.bind_none]

end LanguageClient.Toml
