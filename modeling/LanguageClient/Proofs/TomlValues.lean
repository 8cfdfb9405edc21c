import LanguageClient.Proofs.TomlNumbers
import LanguageClient.Proofs.TomlTables
/-!
What is written of a value is read as the value, on one line or with a line for each item of an array,
as long as no more arrays and inline tables stand inside one another than the reader allows; beyond that
nothing is read.
-/
namespace LanguageClient.Toml
open Json

/-- What may follow a value: the next item, the end of an array, of a line or of an inline table. -/
inductive Stops : List Char → Prop where
  | comma (r : List Char) : Stops (',' :: r)
  | bracket (r : List Char) : Stops (']' :: r)
  | line (r : List Char) : Stops ('\n' :: r)
  | brace (r : List Char) : Stops (' ' :: '}' :: r)

namespace Stops
variable {r : List Char}

private theorem unquoted (h : Stops r) : Unquoted r := by
  cases h <;> exact ⟨by simp, by simp⟩

private theorem atom (h : Stops r) : ∀ c ∈ r.head?, isAtomChar c = false := by
  cases h <;> (intro c hc; obtain rfl := Option.mem_some_iff.mp hc; decide)

private theorem spansBlank (h : Stops r) (word : List Char) : spansBlank word r = false := by
  cases h <;> exact Bool.and_false _

end Stops

private theorem value?_atom {word : List Char} {c : Char} {cs : List Char} (hword : word = c :: cs)
    (hc : isAtomChar c = true) (room : Nat) (r : List Char) :
    value? room (word ++ r) = atomAt? (word ++ r) := by
  rw [hword, List.cons_append, value?.eq_def]
  dsimp only
  split <;> rename_i h <;> first | rfl | (cases h; cases hc)

private theorem atomAt?_append {word : List Char} (hword : ∀ c ∈ word, isAtomChar c = true)
    {r : List Char} (hr : Stops r) : atomAt? (word ++ r) = (atom? word).map fun v => (v, r) := by
  rw [atomAt?, takeWhile_append_stop hword hr.atom, dropWhile_append_stop hword hr.atom]
  simp only [hr.spansBlank, Bool.false_eq_true, if_false]

private theorem value?_numeral {word : List Char} (hword : word ≠ [])
    (hchars : ∀ c ∈ word, isNumeral c = true) (room : Nat) {r : List Char} (hr : Stops r) :
    value? room (word ++ r) = (atom? word).map fun v => (v, r) := by
  have hatom : ∀ c ∈ word, isAtomChar c = true := fun c hc => isAtomChar_of_numeral (hchars c hc)
  obtain ⟨c, cs, hcs⟩ := List.exists_cons_of_ne_nil hword
  rw [value?_atom hcs (hatom c (hcs ▸ List.mem_cons_self)), atomAt?_append hatom hr]

private theorem value?_int {n : Int} (hlow : Limits.minInt64 ≤ n) (hhigh : n ≤ Limits.maxNat64)
    (room : Nat) {r : List Char} (hr : Stops r) :
    value? room (Number.intChars n ++ r) = some (.num (.int n), r) := by
  have hne : Number.intChars n ≠ [] := Number.chars_ne_nil (.int n)
  rw [value?_numeral hne (intChars_numeral n) room hr, atom?_intChars hlow hhigh]
  rfl

private theorem value?_real {x : Decimal.Binary64} (hx : x.Proper) (room : Nat) {r : List Char}
    (hr : Stops r) : value? room (realChars x ++ r) = some (.num (.real x), r) := by
  rw [value?_numeral (realChars_ne_nil hx) (realChars_numeral hx) room hr, atom?_realChars hx]
  rfl

private theorem value?_bool (b : Bool) (room : Nat) {r : List Char} (hr : Stops r) :
    value? room (inlineChars (.bool b) ++ r) = some (.bool b, r) := by
  cases b with
  | false =>
    rw [inlineChars, value?_atom rfl (by decide), atomAt?_append (by simp [isAtomChar]) hr]
    rfl
  | true =>
    rw [inlineChars, value?_atom rfl (by decide), atomAt?_append (by simp [isAtomChar]) hr]
    rfl

private theorem stringChars_head (s : List Char) :
    ∃ c cs, stringChars s = c :: cs ∧ (c = '"' ∨ c = '\'') := by
  have hopening (q : Char) (qs : List Char) (t : Traits) (s : List Char) :
      ∃ cs, opening (q :: qs) t ++ s = q :: cs := by
    rw [opening]
    split <;> exact ⟨_, rfl⟩
  have hbasic : ∃ cs, basicLines (Traits.of s) s = '"' :: cs := by
    obtain ⟨cs, h⟩ := hopening '"' ['"', '"'] (Traits.of s)
      (s.flatMap (linesChar ((Traits.of s).doubles ≤ 2)) ++ ['"', '"', '"'])
    exact ⟨cs, by rw [basicLines, List.append_assoc, h]⟩
  have hliteral : ∃ cs, literalLines (Traits.of s) s = '\'' :: cs := by
    obtain ⟨cs, h⟩ := hopening '\'' ['\'', '\''] (Traits.of s) (s ++ ['\'', '\'', '\''])
    exact ⟨cs, by rw [literalLines, List.append_assoc, h]⟩
  unfold stringChars
  dsimp only
  split
  · exact ⟨_, _, rfl, .inl rfl⟩
  split
  · exact ⟨_, _, rfl, .inr rfl⟩
  split
  · exact ⟨_, _, hbasic.choose_spec, .inl rfl⟩
  split
  · exact ⟨_, _, hliteral.choose_spec, .inr rfl⟩
  split
  · exact ⟨_, _, hbasic.choose_spec, .inl rfl⟩
  · exact ⟨_, _, rfl, .inl rfl⟩

private theorem value?_str (s : String) (room : Nat) {r : List Char} (hr : Stops r) :
    value? room (stringChars s.toList ++ r) = some (.str s, r) := by
  have hs := string?_chars s.toList hr.unquoted
  obtain ⟨c, cs, hcs, hquote⟩ := stringChars_head s.toList
  rw [hcs, List.cons_append] at hs ⊢
  rw [value?.eq_def]
  obtain rfl | rfl := hquote
  all_goals
    change (string? _).map _ = _
    simp only [hs, Option.map_some, String.ofList_toList]

/-- Characters that values and keys start with. -/
def startsToken (c : Char) : Bool := isAtomChar c || c == '"' || c == '\'' || c == '[' || c == '{'

private theorem startsToken_cases {c : Char} (h : startsToken c = true) :
    c ≠ '\n' ∧ c ≠ '\r' ∧ c ≠ '#' ∧ c ≠ ' ' ∧ c ≠ '\t' ∧ c ≠ ']' ∧ c ≠ '}' := by
  refine ⟨?_, ?_, ?_, ?_, ?_, ?_, ?_⟩ <;> rintro rfl <;> exact absurd h (by decide)

theorem startsToken_of_startsKey {c : Char} (h : startsKey c = true) : startsToken c = true := by
  simp only [startsKey, isBareKey, startsToken, isAtomChar, Bool.or_eq_true] at h ⊢
  grind

private theorem numeral_head {word : List Char} (hword : word ≠ [])
    (hchars : ∀ c ∈ word, isNumeral c = true) : ∃ c cs, word = c :: cs ∧ startsToken c = true := by
  obtain ⟨c, cs, hcs⟩ := List.exists_cons_of_ne_nil hword
  refine ⟨c, cs, hcs, ?_⟩
  rw [startsToken, isAtomChar_of_numeral (hchars c (hcs ▸ List.mem_cons_self))]
  rfl

theorem inlineChars_head {v : Value} (h : expressible v = true) :
    ∃ c cs, inlineChars v = c :: cs ∧ startsToken c = true := by
  match v with
  | .null => cases h
  | .bool true => exact ⟨_, _, rfl, by decide⟩
  | .bool false => exact ⟨_, _, rfl, by decide⟩
  | .num (.int n) => exact numeral_head (Number.chars_ne_nil (.int n)) (intChars_numeral n)
  | .num (.real x) =>
    have hx : x.Proper := of_decide_eq_true h
    exact numeral_head (realChars_ne_nil hx) (realChars_numeral hx)
  | .str s =>
    obtain ⟨c, cs, hcs, hquote⟩ := stringChars_head s.toList
    refine ⟨c, cs, hcs, ?_⟩
    obtain rfl | rfl := hquote <;> decide
  | .arr items => exact ⟨_, _, rfl, by decide⟩
  | .obj [] => exact ⟨_, _, rfl, by decide⟩
  | .obj (f :: fs) => exact ⟨_, _, rfl, by decide⟩

private theorem trivia?_token {c : Char} (h : startsToken c = true) (s : List Char) :
    trivia? false (c :: s) = some (c :: s) := by
  obtain ⟨hline, hreturn, hhash, hspace, htab, -⟩ := startsToken_cases h
  rw [trivia?.eq_def]
  split <;> simp_all [isBlank]

private theorem skipBlanks_token {c : Char} (h : startsToken c = true) (s : List Char) :
    skipBlanks (c :: s) = c :: s := by
  obtain ⟨-, -, -, hspace, htab, -⟩ := startsToken_cases h
  exact skipBlanks_cons (by simp [isBlank, hspace, htab]) s

theorem assigned?_text (k : String) {s : List Char}
    (hs : ∃ c cs, s = c :: cs ∧ startsToken c = true) (t : List Char) :
    assigned? (keyChars k ++ ' ' :: '=' :: ' ' :: (s ++ t)) = some (([], k), s ++ t) := by
  obtain ⟨c, cs, rfl, hc⟩ := hs
  rw [assigned?_chars, List.cons_append, skipBlanks_token hc]

/-- Nothing but blanks and line ends. -/
def Gap (gap : List Char) : Prop := ∀ s, trivia? false (gap ++ s) = trivia? false s

private theorem gap_nil : Gap [] := fun _ => rfl

private theorem gap_blank : Gap [' '] := fun s => by
  rw [List.singleton_append, trivia?] <;> simp [isBlank]

private theorem gap_margin : Gap ['\n', ' ', ' ', ' ', ' '] := fun s => by
  simp [trivia?, isBlank]

/-- The items from one on, which is read already, given what follows it. -/
private def itemsFrom (room fuel : Nat) (v : Value) (t : List Char) : Option (List Value × List Char) :=
  match trivia? false t with
  | some (',' :: rest) => (items? (value? room) fuel rest).map fun (vs, rest) => (v :: vs, rest)
  | some (']' :: rest) => some ([v], rest)
  | _ => none

private def pairsFrom (room fuel : Nat) (k : String) (v : Value) (t : List Char) :
    Option (List (List String × String × Value) × List Char) :=
  match trivia? false t with
  | some (',' :: rest) => (pairs? (value? room) fuel rest).map fun (ps, rest) => (([], k, v) :: ps, rest)
  | some ('}' :: rest) => some ([([], k, v)], rest)
  | _ => none

section items
variable {v : Value} {room : Nat} {gap : List Char} (hgap : Gap gap) (hv : expressible v = true)
  {t : List Char} (hread : value? room (inlineChars v ++ t) =
    if v.depth ≤ room then some (v.canonical, t) else none)
include hgap hv hread

private theorem items?_step (fuel : Nat) : items? (value? room) (fuel + 1) (gap ++ (inlineChars v ++ t)) =
    if v.depth ≤ room then itemsFrom room fuel v.canonical t else none := by
  obtain ⟨c, cs, hc, htoken⟩ := inlineChars_head hv
  obtain ⟨-, -, -, -, -, hclose, -⟩ := startsToken_cases htoken
  have hstart : trivia? false (gap ++ (inlineChars v ++ t)) = some (inlineChars v ++ t) := by
    rw [hgap, hc, List.cons_append, trivia?_token htoken]
  rw [items?, hstart]
  split
  · rename_i h
    rw [hc, List.cons_append, Option.some.injEq, List.cons.injEq] at h
    exact absurd h.1 hclose
  · rename_i h
    cases h
    rw [hread]
    by_cases hdepth : v.depth ≤ room
    · rw [if_pos hdepth, if_pos hdepth]
      rfl
    · rw [if_neg hdepth, if_neg hdepth]
  · contradiction

private theorem pairs?_step (k : String) (fuel : Nat) :
    pairs? (value? room) (fuel + 1) (gap ++ (keyChars k ++ ' ' :: '=' :: ' ' :: (inlineChars v ++ t))) =
      if v.depth ≤ room then pairsFrom room fuel k v.canonical t else none := by
  obtain ⟨c, cs, hc, hkey⟩ := keyChars_head k
  have htoken := startsToken_of_startsKey hkey
  obtain ⟨-, -, -, -, -, -, hclose⟩ := startsToken_cases htoken
  have hassigned := assigned?_text k (inlineChars_head hv) t
  have hstart : trivia? false (gap ++ (keyChars k ++ ' ' :: '=' :: ' ' :: (inlineChars v ++ t))) =
      some (keyChars k ++ ' ' :: '=' :: ' ' :: (inlineChars v ++ t)) := by
    rw [hgap, hc, List.cons_append, trivia?_token htoken]
  rw [pairs?, hstart]
  split
  · rename_i h
    rw [hc, List.cons_append, Option.some.injEq, List.cons.injEq] at h
    exact absurd h.1 hclose
  · rename_i h
    cases h
    simp only [hassigned, hread]
    by_cases hdepth : v.depth ≤ room
    · rw [if_pos hdepth, if_pos hdepth]
      rfl
    · rw [if_neg hdepth, if_neg hdepth]
  · contradiction

end items

private theorem inlineItems_cons (v : Value) (vs : List Value) (r : List Char) :
    inlineItems (v :: vs) ++ r = inlineChars v ++ match vs with
      | [] => r
      | _ :: _ => ',' :: ' ' :: (inlineItems vs ++ r) := by
  cases vs with
  | nil => rfl
  | cons w ws => simp only [inlineItems, List.append_assoc, List.cons_append]

private theorem inlineFields_cons (k : String) (v : Value) (fs : Fields) (r : List Char) :
    inlineFields ((k, v) :: fs) ++ r =
      keyChars k ++ ' ' :: '=' :: ' ' :: (inlineChars v ++ match fs with
        | [] => r
        | _ :: _ => ',' :: ' ' :: (inlineFields fs ++ r)) := by
  cases fs with
  | nil => simp only [inlineFields, List.append_assoc, List.cons_append]
  | cons g gs => simp only [inlineFields, List.append_assoc, List.cons_append]

private theorem length_le_inlineItems : ∀ {vs : List Value}, allExpressible vs = true →
    vs.length ≤ (inlineItems vs).length := by
  intro vs h
  match vs with
  | [] => exact Nat.le_refl 0
  | [v] =>
    rw [allExpressible, Bool.and_eq_true] at h
    obtain ⟨c, cs, hcs, -⟩ := inlineChars_head h.1
    rw [inlineItems, hcs]
    exact Nat.succ_le_succ (Nat.zero_le _)
  | v :: w :: ws =>
    rw [allExpressible, Bool.and_eq_true] at h
    have hws := length_le_inlineItems h.2
    simp only [inlineItems, List.length_append, List.length_cons] at hws ⊢
    omega

private theorem length_le_inlineFields : ∀ fs : Fields, fs.length ≤ (inlineFields fs).length := by
  intro fs
  match fs with
  | [] => exact Nat.le_refl 0
  | [(k, v)] =>
    simp only [inlineFields, List.length_append, List.length_cons, List.length_nil]
    omega
  | (k, v) :: g :: gs =>
    have hgs := length_le_inlineFields (g :: gs)
    simp only [inlineFields, List.length_append, List.length_cons] at hgs ⊢
    omega

private theorem inlineTable?_assignments {fs : Fields} (h : (fs.map Prod.fst).Nodup) :
    inlineTable? (assignments fs) = some (Value.obj fs).canonical := by
  rw [inlineTable?, Entries.insertAll_assignments h fun _ _ => rfl, List.nil_append, Option.map_some,
    Node.toValue_ofPlain]

private theorem value?_bracket (room : Nat) (s : List Char) : value? (room + 1) ('[' :: s) =
    (items? (value? room) (s.length + 1) s).map fun (vs, rest) => (.arr vs, rest) := by
  rw [value?.eq_def]
  rfl

private theorem value?_brace {room : Nat} {fs : Fields} (hkeys : (fs.map Prod.fst).Nodup)
    {s r : List Char} (h : pairs? (value? room) (s.length + 1) s =
      if Value.fieldsDepth fs ≤ room then some (assignments fs, r) else none) :
    value? (room + 1) ('{' :: s) =
      if Value.fieldsDepth fs ≤ room then some ((Value.obj fs).canonical, r) else none := by
  rw [value?.eq_def]
  by_cases hdepth : Value.fieldsDepth fs ≤ room
  · rw [if_pos hdepth] at h ⊢
    simp only [h, inlineTable?_assignments hkeys, Option.map_some]
  · rw [if_neg hdepth] at h ⊢
    simp only [h]

private theorem ite_max {α : Type} (m n room : Nat) (x : Option α) :
    (if max m n ≤ room then x else none) = if m ≤ room then if n ≤ room then x else none else none := by
  split <;> split <;> first | rfl | (split <;> first | rfl | omega) | omega

mutual

/-- A value is read where its text begins, and the reader stops where its text ends. -/
theorem value?_inline : ∀ (v : Value) (room : Nat) {r : List Char}, expressible v = true → Stops r →
    value? room (inlineChars v ++ r) = if v.depth ≤ room then some (v.canonical, r) else none := by
  intro v room r hv hr
  match v, room with
  | .null, _ => cases hv
  | .bool b, room => exact value?_bool b room hr
  | .num (.int n), room =>
    simp only [expressible, decide_eq_true_eq] at hv
    exact value?_int hv.1 hv.2 room hr
  | .num (.real x), room => exact value?_real (of_decide_eq_true hv) room hr
  | .str s, room => exact value?_str s room hr
  | .arr items, 0 => rw [value?.eq_def]; rfl
  | .obj [], 0 => rw [value?.eq_def]; rfl
  | .obj (f :: fs), 0 => rw [value?.eq_def]; rfl
  | .arr items, room + 1 =>
    have hfuel : items.length < (inlineItems items ++ ']' :: r).length + 1 := by
      have hlength : items.length ≤ (inlineItems items).length := length_le_inlineItems hv
      rw [List.length_append]
      omega
    have hitems := items?_inline items room (r := r) gap_nil hv hfuel
    rw [List.nil_append] at hitems
    simp only [inlineChars, List.cons_append, List.append_assoc, List.nil_append, Value.depth,
      Nat.add_le_add_iff_right]
    rw [value?_bracket, hitems]
    split <;> rfl
  | .obj [], room + 1 =>
    have hkeys : (([] : Fields).map Prod.fst).Nodup := List.nodup_nil
    exact value?_brace hkeys rfl
  | .obj (f :: fs), room + 1 =>
    obtain ⟨hkeys, hfs⟩ := expressible_obj.mp hv
    have hfuel : (f :: fs).length <
        (' ' :: (inlineFields (f :: fs) ++ ' ' :: '}' :: r)).length + 1 := by
      have hlength := length_le_inlineFields (f :: fs)
      rw [List.length_cons (a := ' '), List.length_append]
      omega
    have hfields := pairs?_inline (f :: fs) room (r := r) (List.cons_ne_nil f fs) gap_blank hfs hfuel
    simp only [inlineChars, List.cons_append, List.append_assoc, List.nil_append, Value.depth,
      Nat.add_le_add_iff_right]
    exact value?_brace hkeys hfields

private theorem items?_inline : ∀ (vs : List Value) (room : Nat) {fuel : Nat} {gap r : List Char},
    Gap gap → allExpressible vs = true → vs.length < fuel →
      items? (value? room) fuel (gap ++ (inlineItems vs ++ ']' :: r)) =
        if Value.itemsDepth vs ≤ room then some (Value.canonicalItems vs, r) else none := by
  intro vs room fuel gap r hgap hvs hfuel
  match vs, fuel with
  | [], fuel + 1 => rw [inlineItems, List.nil_append, items?, hgap]; rfl
  | v :: vs, fuel + 1 =>
    rw [allExpressible, Bool.and_eq_true] at hvs
    have hstep {t : List Char} (ht : Stops t) :=
      items?_step hgap hvs.1 (value?_inline v room hvs.1 ht) fuel
    rw [inlineItems_cons]
    match vs with
    | [] =>
      rw [hstep (.bracket r), Value.itemsDepth, Value.itemsDepth, Nat.max_zero]
      rfl
    | w :: ws =>
      have hws := items?_inline (w :: ws) room (r := r) gap_blank hvs.2 (Nat.lt_of_succ_lt_succ hfuel)
      rw [hstep (.comma _), Value.itemsDepth, ite_max]
      refine if_congr Iff.rfl ?_ rfl
      change (items? (value? room) fuel ([' '] ++ (inlineItems (w :: ws) ++ ']' :: r))).map _ = _
      rw [hws]
      split <;> rfl

private theorem pairs?_inline : ∀ (fs : Fields) (room : Nat) {fuel : Nat} {gap r : List Char},
    fs ≠ [] → Gap gap → fieldsExpressible fs = true → fs.length < fuel →
      pairs? (value? room) fuel (gap ++ (inlineFields fs ++ ' ' :: '}' :: r)) =
        if Value.fieldsDepth fs ≤ room then some (assignments fs, r) else none := by
  intro fs room fuel gap r hne hgap hfs hfuel
  match fs, fuel with
  | (k, v) :: fs, fuel + 1 =>
    rw [fieldsExpressible, Bool.and_eq_true] at hfs
    have hstep {t : List Char} (ht : Stops t) :=
      pairs?_step hgap hfs.1 (value?_inline v room hfs.1 ht) k fuel
    rw [inlineFields_cons]
    match fs with
    | [] =>
      rw [hstep (.brace r), Value.fieldsDepth, Value.fieldsDepth, Nat.max_zero]
      rfl
    | g :: gs =>
      have hgs := pairs?_inline (g :: gs) room (r := r) (List.cons_ne_nil g gs) gap_blank hfs.2
        (Nat.lt_of_succ_lt_succ hfuel)
      rw [hstep (.comma _), Value.fieldsDepth, ite_max]
      refine if_congr Iff.rfl ?_ rfl
      change (pairs? (value? room) fuel ([' '] ++ (inlineFields (g :: gs) ++ ' ' :: '}' :: r))).map _ = _
      rw [hgs]
      split <;> rfl

end

/-- An item on a line of its own. -/
private def itemLine (v : Value) : List Char := [' ', ' ', ' ', ' '] ++ inlineChars v ++ [',', '\n']

private theorem items?_lines (room : Nat) {r : List Char} : ∀ (vs : List Value) {fuel : Nat},
    allExpressible vs = true → vs.length < fuel →
      items? (value? room) fuel ('\n' :: (vs.flatMap itemLine ++ ']' :: r)) =
        if Value.itemsDepth vs ≤ room then some (Value.canonicalItems vs, r) else none := by
  intro vs fuel hvs hfuel
  match vs, fuel with
  | [], fuel + 1 => rw [items?]; rfl
  | v :: vs, fuel + 1 =>
    rw [allExpressible, Bool.and_eq_true] at hvs
    have hread := value?_inline v room (r := ',' :: '\n' :: (vs.flatMap itemLine ++ ']' :: r)) hvs.1
      (.comma _)
    have hrest := items?_lines room vs (r := r) hvs.2 (Nat.lt_of_succ_lt_succ hfuel)
    have htext : '\n' :: ((v :: vs).flatMap itemLine ++ ']' :: r) =
        ['\n', ' ', ' ', ' ', ' '] ++
          (inlineChars v ++ ',' :: '\n' :: (vs.flatMap itemLine ++ ']' :: r)) := by
      simp only [List.flatMap_cons, itemLine, List.append_assoc, List.cons_append, List.nil_append]
    rw [htext, items?_step gap_margin hvs.1 hread, Value.itemsDepth, ite_max]
    refine if_congr Iff.rfl ?_ rfl
    change (items? (value? room) fuel ('\n' :: (vs.flatMap itemLine ++ ']' :: r))).map _ = _
    rw [hrest]
    split <;> rfl

private theorem length_le_itemLines (vs : List Value) : vs.length ≤ (vs.flatMap itemLine).length := by
  induction vs with
  | nil => exact Nat.le_refl 0
  | cons v vs ih =>
    simp only [List.flatMap_cons, itemLine, List.length_append, List.length_cons] at ih ⊢
    omega

/-- The value of a line is read, unless too much stands inside it. -/
theorem value?_block {v : Value} (room : Nat) {r : List Char} (hv : expressible v = true)
    (hr : Stops r) : value? room (blockChars v ++ r) =
      if v.depth ≤ room then some (v.canonical, r) else none := by
  match v, room with
  | .arr (a :: b :: vs), 0 => rw [value?.eq_def]; rfl
  | .arr (a :: b :: vs), room + 1 =>
    have hfuel : (a :: b :: vs).length <
        ('\n' :: ((a :: b :: vs).flatMap itemLine ++ ']' :: r)).length + 1 := by
      have hlength := length_le_itemLines (a :: b :: vs)
      rw [List.length_cons (a := '\n'), List.length_append]
      omega
    have hitems := items?_lines room (a :: b :: vs) (r := r) hv hfuel
    have htext : blockChars (.arr (a :: b :: vs)) ++ r =
        '[' :: '\n' :: ((a :: b :: vs).flatMap itemLine ++ ']' :: r) := by
      rw [blockChars, List.cons_append, List.cons_append, List.append_assoc]
      rfl
    rw [htext, value?_bracket, hitems, Value.depth]
    simp only [Nat.add_le_add_iff_right]
    split <;> rfl
  | .arr [], room | .arr [a], room | .null, room | .bool _, room | .num _, room | .str _, room
  | .obj _, room => exact value?_inline _ room hv hr

end LanguageClient.Toml
