import LanguageClient.Json.Reader
import LanguageClient.Proofs.UniqueReading
/-!
What is written of a value is read as the value, provided that its numbers are whole and that no more
arrays and objects stand inside one another than the reader allows. The reader keeps the fields of an
object in the order of the text, so that nothing is asked of their keys.
-/
namespace LanguageClient.Json

namespace Value

mutual
/-- How many arrays and objects stand inside one another. -/
def depth : Value → Nat
  | .arr items => itemsDepth items + 1
  | .obj fields => fieldsDepth fields + 1
  | .null | .bool _ | .num _ | .str _ => 0

def itemsDepth : List Value → Nat
  | [] => 0
  | v :: vs => max (depth v) (itemsDepth vs)

def fieldsDepth : List (String × Value) → Nat
  | [] => 0
  | (_, v) :: fs => max (depth v) (fieldsDepth fs)
end

mutual
/-- Every number is whole and fits 64 bits, with or without a sign. A number kept as binary64 counts as
fractional, whatever it is. -/
def isWhole : Value → Bool
  | .num (.int n) => Limits.minInt64 ≤ n ∧ n ≤ Limits.maxNat64
  | .num (.real _) => false
  | .arr items => itemsWhole items
  | .obj fields => fieldsWhole fields
  | .null | .bool _ | .str _ => true

def itemsWhole : List Value → Bool
  | [] => true
  | v :: vs => isWhole v && itemsWhole vs

def fieldsWhole : List (String × Value) → Bool
  | [] => true
  | (_, v) :: fs => isWhole v && fieldsWhole fs
end

end Value

/-- Texts that go on with no part of a number. -/
def Ends (r : List Char) : Prop :=
  ∀ c ∈ r.head?, c.isDigit = false ∧ c ≠ '.' ∧ c ≠ 'e' ∧ c ≠ 'E'

theorem ends_cons {c : Char} (h : c.isDigit = false ∧ c ≠ '.' ∧ c ≠ 'e' ∧ c ≠ 'E')
    (r : List Char) : Ends (c :: r) := by
  intro d hd
  rw [List.head?_cons, Option.mem_some_iff] at hd
  exact hd ▸ h

private theorem zero_of_digitChar : ∀ n < 10, Nat.digitChar n = '0' → n = 0 := by decide

theorem toDigits_zero_head (n : Nat) {ds : List Char} (h : Nat.toDigits 10 n = '0' :: ds) :
    n = 0 := by
  induction n using Nat.strongRecOn generalizing ds with
  | ind n ih =>
    rw [Nat.toDigits_eq_if (by decide)] at h
    split at h
    · rename_i hn
      have hc : n.digitChar = '0' := (List.cons.inj h).1
      exact zero_of_digitChar n hn hc
    · obtain ⟨c, cs, hcs⟩ := List.exists_cons_of_ne_nil (Nat.toDigits_ne_nil (b := 10) (n := n / 10))
      rw [hcs] at h
      have hzero := ih (n / 10) (by omega) (hcs.trans (by rw [(List.cons.inj h).1]))
      omega

theorem digits_append {ds r : List Char} (hd : ∀ c ∈ ds, c.isDigit = true) (hr : Ends r) :
    Numeral.digits (ds ++ r) = (ds, r) := by
  have hstop : r.takeWhile Char.isDigit = [] ∧ r.dropWhile Char.isDigit = r := by
    cases r with
    | nil => exact ⟨rfl, rfl⟩
    | cons c r =>
      have hc : ¬ c.isDigit = true := by simp [(hr c rfl).1]
      exact ⟨List.takeWhile_cons_of_neg hc, List.dropWhile_cons_of_neg hc⟩
  rw [Numeral.digits, List.takeWhile_append_of_pos hd, List.dropWhile_append_of_pos hd, hstop.1,
    hstop.2, List.append_nil]

private theorem whole?_toDigits (n : Nat) {r : List Char} (hr : Ends r) :
    Numeral.whole? (Nat.toDigits 10 n ++ r) = some (Nat.toDigits 10 n, r) := by
  have hd : ∀ c ∈ Nat.toDigits 10 n, c.isDigit = true := fun c hc =>
    Nat.isDigit_of_mem_toDigits (by decide) (by decide) hc
  unfold Numeral.whole?
  rw [digits_append hd hr]
  split
  · rename_i h
    exact absurd (Prod.mk.inj h).1 Nat.toDigits_ne_nil
  · rename_i h
    rw [(Prod.mk.inj h).1, (Prod.mk.inj h).2]
  · rename_i hnot h
    obtain rfl := toDigits_zero_head n (Prod.mk.inj h).1
    exact (hnot (List.cons.inj (Prod.mk.inj h).1).2.symm).elim
  · rfl

theorem fraction?_ends {r : List Char} (hr : Ends r) :
    Numeral.fraction? r = some (none, r) := by
  unfold Numeral.fraction?
  split
  · exact absurd rfl (hr '.' rfl).2.1
  · rfl

theorem exponent?_ends {r : List Char} (hr : Ends r) :
    Numeral.exponent? r = some (none, r) := by
  unfold Numeral.exponent?
  split
  · exact absurd rfl (hr 'e' rfl).2.2.1
  · exact absurd rfl (hr 'E' rfl).2.2.2
  · rfl

private theorem read?_intChars (n : Int) {r : List Char} (hr : Ends r) :
    Numeral.read? (Number.intChars n ++ r) =
      some (⟨n < 0, Nat.toDigits 10 n.natAbs, none, none⟩, r) := by
  by_cases hn : n < 0
  · rw [Number.intChars, if_pos hn, List.cons_append, Numeral.read?]
    simp only [whole?_toDigits _ hr, fraction?_ends hr, exponent?_ends hr, Option.bind_some,
      Option.map_some, hn, decide_true]
  · have hsign : ∀ cs, Nat.toDigits 10 n.natAbs ++ r ≠ '-' :: cs := by
      obtain ⟨c, ds, hds⟩ := List.exists_cons_of_ne_nil (Nat.toDigits_ne_nil (b := 10) (n := n.natAbs))
      have hd : c.isDigit = true := Nat.isDigit_of_mem_toDigits (b := 10) (n := n.natAbs) (by decide)
        (by decide) (hds ▸ List.mem_cons_self)
      rintro cs h
      rw [hds] at h
      rw [(List.cons.inj h).1] at hd
      cases hd
    rw [Number.intChars, if_neg hn]
    unfold Numeral.read?
    split
    rename_i heq
    split at heq
    · rename_i h
      exact absurd h (hsign _)
    · cases heq
      simp only [whole?_toDigits _ hr, fraction?_ends hr, exponent?_ends hr, Option.bind_some,
        Option.map_some, hn, decide_false]

private theorem le_ofDigitChars (ds : List Char) (m : Nat) : m ≤ Nat.ofDigitChars 10 ds m := by
  induction ds generalizing m with
  | nil => exact Nat.le_refl m
  | cons c ds ih =>
    rw [Nat.ofDigitChars_cons]
    exact Nat.le_trans (by omega) (ih _)

private theorem absorb_eq {ds : List Char} {m : Nat}
    (h : Nat.ofDigitChars 10 ds m ≤ Numeral.limit) :
    Numeral.absorb m ds = (Nat.ofDigitChars 10 ds m, []) := by
  induction ds generalizing m with
  | nil => rfl
  | cons c ds ih =>
    rw [Nat.ofDigitChars_cons, Nat.mul_comm] at h ⊢
    have hfit : m * 10 + (c.toNat - '0'.toNat) ≤ Numeral.limit := Nat.le_trans (le_ofDigitChars _ _) h
    rw [Numeral.absorb]
    simp only [if_pos hfit]
    exact ih h

private theorem value?_intChars {n : Int} (hlow : Limits.minInt64 ≤ n) (hhigh : n ≤ Limits.maxNat64) :
    Numeral.value? ⟨n < 0, Nat.toDigits 10 n.natAbs, none, none⟩ = some (.int n) := by
  have hmin : Limits.minInt64 = -9223372036854775808 := rfl
  have hmax : Limits.maxNat64 = 18446744073709551615 := rfl
  have hfit : Nat.ofDigitChars 10 (Nat.toDigits 10 n.natAbs) 0 ≤ Numeral.limit := by
    rw [Nat.ofDigitChars_ten_toDigits, Numeral.limit]
    omega
  have habs := absorb_eq hfit
  rw [Nat.ofDigitChars_ten_toDigits] at habs
  unfold Numeral.value?
  simp only [habs]
  by_cases hn : n < 0
  · have hrange : ¬ (n.natAbs = 0 ∨ n.natAbs > Limits.minInt64.natAbs) := by omega
    simp only [hn, decide_true, if_true, if_neg hrange]
    rw [Option.some.injEq, Number.int.injEq]
    omega
  · simp only [hn, decide_false, Bool.false_eq_true, if_false]
    rw [Option.some.injEq, Number.int.injEq]
    omega

theorem value?_numeric {c : Char} (hc : isNumeric c = true) (room : Nat)
    (rest : List Char) : value? room (c :: rest) =
      match Numeral.read? (c :: rest) with
      | none => none
      | some (n, rest) => n.value?.map fun n => (.num n, rest) := by
  have hb : skipBlanks (c :: rest) = c :: rest := by
    refine List.dropWhile_cons_of_neg fun hb => ?_
    simp only [isBlank, Bool.or_eq_true, beq_iff_eq] at hb
    rcases hb with ((rfl | rfl) | rfl) | rfl <;> cases hc
  rw [value?.eq_def]
  simp only [hb]
  split <;> rename_i h <;> first | rfl | (cases h; cases hc)

private theorem value?_int {n : Int} (hlow : Limits.minInt64 ≤ n) (hhigh : n ≤ Limits.maxNat64)
    (room : Nat) {r : List Char} (hr : Ends r) :
    value? room (Number.intChars n ++ r) = some (.num (.int n), r) := by
  have hread := read?_intChars n hr
  obtain ⟨c, cs, hcs⟩ := List.exists_cons_of_ne_nil (Number.chars_ne_nil (.int n))
  have hchars : Number.intChars n = c :: cs := hcs
  have hc : isNumeric c = true := Number.chars_numeric (.int n) c (hcs ▸ List.mem_cons_self)
  rw [hchars, List.cons_append] at hread ⊢
  rw [value?_numeric hc, hread]
  simp only [value?_intChars hlow hhigh, Option.map_some]

namespace Value

private theorem skipBlanks_chars (v : Value) (r : List Char) :
    skipBlanks (v.chars ++ r) = v.chars ++ r := by
  cases h : v.chars ++ r with
  | nil => rfl
  | cons c cs =>
    refine List.dropWhile_cons_of_neg fun hb => ?_
    simp only [isBlank, Bool.or_eq_true, beq_iff_eq] at hb
    rcases hb with ((rfl | rfl) | rfl) | rfl <;> exact chars_ne_closing rfl rfl h

section
variable {α : Type} {close : Char} {one : α → List Char} {text : List α → List Char}

/-- Entries are written one after the other, with commas between them. -/
structure Listing (close : Char) (one : α → List Char) (text : List α → List Char) : Prop where
  nil : text [] = []
  cons (e : α) (es : List α) (r : List Char) : text (e :: es) ++ close :: r = one e ++ entryTail close text es r
  starts (e : α) (r : List Char) : ∃ c s, skipBlanks (one e ++ r) = c :: s ∧ c ≠ close
  comma : close ≠ ','
  blank : isBlank close = false
  ends (r : List Char) : Ends (close :: r)

private theorem ends_entryTail (h : Listing close one text) (es : List α) (r : List Char) :
    Ends (entryTail close text es r) := by
  cases es with
  | nil => exact h.ends r
  | cons _ _ => exact ends_cons (by decide) _

private theorem length_le_text (h : Listing close one text) (es : List α) (r : List Char) :
    es.length ≤ (text es ++ close :: r).length := by
  induction es with
  | nil => exact Nat.zero_le _
  | cons e es ih =>
    rw [h.cons, List.length_append]
    cases es with
    | nil => simp only [entryTail, List.length_cons, List.length_nil]; omega
    | cons _ _ =>
      simp only [entryTail, List.length_cons, List.length_append, List.cons_append] at ih ⊢
      omega

/-- Entries are read one after the other, if each is read up to what follows it. -/
private theorem separated?_text (h : Listing close one text) {entry : List Char → Option (α × List Char)}
    {fuel : Nat} {es : List α} (hne : es ≠ []) (hfuel : es.length ≤ fuel)
    (hentry : ∀ e ∈ es, ∀ t, Ends t → entry (one e ++ t) = some (e, t)) (r : List Char) :
    separated? close entry fuel (text es ++ close :: r) = some (es, r) := by
  induction es generalizing fuel with
  | nil => exact absurd rfl hne
  | cons e es ih =>
    obtain ⟨fuel, rfl⟩ : ∃ n, fuel = n + 1 := Nat.exists_eq_add_of_le' (Nat.le_trans (Nat.succ_pos _) hfuel)
    rw [h.cons, separated?, hentry e List.mem_cons_self _ (ends_entryTail h es r)]
    cases es with
    | nil =>
      have hclose : skipBlanks (close :: r) = close :: r :=
        List.dropWhile_cons_of_neg (Bool.eq_false_iff.mp h.blank)
      simp only [entryTail, hclose, if_neg h.comma, if_true]
    | cons d ds =>
      have hrest := ih (List.cons_ne_nil d ds) (Nat.le_of_succ_le_succ hfuel)
        fun e he => hentry e (List.mem_cons_of_mem _ he)
      have hcomma (s : List Char) : skipBlanks (',' :: s) = ',' :: s := rfl
      simp only [entryTail, List.cons_append, hcomma, if_true, hrest, Option.map_some]

private theorem entries?_text (h : Listing close one text) {entry : List Char → Option (α × List Char)}
    {es : List α} (hentry : ∀ e ∈ es, ∀ t, Ends t → entry (one e ++ t) = some (e, t)) (r : List Char) :
    entries? close entry (text es ++ close :: r) = some (es, r) := by
  cases es with
  | nil =>
    have hclose : skipBlanks (close :: r) = close :: r :=
      List.dropWhile_cons_of_neg (Bool.eq_false_iff.mp h.blank)
    simp only [entries?, h.nil, List.nil_append, hclose, if_true]
  | cons e es =>
    have hread := separated?_text h (List.cons_ne_nil e es) (length_le_text h (e :: es) r) hentry r
    obtain ⟨c, s, hstart, hc⟩ := h.starts e (entryTail close text es r)
    simp only [entries?, hread]
    simp only [h.cons, hstart, if_neg hc]

end

private theorem items_listing : Listing ']' chars itemChars where
  nil := rfl
  cons := itemChars_cons
  starts v r := by
    obtain ⟨c, s, hv, -⟩ := chars_opening v
    refine ⟨c, s ++ r, by rw [skipBlanks_chars, hv, List.cons_append], ?_⟩
    rintro rfl
    exact chars_ne_closing (r := []) rfl rfl (by rw [hv, List.append_nil])
  comma := by decide
  blank := rfl
  ends := ends_cons (by decide)

private theorem fields_listing :
    Listing '}' (fun f : String × Value => quoted f.1 ++ ':' :: f.2.chars) fieldChars where
  nil := rfl
  cons f fs r := by rw [fieldChars_cons, List.append_assoc, List.cons_append]
  starts f r := ⟨'"', _, rfl, by decide⟩
  comma := by decide
  blank := rfl
  ends := ends_cons (by decide)

private theorem value?_str (s : String) (room : Nat) (r : List Char) :
    value? room (quoted s ++ r) = some (.str s, r) := by
  have hbody := stringBody?_escaped s.toList r
  rw [value?.eq_def]
  simp only [quoted, List.cons_append, List.append_assoc, List.nil_append]
  change (stringBody? (s.toList.flatMap escapeChar ++ '"' :: r)).map _ = _
  rw [hbody]
  rw [Option.map_some, String.ofList_toList]

private theorem field?_chars {k : String} {v : Value} {room : Nat} {r : List Char}
    (h : value? room (v.chars ++ r) = some (v, r)) :
    field? (value? room) (quoted k ++ ':' :: v.chars ++ r) = some ((k, v), r) := by
  have hbody := stringBody?_escaped k.toList (':' :: (v.chars ++ r))
  have hopen (s : List Char) : skipBlanks ('"' :: s) = '"' :: s := rfl
  have hcolon (s : List Char) : skipBlanks (':' :: s) = ':' :: s := rfl
  simp only [field?, quoted, List.cons_append, List.append_assoc, List.nil_append, hopen, hbody,
    hcolon, h, Option.map_some, String.ofList_toList]

mutual

/-- A value is read where its text begins, and the reader stops where its text ends. -/
theorem value?_chars : ∀ (v : Value) {room : Nat} {r : List Char}, v.isWhole = true →
    v.depth ≤ room → Ends r → value? room (v.chars ++ r) = some (v, r) := by
  intro v room r hw hd hr
  match v, room with
  | .null, _ => rw [value?.eq_def]; rfl
  | .bool true, _ => rw [value?.eq_def]; rfl
  | .bool false, _ => rw [value?.eq_def]; rfl
  | .num (.int n), room =>
    simp only [isWhole, decide_eq_true_eq] at hw
    exact value?_int hw.1 hw.2 room hr
  | .num (.real _), _ => cases hw
  | .str s, room => exact value?_str s room r
  | .arr _, 0 => simp only [depth] at hd; omega
  | .obj _, 0 => simp only [depth] at hd; omega
  | .arr vs, room + 1 =>
    simp only [isWhole] at hw
    simp only [depth, Nat.add_le_add_iff_right] at hd
    have hvs := entries?_text items_listing (items_read vs hw hd) r
    simp only [chars, List.cons_append, List.append_assoc, List.nil_append]
    rw [value?.eq_def]
    change (entries? ']' (value? room) (itemChars vs ++ ']' :: r)).map _ = _
    rw [hvs, Option.map_some]
  | .obj fs, room + 1 =>
    simp only [isWhole] at hw
    simp only [depth, Nat.add_le_add_iff_right] at hd
    have hfs : entries? '}' (field? (value? room)) (fieldChars fs ++ '}' :: r) = some (fs, r) :=
      entries?_text fields_listing (fun f hf t ht => field?_chars (fields_read fs hw hd f hf t ht)) r
    simp only [chars, List.cons_append, List.append_assoc, List.nil_append]
    rw [value?.eq_def]
    change (entries? '}' (field? (value? room)) (fieldChars fs ++ '}' :: r)).map _ = _
    rw [hfs, Option.map_some]

private theorem items_read : ∀ (vs : List Value) {room : Nat}, itemsWhole vs = true → itemsDepth vs ≤ room →
    ∀ v ∈ vs, ∀ t, Ends t → value? room (v.chars ++ t) = some (v, t) := by
  intro vs room hw hd
  match vs with
  | [] => exact nofun
  | v :: vs =>
    simp only [itemsWhole, Bool.and_eq_true] at hw
    simp only [itemsDepth, Nat.max_le] at hd
    exact List.forall_mem_cons.mpr ⟨fun _ ht => value?_chars v hw.1 hd.1 ht, items_read vs hw.2 hd.2⟩

private theorem fields_read : ∀ (fs : Fields) {room : Nat}, fieldsWhole fs = true → fieldsDepth fs ≤ room →
    ∀ f ∈ fs, ∀ t, Ends t → value? room (f.2.chars ++ t) = some (f.2, t) := by
  intro fs room hw hd
  match fs with
  | [] => exact nofun
  | (k, v) :: fs =>
    simp only [fieldsWhole, Bool.and_eq_true] at hw
    simp only [fieldsDepth, Nat.max_le] at hd
    exact List.forall_mem_cons.mpr ⟨fun _ ht => value?_chars v hw.1 hd.1 ht, fields_read fs hw.2 hd.2⟩

end

/-- The text of a value is read as the value, the order and the repetition of its keys included. -/
theorem readText?_render {v : Value} (hw : v.isWhole = true) (hd : v.depth ≤ maxDepth) :
    readText? v.render = some v := by
  have hv := value?_chars v (r := []) hw hd nofun
  rw [List.append_nil] at hv
  rw [readText?, render, String.toList_ofList, hv]
  rfl

theorem read?_render {v : Value} (hw : v.isWhole = true) (hd : v.depth ≤ maxDepth) :
    read? v.render = some v.canonical := by
  rw [read?, readText?_render hw hd]
  rfl

end Value

end LanguageClient.Json
