import LanguageClient.Proofs.ShortestDecimal
import LanguageClient.Proofs.TomlStrings
import LanguageClient.Proofs.ValueRoundTrip
/-!
What is written of a number is read as the number: of a whole one its digits, and of a binary64 value its
shortest numeral, all of whose digits stand in their places around a point.
-/
namespace LanguageClient.Toml
open Json Decimal

private theorem digits?_digits {ds : List Char} (hne : ds ≠ []) (hds : ∀ c ∈ ds, c.isDigit = true) :
    digits? Char.isDigit ds = some ds := by
  induction ds with
  | nil => exact absurd rfl hne
  | cons c ds ih =>
    have hc := hds c List.mem_cons_self
    cases ds with
    | nil => rw [digits?, if_pos hc]
    | cons d ds =>
      have hd : d ≠ '_' := by
        rintro rfl
        exact absurd (hds _ (List.mem_cons_of_mem c List.mem_cons_self)) (by decide)
      have hrest := ih (List.cons_ne_nil d ds) fun e he => hds e (List.mem_cons_of_mem c he)
      rw [digits?, if_pos hc, hrest, Option.map_some]
      · exact List.cons_ne_nil d ds
      · exact fun _ h => hd (List.cons.inj h).1

private theorem wholeDigits?_digits {ds : List Char} (hne : ds ≠ []) (hds : ∀ c ∈ ds, c.isDigit = true)
    (hplain : ∀ cs, ds = '0' :: cs → cs = []) : wholeDigits? ds = some ds := by
  rw [wholeDigits?, digits?_digits hne hds]
  split
  · rename_i h
    cases hplain _ (Option.some.inj h)
  · rfl

private theorem isDigit_of_mem_toDigits {n : Nat} {c : Char} (h : c ∈ Nat.toDigits 10 n) :
    c.isDigit = true :=
  Nat.isDigit_of_mem_toDigits (by decide) (by decide) h

private theorem toDigits_plain (n : Nat) (cs : List Char) (h : Nat.toDigits 10 n = '0' :: cs) : cs = [] := by
  have hn := toDigits_zero_head n h
  rw [hn] at h
  exact (List.cons.inj h).2.symm

private theorem inBase_eq {ds : List Char} (h : ∀ c ∈ ds, c.isDigit = true) (m : Nat) :
    ds.foldl (fun n c => 10 * n + digitValue c) m = Nat.ofDigitChars 10 ds m := by
  induction ds generalizing m with
  | nil => rfl
  | cons c ds ih =>
    rw [List.foldl_cons, ih fun d hd => h d (List.mem_cons_of_mem c hd), Nat.ofDigitChars_cons,
      digitValue, if_pos (h c List.mem_cons_self)]

private theorem inBase_toDigits (n : Nat) : inBase 10 (Nat.toDigits 10 n) = n := by
  rw [inBase, inBase_eq fun c => isDigit_of_mem_toDigits, Nat.ofDigitChars_ten_toDigits]

private theorem inBase_append_zeros (ds : List Char) (k : Nat) :
    inBase 10 (ds ++ List.replicate k '0') = inBase 10 ds * 10 ^ k := by
  induction k with
  | zero => rw [List.replicate_zero, List.append_nil, Nat.pow_zero, Nat.mul_one]
  | succ k ih =>
    have hzero : digitValue '0' = 0 := rfl
    rw [List.replicate_succ', ← List.append_assoc, inBase, List.foldl_concat, ← inBase, ih, hzero,
      Nat.pow_succ]
    ring

private theorem inBase_zeros_append (k : Nat) (ds : List Char) :
    inBase 10 (List.replicate k '0' ++ ds) = inBase 10 ds := by
  induction k with
  | zero => rfl
  | succ k ih => exact ih

/-- A numeral with digits on both sides of a point. -/
structure Positional (n : Decimal.Numeral) (whole fraction : List Char) : Prop where
  whole_ne : whole ≠ []
  whole_digits : ∀ c ∈ whole, c.isDigit = true
  plain : ∀ cs, whole = '0' :: cs → cs = []
  fraction_ne : fraction ≠ []
  fraction_digits : ∀ c ∈ fraction, c.isDigit = true
  value : Numeral.value ⟨inBase 10 (whole ++ fraction), -fraction.length⟩ = n.value

private theorem zeros_digits (k : Nat) : ∀ c ∈ List.replicate k '0', c.isDigit = true := by
  intro c hc
  rw [List.eq_of_mem_replicate hc]
  rfl

section
variable {n : Decimal.Numeral} (hzero : n.digits = 0 → n.exponent = 0)
include hzero

private theorem positional_whole {k : Nat} (hk : n.exponent = k) :
    Positional n (Nat.toDigits 10 n.digits ++ List.replicate k '0') ['0'] where
  whole_ne := List.append_ne_nil_of_left_ne_nil Nat.toDigits_ne_nil _
  whole_digits := List.forall_mem_append.mpr ⟨fun _ => isDigit_of_mem_toDigits, zeros_digits k⟩
  plain := by
    intro cs h
    obtain ⟨c, ds, hds⟩ := List.exists_cons_of_ne_nil (Nat.toDigits_ne_nil (b := 10) (n := n.digits))
    rw [hds] at h
    obtain ⟨rfl, rfl⟩ := List.cons.inj h
    have hnone : k = 0 := by
      have := hzero (toDigits_zero_head n.digits hds)
      omega
    rw [toDigits_plain n.digits ds hds, hnone]
    rfl
  fraction_ne := List.cons_ne_nil _ _
  fraction_digits := zeros_digits 1
  value := by
    have hdigits : inBase 10 (Nat.toDigits 10 n.digits ++ List.replicate k '0' ++ ['0']) =
        n.digits * 10 ^ k * 10 := by
      conv_rhs => rw [← inBase_toDigits n.digits, ← inBase_append_zeros]
      exact inBase_append_zeros (Nat.toDigits 10 n.digits ++ List.replicate k '0') 1
    simp only [Numeral.value, hdigits, hk, List.length_singleton]
    push_cast
    rw [zpow_natCast, zpow_neg]
    field_simp

/-- The point may stand among the digits. -/
private theorem positional_among {p : Nat} (hp : (Nat.toDigits 10 n.digits).length + n.exponent = p)
    (hpos : 0 < p) (hexp : n.exponent < 0) :
    Positional n ((Nat.toDigits 10 n.digits).take p) ((Nat.toDigits 10 n.digits).drop p) where
  whole_ne := fun h => (List.take_eq_nil_iff.mp h).elim (by omega) Nat.toDigits_ne_nil
  whole_digits := fun _ hc => isDigit_of_mem_toDigits (List.mem_of_mem_take hc)
  plain := by
    intro cs h
    have hds : Nat.toDigits 10 n.digits = '0' :: (cs ++ (Nat.toDigits 10 n.digits).drop p) := by
      rw [← List.cons_append, ← h, List.take_append_drop]
    have := hzero (toDigits_zero_head n.digits hds)
    omega
  fraction_ne := by
    refine List.ne_nil_of_length_pos ?_
    rw [List.length_drop]
    omega
  fraction_digits := fun _ hc => isDigit_of_mem_toDigits (List.mem_of_mem_drop hc)
  value := by
    have hlength : -(((Nat.toDigits 10 n.digits).drop p).length : ℤ) = n.exponent := by
      rw [List.length_drop]
      omega
    rw [List.take_append_drop, inBase_toDigits, hlength]

omit hzero in
private theorem positional_behind {k : Nat}
    (hk : -((Nat.toDigits 10 n.digits).length + n.exponent) = k) :
    Positional n ['0'] (List.replicate k '0' ++ Nat.toDigits 10 n.digits) where
  whole_ne := List.cons_ne_nil _ _
  whole_digits := zeros_digits 1
  plain := fun _ h => (List.cons.inj h).2.symm
  fraction_ne := List.append_ne_nil_of_right_ne_nil _ Nat.toDigits_ne_nil
  fraction_digits := List.forall_mem_append.mpr ⟨zeros_digits k, fun _ => isDigit_of_mem_toDigits⟩
  value := by
    have hbase : inBase 10 (['0'] ++ (List.replicate k '0' ++ Nat.toDigits 10 n.digits)) = n.digits :=
      (inBase_zeros_append (k + 1) _).trans (inBase_toDigits n.digits)
    have hlength : -((List.replicate k '0' ++ Nat.toDigits 10 n.digits).length : ℤ) = n.exponent := by
      rw [List.length_append, List.length_replicate]
      omega
    rw [hbase, hlength]

private theorem exists_positional : ∃ whole fraction, Positional n whole fraction ∧
    whole ++ '.' :: fraction =
      if 0 ≤ n.exponent then Nat.toDigits 10 n.digits ++ List.replicate n.exponent.toNat '0' ++ ['.', '0']
      else if 0 < (Nat.toDigits 10 n.digits).length + n.exponent then
        (Nat.toDigits 10 n.digits).take ((Nat.toDigits 10 n.digits).length + n.exponent).toNat ++
          '.' :: (Nat.toDigits 10 n.digits).drop ((Nat.toDigits 10 n.digits).length + n.exponent).toNat
      else '0' :: '.' ::
        List.replicate (-((Nat.toDigits 10 n.digits).length + n.exponent)).toNat '0' ++
          Nat.toDigits 10 n.digits := by
  have hnat {i : ℤ} (h : 0 ≤ i) : i = i.toNat := (Int.toNat_of_nonneg h).symm
  split
  · rename_i hexp
    exact ⟨_, _, positional_whole hzero (hnat hexp), by simp⟩
  split
  · rename_i hexp hplaces
    exact ⟨_, _, positional_among hzero (hnat hplaces.le) (by omega) (by omega), rfl⟩
  · rename_i hexp hplaces
    exact ⟨_, _, positional_behind (hnat (by omega)), rfl⟩

end

theorem realChars_positional (x : Binary64)
    (hzero : (shortest x).digits = 0 → (shortest x).exponent = 0) :
    ∃ whole fraction, Positional (shortest x) whole fraction ∧
      realChars x = (if x.negative then ['-'] else []) ++ (whole ++ '.' :: fraction) := by
  obtain ⟨whole, fraction, hn, hchars⟩ := exists_positional hzero
  refine ⟨whole, fraction, hn, ?_⟩
  rw [realChars, hchars]
  cases x.negative <;> rfl

private theorem cut_append {stop : Char → Bool} {s rest : List Char} (hs : ∀ c ∈ s, stop c = false)
    (hrest : ∀ c ∈ rest.head?, stop c = true) : cut stop (s ++ rest) = (s, rest.tail?) := by
  have hs' : ∀ c ∈ s, (!stop c) = true := fun c hc => by rw [hs c hc]; rfl
  have hrest' : ∀ c ∈ rest.head?, (!stop c) = false := fun c hc => by rw [hrest c hc]; rfl
  rw [cut, takeWhile_append_stop hs' hrest', dropWhile_append_stop hs' hrest']

private theorem sign_digit {c : Char} (h : c.isDigit = true) (cs : List Char) :
    sign (c :: cs) = (false, c :: cs) := by
  rw [sign.eq_def]
  split
  · rename_i heq
    cases heq
    cases h
  · rename_i heq
    cases heq
    cases h
  · rfl

section
variable {n : Decimal.Numeral} {whole fraction : List Char} (h : Positional n whole fraction)
  (negative : Bool)
include h

private theorem sign_positional :
    sign ((if negative then ['-'] else []) ++ (whole ++ '.' :: fraction)) =
      (negative, whole ++ '.' :: fraction) := by
  cases negative with
  | true => rfl
  | false =>
    obtain ⟨c, cs, hc⟩ := List.exists_cons_of_ne_nil h.whole_ne
    have hdigit := h.whole_digits c (hc ▸ List.mem_cons_self)
    simp only [hc, Bool.false_eq_true, if_false, List.nil_append, List.cons_append, sign_digit hdigit]

private theorem float?_positional :
    float? ((if negative then ['-'] else []) ++ (whole ++ '.' :: fraction)) =
      (Binary64.ofDecimal negative (inBase 10 (whole ++ fraction)) (-fraction.length)).map
        fun x => .num (.real x) := by
  have hdigit {c : Char} (hc : c.isDigit = true) : (c == 'e' || c == 'E') = false ∧ (c == '.') = false := by
    constructor
    · by_contra hnot
      rw [Bool.not_eq_false, Bool.or_eq_true, beq_iff_eq, beq_iff_eq] at hnot
      obtain rfl | rfl := hnot <;> cases hc
    · by_contra hnot
      rw [Bool.not_eq_false, beq_iff_eq] at hnot
      subst hnot
      cases hc
  have hexponent : cut (fun c => c == 'e' || c == 'E') (whole ++ '.' :: fraction) =
      (whole ++ '.' :: fraction, none) := by
    have hnone : ∀ c ∈ whole ++ '.' :: fraction, (c == 'e' || c == 'E') = false := by
      refine List.forall_mem_append.mpr ⟨fun c hc => (hdigit (h.whole_digits c hc)).1, ?_⟩
      exact List.forall_mem_cons.mpr ⟨rfl, fun c hc => (hdigit (h.fraction_digits c hc)).1⟩
    have hcut := cut_append hnone fun c (hc : c ∈ ([] : List Char).head?) => nomatch hc
    rwa [List.append_nil] at hcut
  have hpoint : cut (· == '.') (whole ++ '.' :: fraction) = (whole, some fraction) :=
    cut_append (fun c hc => (hdigit (h.whole_digits c hc)).2) fun c hc => by cases hc; rfl
  have hwhole := wholeDigits?_digits h.whole_ne h.whole_digits h.plain
  have hfraction := digits?_digits h.fraction_ne h.fraction_digits
  rw [float?, sign_positional h]
  simp only [hexponent, hpoint, hwhole, part?, hfraction, Option.map_some, Option.getD_some,
    Option.getD_none, Option.isNone_none, Option.isNone_some, Bool.and_false, Bool.false_eq_true, if_false,
    Int.zero_sub]

private theorem mem_positional {c : Char}
    (hc : c ∈ (if negative then ['-'] else []) ++ (whole ++ '.' :: fraction)) :
    c = '-' ∨ c = '.' ∨ c.isDigit = true := by
  have hdigits := h.whole_digits c
  have hdigits' := h.fraction_digits c
  cases negative <;> simp only [Bool.false_eq_true, if_false, if_true, List.nil_append, List.mem_append,
    List.mem_cons, List.not_mem_nil, or_false] at hc <;> tauto

end

private theorem digits?_point {ok : Char → Bool} (hok : ok '.' = false) {s ds : List Char}
    (h : digits? ok s = some ds) : '.' ∉ s := by
  have hne {c : Char} (hc : ok c = true) : '.' ≠ c := by
    rintro rfl
    rw [hok] at hc
    cases hc
  fun_induction digits? ok s generalizing ds with
  | case1 | case3 | case5 | case7 => cases h
  | case2 c hc => exact fun hmem => hne hc (List.mem_singleton.mp hmem)
  | case4 c rest hc ih =>
    obtain ⟨es, hes, -⟩ := Option.map_eq_some_iff.mp h
    simp only [List.mem_cons, not_or]
    exact ⟨hne hc, by decide, ih hes⟩
  | case6 c rest _ _ hc ih =>
    obtain ⟨es, hes, -⟩ := Option.map_eq_some_iff.mp h
    simp only [List.mem_cons, not_or]
    exact ⟨hne hc, ih hes⟩

private theorem integer?_point {s : List Char} (h : '.' ∈ s) : integer? s = none := by
  refine Option.eq_none_iff_forall_ne_some.mpr fun v hv => ?_
  have hbase {ok : Char → Bool} (hok : ok '.' = false) {rest : List Char} {f : List Char → Option Value}
      (hread : (digits? ok rest).bind f = some v) : '.' ∉ rest := by
    obtain ⟨ds, hds, -⟩ := Option.bind_eq_some_iff.mp hread
    exact digits?_point hok hds
  rw [integer?.eq_def] at hv
  split at hv
  · exact hbase (by decide) hv (by simpa using h)
  · exact hbase (by decide) hv (by simpa using h)
  · exact hbase (by decide) hv (by simpa using h)
  · obtain ⟨ds, hds, -⟩ := Option.bind_eq_some_iff.mp hv
    have hrest : '.' ∈ (sign s).2 := by
      rw [sign.eq_def]
      split <;> simpa using h
    rw [wholeDigits?] at hds
    split at hds
    · cases hds
    · exact digits?_point (by decide) hds hrest

def isNumeral (c : Char) : Bool := c.isDigit || c == '-' || c == '.'

theorem isAtomChar_of_numeral {c : Char} (h : isNumeral c = true) : isAtomChar c = true := by
  simp only [isNumeral, isAtomChar, Char.isAlphanum, Bool.or_eq_true, beq_iff_eq] at h ⊢
  grind

private theorem lookup_words {s : List Char} (h : ∀ c ∈ s, isNumeral c = true) :
    words.lookup (String.ofList s) = none := by
  have hletter : ∀ w ∈ words, ∃ c ∈ w.1.toList, isNumeral c = false := by simp [words, isNumeral]
  refine List.lookup_eq_none_iff.mpr fun w hw => ?_
  rw [bne_iff_ne]
  intro heq
  obtain ⟨c, hc, hnot⟩ := hletter w hw
  rw [← heq, String.toList_ofList] at hc
  rw [h c hc] at hnot
  cases hnot

private theorem wholeDigits?_toDigits (n : Nat) :
    wholeDigits? (Nat.toDigits 10 n) = some (Nat.toDigits 10 n) :=
  wholeDigits?_digits Nat.toDigits_ne_nil (fun _ => isDigit_of_mem_toDigits) (toDigits_plain n)

private theorem integer?_toDigits (n : Nat) :
    integer? (Nat.toDigits 10 n) = inRange? n := by
  obtain ⟨c, cs, hcs⟩ := List.exists_cons_of_ne_nil (Nat.toDigits_ne_nil (b := 10) (n := n))
  have hdigit : ∀ d ∈ c :: cs, d.isDigit = true := fun d hd => isDigit_of_mem_toDigits (hcs ▸ hd)
  have hsign := sign_digit (hdigit c List.mem_cons_self) cs
  rw [hcs, integer?.eq_def]
  split
  · exact absurd (hdigit 'x' (by simp_all)) (by decide)
  · exact absurd (hdigit 'o' (by simp_all)) (by decide)
  · exact absurd (hdigit 'b' (by simp_all)) (by decide)
  · rw [hsign, ← hcs]
    simp only [wholeDigits?_toDigits, inBase_toDigits, Option.bind_some, Bool.false_eq_true, if_false]

private theorem integer?_neg_toDigits (n : Nat) :
    integer? ('-' :: Nat.toDigits 10 n) = inRange? (-(n : Int)) := by
  rw [integer?.eq_def]
  split
  · simp_all
  · simp_all
  · simp_all
  · simp only [sign, wholeDigits?_toDigits, inBase_toDigits, Option.bind_some, if_true]

private theorem integer?_intChars {n : Int} (hlow : Limits.minInt64 ≤ n) (hhigh : n ≤ Limits.maxNat64) :
    integer? (Number.intChars n) = some (.int n) := by
  rw [Number.intChars]
  split
  · have hn : -(n.natAbs : Int) = n := by omega
    rw [integer?_neg_toDigits, hn, inRange?, if_pos ⟨hlow, hhigh⟩]
  · have hn : (n.natAbs : Int) = n := by omega
    rw [integer?_toDigits, hn, inRange?, if_pos ⟨hlow, hhigh⟩]

theorem intChars_numeral (n : Int) : ∀ c ∈ Number.intChars n, isNumeral c = true := by
  have hdigits : ∀ c ∈ Nat.toDigits 10 n.natAbs, isNumeral c = true := by
    intro c hc
    rw [isNumeral, isDigit_of_mem_toDigits hc]
    rfl
  rw [Number.intChars]
  split
  · exact List.forall_mem_cons.mpr ⟨rfl, hdigits⟩
  · exact hdigits

theorem atom?_intChars {n : Int} (hlow : Limits.minInt64 ≤ n) (hhigh : n ≤ Limits.maxNat64) :
    atom? (Number.intChars n) = some (.int n) := by
  rw [atom?, lookup_words (intChars_numeral n), integer?_intChars hlow hhigh]
  rfl

section
variable {x : Binary64} (hx : x.Proper)
include hx

private theorem realChars_read : ∃ whole fraction, Positional (shortest x) whole fraction ∧
    realChars x = (if x.negative then ['-'] else []) ++ (whole ++ '.' :: fraction) ∧
      Binary64.ofDecimal x.negative (inBase 10 (whole ++ fraction)) (-fraction.length) = some x := by
  obtain ⟨whole, fraction, h, hchars⟩ := realChars_positional x (shortest_exponent hx)
  exact ⟨whole, fraction, h, hchars, ofDecimal_shortest hx h.value⟩

theorem realChars_numeral : ∀ c ∈ realChars x, isNumeral c = true := by
  obtain ⟨whole, fraction, h, hchars, -⟩ := realChars_read hx
  rw [hchars]
  intro c hc
  rw [isNumeral]
  obtain rfl | rfl | hdigit := mem_positional h x.negative hc
  · rfl
  · rfl
  · rw [hdigit]
    rfl

theorem realChars_ne_nil : realChars x ≠ [] := by
  obtain ⟨whole, fraction, -, hchars, -⟩ := realChars_read hx
  rw [hchars]
  exact List.append_ne_nil_of_right_ne_nil _ (List.append_ne_nil_of_right_ne_nil _ (List.cons_ne_nil _ _))

theorem atom?_realChars : atom? (realChars x) = some (.num (.real x)) := by
  have hwords := lookup_words (realChars_numeral hx)
  obtain ⟨whole, fraction, h, hchars, hread⟩ := realChars_read hx
  have hpoint : '.' ∈ realChars x := by
    rw [hchars]
    exact List.mem_append_right _ (List.mem_append_right _ List.mem_cons_self)
  rw [atom?, hwords, integer?_point hpoint, hchars, float?_positional h, hread]
  rfl

end

end LanguageClient.Toml
