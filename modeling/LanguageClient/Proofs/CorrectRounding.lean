import LanguageClient.Decimal.Shortest
import Mathlib.Algebra.Order.Field.Power
import Mathlib.Tactic.FieldSimp
import Mathlib.Tactic.Linarith
import Mathlib.Tactic.Positivity
import Mathlib.Tactic.Ring
/-!
Rounding to binary64 values is correct: of a quotient that lies in the rounding interval of a value, that
value is what rounding gives. And whatever rounding gives is a binary64 value in its usual form.
-/
namespace LanguageClient.Decimal
open Binary64

namespace Binary64

/-- A value in its usual form: the mantissa has 53 bits, unless the exponent is the least one. -/
structure Proper (x : Binary64) : Prop where
  bits : x.mantissa < 2 * leadingBit
  least : minExponent ≤ x.exponent
  greatest : x.exponent ≤ maxExponent
  normal : leadingBit ≤ x.mantissa ∨ x.exponent = minExponent

instance (x : Binary64) : Decidable x.Proper :=
  decidable_of_iff
    (x.mantissa < 2 * leadingBit ∧ minExponent ≤ x.exponent ∧ x.exponent ≤ maxExponent ∧
      (leadingBit ≤ x.mantissa ∨ x.exponent = minExponent))
    ⟨fun h => ⟨h.1, h.2.1, h.2.2.1, h.2.2.2⟩, fun h => ⟨h.bits, h.least, h.greatest, h.normal⟩⟩

theorem zero_proper (negative : Bool) : (zero negative).Proper := by
  constructor <;> decide +revert

end Binary64

/-- A number lies among those that round to a value. -/
structure RoundingInterval.Holds (i : RoundingInterval) (r : ℚ) : Prop where
  low : i.low * 2 ^ i.exponent ≤ r
  high : r ≤ i.high * 2 ^ i.exponent
  inside : i.closed = true ∨ i.low * 2 ^ i.exponent < r ∧ r < i.high * 2 ^ i.exponent

theorem cast_leadingBit : (leadingBit : ℚ) = 2 ^ (52 : ℤ) := by norm_num [leadingBit]

theorem scale_pos {den : ℕ} (hd : 0 < den) (num : ℕ) (e : ℤ) : 0 < (scale num den e).2 := by
  rw [scale]
  split
  · exact hd
  · exact Nat.mul_pos hd (Nat.pow_pos (by decide))

theorem scale_div (num den : ℕ) (e : ℤ) :
    ((scale num den e).1 : ℚ) / (scale num den e).2 = num / den / 2 ^ e := by
  rw [scale]
  split
  · obtain ⟨n, rfl⟩ : ∃ n : ℕ, e = -n := ⟨e.natAbs, by omega⟩
    simp only [neg_neg, Int.toNat_natCast, Nat.pow_eq, Nat.cast_mul, Nat.cast_pow, Nat.cast_ofNat,
      zpow_neg, zpow_natCast, div_inv_eq_mul]
    ring
  · obtain ⟨n, rfl⟩ : ∃ n : ℕ, e = n := ⟨e.natAbs, by omega⟩
    simp only [Int.toNat_natCast, Nat.pow_eq, Nat.cast_mul, Nat.cast_pow, Nat.cast_ofNat, zpow_natCast,
      div_div]

theorem log2_bounds {n : ℕ} (hn : 0 < n) :
    (2 : ℚ) ^ (Nat.log2 n : ℤ) ≤ n ∧ (n : ℚ) < 2 ^ ((Nat.log2 n : ℤ) + 1) := by
  constructor
  · rw [zpow_natCast]
    exact_mod_cast Nat.log2_self_le (Nat.ne_of_gt hn)
  · rw [← Nat.cast_succ, zpow_natCast]
    exact_mod_cast Nat.lt_log2_self

theorem exponentFor_eq {num den : ℕ} (hn : 0 < num) (hd : 0 < den) :
    ∃ e : ℤ, (2 : ℚ) ^ (52 + e) ≤ num / den ∧ (num / den : ℚ) < 2 ^ (53 + e) ∧
      exponentFor num den = max minExponent e := by
  have hden : (0 : ℚ) < den := Nat.cast_pos.mpr hd
  have htwo : (2 : ℚ) ≠ 0 := two_ne_zero
  obtain ⟨hnum, hnum'⟩ := log2_bounds hn
  obtain ⟨hdenlow, hdenhigh⟩ := log2_bounds hd
  rw [exponentFor]
  generalize hguess : (Nat.log2 num : ℤ) - Nat.log2 den - 52 = guess
  have hlow : (2 : ℚ) ^ (51 + guess) ≤ num / den := by
    rw [le_div_iff₀ hden]
    calc (2 : ℚ) ^ (51 + guess) * den ≤ 2 ^ (51 + guess) * 2 ^ ((Nat.log2 den : ℤ) + 1) := by gcongr
      _ = 2 ^ (Nat.log2 num : ℤ) := by
        rw [← zpow_add₀ htwo]
        congr 1
        omega
      _ ≤ num := hnum
  have hhigh : (num / den : ℚ) < 2 ^ (53 + guess) := by
    rw [div_lt_iff₀ hden]
    calc (num : ℚ) < 2 ^ ((Nat.log2 num : ℤ) + 1) := hnum'
      _ = 2 ^ (53 + guess) * 2 ^ (Nat.log2 den : ℤ) := by
        rw [← zpow_add₀ htwo]
        congr 1
        omega
      _ ≤ 2 ^ (53 + guess) * den := by gcongr
  have hscaled := scale_div num den guess
  have hpos : (0 : ℚ) < (scale num den guess).2 := Nat.cast_pos.mpr (scale_pos hd num guess)
  have hmiddle : (scale num den guess).1 / (scale num den guess).2 < leadingBit ↔
      (num / den : ℚ) < 2 ^ (52 + guess) := by
    rw [Nat.div_lt_iff_lt_mul (scale_pos hd num guess), ← Nat.cast_lt (α := ℚ), Nat.cast_mul,
      ← div_lt_iff₀ hpos, hscaled, div_lt_iff₀ (zpow_pos two_pos guess), cast_leadingBit,
      ← zpow_add₀ htwo]
  simp only
  split
  · rename_i h
    refine ⟨guess - 1, ?_, ?_, rfl⟩
    · convert hlow using 2
      ring
    · convert hmiddle.mp h using 2
      ring
  · rename_i h
    exact ⟨guess, not_lt.mp fun hlt => h (hmiddle.mpr hlt), hhigh, rfl⟩

theorem exponent_le {r : ℚ} {e f : ℤ} (h : (2 : ℚ) ^ (52 + e) ≤ r) (h' : r < 2 ^ (53 + f)) :
    e ≤ f := by
  have hlt := (zpow_lt_zpow_iff_right₀ (one_lt_two (α := ℚ))).mp (h.trans_lt h')
  omega

theorem roundHalfEven_cases (num den : ℕ) :
    roundHalfEven num den = num / den ∨ roundHalfEven num den = num / den + 1 := by
  rw [roundHalfEven]
  split
  · exact .inr rfl
  · split <;> omega

/-- The nearest whole number of a quotient, which is even if there are two. -/
theorem roundHalfEven_eq {num den m : ℕ} (hd : 0 < den) (hlow : 2 * m * den ≤ 2 * num + den)
    (hhigh : 2 * num ≤ 2 * m * den + den)
    (hties : m % 2 = 0 ∨ 2 * m * den < 2 * num + den ∧ 2 * num < 2 * m * den + den) :
    roundHalfEven num den = m := by
  have hdiv := Nat.div_add_mod num den
  have hmod := Nat.mod_lt num hd
  rw [roundHalfEven]
  generalize num / den = q at *
  generalize num % den = r at *
  have hle : q ≤ m := by
    by_contra hlt
    have : (m + 1) * den ≤ q * den := Nat.mul_le_mul_right den (by omega)
    nlinarith
  have hge : m ≤ q + 1 := by
    by_contra hlt
    have : (q + 2) * den ≤ m * den := Nat.mul_le_mul_right den (by omega)
    nlinarith
  obtain rfl | rfl : m = q ∨ m = q + 1 := by omega
  · have hsame : m * den = den * m := Nat.mul_comm m den
    split
    · nlinarith
    · split
      · rename_i hhalf
        have heven : m % 2 = 0 := hties.resolve_right fun h => by nlinarith
        omega
      · rfl
  · split
    · rfl
    · split
      · rename_i hhalf
        have heven : (q + 1) % 2 = 0 := hties.resolve_right fun h => by nlinarith
        omega
      · rename_i hnot hhalf
        have : den ≤ 2 * r := by nlinarith
        omega

private theorem round_scaled {num den m : ℕ} {e : ℤ} (hd : 0 < den)
    (hlow : (m : ℚ) - 1 / 2 ≤ num / den / 2 ^ e) (hhigh : (num / den / 2 ^ e : ℚ) ≤ m + 1 / 2)
    (hties : m % 2 = 0 ∨ (m : ℚ) - 1 / 2 < num / den / 2 ^ e ∧ (num / den / 2 ^ e : ℚ) < m + 1 / 2) :
    roundHalfEven (scale num den e).1 (scale num den e).2 = m := by
  have hpos : (0 : ℚ) < (scale num den e).2 := Nat.cast_pos.mpr (scale_pos hd num e)
  rw [← scale_div, le_div_iff₀ hpos] at hlow
  rw [← scale_div, div_le_iff₀ hpos] at hhigh
  rw [← scale_div, lt_div_iff₀ hpos, div_lt_iff₀ hpos] at hties
  refine roundHalfEven_eq (scale_pos hd num e) ?_ ?_ (hties.imp_right fun h => ⟨?_, ?_⟩) <;>
    (first | rw [← Nat.cast_le (α := ℚ)] | rw [← Nat.cast_lt (α := ℚ)]) <;> push_cast <;> linarith

private theorem ofRatio_of_round {negative : Bool} {num den m : ℕ} {e : ℤ} (hn : 0 < num)
    (he : exponentFor num den = e)
    (hm : roundHalfEven (scale num den e).1 (scale num den e).2 = m) :
    ofRatio negative num den =
      if m = 2 * leadingBit then
        if e + 1 > maxExponent then none else some ⟨negative, leadingBit, e + 1⟩
      else if e > maxExponent then none else some ⟨negative, m, e⟩ := by
  rw [ofRatio, if_neg (Nat.ne_of_gt hn)]
  simp only [he, hm]
  by_cases hcarry : m = 2 * leadingBit
  · simp only [hcarry, if_true]
  · simp only [hcarry, if_false]

/-- The rounded mantissa has at most 53 bits, or is the next power of two. -/
private theorem round_le {num den : ℕ} (hn : 0 < num) (hd : 0 < den) {f : ℤ}
    (hf : exponentFor num den = f) :
    roundHalfEven (scale num den f).1 (scale num den f).2 ≤ 2 * leadingBit := by
  obtain ⟨e, -, hhigh, he⟩ := exponentFor_eq hn hd
  have hpos := scale_pos hd num f
  have hcast : (0 : ℚ) < (scale num den f).2 := Nat.cast_pos.mpr hpos
  have hle : (2 : ℚ) ^ e ≤ 2 ^ f := zpow_le_zpow_right₀ one_le_two (by omega)
  have hlt : (scale num den f).1 / (scale num den f).2 < 2 * leadingBit := by
    rw [Nat.div_lt_iff_lt_mul hpos, ← Nat.cast_lt (α := ℚ), Nat.cast_mul, ← div_lt_iff₀ hcast, scale_div,
      div_lt_iff₀ (zpow_pos two_pos _), Nat.cast_mul, cast_leadingBit]
    calc (num / den : ℚ) < 2 ^ (53 + e) := hhigh
      _ = 2 ^ (53 : ℤ) * 2 ^ e := zpow_add₀ two_ne_zero _ _
      _ ≤ 2 ^ (53 : ℤ) * 2 ^ f := by gcongr
      _ = _ := by norm_num
  have hcases := roundHalfEven_cases (scale num den f).1 (scale num den f).2
  omega

private theorem le_round {num den : ℕ} (hn : 0 < num) (hd : 0 < den) {f : ℤ}
    (hf : exponentFor num den = f) :
    leadingBit ≤ roundHalfEven (scale num den f).1 (scale num den f).2 ∨ f = minExponent := by
  obtain ⟨e, hlow, -, he⟩ := exponentFor_eq hn hd
  by_cases hmin : f = minExponent
  · exact .inr hmin
  · obtain rfl : f = e := by omega
    have hpos := scale_pos hd num f
    have hcast : (0 : ℚ) < (scale num den f).2 := Nat.cast_pos.mpr hpos
    have hge : leadingBit ≤ (scale num den f).1 / (scale num den f).2 := by
      rwa [Nat.le_div_iff_mul_le hpos, ← Nat.cast_le (α := ℚ), Nat.cast_mul, ← le_div_iff₀ hcast, scale_div,
        le_div_iff₀ (zpow_pos two_pos _), cast_leadingBit, ← zpow_add₀ two_ne_zero]
    have hcases := roundHalfEven_cases (scale num den f).1 (scale num den f).2
    omega

/-- What rounding gives has the usual form. -/
theorem ofRatio_proper {negative : Bool} {num den : ℕ} (hd : 0 < den) {x : Binary64}
    (h : ofRatio negative num den = some x) : x.Proper := by
  obtain rfl | hn := Nat.eq_zero_or_pos num
  · cases h
    exact zero_proper negative
  generalize hf : exponentFor num den = f
  have hleast : minExponent ≤ f := by
    obtain ⟨e, -, -, he⟩ := exponentFor_eq hn hd
    omega
  have hbits := round_le hn hd hf
  have hnormal := le_round hn hd hf
  have hcarried : leadingBit < 2 * leadingBit := by decide
  rw [ofRatio_of_round hn hf rfl] at h
  split at h
  · split at h
    · cases h
    · rename_i hfits
      cases h
      exact ⟨hcarried, Int.le_add_one hleast, not_lt.mp hfits, .inl (Nat.le_refl _)⟩
  · rename_i hcarry
    split at h
    · cases h
    · rename_i hfits
      cases h
      exact ⟨Nat.lt_of_le_of_ne hbits hcarry, hleast, not_lt.mp hfits, hnormal⟩

/-- Half the gap below a value, on the scale of the value; below a power of two the gap is half of that
above it. -/
def Binary64.halfGapBelow (x : Binary64) : ℚ :=
  if x.mantissa = leadingBit ∧ x.exponent > minExponent then 1 / 4 else 1 / 2

theorem Binary64.halfGapBelow_le (x : Binary64) : x.halfGapBelow ≤ 1 / 2 := by
  rw [halfGapBelow]
  split <;> norm_num

/-- A number on the scale of a value is so near to the mantissa that it rounds to it. -/
structure Close (x : Binary64) (q : ℚ) : Prop where
  low : x.mantissa - x.halfGapBelow ≤ q
  high : q ≤ x.mantissa + 1 / 2
  ties : x.mantissa % 2 = 0 ∨ x.mantissa - x.halfGapBelow < q ∧ q < x.mantissa + 1 / 2

private theorem low_eq {x : Binary64} (hm : 0 < x.mantissa) :
    ((RoundingInterval.of x).low : ℚ) = (x.mantissa - x.halfGapBelow) * 4 := by
  rw [RoundingInterval.of, halfGapBelow]
  dsimp only
  rw [Nat.cast_sub (by split <;> omega)]
  split <;> (push_cast; ring)

/-- The rounding interval of a value, on the scale of the value. -/
theorem holds_iff {x : Binary64} (hm : 0 < x.mantissa) {r : ℚ} :
    (RoundingInterval.of x).Holds r ↔ Close x (r / 2 ^ x.exponent) := by
  have hpow : (0 : ℚ) < 2 ^ x.exponent := zpow_pos two_pos _
  have hscale : (2 : ℚ) ^ (RoundingInterval.of x).exponent = 2 ^ x.exponent / 4 := by
    change (2 : ℚ) ^ (x.exponent - 2) = _
    rw [zpow_sub₀ two_ne_zero]
    norm_num
  have hlow : ((RoundingInterval.of x).low : ℚ) * 2 ^ (RoundingInterval.of x).exponent =
      (x.mantissa - x.halfGapBelow) * 2 ^ x.exponent := by
    rw [hscale, low_eq hm]
    ring
  have hhigh : ((RoundingInterval.of x).high : ℚ) * 2 ^ (RoundingInterval.of x).exponent =
      (x.mantissa + 1 / 2) * 2 ^ x.exponent := by
    rw [hscale, RoundingInterval.of]
    push_cast
    ring
  have hclosed : (RoundingInterval.of x).closed = true ↔ x.mantissa % 2 = 0 := decide_eq_true_iff
  constructor
  · rintro ⟨low, high, inside⟩
    rw [hlow, hhigh, hclosed] at inside
    rw [hlow, ← le_div_iff₀ hpow] at low
    rw [hhigh, ← div_le_iff₀ hpow] at high
    rw [← lt_div_iff₀ hpow, ← div_lt_iff₀ hpow] at inside
    exact ⟨low, high, inside⟩
  · rintro ⟨low, high, ties⟩
    rw [le_div_iff₀ hpow] at low
    rw [div_le_iff₀ hpow] at high
    rw [lt_div_iff₀ hpow, div_lt_iff₀ hpow] at ties
    refine ⟨?_, ?_, ?_⟩
    · rwa [hlow]
    · rwa [hhigh]
    · rwa [hlow, hhigh, hclosed]

/-- A quotient that is just below a power of two is carried to it. -/
private theorem ofRatio_carried {num den : ℕ} (hn : 0 < num) (hd : 0 < den) {e : ℤ}
    (hlow : (leadingBit : ℚ) - 1 / 4 ≤ num / den / 2 ^ e) (hhigh : (num / den / 2 ^ e : ℚ) < leadingBit)
    (hleast : minExponent < e) (hgreatest : e ≤ maxExponent) (negative : Bool) :
    ofRatio negative num den = some ⟨negative, leadingBit, e⟩ := by
  have hpow : (0 : ℚ) < 2 ^ e := zpow_pos two_pos _
  obtain ⟨f, hflow, hfhigh, hf⟩ := exponentFor_eq hn hd
  have hdown : (num / den : ℚ) < 2 ^ (53 + (e - 1)) := by
    have hexp : 53 + (e - 1) = 52 + e := by ring
    rwa [hexp, zpow_add₀ two_ne_zero, ← div_lt_iff₀ hpow, ← cast_leadingBit]
  have hup : (2 : ℚ) ^ (52 + (e - 1)) ≤ num / den := by
    have hscale : (2 : ℚ) ^ (52 + (e - 1)) = leadingBit / 2 * 2 ^ e := by
      rw [cast_leadingBit, zpow_add₀ two_ne_zero, zpow_sub₀ two_ne_zero]
      ring
    have hone : (1 : ℚ) ≤ leadingBit := by norm_num [leadingBit]
    rw [hscale, ← le_div_iff₀ hpow]
    linarith
  have hprevious : f = e - 1 := le_antisymm (exponent_le hflow hdown) (exponent_le hup hfhigh)
  have hdouble : (num / den / 2 ^ (e - 1) : ℚ) = 2 * (num / den / 2 ^ e) := by
    rw [zpow_sub₀ two_ne_zero]
    field_simp
  have hround : roundHalfEven (scale num den (e - 1)).1 (scale num den (e - 1)).2 = 2 * leadingBit := by
    refine round_scaled hd ?_ ?_ (.inl (Nat.mul_mod_right 2 _)) <;>
      (rw [hdouble]; push_cast; linarith)
  have hnext : e - 1 + 1 = e := by ring
  rw [ofRatio_of_round hn (hf.trans (by omega)) hround, if_pos rfl, hnext, if_neg (not_lt.mpr hgreatest)]

/-- A quotient in the rounding interval of a value is rounded to the value. -/
theorem ofRatio_eq {x : Binary64} (hx : x.Proper) (hm : 0 < x.mantissa) {num den : ℕ} (hd : 0 < den)
    (hr : (RoundingInterval.of x).Holds (num / den)) (negative : Bool) :
    ofRatio negative num den = some ⟨negative, x.mantissa, x.exponent⟩ := by
  have hpow : (0 : ℚ) < 2 ^ x.exponent := zpow_pos two_pos _
  have hone : (1 : ℚ) ≤ x.mantissa := by exact_mod_cast hm
  have hbits : (x.mantissa : ℚ) + 1 ≤ 2 ^ (53 : ℤ) := by
    have hcast : ((x.mantissa + 1 : ℕ) : ℚ) ≤ (2 * leadingBit : ℕ) := by exact_mod_cast hx.bits
    rw [Nat.cast_mul, cast_leadingBit] at hcast
    push_cast at hcast
    norm_num at hcast ⊢
    exact hcast
  have hclose := (holds_iff hm).mp hr
  have hgap := x.halfGapBelow_le
  have hhalf : (x.mantissa : ℚ) - 1 / 2 ≤ num / den / 2 ^ x.exponent := by linarith [hclose.low]
  have hn : 0 < num := by
    refine Nat.pos_of_ne_zero fun hzero => ?_
    rw [hzero, Nat.cast_zero, zero_div, zero_div] at hhalf
    linarith
  obtain ⟨e, hlow, hhigh, he⟩ := exponentFor_eq hn hd
  have hle : e ≤ x.exponent := by
    refine exponent_le hlow ?_
    rw [zpow_add₀ two_ne_zero, ← div_lt_iff₀ hpow]
    linarith [hclose.high]
  have hleast := hx.least
  by_cases hsame : max minExponent e = x.exponent
  · -- the mantissa is the nearest whole number
    have hround := round_scaled hd hhalf hclose.high
      (hclose.ties.imp_right fun h => ⟨by linarith [h.1], h.2⟩)
    have hfits : ¬ x.exponent > maxExponent := not_lt.mpr hx.greatest
    rw [ofRatio_of_round hn (he.trans hsame) hround, if_neg hx.bits.ne, if_neg hfits]
  · -- the value is a power of two, and the quotient is below it
    have hbelow : (num / den / 2 ^ x.exponent : ℚ) < leadingBit := by
      rw [div_lt_iff₀ hpow, cast_leadingBit, ← zpow_add₀ two_ne_zero]
      refine lt_of_not_ge fun hge => hsame ?_
      have := exponent_le hge hhigh
      omega
    have hleading : x.mantissa = leadingBit := by
      have hge : leadingBit ≤ x.mantissa := hx.normal.resolve_right fun hmin => hsame (by omega)
      have hlt : (x.mantissa : ℚ) < (leadingBit + 1 : ℕ) := by
        push_cast
        linarith
      exact le_antisymm (Nat.le_of_lt_succ (Nat.cast_lt.mp hlt)) hge
    have hquarter := hclose.low
    rw [halfGapBelow, if_pos ⟨hleading, by omega⟩, hleading] at hquarter
    rw [hleading]
    exact ofRatio_carried hn hd hquarter hbelow (by omega) hx.greatest negative

end LanguageClient.Decimal
