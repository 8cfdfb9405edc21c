import LanguageClient.Proofs.CorrectRounding
/-!
The shortest numeral of a binary64 value reads back as the value: the search always ends on a numeral in
the rounding interval, since 17 digits are enough for every value, and every numeral in the interval is
rounded to the value.
-/
namespace LanguageClient.Decimal
open Binary64

def Numeral.value (n : Numeral) : ℚ := n.digits * 10 ^ n.exponent

def Binary64.magnitude (x : Binary64) : ℚ := x.mantissa * 2 ^ x.exponent

namespace RoundingInterval
variable (i : RoundingInterval)

private theorem pow_quotient {b : ℕ} (hb : 0 < b) (e : ℤ) :
    ∃ n d : ℕ, 0 < d ∧ (b : ℚ) ^ e = n / d ∧
      (if e < 0 then (1, Nat.pow b (-e).toNat) else (Nat.pow b e.toNat, 1)) = (n, d) := by
  split
  · refine ⟨1, Nat.pow b (-e).toNat, Nat.pow_pos hb, ?_, rfl⟩
    obtain ⟨n, rfl⟩ : ∃ n : ℕ, e = -n := ⟨e.natAbs, by omega⟩
    simp
  · refine ⟨Nat.pow b e.toNat, 1, Nat.one_pos, ?_, rfl⟩
    obtain ⟨n, rfl⟩ : ∃ n : ℕ, e = n := ⟨e.natAbs, by omega⟩
    simp

private theorem common_scale (e : ℤ) : ∃ c : ℚ, 0 < c ∧ ∀ point digits : ℕ,
    ((i.common point ⟨digits, e⟩).1 : ℚ) = point * 2 ^ i.exponent * c ∧
      ((i.common point ⟨digits, e⟩).2 : ℚ) = digits * 10 ^ e * c := by
  obtain ⟨n, d, hd, htwo, hn⟩ := pow_quotient (b := 2) (by decide) i.exponent
  obtain ⟨n', d', hd', hten, hn'⟩ := pow_quotient (b := 10) (by decide) e
  have hd : (0 : ℚ) < d := Nat.cast_pos.mpr hd
  have hd' : (0 : ℚ) < d' := Nat.cast_pos.mpr hd'
  refine ⟨d * d', mul_pos hd hd', fun point digits => ?_⟩
  simp only [common, hn, hn']
  push_cast at htwo hten ⊢
  rw [htwo, hten]
  constructor <;> field_simp

theorem contains_iff (n : Numeral) : i.contains n = true ↔ i.Holds n.value := by
  obtain ⟨c, hc, hcommon⟩ := i.common_scale n.exponent
  have hlow := hcommon i.low n.digits
  have hhigh := hcommon i.high n.digits
  have hle : (i.common i.low n).1 ≤ (i.common i.low n).2 ↔ i.low * 2 ^ i.exponent ≤ n.value := by
    rw [← Nat.cast_le (α := ℚ), hlow.1, hlow.2, mul_le_mul_iff_left₀ hc, Numeral.value]
  have hlt : (i.common i.low n).1 < (i.common i.low n).2 ↔ i.low * 2 ^ i.exponent < n.value := by
    rw [← Nat.cast_lt (α := ℚ), hlow.1, hlow.2, mul_lt_mul_iff_left₀ hc, Numeral.value]
  have hle' : (i.common i.high n).2 ≤ (i.common i.high n).1 ↔ n.value ≤ i.high * 2 ^ i.exponent := by
    rw [← Nat.cast_le (α := ℚ), hhigh.1, hhigh.2, mul_le_mul_iff_left₀ hc, Numeral.value]
  have hlt' : (i.common i.high n).2 < (i.common i.high n).1 ↔ n.value < i.high * 2 ^ i.exponent := by
    rw [← Nat.cast_lt (α := ℚ), hhigh.1, hhigh.2, mul_lt_mul_iff_left₀ hc, Numeral.value]
  rw [contains]
  dsimp only
  split
  · rename_i hclosed
    rw [Bool.and_eq_true, decide_eq_true_eq, decide_eq_true_eq, hle, hle']
    exact ⟨fun h => ⟨h.1, h.2, .inl hclosed⟩, fun h => ⟨h.low, h.high⟩⟩
  · rename_i hopen
    rw [Bool.and_eq_true, decide_eq_true_eq, decide_eq_true_eq, hlt, hlt']
    exact ⟨fun h => ⟨h.1.le, h.2.le, .inr h⟩, fun h => h.inside.resolve_left hopen⟩

theorem floor_le (e : ℤ) : (i.floor e).digits * 10 ^ e ≤ (i.mid : ℚ) * 2 ^ i.exponent ∧
    (i.mid : ℚ) * 2 ^ i.exponent < ((i.floor e).digits + 1) * 10 ^ e := by
  obtain ⟨c, hc, hcommon⟩ := i.common_scale e
  have hmid := hcommon i.mid 1
  have hten : (0 : ℚ) < 10 ^ e := zpow_pos (by norm_num) e
  rw [Nat.cast_one, one_mul] at hmid
  have hunit : 0 < (i.common i.mid ⟨1, e⟩).2 := by
    rw [← Nat.cast_pos (α := ℚ), hmid.2]
    exact mul_pos hten hc
  rw [floor]
  dsimp only
  generalize (i.common i.mid ⟨1, e⟩).1 = v at *
  generalize (i.common i.mid ⟨1, e⟩).2 = u at *
  have hlow : ((v / u * u : ℕ) : ℚ) ≤ v := Nat.cast_le.mpr (Nat.div_mul_le_self v u)
  have hhigh : (v : ℚ) < ((v / u + 1) * u : ℕ) := Nat.cast_lt.mpr (by
    rw [Nat.add_mul, Nat.one_mul]
    exact Nat.lt_div_mul_add hunit)
  push_cast at hlow hhigh
  rw [hmid.1, hmid.2, ← mul_assoc] at hlow hhigh
  exact ⟨le_of_mul_le_mul_right hlow hc, lt_of_mul_lt_mul_right hhigh hc.le⟩

private theorem onGrid_holds {e : ℤ} {n : Numeral} (h : i.onGrid e = some n) : i.Holds n.value := by
  rw [onGrid] at h
  dsimp only at h
  split at h
  · rename_i hbelow habove
    rw [← Option.some.inj h]
    split
    · exact i.contains_iff _ |>.mp hbelow
    · exact i.contains_iff _ |>.mp habove
  · rename_i hbelow _
    rw [← Option.some.inj h]
    exact i.contains_iff _ |>.mp hbelow
  · rename_i _ habove
    rw [← Option.some.inj h]
    exact i.contains_iff _ |>.mp habove
  · cases h

private theorem onGrid_isSome {e : ℤ} (h : i.Holds ((i.floor e).digits * 10 ^ e) ∨
    i.Holds (((i.floor e).digits + 1 : ℕ) * 10 ^ e)) : (i.onGrid e).isSome = true := by
  rw [onGrid]
  dsimp only
  obtain h | h := h
  · rw [(i.contains_iff (i.floor e)).mpr h]
    cases i.contains ⟨(i.floor e).digits + 1, e⟩ <;> rfl
  · rw [(i.contains_iff ⟨(i.floor e).digits + 1, e⟩).mpr h]
    cases i.contains (i.floor e) <;> rfl

/-- The search ends on a numeral in the interval if it comes to a grid that has one. -/
private theorem search_holds {fuel : ℕ} {e : ℤ} {k : ℕ} (hk : k < fuel)
    (h : (i.onGrid (e - k)).isSome = true) : i.Holds (i.search fuel e).value := by
  induction fuel generalizing e k with
  | zero => omega
  | succ fuel ih =>
    rw [search]
    cases hgrid : i.onGrid e with
    | some n => exact i.onGrid_holds hgrid
    | none =>
      cases k with
      | zero =>
        rw [Nat.cast_zero, Int.sub_zero, hgrid] at h
        cases h
      | succ k =>
        refine ih (Nat.lt_of_succ_lt_succ hk) (k := k) ?_
        have hexp : e - (k + 1 : ℕ) = e - 1 - k := by
          push_cast
          ring
        rwa [hexp] at h

end RoundingInterval

private theorem Numeral.value_trim (fuel : ℕ) (n : Numeral) : (n.trim fuel).value = n.value := by
  induction fuel generalizing n with
  | zero => rfl
  | succ fuel ih =>
    rw [trim]
    split
    · rename_i h
      have hdigits : (n.digits : ℚ) = (n.digits / 10 : ℕ) * 10 := by
        exact_mod_cast (Nat.div_mul_cancel (Nat.dvd_of_mod_eq_zero h.2)).symm
      rw [ih, value, value, hdigits, zpow_add₀ (by norm_num)]
      ring
    · rfl

/-- Powers of ten and of two, compared by way of `10 ^ 59 ≤ 2 ^ 196` and `2 ^ 93 ≤ 10 ^ 28`. -/
private theorem ten_pow_le {k b : ℤ} (h : 0 ≤ k ∧ 196 * k ≤ 59 * b ∨ k ≤ 0 ∧ 93 * k ≤ 28 * b) :
    (10 : ℚ) ^ k ≤ 2 ^ b := by
  have hten : (0 : ℚ) ≤ 10 ^ k := (zpow_pos (by norm_num) k).le
  have htwo : (0 : ℚ) ≤ 2 ^ b := (zpow_pos (by norm_num) b).le
  obtain ⟨hk, hb⟩ | ⟨hk, hb⟩ := h
  · refine (pow_le_pow_iff_left₀ hten htwo (n := 59) (by decide)).mp ?_
    calc ((10 : ℚ) ^ k) ^ 59 = (10 ^ 59) ^ k := by rw [← zpow_natCast, zpow_comm]; rfl
      _ ≤ (2 ^ 196) ^ k := zpow_le_zpow_left₀ hk (by norm_num) (by norm_num)
      _ = 2 ^ (196 * k) := by rw [zpow_mul]; rfl
      _ ≤ 2 ^ (59 * b) := zpow_le_zpow_right₀ one_le_two hb
      _ = (2 ^ b) ^ 59 := by rw [mul_comm, zpow_mul]; rfl
  · refine (pow_le_pow_iff_left₀ hten htwo (n := 28) (by decide)).mp ?_
    have hinv : ((10 : ℚ) ^ 28) ^ k ≤ (2 ^ 93) ^ k := by
      obtain ⟨j, rfl⟩ : ∃ j : ℕ, k = -j := ⟨k.natAbs, by omega⟩
      simp only [zpow_neg, zpow_natCast]
      exact inv_anti₀ (by positivity) (pow_le_pow_left₀ (by norm_num) (by norm_num) j)
    calc ((10 : ℚ) ^ k) ^ 28 = (10 ^ 28) ^ k := by rw [← zpow_natCast, zpow_comm]; rfl
      _ ≤ (2 ^ 93) ^ k := hinv
      _ = 2 ^ (93 * k) := by rw [zpow_mul]; rfl
      _ ≤ 2 ^ (28 * b) := zpow_le_zpow_right₀ one_le_two hb
      _ = (2 ^ b) ^ 28 := by rw [mul_comm, zpow_mul]; rfl

variable {x : Binary64}

private theorem mid_eq (x : Binary64) :
    ((RoundingInterval.of x).mid : ℚ) * 2 ^ (RoundingInterval.of x).exponent = x.magnitude := by
  have hquarter : (2 : ℚ) ^ (x.exponent - 2) = 2 ^ x.exponent / 4 := by
    rw [zpow_sub₀ two_ne_zero]
    norm_num
  rw [RoundingInterval.of]
  dsimp only
  rw [hquarter, Binary64.magnitude]
  push_cast
  ring

/-- The leading power is lowered until the value has a digit there. -/
private theorem settle_le (i : RoundingInterval) {fuel : ℕ} {p : ℤ}
    (h : (10 : ℚ) ^ (p - fuel) ≤ i.mid * 2 ^ i.exponent) :
    (10 : ℚ) ^ leadingPower.settle i fuel p ≤ i.mid * 2 ^ i.exponent := by
  induction fuel generalizing p with
  | zero =>
    rwa [Nat.cast_zero, Int.sub_zero] at h
  | succ fuel ih =>
    rw [leadingPower.settle]
    split
    · refine ih ?_
      have hexp : p - (fuel + 1 : ℕ) = p - 1 - fuel := by
        push_cast
        ring
      rwa [hexp] at h
    · rename_i hdigits
      have hone : (1 : ℚ) ≤ (i.floor p).digits := by exact_mod_cast Nat.pos_of_ne_zero hdigits
      have hten : (0 : ℚ) ≤ 10 ^ p := (zpow_pos (by norm_num) p).le
      calc (10 : ℚ) ^ p ≤ (i.floor p).digits * 10 ^ p := le_mul_of_one_le_left hten hone
        _ ≤ _ := (i.floor_le p).1

private theorem log2_mantissa_le (hx : x.Proper) (hm : 0 < x.mantissa) : Nat.log2 x.mantissa ≤ 52 := by
  have hbits : x.mantissa < 2 ^ 53 := hx.bits
  have := (Nat.log2_lt (Nat.ne_of_gt hm)).mpr hbits
  omega

private theorem two_pow_le_magnitude (hm : 0 < x.mantissa) :
    (2 : ℚ) ^ ((Nat.log2 x.mantissa : ℤ) + x.exponent) ≤ x.magnitude := by
  rw [zpow_add₀ two_ne_zero, Binary64.magnitude]
  gcongr
  exact (log2_bounds hm).1

private theorem ten_pow_leadingPower_le (hx : x.Proper) (hm : 0 < x.mantissa) :
    (10 : ℚ) ^ leadingPower x ≤ x.magnitude := by
  have hlog := log2_mantissa_le hx hm
  have hleast : -1074 ≤ x.exponent := hx.least
  have hgreatest : x.exponent ≤ 971 := hx.greatest
  rw [leadingPower, ← mid_eq]
  refine settle_le _ ?_
  rw [mid_eq]
  refine (ten_pow_le ?_).trans (two_pow_le_magnitude hm)
  omega

private theorem magnitude_div (x : Binary64) : x.magnitude / 2 ^ x.exponent = x.mantissa :=
  mul_div_cancel_right₀ _ (zpow_pos two_pos x.exponent).ne'

/-- On a grid with 17 digits a neighbour of a value is rounded to the value. -/
private theorem onGrid_fine (hx : x.Proper) (hm : 0 < x.mantissa) {e : ℤ}
    (hfine : 10 ^ 16 * (10 : ℚ) ^ e ≤ x.magnitude) :
    ((RoundingInterval.of x).onGrid e).isSome = true := by
  have hpow : (0 : ℚ) < 2 ^ x.exponent := zpow_pos two_pos _
  obtain ⟨hbelow, habove⟩ := (RoundingInterval.of x).floor_le e
  refine RoundingInterval.onGrid_isSome _ ?_
  rw [holds_iff hm, holds_iff hm]
  generalize (RoundingInterval.of x).floor e = n at *
  rw [mid_eq, ← div_le_div_iff_of_pos_right hpow, magnitude_div, mul_div_assoc] at hbelow
  rw [mid_eq, ← div_lt_div_iff_of_pos_right hpow, magnitude_div, mul_div_assoc] at habove
  rw [← div_le_div_iff_of_pos_right hpow, magnitude_div, mul_div_assoc] at hfine
  rw [mul_div_assoc, mul_div_assoc, Nat.cast_succ]
  generalize (10 : ℚ) ^ e / 2 ^ x.exponent = g at *
  have hgap : g < x.halfGapBelow + 1 / 2 := by
    rw [halfGapBelow]
    split
    · rename_i h
      rw [h.1] at hfine
      norm_num [leadingBit] at hfine
      linarith
    · have hbits : (x.mantissa : ℚ) < 9007199254740992 := by exact_mod_cast hx.bits
      linarith
  have hpos : 0 < x.halfGapBelow := by
    rw [halfGapBelow]
    split <;> norm_num
  by_cases hnear : (x.mantissa : ℚ) - x.halfGapBelow < n.digits * g
  · exact .inl ⟨hnear.le, by linarith, .inr ⟨hnear, by linarith⟩⟩
  · have hhigh : ((n.digits : ℚ) + 1) * g < x.mantissa + 1 / 2 := by linarith
    exact .inr ⟨by linarith, hhigh.le, .inr ⟨by linarith, hhigh⟩⟩

/-- The shortest numeral lies in the rounding interval of its value. -/
theorem shortest_holds (hx : x.Proper) (hm : 0 < x.mantissa) :
    (RoundingInterval.of x).Holds (shortest x).value := by
  have hzero : x.isZero = false := beq_false_of_ne (Nat.ne_of_gt hm)
  have hfine : 10 ^ 16 * (10 : ℚ) ^ (leadingPower x - (16 : ℕ)) ≤ x.magnitude := by
    refine le_of_eq_of_le ?_ (ten_pow_leadingPower_le hx hm)
    rw [zpow_sub₀ (by norm_num), zpow_natCast]
    field_simp
  rw [shortest, if_neg (by rw [hzero]; exact Bool.false_ne_true), Numeral.value_trim]
  exact RoundingInterval.search_holds _ (by decide) (onGrid_fine hx hm hfine)

private theorem value_bounds (hx : x.Proper) (hm : 0 < x.mantissa) {r : ℚ}
    (hr : (RoundingInterval.of x).Holds r) : (10 : ℚ) ^ (-330 : ℤ) ≤ r ∧ r < 10 ^ (320 : ℤ) := by
  have hpow : (0 : ℚ) < 2 ^ x.exponent := zpow_pos two_pos _
  have hclose := (holds_iff hm).mp hr
  have hgap := x.halfGapBelow_le
  have hone : (1 : ℚ) ≤ x.mantissa := by exact_mod_cast hm
  have hbits : (x.mantissa : ℚ) + 1 ≤ 9007199254740992 := by exact_mod_cast hx.bits
  have hleast : -1074 ≤ x.exponent := hx.least
  have hgreatest : x.exponent ≤ 971 := hx.greatest
  have hlow := (le_div_iff₀ hpow).mp (show 1 / 2 ≤ r / 2 ^ x.exponent by linarith [hclose.low])
  have hhigh := (div_lt_iff₀ hpow).mp
    (show r / 2 ^ x.exponent < 2 ^ (53 : ℤ) by norm_num; linarith [hclose.high])
  constructor
  · calc (10 : ℚ) ^ (-330 : ℤ) ≤ 2 ^ (-1075 : ℤ) := ten_pow_le (by decide)
      _ ≤ 2 ^ (-1 + x.exponent) := zpow_le_zpow_right₀ one_le_two (by omega)
      _ = 1 / 2 * 2 ^ x.exponent := by rw [zpow_add₀ two_ne_zero]; norm_num
      _ ≤ r := hlow
  · calc r < 2 ^ (53 : ℤ) * 2 ^ x.exponent := hhigh
      _ = 2 ^ (53 + x.exponent) := (zpow_add₀ two_ne_zero _ _).symm
      _ ≤ 2 ^ (1024 : ℤ) := zpow_le_zpow_right₀ one_le_two (by omega)
      _ = (2 ^ (32 : ℤ)) ^ (32 : ℤ) := zpow_mul 2 32 32
      _ < (10 ^ (10 : ℤ)) ^ (32 : ℤ) := zpow_lt_zpow_left₀ (by decide) (by norm_num) (by norm_num)
      _ = 10 ^ (320 : ℤ) := (zpow_mul 10 10 32).symm

private theorem digits_ne_zero {n : Numeral} (h : (10 : ℚ) ^ (-330 : ℤ) ≤ n.value) : n.digits ≠ 0 := by
  intro hzero
  rw [Numeral.value, hzero, Nat.cast_zero, zero_mul] at h
  exact absurd h (not_le.mpr (zpow_pos (by norm_num) _))

private theorem digits_bounds {digits : ℕ} (hd : digits ≠ 0) :
    (10 : ℚ) ^ ((Nat.log2 digits : ℤ) / 4) ≤ digits ∧
      (digits : ℚ) ≤ 10 ^ ((Nat.log2 digits : ℤ) + 1) := by
  constructor
  · have hfour : Nat.log2 digits / 4 * 4 ≤ Nat.log2 digits := Nat.div_mul_le_self _ 4
    have hnat : 10 ^ (Nat.log2 digits / 4) ≤ digits := calc
      10 ^ (Nat.log2 digits / 4) ≤ (2 ^ 4) ^ (Nat.log2 digits / 4) := Nat.pow_le_pow_left (by decide) _
      _ = 2 ^ (4 * (Nat.log2 digits / 4)) := (Nat.pow_mul 2 4 _).symm
      _ ≤ 2 ^ Nat.log2 digits := Nat.pow_le_pow_right (by decide) (by omega)
      _ ≤ digits := Nat.log2_self_le hd
    have hdiv : (Nat.log2 digits : ℤ) / 4 = (Nat.log2 digits / 4 : ℕ) := rfl
    rw [hdiv, zpow_natCast]
    exact_mod_cast hnat
  · have hnat : digits ≤ 10 ^ (Nat.log2 digits + 1) :=
      Nat.lt_log2_self.le.trans (Nat.pow_le_pow_left (by decide) _)
    rw [← Nat.cast_succ, zpow_natCast]
    exact_mod_cast hnat

private theorem ofDecimal_of_bounds {n : Numeral} (hlow : (10 : ℚ) ^ (-330 : ℤ) ≤ n.value)
    (hhigh : n.value < 10 ^ (320 : ℤ)) (negative : Bool) :
    ∃ num den : ℕ, 0 < den ∧ n.value = num / den ∧
      ofDecimal negative n.digits n.exponent = ofRatio negative num den := by
  have hten : (1 : ℚ) < 10 := by norm_num
  have hpow : (0 : ℚ) < 10 ^ n.exponent := zpow_pos (by norm_num) _
  have hd := digits_ne_zero hlow
  obtain ⟨hfew, hmany⟩ := digits_bounds hd
  have hsize : (Nat.log2 n.digits : ℤ) / 4 + n.exponent < 320 := by
    refine (zpow_lt_zpow_iff_right₀ hten).mp (lt_of_le_of_lt ?_ hhigh)
    rw [zpow_add₀ (by norm_num), Numeral.value]
    gcongr
  have hnotsmall : -330 ≤ (Nat.log2 n.digits : ℤ) + 1 + n.exponent := by
    refine (zpow_le_zpow_iff_right₀ hten).mp (hlow.trans ?_)
    rw [zpow_add₀ (by norm_num), Numeral.value]
    gcongr
  rw [ofDecimal, if_neg hd, if_neg (by omega), if_neg (by omega)]
  split
  · refine ⟨n.digits, Nat.pow 10 (-n.exponent).toNat, Nat.pow_pos (by decide), ?_, rfl⟩
    obtain ⟨e, he⟩ : ∃ e : ℕ, n.exponent = -e := ⟨n.exponent.natAbs, by omega⟩
    rw [Numeral.value, he]
    simp [div_eq_mul_inv]
  · refine ⟨n.digits * Nat.pow 10 n.exponent.toNat, 1, Nat.one_pos, ?_, rfl⟩
    obtain ⟨e, he⟩ : ∃ e : ℕ, n.exponent = e := ⟨n.exponent.natAbs, by omega⟩
    rw [Numeral.value, he]
    simp

/-- A numeral that lies in the rounding interval of a value is read as the value. -/
theorem ofDecimal_eq (hx : x.Proper) (hm : 0 < x.mantissa) {n : Numeral}
    (hn : (RoundingInterval.of x).Holds n.value) (negative : Bool) :
    ofDecimal negative n.digits n.exponent = some ⟨negative, x.mantissa, x.exponent⟩ := by
  obtain ⟨hlow, hhigh⟩ := value_bounds hx hm hn
  obtain ⟨num, den, hden, hvalue, hread⟩ := ofDecimal_of_bounds hlow hhigh negative
  rw [hread]
  exact ofRatio_eq hx hm hden (hvalue ▸ hn) negative

private theorem shortest_zero (hm : x.mantissa = 0) : shortest x = ⟨0, 0⟩ := by
  have hzero : x.isZero = true := beq_iff_eq.mpr hm
  rw [shortest, if_pos hzero]

/-- Only zero has no digits, and then there is no exponent either. -/
theorem shortest_exponent (hx : x.Proper) (h : (shortest x).digits = 0) : (shortest x).exponent = 0 := by
  obtain hm | hm := Nat.eq_zero_or_pos x.mantissa
  · rw [shortest_zero hm]
  · exact absurd h (digits_ne_zero (value_bounds hx hm (shortest_holds hx hm)).1)

/-- The shortest numeral of a value reads back as the value, however it is written. -/
theorem ofDecimal_shortest (hx : x.Proper) {n : Numeral} (hn : n.value = (shortest x).value) :
    ofDecimal x.negative n.digits n.exponent = some x := by
  obtain hm | hm := Nat.eq_zero_or_pos x.mantissa
  · rw [shortest_zero hm, Numeral.value, Numeral.value, Nat.cast_zero, zero_mul, mul_eq_zero,
      Nat.cast_eq_zero] at hn
    have hdigits : n.digits = 0 := hn.resolve_right (zpow_pos (by norm_num) _).ne'
    have hleast : x.exponent = minExponent := hx.normal.resolve_left (by rw [hm]; decide)
    rw [ofDecimal, if_pos hdigits, zero, ← hleast, ← hm]
  · exact ofDecimal_eq hx hm (hn ▸ shortest_holds hx hm) x.negative

theorem ofDecimal_proper {negative : Bool} {digits : ℕ} {exponent : ℤ}
    (h : ofDecimal negative digits exponent = some x) : x.Proper := by
  rw [ofDecimal] at h
  split at h
  · cases h
    exact zero_proper negative
  · dsimp only at h
    split at h
    · cases h
    split at h
    · cases h
      exact zero_proper negative
    split at h
    · exact ofRatio_proper (Nat.pow_pos (by decide)) h
    · exact ofRatio_proper Nat.one_pos h

end LanguageClient.Decimal
