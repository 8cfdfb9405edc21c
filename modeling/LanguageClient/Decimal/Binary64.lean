/-!
Finite binary64 values as a sign and an exact dyadic magnitude, with correctly rounded
conversion from quotients, products and decimal numerals. Nothing here uses the machine's
floating point: every rounding is one exact division of natural numbers.
-/
namespace LanguageClient.Decimal

/-- The finite value `mantissa · 2 ^ exponent`, negated when `negative` holds. Values built by
`ofRatio` have `mantissa < 2 ^ 53` and `-1074 ≤ exponent`, with `2 ^ 52 ≤ mantissa` unless the
exponent is the least one. -/
structure Binary64 where
  negative : Bool
  mantissa : Nat
  exponent : Int
  deriving DecidableEq, Repr, Inhabited

namespace Binary64

/-- The least exponent, that of zero and of the subnormal values. -/
def minExponent : Int := -1074

/-- The greatest exponent of a finite value. -/
def maxExponent : Int := 971

def zero (negative : Bool) : Binary64 := ⟨negative, 0, minExponent⟩

def isZero (x : Binary64) : Bool := x.mantissa == 0

/-- `2 ^ 52`: a normal mantissa is at least this and less than twice this. -/
def leadingBit : Nat := 4503599627370496

/-- `num / den · 2 ^ (-e)` as a quotient of naturals. -/
def scale (num den : Nat) (e : Int) : Nat × Nat :=
  if e < 0 then (num * Nat.pow 2 (-e).toNat, den) else (num, den * Nat.pow 2 e.toNat)

/-- The nearest natural number to `num / den`; a half goes to the even neighbour. -/
def roundHalfEven (num den : Nat) : Nat :=
  let q := num / den
  let r := num % den
  if 2 * r > den then q + 1
  else if 2 * r = den then q + q % 2
  else q

/-- The exponent under which `num / den` has a mantissa of 53 bits, or the least exponent. -/
def exponentFor (num den : Nat) : Int :=
  let guess : Int := (Nat.log2 num : Int) - (Nat.log2 den : Int) - 52
  let (n, d) := scale num den guess
  max minExponent (if n / d < leadingBit then guess - 1 else guess)

/-- The value nearest to `± num / den`, ties to even; `none` when it lies beyond the largest
finite value. -/
def ofRatio (negative : Bool) (num den : Nat) : Option Binary64 :=
  if num = 0 then some (zero negative)
  else
    let e := exponentFor num den
    let (n, d) := scale num den e
    let m := roundHalfEven n d
    let (m, e) := if m = 2 * leadingBit then (leadingBit, e + 1) else (m, e)
    if e > maxExponent then none else some ⟨negative, m, e⟩

/-- The magnitude as a quotient of naturals. -/
def ratio (x : Binary64) : Nat × Nat :=
  if x.exponent < 0 then (x.mantissa, Nat.pow 2 (-x.exponent).toNat)
  else (x.mantissa * Nat.pow 2 x.exponent.toNat, 1)

/-- The product, rounded once. -/
def mul (x y : Binary64) : Option Binary64 :=
  let (a, b) := x.ratio
  let (c, d) := y.ratio
  ofRatio (x.negative != y.negative) (a * c) (b * d)

/-- The quotient, rounded once; the divisor is not zero. -/
def div (x y : Binary64) : Option Binary64 :=
  let (a, b) := x.ratio
  let (c, d) := y.ratio
  ofRatio (x.negative != y.negative) (a * d) (b * c)

/-- The value nearest to `± digits · 10 ^ exponent`. Exponents far outside the finite range are
answered without computing the power. -/
def ofDecimal (negative : Bool) (digits : Nat) (exponent : Int) : Option Binary64 :=
  if digits = 0 then some (zero negative)
  else
    let size : Int := (Nat.log2 digits : Int) / 4 + exponent
    if size > 400 then none
    else if (Nat.log2 digits : Int) + exponent < -400 then some (zero negative)
    else if exponent < 0 then ofRatio negative digits (Nat.pow 10 (-exponent).toNat)
    else ofRatio negative (digits * Nat.pow 10 exponent.toNat) 1

/-- An integral value below `2 ^ 64` in magnitude. -/
def ofNat (negative : Bool) (n : Nat) : Binary64 :=
  (ofRatio negative n 1).getD (zero negative)

/-- Numeric equality, under which the two zeros are equal. -/
def same (x y : Binary64) : Bool :=
  x == y || (x.isZero && y.isZero)

end Binary64

end LanguageClient.Decimal
