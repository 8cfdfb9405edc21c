import LanguageClient.Decimal.Binary64
/-!
The decimal numeral with the fewest digits that reads back as a given binary64 value, and among
those the nearest. The search works on the exact interval of reals that round to the value.
-/
namespace LanguageClient.Decimal

/-- The numeral `digits · 10 ^ exponent`. -/
structure Numeral where
  digits : Nat
  exponent : Int
  deriving DecidableEq, Repr, Inhabited

namespace Numeral

/-- Drops trailing zeros, at most `fuel` of them. -/
def trim : Nat → Numeral → Numeral
  | 0, n => n
  | fuel + 1, n =>
    if n.digits ≠ 0 ∧ n.digits % 10 = 0 then trim fuel ⟨n.digits / 10, n.exponent + 1⟩ else n

end Numeral

/-- The reals that round to a value: `mid` is the value, and all three are multiples of
`unit = 2 ^ (exponent - 2)`; the ends belong to the interval when `closed` holds. -/
structure RoundingInterval where
  low : Nat
  mid : Nat
  high : Nat
  closed : Bool
  exponent : Int

namespace RoundingInterval

/-- The gap below a power of two is half the gap above it. -/
def of (x : Binary64) : RoundingInterval :=
  let m := x.mantissa
  let below := if m = Binary64.leadingBit ∧ x.exponent > Binary64.minExponent then 1 else 2
  ⟨4 * m - below, 4 * m, 4 * m + 2, m % 2 = 0, x.exponent - 2⟩

/-- A point of the interval's scale and a decimal numeral as naturals on one common scale. -/
def common (i : RoundingInterval) (point : Nat) (n : Numeral) : Nat × Nat :=
  let twos := if i.exponent < 0 then (1, Nat.pow 2 (-i.exponent).toNat)
    else (Nat.pow 2 i.exponent.toNat, 1)
  let tens := if n.exponent < 0 then (1, Nat.pow 10 (-n.exponent).toNat)
    else (Nat.pow 10 n.exponent.toNat, 1)
  (point * twos.1 * tens.2, n.digits * tens.1 * twos.2)

def contains (i : RoundingInterval) (n : Numeral) : Bool :=
  let (l, d) := i.common i.low n
  let (h, d') := i.common i.high n
  if i.closed then l ≤ d && d' ≤ h else l < d && d' < h

/-- The distance of a numeral from the value, on the common scale of numerals of one exponent. -/
def distance (i : RoundingInterval) (n : Numeral) : Nat :=
  let (v, d) := i.common i.mid n
  if v ≤ d then d - v else v - d

/-- The greatest multiple of `10 ^ exponent` that is not above the value. -/
def floor (i : RoundingInterval) (exponent : Int) : Numeral :=
  let (v, u) := i.common i.mid ⟨1, exponent⟩
  ⟨v / u, exponent⟩

/-- The better of the two neighbours on the grid of `10 ^ exponent`, if one reads back. -/
def onGrid (i : RoundingInterval) (exponent : Int) : Option Numeral :=
  let below := i.floor exponent
  let above : Numeral := ⟨below.digits + 1, exponent⟩
  match i.contains below, i.contains above with
  | true, true =>
    let a := i.distance below
    let b := i.distance above
    some (if a < b ∨ (a = b ∧ below.digits % 2 = 0) then below else above)
  | true, false => some below
  | false, true => some above
  | false, false => none

/-- Tries grids from coarse to fine, `fuel` of them after the first. -/
def search (i : RoundingInterval) : Nat → Int → Numeral
  | 0, e => i.floor e
  | fuel + 1, e => (i.onGrid e).getD (search i fuel (e - 1))

end RoundingInterval

/-- The power of ten of the leading digit of a non-zero value: the greatest `p` with
`10 ^ p ≤ value`. The estimate from the binary logarithm is at most one too large. -/
def leadingPower (x : Binary64) : Int :=
  let i := RoundingInterval.of x
  let bits : Int := (Nat.log2 x.mantissa : Int) + x.exponent
  let guess : Int := ((bits + 1) * 30103) / 100000 + 1
  let rec settle : Nat → Int → Int
    | 0, p => p
    | fuel + 1, p => if (i.floor p).digits = 0 then settle fuel (p - 1) else p
  settle 4 guess

/-- The shortest numeral that reads back as the magnitude of `x`. -/
def shortest (x : Binary64) : Numeral :=
  if x.isZero then ⟨0, 0⟩
  else ((RoundingInterval.of x).search 17 (leadingPower x)).trim 20

end LanguageClient.Decimal
