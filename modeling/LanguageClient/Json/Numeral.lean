import LanguageClient.Decimal.Shortest
import LanguageClient.Json.Value
/-!
The written form of JSON numbers: the lexeme grammar, the value of a lexeme, and the text of a
value. A whole number that fits 64 bits is read and written exactly. Any other lexeme is a
significand of at most 64 bits scaled by one rounded power of ten, and a binary64 value is
written with the fewest digits that read back.
-/
namespace LanguageClient.Json
open Decimal

/-- The parts of a number lexeme; `fraction` and `exponent` are absent when not written. -/
structure Numeral where
  negative : Bool
  whole : List Char
  fraction : Option (List Char)
  exponent : Option (Bool × List Char)
  deriving DecidableEq, Repr

namespace Numeral

def digits (s : List Char) : List Char × List Char := (s.takeWhile Char.isDigit, s.dropWhile Char.isDigit)

/-- At least one digit. -/
def digits1? (s : List Char) : Option (List Char × List Char) :=
  match digits s with
  | ([], _) => none
  | found => some found

/-- A lone zero, or digits that start with another one. -/
def whole? (s : List Char) : Option (List Char × List Char) :=
  match digits s with
  | ([], _) => none
  | (['0'], rest) => some (['0'], rest)
  | ('0' :: _, _) => none
  | found => some found

def fraction? (s : List Char) : Option (Option (List Char) × List Char) :=
  match s with
  | '.' :: rest => (digits1? rest).map (fun (ds, rest) => (some ds, rest))
  | _ => some (none, s)

def sign (s : List Char) : Bool × List Char :=
  match s with
  | '-' :: rest => (true, rest)
  | '+' :: rest => (false, rest)
  | _ => (false, s)

def exponent? (s : List Char) : Option (Option (Bool × List Char) × List Char) :=
  match s with
  | 'e' :: rest | 'E' :: rest =>
    let (negative, rest) := sign rest
    (digits1? rest).map (fun (ds, rest) => (some (negative, ds), rest))
  | _ => some (none, s)

/-- The longest lexeme at the start of a text. -/
def read? (s : List Char) : Option (Numeral × List Char) :=
  let (negative, s) := match s with
    | '-' :: rest => (true, rest)
    | _ => (false, s)
  (whole? s).bind fun (whole, s) =>
  (fraction? s).bind fun (fraction, s) =>
  (exponent? s).map fun (exponent, s) => (⟨negative, whole, fraction, exponent⟩, s)

/-- The greatest significand. -/
def limit : Nat := Limits.maxNat64

/-- Appends digits to a significand while it stays within the limit; also the digits left. -/
def absorb (significand : Nat) : List Char → Nat × List Char
  | [] => (significand, [])
  | c :: cs =>
    let next := significand * 10 + (c.toNat - '0'.toNat)
    if next ≤ limit then absorb next cs else (significand, c :: cs)

/-- `significand · 10 ^ exponent` by rounded steps of at most `10 ^ 308`; `none` when out of
range. A significand below `2 ^ 64` vanishes within two downward steps. -/
def scaled? (x : Binary64) (exponent : Int) : Option Binary64 :=
  let tens (e : Int) : Binary64 := (Binary64.ofDecimal false 1 e).getD x
  let rec down : Nat → Binary64 → Int → Option Binary64
    | 0, x, _ => some (Binary64.zero x.negative)
    | fuel + 1, x, e =>
      if -308 ≤ e then x.div (tens (-e))
      else (x.div (tens 308)).bind (down fuel · (e + 308))
  if exponent < 0 then down 3 x exponent
  else if x.isZero then some x
  else if exponent ≤ 308 then x.mul (tens exponent)
  else none

/-- The number a lexeme denotes; `none` when it is out of range. -/
def value? (n : Numeral) : Option Number :=
  let (significand, left) := absorb 0 n.whole
  match n.fraction, n.exponent, left with
  | none, none, [] =>
    if n.negative then
      if significand = 0 ∨ significand > Limits.minInt64.natAbs then
        some (.real (Binary64.ofNat true significand))
      else some (.int (-significand))
    else some (.int significand)
  | fraction, exponent, left =>
    let tail := fraction.getD []
    let (significand, dropped) := absorb significand tail
    let shift : Int := left.length - (tail.length - dropped.length : Nat)
    let power : Int := match exponent with
      | none => 0
      | some (negative, ds) =>
        let e := Nat.ofDigitChars 10 ds 0
        if negative then -e else e
    (scaled? (Binary64.ofNat n.negative significand) (shift + power)).map Number.real

end Numeral

namespace Number

def intChars (n : Int) : List Char :=
  if n < 0 then '-' :: Nat.toDigits 10 n.natAbs else Nat.toDigits 10 n.natAbs

/-- Positional with at least one fraction digit while the leading digit stands at `10 ^ -5` to
`10 ^ 15`, otherwise a leading digit, the other digits after a point, and a signed exponent. -/
def realChars (x : Binary64) : List Char :=
  let n := shortest x
  let ds := Nat.toDigits 10 n.digits
  let lead : Int := n.exponent + ds.length - 1
  let body :=
    if x.isZero then ['0', '.', '0']
    else if 0 ≤ n.exponent ∧ lead ≤ 15 then
      ds ++ List.replicate n.exponent.toNat '0' ++ ['.', '0']
    else if 0 ≤ lead ∧ lead ≤ 15 then
      ds.take (lead + 1).toNat ++ '.' :: ds.drop (lead + 1).toNat
    else if -5 ≤ lead ∧ lead < 0 then
      '0' :: '.' :: List.replicate (-lead - 1).toNat '0' ++ ds
    else
      let tail := ds.drop 1
      ds.take 1 ++ (if tail.isEmpty then [] else '.' :: tail) ++
        'e' :: (if lead < 0 then ['-'] else ['+']) ++ Nat.toDigits 10 lead.natAbs
  if x.negative then '-' :: body else body

def chars : Number → List Char
  | .int n => intChars n
  | .real x => realChars x

end Number

end LanguageClient.Json
