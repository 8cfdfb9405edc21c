import LanguageClient.Json.Value
/-!
The unquoted values of TOML: truth values, whole numbers in four bases, floating point numbers,
dates and times. JSON has no infinities, so these and what is not a number are null; a date or a
time is an object with its canonical text.
-/
namespace LanguageClient.Toml
open Json Decimal

/-- Digits, with single underscores between them, which are dropped. -/
def digits? (ok : Char → Bool) : List Char → Option (List Char)
  | [] => none
  | [c] => if ok c then some [c] else none
  | c :: '_' :: rest => if ok c then (digits? ok rest).map (c :: ·) else none
  | c :: rest => if ok c then (digits? ok rest).map (c :: ·) else none

/-- Decimal digits that do not start with a needless zero. -/
def wholeDigits? (s : List Char) : Option (List Char) :=
  match digits? Char.isDigit s with
  | some ('0' :: _ :: _) => none
  | r => r

def sign (s : List Char) : Bool × List Char :=
  match s with
  | '-' :: rest => (true, rest)
  | '+' :: rest => (false, rest)
  | s => (false, s)

/-- Whole numbers fit 64 bits, signed or unsigned. -/
def inRange? (n : Int) : Option Value :=
  if Limits.minInt64 ≤ n ∧ n ≤ Limits.maxNat64 then some (.int n) else none

def isHexDigit (c : Char) : Bool :=
  c.isDigit || ('a' ≤ c && c ≤ 'f') || ('A' ≤ c && c ≤ 'F')

def digitValue (c : Char) : Nat :=
  if c.isDigit then c.toNat - '0'.toNat
  else if 'a' ≤ c then c.toNat - 'a'.toNat + 10
  else c.toNat - 'A'.toNat + 10

def inBase (base : Nat) (ds : List Char) : Nat := ds.foldl (fun n c => base * n + digitValue c) 0

def integer? (s : List Char) : Option Value :=
  match s with
  | '0' :: 'x' :: rest => (digits? isHexDigit rest).bind fun ds => inRange? (inBase 16 ds)
  | '0' :: 'o' :: rest =>
    (digits? (fun c => '0' ≤ c && c ≤ '7') rest).bind fun ds => inRange? (inBase 8 ds)
  | '0' :: 'b' :: rest =>
    (digits? (fun c => c == '0' || c == '1') rest).bind fun ds => inRange? (inBase 2 ds)
  | s =>
    let (negative, rest) := sign s
    (wholeDigits? rest).bind fun ds =>
      inRange? (if negative then -(inBase 10 ds : Int) else inBase 10 ds)

/-- Cuts a text before the first character of a kind. -/
def cut (at? : Char → Bool) (s : List Char) : List Char × Option (List Char) :=
  (s.takeWhile (fun c => !at? c), (s.dropWhile (fun c => !at? c)).tail?)

/-- A part that may be left out, but not be malformed. -/
def part? (read : List Char → Option α) : Option (List Char) → Option (Option α)
  | none => some none
  | some s => (read s).map some

def exponentPart? (s : List Char) : Option Int :=
  let (negative, rest) := sign s
  (digits? Char.isDigit rest).map fun ds =>
    if negative then -(inBase 10 ds : Int) else inBase 10 ds

/-- A number with a fraction, an exponent or both; it must not be beyond the largest value. -/
def float? (s : List Char) : Option Value :=
  let (negative, rest) := sign s
  let (mantissa, exponent) := cut (fun c => c == 'e' || c == 'E') rest
  let (whole, fraction) := cut (· == '.') mantissa
  if exponent.isNone && fraction.isNone then none
  else
    match wholeDigits? whole, part? (digits? Char.isDigit) fraction, part? exponentPart? exponent with
    | some w, some f, some e =>
      let tail := f.getD []
      (Binary64.ofDecimal negative (inBase 10 (w ++ tail)) (e.getD 0 - tail.length)).map
        fun x => .num (.real x)
    | _, _, _ => none

def pair? (a b : Char) : Option Nat :=
  if a.isDigit && b.isDigit then some (10 * digitValue a + digitValue b) else none

def daysIn (year month : Nat) : Nat :=
  if month = 2 then
    if year % 4 = 0 ∧ (year % 100 ≠ 0 ∨ year % 400 = 0) then 29 else 28
  else if month = 4 ∨ month = 6 ∨ month = 9 ∨ month = 11 then 30
  else 31

/-- The text of a date and what follows it. -/
def date? : List Char → Option (List Char × List Char)
  | a :: b :: c :: d :: '-' :: e :: f :: '-' :: g :: h :: rest =>
    match pair? a b, pair? c d, pair? e f, pair? g h with
    | some century, some year, some month, some day =>
      if 1 ≤ month ∧ month ≤ 12 ∧ 1 ≤ day ∧ day ≤ daysIn (100 * century + year) month then
        some ([a, b, c, d, '-', e, f, '-', g, h], rest)
      else none
    | _, _, _, _ => none
  | _ => none

/-- The digits of a fraction of a second: nanoseconds at most, without trailing zeros. -/
def fractionText (ds : List Char) : List Char :=
  match ((ds.take 9).reverse.dropWhile (· == '0')).reverse with
  | [] => ['0']
  | ds => ds

def fractionOfSecond? (s : List Char) : Option (List Char × List Char) :=
  match s with
  | '.' :: rest =>
    match rest.takeWhile Char.isDigit with
    | [] => none
    | ds => some ('.' :: fractionText ds, rest.dropWhile Char.isDigit)
  | s => some ([], s)

/-- Seconds may be left out, and may be those of a leap second. -/
def seconds? (s : List Char) : Option (List Char × List Char) :=
  match s with
  | ':' :: a :: b :: rest =>
    match pair? a b with
    | some n =>
      if n ≤ 60 then
        (fractionOfSecond? rest).map fun (f, rest) => (':' :: a :: b :: f, rest)
      else none
    | none => none
  | ':' :: _ => none
  | s => some ([], s)

def time? : List Char → Option (List Char × List Char)
  | a :: b :: ':' :: c :: d :: rest =>
    match pair? a b, pair? c d with
    | some hour, some minute =>
      if hour ≤ 23 ∧ minute ≤ 59 then
        (seconds? rest).map fun (t, rest) => (a :: b :: ':' :: c :: d :: t, rest)
      else none
    | _, _ => none
  | _ => none

/-- The text of an offset from universal time, which is the whole of what is given. -/
def offset? : List Char → Option (List Char)
  | ['Z'] | ['z'] => some ['Z']
  | [s, a, b, ':', c, d] =>
    match pair? a b, pair? c d with
    | some hour, some minute =>
      if (s = '+' ∨ s = '-') ∧ minute ≤ 59 ∧ 60 * hour + minute ≤ 24 * 60 then
        some [if hour = 0 ∧ minute = 0 then '+' else s, a, b, ':', c, d]
      else none
    | _, _ => none
  | _ => none

def dateTimeKey : String := "$__toml_private_datetime"

def dateTimeText? (s : List Char) : Option (List Char) :=
  match date? s with
  | some (d, []) => some d
  | some (d, sep :: rest) =>
    if sep = 'T' ∨ sep = 't' ∨ sep = ' ' then
      match time? rest with
      | some (t, []) => some (d ++ 'T' :: t)
      | some (t, rest) => (offset? rest).map fun o => d ++ 'T' :: t ++ o
      | none => none
    else none
  | none =>
    match time? s with
    | some (t, []) => some t
    | _ => none

def dateTime? (s : List Char) : Option Value :=
  (dateTimeText? s).map fun t => .obj [(dateTimeKey, .str (String.ofList t))]

def words : List (String × Value) :=
  [("true", .bool true), ("false", .bool false), ("inf", .null), ("+inf", .null), ("-inf", .null),
   ("nan", .null), ("+nan", .null), ("-nan", .null)]

/-- The value of a whole unquoted text. -/
def atom? (s : List Char) : Option Value :=
  ((words.lookup (String.ofList s)).or (integer? s)).or ((float? s).or (dateTime? s))

end LanguageClient.Toml
