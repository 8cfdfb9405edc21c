/-!
Unsigned decimal numerals with an upper limit: digits after an optional plus sign. The text is
read from the left, and the first character that goes wrong names the fault.
-/
namespace LanguageClient.Text.Unsigned

inductive Fault where
  | empty
  | badDigit
  | tooLarge
  deriving DecidableEq, Repr

def Fault.message : Fault → String
  | empty => "cannot parse integer from empty string"
  | badDigit => "invalid digit found in string"
  | tooLarge => "number too large to fit in target type"

def digits (limit : Nat) : Nat → List Char → Except Fault Nat
  | n, [] => .ok n
  | n, c :: cs =>
    if c.isDigit then
      let next := n * 10 + (c.toNat - '0'.toNat)
      if next ≤ limit then digits limit next cs else .error .tooLarge
    else .error .badDigit

def read (limit : Nat) (s : List Char) : Except Fault Nat :=
  match s with
  | [] => .error .empty
  | ['+'] => .error .badDigit
  | '+' :: cs => digits limit 0 cs
  | cs => digits limit 0 cs

end LanguageClient.Text.Unsigned
