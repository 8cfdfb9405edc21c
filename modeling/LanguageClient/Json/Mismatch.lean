import LanguageClient.Json.Numeral
import LanguageClient.Text.Quoted
/-!
Why a value is not of an expected type, in words, and the basic decoders that say so.
-/
namespace LanguageClient.Json

/-- What a value is, as named in a mismatch. -/
def Value.describe : Value → String
  | .null => "null"
  | .bool b => "boolean `" ++ (if b then "true" else "false") ++ "`"
  | .num (.int n) => "integer `" ++ toString n ++ "`"
  | .num (.real x) => "floating point `" ++ String.ofList (Number.realChars x) ++ "`"
  | .str s => "string " ++ Text.quote s
  | .arr _ => "sequence"
  | .obj _ => "map"

/-- A value that is not what a field holds. -/
inductive Mismatch where
  | invalidType (found : Value) (expected : String)
  | outOfRange (found : Int) (expected : String)
  | missing (field : String)
  | tooShort (length : Nat) (expected : String)
  | tooLong (length : Nat)
  | noVariant (name : String)
  deriving DecidableEq, Repr

def Mismatch.message : Mismatch → String
  | .invalidType found expected => "invalid type: " ++ found.describe ++ ", expected " ++ expected
  | .outOfRange found expected =>
    "invalid value: integer `" ++ toString found ++ "`, expected " ++ expected
  | .missing field => "missing field `" ++ field ++ "`"
  | .tooShort length expected =>
    "invalid length " ++ toString length ++ ", expected " ++ expected
  | .tooLong length =>
    "invalid length " ++ toString length ++ ", expected fewer elements in array"
  | .noVariant name => "data did not match any variant of untagged enum " ++ name

namespace Value

def string (v : Value) : Except Mismatch String :=
  match v with
  | .str s => .ok s
  | v => .error (.invalidType v "a string")

def int64 (v : Value) : Except Mismatch Int :=
  match v with
  | .num (.int n) =>
    if Limits.minInt64 ≤ n ∧ n ≤ Limits.maxInt64 then .ok n else .error (.outOfRange n "i64")
  | v => .error (.invalidType v "i64")

end Value

namespace Fields

/-- The decoded value of a field, or `none` when the field is not there. -/
def decode (fs : Fields) (key : String) (f : Value → Except Mismatch α) :
    Except Mismatch (Option α) :=
  match fs.get? key with
  | none => .ok none
  | some v => (f v).map some

/-- The value of a field; an explicit null counts as no value. -/
def value? (fs : Fields) (key : String) : Option Value :=
  match fs.get? key with
  | none | some .null => none
  | some v => some v

end Fields

end LanguageClient.Json
