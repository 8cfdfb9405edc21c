import LanguageClient.Decimal.Binary64
import LanguageClient.Limits
/-!
JSON values. An object is the list of its fields; in a canonical value the keys of every object
increase strictly, so equal objects are equal lists. Text order and repeated keys survive only in
values fresh from the reader; `canonical` sorts the fields and keeps the last of equal keys.
-/
namespace LanguageClient.Json
open Decimal

/-- Whole numbers of 64 bits are kept exactly, signed or unsigned; every other number is the
nearest binary64 value. -/
inductive Number where
  | int (n : Int)
  | real (x : Binary64)
  deriving DecidableEq, Repr, Inhabited

inductive Value where
  | null
  | bool (b : Bool)
  | num (n : Number)
  | str (s : String)
  | arr (items : List Value)
  | obj (fields : List (String × Value))
  deriving Repr, Inhabited

namespace Value

mutual
def decEq : (a b : Value) → Decidable (a = b)
  | .null, .null => isTrue rfl
  | .bool a, .bool b =>
    if h : a = b then isTrue (by rw [h]) else isFalse (fun e => h (by injection e))
  | .num a, .num b =>
    if h : a = b then isTrue (by rw [h]) else isFalse (fun e => h (by injection e))
  | .str a, .str b =>
    if h : a = b then isTrue (by rw [h]) else isFalse (fun e => h (by injection e))
  | .arr a, .arr b =>
    match decEqItems a b with
    | isTrue h => isTrue (by rw [h])
    | isFalse h => isFalse (fun e => h (by injection e))
  | .obj a, .obj b =>
    match decEqFields a b with
    | isTrue h => isTrue (by rw [h])
    | isFalse h => isFalse (fun e => h (by injection e))
  | .null, .bool _ | .null, .num _ | .null, .str _ | .null, .arr _ | .null, .obj _
  | .bool _, .null | .bool _, .num _ | .bool _, .str _ | .bool _, .arr _ | .bool _, .obj _
  | .num _, .null | .num _, .bool _ | .num _, .str _ | .num _, .arr _ | .num _, .obj _
  | .str _, .null | .str _, .bool _ | .str _, .num _ | .str _, .arr _ | .str _, .obj _
  | .arr _, .null | .arr _, .bool _ | .arr _, .num _ | .arr _, .str _ | .arr _, .obj _
  | .obj _, .null | .obj _, .bool _ | .obj _, .num _ | .obj _, .str _ | .obj _, .arr _ =>
    isFalse (fun e => by injection e)

def decEqItems : (a b : List Value) → Decidable (a = b)
  | [], [] => isTrue rfl
  | [], _ :: _ | _ :: _, [] => isFalse (fun e => by injection e)
  | a :: as, b :: bs =>
    match decEq a b, decEqItems as bs with
    | isTrue h, isTrue h' => isTrue (by rw [h, h'])
    | isFalse h, _ => isFalse (fun e => h (by injection e))
    | _, isFalse h => isFalse (fun e => h (by injection e))

def decEqFields : (a b : List (String × Value)) → Decidable (a = b)
  | [], [] => isTrue rfl
  | [], _ :: _ | _ :: _, [] => isFalse (fun e => by injection e)
  | (k, a) :: as, (l, b) :: bs =>
    if hk : k = l then
      match decEq a b, decEqFields as bs with
      | isTrue h, isTrue h' => isTrue (by rw [hk, h, h'])
      | isFalse h, _ => isFalse (fun e => h (by injection e with e _; injection e))
      | _, isFalse h => isFalse (fun e => h (by injection e))
    else isFalse (fun e => hk (by injection e with e _; injection e))
end

instance : DecidableEq Value := decEq

def int (n : Int) : Value := .num (.int n)

def nat (n : Nat) : Value := .num (.int n)

def isNull : Value → Bool
  | .null => true
  | _ => false

def ofOption (f : α → Value) : Option α → Value
  | none => .null
  | some a => f a

end Value

abbrev Fields := List (String × Value)

namespace Fields

/-- The value of the first field of that key. -/
def get? (fs : Fields) (key : String) : Option Value := List.lookup key fs

def has (fs : Fields) (key : String) : Bool := (get? fs key).isSome

/-- Puts a field in its place among sorted keys, replacing the field of the same key. -/
def insert (key : String) (v : Value) : Fields → Fields
  | [] => [(key, v)]
  | (k, w) :: rest =>
    if key < k then (key, v) :: (k, w) :: rest
    else if key = k then (key, v) :: rest
    else (k, w) :: insert key v rest

/-- Sorted by key; of fields with equal keys the last one counts. -/
def ofList (fs : List (String × Value)) : Fields :=
  fs.foldl (fun acc f => insert f.1 f.2 acc) []

/-- Drops the fields without a value. -/
def present (fs : List (String × Option Value)) : Fields :=
  fs.filterMap (fun f => f.2.map (f.1, ·))

end Fields

namespace Value

mutual
/-- The same value with the fields of every object sorted and without repeated keys. -/
def canonical : Value → Value
  | .arr items => .arr (canonicalItems items)
  | .obj fields => .obj (canonicalFields fields []) 
  | v => v

def canonicalItems : List Value → List Value
  | [] => []
  | v :: vs => canonical v :: canonicalItems vs

/-- The canonical fields inserted one after the other into sorted fields. -/
def canonicalFields : List (String × Value) → Fields → Fields
  | [], acc => acc
  | (k, v) :: rest, acc => canonicalFields rest (Fields.insert k (canonical v) acc)
end

/-- An object built from fields in any order. -/
def object (fs : List (String × Value)) : Value := .obj (Fields.ofList fs)

def fields? : Value → Option Fields
  | .obj fs => some fs
  | _ => none

def get? (v : Value) (key : String) : Option Value := v.fields?.bind (Fields.get? · key)

def string? : Value → Option String
  | .str s => some s
  | _ => none

def bool? : Value → Option Bool
  | .bool b => some b
  | _ => none

def items? : Value → Option (List Value)
  | .arr vs => some vs
  | _ => none

def intBetween? (lo hi : Int) : Value → Option Int
  | .num (.int n) => if lo ≤ n ∧ n ≤ hi then some n else none
  | _ => none

def int64? : Value → Option Int := intBetween? Limits.minInt64 Limits.maxInt64

def nat64? (v : Value) : Option Nat := (intBetween? 0 Limits.maxNat64 v).map Int.toNat

def textAt? (v : Value) (key : String) : Option String := (v.get? key).bind string?

def intAt? (v : Value) (key : String) : Option Int := (v.get? key).bind int64?

end Value

end LanguageClient.Json
