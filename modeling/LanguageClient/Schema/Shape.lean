import LanguageClient.Json.Value
import LanguageClient.Uri
/-!
Shapes of values in the language server protocol. A shape reads a value as a type and writes it
back: fields that the type does not have are dropped, absent and null options are left out, and
what does not fit is refused. The fields of an object are written in the order of the type.
-/
namespace LanguageClient.Schema
open Json

/-- Reads a value as a type and writes it back. -/
abbrev Shape := Value → Option Value

namespace Shape

/-- The canonical form of what a shape writes. -/
def sorted (s : Shape) : Shape := fun v => (s v).map Value.canonical

def any : Shape := some

def unit : Shape := fun v => if v.isNull then some v else none

def boolean : Shape := fun v =>
  match v with
  | .bool _ => some v
  | _ => none

def text : Shape := fun v =>
  match v with
  | .str _ => some v
  | _ => none

def whole (low high : Int) : Shape := fun v => (v.intBetween? low high).map Value.int

def int32 : Shape := whole Limits.minInt32 Limits.maxInt32

def nat32 : Shape := whole 0 Limits.maxNat32

def uri : Shape := fun v =>
  match v with
  | .str s => (Uri.ofString? s).map (fun _ => v)
  | _ => none

/-- One of the named words, alone or as the only key of an object with no content. -/
def word (names : List String) : Shape := fun v =>
  match v with
  | .str s | .obj [(s, .null)] => if names.contains s then some (.str s) else none
  | _ => none

def list (item : Shape) : Shape := fun v =>
  match v with
  | .arr vs => (vs.mapM item).map .arr
  | _ => none

/-- Exactly as many items as shapes. -/
def tuple (items : List Shape) : Shape := fun v =>
  match v with
  | .arr vs =>
    if vs.length = items.length then ((items.zip vs).mapM (fun (p : Shape × Value) => p.1 p.2)).map .arr else none
  | _ => none

/-- A list cut into groups of a fixed size. -/
def groupsOf (size : Nat) (item : Shape) : Shape := fun v =>
  match v with
  | .arr vs => if vs.length % size = 0 then list item v else none
  | _ => none

def orNull (s : Shape) : Shape := fun v => if v.isNull then some v else s v

/-- The first shape that fits. -/
def oneOf (shapes : List Shape) : Shape := fun v => shapes.findSome? (fun s => s v)

/-- An object whose keys and values fit. -/
def dict (key value : Shape) : Shape := fun v =>
  match v with
  | .obj fs =>
    (fs.mapM (fun (f : String × Value) =>
      (key (.str f.1)).bind fun _ => (value f.2).map fun w => (f.1, w))).map .obj
  | _ => none

end Shape

/-- A field is there, may be left out, or is written as null when it is not there. -/
inductive Presence where
  | required
  | optional
  | nullable
  deriving DecidableEq, Repr

structure Member where
  name : String
  presence : Presence
  shape : Shape

namespace Member

def field (name : String) (shape : Shape) : Member := ⟨name, .required, shape⟩

def opt (name : String) (shape : Shape) : Member := ⟨name, .optional, shape⟩

def orNull (name : String) (shape : Shape) : Member := ⟨name, .nullable, shape⟩

/-- The written form of a member whose value is given or missing: the outer option is a refusal,
the inner one a field left out. -/
def read (m : Member) (v : Option Value) : Option (Option (String × Value)) :=
  match m.presence, v with
  | .required, none => none
  | .required, some v => (m.shape v).map (fun w => some (m.name, w))
  | .optional, none | .optional, some .null => some none
  | .optional, some v => (m.shape v).map (fun w => some (m.name, w))
  | .nullable, none | .nullable, some .null => some (some (m.name, .null))
  | .nullable, some v => (m.shape v).map (fun w => some (m.name, w))

end Member

namespace Shape

def written (parts : List (Option (String × Value))) : Value := .obj (parts.filterMap id)

/-- The members of an object, whatever else it holds. -/
def members (ms : List Member) (fs : Fields) : Option (List (Option (String × Value))) :=
  ms.mapM (fun m => m.read (fs.get? m.name))

def object (ms : List Member) : Shape := fun v =>
  match v with
  | .obj fs => (members ms fs).map written
  | _ => none

/-- An object with members, or the list of all its members in order. -/
def record (ms : List Member) : Shape := fun v =>
  match v with
  | .arr vs =>
    if vs.length = ms.length then
      ((ms.zip vs).mapM (fun (p : Member × Value) => p.1.read (some p.2))).map written
    else none
  | v => object ms v

/-- An object with members whose other fields all fit a shape and are kept. -/
def objectWith (ms : List Member) (rest : Shape) : Shape := fun v =>
  match v with
  | .obj fs =>
    (members ms fs).bind fun parts =>
    let others := fs.filter (fun f => ms.all (fun m => m.name != f.1))
    (others.mapM (fun (f : String × Value) => (rest f.2).map (fun w => some (f.1, w)))).map
      fun others => written (parts ++ others)
  | _ => none

/-- An object told apart by the word in one of its fields, which is kept. -/
def tagged (tag : String) (cases : List (String × List Member)) : Shape := fun v =>
  match v with
  | .obj fs =>
    (Fields.get? fs tag).bind fun w => w.string?.bind fun word =>
    (cases.lookup word).bind fun ms =>
    (members ms fs).map fun parts => written (some (tag, .str word) :: parts)
  | _ => none

end Shape

end LanguageClient.Schema
