import LanguageClient.Rpc.Message
/-!
Message parts read straight from a text. Here a known key that repeats is a fault, where a parsed
value would keep the last one.
-/
namespace LanguageClient.Rpc
open Json

/-- Some key of the list stands in more than one field. -/
def repeats (keys : List String) (fs : List (String × Value)) : Bool :=
  keys.any (fun key => (fs.filter (fun f => f.1 == key)).length > 1)

/-- An object none of whose known keys repeats, or a value of another kind. -/
def unambiguous (keys : List String) : Value → Bool
  | .obj fs => !repeats keys fs
  | _ => true

def RequestId.read? (text : String) : Option RequestId :=
  (Json.read? text).bind fun v => (RequestId.ofValue v).toOption

namespace ErrorObject

def keys : List String := ["code", "message", "data"]

def read? (text : String) : Option ErrorObject :=
  (readText? text).bind fun v =>
  if unambiguous keys v then (ofValue v.canonical).toOption else none

end ErrorObject

namespace Response

def keys : List String := ["jsonrpc", "id", "result", "error"]

/-- The positional form: version, id, result and error, each of which may be left out at the
end. -/
def ofItems (vs : List Value) : Except Mismatch Response :=
  if vs.length > keys.length then .error (.tooLong vs.length) else ofFields (keys.zip vs)

def read? (text : String) : Option Response :=
  (readText? text).bind fun v =>
  match v with
  | .obj fs =>
    if repeats keys fs || !(fs.all (fun f => f.1 != "error" || unambiguous ErrorObject.keys f.2)) then
      none
    else
      match v.canonical with
      | .obj fs => (ofFields fs).toOption
      | _ => none
  | .arr vs =>
    if (vs.drop 3).all (unambiguous ErrorObject.keys) then
      (ofItems (Value.canonicalItems vs)).toOption
    else none
  | _ => none

end Response

end LanguageClient.Rpc
