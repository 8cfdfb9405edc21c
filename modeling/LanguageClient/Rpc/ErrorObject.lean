import LanguageClient.Json.Mismatch
import LanguageClient.Json.Printer
/-!
The error object of a JSON-RPC response: code, message and data exactly as the peer sent them.
-/
namespace LanguageClient.Rpc
open Json

structure ErrorObject where
  code : Int
  message : String
  data : Option Value
  deriving DecidableEq, Repr

namespace ErrorObject

def display (e : ErrorObject) : String := toString e.code ++ " - " ++ e.message

/-- The fields in the order in which they are written. -/
def fields (e : ErrorObject) : Fields :=
  Fields.present [("code", some (.int e.code)), ("message", some (.str e.message)), ("data", e.data)]

def toValue (e : ErrorObject) : Value := .obj e.fields

/-- Fields are looked at in alphabetical order and the first bad one counts; after all of them,
a missing one. -/
def ofFields (fs : Fields) : Except Mismatch ErrorObject :=
  (fs.decode "code" Value.int64).bind fun code =>
  (fs.decode "message" Value.string).bind fun message =>
  match code, message with
  | none, _ => .error (.missing "code")
  | _, none => .error (.missing "message")
  | some code, some message => .ok ⟨code, message, fs.value? "data"⟩

/-- The positional form: code, message and, when present, data. -/
def ofItems (vs : List Value) : Except Mismatch ErrorObject :=
  match vs with
  | [] => .error (.tooShort 0 "struct RpcError with 3 elements")
  | code :: rest =>
    code.int64.bind fun n =>
    match rest with
    | [] => .error (.tooShort 1 "struct RpcError with 3 elements")
    | message :: rest =>
      message.string.bind fun text =>
      match rest with
      | [] | [.null] => .ok ⟨n, text, none⟩
      | [data] => .ok ⟨n, text, some data⟩
      | _ => .error (.tooLong vs.length)

def ofValue (v : Value) : Except Mismatch ErrorObject :=
  match v with
  | .obj fs => ofFields fs
  | .arr vs => ofItems vs
  | v => .error (.invalidType v "struct RpcError")

end ErrorObject

/-- The codes with a meaning fixed by JSON-RPC and by the language server protocol. -/
inductive StandardCode where
  | parseError
  | invalidRequest
  | methodNotFound
  | invalidParams
  | internalError
  | serverNotInitialized
  | requestCancelled
  | contentModified
  deriving DecidableEq, Repr

namespace StandardCode

def all : List StandardCode :=
  [parseError, invalidRequest, methodNotFound, invalidParams, internalError,
   serverNotInitialized, requestCancelled, contentModified]

def code : StandardCode → Int
  | parseError => -32700
  | invalidRequest => -32600
  | methodNotFound => -32601
  | invalidParams => -32602
  | internalError => -32603
  | serverNotInitialized => -32002
  | requestCancelled => -32800
  | contentModified => -32801

end StandardCode

end LanguageClient.Rpc
