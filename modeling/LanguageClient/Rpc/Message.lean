import LanguageClient.Fault
import LanguageClient.Json.Reader
/-!
JSON-RPC messages. A message object is a request when it carries a method and an id, a
notification when it carries a method alone, and a response when it carries an id alone; anything
else is a protocol fault. Writing a message leaves out what is absent, except that a response
always carries its id.
-/
namespace LanguageClient.Rpc
open Json

inductive RequestId where
  | number (n : Int)
  | text (s : String)
  deriving DecidableEq, Repr

namespace RequestId

def display : RequestId → String
  | number n => toString n
  | text s => "\"" ++ s ++ "\""

def toValue : RequestId → Value
  | number n => .int n
  | text s => .str s

def ofValue (v : Value) : Except Mismatch RequestId :=
  match v, v.int64? with
  | _, some n => .ok (number n)
  | .str s, _ => .ok (text s)
  | _, _ => .error (.noVariant "RequestId")

/-- A response may carry null for an id that could not be read. -/
def ofNullable (v : Value) : Except Mismatch (Option RequestId) :=
  match v with
  | .null => .ok none
  | v => (ofValue v).map some

end RequestId

/-- The version of the protocol, assumed where a message does not name one. -/
def version : String := "2.0"

structure Request where
  jsonrpc : String
  id : RequestId
  method : String
  params : Option Value
  deriving DecidableEq, Repr

structure Notification where
  jsonrpc : String
  method : String
  params : Option Value
  deriving DecidableEq, Repr

structure Response where
  jsonrpc : String
  id : Option RequestId
  result : Option Value
  error : Option ErrorObject
  deriving DecidableEq, Repr

/-- The parameters as written: an empty value stands for none. -/
def encodeParams (params : Value) : Option Value := if params.isNull then none else some params

namespace Request

def new (id : Int) (method : String) (params : Option Value) : Request :=
  ⟨version, .number id, method, params⟩

def toValue (r : Request) : Value :=
  .obj (Fields.present
    [("jsonrpc", some (.str r.jsonrpc)), ("id", some r.id.toValue), ("method", some (.str r.method)),
     ("params", r.params)])

def wire (r : Request) : String := r.toValue.render

def ofFields (fs : Fields) : Except Mismatch Request :=
  (fs.decode "id" RequestId.ofValue).bind fun id =>
  (fs.decode "jsonrpc" Value.string).bind fun jsonrpc =>
  (fs.decode "method" Value.string).bind fun method =>
  match id, method with
  | none, _ => .error (.missing "id")
  | _, none => .error (.missing "method")
  | some id, some method => .ok ⟨jsonrpc.getD version, id, method, fs.value? "params"⟩

end Request

namespace Notification

def new (method : String) (params : Option Value) : Notification := ⟨version, method, params⟩

def toValue (n : Notification) : Value :=
  .obj (Fields.present
    [("jsonrpc", some (.str n.jsonrpc)), ("method", some (.str n.method)), ("params", n.params)])

def wire (n : Notification) : String := n.toValue.render

def ofFields (fs : Fields) : Except Mismatch Notification :=
  (fs.decode "jsonrpc" Value.string).bind fun jsonrpc =>
  (fs.decode "method" Value.string).bind fun method =>
  match method with
  | none => .error (.missing "method")
  | some method => .ok ⟨jsonrpc.getD version, method, fs.value? "params"⟩

end Notification

namespace Response

def toValue (r : Response) : Value :=
  .obj (Fields.present
    [("jsonrpc", some (.str r.jsonrpc)), ("id", some (Value.ofOption RequestId.toValue r.id)),
     ("result", r.result), ("error", r.error.map ErrorObject.toValue)])

def wire (r : Response) : String := r.toValue.render

/-- An error object, where null stands for none. -/
def errorOf (v : Value) : Except Mismatch (Option ErrorObject) :=
  match v with
  | .null => .ok none
  | v => (ErrorObject.ofValue v).map some

def ofFields (fs : Fields) : Except Mismatch Response :=
  (fs.decode "error" errorOf).bind fun error =>
  (fs.decode "id" RequestId.ofNullable).bind fun id =>
  (fs.decode "jsonrpc" Value.string).bind fun jsonrpc =>
  .ok ⟨jsonrpc.getD version, id.join, fs.value? "result", error.join⟩

/-- What the response settles its request with: the error object if it has one, otherwise the
result, null when absent. -/
def outcome (r : Response) : Outcome Value :=
  match r.error with
  | some error => .error (.rpc error)
  | none => .ok (r.result.getD .null)

end Response

inductive Message where
  | request (r : Request)
  | notification (n : Notification)
  | response (r : Response)
  deriving DecidableEq, Repr

namespace Message

/-- What a value is, as named when it is no message. -/
def typeName : Value → String
  | .null => "null"
  | .bool _ => "a boolean"
  | .num _ => "a number"
  | .str _ => "a string"
  | .arr _ => "an array"
  | .obj _ => "an object"

/-- Classifies and decodes one message value. -/
def ofValue (v : Value) : Outcome Message :=
  match v with
  | .obj fs =>
    let invalid (kind : String) (m : Mismatch) : Fault :=
      .protocol ("invalid " ++ kind ++ ": " ++ m.message)
    match Fields.has fs "method", Fields.has fs "id" with
    | true, true => ((Request.ofFields fs).map request).mapError (invalid "request")
    | true, false => ((Notification.ofFields fs).map notification).mapError (invalid "notification")
    | false, true => ((Response.ofFields fs).map response).mapError (invalid "response")
    | false, false => .error (.protocol "message carries neither 'method' nor 'id'")
  | v => .error (.protocol ("expected a message object, got " ++ typeName v))

def toValue : Message → Value
  | request r => r.toValue
  | notification n => n.toValue
  | response r => r.toValue

def wire (m : Message) : String := m.toValue.render

end Message

/-- An inbound frame holds one message value, or a batch whose elements stand on their own. -/
inductive Payload where
  | single (v : Value)
  | batch (vs : List Value)
  deriving DecidableEq, Repr

namespace Payload

/-- The start of the text of every fault about a frame that is not JSON. -/
def invalidFrame : String := "invalid JSON frame: "

def parse (frame : String) : Outcome Payload :=
  match read? frame with
  | none => .error (.protocol (invalidFrame ++ "not a JSON text"))
  | some (.arr vs) => .ok (batch vs)
  | some v => .ok (single v)

def values : Payload → List Value
  | single v => [v]
  | batch vs => vs

end Payload

end LanguageClient.Rpc
