import LanguageClient.Json.Printer
import LanguageClient.Json.Reader
import LanguageClient.Transport.Framing
/-!
A scripted server at the other end of a byte stream. It keeps what it receives, and answers every
request as its script says; a request that the script does not name is answered with null.
-/
namespace LanguageClient.Rehearsal
open Json Transport Text

/-- How a request is answered: text without a frame of its own, then further frames, then the
response with one of its fields, if there is a response at all. -/
structure Answer where
  raw : String
  before : List String
  response : Option (String × Value)

namespace Answer

def acknowledgement : Answer := ⟨"", [], some ("result", .null)⟩

def responseFrame (id : Value) (field : String × Value) : String :=
  (Value.obj [("jsonrpc", .str "2.0"), ("id", id), field]).render

/-- What is written for the request with an id. -/
def bytes (id : Value) (a : Answer) : List UInt8 :=
  Utf8.bytes a.raw ++
    Framing.encodeAll (a.before ++ (a.response.map (responseFrame id)).toList)

end Answer

structure Server where
  script : List (String × Answer)
  received : List Value
  /-- What has been written and not yet been read as frames. -/
  unread : List UInt8
  /-- How many notes on `unread` the reader has made already. -/
  noted : Nat

namespace Server

def scripted (script : List (String × Answer)) : Server := ⟨script, [], [], 0⟩

def answerTo (method : String) (s : Server) : Answer :=
  (s.script.lookup method).getD Answer.acknowledgement

/-- The server takes a frame; what is not JSON it ignores. -/
def receive (s : Server) (frame : String) : Server :=
  match read? frame with
  | none => s
  | some v =>
    let s := { s with received := s.received ++ [v] }
    match v.textAt? "method", v.get? "id" with
    | some method, some id => { s with unread := s.unread ++ (s.answerTo method).bytes id }
    | _, _ => s

/-- The bytes up to the last line feed. -/
def wholeLines (bs : List UInt8) : List UInt8 := (bs.reverse.dropWhile (· != 10)).reverse

/-- What the reader gets next, and its new notes. What is not complete yet may still become so,
except that header lines are noted as soon as they are whole. -/
def next (s : Server) : List String × Option (Outcome String) × Server :=
  match Framing.readFrame s.unread with
  | (notes, .frame text rest) =>
    (notes.drop s.noted, some (.ok text), { s with unread := rest, noted := 0 })
  | (notes, .fault (.protocol reason)) =>
    (notes.drop s.noted, some (.error (.protocol reason)), { s with unread := [], noted := 0 })
  | _ =>
    let notes := (Framing.readFrame (wholeLines s.unread)).1
    (notes.drop s.noted, none, { s with noted := notes.length })

end Server

end LanguageClient.Rehearsal
