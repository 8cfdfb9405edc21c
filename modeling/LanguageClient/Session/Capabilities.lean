import LanguageClient.Json.Value
/-!
The capability record of an `initialize` result, kept as the server sent it, and the two readings
that the client itself makes of it: how changes are sent, and whether a save carries the text.
-/
namespace LanguageClient.Session
open Json

inductive SyncKind where
  | none
  | full
  | incremental
  deriving DecidableEq, Repr, Inhabited

namespace SyncKind

def ofWire? (n : Int) : Option SyncKind :=
  if n = 0 then some none
  else if n = 1 then some full
  else if n = 2 then some incremental
  else Option.none

def toWire : SyncKind → Int
  | none => 0
  | full => 1
  | incremental => 2

def name : SyncKind → String
  | none => "none"
  | full => "full"
  | incremental => "incremental"

end SyncKind

abbrev Capabilities := Fields

namespace Capabilities

/-- The `capabilities` object of a result, or no capability at all. -/
def ofResult (result : Value) : Capabilities :=
  match result.get? "capabilities" with
  | some (.obj fields) => fields
  | _ => []

/-- A provider is present and neither null nor false. -/
def supports (caps : Capabilities) (provider : String) : Bool :=
  match Fields.get? caps provider with
  | none | some .null | some (.bool false) => false
  | some _ => true

/-- What `textDocumentSync` says: a number of its own or in the field `change`. The inner option
is empty for a number that is no 64-bit integer. -/
def syncNumber (caps : Capabilities) : Option (Option Int) :=
  match Fields.get? caps "textDocumentSync" with
  | some (.num n) => some (Value.num n).int64?
  | some (.obj options) =>
    match Fields.get? options "change" with
    | some (.num n) => some (Value.num n).int64?
    | _ => none
  | _ => none

def unknownKind : String := "unknown textDocumentSync kind, assuming full sync"

/-- The kind of change notifications, with a note when the number has no meaning. -/
def syncKind (caps : Capabilities) : SyncKind × List String :=
  match caps.syncNumber with
  | none => (.full, [])
  | some n =>
    match n.bind SyncKind.ofWire? with
    | some kind => (kind, [])
    | none => (.full, [unknownKind])

/-- The server asked for the text of a saved document. -/
def saveIncludesText (caps : Capabilities) : Bool :=
  ((((Fields.get? caps "textDocumentSync").bind (Value.get? · "save")).bind
    (Value.get? · "includeText")).bind Value.bool?).getD false

end Capabilities

end LanguageClient.Session
