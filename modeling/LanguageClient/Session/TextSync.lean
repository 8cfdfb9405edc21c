import LanguageClient.Schema.Structures
import LanguageClient.Session.Capabilities
/-!
The notifications that keep the server's copy of a document in step: their parameters, and what a
change carries under each kind of synchronization.
-/
namespace LanguageClient.Session
open Json Schema

structure TextItem where
  uri : Uri
  languageId : String
  version : Int
  text : String
  deriving DecidableEq

namespace TextItem

def ofValue? (v : Value) : Option TextItem :=
  (textDocumentItem v).bind fun w =>
  match (w.textAt? "uri").bind Uri.ofString?, w.textAt? "languageId", w.intAt? "version",
      w.textAt? "text" with
  | some uri, some languageId, some version, some text => some ⟨uri, languageId, version, text⟩
  | _, _, _, _ => none

def toValue (item : TextItem) : Value :=
  Value.object [("uri", .str item.uri.text), ("languageId", .str item.languageId),
    ("version", .int item.version), ("text", .str item.text)]

end TextItem

/-- One change of a document. Without a range, the text is the whole new document. -/
structure ContentChange where
  range : Option Value
  rangeLength : Option Int
  text : String
  deriving DecidableEq

namespace ContentChange

def whole (text : String) : ContentChange := ⟨none, none, text⟩

def ofValue? (v : Value) : Option ContentChange :=
  (contentChange v).bind fun w =>
  (w.textAt? "text").map fun text => ⟨w.get? "range", w.intAt? "rangeLength", text⟩

def toValue (c : ContentChange) : Value :=
  .obj (Fields.ofList (Fields.present
    [("range", c.range), ("rangeLength", c.rangeLength.map Value.int), ("text", some (.str c.text))]))

end ContentChange

/-- What a change notification carries: nothing is sent when the server takes no changes, edits
only when it takes them and there are some, and otherwise the whole text. -/
def shapeChange (kind : SyncKind) (text : String) (edits : List ContentChange) :
    Option (List ContentChange) :=
  match kind with
  | .none => none
  | .incremental => some (if edits.isEmpty then [.whole text] else edits)
  | .full => some [.whole text]

def didOpenParams (item : TextItem) : Value := .obj [("textDocument", item.toValue)]

def didChangeParams (uri : Uri) (version : Int) (changes : List ContentChange) : Value :=
  .obj [("contentChanges", .arr (changes.map ContentChange.toValue)),
    ("textDocument", .obj [("uri", .str uri.text), ("version", .int version)])]

/-- The text of a saved document goes along only if the server asked for it. -/
def didSaveParams (uri : Uri) (text : Option String) (included : Bool) : Value :=
  .obj (Fields.present
    [("text", if included then text.map Value.str else none),
     ("textDocument", some (.obj [("uri", .str uri.text)]))])

def didCloseParams (uri : Uri) : Value := .obj [("textDocument", .obj [("uri", .str uri.text)])]

end LanguageClient.Session
