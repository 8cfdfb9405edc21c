import LanguageClient.Schema.Structures
/-!
Shapes of the results of language features. Every result may also be null.
-/
namespace LanguageClient.Schema
open Shape Member

/-- A string, or code with its language. -/
def markedText : Shape := oneOf [text, record [field "language" text, field "value" text]]

def hover : Shape :=
  record [field "contents" (oneOf [markedText, list markedText, markup]), opt "range" range]

def completionItem : Shape :=
  record [field "label" text,
    opt "labelDetails" (record [opt "detail" text, opt "description" text]),
    opt "kind" int32, opt "detail" text, opt "documentation" documentation,
    opt "deprecated" boolean, opt "preselect" boolean, opt "sortText" text,
    opt "filterText" text, opt "insertText" text, opt "insertTextFormat" int32,
    opt "insertTextMode" int32,
    opt "textEdit" (oneOf [textEdit,
      record [field "newText" text, field "insert" range, field "replace" range]]),
    opt "additionalTextEdits" (list textEdit), opt "command" command,
    opt "commitCharacters" (list text), opt "data" any, opt "tags" (list int32)]

def completion : Shape :=
  oneOf [list completionItem,
    record [field "isIncomplete" boolean, field "items" (list completionItem)]]

def signatureHelp : Shape :=
  record [field "signatures" (list (record [field "label" text, opt "documentation" documentation,
      opt "parameters" (list (record [field "label" (oneOf [text, tuple [nat32, nat32]]),
        opt "documentation" documentation])),
      opt "activeParameter" nat32])),
    opt "activeSignature" nat32, opt "activeParameter" nat32]

def definition : Shape := oneOf [location, list location, list locationLink]

def references : Shape := list location

/-- An edit that names an annotation is read as the plain edit that it contains. -/
def textDocumentEdit : Shape :=
  record [field "textDocument" (record [field "uri" uri, orNull "version" int32]),
    field "edits" (list (oneOf [textEdit,
      object [field "range" range, field "newText" text, field "annotationId" text]]))]

def resourceOperation : Shape :=
  tagged "kind"
    [("create", [field "uri" uri,
        opt "options" (record [opt "overwrite" boolean, opt "ignoreIfExists" boolean]),
        opt "annotationId" text]),
     ("rename", [field "oldUri" uri, field "newUri" uri,
        opt "options" (record [opt "overwrite" boolean, opt "ignoreIfExists" boolean]),
        opt "annotationId" text]),
     ("delete", [field "uri" uri,
        opt "options" (record [opt "recursive" boolean, opt "ignoreIfNotExists" boolean,
          opt "annotationId" text])])]

def workspaceEdit : Shape :=
  record [opt "changes" (dict uri (list textEdit)),
    opt "documentChanges" (oneOf [list textDocumentEdit,
      list (oneOf [resourceOperation, textDocumentEdit])]),
    opt "changeAnnotations" (dict text (record [field "label" text,
      opt "needsConfirmation" boolean, opt "description" text]))]

def symbolInformation : Shape :=
  record [field "name" text, field "kind" int32, opt "tags" (list int32),
    opt "deprecated" boolean, field "location" location, opt "containerName" text]

/-- Symbols with their children, `fuel` levels deep. -/
def documentSymbol : (fuel : Nat) → Shape
  | 0 => fun _ => none
  | fuel + 1 =>
    record [field "name" text, opt "detail" text, field "kind" int32, opt "tags" (list int32),
      opt "deprecated" boolean, field "range" range, field "selectionRange" range,
      opt "children" (list (documentSymbol fuel))]

/-- A level of symbols takes two levels of the text's nesting, of which there are at most 127. -/
def documentSymbols : Shape := oneOf [list symbolInformation, list (documentSymbol 64)]

def textEdits : Shape := list textEdit

/-- Five numbers a token. -/
def semanticTokens : Shape :=
  let data := field "data" (groupsOf 5 nat32)
  oneOf [record [opt "resultId" text, data], record [data]]

end LanguageClient.Schema
