import LanguageClient.Schema.Shape
/-!
Shapes that several messages share: positions and ranges, text edits, markup, commands, tokens of
work in progress, documents and diagnostics.
-/
namespace LanguageClient.Schema
open Shape Member

def position : Shape := record [field "line" nat32, field "character" nat32]

def range : Shape := record [field "start" position, field "end" position]

def location : Shape := record [field "uri" uri, field "range" range]

def locationLink : Shape :=
  record [opt "originSelectionRange" range, field "targetUri" uri, field "targetRange" range,
    field "targetSelectionRange" range]

def textEdit : Shape := record [field "range" range, field "newText" text]

def markup : Shape := record [field "kind" (word ["plaintext", "markdown"]), field "value" text]

def documentation : Shape := oneOf [text, markup]

def command : Shape :=
  record [field "title" text, field "command" text, opt "arguments" (list any)]

def numberOrText : Shape := oneOf [int32, text]

def textDocument : Member := field "textDocument" (record [field "uri" uri])

/-- The token under which the server reports progress. -/
def workDone : Member := opt "workDoneToken" numberOrText

/-- The token under which the server streams partial results. -/
def partialResult : Member := opt "partialResultToken" numberOrText

def textDocumentItem : Shape :=
  record [field "uri" uri, field "languageId" text, field "version" int32, field "text" text]

def contentChange : Shape :=
  sorted <| record [opt "range" range, opt "rangeLength" nat32, field "text" text]

def serverInfo : Shape := record [field "name" text, opt "version" text]

def logMessage : Shape := record [field "type" int32, field "message" text]

def diagnostic : Shape :=
  record [field "range" range, opt "severity" int32, opt "code" numberOrText,
    opt "codeDescription" (record [field "href" uri]), opt "source" text, field "message" text,
    opt "relatedInformation" (list (record [field "location" location, field "message" text])),
    opt "tags" (list int32), opt "data" any]

def publishDiagnostics : Shape :=
  sorted <| record [field "uri" uri, field "diagnostics" (list diagnostic), opt "version" int32]

/-- The parameters of `initialize`. Of the client's own capabilities the known groups are kept. -/
def initializeParams : Shape :=
  sorted <| object [orNull "processId" nat32, opt "rootPath" text, orNull "rootUri" uri,
    opt "initializationOptions" any,
    field "capabilities" (record [opt "workspace" (dict text any), opt "textDocument" (dict text any),
      opt "window" (dict text any), opt "general" (dict text any), opt "experimental" any]),
    opt "trace" (word ["off", "messages", "verbose"]),
    opt "workspaceFolders" (list (record [field "uri" uri, field "name" text])),
    opt "clientInfo" serverInfo, opt "locale" text, workDone]

end LanguageClient.Schema
