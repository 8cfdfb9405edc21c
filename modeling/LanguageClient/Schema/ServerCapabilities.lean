import LanguageClient.Schema.Structures
/-!
The shape of a server's capability record. A provider is a flag or an object of options; where an
object could also be the options of a registration, the first shape that fits decides.
-/
namespace LanguageClient.Schema
open Shape Member

def workDoneProgress : Member := opt "workDoneProgress" boolean

def saveOptions : Shape := record [opt "includeText" boolean]

def syncOptions : Shape :=
  record [opt "openClose" boolean, opt "change" int32, opt "willSave" boolean,
    opt "willSaveWaitUntil" boolean, opt "save" (oneOf [boolean, saveOptions])]

def textDocumentSync : Shape := oneOf [int32, syncOptions]

/-- A flag, or options with a progress flag and further members. -/
def provider (ms : List Member) : Shape := oneOf [boolean, object (ms ++ [workDoneProgress])]

def documentSelector : Shape :=
  list (record [opt "language" text, opt "scheme" text, opt "pattern" text])

/-- The options of a registration made in advance. -/
def registration : Shape := record [orNull "documentSelector" documentSelector, opt "id" text]

def notebookFilter : Shape :=
  oneOf [text,
    object [field "notebookType" text, opt "scheme" text, opt "pattern" text],
    object [opt "notebookType" text, field "scheme" text, opt "pattern" text],
    object [opt "notebookType" text, opt "scheme" text, field "pattern" text]]

def notebookSync : List Member :=
  let cells := list (record [field "language" text])
  [field "notebookSelector" (list (oneOf
      [object [field "notebook" notebookFilter, opt "cells" cells],
       object [opt "notebook" notebookFilter, field "cells" cells]])),
   opt "save" boolean]

def semanticTokensOptions : List Member :=
  [field "legend" (record [field "tokenTypes" (list text), field "tokenModifiers" (list text)]),
   opt "range" boolean, opt "full" (oneOf [boolean, object [opt "delta" boolean]]),
   workDoneProgress]

def diagnosticOptions : List Member :=
  [opt "identifier" text, field "interFileDependencies" boolean,
   field "workspaceDiagnostics" boolean, workDoneProgress]

def fileOperation : Shape :=
  record [field "filters" (list (record [opt "scheme" text,
    field "pattern" (record [field "glob" text, opt "matches" (word ["file", "folder"]),
      opt "options" (record [opt "ignoreCase" boolean])])]))]

def workspaceCapabilities : Shape :=
  record [opt "workspaceFolders" (record [opt "supported" boolean,
      opt "changeNotifications" (oneOf [boolean, text])]),
    opt "fileOperations" (record (["didCreate", "willCreate", "didRename", "willRename",
      "didDelete", "willDelete"].map (fun name => opt name fileOperation)))]

def serverCapabilities : Shape :=
  sorted <| record
    [opt "positionEncoding" text,
     opt "textDocumentSync" textDocumentSync,
     opt "notebookDocumentSync" (oneOf [record notebookSync, object (notebookSync ++ [opt "id" text])]),
     opt "selectionRangeProvider" (provider []),
     opt "hoverProvider" (provider []),
     opt "completionProvider" (object [opt "resolveProvider" boolean,
       opt "triggerCharacters" (list text), opt "allCommitCharacters" (list text),
       workDoneProgress, opt "completionItem" (record [opt "labelDetailsSupport" boolean])]),
     opt "signatureHelpProvider" (object [opt "triggerCharacters" (list text),
       opt "retriggerCharacters" (list text), workDoneProgress]),
     opt "definitionProvider" (provider []),
     opt "typeDefinitionProvider" (oneOf [boolean, registration]),
     opt "implementationProvider" (oneOf [boolean, registration]),
     opt "referencesProvider" (provider []),
     opt "documentHighlightProvider" (provider []),
     opt "documentSymbolProvider" (provider [opt "label" text]),
     opt "workspaceSymbolProvider" (provider [opt "resolveProvider" boolean]),
     opt "codeActionProvider" (provider [opt "codeActionKinds" (list text),
       opt "resolveProvider" boolean]),
     opt "codeLensProvider" (record [opt "resolveProvider" boolean]),
     opt "documentFormattingProvider" (provider []),
     opt "documentRangeFormattingProvider" (provider []),
     opt "documentOnTypeFormattingProvider" (record [field "firstTriggerCharacter" text,
       opt "moreTriggerCharacter" (list text)]),
     opt "renameProvider" (provider [opt "prepareProvider" boolean]),
     opt "documentLinkProvider" (object [opt "resolveProvider" boolean, workDoneProgress]),
     opt "colorProvider" (oneOf [boolean, record [], registration]),
     opt "foldingRangeProvider" (oneOf [boolean, record [], registration]),
     opt "declarationProvider" (oneOf [boolean, object [workDoneProgress,
       orNull "documentSelector" documentSelector, opt "id" text], object [workDoneProgress]]),
     opt "executeCommandProvider" (object [field "commands" (list text), workDoneProgress]),
     opt "workspace" workspaceCapabilities,
     opt "callHierarchyProvider" (provider []),
     opt "semanticTokensProvider" (oneOf [object semanticTokensOptions,
       object (semanticTokensOptions ++ [orNull "documentSelector" documentSelector, opt "id" text])]),
     opt "monikerProvider" (provider []),
     opt "linkedEditingRangeProvider" (provider []),
     opt "inlineValueProvider" (provider []),
     opt "inlayHintProvider" (provider [opt "resolveProvider" boolean]),
     opt "diagnosticProvider" (object diagnosticOptions),
     opt "experimental" any]

end LanguageClient.Schema
