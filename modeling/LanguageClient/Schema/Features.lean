import LanguageClient.Schema.Results
/-!
The language features: the method of each, and the shapes of its parameters and its result.
-/
namespace LanguageClient.Schema
open Shape Member

inductive Feature where
  | completion
  | hover
  | signatureHelp
  | definition
  | references
  | rename
  | documentSymbol
  | formatting
  | rangeFormatting
  | semanticTokensFull
  | semanticTokensRange
  deriving DecidableEq, Repr

namespace Feature

def all : List Feature :=
  [completion, hover, signatureHelp, definition, references, rename, documentSymbol, formatting,
   rangeFormatting, semanticTokensFull, semanticTokensRange]

def method : Feature → String
  | completion => "textDocument/completion"
  | hover => "textDocument/hover"
  | signatureHelp => "textDocument/signatureHelp"
  | definition => "textDocument/definition"
  | references => "textDocument/references"
  | rename => "textDocument/rename"
  | documentSymbol => "textDocument/documentSymbol"
  | formatting => "textDocument/formatting"
  | rangeFormatting => "textDocument/rangeFormatting"
  | semanticTokensFull => "textDocument/semanticTokens/full"
  | semanticTokensRange => "textDocument/semanticTokens/range"

/-- A document and a position in it. -/
def placed : List Member := [textDocument, field "position" position]

/-- Layout options, and further ones that the server may know. -/
def formattingOptions : Shape :=
  objectWith [field "tabSize" nat32, field "insertSpaces" boolean,
      opt "trimTrailingWhitespace" boolean, opt "insertFinalNewline" boolean,
      opt "trimFinalNewlines" boolean]
    (oneOf [boolean, int32, text])

def members : Feature → Shape
  | completion =>
    object (placed ++ [workDone, partialResult,
      opt "context" (record [field "triggerKind" int32, opt "triggerCharacter" text])])
  | hover => object (placed ++ [workDone])
  | signatureHelp =>
    object (placed ++ [workDone,
      opt "context" (record [field "triggerKind" int32, opt "triggerCharacter" text,
        field "isRetrigger" boolean, opt "activeSignatureHelp" Schema.signatureHelp])])
  | definition => object (placed ++ [workDone, partialResult])
  | references =>
    object (placed ++ [workDone, partialResult,
      field "context" (record [field "includeDeclaration" boolean])])
  | rename => object (placed ++ [field "newName" text, workDone])
  | documentSymbol => object [textDocument, workDone, partialResult]
  | formatting => object [textDocument, field "options" formattingOptions, workDone]
  | rangeFormatting =>
    object [textDocument, field "range" range, field "options" formattingOptions, workDone]
  | semanticTokensFull => object [textDocument, workDone, partialResult]
  | semanticTokensRange => object [textDocument, field "range" range, workDone, partialResult]

def params (f : Feature) : Shape := sorted f.members

def result : Feature → Shape
  | completion => Shape.orNull Schema.completion
  | hover => Shape.orNull Schema.hover
  | signatureHelp => Shape.orNull Schema.signatureHelp
  | definition => Shape.orNull Schema.definition
  | references => Shape.orNull Schema.references
  | rename => Shape.orNull workspaceEdit
  | documentSymbol => Shape.orNull documentSymbols
  | formatting | rangeFormatting => Shape.orNull textEdits
  | semanticTokensFull | semanticTokensRange => Shape.orNull semanticTokens

end Feature

end LanguageClient.Schema
