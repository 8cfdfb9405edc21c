import LanguageClient.Config.Settings
import LanguageClient.Path
/-!
The client's side of the `initialize` request: what it can do, and who it is.
-/
namespace LanguageClient.Session
open Json Config

def words (names : List String) : Value := .arr (names.map Value.str)

/-- Nothing is registered dynamically. -/
def static (fs : List (String × Value)) : Value :=
  Value.object (("dynamicRegistration", .bool false) :: fs)

def tokenTypes : List String :=
  ["namespace", "type", "class", "enum", "interface", "struct", "typeParameter", "parameter",
   "variable", "property", "enumMember", "function", "method", "macro", "keyword", "comment",
   "string", "number", "operator"]

def tokenModifiers : List String :=
  ["declaration", "definition", "readonly", "static", "deprecated", "documentation"]

/-- The capabilities that the client announces. -/
def clientCapabilities : Value :=
  Value.object
    [("general", .obj [("positionEncodings", words ["utf-16"])]),
     ("textDocument", Value.object
       [("synchronization", static [("didSave", .bool true)]),
        ("completion", static []),
        ("hover", static [("contentFormat", words ["markdown", "plaintext"])]),
        ("signatureHelp", static []),
        ("definition", static [("linkSupport", .bool true)]),
        ("references", static []),
        ("rename", static []),
        ("documentSymbol", static [("hierarchicalDocumentSymbolSupport", .bool true)]),
        ("formatting", static []),
        ("rangeFormatting", static []),
        ("semanticTokens", static
          [("requests", .obj [("full", .bool true), ("range", .bool true)]),
           ("tokenTypes", words tokenTypes), ("tokenModifiers", words tokenModifiers),
           ("formats", words ["relative"])]),
        ("publishDiagnostics", .obj [("relatedInformation", .bool true)])]),
     ("workspace", .obj [("workspaceFolders", .bool true)])]

def clientVersion : String := "0.1.0"

/-- The single folder of the workspace, named for the last component of its path. -/
def workspaceFolder (root : String) : Outcome Value :=
  (Path.toUri root).map fun uri =>
    .obj [("name", .str (((Path.fileName? root.toList).map String.ofList).getD "workspace")),
      ("uri", .str uri.text)]

/-- The parameters of `initialize`; a root without a URI has none. -/
def initializeParams (client : ClientSettings) (processId : Nat) : Outcome Value :=
  (client.root.mapM workspaceFolder).map fun folder =>
    .obj (Fields.present
      [("capabilities", some clientCapabilities),
       ("clientInfo", some (.obj [("name", .str client.name), ("version", .str clientVersion)])),
       ("initializationOptions", client.initializationOptions),
       ("processId", some (.nat processId)),
       ("rootUri", some .null),
       ("workspaceFolders", folder.map (fun f => .arr [f]))])

end LanguageClient.Session
