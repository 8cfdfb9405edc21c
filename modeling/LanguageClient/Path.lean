import LanguageClient.Fault
import LanguageClient.Uri
/-!
Paths with slashes: components, the name of the file, its extension and the language that it
suggests, and the `file` URI of a path. Empty components and dots count for nothing, except that
a path may start with a dot.
-/
namespace LanguageClient.Path

inductive Component where
  | root
  | current
  | parent
  | normal (name : List Char)
  deriving DecidableEq, Repr

/-- The components of the pieces between slashes; a dot counts only as the first piece. -/
def pieces (first : Bool) : List (List Char) → List Component
  | [] => []
  | p :: ps =>
    let rest := pieces false ps
    if p = [] then rest
    else if p = ['.'] then (if first then .current :: rest else rest)
    else if p = ['.', '.'] then .parent :: rest
    else .normal p :: rest

def components (s : List Char) : List Component :=
  match s with
  | '/' :: rest => .root :: pieces false (Uri.pieces '/' rest)
  | s => pieces true (Uri.pieces '/' s)

/-- The last component, when it is a name. -/
def fileName? (s : List Char) : Option (List Char) :=
  match (components s).getLast? with
  | some (.normal name) => some name
  | _ => none

/-- The text after the last dot of a name, unless the name starts with that dot. -/
def extension? (s : List Char) : Option (List Char) :=
  (fileName? s).bind fun name =>
  match name.reverse.takeWhile (· != '.'), name.reverse.dropWhile (· != '.') with
  | ext, _ :: _ :: _ => some ext.reverse
  | _, _ => none

def languages : List (String × List String) :=
  [("rust", ["rs"]), ("python", ["py", "pyw", "pyi"]), ("javascript", ["js", "mjs", "cjs"]),
   ("typescript", ["ts", "mts", "cts"]), ("typescriptreact", ["tsx"]),
   ("javascriptreact", ["jsx"]), ("go", ["go"]), ("c", ["c", "h"]),
   ("cpp", ["cpp", "cc", "cxx", "hpp", "hh", "hxx"]), ("java", ["java"]), ("lua", ["lua"]),
   ("shellscript", ["sh", "bash", "zsh"]), ("json", ["json"]), ("toml", ["toml"]),
   ("yaml", ["yaml", "yml"]), ("markdown", ["md", "markdown"])]

/-- The language identifier that an extension stands for. -/
def languageOf (extension : List Char) : String :=
  match languages.find? (fun l => l.2.any (fun e => e.toList == extension)) with
  | some (name, _) => name
  | none => "plaintext"

/-- The language identifier of a document named by a path. -/
def detectLanguage (path : String) : String := languageOf ((extension? path.toList).getD [])

/-- The `file` URI of a path. The path is taken as it stands, so one that holds a character no URI
admits has none. -/
def toUri (path : String) : Outcome Uri :=
  let text := "file://" ++ path
  match Uri.ofString? text with
  | some uri => .ok uri
  | none => .error (.invalidUri text)

end LanguageClient.Path
