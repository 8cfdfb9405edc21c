import LanguageClient.Fault
import LanguageClient.Text.Utf8
import LanguageClient.Uri
/-!
Files, directories and what a path leads to. A path is followed name by name from the root or from
the working directory; only a directory leads further, and two dots lead back out of the one that
has been reached.
-/
namespace LanguageClient.Files

inductive Entry where
  | missing
  | directory
  | file (bytes : List UInt8)
  deriving DecidableEq, Repr

namespace Entry

def noSuchFile : String := "No such file or directory (os error 2)"

def notDirectory : String := "Not a directory (os error 20)"

def text : Entry → Outcome String
  | missing => .error (.io noSuchFile)
  | directory => .error (.io "Is a directory (os error 21)")
  | file bytes =>
    match Text.Utf8.decode bytes with
    | .ok cs => .ok (String.ofList cs)
    | .error _ => .error (.io "stream did not contain valid UTF-8")

end Entry

/-- The names that lead from the root to a place. -/
abbrev Route := List (List Char)

structure Tree where
  /-- What there is, place by place; the directories on the way need no entries of their own. -/
  entries : List (Route × Entry)
  workingDirectory : Route

namespace Route

def path (r : Route) : String := String.ofList ('/' :: ['/'].intercalate r)

end Route

namespace Tree

def entryAt (t : Tree) (r : Route) : Entry :=
  match t.entries.lookup r with
  | some e => e
  | none => if r.isEmpty || t.entries.any (fun e => r.isPrefixOf e.1) then .directory else .missing

/-- One name further. -/
def step (t : Tree) (r : Route) (name : List Char) : Except String Route :=
  match t.entryAt r with
  | .missing => .error Entry.noSuchFile
  | .file _ => .error Entry.notDirectory
  | .directory =>
    if name = [] ∨ name = ['.'] then .ok r
    else if name = ['.', '.'] then .ok r.dropLast
    else if t.entryAt (r ++ [name]) = .missing then .error Entry.noSuchFile
    else .ok (r ++ [name])

/-- The place that a path leads to, or why it leads nowhere. -/
def resolve (t : Tree) (path : String) : Except String Route :=
  match path.toList with
  | [] => .error Entry.noSuchFile
  | '/' :: rest => (Uri.pieces '/' rest).foldlM t.step []
  | cs => (Uri.pieces '/' cs).foldlM t.step t.workingDirectory

def lookup (t : Tree) (path : String) : Entry :=
  match t.resolve path with
  | .ok r => t.entryAt r
  | .error _ => .missing

end Tree

end LanguageClient.Files
