import LanguageClient.Fault
/-!
The report of a failure: what could not be done, and below it the causes, each caused by the next.
-/
namespace LanguageClient.CommandLine

structure Failure where
  context : String
  causes : List String
  deriving DecidableEq, Repr

namespace Failure

/-- A fault is followed by the fault that caused it. -/
def ofFault (context : String) (f : Fault) : Failure := ⟨context, f.message :: f.source?.toList⟩

/-- Puts a margin before every line but the first. -/
def indent (margin : String) (text : String) : List Char :=
  text.toList.flatMap (fun c => if c = '\n' then '\n' :: margin.toList else [c])

/-- A cause on lines of its own, numbered if it is one of several. -/
def causeChars (numbered : Bool) (n : Nat) (cause : String) : List Char :=
  if numbered then
    let number := (toString n).toList
    '\n' :: List.replicate (5 - number.length) ' ' ++ number ++ [':', ' '] ++
      indent "       " cause
  else '\n' :: "    ".toList ++ indent "    " cause

def causesChars (causes : List String) : List Char :=
  if causes.isEmpty then []
  else
    "\n\nCaused by:".toList ++
      (causes.mapIdx (fun n cause => causeChars (1 < causes.length) n cause)).flatten

/-- The report, which ends its last line. -/
def report (f : Failure) : String :=
  String.ofList ("Error: ".toList ++ f.context.toList ++ causesChars f.causes ++ ['\n'])

end Failure

end LanguageClient.CommandLine
