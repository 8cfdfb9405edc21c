import LanguageClient.Json.Numeral
/-!
Writing TOML texts. A table is written as its plain values under a header and then the tables
inside it, each under a header of its own; lists of tables are written element by element. Lists
of two or more items take one line per item, but not inside other values.
-/
namespace LanguageClient.Toml
open Json Decimal

/-- What decides how a string is written. -/
structure Traits where
  /-- The most quotes in a row, single and double. -/
  singles : Nat
  doubles : Nat
  backslash : Bool
  /-- A control character other than a tab and a line feed. -/
  control : Bool
  newline : Bool
  deriving DecidableEq, Repr

def longestRun (q : Char) (current best : Nat) : List Char → Nat
  | [] => max current best
  | c :: cs => if c = q then longestRun q (current + 1) best cs else longestRun q 0 (max current best) cs

def isControl (c : Char) : Bool := (c.toNat < 0x20 && c != '\t' && c != '\n') || c.toNat == 0x7F

def Traits.of (s : List Char) : Traits :=
  ⟨longestRun '\'' 0 0 s, longestRun '"' 0 0 s, s.contains '\\', s.any isControl, s.contains '\n'⟩

def upperHex (n : Nat) : Char := ((Nat.toDigits 16 n).headD '0').toUpper

def escape (c : Char) : List Char :=
  if c = '\x08' then ['\\', 'b']
  else if c = '\t' then ['\\', 't']
  else if c = '\n' then ['\\', 'n']
  else if c = '\x0c' then ['\\', 'f']
  else if c = '\r' then ['\\', 'r']
  else if c = '"' then ['\\', '"']
  else if c = '\\' then ['\\', '\\']
  else ['\\', 'u', '0', '0', upperHex (c.toNat / 16), upperHex (c.toNat % 16)]

def basicChar (c : Char) : List Char :=
  if c = '"' || c = '\\' || c.toNat < 0x20 || c.toNat == 0x7F then escape c else [c]

/-- A character of a basic string on several lines; quotes stand as they are unless there are too
many in a row. -/
def linesChar (quotes : Bool) (c : Char) : List Char :=
  if c = '\n' || (c = '"' && quotes) then [c] else basicChar c

def basic (s : List Char) : List Char := '"' :: s.flatMap basicChar ++ ['"']

def literal (s : List Char) : List Char := '\'' :: s ++ ['\'']

/-- A line end right after the opening quotes does not count, so one is put there to keep another. -/
def opening (quotes : List Char) (t : Traits) : List Char := if t.newline then quotes ++ ['\n'] else quotes

def basicLines (t : Traits) (s : List Char) : List Char :=
  opening ['"', '"', '"'] t ++ s.flatMap (linesChar (t.doubles ≤ 2)) ++ ['"', '"', '"']

def literalLines (t : Traits) (s : List Char) : List Char :=
  opening ['\'', '\'', '\''] t ++ s ++ ['\'', '\'', '\'']

/-- The plainest form that a string can have. -/
def stringChars (s : List Char) : List Char :=
  let t := Traits.of s
  if !t.control && !t.backslash && t.doubles == 0 && !t.newline then basic s
  else if !t.control && t.singles == 0 && !t.newline then literal s
  else if !t.control && !t.backslash && t.doubles ≤ 2 then basicLines t s
  else if !t.control && t.singles ≤ 2 then literalLines t s
  else if t.newline then basicLines t s
  else basic s

def isBare (c : Char) : Bool := c.isAlphanum || c == '_' || c == '-'

def keyChars (key : String) : List Char :=
  let s := key.toList
  let t := Traits.of s
  if !s.isEmpty && s.all isBare then s
  else if !t.control && !t.backslash && t.doubles == 0 && !t.newline then basic s
  else if !t.control && t.singles == 0 && !t.newline then literal s
  else basic s

def pathChars (path : List String) : List Char := ['.'].intercalate (path.map keyChars)

/-- All digits in place, with one fraction digit at least. -/
def realChars (x : Binary64) : List Char :=
  let n := shortest x
  let ds := Nat.toDigits 10 n.digits
  let places : Int := ds.length + n.exponent
  let body :=
    if 0 ≤ n.exponent then ds ++ List.replicate n.exponent.toNat '0' ++ ['.', '0']
    else if 0 < places then ds.take places.toNat ++ '.' :: ds.drop places.toNat
    else '0' :: '.' :: List.replicate (-places).toNat '0' ++ ds
  if x.negative then '-' :: body else body

mutual
/-- A value on one line; null has no written form. -/
def inlineChars : Value → List Char
  | .null => []
  | .bool true => ['t', 'r', 'u', 'e']
  | .bool false => ['f', 'a', 'l', 's', 'e']
  | .num (.int n) => Number.intChars n
  | .num (.real x) => realChars x
  | .str s => stringChars s.toList
  | .arr items => '[' :: inlineItems items ++ [']']
  | .obj [] => ['{', '}']
  | .obj fields => '{' :: ' ' :: inlineFields fields ++ [' ', '}']

def inlineItems : List Value → List Char
  | [] => []
  | [v] => inlineChars v
  | v :: vs => inlineChars v ++ ',' :: ' ' :: inlineItems vs

def inlineFields : List (String × Value) → List Char
  | [] => []
  | [(k, v)] => keyChars k ++ ' ' :: '=' :: ' ' :: inlineChars v
  | (k, v) :: fs => keyChars k ++ ' ' :: '=' :: ' ' :: inlineChars v ++ ',' :: ' ' :: inlineFields fs
end

/-- The value of a line of a table. -/
def blockChars : Value → List Char
  | .arr (a :: b :: rest) =>
    '[' :: '\n' :: (a :: b :: rest).flatMap (fun v =>
      [' ', ' ', ' ', ' '] ++ inlineChars v ++ [',', '\n']) ++ [']']
  | v => inlineChars v

/-- A table as it is written: its words, whether it is an element of a list, its plain values, and
whether there are tables inside it. -/
structure Section where
  path : List String
  element : Bool
  body : Fields
  hasTables : Bool

def isTable : Value → Bool
  | .obj _ => true
  | _ => false

/-- Written as a table, or as a list of tables. -/
def isTabular : Value → Bool
  | .obj _ => true
  | .arr (v :: vs) => isTable v && vs.all isTable
  | _ => false

def plain (fs : Fields) : Fields := fs.filter (fun f => !isTabular f.2)

mutual
/-- The sections of a value that stands at a path, perhaps as an element of a list there. -/
def sectionsOf (path : List String) (element : Bool) : Value → List Section
  | .obj fs =>
    ⟨path, element, plain fs, fs.any (fun f => isTabular f.2)⟩ :: sections path fs
  | .arr items => if isTabular (.arr items) then elements path items else []
  | _ => []

def sections (path : List String) : List (String × Value) → List Section
  | [] => []
  | (k, v) :: rest => sectionsOf (path ++ [k]) false v ++ sections path rest

def elements (path : List String) : List Value → List Section
  | [] => []
  | v :: rest => sectionsOf path true v ++ elements path rest
end

def bodyChars (body : Fields) : List Char :=
  body.flatMap (fun f => keyChars f.1 ++ [' ', '=', ' '] ++ blockChars f.2 ++ ['\n'])

namespace Section

/-- A table that only holds other tables is implied by their headers. -/
def isWritten (s : Section) : Bool := s.element || !s.body.isEmpty || !s.hasTables

def headerChars (s : Section) : List Char :=
  if s.element then ['[', '['] ++ pathChars s.path ++ [']', ']', '\n']
  else '[' :: pathChars s.path ++ [']', '\n']

def chars (s : Section) : List Char := s.headerChars ++ bodyChars s.body

end Section

mutual
/-- There is a null somewhere in the value. -/
def hasNull : Value → Bool
  | .null => true
  | .arr items => anyNull items
  | .obj fields => anyFieldNull fields
  | _ => false

def anyNull : List Value → Bool
  | [] => false
  | v :: vs => hasNull v || anyNull vs

def anyFieldNull : List (String × Value) → Bool
  | [] => false
  | (_, v) :: fs => hasNull v || anyFieldNull fs
end

/-- The text of a table; there is none when the table holds a null. -/
def render? (fs : Fields) : Option String :=
  if anyFieldNull fs then none
  else
    let body := bodyChars (plain fs)
    let written := ((sections [] fs).filter Section.isWritten).map Section.chars
    some (String.ofList (['\n'].intercalate (if body.isEmpty then written else body :: written)))

end LanguageClient.Toml
