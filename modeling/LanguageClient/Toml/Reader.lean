import LanguageClient.Toml.Scalars
import LanguageClient.Toml.Strings
import LanguageClient.Toml.Table
/-!
Reading TOML texts. A text is a sequence of lines, each of which may hold a header or a key with its
value; the headers and keys are then put together to one table.
-/
namespace LanguageClient.Toml
open Json

/-- Skips blanks, line ends and comments; a comment must not hold control characters. -/
def trivia? (inComment : Bool) : List Char → Option (List Char)
  | [] => some []
  | '\n' :: rest => trivia? false rest
  | '\r' :: '\n' :: rest => trivia? false rest
  | c :: rest =>
    if inComment then if isPlain c then trivia? true rest else none
    else if c = '#' then trivia? true rest
    else if isBlank c then trivia? false rest
    else some (c :: rest)

/-- Skips blanks and a comment up to the end of a line, which the text may lack at its end. -/
def lineEnd? (inComment : Bool) : List Char → Option (List Char)
  | [] => some []
  | '\n' :: rest => some rest
  | '\r' :: '\n' :: rest => some rest
  | c :: rest =>
    if inComment then if isPlain c then lineEnd? true rest else none
    else if c = '#' then lineEnd? true rest
    else if isBlank c then lineEnd? false rest
    else none

def isBareKey (c : Char) : Bool := c.isAlphanum || c == '_' || c == '-'

/-- One word of a key, bare or quoted. -/
def simpleKey? (s : List Char) : Option (String × List Char) :=
  match s with
  | '"' :: rest => (basic? rest).map fun (cs, rest) => (String.ofList cs, rest)
  | '\'' :: rest => (literal? rest).map fun (cs, rest) => (String.ofList cs, rest)
  | s =>
    match s.takeWhile isBareKey with
    | [] => none
    | cs => some (String.ofList cs, s.dropWhile isBareKey)

/-- Words with dots between them, and blanks around the dots: all but the last, the last, and what
follows the blanks after it. Every word takes a character, so the length of the text bounds their
number. -/
def words? : Nat → List Char → Option ((List String × String) × List Char)
  | 0, _ => none
  | fuel + 1, s =>
    match simpleKey? s with
    | none => none
    | some (word, rest) =>
      match skipBlanks rest with
      | '.' :: rest =>
        (words? fuel (skipBlanks rest)).map fun (key, rest) => ((word :: key.1, key.2), rest)
      | rest => some (([], word), rest)

/-- The most words of a key, and of a header. -/
def maxWords : Nat := 80

/-- A key of not too many words. -/
def key? (s : List Char) : Option ((List String × String) × List Char) :=
  (words? s.length s).filter fun (key, _) => key.1.length < maxWords

/-- A key, the equals sign and what follows the blanks after it. -/
def assigned? (s : List Char) : Option ((List String × String) × List Char) :=
  match key? s with
  | some (key, '=' :: rest) => some (key, skipBlanks rest)
  | _ => none

def isAtomChar (c : Char) : Bool := c.isAlphanum || c == '_' || c == '-' || c == '+' || c == '.' || c == ':'

/-- A blank may stand between a date and a time. -/
def spansBlank (word rest : List Char) : Bool :=
  (match date? word with
    | some (_, []) => true
    | _ => false) &&
  match rest with
  | ' ' :: c :: _ => c.isDigit
  | _ => false

/-- An unquoted value. -/
def atomAt? (s : List Char) : Option (Value × List Char) :=
  let word := s.takeWhile isAtomChar
  let rest := s.dropWhile isAtomChar
  if spansBlank word rest then
    let rest := rest.drop 1
    (atom? (word ++ ' ' :: rest.takeWhile isAtomChar)).map fun v => (v, rest.dropWhile isAtomChar)
  else (atom? word).map fun v => (v, rest)

/-- The items of an array after its opening bracket; a comma may follow the last one. -/
def items? (item : List Char → Option (Value × List Char)) :
    Nat → List Char → Option (List Value × List Char)
  | 0, _ => none
  | fuel + 1, s =>
    match trivia? false s with
    | some (']' :: rest) => some ([], rest)
    | some s =>
      match item s with
      | none => none
      | some (v, rest) =>
        match trivia? false rest with
        | some (',' :: rest) => (items? item fuel rest).map fun (vs, rest) => (v :: vs, rest)
        | some (']' :: rest) => some ([v], rest)
        | _ => none
    | none => none

/-- The pairs of an inline table after its opening brace; a comma may follow the last one. -/
def pairs? (item : List Char → Option (Value × List Char)) :
    Nat → List Char → Option (List (List String × String × Value) × List Char)
  | 0, _ => none
  | fuel + 1, s =>
    match trivia? false s with
    | some ('}' :: rest) => some ([], rest)
    | some s =>
      match assigned? s with
      | none => none
      | some ((path, key), rest) =>
        match item rest with
        | none => none
        | some (v, rest) =>
          match trivia? false rest with
          | some (',' :: rest) =>
            (pairs? item fuel rest).map fun (ps, rest) => ((path, key, v) :: ps, rest)
          | some ('}' :: rest) => some ([(path, key, v)], rest)
          | _ => none
    | none => none

/-- The value of an inline table, to which nothing can be added. -/
def inlineTable? (pairs : List (List String × String × Value)) : Option Value :=
  (Entries.insertAll pairs []).map fun es => (Node.table .header es).toValue

/-- A value that opens at most `room` arrays and inline tables inside one another. -/
def value? : Nat → List Char → Option (Value × List Char)
  | room, s =>
    match s with
    | '"' :: _ | '\'' :: _ => (string? s).map fun (cs, rest) => (.str (String.ofList cs), rest)
    | '[' :: rest =>
      match room with
      | 0 => none
      | room + 1 => (items? (value? room) (rest.length + 1) rest).map fun (vs, rest) => (.arr vs, rest)
    | '{' :: rest =>
      match room with
      | 0 => none
      | room + 1 =>
        match pairs? (value? room) (rest.length + 1) rest with
        | some (pairs, rest) => (inlineTable? pairs).map fun v => (v, rest)
        | none => none
    | s => atomAt? s

/-- The deepest nesting of arrays and inline tables. -/
def maxDepth : Nat := 80

inductive Line where
  | blank
  | pair (path : List String) (key : String) (v : Value)
  | header (path : List String) (key : String)
  | element (path : List String) (key : String)

def header? (s : List Char) : Option (Line × List Char) :=
  match s with
  | '[' :: '[' :: rest =>
    match key? (skipBlanks rest) with
    | some (key, ']' :: ']' :: rest) => some (.element key.1 key.2, rest)
    | _ => none
  | '[' :: rest =>
    match key? (skipBlanks rest) with
    | some (key, ']' :: rest) => some (.header key.1 key.2, rest)
    | _ => none
  | _ => none

def assignment? (s : List Char) : Option (Line × List Char) :=
  match assigned? s with
  | some ((path, key), rest) =>
    (value? maxDepth rest).map fun (v, rest) => (.pair path key v, rest)
  | none => none

/-- What a line says, and what follows it before the line ends. -/
def line? (s : List Char) : Option (Line × List Char) :=
  match skipBlanks s with
  | [] | '\n' :: _ | '\r' :: _ | '#' :: _ => some (.blank, skipBlanks s)
  | '[' :: _ => header? (skipBlanks s)
  | s => assignment? s

def lines? : Nat → List Char → Option (List Line)
  | _, [] => some []
  | 0, _ => none
  | fuel + 1, s =>
    match line? s with
    | none => none
    | some (line, rest) =>
      match lineEnd? false rest with
      | none => none
      | some rest => (lines? fuel rest).map (line :: ·)

/-- The pairs up to the next header, and the lines from there on. -/
def block : List Line → List (List String × String × Value) × List Line
  | [] => ([], [])
  | .blank :: rest => block rest
  | .pair path key v :: rest =>
    let (pairs, rest) := block rest
    ((path, key, v) :: pairs, rest)
  | line :: rest => ([], line :: rest)

/-- Adds the tables that lines define to those that are there. -/
def build : List Line → Entries → Option Entries
  | [], es => some es
  | .header path key :: rest, es =>
    match Entries.within (Entries.define key (block rest).1) path es with
    | some es => build rest es
    | none => none
  | .element path key :: rest, es =>
    match Entries.within (Entries.append key (block rest).1) path es with
    | some es => build rest es
    | none => none
  | _ :: rest, es => build rest es

/-- A text may start with a byte order mark. -/
def skipMark (s : List Char) : List Char :=
  match s with
  | '\uFEFF' :: rest => rest
  | s => s

/-- The table that a text describes. -/
def read? (text : String) : Option Value :=
  let s := skipMark text.toList
  (lines? (s.length + 1) s).bind fun lines =>
  (Entries.insertAll (block lines).1 []).bind fun es =>
  (build lines es).map fun es => (Node.table .header es).toValue

end LanguageClient.Toml
