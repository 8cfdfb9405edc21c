import LanguageClient.Json.Numeral
/-!
Reading JSON texts. The grammar is strict: four blanks, no leading zeros, no lone surrogate
escapes, no raw control characters, and at most 127 arrays and objects inside one another.
-/
namespace LanguageClient.Json

def isBlank (c : Char) : Bool := c == ' ' || c == '\t' || c == '\n' || c == '\r'

def skipBlanks (s : List Char) : List Char := s.dropWhile isBlank

def hexDigit? (c : Char) : Option Nat :=
  if '0' ≤ c ∧ c ≤ '9' then some (c.toNat - '0'.toNat)
  else if 'a' ≤ c ∧ c ≤ 'f' then some (c.toNat - 'a'.toNat + 10)
  else if 'A' ≤ c ∧ c ≤ 'F' then some (c.toNat - 'A'.toNat + 10)
  else none

def hex4? (a b c d : Char) : Option Nat :=
  match hexDigit? a, hexDigit? b, hexDigit? c, hexDigit? d with
  | some a, some b, some c, some d => some (4096 * a + 256 * b + 16 * c + d)
  | _, _, _, _ => none

/-- The character of a one-letter escape. -/
def shortEscape? : Char → Option Char
  | '"' => some '"'
  | '\\' => some '\\'
  | '/' => some '/'
  | 'b' => some '\x08'
  | 'f' => some '\x0c'
  | 'n' => some '\n'
  | 'r' => some '\r'
  | 't' => some '\t'
  | _ => none

/-- The character named by a code unit that is no surrogate, or by a pair of surrogates. -/
def unit? (n : Nat) : Option Char :=
  if 0xD800 ≤ n ∧ n ≤ 0xDFFF then none else some (Char.ofNat n)

def surrogates? (high low : Nat) : Option Char :=
  if 0xD800 ≤ high ∧ high ≤ 0xDBFF ∧ 0xDC00 ≤ low ∧ low ≤ 0xDFFF then
    some (Char.ofNat (0x10000 + (high - 0xD800) * 0x400 + (low - 0xDC00)))
  else none

/-- The characters up to the closing quote, decoded, and what follows it. -/
def stringBody? : List Char → Option (List Char × List Char)
  | [] => none
  | '"' :: rest => some ([], rest)
  | '\\' :: 'u' :: a :: b :: c :: d :: '\\' :: 'u' :: e :: f :: g :: h :: rest =>
    match hex4? a b c d with
    | none => none
    | some high =>
      match unit? high with
      | some u => (stringBody? ('\\' :: 'u' :: e :: f :: g :: h :: rest)).map
          (fun (cs, rest) => (u :: cs, rest))
      | none =>
        match (hex4? e f g h).bind (surrogates? high) with
        | some u => (stringBody? rest).map (fun (cs, rest) => (u :: cs, rest))
        | none => none
  | '\\' :: 'u' :: a :: b :: c :: d :: rest =>
    match (hex4? a b c d).bind unit? with
    | some u => (stringBody? rest).map (fun (cs, rest) => (u :: cs, rest))
    | none => none
  | '\\' :: c :: rest =>
    match shortEscape? c with
    | some u => (stringBody? rest).map (fun (cs, rest) => (u :: cs, rest))
    | none => none
  | c :: rest =>
    if c.toNat < 0x20 ∨ c = '\\' then none
    else (stringBody? rest).map (fun (cs, rest) => (c :: cs, rest))

/-- Strips a literal word. -/
def word? (w : String) (s : List Char) : Option (List Char) :=
  let cs := w.toList
  if cs.isPrefixOf s then some (s.drop cs.length) else none

/-- Entries with commas between them, one at least, up to what closes them. Every entry takes a character, so
the length of the text bounds their number. -/
def separated? {α : Type} (close : Char) (entry : List Char → Option (α × List Char)) :
    Nat → List Char → Option (List α × List Char)
  | 0, _ => none
  | fuel + 1, s =>
    match entry s with
    | none => none
    | some (e, rest) =>
      match skipBlanks rest with
      | [] => none
      | c :: rest =>
        if c = ',' then (separated? close entry fuel rest).map (fun (es, rest) => (e :: es, rest))
        else if c = close then some ([e], rest)
        else none

/-- The entries of an array or an object after its bracket or brace. -/
def entries? {α : Type} (close : Char) (entry : List Char → Option (α × List Char)) (s : List Char) :
    Option (List α × List Char) :=
  match skipBlanks s with
  | [] => none
  | c :: rest => if c = close then some ([], rest) else separated? close entry s.length s

/-- A key, its colon and its value. -/
def field? (item : List Char → Option (Value × List Char)) (s : List Char) :
    Option ((String × Value) × List Char) :=
  match skipBlanks s with
  | '"' :: rest =>
    match stringBody? rest with
    | none => none
    | some (key, rest) =>
      match skipBlanks rest with
      | ':' :: rest => (item rest).map (fun (v, rest) => ((String.ofList key, v), rest))
      | _ => none
  | _ => none

/-- A value that opens at most `room` arrays and objects inside one another. -/
def value? : Nat → List Char → Option (Value × List Char)
  | room, s =>
    match skipBlanks s with
    | '"' :: rest => (stringBody? rest).map (fun (cs, rest) => (.str (String.ofList cs), rest))
    | '[' :: rest =>
      match room with
      | 0 => none
      | room + 1 => (entries? ']' (value? room) rest).map (fun (vs, rest) => (.arr vs, rest))
    | '{' :: rest =>
      match room with
      | 0 => none
      | room + 1 => (entries? '}' (field? (value? room)) rest).map (fun (fs, rest) => (.obj fs, rest))
    | 'n' :: rest => (word? "ull" rest).map (fun rest => (.null, rest))
    | 't' :: rest => (word? "rue" rest).map (fun rest => (.bool true, rest))
    | 'f' :: rest => (word? "alse" rest).map (fun rest => (.bool false, rest))
    | s =>
      match Numeral.read? s with
      | none => none
      | some (n, rest) => n.value?.map (fun n => (.num n, rest))

/-- The deepest nesting of arrays and objects. -/
def maxDepth : Nat := 127

/-- The value of a whole text, its objects as written. -/
def readText? (text : String) : Option Value :=
  match value? maxDepth text.toList with
  | some (v, rest) => if skipBlanks rest = [] then some v else none
  | none => none

/-- The value of a whole text, canonical. -/
def read? (text : String) : Option Value := (readText? text).map Value.canonical

end LanguageClient.Json
