import LanguageClient.Json.Reader
/-!
Strings of TOML: basic and literal, on one line or on several. A reader gets what follows the
opening quotes and gives the characters of the string and what follows the closing quotes.
-/
namespace LanguageClient.Toml

/-- Characters that may stand as they are in strings and comments: no control characters but the
tab. -/
def isPlain (c : Char) : Bool := c == '\t' || (0x20 ≤ c.toNat && c.toNat != 0x7F)

def isBlank (c : Char) : Bool := c == ' ' || c == '\t'

def skipBlanks (s : List Char) : List Char := s.dropWhile isBlank

/-- Strips a line feed, which a carriage return may precede. -/
def newline? : List Char → Option (List Char)
  | '\n' :: rest => some rest
  | '\r' :: '\n' :: rest => some rest
  | _ => none

/-- The character with a given number, if there is one. -/
def scalar? (n : Nat) : Option Char := if n.isValidChar then some (Char.ofNat n) else none

def hexChar? (digits : List Char) : Option Char :=
  (digits.mapM Json.hexDigit?).bind fun ns => scalar? (ns.foldl (fun n d => 16 * n + d) 0)

def shortEscape? : Char → Option Char
  | 'b' => some '\x08'
  | 't' => some '\t'
  | 'n' => some '\n'
  | 'f' => some '\x0c'
  | 'r' => some '\r'
  | 'e' => some '\x1b'
  | '"' => some '"'
  | '\\' => some '\\'
  | _ => none

/-- Puts a character before what was read. -/
def before (c : Char) (read : Option (List Char × List Char)) : Option (List Char × List Char) :=
  read.map (fun (cs, rest) => (c :: cs, rest))

def basic? : List Char → Option (List Char × List Char)
  | [] => none
  | '"' :: rest => some ([], rest)
  | '\\' :: 'x' :: a :: b :: rest => (hexChar? [a, b]).bind (before · (basic? rest))
  | '\\' :: 'u' :: a :: b :: c :: d :: rest =>
    (hexChar? [a, b, c, d]).bind (before · (basic? rest))
  | '\\' :: 'U' :: a :: b :: c :: d :: e :: f :: g :: h :: rest =>
    (hexChar? [a, b, c, d, e, f, g, h]).bind (before · (basic? rest))
  | '\\' :: c :: rest => (shortEscape? c).bind (before · (basic? rest))
  | c :: rest => if isPlain c then before c (basic? rest) else none

def literal? : List Char → Option (List Char × List Char)
  | [] => none
  | '\'' :: rest => some ([], rest)
  | c :: rest => if isPlain c then before c (literal? rest) else none

/-- A backslash before the end of a line takes away all blanks and line ends that follow it. -/
def endsLine (s : List Char) : Bool := (newline? (skipBlanks s)).isSome

/-- A basic string on several lines; `trimming` while a backslash takes line ends away. Up to two
quotes may stand before the closing ones. -/
def basicLines? (trimming : Bool) : List Char → Option (List Char × List Char)
  | [] => none
  | '"' :: '"' :: '"' :: '"' :: '"' :: rest => some (['"', '"'], rest)
  | '"' :: '"' :: '"' :: '"' :: rest => some (['"'], rest)
  | '"' :: '"' :: '"' :: rest => some ([], rest)
  | '\\' :: 'x' :: a :: b :: rest => (hexChar? [a, b]).bind (before · (basicLines? false rest))
  | '\\' :: 'u' :: a :: b :: c :: d :: rest =>
    (hexChar? [a, b, c, d]).bind (before · (basicLines? false rest))
  | '\\' :: 'U' :: a :: b :: c :: d :: e :: f :: g :: h :: rest =>
    (hexChar? [a, b, c, d, e, f, g, h]).bind (before · (basicLines? false rest))
  | '\\' :: c :: rest =>
    match shortEscape? c with
    | some u => before u (basicLines? false rest)
    | none => if endsLine (c :: rest) then basicLines? true (c :: rest) else none
  | '\r' :: '\n' :: rest =>
    if trimming then basicLines? true rest else before '\r' (before '\n' (basicLines? false rest))
  | c :: rest =>
    if trimming && (isBlank c || c == '\n') then basicLines? true rest
    else if isPlain c || c == '\n' then before c (basicLines? false rest)
    else none

def literalLines? : List Char → Option (List Char × List Char)
  | [] => none
  | '\'' :: '\'' :: '\'' :: '\'' :: '\'' :: rest => some (['\'', '\''], rest)
  | '\'' :: '\'' :: '\'' :: '\'' :: rest => some (['\''], rest)
  | '\'' :: '\'' :: '\'' :: rest => some ([], rest)
  | '\r' :: '\n' :: rest => before '\r' (before '\n' (literalLines? rest))
  | c :: rest => if isPlain c || c == '\n' then before c (literalLines? rest) else none

/-- A line end right after the opening quotes does not count. -/
def skipFirstNewline (s : List Char) : List Char := (newline? s).getD s

def string? : List Char → Option (List Char × List Char)
  | '"' :: '"' :: '"' :: rest => basicLines? false (skipFirstNewline rest)
  | '\'' :: '\'' :: '\'' :: rest => literalLines? (skipFirstNewline rest)
  | '"' :: rest => basic? rest
  | '\'' :: rest => literal? rest
  | _ => none

end LanguageClient.Toml
