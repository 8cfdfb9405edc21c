/-!
URI references: the split of a text into scheme, authority, path, query and fragment, and the
characters that each part admits. A text that passes every check is a `Uri`.
-/
namespace LanguageClient

namespace Uri

/-- The parts of a reference as they stand in the text. -/
structure Parts where
  scheme : Option (List Char)
  authority : Option (List Char)
  path : List Char
  query : Option (List Char)
  fragment : Option (List Char)
  deriving DecidableEq, Repr

/-- The text before the first character of a kind, and the text from it on. -/
def cutAt (stop : Char → Bool) (s : List Char) : List Char × List Char :=
  (s.takeWhile (fun c => !stop c), s.dropWhile (fun c => !stop c))

/-- Splits where the delimiters stand, whatever the parts hold. -/
def split (s : List Char) : Parts :=
  let (head, rest) := cutAt (fun c => c == ':' || c == '/' || c == '?' || c == '#') s
  let (scheme, s) := match head, rest with
    | _ :: _, ':' :: rest => (some head, rest)
    | _, _ => (none, s)
  let (authority, s) := match s with
    | '/' :: '/' :: rest =>
      let (a, rest) := cutAt (fun c => c == '/' || c == '?' || c == '#') rest
      (some a, rest)
    | s => (none, s)
  let (path, s) := cutAt (fun c => c == '?' || c == '#') s
  let (query, s) := match s with
    | '?' :: rest =>
      let (q, rest) := cutAt (fun c => c == '#') rest
      (some q, rest)
    | s => (none, s)
  let fragment := match s with
    | '#' :: rest => some rest
    | _ => none
  ⟨scheme, authority, path, query, fragment⟩

def isUnreserved (c : Char) : Bool := c.isAlphanum || "-._~".contains c

def isSubDelim (c : Char) : Bool := "!$&'()*+,;=".contains c

def isHex (c : Char) : Bool := c.isDigit || ('a' ≤ c && c ≤ 'f') || ('A' ≤ c && c ≤ 'F')

/-- Characters of a kind and percent escapes of two hexadecimal digits. -/
def encoded (ok : Char → Bool) : List Char → Bool
  | [] => true
  | '%' :: a :: b :: rest => isHex a && isHex b && encoded ok rest
  | c :: rest => c != '%' && ok c && encoded ok rest

def isPathChar (c : Char) : Bool := isUnreserved c || isSubDelim c || c == ':' || c == '@' || c == '/'

def isTailChar (c : Char) : Bool := isPathChar c || c == '?'

/-- A letter, then letters, digits and three signs. -/
def schemeOk : List Char → Bool
  | [] => false
  | c :: rest => c.isAlpha && rest.all (fun c => c.isAlphanum || "+-.".contains c)

/-- A number from 0 to 255 without leading zeros. -/
def decimalOctet (s : List Char) : Bool :=
  s.all Char.isDigit &&
    match s with
    | [_] => true
    | [a, _] => a != '0'
    | ['1', _, _] => true
    | ['2', b, c] => b < '5' || (b == '5' && c ≤ '5')
    | _ => false

/-- The texts between the occurrences of a character. -/
def pieces (sep : Char) : List Char → List (List Char)
  | [] => [[]]
  | c :: rest =>
    match pieces sep rest with
    | [] => [[]]
    | p :: ps => if c = sep then [] :: p :: ps else (c :: p) :: ps

def ipv4 (s : List Char) : Bool :=
  let octets := pieces '.' s
  octets.length == 4 && octets.all decimalOctet

/-- The number of 16-bit groups in a list of pieces, of which the last may be an IPv4 address when
`tail` holds. -/
def groups? (tail : Bool) : List (List Char) → Option Nat
  | [] => some 0
  | [p] =>
    if !p.isEmpty && p.length ≤ 4 && p.all isHex then some 1
    else if tail && ipv4 p then some 2
    else none
  | p :: ps =>
    if !p.isEmpty && p.length ≤ 4 && p.all isHex then (groups? tail ps).map (· + 1) else none

/-- The texts around the first double colon. -/
def aroundGap : List Char → Option (List Char × List Char)
  | [] => none
  | [_] => none
  | ':' :: ':' :: rest => some ([], rest)
  | c :: rest => (aroundGap rest).map (fun (l, r) => (c :: l, r))

def side (s : List Char) : List (List Char) := if s.isEmpty then [] else pieces ':' s

/-- Eight groups, or fewer around one double colon that stands for the rest. -/
def ipv6 (s : List Char) : Bool :=
  match aroundGap s with
  | none => groups? true (side s) == some 8
  | some (l, r) =>
    match groups? false (side l), groups? true (side r) with
    | some a, some b => a + b ≤ 7
    | _, _ => false

/-- A registered name or an address in brackets, then an optional port of digits. -/
def hostPort (s : List Char) : Bool :=
  match s with
  | '[' :: rest =>
    let (literal, rest) := cutAt (· == ']') rest
    ipv6 literal &&
      match rest with
      | [']'] => true
      | ']' :: ':' :: port => port.all Char.isDigit
      | _ => false
  | s =>
    let (name, rest) := cutAt (· == ':') s
    encoded (fun c => isUnreserved c || isSubDelim c) name && (rest.drop 1).all Char.isDigit

def userInfoOk (s : List Char) : Bool := encoded (fun c => isUnreserved c || isSubDelim c || c == ':') s

/-- User information before the first at sign, and a host with its port. -/
def authorityOk (s : List Char) : Bool :=
  let (user, rest) := cutAt (· == '@') s
  match rest with
  | '@' :: host => userInfoOk user && hostPort host
  | _ => hostPort s

/-- Without a scheme and an authority, the first segment of a path holds no colon. -/
def Parts.pathOk (p : Parts) : Bool :=
  encoded isPathChar p.path &&
    (p.scheme.isSome || p.authority.isSome || !(p.path.takeWhile (· != '/')).contains ':')

def Parts.ok (p : Parts) : Bool :=
  p.scheme.all schemeOk && p.authority.all authorityOk && p.pathOk &&
    p.query.all (encoded isTailChar) && p.fragment.all (encoded isTailChar)

/-- A text is a URI or a relative reference. -/
def isReference (s : List Char) : Bool := (split s).ok

end Uri

/-- A valid URI reference. Two of them are equal when their texts are. -/
structure Uri where
  text : String
  valid : Uri.isReference text.toList = true
  deriving DecidableEq

namespace Uri

def ofString? (s : String) : Option Uri :=
  if h : isReference s.toList = true then some ⟨s, h⟩ else none

theorem ofString?_text {s : String} {u : Uri} (h : ofString? s = some u) : u.text = s := by
  unfold ofString? at h
  split at h
  · cases h; rfl
  · cases h

end Uri

end LanguageClient
