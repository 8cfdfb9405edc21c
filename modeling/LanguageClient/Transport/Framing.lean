import LanguageClient.Fault
import LanguageClient.Limits
import LanguageClient.Text.Blank
import LanguageClient.Text.Unsigned
import LanguageClient.Text.Utf8
/-!
Frames over a byte stream. A frame is a section of header lines, closed by a blank line, and a
body of as many bytes as the `Content-Length` header says. The reader skips blank lines before
the headers, passes over lines without a colon with a note, and lets the last of several equal
headers count. After a fault nothing more is read.
-/
namespace LanguageClient.Transport.Framing
open Text

/-- The largest body that is read. -/
def maxFrameBytes : Nat := 64 * 1024 * 1024

/-- The bytes of one frame. -/
def encode (frame : String) : List UInt8 :=
  let body := Utf8.bytes frame
  Utf8.bytes ("Content-Length: " ++ toString body.length ++ "\r\n\r\n") ++ body

def encodeAll (frames : List String) : List UInt8 := frames.flatMap encode

/-- The first line with its line feed, or all that is left, and what follows. -/
def splitLine (bs : List UInt8) : List UInt8 × List UInt8 :=
  match bs with
  | [] => ([], [])
  | b :: bs =>
    if b = 10 then ([b], bs)
    else
      let (line, rest) := splitLine bs
      (b :: line, rest)

/-- The name of a header, trimmed and in lower case, and its trimmed value. -/
structure Header where
  name : List Char
  value : List Char
  deriving DecidableEq, Repr

/-- A line is blank, a header, or neither. -/
inductive Line where
  | blank
  | header (h : Header)
  | malformed (text : List Char)
  deriving DecidableEq, Repr

def Line.ofChars (line : List Char) : Line :=
  if line = ['\r', '\n'] ∨ line = ['\n'] then .blank
  else
    let text := trimEnd line
    if ':' ∈ text then
      let name := text.takeWhile (· ≠ ':')
      let value := (text.dropWhile (· ≠ ':')).drop 1
      .header ⟨(trim name).map Char.toLower, trim value⟩
    else .malformed (trim line)

/-- How a header section ends. -/
inductive Section where
  | complete (headers : List Header) (rest : List UInt8)
  | absent
  | broken (f : Fault)
  deriving Repr

private theorem splitLine_length (bs : List UInt8) :
    (splitLine bs).1.length + (splitLine bs).2.length = bs.length := by
  induction bs with
  | nil => rfl
  | cons b bs ih =>
    rw [splitLine]
    split
    · simp; omega
    · simp only [List.length_cons]; omega

private theorem splitLine_ne_nil {b : UInt8} {bs : List UInt8} : (splitLine (b :: bs)).1 ≠ [] := by
  rw [splitLine]
  split <;> simp

theorem splitLine_rest_length {b : UInt8} {bs : List UInt8} :
    (splitLine (b :: bs)).2.length < (b :: bs).length := by
  have h := splitLine_length (b :: bs)
  have h' := List.length_pos_iff.mpr (@splitLine_ne_nil b bs)
  omega

/-- Reads header lines after those already found; also the notes about malformed lines. -/
def readSection (found : List Header) : List UInt8 → List String × Section
  | [] =>
    if found.isEmpty then ([], .absent)
    else ([], .broken (.transport "stream ended inside a message header"))
  | b :: bs =>
    match Utf8.decode (splitLine (b :: bs)).1 with
    | .error _ => ([], .broken (.io "stream did not contain valid UTF-8"))
    | .ok line =>
      match Line.ofChars line with
      | .blank =>
        if found.isEmpty then readSection found (splitLine (b :: bs)).2
        else ([], .complete found (splitLine (b :: bs)).2)
      | .header h => readSection (found ++ [h]) (splitLine (b :: bs)).2
      | .malformed text =>
        let (notes, result) := readSection found (splitLine (b :: bs)).2
        (("Malformed header: " ++ String.ofList text) :: notes, result)
termination_by bs => bs.length
decreasing_by all_goals exact splitLine_rest_length

def Header.last? (name : String) (hs : List Header) : Option Header :=
  (hs.filter (fun h => h.name == name.toList)).getLast?

/-- The body length that a header section states. -/
def bodyLength (hs : List Header) : Outcome Nat :=
  match Header.last? "content-length" hs with
  | none => .error (.protocol "Missing Content-Length header")
  | some h =>
    match Unsigned.read Limits.maxNat64 h.value with
    | .error f => .error (.protocol ("Invalid Content-Length: " ++ f.message))
    | .ok n =>
      if n > maxFrameBytes then
        .error (.protocol ("Content-Length " ++ toString n ++ " exceeds the " ++
          toString maxFrameBytes ++ " byte limit"))
      else .ok n

/-- The body of a stated length at the start of a stream, and what follows it. -/
def readBody (n : Nat) (bs : List UInt8) : Outcome (String × List UInt8) :=
  if bs.length < n then .error (.io "early eof")
  else
    match Utf8.decode (bs.take n) with
    | .error f => .error (.protocol ("Invalid UTF-8 in content: " ++ f.message))
    | .ok cs => .ok (String.ofList cs, bs.drop n)

/-- What the next read of a stream gives. -/
inductive Read where
  | frame (text : String) (rest : List UInt8)
  | finish
  | fault (f : Fault)
  deriving Repr

/-- Reads one frame; also the notes about malformed lines. -/
def readFrame (bs : List UInt8) : List String × Read :=
  match readSection [] bs with
  | (notes, .absent) => (notes, .finish)
  | (notes, .broken f) => (notes, .fault f)
  | (notes, .complete hs rest) =>
    match (bodyLength hs).bind (readBody · rest) with
    | .ok (text, rest) => (notes, .frame text rest)
    | .error f => (notes, .fault f)

private theorem readSection_length {found : List Header} {bs : List UInt8} {hs rest}
    (h : (readSection found bs).2 = .complete hs rest) : rest.length < bs.length := by
  fun_induction readSection found bs with
  | case1 => cases h
  | case2 => cases h
  | case3 => cases h
  | case4 found b bs line _ _ _ ih => exact Nat.lt_trans (ih h) splitLine_rest_length
  | case5 found b bs =>
    simp only [Section.complete.injEq] at h
    rw [← h.2]; exact splitLine_rest_length
  | case6 found b bs line _ _ _ ih => exact Nat.lt_trans (ih h) splitLine_rest_length
  | case7 found b bs line _ _ _ notes result hr ih =>
    rw [hr] at ih
    exact Nat.lt_trans (ih h) splitLine_rest_length

private theorem readBody_length {n : Nat} {bs : List UInt8} {text rest}
    (h : readBody n bs = .ok (text, rest)) : rest.length ≤ bs.length := by
  unfold readBody at h
  split at h
  · cases h
  · split at h
    · cases h
    · simp only [Except.ok.injEq, Prod.mk.injEq] at h
      rw [← h.2, List.length_drop]; omega

/-- Every frame takes bytes off the stream. -/
theorem readFrame_length {bs : List UInt8} {text rest}
    (h : (readFrame bs).2 = .frame text rest) : rest.length < bs.length := by
  unfold readFrame at h
  split at h
  · cases h
  · cases h
  · rename_i notes hs r hsec
    have hlt : r.length < bs.length := readSection_length (by rw [hsec])
    split at h
    · rename_i text' rest' hok
      simp only [Read.frame.injEq] at h
      obtain ⟨n, hn, hb⟩ : ∃ n, bodyLength hs = .ok n ∧ readBody n r = .ok (text', rest') := by
        cases hl : bodyLength hs with
        | error f => rw [hl] at hok; cases hok
        | ok n => rw [hl] at hok; exact ⟨n, rfl, hok⟩
      have := readBody_length hb
      rw [← h.2]; omega
    · cases h

/-- All that a stream delivers: its frames, the notes on the way, and the fault that ended it
unless it ended between frames. -/
structure Transcript where
  frames : List String
  notes : List String
  fault : Option Fault
  deriving Repr

def readAll (bs : List UInt8) : Transcript :=
  match _h : readFrame bs with
  | (notes, .finish) => ⟨[], notes, none⟩
  | (notes, .fault f) => ⟨[], notes, some f⟩
  | (notes, .frame text rest) =>
    let t := readAll rest
    ⟨text :: t.frames, notes ++ t.notes, t.fault⟩
termination_by bs.length
decreasing_by exact readFrame_length (by rw [_h])

end LanguageClient.Transport.Framing
