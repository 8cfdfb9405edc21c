/-!
UTF-8 over lists of bytes: encoding, and decoding that says where and how a sequence is broken.
A first byte fixes how many tail bytes it owes and the range of the first of them; a broken
sequence has the length of the part that could still have started a character.
-/
namespace LanguageClient.Text.Utf8

def encode (cs : List Char) : List UInt8 := cs.flatMap String.utf8EncodeChar

def bytes (s : String) : List UInt8 := encode s.toList

inductive Scan where
  | char (c : Char) (rest : List UInt8)
  /-- The first bytes can start no character. -/
  | broken (length : Nat)
  /-- The input ends inside a character. -/
  | cut
  deriving Repr

/-- The tail bytes owed after a first byte, the range of the first of them, and the bits of the
code point in the first byte. -/
def lead (b : UInt8) : Option (Nat × UInt8 × UInt8 × Nat) :=
  if b < 0x80 then some (0, 0x80, 0xBF, b.toNat)
  else if 0xC2 ≤ b ∧ b ≤ 0xDF then some (1, 0x80, 0xBF, b.toNat - 0xC0)
  else if b = 0xE0 then some (2, 0xA0, 0xBF, 0)
  else if b = 0xED then some (2, 0x80, 0x9F, 0xD)
  else if 0xE1 ≤ b ∧ b ≤ 0xEF then some (2, 0x80, 0xBF, b.toNat - 0xE0)
  else if b = 0xF0 then some (3, 0x90, 0xBF, 0)
  else if b = 0xF4 then some (3, 0x80, 0x8F, 4)
  else if 0xF1 ≤ b ∧ b ≤ 0xF3 then some (3, 0x80, 0xBF, b.toNat - 0xF0)
  else none

/-- Reads the owed tail bytes; `seen` counts the bytes of the character so far. -/
def tails : (owed : Nat) → (low high : UInt8) → (code seen : Nat) → List UInt8 → Scan
  | 0, _, _, code, _, rest => .char (Char.ofNat code) rest
  | _ + 1, _, _, _, _, [] => .cut
  | owed + 1, low, high, code, seen, b :: rest =>
    if low ≤ b ∧ b ≤ high then
      tails owed 0x80 0xBF (code * 64 + (b.toNat - 0x80)) (seen + 1) rest
    else .broken seen

/-- The first character of a non-empty input. -/
def scan (b : UInt8) (rest : List UInt8) : Scan :=
  match lead b with
  | none => .broken 1
  | some (owed, low, high, code) => tails owed low high code 1 rest

private theorem tails_length : ∀ {owed low high code seen bs c rest},
    tails owed low high code seen bs = .char c rest → rest.length ≤ bs.length
  | 0, _, _, _, _, bs, c, rest, h => by
    simp only [tails, Scan.char.injEq] at h
    exact Nat.le_of_eq (by rw [h.2])
  | _ + 1, _, _, _, _, [], c, rest, h => by simp [tails] at h
  | owed + 1, low, high, code, seen, b :: bs, c, rest, h => by
    rw [tails] at h
    split at h
    · exact Nat.le_succ_of_le (tails_length h)
    · cases h

theorem scan_length {b : UInt8} {bs rest : List UInt8} {c : Char}
    (h : scan b bs = .char c rest) : rest.length ≤ bs.length := by
  unfold scan at h
  split at h
  · cases h
  · exact tails_length h

/-- The first fault in an input: the index of the sequence, and its length unless the input ends
inside it. -/
structure Fault where
  index : Nat
  length : Option Nat
  deriving DecidableEq, Repr

def Fault.message (f : Fault) : String :=
  match f.length with
  | some n =>
    "invalid utf-8 sequence of " ++ toString n ++ " bytes from index " ++ toString f.index
  | none => "incomplete utf-8 byte sequence from index " ++ toString f.index

/-- Decodes an input whose first byte stands at an index of the whole. -/
def decodeFrom (index : Nat) : List UInt8 → Except Fault (List Char)
  | [] => .ok []
  | b :: bs =>
    match _h : scan b bs with
    | .char c rest =>
      (decodeFrom (index + 1 + (bs.length - rest.length)) rest).map (c :: ·)
    | .broken n => .error ⟨index, some n⟩
    | .cut => .error ⟨index, none⟩
termination_by bs => bs.length
decreasing_by
  have := scan_length _h
  simp only [List.length_cons]
  omega

def decode (bs : List UInt8) : Except Fault (List Char) := decodeFrom 0 bs

end LanguageClient.Text.Utf8
