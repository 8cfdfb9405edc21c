import LanguageClient.Proofs.Utf8RoundTrip
import LanguageClient.Transport.Framing
import Mathlib.Data.Bool.AllAny
/-!
Frames survive their way over a byte stream. The reader stops exactly where the written frame ends,
whatever the frame looks like and whatever follows it, so that many frames in a row come back one
by one.
-/
namespace LanguageClient

namespace Text

theorem not_isBlank_of_isDigit {c : Char} (h : c.isDigit = true) : isBlank c = false := by
  obtain ⟨hl, hh⟩ := Char.isDigit_iff_toNat.mp h
  have h0 : '0'.toNat = 48 := rfl
  have h9 : '9'.toNat = 57 := rfl
  simp only [isBlank, blankRanges, List.any_cons, List.any_nil, Bool.or_false, Bool.or_eq_false_iff,
    Bool.and_eq_false_iff, decide_eq_false_iff_not]
  omega

theorem trimEnd_append_cons (text rest : List Char) {c : Char} (hc : isBlank c = false) :
    trimEnd (text ++ c :: rest) = text ++ c :: trimEnd rest := by
  have hr : (text ++ c :: rest).reverse = rest.reverse ++ c :: text.reverse := by simp
  rw [trimEnd, hr, List.dropWhile_append, List.dropWhile_cons_of_neg (by simp [hc])]
  split
  · rename_i he
    rw [trimEnd, List.isEmpty_iff.mp he]
    simp
  · rw [trimEnd]
    simp

theorem trimEnd_append_blanks (text : List Char) {blanks : List Char}
    (hb : ∀ b ∈ blanks, isBlank b = true) : trimEnd (text ++ blanks) = trimEnd text := by
  rw [trimEnd, List.reverse_append, List.dropWhile_append_of_pos (by simpa using hb), ← trimEnd]

theorem trimEnd_append {text blanks : List Char} {c : Char} (hc : isBlank c = false)
    (hb : ∀ b ∈ blanks, isBlank b = true) : trimEnd (text ++ c :: blanks) = text ++ [c] := by
  have hnone : trimEnd blanks = [] := trimEnd_append_blanks [] hb
  rw [trimEnd_append_cons text blanks hc, hnone]

theorem trim_append_blanks {text blanks : List Char} (hb : ∀ b ∈ blanks, isBlank b = true) :
    trim (text ++ blanks) = trim text := by
  rw [trim, trimEnd_append_blanks text hb, ← trim]

theorem trim_trimEnd (text : List Char) : trim (trimEnd text) = trim text := by
  have hall : ∀ b ∈ (text.reverse.takeWhile isBlank).reverse, isBlank b = true := fun b hb =>
    List.all_eq_true.mp List.all_takeWhile b (List.mem_reverse.mp hb)
  have hsplit : text = trimEnd text ++ (text.reverse.takeWhile isBlank).reverse := by
    rw [trimEnd, ← List.reverse_append, List.takeWhile_append_dropWhile, List.reverse_reverse]
  exact ((congrArg trim hsplit).trans (trim_append_blanks hall)).symm

theorem trim_digits {blanks digits : List Char} (hb : ∀ b ∈ blanks, isBlank b = true)
    (hd : ∀ d ∈ digits, d.isDigit = true) (hne : digits ≠ []) : trim (blanks ++ digits) = digits := by
  obtain ⟨init, last, rfl⟩ := List.eq_nil_or_concat digits |>.resolve_left hne
  have hl : isBlank last = false := not_isBlank_of_isDigit (hd last (by simp))
  have he : trimEnd (blanks ++ (init ++ [last])) = blanks ++ (init ++ [last]) := by
    rw [← List.append_assoc, trimEnd_append hl (by simp), List.append_assoc]
  rw [trim, List.concat_eq_append, he, trimStart, List.dropWhile_append_of_pos hb]
  cases init with
  | nil => rw [List.nil_append, List.dropWhile_cons_of_neg (by simp [hl])]
  | cons d init =>
    have h := not_isBlank_of_isDigit (hd d (by simp))
    rw [List.cons_append, List.dropWhile_cons_of_neg (by simp [h])]

namespace Unsigned

theorem digits_ofDigitChars {limit : Nat} {cs : List Char} (hd : ∀ c ∈ cs, c.isDigit = true)
    {n : Nat} (h : Nat.ofDigitChars 10 cs n ≤ limit) :
    digits limit n cs = .ok (Nat.ofDigitChars 10 cs n) := by
  induction cs generalizing n with
  | nil => rw [Nat.ofDigitChars_nil, digits]
  | cons c cs ih =>
    have hstep : Nat.ofDigitChars 10 (c :: cs) n =
        Nat.ofDigitChars 10 cs (n * 10 + (c.toNat - '0'.toNat)) := by
      rw [Nat.ofDigitChars_cons, Nat.mul_comm]
    rw [hstep] at h ⊢
    have hle : n * 10 + (c.toNat - '0'.toNat) ≤ limit := by
      rw [Nat.ofDigitChars_eq_ofDigitChars_zero] at h
      have := Nat.le_mul_of_pos_left (n * 10 + (c.toNat - '0'.toNat))
        (Nat.pow_pos (n := cs.length) (show 0 < 10 by omega))
      omega
    rw [digits, if_pos (hd c (by simp))]
    simp only
    rw [if_pos hle]
    exact ih (fun d hm => hd d (List.mem_cons_of_mem c hm)) h

theorem read_toDigits {limit n : Nat} (h : n ≤ limit) : read limit (Nat.toDigits 10 n) = .ok n := by
  have hd : ∀ c ∈ Nat.toDigits 10 n, c.isDigit = true := fun c hc =>
    Nat.isDigit_of_mem_toDigits (by omega) (by omega) hc
  have hr : digits limit 0 (Nat.toDigits 10 n) = .ok n := by
    rw [digits_ofDigitChars hd (by rw [Nat.ofDigitChars_ten_toDigits]; exact h),
      Nat.ofDigitChars_ten_toDigits]
  unfold read
  split
  · rename_i h
    exact absurd h Nat.toDigits_ne_nil
  · rename_i h
    rw [h] at hd
    exact absurd (hd '+' (by simp)) (by decide)
  · rename_i cs _ h
    rw [h] at hd
    exact absurd (hd '+' (by simp)) (by decide)
  · exact hr

end Unsigned

namespace Utf8

theorem encode_append (cs ds : List Char) : encode (cs ++ ds) = encode cs ++ encode ds :=
  List.flatMap_append

private theorem encodeChar_lineFeed {c : Char} (h : (10 : UInt8) ∈ String.utf8EncodeChar c) :
    c = '\n' := by
  have hval : c.val.toNat = c.toNat := rfl
  have low {n : Nat} (hn : (10 : UInt8) = UInt8.ofNat n) : n % 256 = 10 := by
    have := congrArg UInt8.toNat hn
    simpa [eq_comm] using this
  unfold String.utf8EncodeChar at h
  simp only [hval] at h
  split at h
  · rename_i hle
    rw [List.mem_singleton] at h
    have hten := low h
    have hchar : c.toNat = 10 := by omega
    rw [← Char.ofNat_toNat c, hchar]
  · -- every byte of a longer form is at least `0x80`
    exfalso
    split at h
    · simp only [List.mem_cons, List.not_mem_nil, or_false] at h
      rcases h with h | h <;> have := low h <;> omega
    · split at h
      · simp only [List.mem_cons, List.not_mem_nil, or_false] at h
        rcases h with h | h | h <;> have := low h <;> omega
      · simp only [List.mem_cons, List.not_mem_nil, or_false] at h
        rcases h with h | h | h | h <;> have := low h <;> omega

theorem lineFeed_not_mem_encode {cs : List Char} (hn : '\n' ∉ cs) : (10 : UInt8) ∉ encode cs := by
  intro h
  obtain ⟨c, hc, hb⟩ := List.mem_flatMap.mp h
  exact hn (encodeChar_lineFeed hb ▸ hc)

end Utf8

end Text

namespace Transport.Framing
open Text

theorem splitLine_append {line rest : List UInt8} (h : (10 : UInt8) ∉ line) :
    splitLine (line ++ 10 :: rest) = (line ++ [10], rest) := by
  induction line with
  | nil => rfl
  | cons b line ih =>
    have hb : b ≠ 10 := fun he => h (he ▸ List.mem_cons_self)
    rw [List.cons_append, splitLine, if_neg hb, ih (fun hm => h (List.mem_cons_of_mem b hm))]
    rfl

theorem splitLine_of_not_mem {line : List UInt8} (h : (10 : UInt8) ∉ line) :
    splitLine line = (line, []) := by
  induction line with
  | nil => rfl
  | cons b line ih =>
    have hb : b ≠ 10 := fun he => h (he ▸ List.mem_cons_self)
    rw [splitLine, if_neg hb, ih fun hm => h (List.mem_cons_of_mem b hm)]

/-- How the reader goes on after a line. -/
def afterLine (found : List Header) (rest : List UInt8) (line : Line) :
    List String × Section :=
  match line with
  | .blank => if found.isEmpty then readSection found rest else ([], .complete found rest)
  | .header h => readSection (found ++ [h]) rest
  | .malformed text =>
    let (notes, result) := readSection found rest
    (("Malformed header: " ++ String.ofList text) :: notes, result)

private theorem readSection_of_split {found : List Header} {bs rest : List UInt8} {cs : List Char}
    (hne : bs ≠ []) (h : splitLine bs = (Utf8.encode cs, rest)) :
    readSection found bs = afterLine found rest (Line.ofChars cs) := by
  obtain ⟨b, bs, rfl⟩ := List.exists_cons_of_ne_nil hne
  rw [readSection, h]
  simp only [Utf8.decode_encode]
  rfl

/-- The reader takes one line off a stream and goes on by what the line is. -/
theorem readSection_line {found : List Header} {cs : List Char} {rest : List UInt8}
    (hn : '\n' ∉ cs) :
    readSection found (Utf8.encode cs ++ 10 :: rest) =
      afterLine found rest (Line.ofChars (cs ++ ['\n'])) := by
  refine readSection_of_split (by simp) ?_
  rw [splitLine_append (Utf8.lineFeed_not_mem_encode hn), Utf8.encode_append]
  rfl

/-- The last line of a stream may lack its line feed. -/
theorem readSection_lastLine {found : List Header} {cs : List Char} (hne : Utf8.encode cs ≠ [])
    (hn : '\n' ∉ cs) : readSection found (Utf8.encode cs) = afterLine found [] (Line.ofChars cs) :=
  readSection_of_split hne (splitLine_of_not_mem (Utf8.lineFeed_not_mem_encode hn))

/-- A line with a colon is a header: its name is what stands before the first colon. -/
theorem ofChars_header {name value : List Char} (hn : ':' ∉ name) :
    Line.ofChars (name ++ ':' :: value) = .header ⟨(trim name).map Char.toLower, trim value⟩ := by
  have hline : ¬(name ++ ':' :: value = ['\r', '\n'] ∨ name ++ ':' :: value = ['\n']) := by
    rintro (h | h) <;>
    · have hm : ':' ∈ name ++ ':' :: value := by simp
      rw [h] at hm
      exact absurd hm (by decide)
  have hname : ∀ c ∈ name, decide (c ≠ ':') = true := fun c hc =>
    decide_eq_true fun he => hn (he ▸ hc)
  rw [Line.ofChars, if_neg hline, trimEnd_append_cons name value (by decide)]
  simp only
  rw [if_pos (by simp), List.takeWhile_append_of_pos hname, List.takeWhile_cons_of_neg (by decide),
    List.append_nil, List.dropWhile_append_of_pos hname, List.dropWhile_cons_of_neg (by decide),
    List.drop_one, List.tail_cons, trim_trimEnd]

def lengthName : List Char :=
  ['C', 'o', 'n', 't', 'e', 'n', 't', '-', 'L', 'e', 'n', 'g', 't', 'h']

/-- The header line of a body of so many bytes, less its line feed. -/
def lengthLine (n : Nat) : List Char :=
  lengthName ++ ':' :: ' ' :: Nat.toDigits 10 n ++ ['\r']

def header (frame : String) : List UInt8 :=
  Utf8.bytes ("Content-Length: " ++ toString (Utf8.bytes frame).length ++ "\r\n\r\n")

theorem encode_eq (frame : String) : encode frame = header frame ++ Utf8.bytes frame := rfl

theorem header_eq (frame : String) :
    header frame = Utf8.encode (lengthLine (Utf8.bytes frame).length ++ ['\n', '\r', '\n']) := by
  have hprefix : "Content-Length: ".toList = lengthName ++ [':', ' '] := by decide
  have hsuffix : "\r\n\r\n".toList = ['\r', '\n', '\r', '\n'] := by decide
  rw [header, Utf8.bytes, String.toList_append, String.toList_append, hprefix, hsuffix,
    Nat.toString_eq_ofList_toDigits, String.toList_ofList, lengthLine]
  simp only [List.append_assoc, List.cons_append, List.nil_append]

theorem lengthLine_ascii {n : Nat} {c : Char} (h : c ∈ lengthLine n) :
    c.toNat < 0x80 ∧ c ≠ '\n' := by
  have hfixed : ∀ c ∈ lengthName ++ [':', ' ', '\r'], c.toNat < 0x80 ∧ c ≠ '\n' :=
    List.all_iff_forall_prop.mp (by decide)
  by_cases hf : c ∈ lengthName ++ [':', ' ', '\r']
  · exact hfixed c hf
  · have hm : c ∈ Nat.toDigits 10 n := by
      simp only [lengthLine, List.mem_append, List.mem_cons, List.mem_nil_iff, or_false] at h hf
      rcases h with (h | h | h | h) | h
      · exact absurd (.inl h) hf
      · exact absurd (.inr (.inl h)) hf
      · exact absurd (.inr (.inr (.inl h))) hf
      · exact h
      · exact absurd (.inr (.inr (.inr h))) hf
    have hd := Nat.isDigit_of_mem_toDigits (by omega) (by omega) hm
    obtain ⟨hl, hh⟩ := Char.isDigit_iff_toNat.mp hd
    have h9 : '9'.toNat = 57 := rfl
    refine ⟨by omega, ?_⟩
    rintro rfl
    exact absurd hd (by decide)

theorem ofChars_lengthLine (n : Nat) :
    Line.ofChars (lengthLine n ++ ['\n']) =
      .header ⟨"content-length".toList, Nat.toDigits 10 n⟩ := by
  have hd : ∀ d ∈ Nat.toDigits 10 n, d.isDigit = true := fun d hm =>
    Nat.isDigit_of_mem_toDigits (by omega) (by omega) hm
  have hs : lengthLine n ++ ['\n'] =
      lengthName ++ ':' :: (([' '] ++ Nat.toDigits 10 n) ++ ['\r', '\n']) := by
    simp only [lengthLine, List.append_assoc, List.cons_append, List.nil_append]
  have hlower : (trim lengthName).map Char.toLower = "content-length".toList := by decide
  rw [hs, ofChars_header (by decide), hlower,
    trim_append_blanks (List.all_iff_forall_prop.mp (by decide)),
    trim_digits (List.all_iff_forall_prop.mp (by decide)) hd Nat.toDigits_ne_nil]

theorem bodyLength_toDigits {n : Nat} (h : n ≤ maxFrameBytes) :
    bodyLength [⟨"content-length".toList, Nat.toDigits 10 n⟩] = .ok n := by
  have hmax : n ≤ Limits.maxNat64 := Nat.le_trans h (by decide)
  have hlast : Header.last? "content-length" [⟨"content-length".toList, Nat.toDigits 10 n⟩] =
      some ⟨"content-length".toList, Nat.toDigits 10 n⟩ := by
    simp [Header.last?]
  rw [bodyLength, hlast]
  simp only [Unsigned.read_toDigits hmax]
  rw [if_neg (by omega)]

private theorem readBody_bytes (frame : String) (rest : List UInt8) :
    readBody (Utf8.bytes frame).length (Utf8.bytes frame ++ rest) = .ok (frame, rest) := by
  rw [readBody, if_neg (by simp), List.take_left, List.drop_left]
  simp only [Utf8.bytes, Utf8.decode_encode, String.ofList_toList]

theorem readSection_header (frame : String) (rest : List UInt8) :
    readSection [] (header frame ++ rest) =
      ([], .complete [⟨"content-length".toList, Nat.toDigits 10 (Utf8.bytes frame).length⟩] rest) := by
  have hlines : header frame ++ rest = Utf8.encode (lengthLine (Utf8.bytes frame).length) ++
      10 :: (Utf8.encode ['\r'] ++ 10 :: rest) := by
    rw [header_eq, Utf8.encode_append, List.append_assoc]
    rfl
  rw [hlines, readSection_line (fun h => (lengthLine_ascii h).2 rfl), ofChars_lengthLine, afterLine]
  simp only [List.nil_append]
  rw [readSection_line (by decide)]
  rfl

/-- A written frame is read back unchanged, and the reader stops where the frame ends. -/
theorem readFrame_encode {frame : String} (h : (Utf8.bytes frame).length ≤ maxFrameBytes)
    (rest : List UInt8) : readFrame (encode frame ++ rest) = ([], .frame frame rest) := by
  rw [encode_eq, List.append_assoc, readFrame, readSection_header]
  simp only [bodyLength_toDigits h, Except.bind, readBody_bytes]

/-- The bytes before which the reader stands when it finds no further frame. -/
def leftover (bs : List UInt8) : List UInt8 :=
  match _h : readFrame bs with
  | (_, .frame _ rest) => leftover rest
  | (_, .finish) | (_, .fault _) => bs
termination_by bs.length
decreasing_by exact readFrame_length (by rw [_h])

theorem readFrame_nil : readFrame [] = ([], .finish) := by
  simp only [readFrame, readSection, List.isEmpty_nil, if_true]

theorem readAll_nil : readAll [] = ⟨[], [], none⟩ := by
  rw [readAll]
  split <;> rename_i he <;> rw [readFrame_nil] at he <;> cases he
  rfl

private theorem leftover_nil : leftover [] = [] := by
  rw [leftover]
  split
  · rename_i he
    rw [readFrame_nil] at he
    cases he
  · rfl
  · rfl

theorem readAll_of_frame {bs rest : List UInt8} {notes : List String} {text : String}
    (h : readFrame bs = (notes, .frame text rest)) :
    readAll bs = ⟨text :: (readAll rest).frames, notes ++ (readAll rest).notes,
      (readAll rest).fault⟩ := by
  rw [readAll]
  split <;> rename_i he <;> rw [h] at he <;> cases he
  rfl

theorem readAll_of_fault {bs : List UInt8} {notes : List String} {f : Fault}
    (h : readFrame bs = (notes, .fault f)) : readAll bs = ⟨[], notes, some f⟩ := by
  rw [readAll]
  split <;> rename_i he <;> rw [h] at he <;> cases he
  rfl

theorem readAll_of_finish {bs : List UInt8} {notes : List String}
    (h : readFrame bs = (notes, .finish)) : readAll bs = ⟨[], notes, none⟩ := by
  rw [readAll]
  split <;> rename_i he <;> rw [h] at he <;> cases he
  rfl

private theorem leftover_of_frame {bs rest : List UInt8} {notes : List String} {text : String}
    (h : readFrame bs = (notes, .frame text rest)) : leftover bs = leftover rest := by
  rw [leftover]
  split <;> rename_i he <;> rw [h] at he <;> cases he
  rfl

theorem encodeAll_cons (frame : String) (frames : List String) (rest : List UInt8) :
    encodeAll (frame :: frames) ++ rest = encode frame ++ (encodeAll frames ++ rest) := by
  rw [encodeAll, List.flatMap_cons, ← encodeAll, List.append_assoc]

/-- Written frames at the start of a stream come back in order, and what follows them is read as if
it stood alone. -/
theorem readAll_append {frames : List String}
    (h : ∀ frame ∈ frames, (Utf8.bytes frame).length ≤ maxFrameBytes) (rest : List UInt8) :
    readAll (encodeAll frames ++ rest) =
      { readAll rest with frames := frames ++ (readAll rest).frames } := by
  induction frames with
  | nil => rfl
  | cons frame frames ih =>
    have hf := readFrame_encode (h frame List.mem_cons_self) (encodeAll frames ++ rest)
    rw [encodeAll_cons, readAll_of_frame hf, ih (fun f hm => h f (List.mem_cons_of_mem frame hm))]
    rfl

theorem leftover_append {frames : List String}
    (h : ∀ frame ∈ frames, (Utf8.bytes frame).length ≤ maxFrameBytes) (rest : List UInt8) :
    leftover (encodeAll frames ++ rest) = leftover rest := by
  induction frames with
  | nil => rfl
  | cons frame frames ih =>
    have hf := readFrame_encode (h frame List.mem_cons_self) (encodeAll frames ++ rest)
    rw [encodeAll_cons, leftover_of_frame hf, ih (fun f hm => h f (List.mem_cons_of_mem frame hm))]

/-- Frames of a permitted size come back exactly as they were written, with no note, no fault and no
byte left over. A frame may be empty or look like a header; its size is that of its bytes. -/
theorem readAll_encodeAll {frames : List String}
    (h : ∀ frame ∈ frames, (Utf8.bytes frame).length ≤ maxFrameBytes) :
    readAll (encodeAll frames) = ⟨frames, [], none⟩ ∧ leftover (encodeAll frames) = [] := by
  have hr := readAll_append h []
  have hl := leftover_append h []
  rw [List.append_nil, readAll_nil] at hr
  rw [List.append_nil, leftover_nil] at hl
  exact ⟨by rw [hr, List.append_nil], hl⟩

theorem readAll_encodeAll_headerlike :
    (∀ frame ∈ ["", "Content-Length: 3\r\n\r\n", "é\n"],
      (Utf8.bytes frame).length ≤ maxFrameBytes) ∧
    readAll (encodeAll ["", "Content-Length: 3\r\n\r\n", "é\n"]) =
      ⟨["", "Content-Length: 3\r\n\r\n", "é\n"], [], none⟩ ∧
    leftover (encodeAll ["", "Content-Length: 3\r\n\r\n", "é\n"]) = [] := by
  have h : ∀ frame ∈ ["", "Content-Length: 3\r\n\r\n", "é\n"],
      (Utf8.bytes frame).length ≤ maxFrameBytes := by decide
  exact ⟨h, readAll_encodeAll h⟩

end Transport.Framing

end LanguageClient
