import LanguageClient.Proofs.FramingRoundTrip
/-!
What the reader makes of any header section. Lines before the first header and lines that are no
header are passed over, the order and the spelling of the headers do not matter, and of all that is
written there only the value of the last `Content-Length` decides what is read of the bytes after it.
-/
namespace LanguageClient

namespace Text.Unsigned

/-- The numerals of a number: decimal digits after an optional plus sign. -/
def Denotes (text : List Char) (n : Nat) : Prop :=
  ∃ digits, (text = digits ∨ text = '+' :: digits) ∧ digits ≠ [] ∧
    (∀ d ∈ digits, d.isDigit = true) ∧ n = Nat.ofDigitChars 10 digits 0

private theorem digits_ok {limit : Nat} {cs : List Char} {n m : Nat} (hn : n ≤ limit)
    (h : digits limit n cs = .ok m) :
    (∀ c ∈ cs, c.isDigit = true) ∧ m = Nat.ofDigitChars 10 cs n ∧ m ≤ limit := by
  induction cs generalizing n with
  | nil =>
    cases h
    exact ⟨by simp, rfl, hn⟩
  | cons c cs ih =>
    rw [digits] at h
    split at h
    · rename_i hc
      simp only at h
      split at h
      · rename_i hle
        obtain ⟨hall, hm, hlim⟩ := ih hle h
        refine ⟨List.forall_mem_cons.mpr ⟨hc, hall⟩, ?_, hlim⟩
        rw [hm, Nat.ofDigitChars_cons, Nat.mul_comm]
      · cases h
    · cases h

/-- What is read is exactly the numerals of the numbers up to the limit. -/
theorem read_eq_ok_iff {limit n : Nat} {text : List Char} :
    read limit text = .ok n ↔ Denotes text n ∧ n ≤ limit := by
  constructor
  · intro h
    unfold read at h
    split at h
    · cases h
    · cases h
    · rename_i cs hne
      obtain ⟨hall, hn, hlim⟩ := digits_ok (Nat.zero_le _) h
      exact ⟨⟨cs, .inr rfl, fun he => hne (he ▸ rfl), hall, hn⟩, hlim⟩
    · rename_i hne _ _
      obtain ⟨hall, hn, hlim⟩ := digits_ok (Nat.zero_le _) h
      exact ⟨⟨text, .inl rfl, hne, hall, hn⟩, hlim⟩
  · rintro ⟨⟨ds, htext, hne, hall, rfl⟩, hlim⟩
    have hread : digits limit 0 ds = .ok (Nat.ofDigitChars 10 ds 0) := digits_ofDigitChars hall hlim
    obtain ⟨d, ds, rfl⟩ := List.exists_cons_of_ne_nil hne
    have hplus : d ≠ '+' := by
      rintro rfl
      exact absurd (hall '+' List.mem_cons_self) (by decide)
    rcases htext with rfl | rfl
    · rw [read]
      · exact hread
      all_goals simp [hplus]
    · rw [read]
      · exact hread
      · simp

theorem Denotes.unique {text : List Char} {n m : Nat} (hn : Denotes text n) (hm : Denotes text m) :
    n = m := by
  have hrn : read (max n m) text = .ok n := read_eq_ok_iff.mpr ⟨hn, Nat.le_max_left n m⟩
  have hrm : read (max n m) text = .ok m := read_eq_ok_iff.mpr ⟨hm, Nat.le_max_right n m⟩
  exact Except.ok.inj (hrn.symm.trans hrm)

theorem denotes_toDigits (n : Nat) : Denotes (Nat.toDigits 10 n) n :=
  (read_eq_ok_iff.mp (read_toDigits (Nat.le_refl n))).1

end Text.Unsigned

namespace Transport.Framing
open Text

/-- A blank line is a line feed, or a carriage return and a line feed. -/
def Blank (line : List Char) : Prop := line = [] ∨ line = ['\r']

instance : DecidablePred Blank := fun line => inferInstanceAs (Decidable (line = [] ∨ line = ['\r']))

/-- The name that a line gives, in lower case. Letters outside ASCII stay as they are: the lower case
of none of them is a letter of `content-length`. -/
def nameOf (line : List Char) : List Char := (trim (line.takeWhile (· ≠ ':'))).map Char.toLower

def valueOf (line : List Char) : List Char := trim ((line.dropWhile (· ≠ ':')).drop 1)

private theorem ofChars_blank {line : List Char} (h : Blank line) :
    Line.ofChars (line ++ ['\n']) = .blank := by
  rcases h with rfl | rfl <;> decide

private theorem ofChars_colon {line : List Char} (h : ':' ∈ line) :
    Line.ofChars (line ++ ['\n']) = .header ⟨nameOf line, valueOf line⟩ := by
  obtain ⟨name, value, rfl, hn⟩ := List.eq_append_cons_of_mem h
  have hname : ∀ c ∈ name, decide (c ≠ ':') = true := fun c hc =>
    decide_eq_true fun he => hn (he ▸ hc)
  rw [List.append_assoc, List.cons_append, ofChars_header hn,
    trim_append_blanks (List.all_iff_forall_prop.mp (by decide)), nameOf, valueOf,
    List.takeWhile_append_of_pos hname, List.takeWhile_cons_of_neg (by simp), List.append_nil,
    List.dropWhile_append_of_pos hname, List.dropWhile_cons_of_neg (by simp), List.drop_one,
    List.tail_cons]

private theorem ofChars_malformed {line : List Char} (hb : ¬Blank line) (h : ':' ∉ line) :
    Line.ofChars (line ++ ['\n']) = .malformed (trim line) := by
  have hlf : ∀ b ∈ ['\n'], isBlank b = true := List.all_iff_forall_prop.mp (by decide)
  have hline : ¬(line ++ ['\n'] = ['\r', '\n'] ∨ line ++ ['\n'] = ['\n']) := by
    rintro (he | he)
    · exact hb (.inr (List.append_cancel_right (show line ++ ['\n'] = ['\r'] ++ ['\n'] from he)))
    · exact hb (.inl (List.append_cancel_right (show line ++ ['\n'] = [] ++ ['\n'] from he)))
  have hcolon : ':' ∉ trimEnd (line ++ ['\n']) := by
    rw [trimEnd_append_blanks line hlf, trimEnd, List.mem_reverse]
    exact fun hm => h (List.mem_reverse.mp ((List.dropWhile_sublist _).subset hm))
  rw [Line.ofChars, if_neg hline]
  simp only
  rw [if_neg hcolon, trim_append_blanks hlf]

def lineBytes (lines : List (List Char)) : List UInt8 :=
  lines.flatMap fun line => Utf8.encode line ++ [10]

/-- What is noted about lines: of each that is no header and not blank, what it says. -/
def notesOf (lines : List (List Char)) : List String :=
  (lines.filter fun line => ':' ∉ line ∧ ¬Blank line).map fun line =>
    "Malformed header: " ++ String.ofList (trim line)

def headersOf (lines : List (List Char)) : List Header :=
  (lines.filter fun line => ':' ∈ line).map fun line => ⟨nameOf line, valueOf line⟩

private theorem lineBytes_cons (line : List Char) (lines : List (List Char)) (rest : List UInt8) :
    lineBytes (line :: lines) ++ rest = Utf8.encode line ++ 10 :: (lineBytes lines ++ rest) := by
  simp only [lineBytes, List.flatMap_cons, List.append_assoc, List.cons_append, List.nil_append]

private theorem readSection_headers {lines : List (List Char)} (hn : ∀ line ∈ lines, '\n' ∉ line)
    (hb : ∀ line ∈ lines, ¬Blank line) (found : List Header) (rest : List UInt8) :
    readSection found (lineBytes lines ++ rest) =
      (notesOf lines ++ (readSection (found ++ headersOf lines) rest).1,
        (readSection (found ++ headersOf lines) rest).2) := by
  induction lines generalizing found with
  | nil => simp [lineBytes, notesOf, headersOf]
  | cons line lines ih =>
    obtain ⟨hn, hns⟩ := List.forall_mem_cons.mp hn
    obtain ⟨hb, hbs⟩ := List.forall_mem_cons.mp hb
    rw [lineBytes_cons, readSection_line hn]
    by_cases hc : ':' ∈ line
    · rw [ofChars_colon hc, afterLine, ih hns hbs]
      simp [notesOf, headersOf, hc]
    · rw [ofChars_malformed hb hc, afterLine, ih hns hbs]
      simp [notesOf, headersOf, hc, hb]

/-- Before the first header blank lines are passed over too. -/
private theorem readSection_leading {lines : List (List Char)} (hn : ∀ line ∈ lines, '\n' ∉ line)
    (hl : ∀ line ∈ lines, Blank line ∨ ':' ∉ line) (rest : List UInt8) :
    readSection [] (lineBytes lines ++ rest) =
      (notesOf lines ++ (readSection [] rest).1, (readSection [] rest).2) := by
  induction lines with
  | nil => simp [lineBytes, notesOf]
  | cons line lines ih =>
    obtain ⟨hn, hns⟩ := List.forall_mem_cons.mp hn
    obtain ⟨hl, hls⟩ := List.forall_mem_cons.mp hl
    rw [lineBytes_cons, readSection_line hn]
    by_cases hb : Blank line
    · rw [ofChars_blank hb, afterLine, if_pos List.isEmpty_nil, ih hns hls]
      simp [notesOf, hb]
    · have hc := hl.resolve_left hb
      rw [ofChars_malformed hb hc, afterLine, ih hns hls]
      simp [notesOf, hc, hb]

private theorem readSection_closing {found : List Header} {line : List Char} (hb : Blank line)
    (hne : found ≠ []) (rest : List UInt8) :
    readSection found (Utf8.encode line ++ 10 :: rest) = ([], .complete found rest) := by
  have hn : '\n' ∉ line := by rcases hb with rfl | rfl <;> decide
  rw [readSection_line hn, ofChars_blank hb, afterLine, if_neg (by simpa using hne)]

/-- What may stand before a body: lines without a header, in which blank lines count for nothing,
then lines with at least one header and no blank line among them, then a blank line. -/
structure Preamble where
  leading : List (List Char)
  headers : List (List Char)
  closing : List Char
  oneLine : ∀ line ∈ leading ++ headers, '\n' ∉ line
  leading_none : ∀ line ∈ leading, Blank line ∨ ':' ∉ line
  headers_unbroken : ∀ line ∈ headers, ¬Blank line
  headers_some : ∃ line ∈ headers, ':' ∈ line
  closing_blank : Blank closing

def Preamble.bytes (p : Preamble) : List UInt8 :=
  lineBytes (p.leading ++ p.headers ++ [p.closing])

def Preamble.notes (p : Preamble) : List String := notesOf (p.leading ++ p.headers)

/-- The length as it is written: the value of the last header with the name `content-length`. -/
def Preamble.length? (p : Preamble) : Option (List Char) :=
  ((p.headers.filter fun line => ':' ∈ line ∧ nameOf line = "content-length".toList).getLast?).map
    valueOf

example : Preamble.length? ⟨[[], "noise".toList], ["Content-Length: 7\r".toList, "more noise".toList,
    "CONTENT-length : +2 ".toList, "Content-Type: text".toList], ['\r'], by decide, by decide,
    by decide, by decide, by decide⟩ = some "+2".toList := by
  decide

private theorem Preamble.readSection_bytes (p : Preamble) (rest : List UInt8) :
    readSection [] (p.bytes ++ rest) = (p.notes, .complete (headersOf p.headers) rest) := by
  have hbytes : p.bytes ++ rest =
      lineBytes p.leading ++ (lineBytes p.headers ++ (Utf8.encode p.closing ++ 10 :: rest)) := by
    simp [Preamble.bytes, lineBytes]
  have hfound : headersOf p.headers ≠ [] := by
    obtain ⟨line, hm, hc⟩ := p.headers_some
    exact List.ne_nil_of_mem
      (List.mem_map.mpr ⟨line, List.mem_filter.mpr ⟨hm, by simpa using hc⟩, rfl⟩)
  have hn := List.forall_mem_append.mp p.oneLine
  rw [hbytes, readSection_leading hn.1 p.leading_none, readSection_headers hn.2 p.headers_unbroken,
    List.nil_append, readSection_closing p.closing_blank hfound, Preamble.notes, notesOf, notesOf,
    notesOf, List.filter_append, List.map_append, List.append_nil]

private theorem Preamble.last?_headers (p : Preamble) :
    (Header.last? "content-length" (headersOf p.headers)).map Header.value = p.length? := by
  have hfilter (name : List Char) : (headersOf p.headers).filter (fun h => h.name == name) =
      (p.headers.filter fun line => ':' ∈ line ∧ nameOf line = name).map
        fun line => ⟨nameOf line, valueOf line⟩ := by
    rw [headersOf, List.filter_map, List.filter_filter]
    congr 1
    refine List.filter_congr fun line _ => ?_
    simp [Bool.and_comm, Bool.beq_eq_decide_eq]
  rw [Header.last?, hfilter, List.getLast?_map, Option.map_map]
  rfl

/-- What is read after a section whose length is written so. -/
inductive Verdict (rest : List UInt8) : Option (List Char) → Read → Prop where
  | missing : Verdict rest none (.fault (.protocol "Missing Content-Length header"))
  | invalid (text : List Char) (why : Unsigned.Fault)
      (h : ¬∃ n, Unsigned.Denotes text n ∧ n ≤ Limits.maxNat64) :
      Verdict rest (some text) (.fault (.protocol ("Invalid Content-Length: " ++ why.message)))
  | excessive (text : List Char) (n : Nat) (h : Unsigned.Denotes text n)
      (hn : n ≤ Limits.maxNat64) (hmax : maxFrameBytes < n) :
      Verdict rest (some text) (.fault (.protocol ("Content-Length " ++ toString n ++
        " exceeds the " ++ toString maxFrameBytes ++ " byte limit")))
  | short (text : List Char) (n : Nat) (h : Unsigned.Denotes text n) (hmax : n ≤ maxFrameBytes)
      (hrest : rest.length < n) : Verdict rest (some text) (.fault (.io "early eof"))
  | garbled (text : List Char) (n : Nat) (why : Utf8.Fault) (h : Unsigned.Denotes text n)
      (hmax : n ≤ maxFrameBytes) (hrest : n ≤ rest.length)
      (hbody : ¬∃ body : String, rest.take n = Utf8.bytes body) :
      Verdict rest (some text) (.fault (.protocol ("Invalid UTF-8 in content: " ++ why.message)))
  | frame (text : List Char) (n : Nat) (body : String) (h : Unsigned.Denotes text n)
      (hmax : n ≤ maxFrameBytes) (hrest : n ≤ rest.length) (hbody : rest.take n = Utf8.bytes body) :
      Verdict rest (some text) (.frame body (rest.drop n))

/-- What is read of the bytes after a section, from the headers that were found in it. -/
private def readRest (hs : List Header) (rest : List UInt8) : Read :=
  match (bodyLength hs).bind (readBody · rest) with
  | .ok (text, rest) => .frame text rest
  | .error f => .fault f

private theorem verdict_readBody {text : List Char} {n : Nat} (h : Unsigned.Denotes text n)
    (hmax : n ≤ maxFrameBytes) (rest : List UInt8) :
    Verdict rest (some text)
      (match readBody n rest with
        | .ok (text, rest) => .frame text rest
        | .error f => .fault f) := by
  unfold readBody
  by_cases hrest : rest.length < n
  · rw [if_pos hrest]
    exact .short text n h hmax hrest
  · rw [if_neg hrest]
    cases hd : Utf8.decode (rest.take n) with
    | error why =>
      refine .garbled text n why h hmax (by omega) ?_
      rintro ⟨body, hbody⟩
      rw [hbody, Utf8.bytes, Utf8.decode_encode] at hd
      cases hd
    | ok cs =>
      refine .frame text n (String.ofList cs) h hmax (by omega) ?_
      rw [Utf8.bytes, String.toList_ofList]
      exact Utf8.decode_eq_ok_iff.mp hd

private theorem verdict_readRest (hs : List Header) (rest : List UInt8) :
    Verdict rest ((Header.last? "content-length" hs).map Header.value) (readRest hs rest) := by
  unfold readRest bodyLength
  cases Header.last? "content-length" hs with
  | none => exact .missing
  | some h =>
    simp only [Option.map_some]
    cases hr : Unsigned.read Limits.maxNat64 h.value with
    | error why =>
      refine .invalid h.value why ?_
      rintro ⟨n, hn⟩
      rw [Unsigned.read_eq_ok_iff.mpr hn] at hr
      cases hr
    | ok n =>
      obtain ⟨hn, hlt⟩ := Unsigned.read_eq_ok_iff.mp hr
      simp only
      by_cases hmax : n > maxFrameBytes
      · rw [if_pos hmax]
        exact .excessive h.value n hn hlt hmax
      · rw [if_neg hmax]
        exact verdict_readBody hn (by omega) rest

private theorem readRest_congr {hs hs' : List Header} (rest : List UInt8)
    (h : (Header.last? "content-length" hs).map Header.value =
      (Header.last? "content-length" hs').map Header.value) : readRest hs rest = readRest hs' rest := by
  unfold readRest bodyLength
  cases h₁ : Header.last? "content-length" hs <;> cases h₂ : Header.last? "content-length" hs' <;>
    rw [h₁, h₂] at h <;> simp_all

/-- After any section the reader goes by the length that is written last and by nothing else. Without
one, or with one that is no number or a number beyond the limits, it faults; with one of `n` it takes
exactly the `n` bytes that follow, if there are so many and they are UTF-8, and goes on right after
them. -/
theorem readFrame_preamble (p : Preamble) (rest : List UInt8) :
    ∃ read, readFrame (p.bytes ++ rest) = (p.notes, read) ∧ Verdict rest p.length? read ∧
      ∀ q : Preamble, q.length? = p.length? → (readFrame (q.bytes ++ rest)).2 = read := by
  have hread (q : Preamble) :
      readFrame (q.bytes ++ rest) = (q.notes, readRest (headersOf q.headers) rest) := by
    rw [readFrame, q.readSection_bytes, readRest]
    simp only
    cases (bodyLength (headersOf q.headers)).bind (readBody · rest) <;> rfl
  refine ⟨readRest (headersOf p.headers) rest, hread p, ?_, fun q hq => ?_⟩
  · rw [← p.last?_headers]
    exact verdict_readRest (headersOf p.headers) rest
  · rw [hread q]
    exact readRest_congr rest (by rw [q.last?_headers, p.last?_headers, hq])

end Transport.Framing

end LanguageClient
