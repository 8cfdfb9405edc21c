import LanguageClient.Proofs.HeaderSections
import Mathlib.Tactic.IntervalCases
/-!
What the reader makes of written frames that break off. A frame that breaks off after the name of its
header is told from a stream that ends between frames, wherever it breaks off. One that breaks off
within the name is not: what is left of the name is a line without a colon, which the reader passes
over, and the end that follows comes before any header.
-/
namespace LanguageClient

namespace Text.Utf8

theorem encode_ascii {cs : List Char} (h : ∀ c ∈ cs, c.toNat < 0x80) :
    encode cs = cs.map fun c => UInt8.ofNat c.toNat := by
  induction cs with
  | nil => rfl
  | cons c cs ih =>
    have hc : c.val.toNat ≤ 127 := Nat.le_of_lt_succ (h c List.mem_cons_self)
    rw [encode, List.flatMap_cons, ← encode, ih fun d hd => h d (List.mem_cons_of_mem c hd),
      String.utf8EncodeChar]
    simp only [if_pos hc]
    rfl

theorem take_encode {cs : List Char} (h : ∀ c ∈ cs, c.toNat < 0x80) (n : Nat) :
    (encode cs).take n = encode (cs.take n) := by
  rw [encode_ascii h, encode_ascii fun c hc => h c (List.mem_of_mem_take hc), List.map_take]

end Text.Utf8

namespace Transport.Framing
open Text

/-- A frame that the reader takes, if all of it arrives. -/
def Fits (frame : String) : Prop := (Utf8.bytes frame).length ≤ maxFrameBytes

instance : DecidablePred Fits := fun frame => Nat.decLe (Utf8.bytes frame).length maxFrameBytes

private theorem header_ascii {n : Nat} {c : Char} (h : c ∈ lengthLine n ++ ['\n', '\r', '\n']) :
    c.toNat < 0x80 := by
  have hend : ∀ c ∈ ['\n', '\r', '\n'], c.toNat < 0x80 :=
    List.all_iff_forall_prop.mp (by decide)
  rcases List.mem_append.mp h with h | h
  · exact (lengthLine_ascii h).1
  · exact hend c h

private theorem take_header (frame : String) (j : Nat) :
    (header frame).take j =
      Utf8.encode ((lengthLine (Utf8.bytes frame).length ++ ['\n', '\r', '\n']).take j) := by
  rw [header_eq, Utf8.take_encode fun c => header_ascii]

private theorem length_header (frame : String) :
    (header frame).length = (lengthLine (Utf8.bytes frame).length).length + 3 := by
  rw [header_eq, Utf8.encode_ascii fun c => header_ascii, List.length_map, List.length_append]
  rfl

private theorem lengthLine_split (n : Nat) :
    ∃ value, lengthLine n = lengthName ++ ':' :: value ∧ '\n' ∉ value := by
  refine ⟨' ' :: Nat.toDigits 10 n ++ ['\r'], by simp [lengthLine], fun h => ?_⟩
  exact (lengthLine_ascii (n := n) (c := '\n') (by simp_all [lengthLine])).2 rfl

private theorem readSection_cutName {frame : String} {j : Nat} (hpos : 0 < j)
    (hj : j ≤ lengthName.length) :
    readSection [] ((header frame).take j) =
      (["Malformed header: " ++ String.ofList (lengthName.take j)], .absent) := by
  obtain ⟨value, hline, -⟩ := lengthLine_split (Utf8.bytes frame).length
  have hparts : ∀ j ≤ lengthName.length, 0 < j → Utf8.encode (lengthName.take j) ≠ [] ∧
      '\n' ∉ lengthName.take j ∧
      Line.ofChars (lengthName.take j) = .malformed (lengthName.take j) := by decide
  obtain ⟨hne, hn, hmalformed⟩ := hparts j hj hpos
  rw [take_header, hline, List.append_assoc, List.take_append_of_le_length hj,
    readSection_lastLine hne hn, hmalformed, afterLine]
  simp only [readSection, List.isEmpty_nil, if_true]

private theorem readSection_found (h : Header) {tail : List Char} (htail : tail = [] ∨ tail = ['\r']) :
    (readSection [h] (Utf8.encode tail)).2 =
      .broken (.transport "stream ended inside a message header") := by
  have hend : readSection [h] [] =
      ([], .broken (.transport "stream ended inside a message header")) := by
    rw [readSection]
    rfl
  rcases htail with rfl | rfl
  · exact congrArg Prod.snd hend
  · have hline : Line.ofChars ['\r'] = .malformed [] := by decide
    rw [readSection_lastLine (by decide) (by decide), hline, afterLine, hend]

private theorem readSection_cutHeader {frame : String} {j : Nat} (hname : lengthName.length < j)
    (hj : j < (header frame).length) :
    (readSection [] ((header frame).take j)).2 =
      .broken (.transport "stream ended inside a message header") := by
  have hlen := length_header frame
  obtain ⟨value, hline, hn⟩ := lengthLine_split (Utf8.bytes frame).length
  rw [take_header]
  generalize lengthLine (Utf8.bytes frame).length = line at hlen hline
  have hnl : '\n' ∉ line := by
    rw [hline, List.mem_append, List.mem_cons]
    exact not_or.mpr ⟨by decide, not_or.mpr ⟨by decide, hn⟩⟩
  by_cases hin : j ≤ line.length
  · -- the line lacks its line feed, and perhaps some of its value
    obtain ⟨k, rfl⟩ : ∃ k, j = lengthName.length + (k + 1) := ⟨j - lengthName.length - 1, by omega⟩
    have htake : line.take (lengthName.length + (k + 1)) = lengthName ++ ':' :: value.take k := by
      rw [hline, List.take_length_add_append, List.take_succ_cons]
    have hne : Utf8.encode (lengthName ++ ':' :: value.take k) ≠ [] := by
      rw [Utf8.encode_append]
      exact List.append_ne_nil_of_left_ne_nil (by decide) _
    rw [List.take_append_of_le_length hin, htake,
      readSection_lastLine hne fun hm => hnl (List.mem_of_mem_take (htake ▸ hm)),
      ofChars_header (by decide), afterLine]
    exact readSection_found _ (.inl rfl)
  · -- the line is whole, and of the blank line at most a carriage return has come
    obtain ⟨k, rfl⟩ : ∃ k, j = line.length + (k + 1) := ⟨j - line.length - 1, by omega⟩
    have htail : ['\r', '\n'].take k = [] ∨ ['\r', '\n'].take k = ['\r'] := by
      have hk : k < 2 := by omega
      interval_cases k
      · exact .inl rfl
      · exact .inr rfl
    have hbytes : Utf8.encode (line ++ '\n' :: ['\r', '\n'].take k) =
        Utf8.encode line ++ 10 :: Utf8.encode (['\r', '\n'].take k) := Utf8.encode_append _ _
    rw [List.take_length_add_append, List.take_succ_cons, hbytes, readSection_line hnl, hline,
      List.append_assoc, List.cons_append, ofChars_header (by decide), afterLine]
    exact readSection_found _ htail

private theorem bodyLength_excessive {n : Nat} (h : ¬n ≤ maxFrameBytes) :
    ∃ text, bodyLength [⟨"content-length".toList, Nat.toDigits 10 n⟩] = .error (.protocol text) := by
  have hlast : Header.last? "content-length" [⟨"content-length".toList, Nat.toDigits 10 n⟩] =
      some ⟨"content-length".toList, Nat.toDigits 10 n⟩ := by
    simp [Header.last?]
  rw [bodyLength, hlast]
  simp only
  cases hr : Unsigned.read Limits.maxNat64 (Nat.toDigits 10 n) with
  | error why => exact ⟨_, rfl⟩
  | ok m =>
    have hm : m = n := (Unsigned.read_eq_ok_iff.mp hr).1.unique (Unsigned.denotes_toDigits n)
    simp only
    rw [if_pos (by omega)]
    exact ⟨_, rfl⟩

/-- A frame above the limit is refused at its header, whatever follows that. -/
private theorem readFrame_excessive {frame : String} (h : ¬Fits frame) (rest : List UInt8) :
    ∃ text, readFrame (header frame ++ rest) = ([], .fault (.protocol text)) := by
  obtain ⟨text, hlength⟩ := bodyLength_excessive h
  refine ⟨text, ?_⟩
  rw [readFrame, readSection_header]
  simp only [hlength, Except.bind]

private theorem readFrame_cutBody {frame : String} {j : Nat} (h : Fits frame)
    (hj : j < (Utf8.bytes frame).length) :
    readFrame (header frame ++ (Utf8.bytes frame).take j) = ([], .fault (.io "early eof")) := by
  have hshort : ((Utf8.bytes frame).take j).length < (Utf8.bytes frame).length := by
    rw [List.length_take]
    omega
  rw [readFrame, readSection_header]
  simp only [bodyLength_toDigits h, Except.bind]
  rw [readBody, if_pos hshort]

/-- What is read where only the first `j` bytes of a frame arrive. -/
inductive CutShort (frame : String) (j : Nat) : Transcript → Prop where
  | outside (h : j = 0) : CutShort frame j ⟨[], [], none⟩
  | inName (h : j ≤ lengthName.length) :
      CutShort frame j ⟨[], ["Malformed header: " ++ String.ofList (lengthName.take j)], none⟩
  | inHeader (notes : List String) (hname : lengthName.length < j) (h : j < (header frame).length) :
      CutShort frame j ⟨[], notes, some (.transport "stream ended inside a message header")⟩
  | inBody (hfits : Fits frame) (h : (header frame).length ≤ j) :
      CutShort frame j ⟨[], [], some (.io "early eof")⟩
  | refused (text : String) (hfits : ¬Fits frame) (h : (header frame).length ≤ j) :
      CutShort frame j ⟨[], [], some (.protocol text)⟩

theorem lengthName_lt_header (frame : String) : lengthName.length < (header frame).length := by
  obtain ⟨value, hline, -⟩ := lengthLine_split (Utf8.bytes frame).length
  rw [length_header, hline, List.length_append]
  omega

theorem readAll_cut {frame : String} {j : Nat} (hj : j < (encode frame).length) :
    CutShort frame j (readAll ((encode frame).take j)) := by
  have hbody : (encode frame).length = (header frame).length + (Utf8.bytes frame).length := by
    rw [encode_eq, List.length_append]
  have hname := lengthName_lt_header frame
  by_cases hzero : j = 0
  · rw [hzero, List.take_zero, readAll_nil]
    exact .outside rfl
  by_cases hh : j < (header frame).length
  · rw [encode_eq, List.take_append_of_le_length (Nat.le_of_lt hh)]
    by_cases hn : j ≤ lengthName.length
    · have hread : readFrame ((header frame).take j) =
          (["Malformed header: " ++ String.ofList (lengthName.take j)], .finish) := by
        rw [readFrame, readSection_cutName (Nat.pos_of_ne_zero hzero) hn]
      rw [readAll_of_finish hread]
      exact .inName hn
    · have hread : readFrame ((header frame).take j) =
          ((readSection [] ((header frame).take j)).1,
            .fault (.transport "stream ended inside a message header")) := by
        have hsection := readSection_cutHeader (Nat.lt_of_not_le hn) hh
        unfold readFrame
        split <;> rename_i he <;> rw [he] at hsection <;> cases hsection
        rw [he]
      rw [readAll_of_fault hread]
      exact .inHeader _ (Nat.lt_of_not_le hn) hh
  · obtain ⟨k, rfl⟩ : ∃ k, j = (header frame).length + k := ⟨j - (header frame).length, by omega⟩
    rw [encode_eq, List.take_length_add_append]
    by_cases hfits : Fits frame
    · rw [readAll_of_fault (readFrame_cutBody hfits (by omega))]
      exact .inBody hfits (Nat.le_add_right _ _)
    · obtain ⟨text, hread⟩ := readFrame_excessive hfits ((Utf8.bytes frame).take k)
      rw [readAll_of_fault hread]
      exact .refused text hfits (Nat.le_add_right _ _)

private theorem readAll_refused {before : List String} (h : ¬∀ f ∈ before, Fits f)
    (rest : List UInt8) :
    ∃ text, readAll (encodeAll before ++ rest) =
      ⟨before.takeWhile (Fits ·), [], some (.protocol text)⟩ := by
  induction before with
  | nil => exact absurd (fun _ hm => by cases hm) h
  | cons frame before ih =>
    rw [encodeAll_cons]
    by_cases hf : Fits frame
    · have hmore : ¬∀ f ∈ before, Fits f := fun hall => h (List.forall_mem_cons.mpr ⟨hf, hall⟩)
      obtain ⟨text, ih⟩ := ih hmore
      refine ⟨text, ?_⟩
      rw [readAll_of_frame (readFrame_encode hf _), ih, List.takeWhile_cons_of_pos (by simpa using hf)]
      rfl
    · obtain ⟨text, hread⟩ := readFrame_excessive hf (Utf8.bytes frame ++ (encodeAll before ++ rest))
      refine ⟨text, ?_⟩
      rw [encode_eq, List.append_assoc, readAll_of_fault hread,
        List.takeWhile_cons_of_neg (by simpa using hf)]

private theorem take_encodeAll {before after : List String} {frame : String} {j : Nat}
    (hj : j < (encode frame).length) :
    (encodeAll (before ++ frame :: after)).take ((encodeAll before).length + j) =
      encodeAll before ++ (encode frame).take j := by
  have hall : encodeAll (before ++ frame :: after) =
      encodeAll before ++ (encode frame ++ encodeAll after) := by
    simp only [encodeAll, List.flatMap_append, List.flatMap_cons]
  rw [hall, List.take_length_add_append, List.take_append_of_le_length (Nat.le_of_lt hj)]

/-- Of a stream that breaks off within a frame the frames before it are delivered, up to the first
that does not fit. The reading ends with a fault unless the stream breaks off before the first byte
of the frame or within the name of its header. -/
theorem readAll_broken_off (before after : List String) {frame : String} {j : Nat}
    (hj : j < (encode frame).length) :
    let t := readAll ((encodeAll (before ++ frame :: after)).take ((encodeAll before).length + j))
    t.frames = before.takeWhile (Fits ·) ∧
      (t.fault = none ↔ (∀ f ∈ before, Fits f) ∧ j ≤ "Content-Length".length) ∧
      ((∀ f ∈ before, Fits f) → "Content-Length".length < j → j < (header frame).length →
        t.fault = some (.transport "stream ended inside a message header")) ∧
      ((∀ f ∈ before, Fits f) → Fits frame → (header frame).length ≤ j →
        t.fault = some (.io "early eof")) := by
  have hname : "Content-Length".length = lengthName.length := by decide
  have hheader := lengthName_lt_header frame
  rw [take_encodeAll hj, hname]
  by_cases hall : ∀ f ∈ before, Fits f
  · have hframes : before.takeWhile (Fits ·) = before := by
      have h : (before ++ []).takeWhile (Fits ·) = before ++ [].takeWhile (Fits ·) :=
        List.takeWhile_append_of_pos fun f hm => decide_eq_true (hall f hm)
      simpa only [List.append_nil, List.takeWhile_nil] using h
    rw [readAll_append hall, hframes]
    generalize hcut : readAll ((encode frame).take j) = t
    have hshort : CutShort frame j t := hcut ▸ readAll_cut hj
    cases hshort with
    | outside h =>
      exact ⟨List.append_nil before, ⟨fun _ => ⟨hall, by omega⟩, fun _ => rfl⟩, by omega, by omega⟩
    | inName h =>
      exact ⟨List.append_nil before, ⟨fun _ => ⟨hall, h⟩, fun _ => rfl⟩, by omega, by omega⟩
    | inHeader notes hn h =>
      exact ⟨List.append_nil before, ⟨nofun, by omega⟩, fun _ _ _ => rfl, by omega⟩
    | inBody hfits h =>
      exact ⟨List.append_nil before, ⟨nofun, by omega⟩, by omega, fun _ _ _ => rfl⟩
    | refused text hfits h =>
      exact ⟨List.append_nil before, ⟨nofun, by omega⟩, by omega, fun _ hf => absurd hf hfits⟩
  · obtain ⟨text, hread⟩ := readAll_refused hall ((encode frame).take j)
    rw [hread]
    exact ⟨rfl, by simp [hall], fun h => absurd h hall, fun h => absurd h hall⟩

theorem readAll_broken_off_in_body :
    25 < (encode "[1,2,3]").length ∧
      (readAll ((encodeAll ["{}", "[1,2,3]", "null"]).take ((encodeAll ["{}"]).length + 25))).frames =
        ["{}"] ∧
      (readAll ((encodeAll ["{}", "[1,2,3]", "null"]).take ((encodeAll ["{}"]).length + 25))).fault =
        some (.io "early eof") := by
  have hj : 25 < (encode "[1,2,3]").length := by decide
  have hfits : ∀ f ∈ ["{}", "[1,2,3]"], Fits f := by decide
  obtain ⟨hframes, -, -, hbody⟩ := readAll_broken_off ["{}"] ["null"] hj
  exact ⟨hj, hframes.trans (by decide),
    hbody (fun f hm => hfits f (List.mem_append_left _ hm)) (hfits _ (by decide)) (by decide)⟩

/-- A stream that breaks off within a frame may pass for one that ends between frames. -/
theorem broken_off_in_name_unnoticed :
    ¬∀ (before after : List String) (frame : String) (j : Nat), (∀ f ∈ before, Fits f) → Fits frame →
      0 < j → j < (encode frame).length →
        (readAll ((encodeAll (before ++ frame :: after)).take
          ((encodeAll before).length + j))).fault ≠ none := by
  intro h
  have hj : 11 < (encode "{}").length := by decide
  refine h [] [] "{}" 11 (by simp) (by decide) (by decide) hj ?_
  have hread : readFrame ((header "{}").take 11) = (["Malformed header: Content-Len"], .finish) := by
    rw [readFrame, readSection_cutName (by decide) (by decide)]
    rfl
  rw [take_encodeAll hj, encode_eq, List.take_append_of_le_length (by decide)]
  exact congrArg Transcript.fault (readAll_of_finish hread)

end Transport.Framing

end LanguageClient
