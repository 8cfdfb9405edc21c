import LanguageClient.Text.Utf8
import Mathlib.Data.Char
/-!
Decoding undoes encoding. A character is read back from the bytes it was written as, whatever
follows them, so that the bytes of a text leave nothing over. Conversely a character is scanned from
its own bytes only, so that what can be decoded is what was written.
-/
namespace LanguageClient.Text.Utf8

private theorem lead_ofNat {n : Nat} (h : n < 256) :
    lead (UInt8.ofNat n) =
      if n < 0x80 then some (0, 0x80, 0xBF, n)
      else if 0xC2 ≤ n ∧ n ≤ 0xDF then some (1, 0x80, 0xBF, n - 0xC0)
      else if n = 0xE0 then some (2, 0xA0, 0xBF, 0)
      else if n = 0xED then some (2, 0x80, 0x9F, 0xD)
      else if 0xE1 ≤ n ∧ n ≤ 0xEF then some (2, 0x80, 0xBF, n - 0xE0)
      else if n = 0xF0 then some (3, 0x90, 0xBF, 0)
      else if n = 0xF4 then some (3, 0x80, 0x8F, 4)
      else if 0xF1 ≤ n ∧ n ≤ 0xF3 then some (3, 0x80, 0xBF, n - 0xF0)
      else none := by
  have hn : (UInt8.ofNat n).toNat = n := by simp [Nat.mod_eq_of_lt h]
  simp only [lead, UInt8.lt_iff_toNat_lt, UInt8.le_iff_toNat_le, ← UInt8.toNat_inj, hn]
  rfl

private theorem tails_ofNat {owed code seen n : Nat} {low high : UInt8} {rest : List UInt8}
    (hl : low.toNat ≤ n) (hh : n ≤ high.toNat) :
    tails (owed + 1) low high code seen (UInt8.ofNat n :: rest) =
      tails owed 0x80 0xBF (code * 64 + (n - 0x80)) (seen + 1) rest := by
  have hb := high.toNat_lt
  have hn : (UInt8.ofNat n).toNat = n := by simp; omega
  rw [tails, if_pos (by rw [UInt8.le_iff_toNat_le, UInt8.le_iff_toNat_le, hn]; exact ⟨hl, hh⟩), hn]

private theorem tails_zero {n seen : Nat} {low high : UInt8} {rest : List UInt8} {c : Char}
    (h : n = c.toNat) : tails 0 low high n seen rest = .char c rest := by
  rw [tails, h, Char.ofNat_toNat]

private theorem scalar (c : Char) :
    c.toNat < 0xD800 ∨ 0xDFFF < c.toNat ∧ c.toNat < 0x110000 := c.valid

private theorem scan_one {c : Char} {rest : List UInt8} (h : c.toNat < 0x80) :
    scan (UInt8.ofNat c.toNat) rest = .char c rest := by
  rw [scan, lead_ofNat (by omega), if_pos h]
  exact tails_zero rfl

private theorem scan_two {a b : Nat} {c : Char} {rest : List UInt8} (ha : a < 32) (hb : b < 64)
    (hc : a * 64 + b = c.toNat) (hmin : 0x80 ≤ c.toNat) :
    scan (UInt8.ofNat (a + 0xC0)) (UInt8.ofNat (b + 0x80) :: rest) = .char c rest := by
  rw [scan, lead_ofNat (by omega), if_neg (by omega), if_pos (by omega)]
  simp only
  rw [tails_ofNat (by simp) (by simp; omega)]
  exact tails_zero (by omega)

/-- The first tail byte has a narrower range after `0xE0`, where a shorter form would do, and after
`0xED`, where the surrogates would be. -/
private theorem scan_three {a b d : Nat} {c : Char} {rest : List UInt8} (ha : a < 16) (hb : b < 64)
    (hd : d < 64) (hc : (a * 64 + b) * 64 + d = c.toNat) (hmin : 0x800 ≤ c.toNat) :
    scan (UInt8.ofNat (a + 0xE0)) (UInt8.ofNat (b + 0x80) :: UInt8.ofNat (d + 0x80) :: rest) =
      .char c rest := by
  have hv := scalar c
  rw [scan, lead_ofNat (by omega), if_neg (by omega), if_neg (by omega)]
  by_cases h0 : a = 0
  · subst h0
    simp only [Nat.zero_add, ↓reduceIte]
    rw [tails_ofNat (by simp; omega) (by simp; omega), tails_ofNat (by simp) (by simp; omega)]
    exact tails_zero (by omega)
  · by_cases h13 : a = 13
    · subst h13
      simp only [Nat.reduceAdd, Nat.reduceEqDiff, ↓reduceIte]
      rw [tails_ofNat (by simp) (by simp; omega), tails_ofNat (by simp) (by simp; omega)]
      exact tails_zero (by omega)
    · rw [if_neg (by omega), if_neg (by omega), if_pos (by omega)]
      simp only
      rw [tails_ofNat (by simp) (by simp; omega), tails_ofNat (by simp) (by simp; omega)]
      exact tails_zero (by omega)

/-- The first tail byte has a narrower range after `0xF0`, where a shorter form would do, and after
`0xF4`, where the code points end. -/
private theorem scan_four {a b d e : Nat} {c : Char} {rest : List UInt8} (ha : a < 8) (hb : b < 64)
    (hd : d < 64) (he : e < 64) (hc : ((a * 64 + b) * 64 + d) * 64 + e = c.toNat)
    (hmin : 0x10000 ≤ c.toNat) :
    scan (UInt8.ofNat (a + 0xF0)) (UInt8.ofNat (b + 0x80) :: UInt8.ofNat (d + 0x80) ::
      UInt8.ofNat (e + 0x80) :: rest) = .char c rest := by
  have hv := scalar c
  rw [scan, lead_ofNat (by omega), if_neg (by omega), if_neg (by omega), if_neg (by omega),
    if_neg (by omega), if_neg (by omega)]
  by_cases h0 : a = 0
  · subst h0
    simp only [Nat.zero_add, ↓reduceIte]
    rw [tails_ofNat (by simp; omega) (by simp; omega), tails_ofNat (by simp) (by simp; omega),
      tails_ofNat (by simp) (by simp; omega)]
    exact tails_zero (by omega)
  · by_cases h4 : a = 4
    · subst h4
      simp only [Nat.reduceAdd, Nat.reduceEqDiff, ↓reduceIte]
      rw [tails_ofNat (by simp) (by simp; omega), tails_ofNat (by simp) (by simp; omega),
        tails_ofNat (by simp) (by simp; omega)]
      exact tails_zero (by omega)
    · rw [if_neg (by omega), if_neg (by omega), if_pos (by omega)]
      simp only
      rw [tails_ofNat (by simp) (by simp; omega), tails_ofNat (by simp) (by simp; omega),
        tails_ofNat (by simp) (by simp; omega)]
      exact tails_zero (by omega)

/-- The bytes of a character are scanned as that character, and no byte beyond them is looked at. -/
theorem scan_encodeChar (c : Char) (rest : List UInt8) :
    ∃ b bs, String.utf8EncodeChar c = b :: bs ∧ scan b (bs ++ rest) = .char c rest := by
  have hv := scalar c
  have hval : c.val.toNat = c.toNat := rfl
  unfold String.utf8EncodeChar
  simp only [hval]
  split
  · exact ⟨_, _, rfl, scan_one (by omega)⟩
  · split
    · exact ⟨_, _, rfl, scan_two (by omega) (by omega) (by omega) (by omega)⟩
    · split
      · exact ⟨_, _, rfl, scan_three (by omega) (by omega) (by omega) (by omega) (by omega)⟩
      · exact ⟨_, _, rfl, scan_four (by omega) (by omega) (by omega) (by omega) (by omega) (by omega)⟩

theorem decodeFrom_encode (cs : List Char) (index : Nat) : decodeFrom index (encode cs) = .ok cs := by
  induction cs generalizing index with
  | nil => simp [encode, decodeFrom]
  | cons c cs ih =>
    obtain ⟨b, bs, hb, hs⟩ := scan_encodeChar c (encode cs)
    have he : encode (c :: cs) = b :: (bs ++ encode cs) := by
      simp only [encode, List.flatMap_cons] at hb ⊢
      rw [hb, List.cons_append]
    rw [he, decodeFrom]
    split
    · rename_i d rest h
      rw [hs] at h
      obtain ⟨rfl, rfl⟩ := Scan.char.inj h
      rw [ih]
      rfl
    · rename_i n h
      rw [hs] at h
      cases h
    · rename_i h
      rw [hs] at h
      cases h

theorem decode_encode (cs : List Char) : decode (encode cs) = .ok cs := decodeFrom_encode cs 0

private theorem val_ofNat {n : Nat} (h : n.isValidChar) : (Char.ofNat n).val.toNat = n := by
  rw [Char.ofNat, dif_pos h]
  rfl

private theorem byte_eq {b : UInt8} {n : Nat} (h : n = b.toNat) : UInt8.ofNat n = b := by
  rw [h, UInt8.ofNat_toNat]

private theorem tails_succ {owed code seen : Nat} {low high : UInt8} {bs rest : List UInt8}
    {c : Char} (h : tails (owed + 1) low high code seen bs = .char c rest) :
    ∃ b bs', bs = b :: bs' ∧ low.toNat ≤ b.toNat ∧ b.toNat ≤ high.toNat ∧
      tails owed 0x80 0xBF (code * 64 + (b.toNat - 0x80)) (seen + 1) bs' = .char c rest := by
  cases bs with
  | nil => cases h
  | cons b bs =>
    rw [tails] at h
    split at h
    · rename_i hb
      exact ⟨b, bs, rfl, UInt8.le_iff_toNat_le.mp hb.1, UInt8.le_iff_toNat_le.mp hb.2, h⟩
    · cases h

private theorem encodeChar_two {a b : UInt8} (ha : 0xC2 ≤ a.toNat) (ha' : a.toNat ≤ 0xDF)
    (hb : 0x80 ≤ b.toNat) (hb' : b.toNat ≤ 0xBF) :
    String.utf8EncodeChar (Char.ofNat ((a.toNat - 0xC0) * 64 + (b.toNat - 0x80))) = [a, b] := by
  unfold String.utf8EncodeChar
  simp only [val_ofNat (n := (a.toNat - 0xC0) * 64 + (b.toNat - 0x80)) (by left; omega)]
  rw [if_neg (by omega), if_pos (by omega), byte_eq (b := a) (by omega), byte_eq (b := b) (by omega)]

private theorem encodeChar_three {a : Nat} {l b d : UInt8} (hl : l.toNat = a + 0xE0) (ha : a < 16)
    (hb : 0x80 ≤ b.toNat) (hb' : b.toNat ≤ 0xBF) (hd : 0x80 ≤ d.toNat) (hd' : d.toNat ≤ 0xBF)
    (hmin : a = 0 → 0xA0 ≤ b.toNat) (hsur : a = 13 → b.toNat ≤ 0x9F) :
    String.utf8EncodeChar
      (Char.ofNat ((a * 64 + (b.toNat - 0x80)) * 64 + (d.toNat - 0x80))) = [l, b, d] := by
  unfold String.utf8EncodeChar
  simp only [val_ofNat (n := (a * 64 + (b.toNat - 0x80)) * 64 + (d.toNat - 0x80))
    (by unfold Nat.isValidChar; omega)]
  rw [if_neg (by omega), if_neg (by omega), if_pos (by omega), byte_eq (b := l) (by omega),
    byte_eq (b := b) (by omega), byte_eq (b := d) (by omega)]

private theorem encodeChar_four {a : Nat} {l b d e : UInt8} (hl : l.toNat = a + 0xF0) (ha : a < 5)
    (hb : 0x80 ≤ b.toNat) (hb' : b.toNat ≤ 0xBF) (hd : 0x80 ≤ d.toNat) (hd' : d.toNat ≤ 0xBF)
    (he : 0x80 ≤ e.toNat) (he' : e.toNat ≤ 0xBF)
    (hmin : a = 0 → 0x90 ≤ b.toNat) (hmax : a = 4 → b.toNat ≤ 0x8F) :
    String.utf8EncodeChar (Char.ofNat
      (((a * 64 + (b.toNat - 0x80)) * 64 + (d.toNat - 0x80)) * 64 + (e.toNat - 0x80))) =
        [l, b, d, e] := by
  unfold String.utf8EncodeChar
  simp only [val_ofNat
    (n := ((a * 64 + (b.toNat - 0x80)) * 64 + (d.toNat - 0x80)) * 64 + (e.toNat - 0x80))
    (by unfold Nat.isValidChar; omega)]
  rw [if_neg (by omega), if_neg (by omega), if_neg (by omega), byte_eq (b := l) (by omega),
    byte_eq (b := b) (by omega), byte_eq (b := d) (by omega), byte_eq (b := e) (by omega)]

private theorem tails_two {a : Nat} {l low high : UInt8} {bs rest : List UInt8} {c : Char}
    (h : tails 2 low high a 1 bs = .char c rest) (hl : l.toNat = a + 0xE0) (ha : a < 16)
    (hlow : 0x80 ≤ low.toNat) (hhigh : high.toNat ≤ 0xBF)
    (hmin : a = 0 → 0xA0 ≤ low.toNat) (hsur : a = 13 → high.toNat ≤ 0x9F) :
    l :: bs = String.utf8EncodeChar c ++ rest := by
  obtain ⟨b, _, rfl, hb, hb', h⟩ := tails_succ h
  obtain ⟨d, _, rfl, hd, hd', h⟩ := tails_succ h
  obtain ⟨rfl, rfl⟩ := Scan.char.inj h
  rw [encodeChar_three hl ha (by omega) (by omega) hd hd' (by omega) (by omega)]
  rfl

private theorem tails_three {a : Nat} {l low high : UInt8} {bs rest : List UInt8} {c : Char}
    (h : tails 3 low high a 1 bs = .char c rest) (hl : l.toNat = a + 0xF0) (ha : a < 5)
    (hlow : 0x80 ≤ low.toNat) (hhigh : high.toNat ≤ 0xBF)
    (hmin : a = 0 → 0x90 ≤ low.toNat) (hmax : a = 4 → high.toNat ≤ 0x8F) :
    l :: bs = String.utf8EncodeChar c ++ rest := by
  obtain ⟨b, _, rfl, hb, hb', h⟩ := tails_succ h
  obtain ⟨d, _, rfl, hd, hd', h⟩ := tails_succ h
  obtain ⟨e, _, rfl, he, he', h⟩ := tails_succ h
  obtain ⟨rfl, rfl⟩ := Scan.char.inj h
  rw [encodeChar_four hl ha (by omega) (by omega) hd hd' he he' (by omega) (by omega)]
  rfl

theorem eq_of_scan {b : UInt8} {bs rest : List UInt8} {c : Char} (h : scan b bs = .char c rest) :
    b :: bs = String.utf8EncodeChar c ++ rest := by
  obtain ⟨n, hn, hb⟩ : ∃ n, b.toNat = n ∧ b = UInt8.ofNat n :=
    ⟨b.toNat, rfl, UInt8.ofNat_toNat.symm⟩
  have hlt : n < 256 := hn ▸ b.toNat_lt
  rw [scan, hb, lead_ofNat hlt] at h
  by_cases h1 : n < 0x80
  · rw [if_pos h1] at h
    obtain ⟨rfl, rfl⟩ := Scan.char.inj h
    unfold String.utf8EncodeChar
    simp only [val_ofNat (n := n) (by left; omega)]
    rw [if_pos (by omega), ← hb]
    rfl
  rw [if_neg h1] at h
  by_cases h2 : 0xC2 ≤ n ∧ n ≤ 0xDF
  · rw [if_pos h2] at h
    obtain ⟨d, _, rfl, hd, hd', h⟩ := tails_succ h
    obtain ⟨rfl, rfl⟩ := Scan.char.inj h
    rw [← hn, encodeChar_two (by omega) (by omega) hd hd']
    rfl
  rw [if_neg h2] at h
  by_cases h3 : n = 0xE0
  · rw [if_pos h3] at h
    exact tails_two h (by omega) (by omega) (by decide) (by decide) (by decide) (by decide)
  rw [if_neg h3] at h
  by_cases h4 : n = 0xED
  · rw [if_pos h4] at h
    exact tails_two h (by omega) (by omega) (by decide) (by decide) (by decide) (by decide)
  rw [if_neg h4] at h
  by_cases h5 : 0xE1 ≤ n ∧ n ≤ 0xEF
  · rw [if_pos h5] at h
    exact tails_two h (by omega) (by omega) (by decide) (by decide) (by omega) (by omega)
  rw [if_neg h5] at h
  by_cases h6 : n = 0xF0
  · rw [if_pos h6] at h
    exact tails_three h (by omega) (by omega) (by decide) (by decide) (by decide) (by decide)
  rw [if_neg h6] at h
  by_cases h7 : n = 0xF4
  · rw [if_pos h7] at h
    exact tails_three h (by omega) (by omega) (by decide) (by decide) (by decide) (by decide)
  rw [if_neg h7] at h
  by_cases h8 : 0xF1 ≤ n ∧ n ≤ 0xF3
  · rw [if_pos h8] at h
    exact tails_three h (by omega) (by omega) (by decide) (by decide) (by omega) (by omega)
  rw [if_neg h8] at h
  cases h

theorem eq_encode_of_decodeFrom {index : Nat} {bs : List UInt8} {cs : List Char}
    (h : decodeFrom index bs = .ok cs) : bs = encode cs := by
  fun_induction decodeFrom index bs generalizing cs with
  | case1 => cases h; rfl
  | case2 index b bs c rest hs ih =>
    cases hd : decodeFrom (index + 1 + (bs.length - rest.length)) rest with
    | error f => rw [hd] at h; cases h
    | ok ds =>
      rw [hd] at h
      cases h
      rw [eq_of_scan hs, ih hd, encode, encode, List.flatMap_cons]
  | case3 => cases h
  | case4 => cases h

/-- A decoder's output is the one text that is written as its input. -/
theorem decode_eq_ok_iff {bs : List UInt8} {cs : List Char} : decode bs = .ok cs ↔ bs = encode cs :=
  ⟨eq_encode_of_decodeFrom, fun h => h ▸ decode_encode cs⟩

end LanguageClient.Text.Utf8
