import LanguageClient.Proofs.ValueRoundTrip
import Mathlib.Data.List.DropRight
/-!
A value is read wherever its text stands. What follows the text makes no difference, as long as it does
not go on with a number, and neither does the room for arrays and objects, as long as there is enough;
so the texts of values, put between brackets with commas between them, are the text of their array.
-/
namespace LanguageClient.Json

variable {more : List Char}

private theorem stringBody?_shortEscape {c u : Char} (h : shortEscape? c = some u) (s : List Char) :
    stringBody? ('\\' :: c :: s) = (stringBody? s).map fun (cs, rest) => (u :: cs, rest) := by
  have hc : c ≠ 'u' := by
    rintro rfl
    cases h
  rw [stringBody?.eq_def]
  split
  · simp_all
  · simp_all
  · simp_all
  · simp_all
  · rename_i heq
    obtain ⟨-, heq⟩ := List.cons.inj heq
    obtain ⟨rfl, rfl⟩ := List.cons.inj heq
    simp only [h]
  · rename_i hnot heq
    obtain ⟨rfl, htail⟩ := List.cons.inj heq
    exact (hnot c s rfl htail.symm).elim

private theorem stringBody?_plain {c : Char} (hquote : c ≠ '"') (h : ¬(c.toNat < 0x20 ∨ c = '\\'))
    (s : List Char) :
    stringBody? (c :: s) = (stringBody? s).map fun (cs, rest) => (c :: cs, rest) := by
  have hslash : c ≠ '\\' := fun hc => h (.inr hc)
  rw [stringBody?.eq_def]
  split
  · simp_all
  · simp_all
  · simp_all
  · simp_all
  · simp_all
  · rename_i heq
    obtain ⟨rfl, rfl⟩ := List.cons.inj heq
    rw [if_neg h]

private theorem stringBody?_surrogates {a b c d e f g h u : Char} {high : Nat}
    (hhigh : hex4? a b c d = some high) (hlone : unit? high = none)
    (hu : (hex4? e f g h).bind (surrogates? high) = some u) (s : List Char) :
    stringBody? ('\\' :: 'u' :: a :: b :: c :: d :: '\\' :: 'u' :: e :: f :: g :: h :: s) =
      (stringBody? s).map fun (cs, rest) => (u :: cs, rest) := by
  rw [stringBody?]
  simp only [hhigh, hlone, hu]

private theorem spelled_more (spelling : List Char) {s body rest : List Char} {u : Char}
    (hspell : ∀ s, stringBody? (spelling ++ s) =
      (stringBody? s).map fun (cs, rest) => (u :: cs, rest))
    (ih : ∀ body, stringBody? s = some (body, rest) →
      stringBody? (s ++ more) = some (body, rest ++ more))
    (h : ((stringBody? s).map fun (cs, rest) => (u :: cs, rest)) = some (body, rest)) :
    stringBody? (spelling ++ (s ++ more)) = some (body, rest ++ more) := by
  obtain ⟨⟨cs, r⟩, hs, heq⟩ := Option.map_eq_some_iff.mp h
  obtain ⟨rfl, rfl⟩ := Prod.mk.inj heq
  rw [hspell, ih cs hs]
  rfl

theorem stringBody?_more {s body rest : List Char} (h : stringBody? s = some (body, rest))
    (more : List Char) : stringBody? (s ++ more) = some (body, rest ++ more) := by
  fun_induction stringBody? s generalizing body with
  | case1 => cases h
  | case2 s =>
    obtain ⟨rfl, rfl⟩ := Prod.mk.inj (Option.some.inj h)
    rfl
  | case3 => cases h
  | case4 a b c d e f g k s high hhigh u hu ih =>
    exact spelled_more ['\\', 'u', a, b, c, d] (stringBody?_unit hhigh hu)
      (fun _ => ih) h
  | case5 a b c d e f g k s high hhigh hlone u hu ih =>
    exact spelled_more ['\\', 'u', a, b, c, d, '\\', 'u', e, f, g, k]
      (stringBody?_surrogates hhigh hlone hu) (fun _ => ih) h
  | case6 => cases h
  | case7 a b c d s _ u hu ih =>
    obtain ⟨n, hn, hu⟩ := Option.bind_eq_some_iff.mp hu
    exact spelled_more ['\\', 'u', a, b, c, d] (stringBody?_unit hn hu) (fun _ => ih) h
  | case8 => cases h
  | case9 c s _ _ u hu ih =>
    exact spelled_more ['\\', c] (stringBody?_shortEscape hu) (fun _ => ih) h
  | case10 => cases h
  | case11 => cases h
  | case12 c s hquote _ _ _ hc ih =>
    exact spelled_more [c] (stringBody?_plain hquote hc) (fun _ => ih) h

private theorem digits_more (hm : Ends more) (s : List Char) :
    Numeral.digits (s ++ more) = ((Numeral.digits s).1, (Numeral.digits s).2 ++ more) := by
  induction s with
  | nil => exact digits_append (List.forall_mem_nil _) hm
  | cons c s ih =>
    unfold Numeral.digits at ih ⊢
    obtain ⟨htake, hdrop⟩ := Prod.mk.inj ih
    by_cases hc : c.isDigit = true
    · rw [List.cons_append, List.takeWhile_cons_of_pos hc, List.dropWhile_cons_of_pos hc,
        List.takeWhile_cons_of_pos hc, List.dropWhile_cons_of_pos hc, htake, hdrop]
    · rw [List.cons_append, List.takeWhile_cons_of_neg hc, List.dropWhile_cons_of_neg hc,
        List.takeWhile_cons_of_neg hc, List.dropWhile_cons_of_neg hc, List.cons_append]

private theorem digits1?_more (hm : Ends more) {s ds rest : List Char}
    (h : Numeral.digits1? s = some (ds, rest)) :
    Numeral.digits1? (s ++ more) = some (ds, rest ++ more) := by
  unfold Numeral.digits1? at h ⊢
  rw [digits_more hm]
  cases hd : Numeral.digits s with
  | mk digits left =>
    rw [hd] at h
    cases digits with
    | nil => cases h
    | cons d digits =>
      obtain ⟨rfl, rfl⟩ := Prod.mk.inj (Option.some.inj h)
      rfl

private theorem whole?_more (hm : Ends more) {s ds rest : List Char}
    (h : Numeral.whole? s = some (ds, rest)) :
    Numeral.whole? (s ++ more) = some (ds, rest ++ more) := by
  unfold Numeral.whole? at h ⊢
  rw [digits_more hm]
  generalize Numeral.digits s = found at h ⊢
  obtain ⟨digits, left⟩ := found
  simp only at h ⊢
  split at h
  · cases h
  · rename_i heq
    obtain ⟨rfl, rfl⟩ := Prod.mk.inj heq
    obtain ⟨rfl, rfl⟩ := Prod.mk.inj (Option.some.inj h)
    rfl
  · cases h
  · rename_i hnil hzero hlead
    obtain ⟨rfl, rfl⟩ := Prod.mk.inj (Option.some.inj h)
    split
    · rename_i heq
      exact (hnil left (by rw [(Prod.mk.inj heq).1])).elim
    · rename_i heq
      exact (hzero left (by rw [(Prod.mk.inj heq).1])).elim
    · rename_i heq
      exact (hlead _ left (by rw [(Prod.mk.inj heq).1])).elim
    · rfl

private theorem fraction?_more (hm : Ends more) {s rest : List Char} {fraction : Option (List Char)}
    (h : Numeral.fraction? s = some (fraction, rest)) :
    Numeral.fraction? (s ++ more) = some (fraction, rest ++ more) := by
  unfold Numeral.fraction? at h
  split at h
  · obtain ⟨⟨ds, left⟩, hds, heq⟩ := Option.map_eq_some_iff.mp h
    obtain ⟨rfl, rfl⟩ := Prod.mk.inj heq
    rw [List.cons_append, Numeral.fraction?, digits1?_more hm hds]
    rfl
  · rename_i hpoint
    obtain ⟨rfl, rfl⟩ := Prod.mk.inj (Option.some.inj h)
    cases s with
    | nil => exact fraction?_ends hm
    | cons c s =>
      rw [List.cons_append, Numeral.fraction?]
      rintro r heq
      obtain ⟨rfl, -⟩ := List.cons.inj heq
      exact hpoint s rfl

private theorem sign_more {s : List Char} (hs : s ≠ []) :
    Numeral.sign (s ++ more) = ((Numeral.sign s).1, (Numeral.sign s).2 ++ more) := by
  obtain ⟨c, s, rfl⟩ := List.exists_cons_of_ne_nil hs
  unfold Numeral.sign
  rw [List.cons_append]
  split
  · rename_i heq
    obtain ⟨rfl, rfl⟩ := List.cons.inj heq
    rfl
  · rename_i heq
    obtain ⟨rfl, rfl⟩ := List.cons.inj heq
    rfl
  · rename_i hminus hplus
    split
    · rename_i heq
      obtain ⟨rfl, rfl⟩ := List.cons.inj heq
      exact (hminus _ rfl).elim
    · rename_i heq
      obtain ⟨rfl, rfl⟩ := List.cons.inj heq
      exact (hplus _ rfl).elim
    · rfl

private theorem power_more (hm : Ends more) {s rest : List Char} {exponent : Option (Bool × List Char)}
    (h : (Numeral.digits1? (Numeral.sign s).2).map
      (fun (ds, rest) => (some ((Numeral.sign s).1, ds), rest)) = some (exponent, rest)) :
    (Numeral.digits1? (Numeral.sign (s ++ more)).2).map
      (fun (ds, rest) => (some ((Numeral.sign (s ++ more)).1, ds), rest)) =
        some (exponent, rest ++ more) := by
  obtain ⟨⟨ds, left⟩, hds, heq⟩ := Option.map_eq_some_iff.mp h
  obtain ⟨rfl, rfl⟩ := Prod.mk.inj heq
  have hs : s ≠ [] := by
    rintro rfl
    cases hds
  rw [sign_more hs, digits1?_more hm hds]
  rfl

private theorem exponent?_more (hm : Ends more) {s rest : List Char}
    {exponent : Option (Bool × List Char)} (h : Numeral.exponent? s = some (exponent, rest)) :
    Numeral.exponent? (s ++ more) = some (exponent, rest ++ more) := by
  unfold Numeral.exponent? at h
  split at h
  · exact power_more hm h
  · exact power_more hm h
  · rename_i hlower hupper
    obtain ⟨rfl, rfl⟩ := Prod.mk.inj (Option.some.inj h)
    cases s with
    | nil => exact exponent?_ends hm
    | cons c s =>
      rw [List.cons_append, Numeral.exponent?]
      · rintro r heq
        obtain ⟨rfl, -⟩ := List.cons.inj heq
        exact hlower s rfl
      · rintro r heq
        obtain ⟨rfl, -⟩ := List.cons.inj heq
        exact hupper s rfl

private theorem unsigned_more (hm : Ends more) (negative : Bool) {s rest : List Char} {n : Numeral}
    (h : ((Numeral.whole? s).bind fun (whole, s) => (Numeral.fraction? s).bind fun (fraction, s) =>
      (Numeral.exponent? s).map fun (exponent, s) =>
        ((⟨negative, whole, fraction, exponent⟩ : Numeral), s)) = some (n, rest)) :
    ((Numeral.whole? (s ++ more)).bind fun (whole, s) =>
      (Numeral.fraction? s).bind fun (fraction, s) => (Numeral.exponent? s).map fun (exponent, s) =>
        ((⟨negative, whole, fraction, exponent⟩ : Numeral), s)) = some (n, rest ++ more) := by
  obtain ⟨⟨whole, afterWhole⟩, hwhole, h⟩ := Option.bind_eq_some_iff.mp h
  obtain ⟨⟨fraction, afterFraction⟩, hfraction, h⟩ := Option.bind_eq_some_iff.mp h
  obtain ⟨⟨exponent, afterExponent⟩, hexponent, heq⟩ := Option.map_eq_some_iff.mp h
  obtain ⟨rfl, rfl⟩ := Prod.mk.inj heq
  rw [whole?_more hm hwhole, Option.bind_some]
  simp only [fraction?_more hm hfraction, exponent?_more hm hexponent, Option.bind_some,
    Option.map_some]

theorem Numeral.read?_more (hm : Ends more) {s rest : List Char} {n : Numeral}
    (h : Numeral.read? s = some (n, rest)) : Numeral.read? (s ++ more) = some (n, rest ++ more) := by
  cases s with
  | nil => cases h
  | cons c s =>
    by_cases hc : c = '-'
    · subst hc
      exact unsigned_more hm true (s := s) h
    · have hsign (r : List Char) : ∀ rest, c :: r ≠ '-' :: rest := fun rest heq =>
        hc (List.cons.inj heq).1
      rw [Numeral.read?.eq_2 _ (hsign s)] at h
      rw [List.cons_append, Numeral.read?.eq_2 _ (hsign (s ++ more))]
      exact unsigned_more hm false (s := c :: s) h

theorem skipBlanks_more {s rest : List Char} {c : Char} (h : skipBlanks s = c :: rest)
    (more : List Char) : skipBlanks (s ++ more) = c :: (rest ++ more) := by
  unfold skipBlanks at h ⊢
  induction s with
  | nil => cases h
  | cons d s ih =>
    by_cases hd : isBlank d = true
    · rw [List.dropWhile_cons_of_pos hd] at h
      rw [List.cons_append, List.dropWhile_cons_of_pos hd]
      exact ih h
    · rw [List.dropWhile_cons_of_neg hd] at h
      rw [List.cons_append, List.dropWhile_cons_of_neg hd, ← List.cons_append, h, List.cons_append]

private theorem word?_more {w : String} {s rest : List Char} (h : word? w s = some rest)
    (more : List Char) : word? w (s ++ more) = some (rest ++ more) := by
  simp only [word?] at h ⊢
  split at h
  · rename_i hw
    rw [List.isPrefixOf_iff_prefix] at hw
    rw [if_pos (List.isPrefixOf_iff_prefix.mpr (hw.trans (List.prefix_append s more))),
      List.drop_append_of_le_length hw.length_le, Option.some.inj h]
  · cases h

section
variable {α : Type} {close : Char} {entry entry' : List Char → Option (α × List Char)}

private theorem separated?_more {fuel fuel' : Nat} (hfuel : fuel ≤ fuel') {s rest : List Char} {es : List α}
    (hentry : ∀ s e rest, e ∈ es → entry s = some (e, rest) → entry' (s ++ more) = some (e, rest ++ more))
    (h : separated? close entry fuel s = some (es, rest)) :
    separated? close entry' fuel' (s ++ more) = some (es, rest ++ more) := by
  induction fuel generalizing fuel' s es with
  | zero => cases h
  | succ fuel ih =>
    obtain ⟨fuel', rfl⟩ : ∃ n, fuel' = n + 1 := ⟨fuel' - 1, by omega⟩
    rw [separated?] at h ⊢
    split at h
    · cases h
    · rename_i e left he
      split at h
      · cases h
      · rename_i c next hnext
        split at h
        · rename_i hcomma
          obtain ⟨⟨ds, after⟩, hds, heq⟩ := Option.map_eq_some_iff.mp h
          obtain ⟨rfl, rfl⟩ := Prod.mk.inj heq
          have hrest := ih (Nat.le_of_succ_le_succ hfuel)
            (fun s d rest hd => hentry s d rest (List.mem_cons_of_mem e hd)) hds
          simp only [hentry s e left List.mem_cons_self he, skipBlanks_more hnext, if_pos hcomma, hrest,
            Option.map_some]
        · rename_i hcomma
          split at h
          · rename_i hclose
            obtain ⟨rfl, rfl⟩ := Prod.mk.inj (Option.some.inj h)
            simp only [hentry s e left List.mem_cons_self he, skipBlanks_more hnext, if_neg hcomma,
              if_pos hclose]
          · cases h

private theorem entries?_more {s rest : List Char} {es : List α}
    (hentry : ∀ s e rest, e ∈ es → entry s = some (e, rest) → entry' (s ++ more) = some (e, rest ++ more))
    (h : entries? close entry s = some (es, rest)) :
    entries? close entry' (s ++ more) = some (es, rest ++ more) := by
  rw [entries?] at h ⊢
  split at h
  · cases h
  · rename_i c next hnext
    rw [skipBlanks_more hnext]
    split at h
    · rename_i hclose
      obtain ⟨rfl, rfl⟩ := Prod.mk.inj (Option.some.inj h)
      simp only [if_pos hclose]
    · rename_i hclose
      simp only [if_neg hclose]
      exact separated?_more (by rw [List.length_append]; omega) hentry h

end

private theorem field?_more {item item' : List Char → Option (Value × List Char)} {s rest : List Char}
    {f : String × Value}
    (hitem : ∀ s rest, item s = some (f.2, rest) → item' (s ++ more) = some (f.2, rest ++ more))
    (h : field? item s = some (f, rest)) : field? item' (s ++ more) = some (f, rest ++ more) := by
  rw [field?] at h ⊢
  split at h
  · rename_i opened hopen
    split at h
    · cases h
    · rename_i key afterKey hkey
      split at h
      · rename_i afterColon hcolon
        obtain ⟨⟨v, left⟩, hv, heq⟩ := Option.map_eq_some_iff.mp h
        obtain ⟨rfl, rfl⟩ := Prod.mk.inj heq
        simp only [skipBlanks_more hopen, stringBody?_more hkey, skipBlanks_more hcolon,
          hitem _ _ hv, Option.map_some]
      · cases h
  · cases h

namespace Value

private theorem depth_le_itemsDepth {v : Value} {vs : List Value} (h : v ∈ vs) :
    v.depth ≤ itemsDepth vs := by
  induction vs with
  | nil => cases h
  | cons w vs ih =>
    rw [itemsDepth]
    rcases List.mem_cons.mp h with rfl | h
    · exact Nat.le_max_left _ _
    · exact Nat.le_trans (ih h) (Nat.le_max_right _ _)

private theorem depth_le_fieldsDepth {f : String × Value} {fs : List (String × Value)}
    (h : f ∈ fs) : f.2.depth ≤ fieldsDepth fs := by
  induction fs with
  | nil => cases h
  | cons g fs ih =>
    obtain ⟨k, w⟩ := g
    rw [fieldsDepth]
    rcases List.mem_cons.mp h with rfl | h
    · exact Nat.le_max_left _ _
    · exact Nat.le_trans (ih h) (Nat.le_max_right _ _)

end Value

private theorem value?_starts {room : Nat} {s rest : List Char} {v : Value}
    (h : value? room s = some (v, rest)) : ∃ c r, skipBlanks s = c :: r ∧ c ≠ ']' := by
  rw [value?.eq_def] at h
  cases hs : skipBlanks s with
  | nil =>
    simp only [hs] at h
    cases h
  | cons c r =>
    refine ⟨c, r, rfl, ?_⟩
    rintro rfl
    simp only [hs] at h
    cases h

theorem value?_skipBlanks (room : Nat) (s : List Char) :
    value? room (skipBlanks s) = value? room s := by
  have hskip : skipBlanks (skipBlanks s) = skipBlanks s :=
    List.dropWhile_idempotent isBlank s
  rw [value?.eq_def, value?.eq_def room s]
  simp only [hskip]

private theorem read?_numeric {s rest : List Char} {n : Numeral}
    (h : Numeral.read? s = some (n, rest)) : ∃ c r, s = c :: r ∧ isNumeric c = true := by
  cases s with
  | nil => cases h
  | cons c r =>
    refine ⟨c, r, rfl, ?_⟩
    by_cases hc : c = '-'
    · rw [hc]
      rfl
    · rw [Numeral.read?.eq_2 _ fun rest heq => hc (List.cons.inj heq).1] at h
      obtain ⟨whole, hwhole, -⟩ := Option.bind_eq_some_iff.mp h
      have hdigit : c.isDigit = true := by
        by_contra hno
        rw [Numeral.whole?, Numeral.digits, List.takeWhile_cons_of_neg hno] at hwhole
        cases hwhole
      rw [isNumeric, hdigit]
      rfl

private theorem value?_numeral {room : Nat} {s rest : List Char} {n : Numeral}
    (h : Numeral.read? (skipBlanks s) = some (n, rest)) :
    value? room s = n.value?.map fun n => (.num n, rest) := by
  obtain ⟨c, r, hs, hc⟩ := read?_numeric h
  rw [← value?_skipBlanks, hs, value?_numeric hc, ← hs, h]

/-- What is made of entries is read in its place, if it is known by its first character and the entries are
read in theirs. -/
private theorem listing_more {α : Type} {close c : Char} (entry : Nat → List Char → Option (α × List Char))
    {make : List α → Value} {depth : α → Nat} {room room' : Nat} {s opened rest : List Char} {v : Value}
    (hread : ∀ room s r, skipBlanks s = c :: r →
      value? (room + 1) s = (entries? close (entry room) r).map fun (es, rest) => (make es, rest))
    (hdepth : ∀ es, ∃ n, (make es).depth = n + 1 ∧ ∀ e ∈ es, depth e ≤ n)
    (hentry : ∀ room' s e rest, depth e ≤ room' → entry room s = some (e, rest) →
      entry room' (s ++ more) = some (e, rest ++ more))
    (hopen : skipBlanks s = c :: opened) (hroom : v.depth ≤ room')
    (h : ((entries? close (entry room) opened).map fun (es, rest) => (make es, rest)) = some (v, rest)) :
    value? room' (s ++ more) = some (v, rest ++ more) := by
  obtain ⟨⟨es, left⟩, hes, heq⟩ := Option.map_eq_some_iff.mp h
  obtain ⟨rfl, rfl⟩ := Prod.mk.inj heq
  obtain ⟨n, hn, hle⟩ := hdepth es
  obtain ⟨room', rfl⟩ : ∃ n, room' = n + 1 := ⟨room' - 1, by omega⟩
  have hmore : entries? close (entry room') (opened ++ more) = some (es, left ++ more) := by
    refine entries?_more (fun s e rest he => hentry room' s e rest ?_) hes
    have := hle e he
    omega
  rw [hread room' _ _ (skipBlanks_more hopen more), hmore, Option.map_some]

private theorem literal_more {room' : Nat} {s opened rest : List Char} {c : Char} {w : String}
    {u v : Value} (hread : ∀ room s r, skipBlanks s = c :: r →
      value? room s = (word? w r).map fun rest => (u, rest))
    (hopen : skipBlanks s = c :: opened)
    (h : ((word? w opened).map fun rest => (u, rest)) = some (v, rest)) :
    value? room' (s ++ more) = some (v, rest ++ more) := by
  obtain ⟨left, hword, heq⟩ := Option.map_eq_some_iff.mp h
  obtain ⟨rfl, rfl⟩ := Prod.mk.inj heq
  rw [hread room' _ _ (skipBlanks_more hopen more), word?_more hword, Option.map_some]

/-- A value is read wherever its text stands, with room enough for its arrays and objects. -/
theorem value?_more (hm : Ends more) {room room' : Nat} {s rest : List Char} {v : Value}
    (h : value? room s = some (v, rest)) (hroom : v.depth ≤ room') :
    value? room' (s ++ more) = some (v, rest ++ more) := by
  -- arrays and objects are read with less room than there was for them
  induction room using Nat.strongRecOn generalizing room' s v rest with
  | ind room ih =>
  rw [value?.eq_def] at h
  simp only at h
  split at h
  · rename_i opened hopen
    obtain ⟨⟨body, left⟩, hbody, heq⟩ := Option.map_eq_some_iff.mp h
    obtain ⟨rfl, rfl⟩ := Prod.mk.inj heq
    rw [value?.eq_def]
    simp only [skipBlanks_more hopen, stringBody?_more hbody, Option.map_some]
  · rename_i opened hopen
    cases room with
    | zero => cases h
    | succ room =>
      refine listing_more value? (fun room s r hs => by rw [value?.eq_def]; simp only [hs])
        (fun vs => ⟨_, Value.depth.eq_1 vs, fun w hw => Value.depth_le_itemsDepth hw⟩) ?_ hopen hroom h
      exact fun room' s w rest hw hread => ih room (Nat.lt_succ_self room) hread hw
  · rename_i opened hopen
    cases room with
    | zero => cases h
    | succ room =>
      refine listing_more (fun room => field? (value? room))
        (fun room s r hs => by rw [value?.eq_def]; simp only [hs])
        (fun fs => ⟨_, Value.depth.eq_2 fs, fun f hf => Value.depth_le_fieldsDepth hf⟩) ?_ hopen hroom h
      exact fun room' s f rest hf hread =>
        field?_more (fun s rest hitem => ih room (Nat.lt_succ_self room) hitem hf) hread
  · rename_i opened hopen
    exact literal_more (fun room s r hs => by rw [value?.eq_def]; simp only [hs]) hopen h
  · rename_i opened hopen
    exact literal_more (fun room s r hs => by rw [value?.eq_def]; simp only [hs]) hopen h
  · rename_i opened hopen
    exact literal_more (fun room s r hs => by rw [value?.eq_def]; simp only [hs]) hopen h
  · split at h
    · cases h
    · rename_i n left hread
      obtain ⟨number, hnumber, heq⟩ := Option.map_eq_some_iff.mp h
      obtain ⟨rfl, rfl⟩ := Prod.mk.inj heq
      obtain ⟨c, r, hs, -⟩ := read?_numeric hread
      have hmore : Numeral.read? (skipBlanks (s ++ more)) = some (n, left ++ more) := by
        rw [skipBlanks_more hs, ← List.cons_append, ← hs]
        exact Numeral.read?_more hm hread
      rw [value?_numeral hmore, hnumber]
      rfl

def commaSeparated : List String → List Char
  | [] => []
  | [t] => t.toList
  | t :: ts => t.toList ++ ',' :: commaSeparated ts

/-- The text of an array, from the texts of its items. -/
def arrayText (texts : List String) : String :=
  String.ofList ('[' :: commaSeparated texts ++ [']'])

private theorem skipBlanks_blank {s : List Char} (h : skipBlanks s = []) (more : List Char) :
    skipBlanks (s ++ more) = skipBlanks more :=
  List.dropWhile_append_of_pos (List.dropWhile_eq_nil_iff.mp h)

private theorem readText?_eq_some {t : String} {v : Value} (h : readText? t = some v) :
    ∃ rest, value? maxDepth t.toList = some (v, rest) ∧ skipBlanks rest = [] := by
  rw [readText?] at h
  split at h
  · rename_i w rest hread
    split at h
    · rename_i hrest
      exact ⟨rest, by rw [hread, Option.some.inj h], hrest⟩
    · cases h
  · cases h

private theorem length_le_commaSeparated (texts : List String) :
    texts.length ≤ (commaSeparated texts).length + 1 := by
  fun_induction commaSeparated texts with
  | case1 => exact Nat.zero_le _
  | case2 t => simp
  | case3 t ts hts ih =>
    simp only [List.length_cons, List.length_append]
    omega

private theorem separated?_commaSeparated {room fuel : Nat} {texts : List String} {vs : List Value}
    (h : List.Forall₂ (fun t v => readText? t = some v ∧ v.depth ≤ room) texts vs)
    (hne : texts ≠ []) (hfuel : texts.length ≤ fuel) :
    separated? ']' (value? room) fuel (commaSeparated texts ++ [']']) = some (vs, []) := by
  induction h generalizing fuel with
  | nil => exact absurd rfl hne
  | @cons t v ts vs ht hts ih =>
    obtain ⟨htext, hdepth⟩ := ht
    obtain ⟨rest, hread, hrest⟩ := readText?_eq_some htext
    obtain ⟨fuel, rfl⟩ : ∃ n, fuel = n + 1 := Nat.exists_eq_add_of_le' (by simp at hfuel; omega)
    cases hts with
    | nil =>
      have hends : Ends [']'] := ends_cons (by decide) []
      have hv := value?_more hends hread hdepth
      rw [commaSeparated, separated?, hv]
      simp only [skipBlanks_blank hrest]
      rfl
    | @cons u w ts vs hu hts =>
      have hends : Ends (',' :: (commaSeparated (u :: ts) ++ [']'])) := ends_cons (by decide) _
      have hv := value?_more hends hread hdepth
      have hvs := ih (List.cons_ne_nil u ts) (Nat.le_of_succ_le_succ hfuel)
      rw [commaSeparated, List.append_assoc, List.cons_append, separated?, hv]
      · simp only [skipBlanks_blank hrest]
        change (separated? ']' (value? room) fuel (commaSeparated (u :: ts) ++ [']'])).map _ = _
        rw [hvs]
        rfl
      · exact List.cons_ne_nil u ts

/-- Where items are read no array ends. -/
private theorem entries?_of_separated? {room : Nat} {s rest : List Char} {vs : List Value}
    (h : separated? ']' (value? room) s.length s = some (vs, rest)) :
    entries? ']' (value? room) s = some (vs, rest) := by
  cases hfuel : s.length with
  | zero =>
    rw [hfuel] at h
    cases h
  | succ fuel =>
    have hitems := h
    rw [hfuel, separated?] at hitems
    split at hitems
    · cases hitems
    · rename_i hv
      obtain ⟨c, r, hs, hc⟩ := value?_starts hv
      simp only [entries?, hs, if_neg hc, h]

/-- Between brackets, with commas between them, the texts of values are the text of their array. -/
theorem readText?_arrayText {texts : List String} {vs : List Value}
    (h : List.Forall₂ (fun t v => readText? t = some v ∧ v.depth < maxDepth) texts vs) :
    readText? (arrayText texts) = some (.arr vs) := by
  have hopen : skipBlanks (arrayText texts).toList = '[' :: (commaSeparated texts ++ [']']) := by
    rw [arrayText, String.toList_ofList]
    rfl
  have hread : value? maxDepth (arrayText texts).toList = some (.arr vs, []) := by
    by_cases hne : texts = []
    · subst hne
      cases h
      rfl
    · have hitems : entries? ']' (value? (maxDepth - 1)) (commaSeparated texts ++ [']']) = some (vs, []) := by
        refine entries?_of_separated? (separated?_commaSeparated ?_ hne ?_)
        · exact h.imp fun t v ht => ⟨ht.1, Nat.le_sub_one_of_lt ht.2⟩
        · rw [List.length_append]
          exact length_le_commaSeparated texts
      rw [show maxDepth = maxDepth - 1 + 1 from rfl, value?.eq_def]
      simp only [hopen, hitems]
      rfl
  rw [readText?, hread]
  rfl

end LanguageClient.Json
