import LanguageClient.Toml.Reader
import LanguageClient.Toml.Writer
/-!
What is written of a string is read as the string, in each of its four forms, and so is what is written
of a key and of the words of a header.
-/
namespace LanguageClient.Toml

private theorem hexChar?_upperHex : ∀ n < 128,
    hexChar? ['0', '0', upperHex (n / 16), upperHex (n % 16)] = some (Char.ofNat n) := by decide

/-- A reader that undoes escapes and takes plain characters as they are. -/
private structure Unescapes (read : List Char → Option (List Char × List Char)) : Prop where
  short {e u : Char} : shortEscape? e = some u →
    ∀ rest, read ('\\' :: e :: rest) = before u (read rest)
  hex {a b c d u : Char} : hexChar? [a, b, c, d] = some u →
    ∀ rest, read ('\\' :: 'u' :: a :: b :: c :: d :: rest) = before u (read rest)
  plain {c : Char} : isPlain c = true → c ≠ '"' → c ≠ '\\' →
    ∀ rest, read (c :: rest) = before c (read rest)

private theorem shortEscape?_cases {e u : Char} (h : shortEscape? e = some u) :
    e ≠ 'x' ∧ e ≠ 'u' ∧ e ≠ 'U' := by
  refine ⟨?_, ?_, ?_⟩ <;> rintro rfl <;> cases h

private theorem unescapes_basic? : Unescapes basic? where
  short {e u} h rest := by
    obtain ⟨hx, hu, hU⟩ := shortEscape?_cases h
    rw [basic?, h, Option.bind_some]
    all_goals intros; contradiction
  hex h rest := by rw [basic?, h, Option.bind_some]
  plain hp hq hs rest := by
    rw [basic?.eq_def]
    split <;> simp_all

private theorem unescapes_basicLines? : Unescapes (basicLines? false) where
  short {e u} h rest := by
    obtain ⟨hx, hu, hU⟩ := shortEscape?_cases h
    rw [basicLines?, h]
    all_goals intros; contradiction
  hex h rest := by rw [basicLines?, h, Option.bind_some]
  plain {c} hp hq hs rest := by
    have hr : c ≠ '\r' := by rintro rfl; cases hp
    rw [basicLines?.eq_def]
    split <;> simp_all

/-- A character that may not stand as it is has a short escape, or is written by its number. -/
private theorem escape_cases (c : Char) :
    (∃ e, shortEscape? e = some c ∧ escape c = ['\\', e]) ∨
      escape c = ['\\', 'u', '0', '0', upperHex (c.toNat / 16), upperHex (c.toNat % 16)] := by
  rw [escape]
  repeat' split
  all_goals first | exact .inr rfl | exact .inl ⟨_, by subst_vars; rfl, rfl⟩

private theorem Unescapes.basicChar {read : List Char → Option (List Char × List Char)}
    (h : Unescapes read) (c : Char) (rest : List Char) :
    read (basicChar c ++ rest) = before c (read rest) := by
  rw [Toml.basicChar]
  split
  · rename_i hc
    simp only [Bool.or_eq_true, decide_eq_true_eq, beq_iff_eq] at hc
    obtain ⟨e, hshort, he⟩ | he := escape_cases c
    · rw [he]
      exact h.short hshort rest
    · have hlt : c.toNat < 128 := by
        obtain ((rfl | rfl) | hlow) | hdel := hc
        · decide
        · decide
        · exact Nat.lt_trans hlow (by decide)
        · rw [hdel]; decide
      rw [he]
      exact h.hex (by rw [hexChar?_upperHex _ hlt, Char.ofNat_toNat]) rest
  · rename_i hc
    simp only [Bool.or_eq_true, decide_eq_true_eq, beq_iff_eq, not_or] at hc
    obtain ⟨⟨⟨hquote, hslash⟩, hlow⟩, hdel⟩ := hc
    have hplain : isPlain c = true := by
      simp only [isPlain, Bool.or_eq_true, Bool.and_eq_true, decide_eq_true_eq, bne_iff_ne]
      exact .inr ⟨Nat.le_of_not_lt hlow, hdel⟩
    exact h.plain hplain hquote hslash rest

private theorem read_flatMap {read : List Char → Option (List Char × List Char)}
    {written : Char → List Char} {s : List Char}
    (h : ∀ c ∈ s, ∀ rest, read (written c ++ rest) = before c (read rest)) {rest next : List Char}
    (hend : read rest = some ([], next)) : read (s.flatMap written ++ rest) = some (s, next) := by
  induction s with
  | nil => exact hend
  | cons c s ih =>
    rw [List.flatMap_cons, List.append_assoc, h c List.mem_cons_self,
      ih fun d hd => h d (List.mem_cons_of_mem c hd)]
    rfl

private theorem basic?_chars (s rest : List Char) :
    basic? (s.flatMap basicChar ++ '"' :: rest) = some (s, rest) :=
  read_flatMap (fun c _ => unescapes_basic?.basicChar c) rfl

private theorem literal?_chars {s : List Char} (h : ∀ c ∈ s, isPlain c = true ∧ c ≠ '\'')
    (rest : List Char) : literal? (s ++ '\'' :: rest) = some (s, rest) := by
  induction s with
  | nil => rfl
  | cons c s ih =>
    obtain ⟨hplain, hquote⟩ := h c List.mem_cons_self
    rw [List.cons_append, literal?, if_pos hplain, ih fun d hd => h d (List.mem_cons_of_mem c hd)]
    · rfl
    · exact hquote

private theorem basicChar_head (c : Char) :
    ∃ d ds, basicChar c = d :: ds ∧ d ≠ '"' ∧ d ≠ '\n' ∧ d ≠ '\r' := by
  rw [Toml.basicChar]
  split
  · have hescape : ∃ ds, escape c = '\\' :: ds := by
      obtain ⟨e, -, he⟩ | he := escape_cases c <;> exact ⟨_, he⟩
    obtain ⟨ds, hds⟩ := hescape
    exact ⟨'\\', ds, hds, by decide, by decide, by decide⟩
  · rename_i hc
    refine ⟨c, [], rfl, ?_, ?_, ?_⟩ <;> rintro rfl <;> exact hc rfl

/-- A reader of strings on several lines: up to two quotes before the closing ones belong to the
string, and so do quotes that are too few to close it. -/
private structure Closes (quote : Char) (read : List Char → Option (List Char × List Char)) : Prop where
  three {rest : List Char} : rest.head? ≠ some quote →
    read (quote :: quote :: quote :: rest) = some ([], rest)
  four {rest : List Char} : rest.head? ≠ some quote →
    read (quote :: quote :: quote :: quote :: rest) = some ([quote], rest)
  five (rest : List Char) :
    read (quote :: quote :: quote :: quote :: quote :: rest) = some ([quote, quote], rest)
  lone {rest : List Char} : (∀ r, rest ≠ quote :: quote :: r) →
    read (quote :: rest) = before quote (read rest)

private theorem closes_basicLines? : Closes '"' (basicLines? false) where
  three h := by
    rw [basicLines?]
    · rintro r rfl; exact h rfl
    · rintro r rfl; exact h rfl
  four h := by
    rw [basicLines?]
    rintro r rfl; exact h rfl
  five rest := by rw [basicLines?]
  lone h := by
    rw [basicLines?.eq_def]
    split <;> rename_i heq <;> cases heq <;> first | rfl | exact absurd rfl (h _)

private theorem closes_literalLines? : Closes '\'' literalLines? where
  three h := by
    rw [literalLines?]
    · rintro r rfl; exact h rfl
    · rintro r rfl; exact h rfl
  four h := by
    rw [literalLines?]
    rintro r rfl; exact h rfl
  five rest := by rw [literalLines?]
  lone h := by
    rw [literalLines?.eq_def]
    split <;> rename_i heq <;> cases heq <;> first | rfl | exact absurd rfl (h _)

private theorem longestRun_mono (q : Char) (s : List Char) {i j m n : Nat} (hi : i ≤ j) (hm : m ≤ n) :
    longestRun q i m s ≤ longestRun q j n s := by
  induction s generalizing i j m n with
  | nil => simp only [longestRun]; omega
  | cons c s ih =>
    rw [longestRun, longestRun]
    split
    · exact ih (by omega) hm
    · exact ih (by omega) (by omega)

private theorem longestRun_tail (q c : Char) (s : List Char) :
    longestRun q 0 0 s ≤ longestRun q 0 0 (c :: s) := by
  rw [longestRun]
  split <;> exact longestRun_mono q s (by omega) (by omega)

private theorem le_longestRun (q : Char) (i : Nat) (s : List Char) {m : Nat} :
    max i m ≤ longestRun q i m s := by
  induction s generalizing i m with
  | nil => exact Nat.le_refl _
  | cons c s ih =>
    rw [longestRun]
    split
    · exact Nat.le_trans (by omega) (ih (i + 1))
    · exact Nat.le_trans (by omega) (ih 0)

private theorem not_mem_of_longestRun {q : Char} {s : List Char} (h : longestRun q 0 0 s = 0) :
    q ∉ s := by
  induction s with
  | nil => exact List.not_mem_nil
  | cons c s ih =>
    have htail := longestRun_tail q c s
    refine List.not_mem_cons_of_ne_of_not_mem ?_ (ih (by omega))
    rintro rfl
    have hhead := le_longestRun q 1 s (m := 0)
    rw [longestRun, if_pos rfl, Nat.zero_add] at h
    omega

private theorem Closes.read {quote : Char} {read : List Char → Option (List Char × List Char)}
    (hread : Closes quote read) {written : Char → List Char} (hquote : written quote = [quote])
    {s : List Char} (hother : ∀ c ∈ s, c ≠ quote →
      (∀ rest, read (written c ++ rest) = before c (read rest)) ∧
        ∃ d ds, written c = d :: ds ∧ d ≠ quote)
    (hruns : longestRun quote 0 0 s ≤ 2) {rest : List Char} (hrest : rest.head? ≠ some quote) :
    read (s.flatMap written ++ quote :: quote :: quote :: rest) = some (s, rest) := by
  induction s with
  | nil => exact hread.three hrest
  | cons c s ih =>
    have hs := ih (fun d hd => hother d (List.mem_cons_of_mem c hd))
      (Nat.le_trans (longestRun_tail quote c s) hruns)
    by_cases hc : c = quote
    · subst hc
      -- the quotes at the end of the string run on into the closing ones
      have hlone (h : ∀ r, s.flatMap written ++ c :: c :: c :: rest ≠ c :: c :: r) :
          read ((c :: s).flatMap written ++ c :: c :: c :: rest) = some (c :: s, rest) := by
        rw [List.flatMap_cons, hquote, List.append_assoc, List.singleton_append, hread.lone h, hs]
        rfl
      rcases s with _ | ⟨d, s⟩
      · simpa [hquote] using hread.four hrest
      by_cases hd : d = c
      · subst hd
        rcases s with _ | ⟨e, s⟩
        · simpa [hquote] using hread.five rest
        have he : e ≠ d := by
          rintro rfl
          have hlong := le_longestRun e 3 s (m := 0)
          simp only [longestRun, if_true, Nat.zero_add, Nat.reduceAdd] at hruns
          omega
        obtain ⟨-, f, fs, hf, hne⟩ := hother e (by simp) he
        refine hlone fun r h => hne ?_
        simp only [List.flatMap_cons, hquote, hf, List.cons_append, List.nil_append,
          List.cons.injEq, true_and] at h
        exact h.1
      · obtain ⟨-, f, fs, hf, hne⟩ := hother d (by simp) hd
        refine hlone fun r h => hne ?_
        simp only [List.flatMap_cons, hf, List.cons_append, List.cons.injEq] at h
        exact h.1
    · rw [List.flatMap_cons, List.append_assoc, (hother c List.mem_cons_self hc).1, hs]
      rfl

/-- What is written of a character of a string on several lines starts with a line end or a quote only
where the character is one. -/
private theorem linesChar_head (quotes : Bool) (c : Char) :
    ∃ d ds, linesChar quotes c = d :: ds ∧ (c ≠ '"' → d ≠ '"') ∧ (c ≠ '\n' → d ≠ '\n') ∧ d ≠ '\r' := by
  rw [linesChar]
  split
  · rename_i hc
    refine ⟨c, [], rfl, id, id, ?_⟩
    rintro rfl
    simp at hc
  · obtain ⟨d, ds, h, hquote, hline, hreturn⟩ := basicChar_head c
    exact ⟨d, ds, h, fun _ => hquote, fun _ => hline, hreturn⟩

private theorem basicLines?_linesChar {quotes : Bool} {c : Char} (h : c ≠ '"' ∨ quotes = false)
    (rest : List Char) :
    basicLines? false (linesChar quotes c ++ rest) = before c (basicLines? false rest) := by
  rw [linesChar]
  split
  · rename_i hc
    obtain rfl : c = '\n' := by grind
    rw [List.singleton_append, basicLines?]
    · rfl
    all_goals simp
  · exact unescapes_basicLines?.basicChar c rest

private theorem basicLines?_chars {quotes : Bool} {s : List Char}
    (h : quotes = true → longestRun '"' 0 0 s ≤ 2) {rest : List Char} (hrest : rest.head? ≠ some '"') :
    basicLines? false (s.flatMap (linesChar quotes) ++ '"' :: '"' :: '"' :: rest) =
      some (s, rest) := by
  cases quotes with
  | false =>
    exact read_flatMap (fun c _ => basicLines?_linesChar (.inr rfl)) (closes_basicLines?.three hrest)
  | true =>
    refine closes_basicLines?.read rfl (fun c _ hc => ⟨basicLines?_linesChar (.inl hc), ?_⟩) (h rfl) hrest
    obtain ⟨d, ds, hd, hquote, -⟩ := linesChar_head true c
    exact ⟨d, ds, hd, hquote hc⟩

private theorem literalLines?_chars {s : List Char} (h : ∀ c ∈ s, isPlain c = true ∨ c = '\n')
    (hruns : longestRun '\'' 0 0 s ≤ 2) {rest : List Char} (hrest : rest.head? ≠ some '\'') :
    literalLines? (s ++ '\'' :: '\'' :: '\'' :: rest) = some (s, rest) := by
  have hother : ∀ c ∈ s, c ≠ '\'' → (∀ rest, literalLines? ([c] ++ rest) = before c (literalLines? rest)) ∧
      ∃ d ds, [c] = d :: ds ∧ d ≠ '\'' := by
    refine fun c hc hquote => ⟨fun rest => ?_, c, [], rfl, hquote⟩
    have hreturn : c ≠ '\r' := by
      rintro rfl
      exact absurd (h _ hc) (by decide)
    rw [List.singleton_append, literalLines?, if_pos (by simpa using h c hc)]
    all_goals intros; contradiction
  have hread := closes_literalLines?.read rfl hother hruns hrest
  rwa [List.flatMap_singleton'] at hread

private theorem skipFirstNewline_cons {c : Char} (hline : c ≠ '\n') (hreturn : c ≠ '\r')
    (s : List Char) : skipFirstNewline (c :: s) = c :: s := by
  rw [skipFirstNewline, newline?.eq_def]
  split <;> simp_all

private theorem string?_basic (s : List Char) {rest : List Char} (hrest : rest.head? ≠ some '"') :
    string? (basic s ++ rest) = some (s, rest) := by
  have hopen : ∀ r, s.flatMap basicChar ++ '"' :: rest ≠ '"' :: '"' :: r := by
    intro r h
    cases s with
    | nil =>
      simp only [List.flatMap_nil, List.nil_append, List.cons.injEq, true_and] at h
      exact hrest (by rw [h]; rfl)
    | cons c s =>
      obtain ⟨d, ds, hd, hquote, -⟩ := basicChar_head c
      simp only [List.flatMap_cons, hd, List.cons_append, List.cons.injEq] at h
      exact hquote h.1
  simp only [basic, List.cons_append, List.append_assoc, List.nil_append]
  rw [string?, basic?_chars]
  exact hopen

private theorem string?_literal {s : List Char} (h : ∀ c ∈ s, isPlain c = true ∧ c ≠ '\'')
    {rest : List Char} (hrest : rest.head? ≠ some '\'') :
    string? (literal s ++ rest) = some (s, rest) := by
  have hopen : ∀ r, s ++ '\'' :: rest ≠ '\'' :: '\'' :: r := by
    intro r heq
    cases s with
    | nil =>
      simp only [List.nil_append, List.cons.injEq, true_and] at heq
      exact hrest (by rw [heq]; rfl)
    | cons c s =>
      simp only [List.cons_append, List.cons.injEq] at heq
      exact (h c List.mem_cons_self).2 heq.1
  simp only [literal, List.cons_append, List.append_assoc, List.nil_append]
  rw [string?, literal?_chars h]
  exact hopen

private theorem skipFirstNewline_opening {s body : List Char} (t : Traits)
    (ht : t.newline = s.contains '\n')
    (hbody : '\n' ∉ s → ∃ c cs, body = c :: cs ∧ c ≠ '\n' ∧ c ≠ '\r') :
    skipFirstNewline ((if t.newline then ['\n'] else []) ++ body) = body := by
  rw [ht]
  split
  · rfl
  · rename_i h
    obtain ⟨c, cs, rfl, hline, hreturn⟩ := hbody (by simpa using h)
    exact skipFirstNewline_cons hline hreturn cs

private theorem opening_eq (quotes : List Char) (t : Traits) :
    opening quotes t = quotes ++ (if t.newline then ['\n'] else []) := by
  rw [opening]
  split
  · rfl
  · exact (List.append_nil _).symm

private theorem string?_basicLines (s : List Char) {rest : List Char}
    (hrest : rest.head? ≠ some '"') : string? (basicLines (Traits.of s) s ++ rest) = some (s, rest) := by
  simp only [basicLines, opening_eq, List.cons_append, List.nil_append, List.append_assoc]
  rw [string?, skipFirstNewline_opening (s := s) _ rfl]
  · exact basicLines?_chars of_decide_eq_true hrest
  · intro hline
    cases s with
    | nil => exact ⟨_, _, rfl, by decide, by decide⟩
    | cons c s =>
      obtain ⟨d, ds, hd, -, hhead, hreturn⟩ := linesChar_head ((Traits.of (c :: s)).doubles ≤ 2) c
      have hne : d ≠ '\n' := hhead fun h => hline (h ▸ List.mem_cons_self)
      rw [List.flatMap_cons, hd]
      exact ⟨d, _, rfl, hne, hreturn⟩

private theorem string?_literalLines {s : List Char} (h : ∀ c ∈ s, isPlain c = true ∨ c = '\n')
    (hruns : longestRun '\'' 0 0 s ≤ 2) {rest : List Char} (hrest : rest.head? ≠ some '\'') :
    string? (literalLines (Traits.of s) s ++ rest) = some (s, rest) := by
  simp only [literalLines, opening_eq, List.cons_append, List.nil_append, List.append_assoc]
  rw [string?, skipFirstNewline_opening (s := s) _ rfl]
  · exact literalLines?_chars h hruns hrest
  · intro hline
    cases s with
    | nil => exact ⟨_, _, rfl, by decide, by decide⟩
    | cons c s =>
      refine ⟨c, _, rfl, ?_, ?_⟩
      · rintro rfl
        exact hline List.mem_cons_self
      · rintro rfl
        exact absurd (h _ List.mem_cons_self) (by decide)

private theorem plain_of_no_control {s : List Char} (h : (Traits.of s).control = false) :
    ∀ c ∈ s, isPlain c = true ∨ c = '\n' := by
  intro c hc
  have hcontrol : isControl c = false := by
    simpa using List.any_eq_false.mp h c hc
  simp only [isControl, Bool.or_eq_false_iff, Bool.and_eq_false_iff, decide_eq_false_iff_not,
    bne_eq_false_iff_eq, beq_eq_false_iff_ne] at hcontrol
  simp only [isPlain, Bool.or_eq_true, Bool.and_eq_true, beq_iff_eq, decide_eq_true_eq, bne_iff_ne]
  grind

private theorem plain_of_traits {s : List Char} (hcontrol : (Traits.of s).control = false)
    (hsingles : (Traits.of s).singles = 0) (hline : (Traits.of s).newline = false) :
    ∀ c ∈ s, isPlain c = true ∧ c ≠ '\'' := by
  intro c hc
  have hplain := plain_of_no_control hcontrol c hc
  have hnone : '\n' ∉ s := by simpa [Traits.of] using hline
  refine ⟨hplain.resolve_right ?_, ?_⟩
  · rintro rfl
    exact hnone hc
  · rintro rfl
    exact not_mem_of_longestRun hsingles hc

/-- Texts that do not go on with a quote. -/
def Unquoted (s : List Char) : Prop := s.head? ≠ some '"' ∧ s.head? ≠ some '\''

/-- What is written of a string is read as the string, whichever form it has. -/
theorem string?_chars (s : List Char) {rest : List Char} (hrest : Unquoted rest) :
    string? (stringChars s ++ rest) = some (s, rest) := by
  rw [stringChars]
  simp only [Bool.and_eq_true, Bool.not_eq_true', beq_iff_eq, decide_eq_true_eq]
  split
  · exact string?_basic s hrest.1
  split
  · rename_i h
    exact string?_literal (plain_of_traits h.1.1 h.1.2 h.2) hrest.2
  split
  · exact string?_basicLines s hrest.1
  split
  · rename_i h
    exact string?_literalLines (plain_of_no_control h.1) h.2 hrest.2
  split
  · exact string?_basicLines s hrest.1
  · exact string?_basic s hrest.1

theorem takeWhile_append_stop {p : Char → Bool} {s rest : List Char} (hs : ∀ c ∈ s, p c = true)
    (hrest : ∀ c ∈ rest.head?, p c = false) : (s ++ rest).takeWhile p = s := by
  rw [List.takeWhile_append_of_pos hs]
  cases rest with
  | nil => simp
  | cons c rest => rw [List.takeWhile_cons_of_neg (by simp [hrest c rfl]), List.append_nil]

theorem dropWhile_append_stop {p : Char → Bool} {s rest : List Char} (hs : ∀ c ∈ s, p c = true)
    (hrest : ∀ c ∈ rest.head?, p c = false) : (s ++ rest).dropWhile p = rest := by
  rw [List.dropWhile_append_of_pos hs]
  cases rest with
  | nil => rfl
  | cons c rest => exact List.dropWhile_cons_of_neg (by simp [hrest c rfl])

theorem skipBlanks_cons {c : Char} (h : isBlank c = false) (s : List Char) :
    skipBlanks (c :: s) = c :: s :=
  List.dropWhile_cons_of_neg (by simp [h])

/-- Characters that a key may start with. -/
def startsKey (c : Char) : Bool := isBareKey c || c == '"' || c == '\''

theorem isBlank_of_startsKey {c : Char} (h : startsKey c = true) : isBlank c = false := by
  refine Bool.eq_false_iff.mpr fun hblank => ?_
  simp only [isBlank, Bool.or_eq_true, beq_iff_eq] at hblank
  rcases hblank with rfl | rfl <;> cases h

theorem keyChars_head (k : String) : ∃ c cs, keyChars k = c :: cs ∧ startsKey c = true := by
  unfold keyChars
  simp only
  split
  · rename_i h
    simp only [Bool.and_eq_true, Bool.not_eq_true', List.isEmpty_eq_false_iff, List.all_eq_true] at h
    obtain ⟨c, cs, hc⟩ := List.exists_cons_of_ne_nil h.1
    refine ⟨c, cs, hc, ?_⟩
    have hbare : isBareKey c = true := h.2 c (hc ▸ List.mem_cons_self)
    rw [startsKey, hbare]
    rfl
  split
  · exact ⟨_, _, rfl, by decide⟩
  split
  · exact ⟨_, _, rfl, by decide⟩
  · exact ⟨_, _, rfl, by decide⟩

theorem simpleKey?_chars (k : String) {rest : List Char}
    (hrest : ∀ c ∈ rest.head?, isBareKey c = false) :
    simpleKey? (keyChars k ++ rest) = some (k, rest) := by
  have hbasic : simpleKey? (basic k.toList ++ rest) = some (k, rest) := by
    simp only [basic, List.cons_append, List.append_assoc, List.nil_append]
    rw [simpleKey?, basic?_chars]
    simp only [Option.map_some, String.ofList_toList]
  unfold keyChars
  simp only [Bool.and_eq_true, Bool.not_eq_true', beq_iff_eq]
  split
  · rename_i h
    have hall : ∀ c ∈ k.toList, isBareKey c = true := List.all_eq_true.mp h.2
    rw [simpleKey?, takeWhile_append_stop hall hrest, dropWhile_append_stop hall hrest]
    · split
      · simp_all
      · rw [String.ofList_toList]
    all_goals
      intro r hr
      cases hk : k.toList with
      | nil => simp [hk] at h
      | cons c cs =>
        have hc := hall c (hk ▸ List.mem_cons_self)
        rw [hk, List.cons_append] at hr
        rw [(List.cons.inj hr).1] at hc
        cases hc
  split
  · exact hbasic
  split
  · rename_i h
    simp only [literal, List.cons_append, List.append_assoc, List.nil_append]
    rw [simpleKey?, literal?_chars (plain_of_traits h.1.1 h.1.2 h.2)]
    simp only [Option.map_some, String.ofList_toList]
  · exact hbasic

theorem pathChars_cons_cons (k l : String) (ks : List String) :
    pathChars (k :: l :: ks) = keyChars k ++ '.' :: pathChars (l :: ks) := by
  simp [pathChars, List.intercalate]

theorem pathChars_head (k : String) (ks : List String) :
    ∃ c cs, pathChars (k :: ks) = c :: cs ∧ startsKey c = true := by
  obtain ⟨c, cs, hk, hc⟩ := keyChars_head k
  cases ks with
  | nil => exact ⟨c, cs, by simp [pathChars, List.intercalate, hk], hc⟩
  | cons l ks => exact ⟨c, cs ++ '.' :: pathChars (l :: ks), by rw [pathChars_cons_cons, hk]; rfl, hc⟩

theorem length_le_pathChars (path : List String) : path.length ≤ (pathChars path).length := by
  induction path with
  | nil => exact Nat.zero_le _
  | cons k ks ih =>
    cases ks with
    | nil =>
      obtain ⟨c, cs, hc, -⟩ := pathChars_head k []
      rw [hc]
      exact Nat.succ_le_succ (Nat.zero_le _)
    | cons l ls =>
      rw [pathChars_cons_cons]
      simp only [List.length_append, List.length_cons] at ih ⊢
      omega

private theorem words?_pathChars (ks : List String) (k : String) {rest : List Char}
    (hrest : ∀ c ∈ rest.head?, isBareKey c = false) (hdot : (skipBlanks rest).head? ≠ some '.')
    {fuel : Nat} (hfuel : ks.length < fuel) :
    words? fuel (pathChars (ks ++ [k]) ++ rest) = some ((ks, k), skipBlanks rest) := by
  induction ks generalizing fuel with
  | nil =>
    obtain ⟨fuel, rfl⟩ := Nat.exists_eq_add_one_of_ne_zero (Nat.ne_of_gt hfuel)
    have hpath : pathChars [k] = keyChars k := by simp [pathChars, List.intercalate]
    rw [List.nil_append, hpath, words?, simpleKey?_chars k hrest]
    simp only
    split
    · rename_i h
      exact absurd (by rw [h]; rfl) hdot
    · rfl
  | cons l ks ih =>
    obtain ⟨fuel, rfl⟩ := Nat.exists_eq_add_one_of_ne_zero (Nat.ne_of_gt (Nat.zero_lt_of_lt hfuel))
    have hnext := ih (Nat.lt_of_succ_lt_succ hfuel)
    obtain ⟨m, ms, hm⟩ : ∃ m ms, ks ++ [k] = m :: ms :=
      List.exists_cons_of_ne_nil (List.append_ne_nil_of_right_ne_nil ks (List.cons_ne_nil k []))
    obtain ⟨c, cs, hc, hstart⟩ := pathChars_head m ms
    rw [List.cons_append, hm, pathChars_cons_cons, List.append_assoc, List.cons_append, words?,
      simpleKey?_chars l (by simp; decide)]
    have hblank : skipBlanks (pathChars (m :: ms) ++ rest) = pathChars (m :: ms) ++ rest := by
      rw [hc]
      exact skipBlanks_cons (isBlank_of_startsKey hstart) _
    have hdots : skipBlanks ('.' :: (pathChars (m :: ms) ++ rest)) =
        '.' :: (pathChars (m :: ms) ++ rest) := rfl
    simp only [hdots, hblank]
    rw [← hm, hnext, Option.map_some]

/-- What is written of the words of a header is read as these words, unless there are too many. -/
theorem key?_pathChars (ks : List String) (k : String) {rest : List Char}
    (hrest : ∀ c ∈ rest.head?, isBareKey c = false) (hdot : (skipBlanks rest).head? ≠ some '.') :
    key? (pathChars (ks ++ [k]) ++ rest) =
      if ks.length < maxWords then some ((ks, k), skipBlanks rest) else none := by
  have hlength := length_le_pathChars (ks ++ [k])
  have hfuel : ks.length < (pathChars (ks ++ [k]) ++ rest).length := by
    rw [List.length_append, List.length_singleton] at hlength
    rw [List.length_append]
    omega
  rw [key?, words?_pathChars ks k hrest hdot hfuel, Option.filter_some]
  simp only [decide_eq_true_eq]

theorem assigned?_chars (k : String) (rest : List Char) :
    assigned? (keyChars k ++ ' ' :: '=' :: ' ' :: rest) = some (([], k), skipBlanks rest) := by
  have hpath : pathChars [k] = keyChars k := by simp [pathChars, List.intercalate]
  have hblank : skipBlanks (' ' :: '=' :: ' ' :: rest) = '=' :: ' ' :: rest := rfl
  have hbare : ∀ c ∈ (' ' :: '=' :: ' ' :: rest).head?, isBareKey c = false := by simp; decide
  have hkey := key?_pathChars [] k hbare (by rw [hblank]; simp)
  rw [List.nil_append, hpath, hblank, if_pos (by decide)] at hkey
  rw [assigned?, hkey]
  rfl

end LanguageClient.Toml
