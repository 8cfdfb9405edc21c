import LanguageClient.Proofs.FramingRoundTrip
/-!
What the reader makes of a stream that goes on. Whatever the bytes are, a frame is delivered from bytes
that have all arrived, and so is a protocol fault; more bytes change neither. Only what is decided at the
end of the input may be decided otherwise when the input goes on.
-/
namespace LanguageClient.Transport.Framing
open Text

variable {bs rest : List UInt8} {found hs : List Header}

private theorem splitLine_more (h : (10 : UInt8) ∈ bs) (more : List UInt8) :
    splitLine (bs ++ more) = ((splitLine bs).1, (splitLine bs).2 ++ more) := by
  obtain ⟨line, rest, rfl, hline⟩ := List.eq_append_cons_of_mem h
  rw [List.append_assoc, List.cons_append, splitLine_append hline, splitLine_append hline]

private theorem lineFeed_of_blank {line : List Char} (h : Line.ofChars line = .blank) :
    '\n' ∈ line := by
  unfold Line.ofChars at h
  split at h
  · rename_i hline
    rcases hline with rfl | rfl <;> decide
  · simp only at h
    split at h <;> cases h

private theorem readSection_nil_ne : (readSection found []).2 ≠ .complete hs rest := by
  intro h
  rw [readSection] at h
  split at h <;> cases h

/-- A section is complete only at a blank line, and a blank line has its line feed. -/
private theorem lineFeed_of_complete (h : (readSection found bs).2 = .complete hs rest) :
    (10 : UInt8) ∈ bs := by
  by_contra hbs
  cases bs with
  | nil => exact readSection_nil_ne h
  | cons b bs =>
    -- the first line is all there is
    rw [readSection, splitLine_of_not_mem hbs] at h
    simp only at h
    split at h
    · cases h
    · rename_i line hd
      split at h
      · rename_i hb
        have hfeed : (10 : UInt8) ∈ Utf8.encode line :=
          List.mem_flatMap.mpr ⟨'\n', lineFeed_of_blank hb, by decide⟩
        exact hbs (Utf8.decode_eq_ok_iff.mp hd ▸ hfeed)
      · exact readSection_nil_ne h
      · exact readSection_nil_ne h

private theorem readSection_more (h : (readSection found bs).2 = .complete hs rest)
    (more : List UInt8) :
    readSection found (bs ++ more) = ((readSection found bs).1, .complete hs (rest ++ more)) := by
  have hfeed := lineFeed_of_complete h
  fun_induction readSection found bs with
  | case1 => cases h
  | case2 => cases h
  | case3 => cases h
  | case4 found b bs line hd hl hf ih =>
    rw [List.cons_append, readSection, ← List.cons_append, splitLine_more hfeed]
    simp only [hd, hl, hf, if_true]
    exact ih h (lineFeed_of_complete h)
  | case5 found b bs line hd hl hf =>
    rw [List.cons_append, readSection, ← List.cons_append, splitLine_more hfeed]
    obtain ⟨rfl, rfl⟩ := Section.complete.inj h
    simp only [hd, hl, hf]
    rfl
  | case6 found b bs line hd header hl ih =>
    rw [List.cons_append, readSection, ← List.cons_append, splitLine_more hfeed]
    simp only [hd, hl]
    exact ih h (lineFeed_of_complete h)
  | case7 found b bs line hd text hl notes result hr ih =>
    rw [hr] at ih
    rw [List.cons_append, readSection, ← List.cons_append, splitLine_more hfeed]
    simp only [hd, hl, ih h (lineFeed_of_complete (by rw [hr]; exact h))]

private theorem readSection_broken {f : Fault} (h : (readSection found bs).2 = .broken f)
    (reason : String) : f ≠ .protocol reason := by
  rintro rfl
  fun_induction readSection found bs with
  | case1 => cases h
  | case2 => cases h
  | case3 => cases h
  | case4 found b bs line hd hl hf ih => exact ih h
  | case5 => cases h
  | case6 found b bs line hd header hl ih => exact ih h
  | case7 found b bs line hd text hl notes result hr ih => exact ih (by rw [hr]; exact h)

/-- What is read does not depend on bytes that have not arrived. -/
def Read.Decided : Read → Prop
  | .frame _ _ | .fault (.protocol _) => True
  | .finish | .fault _ => False

/-- The same, read of a stream that goes on. -/
def Read.continued (more : List UInt8) : Read → Read
  | .frame text rest => .frame text (rest ++ more)
  | read => read

private theorem readBody_more {n : Nat} (h : n ≤ bs.length) (more : List UInt8) :
    readBody n (bs ++ more) = (readBody n bs).map fun (text, rest) => (text, rest ++ more) := by
  rw [readBody, readBody, if_neg (by rw [List.length_append]; omega), if_neg (by omega),
    List.take_append_of_le_length h, List.drop_append_of_le_length h]
  cases Utf8.decode (bs.take n) <;> rfl

/-- What is decided of the first frame of a stream stays decided when more follows. -/
theorem readFrame_more (h : (readFrame bs).2.Decided) (more : List UInt8) :
    readFrame (bs ++ more) = ((readFrame bs).1, (readFrame bs).2.continued more) := by
  unfold readFrame at h ⊢
  cases hsection : readSection [] bs with
  | mk notes read =>
    rw [hsection] at h
    cases read with
    | absent => exact h.elim
    | broken f =>
      -- no such fault is decided
      cases f with
      | protocol reason => exact (readSection_broken (congrArg Prod.snd hsection) reason rfl).elim
      | _ => exact h.elim
    | complete hs rest =>
      rw [readSection_more (congrArg Prod.snd hsection), hsection]
      simp only at h ⊢
      cases hlength : bodyLength hs with
      | error f =>
        rfl
      | ok n =>
        rw [hlength] at h
        simp only [Except.bind] at h ⊢
        by_cases hn : n ≤ rest.length
        · rw [readBody_more hn]
          cases readBody n rest <;> rfl
        · rw [readBody, if_pos (by omega)] at h
          exact h.elim

/-- What one look at the stream of frames gives: an item, if there is one, and what is left to look
at. After a fault there is nothing left. -/
def poll : Option (List UInt8) → Option (Outcome String × Option (List UInt8))
  | none => none
  | some bs =>
    match (readFrame bs).2 with
    | .frame text rest => some (.ok text, some rest)
    | .finish => none
    | .fault f => some (.error f, none)

/-- The stream ends, and these are its items. -/
inductive Delivers : Option (List UInt8) → List (Outcome String) → Prop where
  | ended {left : Option (List UInt8)} (h : poll left = none) : Delivers left []
  | item {left after : Option (List UInt8)} {item : Outcome String} {items : List (Outcome String)}
    (h : poll left = some (item, after)) (rest : Delivers after items) : Delivers left (item :: items)

theorem Delivers.unique {left : Option (List UInt8)} {items others : List (Outcome String)}
    (h : Delivers left items) (k : Delivers left others) : items = others := by
  induction h generalizing others with
  | ended h =>
    cases k with
    | ended _ => rfl
    | item k _ =>
      rw [h] at k
      cases k
  | item h _ ih =>
    cases k with
    | ended k =>
      rw [h] at k
      cases k
    | item k rest =>
      rw [h] at k
      cases k
      rw [ih rest]

/-- Frames, and the fault that ended the reading. -/
def Transcript.items (t : Transcript) : List (Outcome String) :=
  t.frames.map .ok ++ t.fault.toList.map .error

theorem delivers_readAll (bs : List UInt8) : Delivers (some bs) (readAll bs).items := by
  fun_induction readAll bs with
  | case1 bs notes h => exact .ended (by rw [poll, h])
  | case2 bs notes f h => exact .item (by rw [poll, h]) (.ended rfl)
  | case3 bs notes text rest h t ih => exact .item (by rw [poll, h]) ih

/-- Every item but a fault takes bytes off the stream. -/
theorem length_items_le (bs : List UInt8) : (readAll bs).items.length ≤ bs.length + 1 := by
  fun_induction readAll bs with
  | case1 bs notes h => exact Nat.zero_le _
  | case2 bs notes f h => simp [Transcript.items]
  | case3 bs notes text rest h t ih =>
    have hrest := readFrame_length (congrArg Prod.snd h)
    have ih : t.items.length ≤ rest.length + 1 := ih
    have hitems : Transcript.items ⟨text :: t.frames, notes ++ t.notes, t.fault⟩ =
        .ok text :: t.items := rfl
    rw [hitems, List.length_cons]
    omega

/-- A fault is the last item, so that there is one at most. -/
theorem Transcript.error_last {t : Transcript} {before after : List (Outcome String)} {f : Fault}
    (h : t.items = before ++ .error f :: after) : after = [] := by
  obtain ⟨frames, notes, fault⟩ := t
  induction frames generalizing before with
  | nil =>
    have hlength := congrArg List.length h
    have hfault : (Transcript.items ⟨[], notes, fault⟩).length ≤ 1 := by
      cases fault <;> simp [Transcript.items]
    rw [List.length_append, List.length_cons] at hlength
    exact List.length_eq_zero_iff.mp (by omega)
  | cons frame frames ih =>
    have hitems : Transcript.items ⟨frame :: frames, notes, fault⟩ =
        .ok frame :: Transcript.items ⟨frames, notes, fault⟩ := rfl
    rw [hitems] at h
    cases before with
    | nil => cases (List.cons.inj h).1
    | cons item before => exact ih (List.cons.inj h).2

theorem frames_prefix (bs more : List UInt8) :
    (readAll bs).frames <+: (readAll (bs ++ more)).frames := by
  fun_induction readAll bs with
  | case1 bs notes h => exact List.nil_prefix
  | case2 bs notes f h => exact List.nil_prefix
  | case3 bs notes text rest h t ih =>
    have hdecided : (readFrame bs).2.Decided := by rw [h]; trivial
    have hmore := readFrame_more hdecided more
    rw [h] at hmore
    rw [readAll_of_frame hmore]
    exact List.cons_prefix_cons.mpr ⟨rfl, ih⟩

theorem protocol_fault_stands {reason : String} (h : (readAll bs).fault = some (.protocol reason))
    (more : List UInt8) : readAll (bs ++ more) = readAll bs := by
  fun_induction readAll bs with
  | case1 bs notes hread => cases h
  | case2 bs notes f hread =>
    obtain rfl := Option.some.inj h
    have hdecided : (readFrame bs).2.Decided := by rw [hread]; trivial
    have hmore := readFrame_more hdecided more
    rw [hread] at hmore
    exact readAll_of_fault hmore
  | case3 bs notes text rest hread t ih =>
    have hdecided : (readFrame bs).2.Decided := by rw [hread]; trivial
    have hmore := readFrame_more hdecided more
    rw [hread] at hmore
    rw [readAll_of_frame hmore, ih h]

/-- The reading of any bytes ends, after at most one item for each byte and one more, and a fault ends
it. When more bytes follow, all frames are delivered as before, whatever else is; after a protocol fault
nothing else is. -/
theorem reading_continued (bs more : List UInt8) :
    (∀ items, Delivers (some bs) items ↔ items = (readAll bs).items) ∧
      (readAll bs).items.length ≤ bs.length + 1 ∧
      (∀ before f after, (readAll bs).items = before ++ .error f :: after → after = []) ∧
      (readAll bs).frames <+: (readAll (bs ++ more)).frames ∧
      ∀ reason, (readAll bs).fault = some (.protocol reason) →
        (readAll (bs ++ more)).items = (readAll bs).items := by
  have hdelivers := delivers_readAll bs
  refine ⟨fun items => ⟨fun h => h.unique hdelivers, fun h => h ▸ hdelivers⟩, length_items_le bs,
    fun before f after h => Transcript.error_last h, frames_prefix bs more, fun reason h => ?_⟩
  rw [protocol_fault_stands h more]

end LanguageClient.Transport.Framing
