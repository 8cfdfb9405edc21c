import LanguageClient.Json.Reader
import LanguageClient.Path
import LanguageClient.Proofs.Utf8RoundTrip
import Mathlib.Data.List.TakeWhile
/-!
Which file the URI of a path names. Nothing is escaped when a path is made a URI, so that a question mark,
a number sign or a percent sign in a path keeps the meaning that it has in a URI: the URI names the file at
the path exactly when the path holds none of the three.
-/
namespace LanguageClient.Uri
open Text

/-- The bytes that a part of a URI stands for. An escape stands for the byte of its two digits. -/
def percentDecoded : List Char → List UInt8
  | [] => []
  | '%' :: a :: b :: rest =>
    match Json.hexDigit? a, Json.hexDigit? b with
    | some high, some low => UInt8.ofNat (16 * high + low) :: percentDecoded rest
    | _, _ => String.utf8EncodeChar '%' ++ percentDecoded (a :: b :: rest)
  | c :: rest => String.utf8EncodeChar c ++ percentDecoded rest

def parts (u : Uri) : Parts := split u.text.toList

/-- The URI names the file at a path: it has the scheme `file`, no host, no query and no fragment, and its
path stands for the bytes of that path. -/
structure NamesFile (u : Uri) (path : String) : Prop where
  scheme : u.parts.scheme = some "file".toList
  authority : u.parts.authority = some []
  query : u.parts.query = none
  fragment : u.parts.fragment = none
  path : percentDecoded u.parts.path = Utf8.bytes path

theorem NamesFile.unique {u : Uri} {path other : String} (h : u.NamesFile path)
    (k : u.NamesFile other) : other = path := by
  have hbytes : Utf8.encode other.toList = Utf8.encode path.toList := k.path.symm.trans h.path
  have hdecode := Utf8.decode_encode other.toList
  rw [hbytes, Utf8.decode_encode] at hdecode
  exact String.toList_inj.mp (Except.ok.inj hdecode).symm

private theorem percentDecoded_cons {c : Char} (h : c ≠ '%') (rest : List Char) :
    percentDecoded (c :: rest) = String.utf8EncodeChar c ++ percentDecoded rest := by
  rw [percentDecoded]
  exact fun _ _ _ hc _ => h hc

/-- A text without escapes stands for its own bytes. -/
theorem percentDecoded_eq {s : List Char} (h : '%' ∉ s) : percentDecoded s = Utf8.encode s := by
  induction s with
  | nil => rfl
  | cons c s ih =>
    obtain ⟨hc, hs⟩ := List.ne_and_not_mem_of_not_mem_cons h
    rw [percentDecoded_cons (Ne.symm hc), ih hs]
    rfl

private theorem hexDigit?_of_isHex {c : Char} (h : isHex c = true) :
    ∃ n, Json.hexDigit? c = some n := by
  simp only [isHex, Char.isDigit, Bool.or_eq_true, Bool.and_eq_true, decide_eq_true_eq] at h
  unfold Json.hexDigit?
  split
  · exact ⟨_, rfl⟩
  · rename_i hdigit
    split
    · exact ⟨_, rfl⟩
    · rename_i hlower
      refine ⟨_, if_pos ?_⟩
      obtain (h | h) | h := h
      · exact absurd h hdigit
      · exact absurd h hlower
      · exact h

private theorem length_utf8EncodeChar_pos (c : Char) : 0 < (String.utf8EncodeChar c).length := by
  rw [String.length_utf8EncodeChar]
  exact c.utf8Size_pos

private theorem length_percentDecoded {ok : Char → Bool} {s : List Char} (h : encoded ok s = true) :
    (percentDecoded s).length ≤ (Utf8.encode s).length ∧
      ('%' ∈ s → (percentDecoded s).length < (Utf8.encode s).length) := by
  fun_induction encoded ok s with
  | case1 => exact ⟨Nat.le_refl _, nofun⟩
  | case2 a b rest ih =>
    simp only [Bool.and_eq_true] at h
    obtain ⟨⟨ha, hb⟩, hrest⟩ := h
    obtain ⟨high, hhigh⟩ := hexDigit?_of_isHex ha
    obtain ⟨low, hlow⟩ := hexDigit?_of_isHex hb
    have hle := (ih hrest).1
    have hpa := length_utf8EncodeChar_pos a
    have hpb := length_utf8EncodeChar_pos b
    have hdecoded : percentDecoded ('%' :: a :: b :: rest) =
        UInt8.ofNat (16 * high + low) :: percentDecoded rest := by
      rw [percentDecoded, hhigh, hlow]
    have hbytes : Utf8.encode ('%' :: a :: b :: rest) = String.utf8EncodeChar '%' ++
        (String.utf8EncodeChar a ++ (String.utf8EncodeChar b ++ Utf8.encode rest)) := rfl
    have hlt : (percentDecoded ('%' :: a :: b :: rest)).length <
        (Utf8.encode ('%' :: a :: b :: rest)).length := by
      rw [hdecoded, hbytes]
      simp only [List.length_append, List.length_cons]
      omega
    exact ⟨Nat.le_of_lt hlt, fun _ => hlt⟩
  | case3 c rest _ ih =>
    simp only [Bool.and_eq_true, bne_iff_ne, ne_eq] at h
    obtain ⟨⟨hc, -⟩, hrest⟩ := h
    obtain ⟨hle, hlt⟩ := ih hrest
    have hbytes : Utf8.encode (c :: rest) = String.utf8EncodeChar c ++ Utf8.encode rest := rfl
    rw [percentDecoded_cons hc, hbytes, List.length_append, List.length_append]
    refine ⟨Nat.add_le_add_left hle _, fun hmem => Nat.add_lt_add_left (hlt ?_) _⟩
    exact (List.mem_cons.mp hmem).resolve_left (Ne.symm hc)

end LanguageClient.Uri

namespace LanguageClient.Path
open Text Uri

/-- A path that starts at the root. -/
def IsAbsolute (path : String) : Prop := path.toList.head? = some '/'

/-- What ends the path of a URI. -/
def endsPath (c : Char) : Bool := c == '?' || c == '#'

/-- No character of the path means something else in a URI than it does in a path. -/
def IsPlain (path : String) : Prop := ∀ c ∈ path.toList, endsPath c = false ∧ c ≠ '%'

private theorem uri_text (path : String) :
    ("file://" ++ path).toList = "file://".toList ++ path.toList := String.toList_append

theorem toUri_text {path : String} {u : Uri} (h : toUri path = .ok u) :
    u.text = "file://" ++ path := by
  unfold toUri at h
  simp only at h
  split at h
  · rename_i v hv
    cases h
    exact ofString?_text hv
  · cases h

private theorem toUri_ok_iff (path : String) :
    (∃ u, toUri path = .ok u) ↔ isReference ("file://" ++ path).toList = true := by
  unfold toUri ofString?
  by_cases hvalid : isReference ("file://" ++ path).toList = true
  · simp only [dif_pos hvalid]
    exact ⟨fun _ => hvalid, fun _ => ⟨_, rfl⟩⟩
  · simp only [dif_neg hvalid]
    refine ⟨?_, fun hv => absurd hv hvalid⟩
    rintro ⟨u, hu⟩
    cases hu

/-- The query and the fragment that follow the path of a URI. -/
private def tail (s : List Char) : Option (List Char) × Option (List Char) :=
  let (query, s) := match s with
    | '?' :: rest =>
      let (query, rest) := cutAt (fun c => c == '#') rest
      (some query, rest)
    | s => (none, s)
  (query, match s with
    | '#' :: rest => some rest
    | _ => none)

private theorem split_file {path : String} (h : IsAbsolute path) :
    split ("file://" ++ path).toList =
      { scheme := some "file".toList
        authority := some []
        path := path.toList.takeWhile fun c => !endsPath c
        query := (tail (path.toList.dropWhile fun c => !endsPath c)).1
        fragment := (tail (path.toList.dropWhile fun c => !endsPath c)).2 } := by
  obtain ⟨rest, hrest⟩ := List.head?_eq_some_iff.mp h
  rw [uri_text, hrest]
  rfl

private theorem parts_toUri {path : String} {u : Uri} (habsolute : IsAbsolute path)
    (h : toUri path = .ok u) : u.parts =
      { scheme := some "file".toList
        authority := some []
        path := path.toList.takeWhile fun c => !endsPath c
        query := (tail (path.toList.dropWhile fun c => !endsPath c)).1
        fragment := (tail (path.toList.dropWhile fun c => !endsPath c)).2 } := by
  rw [parts, toUri_text h, split_file habsolute]

private theorem tail_dropWhile (s : List Char) :
    tail (s.dropWhile fun c => !endsPath c) = (none, none) ↔ ∀ c ∈ s, endsPath c = false := by
  induction s with
  | nil => exact ⟨fun _ => nofun, fun _ => rfl⟩
  | cons c s ih =>
    rw [List.forall_mem_cons]
    cases hc : endsPath c with
    | false =>
      rw [List.dropWhile_cons_of_pos (by rw [hc]; rfl), ih]
      exact ⟨fun h => ⟨rfl, h⟩, And.right⟩
    | true =>
      rw [List.dropWhile_cons_of_neg (by simp [hc])]
      refine ⟨fun h => ?_, fun h => Bool.noConfusion h.1⟩
      obtain rfl | rfl : c = '?' ∨ c = '#' := by simpa [endsPath] using hc
      · cases congrArg Prod.fst h
      · cases congrArg Prod.snd h

private theorem takeWhile_path {s : List Char} (h : ∀ c ∈ s, endsPath c = false) :
    s.takeWhile (fun c => !endsPath c) = s :=
  List.takeWhile_eq_self_iff.mpr fun c hc => by rw [h c hc]; rfl

/-- The URI of an absolute path names the file at that path if and only if the path is plain. -/
private theorem namesFile_iff {path : String} {u : Uri} (habsolute : IsAbsolute path)
    (h : toUri path = .ok u) : u.NamesFile path ↔ IsPlain path := by
  have hparts := parts_toUri habsolute h
  have hvalid : encoded isPathChar u.parts.path = true := by
    have hok : u.parts.ok = true := u.valid
    simp only [Parts.ok, Parts.pathOk, Bool.and_eq_true] at hok
    exact hok.1.1.2.1
  constructor
  · intro names
    have hends : ∀ c ∈ path.toList, endsPath c = false := by
      refine (tail_dropWhile path.toList).mp (Prod.ext ?_ ?_)
      · exact (congrArg Parts.query hparts).symm.trans names.query
      · exact (congrArg Parts.fragment hparts).symm.trans names.fragment
    have hpath : u.parts.path = path.toList :=
      (congrArg Parts.path hparts).trans (takeWhile_path hends)
    rw [hpath] at hvalid
    have hbytes : percentDecoded path.toList = Utf8.bytes path := hpath ▸ names.path
    -- an escape would stand for fewer bytes than it has
    have hescape : '%' ∉ path.toList := fun hmem =>
      Nat.ne_of_lt ((length_percentDecoded hvalid).2 hmem) (congrArg List.length hbytes)
    exact fun c hc => ⟨hends c hc, fun heq => hescape (heq ▸ hc)⟩
  · intro plain
    have hends : ∀ c ∈ path.toList, endsPath c = false := fun c hc => (plain c hc).1
    have hescape : '%' ∉ path.toList := fun hmem => (plain '%' hmem).2 rfl
    have htail := (tail_dropWhile path.toList).mpr hends
    refine ⟨congrArg Parts.scheme hparts, congrArg Parts.authority hparts, ?_, ?_, ?_⟩
    · exact (congrArg Parts.query hparts).trans (congrArg Prod.fst htail)
    · exact (congrArg Parts.fragment hparts).trans (congrArg Prod.snd htail)
    · rw [(congrArg Parts.path hparts).trans (takeWhile_path hends)]
      exact percentDecoded_eq hescape

private theorem encoded_plain {ok : Char → Bool} {s : List Char} (h : '%' ∉ s) :
    encoded ok s = s.all ok := by
  induction s with
  | nil => rfl
  | cons c s ih =>
    obtain ⟨hc, hs⟩ := List.ne_and_not_mem_of_not_mem_cons h
    rw [encoded, ih hs, bne_iff_ne.mpr (Ne.symm hc), Bool.true_and, List.all_cons]
    exact fun _ _ _ he _ => hc he.symm

/-- A plain absolute path has a URI exactly when all of its characters may stand in the path of one. -/
theorem toUri_plain {path : String} (habsolute : IsAbsolute path) (plain : IsPlain path) :
    (∃ u, toUri path = .ok u) ↔ ∀ c ∈ path.toList, isPathChar c = true := by
  have hends : ∀ c ∈ path.toList, endsPath c = false := fun c hc => (plain c hc).1
  have hescape : '%' ∉ path.toList := fun hmem => (plain '%' hmem).2 rfl
  have htail := (tail_dropWhile path.toList).mpr hends
  have hparts : split ("file://" ++ path).toList =
      ⟨some "file".toList, some [], path.toList, none, none⟩ := by
    rw [split_file habsolute, htail, takeWhile_path hends]
  have hreference : isReference ("file://" ++ path).toList = path.toList.all isPathChar := by
    have hscheme : schemeOk "file".toList = true := by decide
    have hauthority : authorityOk [] = true := by decide
    rw [isReference, hparts]
    simp only [Parts.ok, Parts.pathOk, Option.all_some, Option.all_none, hscheme, hauthority,
      encoded_plain hescape, Option.isSome_some, Bool.true_or, Bool.and_true, Bool.true_and]
  rw [toUri_ok_iff, hreference, List.all_eq_true]

/-- The URI of an absolute path has the scheme `file` and no host. It names the file at that path if and
only if no question mark, number sign or percent sign stands in the path, and no two paths without these
have URIs that name the same file. -/
theorem toUri_names_plain {path : String} {u : Uri} (habsolute : IsAbsolute path)
    (h : toUri path = .ok u) :
    u.parts.scheme = some "file".toList ∧ u.parts.authority = some [] ∧
      (u.NamesFile path ↔ IsPlain path) ∧
      (IsPlain path → ∀ other v file, IsAbsolute other → IsPlain other → toUri other = .ok v →
        u.NamesFile file → v.NamesFile file → other = path) := by
  have hparts := parts_toUri habsolute h
  refine ⟨congrArg Parts.scheme hparts, congrArg Parts.authority hparts, namesFile_iff habsolute h, ?_⟩
  intro plain other v file hother plainOther hv hu hfile
  have hpath : path = file := hu.unique ((namesFile_iff habsolute h).mpr plain)
  have hsame : other = file := hfile.unique ((namesFile_iff hother hv).mpr plainOther)
  exact hsame.trans hpath.symm

/-- The sources `/src/main.rs` and `/src/main.c` have URIs that name their own files. -/
theorem toUri_names_plain_sources : ∃ u v : Uri,
    toUri "/src/main.rs" = .ok u ∧ toUri "/src/main.c" = .ok v ∧
      u.NamesFile "/src/main.rs" ∧ ¬ v.NamesFile "/src/main.rs" := by
  have habsolute : IsAbsolute "/src/main.rs" := by simp [IsAbsolute]
  have hother : IsAbsolute "/src/main.c" := by simp [IsAbsolute]
  have plain : IsPlain "/src/main.rs" := by simp [IsPlain, endsPath]
  have plainOther : IsPlain "/src/main.c" := by simp [IsPlain, endsPath]
  obtain ⟨u, hu⟩ := (toUri_plain habsolute plain).mpr (by simp [isPathChar, isUnreserved])
  obtain ⟨v, hv⟩ := (toUri_plain hother plainOther).mpr (by simp [isPathChar, isUnreserved])
  obtain ⟨-, -, names, apart⟩ := toUri_names_plain habsolute hu
  have hfile := names.mpr plain
  refine ⟨u, v, hu, hv, hfile, fun hshared => ?_⟩
  exact absurd (apart plain _ v _ hother plainOther hv hfile hshared) (by decide)

/-- The URI of the path `/a%41.rs` names the other file `/aA.rs`, whose URI names it as well. -/
theorem escaped_path_misnamed :
    ¬ (∀ path u, IsAbsolute path → toUri path = .ok u → u.NamesFile path) ∧
      ¬ ∀ path other u v file, IsAbsolute path → IsAbsolute other → toUri path = .ok u →
        toUri other = .ok v → u.NamesFile file → v.NamesFile file → path = other := by
  have habsolute : IsAbsolute "/a%41.rs" := by simp [IsAbsolute]
  have hother : IsAbsolute "/aA.rs" := by simp [IsAbsolute]
  have plain : IsPlain "/aA.rs" := by simp [IsPlain, endsPath]
  obtain ⟨u, hu⟩ : ∃ u, toUri "/a%41.rs" = .ok u := by
    refine (toUri_ok_iff _).mpr ?_
    have hscheme : schemeOk ['f', 'i', 'l', 'e'] = true := by decide
    have hauthority : authorityOk [] = true := by decide
    have hhex : isHex '4' = true ∧ isHex '1' = true := by decide
    rw [isReference, split_file habsolute]
    simp [Parts.ok, Parts.pathOk, tail, endsPath, hscheme, hauthority, encoded, hhex, isPathChar,
      isUnreserved]
  obtain ⟨v, hv⟩ := (toUri_plain hother plain).mpr (by simp [isPathChar, isUnreserved])
  have hown : v.NamesFile "/aA.rs" := (namesFile_iff hother hv).mpr plain
  have hmisnamed : u.NamesFile "/aA.rs" := by
    have hparts := parts_toUri habsolute hu
    constructor <;> rw [hparts]
    case path => simp [endsPath, percentDecoded, Json.hexDigit?, Utf8.bytes, Utf8.encode]; rfl
    all_goals simp [tail, endsPath]
  constructor
  · intro h
    exact absurd (hmisnamed.unique (h _ u habsolute hu)) (by decide)
  · intro h
    exact absurd (h _ _ u v _ habsolute hother hu hv hmisnamed hown) (by decide)

end LanguageClient.Path
