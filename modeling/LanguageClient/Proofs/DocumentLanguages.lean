import LanguageClient.Proofs.DocumentHistory
import LanguageClient.Proofs.FileUris
import LanguageClient.Proofs.Lifecycle
/-!
The language of a document, as its path tells it. A path ends in the last name of its text, behind which
only slashes and single dots may stand, and the extension is what follows the last dot of that name. The
text of its URI has the same extension as a path, even where the path ends in no name, so that a document
is tracked under one language whether it was opened from its file or first heard of through a change.
-/
namespace LanguageClient.Uri

theorem pieces_eq_splitOn (sep : Char) (s : List Char) : pieces sep s = s.splitOn sep := by
  induction s with
  | nil => rfl
  | cons c s ih =>
    rw [pieces, ih, List.splitOn_cons_eq_if_modifyHead]
    cases h : s.splitOn sep with
    | nil => exact absurd h (List.splitOn_ne_nil sep s)
    | cons p ps => by_cases hc : c = sep <;> simp [hc]

theorem pieces_append (sep : Char) (a b : List Char) :
    pieces sep (a ++ sep :: b) = pieces sep a ++ pieces sep b := by
  rw [pieces_eq_splitOn, pieces_eq_splitOn, pieces_eq_splitOn, List.splitOn_append_cons_self]

theorem pieces_single {sep : Char} {a : List Char} (h : sep ∉ a) : pieces sep a = [a] := by
  rw [pieces_eq_splitOn, List.splitOn_eq_singleton h]

theorem intercalate_pieces (sep : Char) (s : List Char) : [sep].intercalate (pieces sep s) = s := by
  rw [pieces_eq_splitOn, List.intercalate_splitOn]

theorem not_mem_pieces (sep : Char) (s : List Char) : ∀ p ∈ pieces sep s, sep ∉ p := by
  induction s with
  | nil => exact List.forall_mem_singleton.mpr List.not_mem_nil
  | cons c s ih =>
    rw [pieces]
    split
    · exact List.forall_mem_singleton.mpr List.not_mem_nil
    · rename_i q qs hs
      rw [hs, List.forall_mem_cons] at ih
      split
      · exact List.forall_mem_cons.mpr ⟨List.not_mem_nil, List.forall_mem_cons.mpr ih⟩
      · rename_i hc
        have hq : sep ∉ c :: q := List.not_mem_cons_of_ne_of_not_mem (Ne.symm hc) ih.1
        exact List.forall_mem_cons.mpr ⟨hq, ih.2⟩

end LanguageClient.Uri

namespace LanguageClient.Path
open Uri

/-- What a piece between two slashes stands for, if for anything. -/
def component? (p : List Char) : Option Component :=
  if p = [] ∨ p = ['.'] then none else if p = ['.', '.'] then some .parent else some (.normal p)

def Component.name? : Component → Option (List Char)
  | normal name => some name
  | _ => none

theorem component?_eq_none {p : List Char} : component? p = none ↔ p = [] ∨ p = ['.'] := by
  grind [component?]

theorem component?_eq_normal {p name : List Char} :
    component? p = some (.normal name) ↔ p = name ∧ name ≠ [] ∧ name ≠ ['.'] ∧ name ≠ ['.', '.'] := by
  grind [component?]

theorem pieces_later (ps : List (List Char)) : pieces false ps = ps.filterMap component? := by
  induction ps with
  | nil => rfl
  | cons p ps ih =>
    rw [pieces, ih, List.filterMap_cons, component?]
    by_cases hnil : p = []
    · simp [hnil]
    · by_cases hdot : p = ['.']
      · simp [hdot]
      · by_cases hdots : p = ['.', '.'] <;> simp [hnil, hdot, hdots]

/-- The components of a path are those of its pieces, after what it may start with, which has no name. -/
theorem components_eq (s : List Char) : ∃ start : Option Component,
    start.bind Component.name? = none ∧
      components s = start.toList ++ (Uri.pieces '/' s).filterMap component? := by
  unfold components
  split
  · rename_i rest
    refine ⟨some .root, rfl, ?_⟩
    have hroot : Uri.pieces '/' ('/' :: rest) = [] :: Uri.pieces '/' rest := pieces_append '/' [] rest
    rw [hroot, pieces_later]
    rfl
  · cases Uri.pieces '/' s with
    | nil => exact ⟨none, rfl, rfl⟩
    | cons p ps =>
      by_cases hdot : p = ['.']
      · refine ⟨some .current, rfl, ?_⟩
        rw [hdot, pieces, pieces_later]
        rfl
      · refine ⟨none, rfl, ?_⟩
        rw [← pieces_later, pieces, pieces]
        simp [hdot]

theorem fileName?_eq (s : List Char) : fileName? s =
    ((Uri.pieces '/' s).filterMap component?).getLast?.bind Component.name? := by
  have hname : fileName? s = (components s).getLast?.bind Component.name? := by
    unfold fileName?
    cases (components s).getLast? with
    | none => rfl
    | some c => cases c <;> rfl
  obtain ⟨start, hstart, hs⟩ := components_eq s
  rw [hname, hs, List.getLast?_append]
  cases ((Uri.pieces '/' s).filterMap component?).getLast? with
  | some c => rfl
  | none =>
    cases start with
    | none => rfl
    | some c => exact hstart

/-- Slashes, with nothing or a single dot after each of them, lead nowhere. -/
inductive Idle : List Char → Prop where
  | done : Idle []
  | step {p rest : List Char} (h : p = [] ∨ p = ['.']) : Idle rest → Idle ('/' :: (p ++ rest))

/-- The text of the path ends in a name, but for what leads nowhere. -/
def EndsIn (path name : List Char) : Prop :=
  ∃ dir rest, path = dir ++ (name ++ rest) ∧ (dir = [] ∨ ['/'] <:+ dir) ∧ Idle rest

/-- A name stands whole between slashes, and one dot or two are none. -/
structure IsName (name : List Char) : Prop where
  whole : '/' ∉ name
  nonempty : name ≠ []
  notCurrent : name ≠ ['.']
  notParent : name ≠ ['.', '.']

/-- The path ends in a name with the extension after its last dot and something before that dot. -/
def HasExtension (path extension : List Char) : Prop :=
  '.' ∉ extension ∧ ∃ stem, stem ≠ [] ∧ IsName (stem ++ '.' :: extension) ∧
    EndsIn path (stem ++ '.' :: extension)

theorem Idle.pieces {rest : List Char} (h : Idle rest) : ∃ after,
    (∀ p ∈ after, component? p = none) ∧
      ∀ q, '/' ∉ q → Uri.pieces '/' (q ++ rest) = q :: after := by
  induction h with
  | done => exact ⟨[], nofun, fun q hq => by rw [List.append_nil, pieces_single hq]⟩
  | @step p rest hp _ ih =>
    obtain ⟨after, hafter, hpieces⟩ := ih
    have hslash : '/' ∉ p := by obtain rfl | rfl := hp <;> decide
    refine ⟨p :: after, List.forall_mem_cons.mpr ⟨component?_eq_none.mpr hp, hafter⟩, fun q hq => ?_⟩
    rw [pieces_append, pieces_single hq, hpieces p hslash, List.singleton_append]

theorem idle_after {after : List (List Char)} (h : ∀ p ∈ after, component? p = none) :
    ∃ rest, Idle rest ∧ ∀ q, ['/'].intercalate (q :: after) = q ++ rest := by
  induction after with
  | nil => exact ⟨[], .done, fun q => by rw [List.intercalate_singleton, List.append_nil]⟩
  | cons p after ih =>
    obtain ⟨hp, hafter⟩ := List.forall_mem_cons.mp h
    obtain ⟨rest, hrest, hjoin⟩ := ih hafter
    refine ⟨'/' :: (p ++ rest), .step (component?_eq_none.mp hp) hrest, fun q => ?_⟩
    rw [List.intercalate_cons_cons, hjoin, List.append_assoc, List.singleton_append]

theorem directory_before (before : List (List Char)) {ps : List (List Char)} (h : ps ≠ []) :
    ∃ dir, (dir = [] ∨ ['/'] <:+ dir) ∧
      ['/'].intercalate (before ++ ps) = dir ++ ['/'].intercalate ps := by
  induction before with
  | nil => exact ⟨[], .inl rfl, rfl⟩
  | cons q before ih =>
    obtain ⟨dir, hdir, hjoin⟩ := ih
    refine ⟨q ++ ['/'] ++ dir, .inr ?_, ?_⟩
    · obtain rfl | hdir := hdir
      · rw [List.append_nil]
        exact List.suffix_append q ['/']
      · exact hdir.trans (List.suffix_append _ dir)
    · have hne : before ++ ps ≠ [] := List.append_ne_nil_of_right_ne_nil before h
      rw [List.cons_append, List.intercalate_cons_of_ne_nil hne, hjoin, List.append_assoc _ dir]

/-- A path ends in a name exactly when that is its last piece but for those that stand for nothing. -/
theorem endsIn_iff {path name : List Char} : '/' ∉ name ∧ EndsIn path name ↔
    ∃ before after, Uri.pieces '/' path = before ++ name :: after ∧
      ∀ p ∈ after, component? p = none := by
  constructor
  · rintro ⟨hname, dir, rest, rfl, hdir, hrest⟩
    obtain ⟨after, hafter, hpieces⟩ := hrest.pieces
    obtain rfl | ⟨dir, rfl⟩ := hdir
    · exact ⟨[], after, hpieces name hname, hafter⟩
    · refine ⟨Uri.pieces '/' dir, after, ?_, hafter⟩
      rw [List.append_assoc, List.singleton_append, pieces_append, hpieces name hname]
  · rintro ⟨before, after, hpieces, hafter⟩
    obtain ⟨rest, hrest, hjoin⟩ := idle_after hafter
    obtain ⟨dir, hdir, hwhole⟩ := directory_before before (List.cons_ne_nil name after)
    refine ⟨not_mem_pieces '/' path name ?_, dir, rest, ?_, hdir, hrest⟩
    · rw [hpieces]
      exact List.mem_append_right before List.mem_cons_self
    · rw [← hjoin, ← hwhole, ← hpieces, intercalate_pieces]

theorem fileName?_eq_some_iff {path name : List Char} :
    fileName? path = some name ↔ IsName name ∧ EndsIn path name := by
  have hlast : fileName? path = some name ↔
      ((Uri.pieces '/' path).filterMap component?).getLast? = some (.normal name) := by
    rw [fileName?_eq, Option.bind_eq_some_iff]
    constructor
    · rintro ⟨c, hc, hname⟩
      cases c <;> cases hname
      exact hc
    · exact fun h => ⟨_, h, rfl⟩
  rw [hlast, List.getLast?_filterMap, List.findSome?_eq_some_iff]
  constructor
  · rintro ⟨after, p, before, hpieces, hp, hafter⟩
    obtain ⟨rfl, hnil, hdot, hdots⟩ := component?_eq_normal.mp hp
    have hends : '/' ∉ p ∧ EndsIn path p := by
      refine endsIn_iff.mpr ⟨before.reverse, after.reverse, ?_, by simpa using hafter⟩
      rw [← List.reverse_inj, hpieces]
      simp
    exact ⟨⟨hends.1, hnil, hdot, hdots⟩, hends.2⟩
  · rintro ⟨hname, hends⟩
    obtain ⟨before, after, hpieces, hafter⟩ := endsIn_iff.mp ⟨hname.whole, hends⟩
    refine ⟨after.reverse, name, before.reverse, by rw [hpieces]; simp, ?_, by simpa using hafter⟩
    exact component?_eq_normal.mpr ⟨rfl, hname.nonempty, hname.notCurrent, hname.notParent⟩

/-- What follows the last dot of a name is its extension, if something comes before that dot. -/
theorem extension?_of_fileName {path name extension : List Char} (h : fileName? path = some name) :
    extension? path = some extension ↔
      '.' ∉ extension ∧ ∃ stem, stem ≠ [] ∧ name = stem ++ '.' :: extension := by
  rw [extension?, h, Option.bind_some]
  constructor
  · intro hmatch
    split at hmatch
    · rename_i dot last stem hrest
      cases hmatch
      have hdot : dot = '.' := by
        have hhead := List.head?_dropWhile_not (· != '.') name.reverse
        rw [hrest] at hhead
        simpa using hhead
      have hname : name.reverse = name.reverse.takeWhile (· != '.') ++ '.' :: last :: stem := by
        rw [hdot] at hrest
        rw [← hrest, List.takeWhile_append_dropWhile]
      refine ⟨fun hmem => ?_, (last :: stem).reverse, by simp, ?_⟩
      · have hkept := List.mem_takeWhile_imp (List.mem_reverse.mp hmem)
        simp at hkept
      · have hback := congrArg List.reverse hname
        simpa using hback
    · cases hmatch
  · rintro ⟨hdot, stem, hstem, rfl⟩
    obtain ⟨last, rest, hrest⟩ := List.exists_cons_of_ne_nil (List.reverse_ne_nil_iff.mpr hstem)
    have hkept : ∀ c ∈ extension.reverse, (c != '.') = true := by
      intro c hc
      exact bne_iff_ne.mpr fun heq => hdot (heq ▸ List.mem_reverse.mp hc)
    have hname : (stem ++ '.' :: extension).reverse = extension.reverse ++ '.' :: last :: rest := by
      rw [← hrest]
      simp
    rw [hname, List.takeWhile_append_of_pos hkept, List.dropWhile_append_of_pos hkept]
    simp

theorem extension?_eq_some_iff {path extension : List Char} :
    extension? path = some extension ↔ HasExtension path extension := by
  constructor
  · intro h
    obtain ⟨name, hname, -⟩ := Option.bind_eq_some_iff.mp h
    obtain ⟨hdot, stem, hstem, rfl⟩ := (extension?_of_fileName hname).mp h
    exact ⟨hdot, stem, hstem, fileName?_eq_some_iff.mp hname⟩
  · rintro ⟨hdot, stem, hstem, hname⟩
    exact (extension?_of_fileName (fileName?_eq_some_iff.mpr hname)).mpr ⟨hdot, stem, hstem, rfl⟩

theorem detectLanguage_of_extension {path : String} {extension : List Char}
    (h : HasExtension path.toList extension) : detectLanguage path = languageOf extension := by
  rw [detectLanguage, extension?_eq_some_iff.mpr h]
  rfl

theorem detectLanguage_plain {path : String} (h : ∀ extension, ¬ HasExtension path.toList extension) :
    detectLanguage path = "plaintext" := by
  have hnone : extension? path.toList = none :=
    Option.eq_none_iff_forall_ne_some.mpr fun extension he => h extension (extension?_eq_some_iff.mp he)
  rw [detectLanguage, hnone]
  decide

private theorem file_text (s : List Char) : "file://".toList ++ s =
    "file:".toList ++ '/' :: ([] ++ '/' :: s) := rfl

/-- The text of the URI ends in the same name as the path, or in its scheme if the path ends in no name. -/
theorem fileName?_file (s : List Char) :
    fileName? ("file://".toList ++ s) = fileName? s ∨
      fileName? s = none ∧ fileName? ("file://".toList ++ s) = some "file:".toList := by
  have hpieces : (Uri.pieces '/' ("file://".toList ++ s)).filterMap component? =
      .normal "file:".toList :: (Uri.pieces '/' s).filterMap component? := by
    rw [file_text, pieces_append, pieces_append, pieces_single (by decide)]
    rfl
  rw [fileName?_eq, fileName?_eq, hpieces, List.getLast?_cons]
  -- the scheme comes last only if the path adds no component; a step back at the end is one
  cases ((Uri.pieces '/' s).filterMap component?).getLast? with
  | none => exact .inr ⟨rfl, rfl⟩
  | some c => exact .inl rfl

/-- The path to the working directory ends in no name, but the text of its URI does. -/
example : fileName? "./".toList = none ∧ fileName? "file://./".toList = some "file:".toList := by
  decide

/-- The scheme has no extension, so that the path and the text of its URI have the same one. -/
theorem extension?_file (s : List Char) : extension? ("file://".toList ++ s) = extension? s := by
  unfold extension?
  obtain h | ⟨hnone, hfile⟩ := fileName?_file s
  · rw [h]
  · rw [hnone, hfile]
    rfl

theorem detectLanguage_file (path : String) :
    detectLanguage ("file://" ++ path) = detectLanguage path := by
  rw [detectLanguage, detectLanguage, String.toList_append, extension?_file]

end LanguageClient.Path

namespace LanguageClient.Client
open Session Json

def State.language? (uri : String) (s : State) : Option String :=
  (s.session.documents.get? uri).map Document.languageId

theorem recordOpen_language (item : TextItem) (s : State) :
    (s.recordOpen item).language? item.uri.text = some item.languageId := by
  rw [State.language?, State.recordOpen, State.modifySession, Documents.opened, Keyed.get?_put_self]
  rfl

theorem recordChange_language (uri : Uri) (version : Int) (s : State) :
    (s.recordChange uri version).language? uri.text =
      some ((s.language? uri.text).getD (Path.detectLanguage uri.text)) := by
  rw [State.language?, recordChange_document, if_pos rfl]
  rfl

/-- A file is opened at the URI of its path, and tracked under the language of the path. -/
theorem openFile_language {path : String} {contents : Outcome String} {uri : Uri} {s t : State}
    (h : s.openFile path contents = (.ok uri, t)) :
    Path.toUri path = .ok uri ∧ t.language? uri.text = some (Path.detectLanguage path) := by
  unfold State.openFile at h
  generalize Path.toUri path = address at h ⊢
  split at h
  · cases h
  · cases h
  · rename_i text address
    generalize hd : s.didOpen ⟨address, Path.detectLanguage path, 1, text⟩ = r at h
    obtain ⟨_ | _, u⟩ := r
    · cases h
    · cases h
      unfold State.didOpen at hd
      split at hd <;> cases hd
      exact ⟨rfl, recordOpen_language _ _⟩

/-- A change that is sent leaves its document tracked, under the language of its URI if it was not tracked
before. -/
theorem didChange_language {uri : Uri} {text : String} {edits : List ContentChange} {version : Int}
    {s t : State} (h : s.didChange uri text edits = (.ok (some version), t)) :
    t.language? uri.text = some ((s.language? uri.text).getD (Path.detectLanguage uri.text)) := by
  rw [didChange_eq] at h
  split at h
  · cases h
  · rename_i changes _
    obtain ⟨r, u, hn, hu⟩ := (s.forewarn uri.text).notify_result "textDocument/didChange"
      (some (didChangeParams uri (s.nextVersion uri.text) changes))
    rw [hn] at h
    cases r with
    | error e => cases h
    | ok _ =>
      cases h
      have hsame : u.language? uri.text = s.language? uri.text := by
        rw [State.language?, hu, State.forewarn_session, State.language?]
      rw [recordChange_language, hsame]

/-- The language that a path tells is that of its extension, or plain text if it has none, and the text of
its URI tells the same. So a document is tracked under one language, whether it is opened from its file or
a change is the first that is heard of it. -/
theorem languages_agree (path : String) :
    Path.detectLanguage ("file://" ++ path) = Path.detectLanguage path ∧
    (∀ extension, Path.HasExtension path.toList extension →
      Path.detectLanguage path = Path.languageOf extension) ∧
    ((∀ extension, ¬ Path.HasExtension path.toList extension) →
      Path.detectLanguage path = "plaintext") ∧
    (∀ contents uri (s t : State), s.openFile path contents = (.ok uri, t) →
      Path.toUri path = .ok uri ∧ t.language? uri.text = some (Path.detectLanguage path)) ∧
    ∀ uri text edits version (s t : State), Path.toUri path = .ok uri →
      s.session.documents.get? uri.text = none →
      s.didChange uri text edits = (.ok (some version), t) →
        t.language? uri.text = some (Path.detectLanguage path) := by
  refine ⟨Path.detectLanguage_file path, fun _ => Path.detectLanguage_of_extension,
    Path.detectLanguage_plain, fun _ _ _ _ => openFile_language, ?_⟩
  intro uri text edits version s t haddress hnew h
  have hlanguage := didChange_language h
  have hnone : s.language? uri.text = none := congrArg (Option.map Document.languageId) hnew
  rw [hlanguage, hnone, Path.toUri_text haddress, Option.getD_none, Path.detectLanguage_file]

def linked : State := (State.new .session .standard 30000).after [.connect, .found 1 0]

def hiddenSource : String := "/src/../.main.rs//./"

private theorem hiddenSource_rs : Path.HasExtension hiddenSource.toList ['r', 's'] := by
  refine ⟨by decide, ".main".toList, by decide, ⟨by decide, by decide, by decide, by decide⟩, ?_⟩
  exact ⟨"/src/../".toList, "//./".toList, by decide, .inr (by decide),
    .step (.inl rfl) (.step (.inr rfl) (.step (.inl rfl) .done))⟩

private theorem dotfile_plain (extension : List Char) : ¬ Path.HasExtension ".rs".toList extension := by
  rw [← Path.extension?_eq_some_iff]
  exact nofun

/-- A source with a hidden name, behind a step back and with slashes and a dot at its end, is tracked as
Rust either way. Where nothing comes before the dot, the text is plain. -/
theorem languages_agree_hiddenSource :
    (∀ extension, ¬ Path.HasExtension ".rs".toList extension) ∧
    Path.detectLanguage ".rs" = "plaintext" ∧
    Path.HasExtension hiddenSource.toList ['r', 's'] ∧ ∃ uri t u,
      linked.openFile hiddenSource (.ok "") = (.ok uri, t) ∧
      linked.didChange uri "" [] = (.ok (some 1), u) ∧
      t.language? uri.text = some "rust" ∧ u.language? uri.text = some "rust" := by
  have habsolute : Path.IsAbsolute hiddenSource := by simp [Path.IsAbsolute, hiddenSource]
  have plain : Path.IsPlain hiddenSource := by simp [Path.IsPlain, Path.endsPath, hiddenSource]
  obtain ⟨uri, huri⟩ := (Path.toUri_plain habsolute plain).mpr
    (by simp [Uri.isPathChar, Uri.isUnreserved, hiddenSource])
  obtain ⟨-, ofExtension, -, opened, changed⟩ := languages_agree hiddenSource
  have hrust : Path.detectLanguage hiddenSource = "rust" := ofExtension _ hiddenSource_rs
  have hopen : linked.openFile hiddenSource (.ok "") = (.ok uri,
      (linked.didOpen ⟨uri, Path.detectLanguage hiddenSource, 1, ""⟩).2) := by
    unfold State.openFile
    rw [huri]
    rfl
  have hchange : linked.didChange uri "" [] = (.ok (some 1), (linked.didChange uri "" []).2) := rfl
  refine ⟨dotfile_plain, (languages_agree ".rs").2.2.1 dotfile_plain, hiddenSource_rs, uri, _, _,
    hopen, hchange, ?_, ?_⟩
  · rw [← hrust]
    exact (opened _ _ _ _ hopen).2
  · rw [← hrust]
    exact changed _ _ _ _ _ _ huri rfl hchange

end LanguageClient.Client
