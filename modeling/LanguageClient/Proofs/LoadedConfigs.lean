import LanguageClient.Proofs.ConfigRoundTrip
import LanguageClient.Proofs.SettingGroups
import LanguageClient.Proofs.TomlReadings
import LanguageClient.Proofs.Utf8RoundTrip
/-!
Configurations that were loaded, whatever the text. Everything in them can be written as TOML but for the
nulls that stand for infinities and for what is not a number; what is written is loaded as the same
configuration, unless an option has more arrays and tables inside one another on one line than the reader
allows, or more words in one header.
-/
namespace LanguageClient.Config
open Json Toml Files

private theorem columns_readable {names : List String} {group : Value} (h : Readable group)
    {columns : List (Option Value)} (hcolumns : Dialect.toml.columns names group = some columns) :
    ∀ o ∈ columns, ∀ v ∈ o, Readable v := by
  intro o ho v hv
  cases group with
  | obj fs =>
    obtain ⟨rfl, -⟩ := columns_obj_inv hcolumns
    obtain ⟨key, -, rfl⟩ := List.mem_map.mp ho
    exact h.get? hv
  | arr items =>
    rw [columns_arr] at hcolumns
    cases hcolumns
    obtain ⟨i, -, rfl⟩ := List.mem_mapIdx.mp ho
    exact h.items v (List.mem_of_getElem? hv)
  | null | bool _ | num _ | str _ => cases hcolumns

private theorem of_setting {α : Type} {P : α → Prop} {default a : α} {read : Value → Option α}
    {o : Option Value} (h : Dialect.setting default read o = some a) (hdefault : P default)
    (hread : ∀ v ∈ o, read v = some a → P a) : P a := by
  cases o with
  | none => exact Option.some.inj h ▸ hdefault
  | some v => exact hread v rfl h

private theorem nat64?_le {v : Value} {n : Nat} (h : v.nat64? = some n) : n ≤ Limits.maxNat64 := by
  obtain ⟨i, hi, rfl⟩ := Option.map_eq_some_iff.mp h
  rw [Value.intBetween?.eq_def] at hi
  split at hi
  · split at hi
    · cases hi
      omega
    · cases hi
  · cases hi

private theorem mapM_keys {fs : Fields} {env : List (String × String)}
    (h : fs.mapM (fun (f : String × Value) => f.2.string?.map (f.1, ·)) = some env) :
    env.map Prod.fst = fs.map Prod.fst := by
  induction fs generalizing env with
  | nil =>
    cases h
    rfl
  | cons f fs ih =>
    rw [List.mapM_cons] at h
    obtain ⟨e, he, h⟩ := Option.bind_eq_some_iff.mp h
    obtain ⟨es, hes, h⟩ := Option.bind_eq_some_iff.mp h
    obtain ⟨s, -, rfl⟩ := Option.map_eq_some_iff.mp he
    cases h
    rw [List.map_cons, List.map_cons, ih hes]

private theorem environment_sorted {v : Value} (hv : Readable v) {env : List (String × String)}
    (h : Dialect.environment v = some env) : (env.map Prod.fst).Pairwise (· < ·) := by
  obtain ⟨fs, hfs, h⟩ := Option.bind_eq_some_iff.mp h
  cases v with
  | obj gs =>
    cases hfs
    rw [mapM_keys h]
    exact Value.fieldsCanonical_sorted hv.canonical
  | null | bool _ | num _ | str _ | arr _ => cases hfs

private theorem transport_held {group : Value} (hgroup : Readable group) {t : TransportSettings}
    (h : Dialect.toml.transport group = some t) :
    t.keepaliveSeconds ≤ Limits.maxNat64 ∧ (t.env.map Prod.fst).Pairwise (· < ·) := by
  obtain ⟨k, command, args, url, keepalive, env, hcolumns⟩ := transport_columns h
  obtain ⟨-, -, -, -, hkeepalive, henv⟩ := (transport_iff hcolumns t).mp h
  have hreadable := columns_readable hgroup hcolumns env (by simp)
  exact ⟨of_setting (P := (· ≤ Limits.maxNat64)) hkeepalive (by decide) fun _ _ => nat64?_le,
    of_setting (P := fun env => (env.map Prod.fst).Pairwise (· < ·)) henv .nil
      fun v hv => environment_sorted (hreadable v hv)⟩

private theorem rpc_held {group : Value} {r : RpcSettings} (h : Dialect.toml.rpc group = some r) :
    r.requestTimeoutMs ≤ Limits.maxNat64 := by
  obtain ⟨timeout, hcolumns⟩ := rpc_columns h
  exact of_setting (P := (· ≤ Limits.maxNat64)) ((rpc_iff hcolumns r).mp h) (by decide)
    fun _ _ => nat64?_le

private theorem client_held {group : Value} (hgroup : Readable group) {c : ClientSettings}
    (h : Dialect.toml.client group = some c) : ∀ v ∈ c.initializationOptions, Readable v := by
  obtain ⟨name, root, options, hcolumns⟩ := client_columns h
  obtain ⟨-, -, hoptions⟩ := (client_iff hcolumns c).mp h
  have hreadable := columns_readable hgroup hcolumns options (by simp)
  have hsame : options = c.initializationOptions := by
    cases options with
    | none => exact Option.some.inj hoptions
    | some v => cases v <;> exact Option.some.inj hoptions
  exact hsame ▸ hreadable

theorem held_of_loaded {text : String} {c : SessionConfig} (h : ofToml text = .ok c) :
    c.Held ∧ ∀ v ∈ c.client.initializationOptions, numbersFit v = true := by
  obtain ⟨hread, -⟩ := ofToml_eq_ok.mp h
  obtain ⟨v, hv, hsession⟩ := Option.bind_eq_some_iff.mp hread
  rw [Dialect.session] at hsession
  split at hsession
  · rename_i t r cl hcolumns
    have hreadable := columns_readable (read?_readable hv) hcolumns
    simp only [Option.bind_eq_bind, Option.bind_eq_some_iff, Option.pure_def, Option.some.injEq] at hsession
    obtain ⟨_, ht, _, hr, _, hc, rfl⟩ := hsession
    obtain ⟨hkeepalive, henv⟩ := of_setting
      (P := fun t : TransportSettings =>
        t.keepaliveSeconds ≤ Limits.maxNat64 ∧ (t.env.map Prod.fst).Pairwise (· < ·))
      ht ⟨by decide, .nil⟩ fun v hv => transport_held (hreadable t (by simp) v hv)
    have htimeout := of_setting (P := fun r : RpcSettings => r.requestTimeoutMs ≤ Limits.maxNat64)
      hr (by decide) fun _ _ => rpc_held
    have hoptions := of_setting
      (P := fun c : ClientSettings => ∀ v ∈ c.initializationOptions, Readable v)
      hc (fun v hv => by cases hv) fun v hv => client_held (hreadable cl (by simp) v hv)
    exact ⟨⟨hkeepalive, htimeout, henv, fun v hv => (hoptions v hv).canonical⟩,
      fun v hv => (hoptions v hv).numbers⟩
  · cases hsession

private theorem anyFieldNull_present (l : List (String × Option Value)) :
    anyFieldNull (Fields.present l) = l.any fun f => f.2.any hasNull := by
  induction l with
  | nil => rfl
  | cons f l ih =>
    obtain ⟨k, o⟩ := f
    cases o with
    | none => exact ih
    | some v => exact congrArg (hasNull v || ·) ih

private theorem anyFieldNull_fields (c : SessionConfig) :
    anyFieldNull c.fields = c.client.initializationOptions.any hasNull := by
  have htexts (l : List String) : anyNull (l.map .str) = false := by
    induction l with
    | nil => rfl
    | cons s l ih => exact ih
  have henv (env : List (String × String)) : anyFieldNull (env.map fun e => (e.1, .str e.2)) = false := by
    induction env with
    | nil => rfl
    | cons e env ih => exact ih
  have htext (o : Option String) : (o.map Value.str).any hasNull = false := by cases o <;> rfl
  simp only [SessionConfig.fields, anyFieldNull, hasNull, TransportSettings.fields, RpcSettings.fields,
    ClientSettings.fields, anyFieldNull_present, List.any_cons, List.any_nil, Option.any_some, htexts, henv,
    htext, Value.nat, Bool.false_or, Bool.or_false]

private theorem toToml_eq (c : SessionConfig) :
    (c.client.initializationOptions.any hasNull = true →
        c.toToml = .error (.tomlWrite "unsupported unit type")) ∧
      (c.client.initializationOptions.any hasNull = false → ∃ text, c.toToml = .ok text) := by
  rw [← anyFieldNull_fields]
  refine ⟨fun h => ?_, exists_text⟩
  rw [SessionConfig.toToml, render?, if_pos h]

def fileOf (text : String) : Entry := .file (Text.Utf8.bytes text)

theorem load_fileOf (path text : String) : load path (fileOf text) = ofToml text := by
  have hdecode := Text.Utf8.decode_eq_ok_iff.mpr (rfl : Text.Utf8.bytes text = _)
  rw [load, if_neg nofun, fileOf, Entry.text, hdecode]
  exact congrArg ofToml (String.ofList_toList)

private theorem exists_of_load {path : String} {entry : Entry} {c : SessionConfig}
    (h : load path entry = .ok c) : ∃ text, ofToml text = .ok c := by
  rw [load] at h
  split at h
  · cases h
  · cases htext : entry.text with
    | error e =>
      rw [htext] at h
      cases h
    | ok text =>
      rw [htext] at h
      exact ⟨text, h⟩

/-- A configuration that was loaded is written, with its environment in any order, unless there is a null
in its options. What is written is loaded as the same configuration if on none of its lines more arrays and
tables stand inside one another than the reader allows, and none of its headers has more words. Otherwise it
is not loaded. -/
theorem load_toToml {path : String} {entry : Entry} {c : SessionConfig} (loads : load path entry = .ok c)
    {env : List (String × String)} (henv : env.Perm c.transport.env) (path' : String) :
    if c.client.initializationOptions.any hasNull then
      (c.withEnv env).toToml = .error (.tomlWrite "unsupported unit type")
    else ∃ text, (c.withEnv env).toToml = .ok text ∧ load path' (fileOf text) =
      if Fits (c.withEnv env).fields then .ok c
      else .error (.toml "the text is no configuration") := by
  obtain ⟨text, htext⟩ := exists_of_load loads
  obtain ⟨held, fit⟩ := held_of_loaded htext
  obtain ⟨-, valid⟩ := ofToml_eq_ok.mp htext
  obtain ⟨hnull, hwritten⟩ := toToml_eq (c.withEnv env)
  split
  · rename_i h
    exact hnull h
  · rename_i h
    obtain ⟨written, hwritten⟩ := hwritten (Bool.eq_false_iff.mpr h)
    refine ⟨written, hwritten, ?_⟩
    rw [load_fileOf, ofToml, read_text held fit henv hwritten]
    by_cases hfit : Fits (c.withEnv env).fields
    · rw [if_pos hfit, if_pos hfit]
      simp only [valid]
      rfl
    · rw [if_neg hfit, if_neg hfit]

/-- A text with a date, fractional numbers, a list of tables and a key with dots. -/
def sampleText : String :=
  "[transport]\ncommand=\"ra\"\nenv=\x7bB=\"2\",A=\"1\"\x7d\n[[client.initialization_options.checks]]\n" ++
    "since=1979-05-27 07:32:00Z\nrates=[5e-1,-0.0]\nlevel.max=+18446744073709551615\n"

def sampleLoaded : SessionConfig :=
  ⟨⟨.stdio, some "ra", [], none, 30, [("A", "1"), ("B", "2")]⟩, ⟨10000⟩,
    ⟨"lspmux", none, some (.obj [("checks", .arr [.obj
      [("level", .obj [("max", .nat 18446744073709551615)]),
       ("rates", .arr [.num (.real ⟨false, Decimal.Binary64.leadingBit, -53⟩), .num (.real (.zero true))]),
       ("since", .obj [(dateTimeKey, .str "1979-05-27T07:32:00Z")])]])])⟩⟩

theorem load_toToml_sample : load "lspmux.toml" (fileOf sampleText) = .ok sampleLoaded ∧
    [("B", "2"), ("A", "1")].Perm sampleLoaded.transport.env ∧
      ∃ text, (sampleLoaded.withEnv [("B", "2"), ("A", "1")]).toToml = .ok text ∧
        load "printed.toml" (fileOf text) = .ok sampleLoaded := by
  have loads : load "lspmux.toml" (fileOf sampleText) = .ok sampleLoaded := by
    rw [load_fileOf]
    decide +kernel
  have henv : [("B", "2"), ("A", "1")].Perm sampleLoaded.transport.env := .swap ("A", "1") ("B", "2") []
  have hwritten := load_toToml loads henv "printed.toml"
  rw [if_neg (by decide), if_pos (by decide +kernel)] at hwritten
  exact ⟨loads, henv, hwritten⟩

/-- A text with an infinity, for which JSON has no number. -/
def infiniteText : String := "[client.initialization_options]\ninf=inf\n"

/-- A key of that many words and one more. -/
def dottedKey : Nat → String
  | 0 => "a"
  | n + 1 => "a." ++ dottedKey n

/-- A text with keys of many words in an array: every word makes a table. -/
def dottedText : String :=
  "[client.initialization_options]\nx=[1,\x7b" ++ dottedKey 40 ++ "=\x7b" ++ dottedKey 40 ++ "=1\x7d\x7d]\n"

/-- A text with such keys in a header and under it. -/
def headedText : String :=
  "[client.initialization_options." ++ dottedKey 40 ++ "]\n" ++ dottedKey 40 ++ "=1\n"

private theorem loaded_lost {text : String} {c : SessionConfig} (loads : ofToml text = .ok c)
    (hnull : anyFieldNull c.fields = false) (hdeep : ¬ Fits c.fields) :
    load "lspmux.toml" (fileOf text) = .ok c ∧ c.IsLost := by
  obtain ⟨held, fit⟩ := held_of_loaded loads
  rw [load_fileOf]
  exact ⟨loads, written_lost held fit hnull hdeep⟩

/-- All three texts are loaded. The configuration of the first is not written, and those of the others are
written but not loaded again. -/
theorem accepted_options_lost :
    (load "lspmux.toml" (fileOf infiniteText) = .ok (withOptions (.obj [("inf", .null)])) ∧
      (withOptions (.obj [("inf", .null)])).toToml = .error (.tomlWrite "unsupported unit type")) ∧
    (load "lspmux.toml" (fileOf dottedText) =
        .ok (withOptions (.obj [("x", .arr [.nat 1, nestedTables 82])])) ∧
      (withOptions (.obj [("x", .arr [.nat 1, nestedTables 82])])).IsLost) ∧
    (load "lspmux.toml" (fileOf headedText) = .ok (withOptions (nestedTables 82)) ∧
      (withOptions (nestedTables 82)).IsLost) := by
  have loads : ofToml infiniteText = .ok (withOptions (.obj [("inf", .null)])) := by decide +kernel
  refine ⟨⟨by rw [load_fileOf, loads], by decide +kernel⟩, ?_, ?_⟩
  · exact loaded_lost (by decide +kernel) (by decide +kernel) (by decide +kernel)
  · exact loaded_lost (by decide +kernel) (by decide +kernel) (by decide +kernel)

end LanguageClient.Config
