import LanguageClient.Proofs.SettingGroups
/-!
Settings that are left out. A setting that a text leaves out may be written out with the value that the
loaded configuration has for it, which changes nothing. The exception is a text that says nothing at all
about the transport: then the command has a default too, which it does not have beside other settings.
-/
namespace LanguageClient.Config
open Json

/-- The settings that have a default whenever they are left out. -/
inductive Setting where
  | kind
  | args
  | keepaliveSeconds
  | env
  | requestTimeoutMs
  | clientName
  deriving DecidableEq, Repr

namespace Setting

def table : Setting → String
  | kind | args | keepaliveSeconds | env => "transport"
  | requestTimeoutMs => "rpc"
  | clientName => "client"

def key : Setting → String
  | kind => "kind"
  | args => "args"
  | keepaliveSeconds => "keepalive_seconds"
  | env => "env"
  | requestTimeoutMs => "request_timeout_ms"
  | clientName => "name"

/-- The settings of its table, in the order of a list of them. -/
def names : Setting → List String
  | kind | args | keepaliveSeconds | env => ["kind", "command", "args", "url", "keepalive_seconds", "env"]
  | requestTimeoutMs => ["request_timeout_ms"]
  | clientName => ["name", "root", "initialization_options"]

def value (c : SessionConfig) : Setting → Value
  | kind => .str c.transport.kind.name
  | args => .arr (c.transport.args.map .str)
  | keepaliveSeconds => .nat c.transport.keepaliveSeconds
  | env => .obj (c.transport.env.map fun e => (e.1, .str e.2))
  | requestTimeoutMs => .nat c.rpc.requestTimeoutMs
  | clientName => .str c.client.name

end Setting

/-- Fields with one more, wherever it stands among them. -/
structure WithField (key : String) (v : Value) (fs fs' : Fields) : Prop where
  absent : Fields.get? fs key = none
  present : Fields.get? fs' key = some v
  others : ∀ k, k ≠ key → Fields.get? fs' k = Fields.get? fs k

/-- A group of settings with one more. If it is missing it is made a table, and if it is a list the setting
is the next item. -/
inductive WithSetting (names : List String) (key : String) (v : Value) : Option Value → Value → Prop where
  | created {fs : Fields} (h : WithField key v [] fs) : WithSetting names key v none (.obj fs)
  | named {fs fs' : Fields} (h : WithField key v fs fs') : WithSetting names key v (some (.obj fs)) (.obj fs')
  | listed {items : List Value} (next : names[items.length]? = some key) :
      WithSetting names key v (some (.arr items)) (.arr (items ++ [v]))

/-- A text with a setting that another text leaves out: it describes the same, and the setting with that
value. -/
def Setting.Added (s : Setting) (v : Value) (text text' : String) : Prop :=
  ∃ (fs fs' : Fields) (group : Value), Toml.read? text = some (.obj fs) ∧ Toml.read? text' = some (.obj fs') ∧
    WithSetting s.names s.key v (fs.get? s.table) group ∧ fs'.get? s.table = some group ∧
    ∀ k, k ≠ s.table → fs'.get? k = fs.get? k

/-- A text that has a group of settings of that name, if only an empty one. -/
def Mentions (text group : String) : Prop := ∃ t v, Toml.read? text = some t ∧ t.get? group = some v

section
variable {names : List String} {key : String} {v : Value} {columns : List (Option Value)} {i : Nat}

private theorem columns_withField {fs fs' : Fields} (hnodup : names.Nodup) (hi : names[i]? = some key)
    (h : WithField key v fs fs') (hcolumns : Dialect.toml.columns names (.obj fs) = some columns) :
    columns[i]? = some none ∧ Dialect.toml.columns names (.obj fs') = some (columns.set i (some v)) := by
  obtain ⟨hlt, -⟩ := List.getElem?_eq_some_iff.mp hi
  obtain ⟨rfl, hknown⟩ := columns_obj_inv hcolumns
  refine ⟨by rw [List.getElem?_map, hi, Option.map_some, h.absent], ?_⟩
  rw [columns_obj]
  · refine congrArg some (List.ext_getElem? fun j => ?_)
    rw [List.getElem?_map, List.getElem?_set, List.length_map, List.getElem?_map]
    by_cases hj : i = j
    · subst hj
      rw [if_pos rfl, if_pos hlt, hi, Option.map_some, h.present]
    · rw [if_neg hj]
      refine Option.map_congr fun k hk => h.others k fun heq => hj ?_
      exact (List.getElem?_inj hlt hnodup).mp (hi.trans (heq ▸ hk).symm)
  · intro k hk
    by_cases hkey : k = key
    · exact hkey ▸ List.mem_of_getElem? hi
    · exact hknown k (h.others k hkey ▸ hk)

private theorem columns_withItem {items : List Value} (hi : names[items.length]? = some key)
    (hcolumns : Dialect.toml.columns names (.arr items) = some columns) :
    columns[items.length]? = some none ∧
      Dialect.toml.columns names (.arr (items ++ [v])) = some (columns.set items.length (some v)) := by
  obtain ⟨hlt, -⟩ := List.getElem?_eq_some_iff.mp hi
  rw [columns_arr] at hcolumns ⊢
  cases hcolumns
  refine ⟨by rw [List.getElem?_mapIdx, hi, Option.map_some, List.getElem?_eq_none (Nat.le_refl _)], ?_⟩
  refine congrArg some (List.ext_getElem? fun j => ?_)
  rw [List.getElem?_mapIdx, List.getElem?_set, List.length_mapIdx, List.getElem?_mapIdx]
  by_cases hj : items.length = j
  · subst hj
    rw [if_pos rfl, if_pos hlt, hi, Option.map_some, List.getElem?_concat_length]
  · rw [if_neg hj]
    refine Option.map_congr fun _ _ => ?_
    obtain hlt | hge := Nat.lt_or_gt_of_ne hj
    · rw [List.getElem?_eq_none (by rw [List.length_append, List.length_singleton]; omega),
        List.getElem?_eq_none (by omega)]
    · exact List.getElem?_append_left hge

/-- Of two groups that differ in one setting, the settings differ in the place of that one. -/
private theorem columns_withSetting {group group' : Value} (hnodup : names.Nodup) (hi : names[i]? = some key)
    (h : WithSetting names key v (some group) group')
    (hcolumns : Dialect.toml.columns names group = some columns) :
    columns[i]? = some none ∧ Dialect.toml.columns names group' = some (columns.set i (some v)) := by
  cases h with
  | named h => exact columns_withField hnodup hi h hcolumns
  | listed next =>
    obtain ⟨hlt, -⟩ := List.getElem?_eq_some_iff.mp next
    obtain rfl := (List.getElem?_inj hlt hnodup).mp (next.trans hi.symm)
    exact columns_withItem next hcolumns

end

private theorem transport_withSetting {s : Setting} {c : SessionConfig} {group group' : Value}
    (hs : s.table = "transport") (h : WithSetting s.names s.key (s.value c) (some group) group')
    (ht : Dialect.toml.transport group = some c.transport) :
    Dialect.toml.transport group' = some c.transport := by
  obtain ⟨k, command, args, url, keepalive, env, hcolumns⟩ := transport_columns ht
  obtain ⟨hk, hcommand, hargs, hurl, hkeepalive, henv⟩ := (transport_iff hcolumns _).mp ht
  have hnodup : ["kind", "command", "args", "url", "keepalive_seconds", "env"].Nodup := by decide
  cases s with
  | kind =>
    obtain ⟨hnone, hcolumns'⟩ := columns_withSetting (i := 0) hnodup rfl h hcolumns
    obtain rfl : k = none := Option.some.inj hnone
    refine (transport_iff hcolumns' _).mpr ⟨?_, hcommand, hargs, hurl, hkeepalive, henv⟩
    rw [Setting.value, ← Option.some.inj hk]
    decide
  | args =>
    obtain ⟨hnone, hcolumns'⟩ := columns_withSetting (i := 2) hnodup rfl h hcolumns
    obtain rfl : args = none := Option.some.inj hnone
    refine (transport_iff hcolumns' _).mpr ⟨hk, hcommand, ?_, hurl, hkeepalive, henv⟩
    rw [Setting.value, ← Option.some.inj hargs]
    rfl
  | keepaliveSeconds =>
    obtain ⟨hnone, hcolumns'⟩ := columns_withSetting (i := 4) hnodup rfl h hcolumns
    obtain rfl : keepalive = none := Option.some.inj hnone
    refine (transport_iff hcolumns' _).mpr ⟨hk, hcommand, hargs, hurl, ?_, henv⟩
    rw [Setting.value, ← Option.some.inj hkeepalive]
    decide
  | env =>
    obtain ⟨hnone, hcolumns'⟩ := columns_withSetting (i := 5) hnodup rfl h hcolumns
    obtain rfl : env = none := Option.some.inj hnone
    refine (transport_iff hcolumns' _).mpr ⟨hk, hcommand, hargs, hurl, hkeepalive, ?_⟩
    rw [Setting.value, ← Option.some.inj henv]
    rfl
  | requestTimeoutMs => exact absurd hs (by decide)
  | clientName => exact absurd hs (by decide)

private theorem rpc_withSetting {c : SessionConfig} {group group' : Value}
    (h : WithSetting Setting.requestTimeoutMs.names Setting.requestTimeoutMs.key
      (Setting.requestTimeoutMs.value c) (some group) group')
    (hr : Dialect.toml.rpc group = some c.rpc) : Dialect.toml.rpc group' = some c.rpc := by
  obtain ⟨timeout, hcolumns⟩ := rpc_columns hr
  have htimeout := (rpc_iff hcolumns _).mp hr
  obtain ⟨hnone, hcolumns'⟩ := columns_withSetting (i := 0) (by decide) rfl h hcolumns
  obtain rfl : timeout = none := Option.some.inj hnone
  refine (rpc_iff hcolumns' _).mpr ?_
  rw [Setting.value, ← Option.some.inj htimeout]
  decide

private theorem client_withSetting {c : SessionConfig} {group group' : Value}
    (h : WithSetting Setting.clientName.names Setting.clientName.key (Setting.clientName.value c)
      (some group) group')
    (hc : Dialect.toml.client group = some c.client) : Dialect.toml.client group' = some c.client := by
  obtain ⟨name, root, options, hcolumns⟩ := client_columns hc
  obtain ⟨hname, hroot, hoptions⟩ := (client_iff hcolumns _).mp hc
  obtain ⟨hnone, hcolumns'⟩ := columns_withSetting (i := 0) (by decide) rfl h hcolumns
  obtain rfl : name = none := Option.some.inj hnone
  refine (client_iff hcolumns' _).mpr ⟨?_, hroot, hoptions⟩
  rw [Setting.value, ← Option.some.inj hname]
  rfl

private theorem withSetting_empty {names : List String} {key : String} {v group : Value}
    (h : WithSetting names key v none group) : WithSetting names key v (some (.obj [])) group := by
  cases h with
  | created h => exact .named h

private theorem setting_withSetting {α : Type} {default a : α} {read : Value → Option α}
    {names : List String} {key : String} {v group : Value} {old : Option Value}
    (hempty : read (.obj []) = some default)
    (hread : ∀ {g}, WithSetting names key v (some g) group → read g = some a → read group = some a)
    (h : WithSetting names key v old group) (hold : Dialect.setting default read old = some a) :
    read group = some a := by
  cases old with
  | none => exact hread (withSetting_empty h) (hempty.trans hold)
  | some g => exact hread h hold

private def commandless (c : SessionConfig) : SessionConfig :=
  { c with transport := { c.transport with command := none } }

private theorem validate_commandless {c : SessionConfig} (h : c.transport.kind = .stdio) :
    (commandless c).validate = .error (.invalidConfig "transport.command cannot be empty for stdio") := by
  rw [SessionConfig.validate, TransportSettings.validate]
  simp only [commandless, h]
  rfl

private theorem ofToml_invalid {text : String} {c : SessionConfig} {e : Fault}
    (hread : (Toml.read? text).bind Dialect.toml.session = some c) (h : c.validate = .error e) :
    ofToml text = .error e := by
  rw [ofToml, hread]
  simp only [h]
  rfl

private theorem mentions_iff {text group : String} {fs : Fields} (hread : Toml.read? text = some (.obj fs)) :
    Mentions text group ↔ (fs.get? group).isSome = true := by
  constructor
  · rintro ⟨t, v, ht, hv⟩
    obtain rfl := Option.some.inj (hread.symm.trans ht)
    exact Option.isSome_iff_exists.mpr ⟨v, hv⟩
  · intro h
    obtain ⟨v, hv⟩ := Option.isSome_iff_exists.mp h
    exact ⟨.obj fs, v, hread, hv⟩

section
variable {s : Setting} {c : SessionConfig} {fs fs' : Fields} {group : Value}

private theorem transport_created (hs : s.table = "transport")
    (h : WithSetting s.names s.key (s.value c) none group) (hdefault : c.transport = TransportSettings.default) :
    Dialect.toml.transport group = some (commandless c).transport := by
  have hempty : Dialect.toml.transport (.obj []) = some (commandless c).transport := by
    simp only [commandless, hdefault]
    decide
  have hvalue : s.value (commandless c) = s.value c := by cases s <;> rfl
  exact transport_withSetting hs (hvalue ▸ withSetting_empty h) hempty

private theorem known_added (hothers : ∀ k, k ≠ s.table → fs'.get? k = fs.get? k)
    (hknown : ∀ key, (fs.get? key).isSome = true → key ∈ ["transport", "rpc", "client"]) (key : String)
    (hkey : (fs'.get? key).isSome = true) : key ∈ ["transport", "rpc", "client"] := by
  by_cases hs : key = s.table
  · rw [hs]
    cases s <;> decide
  · exact hknown key (hothers key hs ▸ hkey)

private theorem session_transport {t : TransportSettings} (hs : s.table = "transport")
    (hsession : Dialect.toml.session (.obj fs) = some c) (hget : fs'.get? s.table = some group)
    (hothers : ∀ k, k ≠ s.table → fs'.get? k = fs.get? k) (ht : Dialect.toml.transport group = some t) :
    Dialect.toml.session (.obj fs') = some { c with transport := t } := by
  obtain ⟨hknown, -, hr, hc⟩ := (session_iff fs c).mp hsession
  refine (session_iff fs' _).mpr ⟨known_added hothers hknown, ?_, ?_, ?_⟩
  · rw [← hs, hget]
    exact ht
  · exact hothers "rpc" (by rw [hs]; decide) ▸ hr
  · exact hothers "client" (by rw [hs]; decide) ▸ hc

/-- Outside the transport table a setting may be written out whether its table is there or not. -/
private theorem session_elsewhere (hs : s.table ≠ "transport")
    (hsession : Dialect.toml.session (.obj fs) = some c)
    (hgroup : WithSetting s.names s.key (s.value c) (fs.get? s.table) group) (hget : fs'.get? s.table = some group)
    (hothers : ∀ k, k ≠ s.table → fs'.get? k = fs.get? k) : Dialect.toml.session (.obj fs') = some c := by
  obtain ⟨hknown, ht, hr, hc⟩ := (session_iff fs c).mp hsession
  refine (session_iff fs' c).mpr ⟨known_added hothers hknown, hothers "transport" (Ne.symm hs) ▸ ht, ?_⟩
  cases s with
  | requestTimeoutMs =>
    have hr' := setting_withSetting (by decide) rpc_withSetting hgroup hr
    exact ⟨hget ▸ hr', hothers "client" (by decide) ▸ hc⟩
  | clientName =>
    have hc' := setting_withSetting (by decide) client_withSetting hgroup hc
    exact ⟨hothers "rpc" (by decide) ▸ hr, hget ▸ hc'⟩
  | _ => exact absurd rfl hs

end

/-- A text may write out a setting that another one leaves out, with the value that the setting has. It
describes the same configuration, unless the other text has no transport table that the setting could have
been written into. Then the new table lacks the command and the text is not loaded. -/
theorem ofToml_added {s : Setting} {text text' : String} {c : SessionConfig}
    (loads : ofToml text = .ok c) (added : s.Added (s.value c) text text') :
    ((s.table = "transport" → Mentions text "transport") → ofToml text' = .ok c) ∧
      (s.table = "transport" → ¬ Mentions text "transport" →
        ofToml text' = .error (.invalidConfig "transport.command cannot be empty for stdio")) := by
  obtain ⟨hsession, valid⟩ := ofToml_eq_ok.mp loads
  obtain ⟨fs, fs', group, hread, hread', hgroup, hget, hothers⟩ := added
  rw [hread, Option.bind_some] at hsession
  have hdescribed {d : SessionConfig} (h : Dialect.toml.session (.obj fs') = some d) :
      (Toml.read? text').bind Dialect.toml.session = some d := by
    rw [hread', Option.bind_some, h]
  rw [mentions_iff hread]
  by_cases htable : s.table = "transport"
  · have ht := ((session_iff fs c).mp hsession).2.1
    rw [← htable] at ht ⊢
    cases hold : fs.get? s.table with
    | some old =>
      rw [hold] at hgroup ht
      have hsame := session_transport htable hsession hget hothers (transport_withSetting htable hgroup ht)
      exact ⟨fun _ => ofToml_eq_ok.mpr ⟨hdescribed hsame, valid⟩, fun _ h => absurd rfl h⟩
    | none =>
      rw [hold] at hgroup ht
      have hdefault : c.transport = TransportSettings.default := (Option.some.inj ht).symm
      have hbare := session_transport htable hsession hget hothers (transport_created htable hgroup hdefault)
      refine ⟨fun h => absurd (h rfl) Bool.false_ne_true, fun _ _ => ofToml_invalid (hdescribed hbare) ?_⟩
      exact validate_commandless (by rw [hdefault]; rfl)
  · refine ⟨fun _ => ofToml_eq_ok.mpr ⟨hdescribed ?_, valid⟩, fun h => absurd h htable⟩
    exact session_elsewhere htable hsession hgroup hget hothers

private theorem withField_cons (key : String) (v : Value) {fs : Fields} (h : fs.get? key = none) :
    WithField key v fs ((key, v) :: fs) := by
  refine ⟨h, List.lookup_cons_self, fun k hk => ?_⟩
  rw [Fields.get?, List.lookup_cons, beq_false_of_ne hk]
  rfl

/-- A text with a command, and the same with the arguments written out. -/
theorem ofToml_added_args : ∃ c, ofToml "[transport]\ncommand=\"ra\"\n" = .ok c ∧
    Setting.args.Added (Setting.args.value c) "[transport]\ncommand=\"ra\"\n"
      "[transport]\ncommand=\"ra\"\nargs=[]\n" ∧
    ofToml "[transport]\ncommand=\"ra\"\nargs=[]\n" = .ok c := by
  let c : SessionConfig := { SessionConfig.default with
    transport := { TransportSettings.default with command := some "ra" } }
  have loads : ofToml "[transport]\ncommand=\"ra\"\n" = .ok c :=
    ofToml_eq_ok.mpr ⟨by decide +kernel, by decide +kernel⟩
  have added : Setting.args.Added (Setting.args.value c) "[transport]\ncommand=\"ra\"\n"
      "[transport]\ncommand=\"ra\"\nargs=[]\n" :=
    ⟨[("transport", .obj [("command", .str "ra")])],
      [("transport", .obj [("args", .arr []), ("command", .str "ra")])], _, by decide +kernel,
      by decide +kernel, .named (withField_cons _ _ rfl), rfl, fun k hk => by
        have hne : (k == "transport") = false := beq_false_of_ne hk
        simp only [Fields.get?, List.lookup_cons, hne]⟩
  have hmentions : Mentions "[transport]\ncommand=\"ra\"\n" "transport" :=
    ⟨.obj [("transport", .obj [("command", .str "ra")])], _, by decide +kernel, rfl⟩
  exact ⟨c, loads, added, (ofToml_added loads added).1 fun _ => hmentions⟩

/-- The empty text is loaded with standard input and output as the transport. The text that writes this
out, and so has a table without a command, is not loaded. -/
theorem empty_text_with_kind : ¬ ∀ (s : Setting) text text' c, ofToml text = .ok c →
    s.Added (s.value c) text text' → ofToml text' = .ok c := by
  intro h
  have loads : ofToml "" = .ok SessionConfig.default := ofToml_eq_ok.mpr ⟨by decide +kernel, by decide +kernel⟩
  have added : Setting.kind.Added (Setting.kind.value SessionConfig.default) ""
      "[transport]\nkind=\"stdio\"\n" :=
    ⟨[], [("transport", .obj [("kind", .str "stdio")])], _, by decide +kernel, by decide +kernel,
      .created (withField_cons _ _ rfl), rfl, (withField_cons _ _ rfl).others⟩
  obtain ⟨hread, -⟩ := ofToml_eq_ok.mp (h _ _ _ _ loads added)
  exact absurd hread (by decide +kernel)

end LanguageClient.Config
