import LanguageClient.Config.Load
import LanguageClient.Proofs.TomlRoundTrip
/-!
A configuration that is written out and loaded again is the same configuration, in whatever order the
environment was written, unless an option has more arrays and tables inside one another on one line than
the reader allows, or more words in one header: then nothing is loaded.
-/
namespace LanguageClient.Config
open Json Toml

namespace SessionConfig

/-- What every configuration holds: counts have 64 bits, the environment is a map, kept by name, and the
options are a JSON value. -/
structure Held (c : SessionConfig) : Prop where
  keepalive : c.transport.keepaliveSeconds ≤ Limits.maxNat64
  timeout : c.rpc.requestTimeoutMs ≤ Limits.maxNat64
  env : (c.transport.env.map Prod.fst).Pairwise (· < ·)
  options : ∀ v ∈ c.client.initializationOptions, v.isCanonical = true

/-- The variables of the environment in another order. -/
def withEnv (c : SessionConfig) (env : List (String × String)) : SessionConfig :=
  { c with transport := { c.transport with env := env } }

end SessionConfig

mutual

private theorem numbersFit_of_whole : ∀ v : Value, v.isWhole = true → numbersFit v = true := by
  intro v h
  match v with
  | .num (.int n) => exact h
  | .num (.real _) => cases h
  | .arr items => exact itemsFit_of_whole items h
  | .obj fields => exact fieldsFit_of_whole fields h
  | .null | .bool _ | .str _ => rfl

private theorem itemsFit_of_whole : ∀ vs : List Value, Value.itemsWhole vs = true →
    itemsFit vs = true := by
  intro vs h
  match vs with
  | [] => rfl
  | v :: vs =>
    rw [Value.itemsWhole, Bool.and_eq_true] at h
    rw [itemsFit, numbersFit_of_whole v h.1, itemsFit_of_whole vs h.2]
    rfl

private theorem fieldsFit_of_whole : ∀ fs : Fields, Value.fieldsWhole fs = true →
    fieldsFit fs = true := by
  intro fs h
  match fs with
  | [] => rfl
  | (k, v) :: fs =>
    rw [Value.fieldsWhole, Bool.and_eq_true] at h
    rw [fieldsFit, numbersFit_of_whole v h.1, fieldsFit_of_whole fs h.2]
    rfl

end

private theorem hasNull_mem {fs : Fields} (h : anyFieldNull fs = false) :
    ∀ f ∈ fs, hasNull f.2 = false := by
  induction fs with
  | nil => exact List.forall_mem_nil _
  | cons f fs ih =>
    rw [anyFieldNull, Bool.or_eq_false_iff] at h
    exact List.forall_mem_cons.mpr ⟨h.1, ih h.2⟩

private theorem expressible_present {l : List (String × Option Value)} (hkeys : (l.map Prod.fst).Nodup)
    (hvalues : ∀ f ∈ l, ∀ v ∈ f.2, expressible v = true) :
    expressible (.obj (Fields.present l)) = true := by
  refine expressible_obj.mpr ⟨Fields.nodup_present hkeys, fieldsExpressible_iff.mpr fun f hf => ?_⟩
  obtain ⟨g, hg, hgf⟩ := List.mem_filterMap.mp hf
  obtain ⟨v, hv, rfl⟩ := Option.map_eq_some_iff.mp hgf
  exact hvalues g hg v hv

private theorem allExpressible_texts (l : List String) : allExpressible (l.map Value.str) = true := by
  induction l with
  | nil => rfl
  | cons s l ih => exact ih

private theorem expressible_nat {n : Nat} (h : n ≤ Limits.maxNat64) : expressible (.nat n) = true := by
  have hmin : Limits.minInt64 ≤ 0 := by decide
  simp only [Value.nat, expressible, decide_eq_true_eq]
  omega

variable {c : SessionConfig} {env : List (String × String)}

private def asField (e : String × String) : String × Value := (e.1, .str e.2)

private theorem nodup_variables {order : List (String × String)}
    (hsorted : (env.map Prod.fst).Pairwise (· < ·)) (horder : order.Perm env) :
    ((order.map asField).map Prod.fst).Nodup := by
  rw [List.map_map]
  exact (horder.map Prod.fst).nodup_iff.mpr (nodup_of_sorted hsorted)

private theorem expressible_transport (held : c.Held) (henv : env.Perm c.transport.env) :
    expressible (.obj (c.withEnv env).transport.fields) = true := by
  have hoption (o : Option String) : ∀ v ∈ o.map Value.str, expressible v = true := by
    cases o <;> simp [expressible]
  have hobj : expressible (.obj (env.map asField)) = true := by
    refine expressible_obj.mpr
      ⟨nodup_variables held.env henv, fieldsExpressible_iff.mpr fun f hf => ?_⟩
    obtain ⟨e, -, rfl⟩ := List.mem_map.mp hf
    rfl
  refine expressible_present (by simp) ?_
  simp only [List.forall_mem_cons, List.not_mem_nil, false_imp_iff, implies_true, and_true,
    Option.mem_some_iff, forall_eq']
  exact ⟨rfl, hoption _, allExpressible_texts _, hoption _, expressible_nat held.keepalive, hobj⟩

private theorem expressible_client (held : c.Held)
    (fit : ∀ v ∈ c.client.initializationOptions, numbersFit v = true)
    (hnull : anyFieldNull c.client.fields = false) : expressible (.obj c.client.fields) = true := by
  have hroot : ∀ v ∈ c.client.root.map Value.str, expressible v = true := by
    cases c.client.root <;> simp [expressible]
  have hoptions : ∀ v ∈ c.client.initializationOptions, expressible v = true := by
    intro v hv
    have hmem : ("initialization_options", v) ∈ c.client.fields := by
      refine List.mem_filterMap.mpr ⟨("initialization_options", c.client.initializationOptions), ?_, ?_⟩
      · simp
      · rw [Option.mem_def.mp hv]
        rfl
    exact expressible_of_fit v (fit v hv) (held.options v hv) (hasNull_mem hnull _ hmem)
  refine expressible_present (by simp) ?_
  simp only [List.forall_mem_cons, List.not_mem_nil, false_imp_iff, implies_true, and_true,
    Option.mem_some_iff, forall_eq']
  exact ⟨rfl, hroot, hoptions⟩

private theorem expressible_fields (held : c.Held) (henv : env.Perm c.transport.env)
    (fit : ∀ v ∈ c.client.initializationOptions, numbersFit v = true)
    (hnull : anyFieldNull (c.withEnv env).fields = false) :
    expressible (.obj (c.withEnv env).fields) = true := by
  have hclient : anyFieldNull c.client.fields = false :=
    hasNull_mem hnull ("client", .obj c.client.fields) (by simp [SessionConfig.fields, SessionConfig.withEnv])
  have hrpc : expressible (.obj c.rpc.fields) = true := by
    simpa [RpcSettings.fields, expressible, fieldsExpressible] using expressible_nat held.timeout
  refine expressible_obj.mpr ⟨by simp [SessionConfig.fields], fieldsExpressible_iff.mpr ?_⟩
  simp only [SessionConfig.fields, List.forall_mem_cons, List.not_mem_nil, false_imp_iff, implies_true,
    and_true]
  exact ⟨expressible_transport held henv, hrpc, expressible_client (c := c) held fit hclient⟩

private theorem get?_isSome {fs : Fields} {f : String × Value} (h : f ∈ fs) :
    (fs.get? f.1).isSome = true := by
  refine Option.isSome_iff_ne_none.mpr fun hnone => ?_
  have hne := List.lookup_eq_none_iff.mp hnone f h
  rw [bne_self_eq_false] at hne
  cases hne

private theorem lookup_mem {α : Type} {l : List (String × α)} (hkeys : (l.map Prod.fst).Nodup)
    {f : String × α} (hf : f ∈ l) : l.lookup f.1 = some f.2 := by
  induction l with
  | nil => cases hf
  | cons g l ih =>
    obtain ⟨hg, hl⟩ := List.nodup_cons.mp hkeys
    rw [List.lookup_cons]
    obtain rfl | hf := List.mem_cons.mp hf
    · rw [beq_self_eq_true]
    · have hne : f.1 ≠ g.1 := fun heq => hg (List.mem_map.mpr ⟨f, hf, heq⟩)
      rw [beq_false_of_ne hne]
      exact ih hl hf

private theorem columns_present (l : List (String × Option Value)) (hkeys : (l.map Prod.fst).Nodup) :
    Dialect.toml.columns (l.map Prod.fst) (Value.obj (Fields.present l)).canonical =
      some (l.map fun f => f.2.map Value.canonical) := by
  have hget (key : String) : Fields.get? (Value.canonicalFields (Fields.present l) []) key =
      (l.lookup key).join.map Value.canonical := by
    rw [Value.get?_canonicalFields (Fields.nodup_present hkeys), Fields.get?_present hkeys]
  have hall : (Value.canonicalFields (Fields.present l) []).all
      (fun f => (l.map Prod.fst).contains f.1) = true := by
    refine List.all_eq_true.mpr fun f hf => List.contains_iff_mem.mpr ?_
    have hsome := get?_isSome hf
    refine Classical.byContradiction fun hnot => ?_
    rw [hget, lookup_eq_none hnot] at hsome
    cases hsome
  rw [Value.canonical, Dialect.columns, if_pos hall, List.map_map]
  refine congrArg some (List.map_congr_left fun f hf => ?_)
  rw [Function.comp_apply, hget, lookup_mem hkeys hf, Option.join_some]

private theorem mapM_map {α β : Type} {f : α → β} {g : β → Option α} (h : ∀ a, g (f a) = some a)
    (l : List α) : (l.map f).mapM g = some l := by
  induction l with
  | nil => rfl
  | cons a l ih => simp [List.mapM_cons, h, ih]

private theorem option_text (o : Option String) :
    Dialect.toml.option Value.string? ((o.map Value.str).map Value.canonical) = some o := by
  cases o <;> rfl

private theorem texts_canonical (l : List String) :
    Dialect.texts (Value.arr (l.map .str)).canonical = some l := by
  have hitems : Value.canonicalItems (l.map .str) = l.map .str := by
    induction l with
    | nil => rfl
    | cons s l ih => exact congrArg (Value.str s :: ·) ih
  rw [Value.canonical, hitems]
  exact mapM_map (f := Value.str) (g := Value.string?) (fun _ => rfl) l

private theorem nat64?_canonical {n : Nat} (h : n ≤ Limits.maxNat64) :
    (Value.nat n).canonical.nat64? = some n := by
  have hn : (0 : Int) ≤ n ∧ (n : Int) ≤ Limits.maxNat64 := by omega
  change (Value.intBetween? 0 Limits.maxNat64 (.num (.int n))).map Int.toNat = some n
  rw [Value.intBetween?, if_pos hn]
  rfl

private theorem kind_canonical (k : TransportKind) :
    Dialect.toml.kind (Value.str k.name).canonical = some k := by
  cases k <;> decide

private theorem canonicalFields_variables (env : List (String × String)) :
    Value.canonicalFields (env.map asField) [] = Fields.ofList (env.map asField) := by
  rw [Value.canonicalFields_eq_ofList, List.map_map]
  rfl

private theorem fieldsCanonical_variables (hsorted : (env.map Prod.fst).Pairwise (· < ·)) :
    Value.fieldsCanonical (env.map asField) = true := by
  induction env with
  | nil => rfl
  | cons e env ih =>
    obtain ⟨hlt, henv⟩ := List.pairwise_cons.mp hsorted
    refine Value.fieldsCanonical_cons.mpr ⟨fun f hf => ?_, rfl, ih henv⟩
    obtain ⟨g, hg, rfl⟩ := List.mem_map.mp hf
    exact hlt g.1 (List.mem_map_of_mem hg)

/-- The environment comes back by name, in whatever order it was written. -/
private theorem environment_canonical {order : List (String × String)} (hsorted :
    (env.map Prod.fst).Pairwise (· < ·)) (horder : order.Perm env) :
    Dialect.environment (Value.obj (order.map asField)).canonical = some env := by
  have hkeys := nodup_variables hsorted horder
  have hfixed := Value.canonical_eq (v := .obj (env.map asField)) (fieldsCanonical_variables hsorted)
  have hvalue : (Value.obj (order.map asField)).canonical = .obj (env.map asField) := by
    rw [Value.canonical, canonicalFields_variables] at hfixed ⊢
    rw [Fields.ofList_perm hkeys (horder.map asField), hfixed]
  rw [hvalue]
  exact mapM_map (f := asField) (g := fun f => f.2.string?.map (f.1, ·)) (fun _ => rfl) env

private theorem options_canonical (held : c.Held) : Dialect.toml.option some
    (c.client.initializationOptions.map Value.canonical) = some c.client.initializationOptions := by
  cases h : c.client.initializationOptions with
  | none => rfl
  | some v =>
    rw [Option.map_some, Value.canonical_eq (held.options v h)]
    cases v <;> rfl

private theorem transport_canonical (held : c.Held) (henv : env.Perm c.transport.env) :
    Dialect.toml.transport (Value.obj (c.withEnv env).transport.fields).canonical =
      some c.transport := by
  have hcolumns := columns_present
    [("kind", some (.str c.transport.kind.name)), ("command", c.transport.command.map Value.str),
     ("args", some (.arr (c.transport.args.map Value.str))), ("url", c.transport.url.map Value.str),
     ("keepalive_seconds", some (.nat c.transport.keepaliveSeconds)),
     ("env", some (.obj (env.map asField)))] (by simp)
  have hread : Dialect.toml.columns ["kind", "command", "args", "url", "keepalive_seconds", "env"]
      (Value.obj (c.withEnv env).transport.fields).canonical = _ := hcolumns
  rw [Dialect.transport, hread]
  simp only [List.map_cons, List.map_nil, Option.map_some, Dialect.setting, kind_canonical, option_text,
    texts_canonical, nat64?_canonical held.keepalive, environment_canonical held.env henv]
  rfl

private theorem rpc_canonical (held : c.Held) :
    Dialect.toml.rpc (Value.obj c.rpc.fields).canonical = some c.rpc := by
  have hread : Dialect.toml.columns ["request_timeout_ms"] (Value.obj c.rpc.fields).canonical = _ :=
    columns_present [("request_timeout_ms", some (.nat c.rpc.requestTimeoutMs))] (by simp)
  rw [Dialect.rpc, hread]
  simp only [List.map_cons, List.map_nil, Option.map_some, Dialect.setting,
    nat64?_canonical held.timeout]

private theorem client_canonical (held : c.Held) :
    Dialect.toml.client (Value.obj c.client.fields).canonical = some c.client := by
  have hread : Dialect.toml.columns ["name", "root", "initialization_options"]
      (Value.obj c.client.fields).canonical = _ :=
    columns_present [("name", some (.str c.client.name)), ("root", c.client.root.map Value.str),
      ("initialization_options", c.client.initializationOptions)] (by simp)
  have hname : (Value.str c.client.name).canonical.string? = some c.client.name := rfl
  rw [Dialect.client, hread]
  simp only [List.map_cons, List.map_nil, Option.map_some, Dialect.setting, hname, option_text,
    options_canonical held]
  rfl

private theorem session_canonical (held : c.Held) (henv : env.Perm c.transport.env) :
    Dialect.toml.session (Value.obj (c.withEnv env).fields).canonical = some c := by
  have hread : Dialect.toml.columns ["transport", "rpc", "client"]
      (Value.obj (c.withEnv env).fields).canonical = _ :=
    columns_present [("transport", some (.obj (c.withEnv env).transport.fields)),
      ("rpc", some (.obj c.rpc.fields)), ("client", some (.obj c.client.fields))] (by simp)
  rw [Dialect.session, hread]
  simp only [List.map_cons, List.map_nil, Option.map_some, Dialect.setting,
    transport_canonical held henv, rpc_canonical held, client_canonical held]
  rfl

theorem exists_text (h : anyFieldNull c.fields = false) : ∃ text, c.toToml = .ok text := by
  rw [SessionConfig.toToml, render?_eq h]
  exact ⟨_, rfl⟩

/-- What is read of the text of a configuration, with the environment written in any order. -/
theorem read_text (held : c.Held)
    (fit : ∀ v ∈ c.client.initializationOptions, numbersFit v = true) (henv : env.Perm c.transport.env)
    {text : String} (htext : (c.withEnv env).toToml = .ok text) :
    (Toml.read? text).bind Dialect.toml.session =
      if Fits (c.withEnv env).fields then some c else none := by
  have hrender : render? (c.withEnv env).fields = some text := by
    rw [SessionConfig.toToml] at htext
    split at htext
    · rename_i h
      cases htext
      exact h
    · cases htext
  have hnull := anyFieldNull_of_render? hrender
  rw [read?_render (expressible_fields held henv fit hnull) hrender]
  split
  · rw [Option.bind_some, session_canonical held henv]
  · rfl

/-- The text that is written of a usable configuration without fractional numbers, with its environment in
any order, is loaded as the configuration if on none of its lines more arrays and tables stand inside one
another than the reader allows, and none of its headers has more words. Otherwise it is not loaded. -/
theorem ofToml_toToml (held : c.Held) (valid : c.validate = .ok ())
    (whole : ∀ v ∈ c.client.initializationOptions, v.isWhole = true) (henv : env.Perm c.transport.env)
    {text : String} (htext : (c.withEnv env).toToml = .ok text) : ofToml text =
      if Fits (c.withEnv env).fields then .ok c
      else .error (.toml "the text is no configuration") := by
  rw [ofToml, read_text held (fun v hv => numbersFit_of_whole v (whole v hv)) henv htext]
  by_cases hfit : Fits (c.withEnv env).fields
  · rw [if_pos hfit, if_pos hfit]
    simp only [valid]
    rfl
  · rw [if_neg hfit, if_neg hfit]

def sampleOptions : Value :=
  .obj [("checks", .arr [.obj [("path", .obj [("roots", .arr [.arr [], .nat 1])])], .obj []]),
    ("greeting", .str "it's\n\"quoted\"")]

def sampleConfig : SessionConfig :=
  ⟨⟨.stdio, some "server", ["--log", "\\"], none, 30, [("A", "1"), ("B c", "")]⟩, ⟨10000⟩,
    ⟨"sample", none, some sampleOptions⟩⟩

theorem sample_comes_back : sampleConfig.Held ∧ sampleConfig.validate = .ok () ∧
    (∀ v ∈ sampleConfig.client.initializationOptions, v.isWhole = true) ∧
      ∃ text, (sampleConfig.withEnv [("B c", ""), ("A", "1")]).toToml = .ok text ∧
        ofToml text = .ok sampleConfig := by
  have held : sampleConfig.Held := by constructor <;> decide +kernel
  have valid : sampleConfig.validate = .ok () := by decide +kernel
  have whole : ∀ v ∈ sampleConfig.client.initializationOptions, v.isWhole = true := by decide +kernel
  obtain ⟨text, htext⟩ := exists_text (c := sampleConfig.withEnv [("B c", ""), ("A", "1")])
    (by decide +kernel)
  have hload := ofToml_toToml held valid whole (.swap ("A", "1") ("B c", "") []) htext
  rw [if_pos (by decide +kernel)] at hload
  exact ⟨held, valid, whole, text, htext, hload⟩

def withOptions (v : Value) : SessionConfig :=
  { SessionConfig.default with client := { ClientSettings.default with initializationOptions := some v } }

/-- Arrays inside one another. -/
def nestedArrays : Nat → Value
  | 0 => .nat 0
  | n + 1 => .arr [nestedArrays n]

/-- Tables inside one another. -/
def nestedTables : Nat → Value
  | 0 => .nat 1
  | n + 1 => .obj [("a", nestedTables n)]

/-- What is written of the configuration is not loaded. -/
def SessionConfig.IsLost (c : SessionConfig) : Prop :=
  ∃ text, c.toToml = .ok text ∧ ofToml text = .error (.toml "the text is no configuration")

/-- What does not fit is written, but not loaded. -/
theorem written_lost {c : SessionConfig} (held : c.Held)
    (fit : ∀ v ∈ c.client.initializationOptions, numbersFit v = true)
    (hnull : anyFieldNull c.fields = false) (hdeep : ¬ Fits c.fields) :
    c.IsLost := by
  obtain ⟨text, htext⟩ := exists_text hnull
  have hread : (Toml.read? text).bind Dialect.toml.session = none :=
    (read_text held fit (.refl c.transport.env) htext).trans (if_neg hdeep)
  exact ⟨text, htext, by rw [ofToml, hread]⟩

private theorem lost_of_whole {v : Value} (whole : v.isWhole = true) (held : (withOptions v).Held)
    (hnull : anyFieldNull (withOptions v).fields = false) (hdeep : ¬ Fits (withOptions v).fields) :
    (withOptions v).IsLost :=
  written_lost held (fun _ hw => Option.some.inj hw ▸ numbersFit_of_whole v whole) hnull hdeep

/-- One array more than the reader allows inside another on one line, and one word more in a header: such
configurations are written, but not loaded. -/
theorem deep_options_lost :
    ((withOptions (nestedArrays 81)).Held ∧ (withOptions (nestedArrays 81)).validate = .ok () ∧
      (nestedArrays 81).isWhole = true ∧ (withOptions (nestedArrays 81)).IsLost) ∧
    ((withOptions (nestedTables 80)).Held ∧ (withOptions (nestedTables 80)).validate = .ok () ∧
      (nestedTables 80).isWhole = true ∧ (withOptions (nestedTables 80)).IsLost) := by
  have arrays : (withOptions (nestedArrays 81)).Held := by constructor <;> decide +kernel
  have tables : (withOptions (nestedTables 80)).Held := by constructor <;> decide +kernel
  refine ⟨⟨arrays, by decide +kernel, by decide +kernel, ?_⟩, ⟨tables, by decide +kernel, by decide +kernel, ?_⟩⟩
  · exact lost_of_whole (by decide +kernel) arrays (by decide +kernel) (by decide +kernel)
  · exact lost_of_whole (by decide +kernel) tables (by decide +kernel) (by decide +kernel)

end LanguageClient.Config
