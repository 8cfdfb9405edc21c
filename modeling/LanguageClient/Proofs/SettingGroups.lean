import LanguageClient.Config.Load
import LanguageClient.Proofs.CanonicalForm
/-!
Groups of settings. A group is an object or a list, and its settings are read column by column; a group is
read if each of its columns is, and a text is loaded if it describes a configuration that can be used.
-/
namespace LanguageClient.Config
open Json

theorem mem_keys_iff {fs : Fields} {key : String} :
    key ∈ fs.map Prod.fst ↔ (fs.get? key).isSome = true := by
  rw [← not_iff_not, Bool.not_eq_true, Option.isSome_eq_false_iff, Option.isNone_iff_eq_none, Fields.get?,
    List.lookup_eq_none_iff]
  constructor
  · exact fun h f hf => bne_iff_ne.mpr fun heq => h (List.mem_map.mpr ⟨f, hf, heq.symm⟩)
  · rintro h hmem
    obtain ⟨f, hf, rfl⟩ := List.mem_map.mp hmem
    exact bne_iff_ne.mp (h f hf) rfl

theorem columns_obj {names : List String} {fs : Fields}
    (h : ∀ key, (fs.get? key).isSome = true → key ∈ names) :
    Dialect.toml.columns names (.obj fs) = some (names.map (Fields.get? fs)) := by
  refine if_pos (List.all_eq_true.mpr fun f hf => List.contains_iff_mem.mpr (h f.1 ?_))
  exact mem_keys_iff.mp (List.mem_map_of_mem hf)

theorem columns_obj_inv {names : List String} {fs : Fields} {columns : List (Option Value)}
    (h : Dialect.toml.columns names (.obj fs) = some columns) :
    columns = names.map (Fields.get? fs) ∧ ∀ key, (fs.get? key).isSome = true → key ∈ names := by
  rw [Dialect.columns] at h
  split at h
  · rename_i hall
    refine ⟨(Option.some.inj h).symm, fun key hkey => ?_⟩
    obtain ⟨f, hf, rfl⟩ := List.mem_map.mp (mem_keys_iff.mpr hkey)
    exact List.contains_iff_mem.mp (List.all_eq_true.mp hall f hf)
  · cases h

theorem columns_arr (names : List String) (items : List Value) :
    Dialect.toml.columns names (.arr items) = some (names.mapIdx fun i _ => items[i]?) := by
  refine if_pos ?_
  rw [Bool.or_eq_true]
  exact .inr rfl

theorem transport_iff {group : Value} {k command args url keepalive env : Option Value}
    (h : Dialect.toml.columns ["kind", "command", "args", "url", "keepalive_seconds", "env"] group =
      some [k, command, args, url, keepalive, env]) (t : TransportSettings) :
    Dialect.toml.transport group = some t ↔
      Dialect.setting .stdio Dialect.toml.kind k = some t.kind ∧
        Dialect.toml.option Value.string? command = some t.command ∧
        Dialect.setting [] Dialect.texts args = some t.args ∧
        Dialect.toml.option Value.string? url = some t.url ∧
        Dialect.setting defaultKeepaliveSeconds Value.nat64? keepalive = some t.keepaliveSeconds ∧
        Dialect.setting [] Dialect.environment env = some t.env := by
  rw [Dialect.transport, h]
  simp only [Option.bind_eq_bind, Option.bind_eq_some_iff, Option.pure_def, Option.some.injEq]
  constructor
  · rintro ⟨_, hk, _, hcommand, _, hargs, _, hurl, _, hkeepalive, _, henv, rfl⟩
    exact ⟨hk, hcommand, hargs, hurl, hkeepalive, henv⟩
  · rintro ⟨hk, hcommand, hargs, hurl, hkeepalive, henv⟩
    exact ⟨_, hk, _, hcommand, _, hargs, _, hurl, _, hkeepalive, _, henv, rfl⟩

theorem transport_columns {group : Value} {t : TransportSettings}
    (h : Dialect.toml.transport group = some t) : ∃ k command args url keepalive env,
      Dialect.toml.columns ["kind", "command", "args", "url", "keepalive_seconds", "env"] group =
        some [k, command, args, url, keepalive, env] := by
  rw [Dialect.transport] at h
  split at h
  · rename_i heq
    exact ⟨_, _, _, _, _, _, heq⟩
  · cases h

theorem rpc_iff {group : Value} {timeout : Option Value}
    (h : Dialect.toml.columns ["request_timeout_ms"] group = some [timeout]) (r : RpcSettings) :
    Dialect.toml.rpc group = some r ↔
      Dialect.setting defaultRequestTimeoutMs Value.nat64? timeout = some r.requestTimeoutMs := by
  rw [Dialect.rpc, h]
  simp only [Option.map_eq_some_iff]
  constructor
  · rintro ⟨_, htimeout, rfl⟩
    exact htimeout
  · exact fun htimeout => ⟨_, htimeout, rfl⟩

theorem rpc_columns {group : Value} {r : RpcSettings} (h : Dialect.toml.rpc group = some r) :
    ∃ timeout, Dialect.toml.columns ["request_timeout_ms"] group = some [timeout] := by
  rw [Dialect.rpc] at h
  split at h
  · rename_i heq
    exact ⟨_, heq⟩
  · cases h

theorem client_iff {group : Value} {name root options : Option Value}
    (h : Dialect.toml.columns ["name", "root", "initialization_options"] group =
      some [name, root, options]) (c : ClientSettings) :
    Dialect.toml.client group = some c ↔
      Dialect.setting defaultClientName Value.string? name = some c.name ∧
        Dialect.toml.option Value.string? root = some c.root ∧
        Dialect.toml.option some options = some c.initializationOptions := by
  rw [Dialect.client, h]
  simp only [Option.bind_eq_bind, Option.bind_eq_some_iff, Option.pure_def, Option.some.injEq]
  constructor
  · rintro ⟨_, hname, _, hroot, _, hoptions, rfl⟩
    exact ⟨hname, hroot, hoptions⟩
  · rintro ⟨hname, hroot, hoptions⟩
    exact ⟨_, hname, _, hroot, _, hoptions, rfl⟩

theorem client_columns {group : Value} {c : ClientSettings}
    (h : Dialect.toml.client group = some c) : ∃ name root options,
      Dialect.toml.columns ["name", "root", "initialization_options"] group =
        some [name, root, options] := by
  rw [Dialect.client] at h
  split at h
  · rename_i heq
    exact ⟨_, _, _, heq⟩
  · cases h

/-- The groups of a configuration are read one by one, and there is nothing else in it. -/
theorem session_iff (fs : Fields) (c : SessionConfig) :
    Dialect.toml.session (.obj fs) = some c ↔
      (∀ key, (fs.get? key).isSome = true → key ∈ ["transport", "rpc", "client"]) ∧
        Dialect.setting .default Dialect.toml.transport (fs.get? "transport") = some c.transport ∧
        Dialect.setting .default Dialect.toml.rpc (fs.get? "rpc") = some c.rpc ∧
        Dialect.setting .default Dialect.toml.client (fs.get? "client") = some c.client := by
  constructor
  · intro h
    rw [Dialect.session] at h
    split at h
    · rename_i t r cl hcolumns
      obtain ⟨hmap, hknown⟩ := columns_obj_inv hcolumns
      simp only [List.map_cons, List.map_nil, List.cons.injEq, and_true] at hmap
      obtain ⟨rfl, rfl, rfl⟩ := hmap
      simp only [Option.bind_eq_bind, Option.bind_eq_some_iff, Option.pure_def, Option.some.injEq] at h
      obtain ⟨_, ht, _, hr, _, hc, rfl⟩ := h
      exact ⟨hknown, ht, hr, hc⟩
    · cases h
  · rintro ⟨hknown, ht, hr, hc⟩
    rw [Dialect.session, columns_obj hknown]
    simp only [List.map_cons, List.map_nil, ht, hr, hc]
    rfl

theorem ofToml_eq_ok {text : String} {c : SessionConfig} :
    ofToml text = .ok c ↔
      (Toml.read? text).bind Dialect.toml.session = some c ∧ c.validate = .ok () := by
  rw [ofToml]
  constructor
  · intro h
    split at h
    · cases h
    · rename_i config hread
      cases hvalid : config.validate with
      | error e =>
        rw [hvalid] at h
        cases h
      | ok _ =>
        rw [hvalid] at h
        cases h
        exact ⟨hread, hvalid⟩
  · rintro ⟨hread, hvalid⟩
    rw [hread]
    simp only [hvalid]
    rfl

end LanguageClient.Config
