import LanguageClient.Proofs.Negotiation
import LanguageClient.Proofs.CanonicalForm
import LanguageClient.Schema.ServerCapabilities
/-!
The capability record has two readers. The client reads of it, field by field, how changes are sent and
whether a save carries the text; the schema reads it as a whole, into a typed record. Where the typed
record exists, the client has found in the raw one what the typed one says, unless the server has written
options as a list.
-/
namespace LanguageClient

namespace Schema
open Json

/-- What an optional member reads: nothing where it is absent or null. -/
def ifGiven {α : Type} (read : Value → Option α) : Option Value → Option (Option α)
  | none | some .null => some none
  | some v => (read v).map some

@[simp] theorem Member.opt_name (name : String) (shape : Shape) : (opt name shape).name = name := rfl

theorem Member.opt_read {α : Type} {shape : Shape} {read : Value → Option α} {write : α → Value}
    {v : Option Value} (h : ∀ w, v = some w → shape w = (read w).map write) (name : String) :
    (opt name shape).read v = (ifGiven read v).map (·.map fun a => (name, write a)) := by
  cases v with
  | none => rfl
  | some w =>
    cases w with
    | null => rfl
    | _ =>
      simp only [Member.read, opt, ifGiven, h _ rfl, Option.map_map]
      rfl

namespace Shape
variable {ms : List Member} {fs : Fields} {parts : List (Option (String × Value))}

theorem oneOf_pair (first second : Shape) (v : Value) :
    oneOf [first, second] v = (first v).or (second v) := by
  simp only [oneOf, List.findSome?]
  cases first v with
  | some w => rfl
  | none => cases second v <;> rfl

theorem read_key {m : Member} {v : Option Value} {f : String × Value}
    (h : m.read v = some (some f)) : f.1 = m.name := by
  unfold Member.read at h
  split at h <;> first
    | cases h; done
    | (obtain ⟨w, -, hw⟩ := Option.map_eq_some_iff.mp h; cases hw; rfl)
    | (cases h; rfl)

/-- What is written has the names of the members, each with what the member reads. -/
theorem members_eq_some (h : members ms fs = some parts) :
    ∃ l : List (String × Option Value), l.map Prod.fst = ms.map Member.name ∧
      parts.filterMap id = Fields.present l ∧
      ∀ m ∈ ms, ∃ part, m.read (fs.get? m.name) = some part ∧
        (m.name, part.map Prod.snd) ∈ l := by
  induction ms generalizing parts with
  | nil =>
    cases h
    exact ⟨[], rfl, rfl, nofun⟩
  | cons m ms ih =>
    rw [members, List.mapM_cons] at h
    obtain ⟨part, hpart, h⟩ := Option.bind_eq_some_iff.mp h
    obtain ⟨rest, hrest, h⟩ := Option.bind_eq_some_iff.mp h
    obtain ⟨l, hnames, hl, hms⟩ := ih hrest
    cases h
    refine ⟨(m.name, part.map Prod.snd) :: l, congrArg (m.name :: ·) hnames, ?_, fun d hd => ?_⟩
    · cases part with
      | none => exact hl
      | some f =>
        have hf : f = (m.name, f.2) := Prod.ext (read_key hpart) rfl
        rw [Option.map_some, Fields.present_some, ← hf, ← hl]
        rfl
    · obtain rfl | hd := List.mem_cons.mp hd
      · exact ⟨part, hpart, List.mem_cons_self⟩
      · obtain ⟨p, hp, hmem⟩ := hms d hd
        exact ⟨p, hp, List.mem_cons_of_mem _ hmem⟩

theorem lookup_of_mem {α : Type} {l : List (String × α)} (h : (l.map Prod.fst).Nodup) {key : String}
    {a : α} (hmem : (key, a) ∈ l) : l.lookup key = some a := by
  induction l with
  | nil => cases hmem
  | cons f l ih =>
    obtain ⟨hf, hl⟩ := List.nodup_cons.mp h
    obtain rfl | hmem := List.mem_cons.mp hmem
    · exact List.lookup_cons_self
    · have hne : key ≠ f.1 := by
        rintro rfl
        exact hf (List.mem_map.mpr ⟨_, hmem, rfl⟩)
      rw [List.lookup_cons, beq_false_of_ne hne]
      exact ih hl hmem

/-- In the canonical form of a typed object, every member is found as its shape has written it. -/
theorem sorted_record_get? {typed : Value} (hnames : (ms.map Member.name).Nodup)
    (h : sorted (record ms) (.obj fs) = some typed) {m : Member} (hm : m ∈ ms) :
    ∃ part, m.read (fs.get? m.name) = some part ∧
      typed.get? m.name = part.map fun f => f.2.canonical := by
  obtain ⟨w, hw, rfl⟩ := Option.map_eq_some_iff.mp h
  obtain ⟨parts, hparts, rfl⟩ := Option.map_eq_some_iff.mp hw
  obtain ⟨l, hl, hpresent, hms⟩ := members_eq_some hparts
  obtain ⟨part, hread, hmem⟩ := hms m hm
  have hnodup : (l.map Prod.fst).Nodup := hl ▸ hnames
  refine ⟨part, hread, ?_⟩
  change Fields.get? (Value.canonicalFields (parts.filterMap id) []) m.name = _
  rw [hpresent, Value.get?_canonicalFields (Fields.nodup_present hnodup), Fields.get?_present hnodup,
    lookup_of_mem hnodup hmem]
  cases part <;> rfl

end Shape
end Schema

namespace Session
open Json Schema

/-- Whether a server hears of saved documents, as a flag or as options. -/
inductive SaveCapability where
  | supported (b : Bool)
  | options (includeText : Option Bool)

@[ext]
structure SyncOptions where
  openClose : Option Bool
  change : Option Int
  willSave : Option Bool
  willSaveWaitUntil : Option Bool
  save : Option SaveCapability

/-- How documents are kept in step, as a bare kind or as options. -/
inductive SyncCapability where
  | kind (n : Int)
  | options (options : SyncOptions)

def SaveCapability.write : SaveCapability → Value
  | supported b => .bool b
  | options includeText => .obj (Fields.present [("includeText", includeText.map .bool)])

def SyncOptions.entries (o : SyncOptions) : List (String × Option Value) :=
  [("openClose", o.openClose.map .bool), ("change", o.change.map .int),
    ("willSave", o.willSave.map .bool), ("willSaveWaitUntil", o.willSaveWaitUntil.map .bool),
    ("save", o.save.map SaveCapability.write)]

def SyncCapability.write : SyncCapability → Value
  | kind n => .int n
  | options o => .obj (Fields.present o.entries)

def SyncCapability.toValue (c : SyncCapability) : Value := c.write.canonical

/-- What a typed record says of documents, if it says anything. -/
def TypedSync (typed : Value) (sync : Option SyncCapability) : Prop :=
  typed.get? "textDocumentSync" = sync.map SyncCapability.toValue

/-- The kind of changes: a bare kind, or the one among the options. -/
def SyncCapability.kind? : SyncCapability → Option SyncKind
  | kind n => SyncKind.ofWire? n
  | options o => o.change.bind SyncKind.ofWire?

/-- The options ask for the text of a saved document. -/
def SyncCapability.WantsText (c : SyncCapability) : Prop :=
  ∃ o, c = .options o ∧ o.save = some (.options (some true))

def int32? : Value → Option Int := Value.intBetween? Limits.minInt32 Limits.maxInt32

def SaveCapability.ofValue? : Value → Option SaveCapability
  | .bool b => some (supported b)
  | .obj fs => (ifGiven Value.bool? (Fields.get? fs "includeText")).map options
  | _ => none

def SyncOptions.ofFields? (fs : Fields) : Option SyncOptions :=
  (ifGiven Value.bool? (fs.get? "openClose")).bind fun openClose =>
  (ifGiven int32? (fs.get? "change")).bind fun change =>
  (ifGiven Value.bool? (fs.get? "willSave")).bind fun willSave =>
  (ifGiven Value.bool? (fs.get? "willSaveWaitUntil")).bind fun willSaveWaitUntil =>
  (ifGiven SaveCapability.ofValue? (fs.get? "save")).map fun save =>
    { openClose, change, willSave, willSaveWaitUntil, save }

def SyncCapability.ofValue? : Value → Option SyncCapability
  | .num n => (int32? (.num n)).map kind
  | .obj fs => (SyncOptions.ofFields? fs).map options
  | _ => none

theorem boolean_eq (v : Value) : Shape.boolean v = v.bool?.map Value.bool := by
  cases v <;> rfl

theorem saveShape_eq {v : Value} (h : ∀ vs, v ≠ .arr vs) :
    Shape.oneOf [Shape.boolean, saveOptions] v =
      (SaveCapability.ofValue? v).map SaveCapability.write := by
  rw [Shape.oneOf_pair]
  cases v with
  | obj fs =>
    have hread := Member.opt_read (v := Fields.get? fs "includeText") (fun w _ => boolean_eq w) "includeText"
    simp only [Shape.boolean, Option.none_or, saveOptions, Shape.record, Shape.object,
      Shape.members, List.mapM_cons, List.mapM_nil, Member.opt_name, SaveCapability.ofValue?, hread]
    cases ifGiven Value.bool? (Fields.get? fs "includeText") with
    | none => rfl
    | some b => cases b <;> rfl
  | arr vs => exact absurd rfl (h vs)
  | _ => rfl

/-- No list has been written for how documents are saved. -/
def NoSaveList (fs : Fields) : Prop := ∀ vs, fs.get? "save" ≠ some (.arr vs)

theorem syncOptions_eq {fs : Fields} (h : NoSaveList fs) :
    syncOptions (.obj fs) = (SyncOptions.ofFields? fs).map fun o => .obj (Fields.present o.entries) := by
  have hflag (name : String) := Member.opt_read (v := fs.get? name) (fun w _ => boolean_eq w) name
  have hchange : (Member.opt "change" Shape.int32).read (fs.get? "change") =
      (ifGiven int32? (fs.get? "change")).map (·.map fun n => ("change", Value.int n)) :=
    Member.opt_read (fun w _ => rfl) "change"
  have hsave := Member.opt_read (v := fs.get? "save")
    (fun w hw => saveShape_eq fun vs hvs => h vs (hw.trans (congrArg some hvs))) "save"
  simp only [syncOptions, Shape.record, Shape.object, Shape.members, List.mapM_cons, List.mapM_nil,
    Member.opt_name, hflag, hchange, hsave, SyncOptions.ofFields?]
  -- both readers take the members one by one, in the same order, and give up at the same one
  cases ifGiven Value.bool? (fs.get? "openClose") with
  | none => rfl
  | some openClose =>
  cases ifGiven int32? (fs.get? "change") with
  | none => rfl
  | some change =>
  cases ifGiven Value.bool? (fs.get? "willSave") with
  | none => rfl
  | some willSave =>
  cases ifGiven Value.bool? (fs.get? "willSaveWaitUntil") with
  | none => rfl
  | some willSaveWaitUntil =>
  cases ifGiven SaveCapability.ofValue? (fs.get? "save") with
  | none => rfl
  | some save =>
    cases openClose <;> cases change <;> cases willSave <;> cases willSaveWaitUntil <;>
      cases save <;> rfl

theorem textDocumentSync_eq {v : Value} (hlist : ∀ vs, v ≠ .arr vs)
    (hsave : ∀ fs, v = .obj fs → NoSaveList fs) :
    textDocumentSync v = (SyncCapability.ofValue? v).map SyncCapability.write := by
  rw [textDocumentSync, Shape.oneOf_pair]
  cases v with
  | arr vs => exact absurd rfl (hlist vs)
  | num n =>
    rw [SyncCapability.ofValue?, Option.map_map]
    exact Option.or_none
  | obj fs =>
    rw [SyncCapability.ofValue?, Option.map_map]
    exact syncOptions_eq (hsave fs rfl)
  | _ => rfl

theorem SyncOptions.nodup_entries (o : SyncOptions) : (o.entries.map Prod.fst).Nodup := by
  change ["openClose", "change", "willSave", "willSaveWaitUntil", "save"].Nodup
  decide

theorem SaveCapability.canonical_write_injective :
    (fun c => (write c).canonical).Injective := by
  intro a b h
  cases a with
  | supported a =>
    cases b with
    | supported b => cases h; rfl
    | options b => cases h
  | options a =>
    cases b with
    | supported b => cases h
    | options b => rcases a with _ | a <;> rcases b with _ | b <;> cases h <;> rfl

theorem SyncOptions.entries_injective {a b : SyncOptions}
    (h : Value.canonical (.obj (Fields.present a.entries)) = Value.canonical (.obj (Fields.present b.entries))) :
    a = b := by
  have hfield (name : String) : (a.entries.lookup name).join.map Value.canonical =
      (b.entries.lookup name).join.map Value.canonical := by
    have h := congrArg (Fields.get? · name) (Value.obj.inj h)
    simpa only [Value.get?_canonicalFields (Fields.nodup_present (nodup_entries _)),
      Fields.get?_present (nodup_entries _)] using h
  have hbool : (fun b => (Value.bool b).canonical).Injective := fun _ _ h => Value.bool.inj h
  have hint : (fun n => (Value.int n).canonical).Injective := fun _ _ h =>
    Number.int.inj (Value.num.inj h)
  have hmap {α : Type} {write : α → Value} (hinj : (fun a => (write a).canonical).Injective)
      {x y : Option α} (h : (x.map write).map Value.canonical = (y.map write).map Value.canonical) :
      x = y := by
    rw [Option.map_map, Option.map_map] at h
    exact Option.map_injective hinj h
  ext1
  · exact hmap hbool (hfield "openClose")
  · exact hmap hint (hfield "change")
  · exact hmap hbool (hfield "willSave")
  · exact hmap hbool (hfield "willSaveWaitUntil")
  · exact hmap SaveCapability.canonical_write_injective (hfield "save")

theorem SyncCapability.toValue_injective : toValue.Injective := by
  intro a b h
  cases a with
  | kind a =>
    cases b with
    | kind b => cases h; rfl
    | options b => cases h
  | options a =>
    cases b with
    | kind b => cases h
    | options b => exact congrArg options (SyncOptions.entries_injective h)

theorem int32?_eq_some {v : Value} {n : Int} (h : int32? v = some n) : v = .int n := by
  unfold int32? Value.intBetween? at h
  split at h
  · split at h
    · cases h
      rfl
    · cases h
  · cases h

theorem bool?_eq_some {v : Value} {b : Bool} (h : v.bool? = some b) : v = .bool b := by
  cases v <;> cases h
  rfl

theorem ifGiven_eq_some {α : Type} {read : Value → Option α} {o : Option Value} {a : Option α}
    (h : ifGiven read o = some a) :
    (o = none ∨ o = some .null) ∧ a = none ∨ ∃ w b, o = some w ∧ read w = some b ∧ a = some b := by
  unfold ifGiven at h
  split at h
  · cases h
    exact .inl ⟨.inl rfl, rfl⟩
  · cases h
    exact .inl ⟨.inr rfl, rfl⟩
  · obtain ⟨b, hb, rfl⟩ := Option.map_eq_some_iff.mp h
    exact .inr ⟨_, b, rfl, hb, rfl⟩

theorem SyncOptions.of_fields {fs : Fields} {o : SyncOptions} (h : ofFields? fs = some o) :
    ifGiven int32? (fs.get? "change") = some o.change ∧
    ifGiven SaveCapability.ofValue? (fs.get? "save") = some o.save := by
  obtain ⟨_, -, h⟩ := Option.bind_eq_some_iff.mp h
  obtain ⟨change, hchange, h⟩ := Option.bind_eq_some_iff.mp h
  obtain ⟨_, -, h⟩ := Option.bind_eq_some_iff.mp h
  obtain ⟨_, -, h⟩ := Option.bind_eq_some_iff.mp h
  obtain ⟨save, hsave, rfl⟩ := Option.map_eq_some_iff.mp h
  exact ⟨hchange, hsave⟩

theorem int_eq_wire {n : Int} {kind : SyncKind} :
    Value.int n = .int kind.toWire ↔ SyncKind.ofWire? n = some kind := by
  rw [SyncKind.ofWire?_eq_some]
  simp [Value.int]

variable {v : Value} {c : SyncCapability}

/-- What is decoded says a kind exactly where the value itself does. -/
theorem says_iff_kind? (h : SyncCapability.ofValue? v = some c) (kind : SyncKind) :
    Says (some v) kind ↔ c.kind? = some kind := by
  cases v with
  | num n =>
    obtain ⟨k, hk, rfl⟩ := Option.map_eq_some_iff.mp h
    rw [int32?_eq_some hk, SyncCapability.kind?, ← int_eq_wire, Says]
    simp [Value.int]
  | obj fs =>
    obtain ⟨o, ho, rfl⟩ := Option.map_eq_some_iff.mp h
    have hstated : Says (some (.obj fs)) kind ↔ Fields.get? fs "change" = some (.int kind.toWire) := by
      simp [Says, Value.int]
    rw [hstated, SyncCapability.kind?]
    obtain ⟨hnone | hnull, ho⟩ | ⟨w, n, hw, hn, ho⟩ := ifGiven_eq_some (SyncOptions.of_fields ho).1
    · rw [hnone, ho]
      simp
    · rw [hnull, ho]
      simp [Value.int]
    · rw [hw, ho, int32?_eq_some hn, Option.bind_some, ← int_eq_wire, Option.some.injEq]
  | _ => cases h

theorem includeText_iff {w : Value} {save : SaveCapability} (h : SaveCapability.ofValue? w = some save) :
    (w.get? "includeText").bind Value.bool? = some true ↔ save = .options (some true) := by
  cases w with
  | bool b =>
    cases h
    simp [Value.get?, Value.fields?]
  | obj fs =>
    obtain ⟨includeText, ht, rfl⟩ := Option.map_eq_some_iff.mp h
    rw [SaveCapability.options.injEq]
    change (Fields.get? fs "includeText").bind Value.bool? = some true ↔ _
    obtain ⟨hnone | hnull, ht⟩ | ⟨w, b, hw, hb, ht⟩ := ifGiven_eq_some ht
    · rw [hnone, ht]
      simp
    · rw [hnull, ht]
      simp [Value.bool?]
    · rw [hw, ht, bool?_eq_some hb]
      rfl
  | _ => cases h

/-- The text that a value asks for is what its decoded options ask for. -/
theorem save_iff_wantsText (h : SyncCapability.ofValue? v = some c) :
    ((v.get? "save").bind (Value.get? · "includeText")).bind Value.bool? = some true ↔
      c.WantsText := by
  cases v with
  | num n =>
    obtain ⟨k, hk, rfl⟩ := Option.map_eq_some_iff.mp h
    simp [Value.get?, Value.fields?, SyncCapability.WantsText]
  | obj fs =>
    obtain ⟨o, ho, rfl⟩ := Option.map_eq_some_iff.mp h
    have hwants : (SyncCapability.options o).WantsText ↔ o.save = some (.options (some true)) := by
      simp [SyncCapability.WantsText]
    change (((Fields.get? fs "save").bind _).bind _ = _) ↔ _
    rw [hwants]
    obtain ⟨hnone | hnull, ho⟩ | ⟨w, n, hw, hn, ho⟩ := ifGiven_eq_some (SyncOptions.of_fields ho).2
    · rw [hnone, ho]
      simp
    · rw [hnull, ho]
      simp [Value.get?, Value.fields?]
    · rw [hw, ho, Option.some.injEq]
      exact includeText_iff hn
  | _ => cases h

/-- The kind that the client finds in the raw record. -/
theorem syncKind_of_decoded {caps : Capabilities} {sync : Option SyncCapability}
    (h : ifGiven SyncCapability.ofValue? (caps.get? "textDocumentSync") = some sync) :
    caps.syncKind.1 = (sync.bind SyncCapability.kind?).getD .full := by
  have hstated (kind : SyncKind) : Says (caps.get? "textDocumentSync") kind ↔
      sync.bind SyncCapability.kind? = some kind := by
    obtain ⟨hnone | hnull, hsync⟩ | ⟨v, c, hv, hc, hsync⟩ := ifGiven_eq_some h
    · rw [hnone, hsync]
      simp [Says]
    · rw [hnull, hsync]
      simp [Says, Value.int]
    · rw [hv, hsync]
      exact says_iff_kind? hc kind
  cases hkind : sync.bind SyncCapability.kind? with
  | some kind => exact syncKind_of_says ((hstated kind).mpr hkind)
  | none =>
    refine syncKind_of_unsaid fun kind hsaid => ?_
    rw [hstated, hkind] at hsaid
    cases hsaid

/-- The text that the client attaches to a save. -/
theorem saveIncludesText_of_decoded {caps : Capabilities} {sync : Option SyncCapability}
    (h : ifGiven SyncCapability.ofValue? (caps.get? "textDocumentSync") = some sync) :
    caps.saveIncludesText = true ↔ ∃ c, sync = some c ∧ c.WantsText := by
  have hraw : caps.saveIncludesText = true ↔
      (((caps.get? "textDocumentSync").bind (Value.get? · "save")).bind
        (Value.get? · "includeText")).bind Value.bool? = some true := by
    rw [Capabilities.saveIncludesText]
    generalize Option.bind _ Value.bool? = b
    cases b <;> simp
  rw [hraw]
  obtain ⟨hnone | hnull, hsync⟩ | ⟨v, c, hv, hc, hsync⟩ := ifGiven_eq_some h
  · rw [hnone, hsync]
    simp
  · rw [hnull, hsync]
    simp [Value.get?, Value.fields?]
  · rw [hv, hsync]
    simpa using save_iff_wantsText hc

/-- Where the capabilities fit the schema, the typed record holds what is decoded from the raw one. -/
theorem typedSync_of_decoded {caps : Capabilities} {typed : Value}
    (htyped : serverCapabilities (.obj caps) = some typed)
    (hlist : ∀ vs, caps.get? "textDocumentSync" ≠ some (.arr vs))
    (hsave : ∀ fs, caps.get? "textDocumentSync" = some (.obj fs) → NoSaveList fs) :
    ∃ sync, TypedSync typed sync ∧
      ifGiven SyncCapability.ofValue? (caps.get? "textDocumentSync") = some sync := by
  obtain ⟨part, hpart, hget⟩ := Shape.sorted_record_get? (by decide) htyped
    (m := Member.opt "textDocumentSync" textDocumentSync) (.tail _ (.head _))
  have hshape (w : Value) (hw : caps.get? "textDocumentSync" = some w) :
      textDocumentSync w = (SyncCapability.ofValue? w).map SyncCapability.write :=
    textDocumentSync_eq (fun vs hvs => hlist vs (hw.trans (congrArg some hvs)))
      fun fs hfs => hsave fs (hw.trans (congrArg some hfs))
  rw [Member.opt_name, Member.opt_read hshape] at hpart
  obtain ⟨sync, hsync, rfl⟩ := Option.map_eq_some_iff.mp hpart
  refine ⟨sync, hget.trans ?_, hsync⟩
  rw [Option.map_map]
  rfl

/-- The two readings of a result agree. Where its capabilities fit the schema, and where neither
`textDocumentSync` nor the saving of documents in it has been written as a list, the typed record says
what the server wants of documents in one way. The kind of changes is then the bare kind or the one among
the options, and full where there is none or none that is known; a save carries the text exactly if the
options of saving ask for it. -/
theorem typed_readings_agree {result typed : Value}
    (htyped : serverCapabilities (.obj (Capabilities.ofResult result)) = some typed)
    (hlist : ∀ vs, Fields.get? (Capabilities.ofResult result) "textDocumentSync" ≠ some (.arr vs))
    (hsave : ∀ fs, Fields.get? (Capabilities.ofResult result) "textDocumentSync" = some (.obj fs) →
      NoSaveList fs) :
    (∃ sync, TypedSync typed sync) ∧
    ∀ sync, TypedSync typed sync →
      (Capabilities.ofResult result).syncKind.1 = (sync.bind SyncCapability.kind?).getD .full ∧
      ((Capabilities.ofResult result).saveIncludesText = true ↔ ∃ c, sync = some c ∧ c.WantsText) := by
  obtain ⟨sync, hsync, hdecoded⟩ := typedSync_of_decoded htyped hlist hsave
  refine ⟨⟨sync, hsync⟩, fun other hother => ?_⟩
  -- what the typed record says has one reading only, so that it is the one that was decoded
  obtain rfl : other = sync :=
    Option.map_injective SyncCapability.toValue_injective (hother.symm.trans hsync)
  exact ⟨syncKind_of_decoded hdecoded, saveIncludesText_of_decoded hdecoded⟩

/-- A server that wants edits, and the text of every saved document. -/
def eager : Value :=
  .obj [("capabilities", .obj [("textDocumentSync",
    .obj [("change", .int 2), ("save", .obj [("includeText", .bool true)])])])]

theorem typed_readings_agree_eager :
    serverCapabilities (.obj (Capabilities.ofResult eager)) = some (.obj (Capabilities.ofResult eager)) ∧
      (Capabilities.ofResult eager).syncKind.1 = .incremental ∧
      (Capabilities.ofResult eager).saveIncludesText = true := by
  have htyped : serverCapabilities (.obj (Capabilities.ofResult eager)) =
      some (.obj (Capabilities.ofResult eager)) := by decide
  obtain ⟨-, hagree⟩ := typed_readings_agree htyped (fun vs h => by cases h) fun fs h vs hvs => by
    cases h
    cases hvs
  obtain ⟨hkind, htext⟩ := hagree
    (some (.options ⟨none, some 2, none, none, some (.options (some true))⟩)) rfl
  exact ⟨htyped, hkind, htext.mpr ⟨_, rfl, _, rfl, rfl⟩⟩

/-- Options written as a list fit the schema, and the client does not see them. -/
example :
    let caps : Capabilities := [("textDocumentSync", .arr [.null, .int 2, .null, .null, .null])]
    ((serverCapabilities (.obj caps)).bind (·.get? "textDocumentSync")).bind (·.get? "change") =
        some (.int 2) ∧ caps.syncKind.1 = .full := by decide

end Session
end LanguageClient
