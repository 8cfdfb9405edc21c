import LanguageClient.Rpc.Message
/-!
The grammar of messages. It says which JSON values are messages, of what kind, and what each part of
such a message is; `Message.ofValue` accepts exactly these values and decodes them in exactly this way.
What else stands in an object makes no difference.
-/
namespace LanguageClient.Json

/-- Null counts as nothing. -/
def Value.nonNull? (v : Value) : Option Value := if v = .null then none else some v

def Fields.nonNull? (fs : Fields) (key : String) : Option Value := (fs.get? key).bind Value.nonNull?

end LanguageClient.Json

namespace LanguageClient.Rpc
open Json

structure IsInt64 (v : Value) (n : Int) : Prop where
  number : v = .int n
  lower : -9223372036854775808 ≤ n
  upper : n ≤ 9223372036854775807

inductive IdForm : Value → RequestId → Prop where
  | number {v : Value} {n : Int} (h : IsInt64 v n) : IdForm v (.number n)
  | text (s : String) : IdForm (.str s) (.text s)

/-- An id or null, as in a response. -/
inductive NullableIdForm : Value → Option RequestId → Prop where
  | null : NullableIdForm .null none
  | id {v : Value} {id : RequestId} (h : IdForm v id) : NullableIdForm v (some id)

/-- A message without a version is of version 2.0; a null is not a version. -/
inductive VersionForm (fs : Fields) : String → Prop where
  | absent (h : fs.get? "jsonrpc" = none) : VersionForm fs "2.0"
  | named {version : String} (h : fs.get? "jsonrpc" = some (.str version)) : VersionForm fs version

/-- An error with its parts named, or a list of its parts in order. -/
inductive ErrorForm : Value → ErrorObject → Prop where
  | object {fs : Fields} {c : Value} {code : Int} {message : String} (hc : fs.get? "code" = some c)
    (code64 : IsInt64 c code) (hm : fs.get? "message" = some (.str message)) :
    ErrorForm (.obj fs) ⟨code, message, fs.nonNull? "data"⟩
  | pair {c : Value} {code : Int} (message : String) (code64 : IsInt64 c code) :
    ErrorForm (.arr [c, .str message]) ⟨code, message, none⟩
  | triple {c : Value} {code : Int} (message : String) (data : Value) (code64 : IsInt64 c code) :
    ErrorForm (.arr [c, .str message, data]) ⟨code, message, data.nonNull?⟩

/-- A response without an error, or with null in its place, has none. -/
inductive ErrorFieldForm (fs : Fields) : Option ErrorObject → Prop where
  | absent (h : fs.get? "error" = none) : ErrorFieldForm fs none
  | null (h : fs.get? "error" = some .null) : ErrorFieldForm fs none
  | error {v : Value} {e : ErrorObject} (h : fs.get? "error" = some v) (he : ErrorForm v e) :
    ErrorFieldForm fs (some e)

/-- A value and the message that it is. -/
inductive MessageForm : Value → Message → Prop where
  | request {fs : Fields} {i : Value} {id : RequestId} {method version : String}
    (hi : fs.get? "id" = some i) (id64 : IdForm i id) (hm : fs.get? "method" = some (.str method))
    (hv : VersionForm fs version) :
    MessageForm (.obj fs) (.request ⟨version, id, method, fs.nonNull? "params"⟩)
  | notification {fs : Fields} {method version : String} (hi : fs.get? "id" = none)
    (hm : fs.get? "method" = some (.str method)) (hv : VersionForm fs version) :
    MessageForm (.obj fs) (.notification ⟨version, method, fs.nonNull? "params"⟩)
  | response {fs : Fields} {i : Value} {id : Option RequestId} {version : String}
    {error : Option ErrorObject} (hi : fs.get? "id" = some i) (id64 : NullableIdForm i id)
    (hm : fs.get? "method" = none) (hv : VersionForm fs version) (he : ErrorFieldForm fs error) :
    MessageForm (.obj fs) (.response ⟨version, id, fs.nonNull? "result", error⟩)

section Except
variable {ε ε' α β : Type}

private theorem bind_eq_ok {x : Except ε α} {f : α → Except ε β} {b : β} :
    x.bind f = .ok b ↔ ∃ a, x = .ok a ∧ f a = .ok b := by
  cases x <;> simp [Except.bind]

private theorem map_eq_ok {x : Except ε α} {f : α → β} {b : β} :
    x.map f = .ok b ↔ ∃ a, x = .ok a ∧ f a = b := by
  cases x <;> simp [Except.map]

private theorem mapError_eq_ok {x : Except ε α} {f : ε → ε'} {a : α} :
    x.mapError f = .ok a ↔ x = .ok a := by
  cases x with
  | ok b =>
    exact ⟨fun h => congrArg Except.ok (Except.ok.inj h),
      fun h => congrArg Except.ok (Except.ok.inj h)⟩
  | error e => exact iff_of_false nofun nofun

end Except

private theorem value?_eq (fs : Fields) (key : String) : fs.value? key = fs.nonNull? key := by
  unfold Fields.value? Fields.nonNull?
  split
  · rename_i h
    rw [h, Option.bind_none]
  · rename_i h
    rw [h]
    rfl
  · rename_i hv h
    rw [h, Option.bind_some, Value.nonNull?, if_neg hv]

private theorem decode_eq_ok {α : Type} {fs : Fields} {key : String} {f : Value → Except Mismatch α}
    {o : Option α} : fs.decode key f = .ok o ↔
      (fs.get? key = none ∧ o = none) ∨ ∃ v a, fs.get? key = some v ∧ f v = .ok a ∧ o = some a := by
  rw [Fields.decode]
  cases h : fs.get? key with
  | none => simp [eq_comm]
  | some v =>
    simp only [map_eq_ok]
    constructor
    · rintro ⟨a, ha, rfl⟩
      exact .inr ⟨v, a, rfl, ha, rfl⟩
    · rintro (⟨h, _⟩ | ⟨w, a, h, ha, rfl⟩)
      · cases h
      · cases h
        exact ⟨a, ha, rfl⟩

private theorem get?_of_not_has {fs : Fields} {key : String} (h : fs.has key = false) :
    fs.get? key = none :=
  Option.isNone_iff_eq_none.mp (Option.isSome_eq_false_iff.mp h)

private theorem string_eq_ok {v : Value} {s : String} : v.string = .ok s ↔ v = .str s := by
  cases v <;> simp [Value.string]

private theorem isInt64_iff {v : Value} {n : Int} :
    IsInt64 v n ↔ v = .num (.int n) ∧ Limits.minInt64 ≤ n ∧ n ≤ Limits.maxInt64 :=
  ⟨fun h => ⟨h.number, h.lower, h.upper⟩, fun h => ⟨h.1, h.2.1, h.2.2⟩⟩

private theorem int64_eq_ok {v : Value} {n : Int} : v.int64 = .ok n ↔ IsInt64 v n := by
  rw [isInt64_iff]
  unfold Value.int64
  split
  · rename_i m
    split
    · rename_i h
      constructor
      · rintro ⟨⟩
        exact ⟨rfl, h⟩
      · rintro ⟨⟨⟩, _⟩
        rfl
    · rename_i h
      constructor
      · rintro ⟨⟩
      · rintro ⟨⟨⟩, hm⟩
        exact absurd hm h
  · rename_i h
    constructor
    · rintro ⟨⟩
    · rintro ⟨rfl, _⟩
      exact absurd rfl (h n)

private theorem int64?_eq_some {v : Value} {n : Int} : v.int64? = some n ↔ IsInt64 v n := by
  rw [isInt64_iff]
  unfold Value.int64? Value.intBetween?
  split
  · rename_i m
    simp only [Option.ite_none_right_eq_some, Option.some.injEq, Value.num.injEq, Number.int.injEq]
    constructor
    · rintro ⟨h, rfl⟩
      exact ⟨rfl, h⟩
    · rintro ⟨rfl, h⟩
      exact ⟨h, rfl⟩
  · rename_i h
    constructor
    · rintro ⟨⟩
    · rintro ⟨rfl, _⟩
      exact absurd rfl (h n)

private theorem id_eq_ok {v : Value} {id : RequestId} :
    RequestId.ofValue v = .ok id ↔ IdForm v id := by
  unfold RequestId.ofValue
  split
  · rename_i n hn
    constructor
    · rintro ⟨⟩
      exact .number (int64?_eq_some.mp hn)
    · rintro (⟨h⟩ | ⟨s⟩)
      · rw [int64?_eq_some.mpr h] at hn
        rw [Option.some.inj hn]
      · cases hn
  · rename_i s _
    constructor
    · rintro ⟨⟩
      exact .text s
    · rintro (⟨⟨⟨⟩⟩⟩ | ⟨s⟩)
      rfl
  · rename_i hs hn
    constructor
    · rintro ⟨⟩
    · rintro (⟨h⟩ | ⟨s⟩)
      · exact absurd (int64?_eq_some.mpr h) (hn _)
      · exact absurd rfl (hs s)

private theorem nullable_eq_ok {v : Value} {id : Option RequestId} :
    RequestId.ofNullable v = .ok id ↔ NullableIdForm v id := by
  unfold RequestId.ofNullable
  split
  · constructor
    · rintro ⟨⟩
      exact .null
    · rintro (_ | ⟨⟨⟩⟩)
      · rfl
      · rename_i h
        cases h.number
  · rename_i h
    simp only [map_eq_ok, id_eq_ok]
    constructor
    · rintro ⟨i, hi, rfl⟩
      exact .id hi
    · rintro (_ | hi)
      · exact absurd rfl h
      · exact ⟨_, hi, rfl⟩

private theorem text_eq_ok {fs : Fields} {key : String} {o : Option String} :
    fs.decode key Value.string = .ok o ↔ fs.get? key = o.map .str := by
  rw [decode_eq_ok]
  cases o with
  | none => simp
  | some s => simp [string_eq_ok]

private theorem versionForm_iff {fs : Fields} {v : String} :
    VersionForm fs v ↔ ∃ o, fs.decode "jsonrpc" Value.string = .ok o ∧ o.getD version = v := by
  simp only [text_eq_ok]
  constructor
  · rintro (h | h)
    · exact ⟨none, h, rfl⟩
    · exact ⟨some v, h, rfl⟩
  · rintro ⟨_ | s, h, rfl⟩
    · exact .absent h
    · exact .named h

private theorem errorFields_eq_ok {fs : Fields} {e : ErrorObject} :
    ErrorObject.ofFields fs = .ok e ↔ ErrorForm (.obj fs) e := by
  simp only [ErrorObject.ofFields, bind_eq_ok, decode_eq_ok (f := Value.int64), text_eq_ok,
    int64_eq_ok]
  constructor
  · rintro ⟨code, hc, message, hm, h⟩
    split at h <;> cases h
    obtain ⟨_, h⟩ | ⟨c, n, hget, hn, h⟩ := hc <;> cases h
    rw [value?_eq]
    exact .object hget hn hm
  · rintro ⟨hc, code64, hm⟩
    exact ⟨_, .inr ⟨_, _, hc, code64, rfl⟩, some _, hm, by rw [value?_eq]⟩

private theorem errorItems_eq_ok {vs : List Value} {e : ErrorObject} :
    ErrorObject.ofItems vs = .ok e ↔ ErrorForm (.arr vs) e := by
  constructor
  · intro h
    unfold ErrorObject.ofItems at h
    split at h
    · cases h
    · obtain ⟨n, hn, h⟩ := bind_eq_ok.mp h
      have code64 := int64_eq_ok.mp hn
      split at h
      · cases h
      · obtain ⟨s, hs, h⟩ := bind_eq_ok.mp h
        obtain rfl := string_eq_ok.mp hs
        split at h <;> cases h
        · exact .pair s code64
        · exact .triple s Value.null code64
        · rename_i data hnull _
          have hdata : data.nonNull? = some data := if_neg hnull
          rw [← hdata]
          exact .triple s data code64
  · rintro (_ | ⟨s, code64⟩ | ⟨s, data, code64⟩)
    · simp [ErrorObject.ofItems, int64_eq_ok.mpr code64, Except.bind, Value.string]
    · simp only [ErrorObject.ofItems, int64_eq_ok.mpr code64, Except.bind, Value.string]
      cases data <;> rfl

private theorem errorValue_eq_ok {v : Value} {e : ErrorObject} :
    ErrorObject.ofValue v = .ok e ↔ ErrorForm v e := by
  unfold ErrorObject.ofValue
  split
  · exact errorFields_eq_ok
  · exact errorItems_eq_ok
  · rename_i hobj harr
    constructor
    · rintro ⟨⟩
    · rintro (_ | _ | _)
      · exact absurd rfl (hobj _)
      · exact absurd rfl (harr _)
      · exact absurd rfl (harr _)

private theorem errorField_eq_ok {fs : Fields} {error : Option ErrorObject} :
    (∃ o, fs.decode "error" Response.errorOf = .ok o ∧ o.join = error) ↔
      ErrorFieldForm fs error := by
  have hof {v : Value} {o : Option ErrorObject} : Response.errorOf v = .ok o ↔
      v = .null ∧ o = none ∨ v ≠ .null ∧ ∃ e, ErrorForm v e ∧ some e = o := by
    unfold Response.errorOf
    split
    · simp [eq_comm]
    · rename_i h
      simp only [map_eq_ok, errorValue_eq_ok]
      exact ⟨fun he => .inr ⟨h, he⟩, fun he => (he.resolve_left fun hn => h hn.1).2⟩
  simp only [decode_eq_ok, hof]
  constructor
  · rintro ⟨_, ⟨h, rfl⟩ | ⟨v, o, h, ⟨rfl, rfl⟩ | ⟨_, e, he, rfl⟩, rfl⟩, rfl⟩
    · exact .absent h
    · exact .null h
    · exact .error h he
  · rintro (h | h | ⟨h, he⟩)
    · exact ⟨none, .inl ⟨h, rfl⟩, rfl⟩
    · exact ⟨some none, .inr ⟨_, none, h, .inl ⟨rfl, rfl⟩, rfl⟩, rfl⟩
    · refine ⟨some (some _), .inr ⟨_, some _, h, .inr ⟨?_, _, he, rfl⟩, rfl⟩, rfl⟩
      rintro rfl
      cases he

private theorem request_eq_ok {fs : Fields} {r : Request} :
    Request.ofFields fs = .ok r ↔ MessageForm (.obj fs) (.request r) := by
  simp only [Request.ofFields, bind_eq_ok, decode_eq_ok (f := RequestId.ofValue), id_eq_ok]
  constructor
  · rintro ⟨id, hi, o, ho, method, hm, h⟩
    split at h <;> cases h
    obtain ⟨_, h⟩ | ⟨i, id, hget, id64, h⟩ := hi <;> cases h
    rw [value?_eq]
    exact .request hget id64 (text_eq_ok.mp hm) (versionForm_iff.mpr ⟨o, ho, rfl⟩)
  · rintro ⟨hi, id64, hm, hv⟩
    obtain ⟨o, ho, rfl⟩ := versionForm_iff.mp hv
    exact ⟨_, .inr ⟨_, _, hi, id64, rfl⟩, o, ho, some _, text_eq_ok.mpr hm, by rw [value?_eq]⟩

private theorem notification_eq_ok {fs : Fields} {n : Notification} (hid : fs.get? "id" = none) :
    Notification.ofFields fs = .ok n ↔ MessageForm (.obj fs) (.notification n) := by
  simp only [Notification.ofFields, bind_eq_ok]
  constructor
  · rintro ⟨o, ho, method, hm, h⟩
    split at h <;> cases h
    rw [value?_eq]
    exact .notification hid (text_eq_ok.mp hm) (versionForm_iff.mpr ⟨o, ho, rfl⟩)
  · rintro (_ | ⟨_, hm, hv⟩)
    obtain ⟨o, ho, rfl⟩ := versionForm_iff.mp hv
    exact ⟨o, ho, some _, text_eq_ok.mpr hm, by rw [value?_eq]⟩

private theorem response_eq_ok {fs : Fields} {r : Response} (hid : fs.has "id" = true)
    (hmethod : fs.get? "method" = none) :
    Response.ofFields fs = .ok r ↔ MessageForm (.obj fs) (.response r) := by
  obtain ⟨i, hi⟩ := Option.isSome_iff_exists.mp hid
  simp only [Response.ofFields, bind_eq_ok, decode_eq_ok (f := RequestId.ofNullable),
    nullable_eq_ok]
  constructor
  · rintro ⟨e, he, id, hget, o, ho, h⟩
    cases h
    obtain ⟨hnone, _⟩ | ⟨i, id, hget, id64, rfl⟩ := hget
    · rw [hi] at hnone
      cases hnone
    · rw [value?_eq]
      exact .response hget id64 hmethod (versionForm_iff.mpr ⟨o, ho, rfl⟩)
        (errorField_eq_ok.mp ⟨e, he, rfl⟩)
  · rintro (_ | _ | ⟨hget, id64, _, hv, he⟩)
    obtain ⟨o, ho, rfl⟩ := versionForm_iff.mp hv
    obtain ⟨e, hdecode, rfl⟩ := errorField_eq_ok.mpr he
    exact ⟨e, hdecode, _, .inr ⟨_, _, hget, id64, rfl⟩, o, ho, by rw [value?_eq]; rfl⟩

theorem form_of_ofValue {v : Value} {m : Message} (h : Message.ofValue v = .ok m) :
    MessageForm v m := by
  unfold Message.ofValue at h
  split at h
  · rename_i fs
    simp only at h
    split at h <;> rename_i hmethod hid
    · obtain ⟨r, hr, rfl⟩ := map_eq_ok.mp (mapError_eq_ok.mp h)
      exact request_eq_ok.mp hr
    · obtain ⟨n, hn, rfl⟩ := map_eq_ok.mp (mapError_eq_ok.mp h)
      exact (notification_eq_ok (get?_of_not_has hid)).mp hn
    · obtain ⟨r, hr, rfl⟩ := map_eq_ok.mp (mapError_eq_ok.mp h)
      exact (response_eq_ok hid (get?_of_not_has hmethod)).mp hr
    · cases h
  · cases h

theorem ofValue_of_form {v : Value} {m : Message} (h : MessageForm v m) :
    Message.ofValue v = .ok m := by
  cases h with
  | request hi id64 hm hv =>
    have hr := request_eq_ok.mpr (.request hi id64 hm hv)
    simp only [Message.ofValue, Fields.has, hi, hm, Option.isSome_some, hr]
    rfl
  | notification hi hm hv =>
    have hn := (notification_eq_ok hi).mpr (.notification hi hm hv)
    simp only [Message.ofValue, Fields.has, hi, hm, Option.isSome_some, Option.isSome_none, hn]
    rfl
  | response hi id64 hm hv he =>
    have hid := Option.isSome_of_eq_some hi
    have hr := (response_eq_ok hid hm).mpr (.response hi id64 hm hv he)
    simp only [Message.ofValue, Fields.has, hi, hm, Option.isSome_some, Option.isSome_none, hr]
    rfl

private theorem ofValue_error {v : Value} {e : Fault} (h : Message.ofValue v = .error e) :
    ∃ reason, e = .protocol reason := by
  have hmap {α : Type} {x : Except Mismatch α} {f : Mismatch → Fault}
      (hf : ∀ m, ∃ reason, f m = .protocol reason) (h : x.mapError f = .error e) :
      ∃ reason, e = .protocol reason := by
    cases x with
    | ok a => cases h
    | error m =>
      obtain ⟨reason, hm⟩ := hf m
      exact ⟨reason, (Except.error.inj h).symm.trans hm⟩
  unfold Message.ofValue at h
  split at h
  · simp only at h
    split at h
    · exact hmap (fun _ => ⟨_, rfl⟩) h
    · exact hmap (fun _ => ⟨_, rfl⟩) h
    · exact hmap (fun _ => ⟨_, rfl⟩) h
    · exact ⟨_, (Except.error.inj h).symm⟩
  · exact ⟨_, (Except.error.inj h).symm⟩

/-- A value is decoded to the message that it is by the grammar, and gives a protocol fault if it is
none. -/
theorem ofValue_eq_ok_iff_form (v : Value) :
    (∀ m, Message.ofValue v = .ok m ↔ MessageForm v m) ∧
      ((∀ m, ¬ MessageForm v m) → ∃ reason, Message.ofValue v = .error (.protocol reason)) := by
  refine ⟨fun m => ⟨form_of_ofValue, ofValue_of_form⟩, fun hno => ?_⟩
  cases h : Message.ofValue v with
  | ok m => exact absurd (form_of_ofValue h) (hno m)
  | error e =>
    obtain ⟨reason, rfl⟩ := ofValue_error h
    exact ⟨reason, rfl⟩

end LanguageClient.Rpc
