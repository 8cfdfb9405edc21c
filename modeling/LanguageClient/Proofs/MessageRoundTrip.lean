import LanguageClient.Proofs.CanonicalForm
import LanguageClient.Proofs.MessageGrammar
import LanguageClient.Proofs.ValueRoundTrip
/-!
A message is read back from its text. What tells the kinds of messages apart are the keys that are
written, and the text leaves out what is absent; so the one thing that reading cannot see is a null in
the place of params, a result, or the data of an error, which it takes for nothing.
-/
namespace LanguageClient.Rpc
open Json

def RequestId.number? : RequestId → Option Int
  | .number n => some n
  | .text _ => none

def IsSigned64 (n : Int) : Prop := Limits.minInt64 ≤ n ∧ n ≤ Limits.maxInt64

namespace Message

/-- The numbers that a message holds outside of its values: its id and the code of its error. -/
def integers : Message → List Int
  | request r => r.id.number?.toList
  | notification _ => []
  | response r => (r.id.bind RequestId.number?).toList ++ (r.error.map ErrorObject.code).toList

/-- The values that a message hands on: params, a result, the data of an error. -/
def contents : Message → List Value
  | request r => r.params.toList
  | notification n => n.params.toList
  | response r => r.result.toList ++ (r.error.bind ErrorObject.data).toList

/-- Ids and codes have 64 bits, the values are canonical and without fractional numbers, and no more
arrays and objects stand inside one another than the reader allows. -/
structure Legible (m : Message) : Prop where
  integers : ∀ n ∈ m.integers, IsSigned64 n
  canonical : ∀ v ∈ m.contents, v.isCanonical = true
  whole : ∀ v ∈ m.contents, v.isWhole = true
  depth : m.toValue.depth ≤ maxDepth

/-- The same message without the values that are null. -/
def withoutNulls : Message → Message
  | request r => request { r with params := r.params.bind Value.nonNull? }
  | notification n => notification { n with params := n.params.bind Value.nonNull? }
  | response r => response { r with
      result := r.result.bind Value.nonNull?
      error := r.error.map fun e => { e with data := e.data.bind Value.nonNull? } }

end Message

private theorem fieldsWhole_present (l : List (String × Option Value)) :
    Value.fieldsWhole (Fields.present l) = l.all fun f => f.2.all Value.isWhole := by
  induction l with
  | nil => rfl
  | cons f l ih =>
    obtain ⟨k, _ | v⟩ := f
    · exact ih
    · rw [Fields.present_some, Value.fieldsWhole, ih]
      rfl

/-- The fields that are read where fields were written. -/
private def readFields (l : List (String × Option Value)) : Fields :=
  Value.canonicalFields (Fields.present l) []

section
variable {l : List (String × Option Value)}

private theorem parse_render (hw : (Value.obj (Fields.present l)).isWhole = true)
    (hd : (Value.obj (Fields.present l)).depth ≤ maxDepth) :
    Payload.parse (Value.obj (Fields.present l)).render = .ok (.single (.obj (readFields l))) := by
  rw [Payload.parse, Value.read?_render hw hd, Value.canonical]
  rfl

private theorem get?_readFields (h : (l.map Prod.fst).Nodup) {key : String} :
    (readFields l).get? key = (l.lookup key).join.map Value.canonical := by
  rw [readFields, Value.get?_canonicalFields (Fields.nodup_present h), Fields.get?_present h]

private theorem nonNull?_readFields (h : (l.map Prod.fst).Nodup) (key : String) {o : Option Value}
    (hget : l.lookup key = some o) (ho : ∀ v ∈ o.toList, v.isCanonical = true) :
    (readFields l).nonNull? key = o.bind Value.nonNull? := by
  rw [Fields.nonNull?, get?_readFields h, hget]
  cases o with
  | none => rfl
  | some v =>
    rw [Option.join_some, Option.map_some, Value.canonical_eq (ho v (List.mem_singleton.mpr rfl))]

end

private theorem isWhole_int {n : Int} (h : IsSigned64 n) : (Value.int n).isWhole = true := by
  have hmax : Limits.maxInt64 ≤ Limits.maxNat64 := by decide
  exact decide_eq_true ⟨h.1, Int.le_trans h.2 hmax⟩

private theorem all_isWhole {o : Option Value} (h : ∀ v ∈ o.toList, v.isWhole = true) :
    o.all Value.isWhole = true := by
  cases o with
  | none => rfl
  | some v => exact h v (List.mem_singleton.mpr rfl)

private theorem idForm_toValue {id : RequestId} (h : ∀ n ∈ id.number?.toList, IsSigned64 n) :
    IdForm id.toValue.canonical id := by
  cases id with
  | number n =>
    obtain ⟨hlow, hhigh⟩ := h n (List.mem_singleton.mpr rfl)
    exact .number ⟨rfl, hlow, hhigh⟩
  | text s => exact .text s

private theorem isWhole_id {id : RequestId} (h : ∀ n ∈ id.number?.toList, IsSigned64 n) :
    id.toValue.isWhole = true := by
  cases id with
  | number n => exact isWhole_int (h n (List.mem_singleton.mpr rfl))
  | text s => rfl

private theorem nullableIdForm_toValue {id : Option RequestId}
    (h : ∀ n ∈ (id.bind RequestId.number?).toList, IsSigned64 n) :
    NullableIdForm (Value.ofOption RequestId.toValue id).canonical id := by
  cases id with
  | none => exact .null
  | some id => exact .id (idForm_toValue h)

private theorem isWhole_nullableId {id : Option RequestId}
    (h : ∀ n ∈ (id.bind RequestId.number?).toList, IsSigned64 n) :
    (Value.ofOption RequestId.toValue id).isWhole = true := by
  cases id with
  | none => rfl
  | some id => exact isWhole_id h

/-- What may be written of an error object. -/
private def errorParts (e : ErrorObject) : List (String × Option Value) :=
  [("code", some (.int e.code)), ("message", some (.str e.message)), ("data", e.data)]

private theorem errorParts_nodup (e : ErrorObject) : ((errorParts e).map Prod.fst).Nodup := by
  have h : ["code", "message", "data"].Nodup := by decide
  exact h

private theorem errorForm_toValue {e : ErrorObject} (hcode : IsSigned64 e.code)
    (hdata : ∀ v ∈ e.data.toList, v.isCanonical = true) :
    ErrorForm e.toValue.canonical { e with data := e.data.bind Value.nonNull? } := by
  have hkeys := errorParts_nodup e
  rw [← nonNull?_readFields hkeys "data" rfl hdata]
  exact .object (get?_readFields hkeys) ⟨rfl, hcode.1, hcode.2⟩ (get?_readFields hkeys)

private theorem isWhole_error {e : ErrorObject} (hcode : IsSigned64 e.code)
    (hdata : ∀ v ∈ e.data.toList, v.isWhole = true) : e.toValue.isWhole = true := by
  have hfields := fieldsWhole_present (errorParts e)
  rw [errorParts, List.all_cons, List.all_cons, List.all_cons] at hfields
  simp only [Option.all_some, isWhole_int hcode, all_isWhole hdata] at hfields
  exact hfields

/-- What may be written of a message. -/
private def parts : Message → List (String × Option Value)
  | .request r =>
    [("jsonrpc", some (.str r.jsonrpc)), ("id", some r.id.toValue), ("method", some (.str r.method)),
     ("params", r.params)]
  | .notification n =>
    [("jsonrpc", some (.str n.jsonrpc)), ("method", some (.str n.method)), ("params", n.params)]
  | .response r =>
    [("jsonrpc", some (.str r.jsonrpc)), ("id", some (Value.ofOption RequestId.toValue r.id)),
     ("result", r.result), ("error", r.error.map ErrorObject.toValue)]

private theorem toValue_eq_parts (m : Message) : m.toValue = .obj (Fields.present (parts m)) := by
  cases m <;> rfl

private theorem parts_nodup (m : Message) : ((parts m).map Prod.fst).Nodup := by
  have hrequest : ["jsonrpc", "id", "method", "params"].Nodup := by decide
  have hnotification : ["jsonrpc", "method", "params"].Nodup := by decide
  have hresponse : ["jsonrpc", "id", "result", "error"].Nodup := by decide
  cases m with
  | request r => exact hrequest
  | notification n => exact hnotification
  | response r => exact hresponse

private theorem isWhole_toValue {m : Message} (h : m.Legible) : m.toValue.isWhole = true := by
  have hfields := fieldsWhole_present (parts m)
  rw [toValue_eq_parts, Value.isWhole, hfields]
  cases m with
  | request r =>
    have hparams := all_isWhole h.whole
    have hid := isWhole_id h.integers
    simp only [parts, List.all_cons, List.all_nil, Option.all_some, Value.isWhole, hid, hparams]
    rfl
  | notification n =>
    have hparams := all_isWhole h.whole
    simp only [parts, List.all_cons, List.all_nil, Option.all_some, Value.isWhole, hparams]
    rfl
  | response r =>
    obtain ⟨hid, hcode⟩ := List.forall_mem_append.mp h.integers
    obtain ⟨hresult, hdata⟩ := List.forall_mem_append.mp h.whole
    have hresult := all_isWhole hresult
    have hid := isWhole_nullableId hid
    have herror : (r.error.map ErrorObject.toValue).all Value.isWhole = true := by
      cases he : r.error with
      | none => rfl
      | some e =>
        rw [he] at hcode hdata
        exact isWhole_error (hcode e.code (List.mem_singleton.mpr rfl)) hdata
    simp only [parts, List.all_cons, List.all_nil, Option.all_some, Value.isWhole, hid, hresult,
      herror]
    rfl

private theorem form_readFields {m : Message} (h : m.Legible) :
    MessageForm (.obj (readFields (parts m))) m.withoutNulls := by
  have hkeys := parts_nodup m
  cases m with
  | request r =>
    rw [Message.withoutNulls, ← nonNull?_readFields hkeys "params" rfl h.canonical]
    exact .request (get?_readFields hkeys) (idForm_toValue h.integers) (get?_readFields hkeys)
      (.named (get?_readFields hkeys))
  | notification n =>
    rw [Message.withoutNulls, ← nonNull?_readFields hkeys "params" rfl h.canonical]
    exact .notification (get?_readFields hkeys) (get?_readFields hkeys)
      (.named (get?_readFields hkeys))
  | response r =>
    obtain ⟨hid, hcode⟩ := List.forall_mem_append.mp h.integers
    obtain ⟨hresult, hdata⟩ := List.forall_mem_append.mp h.canonical
    rw [Message.withoutNulls, ← nonNull?_readFields hkeys "result" rfl hresult]
    refine .response (get?_readFields hkeys) (nullableIdForm_toValue hid) (get?_readFields hkeys)
      (.named (get?_readFields hkeys)) ?_
    obtain ⟨jsonrpc, id, result, _ | e⟩ := r
    · exact .absent (get?_readFields hkeys)
    · exact .error (get?_readFields hkeys)
        (errorForm_toValue (hcode e.code (List.mem_singleton.mpr rfl)) hdata)

private theorem reads_back {m : Message} (h : m.Legible) :
    ∃ v, Payload.parse m.wire = .ok (.single v) ∧ Message.ofValue v = .ok m.withoutNulls := by
  have hw := isWhole_toValue h
  have hd := h.depth
  rw [toValue_eq_parts] at hw hd
  refine ⟨.obj (readFields (parts m)), ?_, ofValue_of_form (form_readFields h)⟩
  rw [Message.wire, toValue_eq_parts, parse_render hw hd]

private theorem nonNull?_idem (o : Option Value) :
    (o.bind Value.nonNull?).bind Value.nonNull? = o.bind Value.nonNull? := by
  cases o with
  | none => rfl
  | some v =>
    by_cases hv : v = .null
    · rw [Option.bind_some, Value.nonNull?, if_pos hv, Option.bind_none]
    · rw [Option.bind_some, Value.nonNull?, if_neg hv, Option.bind_some, Value.nonNull?, if_neg hv]

private theorem canonical_nonNull? {o : Option Value} (h : ∀ v ∈ o, v.isCanonical = true) :
    ∀ v ∈ (o.bind Value.nonNull?).toList, v.isCanonical = true := by
  intro v hv
  obtain ⟨w, hw, hv⟩ := Option.bind_eq_some_iff.mp (Option.mem_toList.mp hv)
  rw [Value.nonNull?, Option.ite_none_left_eq_some, Option.some.injEq] at hv
  exact hv.2 ▸ h w hw

private theorem canonical_field {fs : Fields} (h : (Value.obj fs).isCanonical = true)
    (key : String) : ∀ v ∈ (fs.nonNull? key).toList, v.isCanonical = true :=
  canonical_nonNull? fun _ hv => Value.fieldsCanonical_get? h hv

private theorem signed_id {v : Value} {id : RequestId} (h : IdForm v id) :
    ∀ n ∈ id.number?.toList, IsSigned64 n := by
  cases h with
  | number h =>
    intro n hn
    obtain rfl := List.mem_singleton.mp hn
    exact ⟨h.lower, h.upper⟩
  | text s => exact List.forall_mem_nil _

private theorem signed_nullableId {v : Value} {id : Option RequestId} (h : NullableIdForm v id) :
    ∀ n ∈ (id.bind RequestId.number?).toList, IsSigned64 n := by
  cases h with
  | null => exact List.forall_mem_nil _
  | id h => exact signed_id h

private theorem error_read {v : Value} {e : ErrorObject} (h : ErrorForm v e)
    (hv : v.isCanonical = true) : IsSigned64 e.code ∧
      (∀ w ∈ e.data.toList, w.isCanonical = true) ∧ e.data.bind Value.nonNull? = e.data := by
  cases h with
  | object _ code64 _ =>
    exact ⟨⟨code64.lower, code64.upper⟩, canonical_field hv "data", nonNull?_idem _⟩
  | pair _ code64 => exact ⟨⟨code64.lower, code64.upper⟩, List.forall_mem_nil _, rfl⟩
  | triple _ data code64 =>
    have hdata : data.isCanonical = true := Value.itemsCanonical_mem hv data (by simp)
    refine ⟨⟨code64.lower, code64.upper⟩, canonical_nonNull? (o := some data) ?_,
      nonNull?_idem (some data)⟩
    rintro w ⟨⟩
    exact hdata

private theorem message_read {v : Value} {m : Message} (h : MessageForm v m)
    (hv : v.isCanonical = true) : (∀ n ∈ m.integers, IsSigned64 n) ∧
      (∀ w ∈ m.contents, w.isCanonical = true) ∧ m.withoutNulls = m := by
  cases h with
  | request _ id64 _ _ =>
    refine ⟨signed_id id64, canonical_field hv "params", ?_⟩
    rw [Message.withoutNulls, Fields.nonNull?, nonNull?_idem]
  | notification _ _ _ =>
    refine ⟨List.forall_mem_nil _, canonical_field hv "params", ?_⟩
    rw [Message.withoutNulls, Fields.nonNull?, nonNull?_idem]
  | response _ id64 _ _ he =>
    have hid := signed_nullableId id64
    have hresult := canonical_field hv "result"
    cases he with
    | absent _ | null _ =>
      refine ⟨List.forall_mem_append.mpr ⟨hid, List.forall_mem_nil _⟩,
        List.forall_mem_append.mpr ⟨hresult, List.forall_mem_nil _⟩, ?_⟩
      rw [Message.withoutNulls, Fields.nonNull?, nonNull?_idem]
      rfl
    | error hget he =>
      obtain ⟨hcode, hdata, hnull⟩ := error_read he (Value.fieldsCanonical_get? hv hget)
      refine ⟨List.forall_mem_append.mpr ⟨hid, fun n hn => ?_⟩,
        List.forall_mem_append.mpr ⟨hresult, hdata⟩, ?_⟩
      · rw [List.mem_singleton.mp hn]
        exact hcode
      · rw [Message.withoutNulls, Fields.nonNull?, nonNull?_idem, Option.map_some, hnull]

/-- The text of a message is read as the message, but for a null in place of its params, its result or
the data of its error, which is read as nothing. A message that was read from a value is read from its
text as it is, and written with the same text again. -/
theorem ofValue_parse_wire (m : Message) :
    (m.Legible → ∃ v, Payload.parse m.wire = .ok (.single v) ∧
      Message.ofValue v = .ok m.withoutNulls) ∧
    ∀ v : Value, v.isCanonical = true → Message.ofValue v = .ok m →
      (∀ w ∈ m.contents, w.isWhole = true) → m.toValue.depth ≤ maxDepth →
        ∃ w m', Payload.parse m.wire = .ok (.single w) ∧ Message.ofValue w = .ok m' ∧ m' = m ∧
          m'.wire = m.wire := by
  refine ⟨reads_back, fun v hv hm hwhole hdepth => ?_⟩
  obtain ⟨hintegers, hcanonical, hnulls⟩ := message_read (form_of_ofValue hm) hv
  obtain ⟨w, hparse, hw⟩ := reads_back ⟨hintegers, hcanonical, hwhole, hdepth⟩
  exact ⟨w, m, hparse, hnulls ▸ hw, rfl, rfl⟩

/-- The answer to a request that was refused, with a result and a null for the data of its error. -/
def refusal : Message :=
  .response ⟨"2.0", some (.number 7), some (.arr [.obj [("a", .null), ("b", .int (-1))]]),
    some ⟨-32601, "no such method", some .null⟩⟩

private theorem refusal_legible : refusal.Legible where
  integers := List.forall_mem_cons.mpr ⟨⟨by decide, by decide⟩,
    List.forall_mem_singleton.mpr ⟨by decide, by decide⟩⟩
  canonical := by decide
  whole := by decide
  depth := by decide

theorem ofValue_parse_wire_refusal : refusal.Legible ∧
    ∃ v, Payload.parse refusal.wire = .ok (.single v) ∧ Message.ofValue v = .ok (.response ⟨"2.0",
      some (.number 7), some (.arr [.obj [("a", .null), ("b", .int (-1))]]),
      some ⟨-32601, "no such method", none⟩⟩) :=
  ⟨refusal_legible, (ofValue_parse_wire refusal).1 refusal_legible⟩

end LanguageClient.Rpc
