import LanguageClient.Rpc.Message
import Mathlib.Data.Bool.AllAny
import Mathlib.Data.List.Forall2
/-!
A JSON text can be read in one way only. Values with the same text have the same shape, down to the
characters of their strings and the lexemes of their numbers, and so a frame that the client writes is
the text of one message only.
-/
namespace LanguageClient.Json

private theorem hex4?_lowerHex : ∀ n < 0x20,
    hex4? '0' '0' (lowerHex (n / 16)) (lowerHex (n % 16)) = some n := by decide

theorem stringBody?_unit {a b c d u : Char} {n : Nat} (hn : hex4? a b c d = some n)
    (hu : unit? n = some u) (rest : List Char) :
    stringBody? ('\\' :: 'u' :: a :: b :: c :: d :: rest) =
      (stringBody? rest).map fun (cs, rest) => (u :: cs, rest) := by
  rw [stringBody?.eq_def]
  split
  · simp_all
  · simp_all
  · simp_all
  · simp_all
  · rename_i hnot heq
    simp only [List.cons.injEq, true_and] at heq
    exact absurd heq.2.symm (hnot _ _ _ _ _ heq.1.symm)
  · rename_i hnot heq
    simp only [List.cons.injEq] at heq
    exact absurd heq.2.symm (hnot _ _ heq.1.symm)

private theorem stringBody?_escapeChar (c : Char) (rest : List Char) :
    stringBody? (escapeChar c ++ rest) =
      (stringBody? rest).map fun (cs, rest) => (c :: cs, rest) := by
  rw [escapeChar]
  split
  · subst_vars; simp [stringBody?, shortEscape?]
  split
  · subst_vars; simp [stringBody?, shortEscape?]
  split
  · subst_vars; simp [stringBody?, shortEscape?]
  split
  · subst_vars; simp [stringBody?, shortEscape?]
  split
  · subst_vars; simp [stringBody?, shortEscape?]
  split
  · subst_vars; simp [stringBody?, shortEscape?]
  split
  · subst_vars; simp [stringBody?, shortEscape?]
  split
  · rename_i hc
    refine stringBody?_unit (hex4?_lowerHex c.toNat hc) ?_ rest
    rw [unit?, if_neg (by omega), Char.ofNat_toNat]
  · rename_i hquote hslash _ _ _ _ _ hc
    simp only [List.cons_append, List.nil_append]
    rw [stringBody?.eq_def]
    split
    · simp_all
    · simp_all
    · simp_all
    · simp_all
    · simp_all
    · rename_i heq
      obtain ⟨rfl, rfl⟩ := List.cons.inj heq
      rw [if_neg (not_or.mpr ⟨hc, hslash⟩)]

/-- What is written of a string, up to its closing quote, is read as the string. -/
theorem stringBody?_escaped (cs rest : List Char) :
    stringBody? (cs.flatMap escapeChar ++ '"' :: rest) = some (cs, rest) := by
  induction cs with
  | nil => simp [stringBody?]
  | cons c cs ih => rw [List.flatMap_cons, List.append_assoc, stringBody?_escapeChar, ih]; rfl

theorem quoted_append_inj {s t : String} {r u : List Char}
    (h : quoted s ++ r = quoted t ++ u) : s = t ∧ r = u := by
  simp only [quoted, List.cons_append, List.cons.injEq, true_and, List.append_assoc,
    List.nil_append] at h
  have h1 := congrArg stringBody? h
  rw [stringBody?_escaped, stringBody?_escaped, Option.some.injEq, Prod.mk.injEq] at h1
  exact ⟨String.ext h1.1, h1.2⟩

/-- The characters that lexemes of numbers are made of. -/
def isNumeric (c : Char) : Bool := c.isDigit || c == '-' || c == '+' || c == '.' || c == 'e'

private theorem toDigits_numeric (n : Nat) : ∀ c ∈ Nat.toDigits 10 n, isNumeric c = true := by
  intro c h
  rw [isNumeric, Nat.isDigit_of_mem_toDigits (by decide) (by decide) h]
  rfl

private theorem append_numeric {cs ds : List Char} (hc : ∀ c ∈ cs, isNumeric c = true)
    (hd : ∀ c ∈ ds, isNumeric c = true) : ∀ c ∈ cs ++ ds, isNumeric c = true :=
  List.forall_mem_append.mpr ⟨hc, hd⟩

private theorem cons_numeric {c : Char} {cs : List Char} (hc : isNumeric c = true)
    (hd : ∀ c ∈ cs, isNumeric c = true) : ∀ d ∈ c :: cs, isNumeric d = true :=
  List.forall_mem_cons.mpr ⟨hc, hd⟩

private theorem zeros_numeric (n : Nat) : ∀ c ∈ List.replicate n '0', isNumeric c = true := by
  intro c hc
  rw [(List.mem_replicate.mp hc).2]
  rfl

private theorem realChars_numeric (x : Decimal.Binary64) :
    ∀ c ∈ Number.realChars x, isNumeric c = true := by
  have hds := toDigits_numeric (Decimal.shortest x).digits
  have htake (n : Nat) : ∀ c ∈ (Nat.toDigits 10 (Decimal.shortest x).digits).take n,
      isNumeric c = true := fun c hc => hds c (List.mem_of_mem_take hc)
  have hdrop (n : Nat) : ∀ c ∈ (Nat.toDigits 10 (Decimal.shortest x).digits).drop n,
      isNumeric c = true := fun c hc => hds c (List.mem_of_mem_drop hc)
  have hnil : ∀ c ∈ ([] : List Char), isNumeric c = true := nofun
  have hpoint : ∀ c ∈ ['.', '0'], isNumeric c = true := List.all_iff_forall_prop.mp (by decide)
  have hsign (n : Int) : ∀ c ∈ (if n < 0 then ['-'] else ['+']), isNumeric c = true := by
    split <;> exact List.all_iff_forall_prop.mp (by decide)
  have hbody : ∀ body : List Char, (∀ c ∈ body, isNumeric c = true) →
      ∀ c ∈ (if x.negative then '-' :: body else body), isNumeric c = true := by
    intro body h
    split
    · exact cons_numeric rfl h
    · exact h
  rw [Number.realChars]
  simp only
  apply hbody
  split
  · exact cons_numeric rfl hpoint
  split
  · exact append_numeric (append_numeric hds (zeros_numeric _)) hpoint
  split
  · exact append_numeric (htake _) (cons_numeric rfl (hdrop _))
  split
  · exact append_numeric (cons_numeric rfl (cons_numeric rfl (zeros_numeric _))) hds
  · refine append_numeric (append_numeric (append_numeric (htake _) ?_)
      (cons_numeric rfl (hsign _))) (toDigits_numeric _)
    split
    · exact hnil
    · exact cons_numeric rfl (hdrop _)

theorem Number.chars_numeric (n : Number) : ∀ c ∈ n.chars, isNumeric c = true := by
  cases n with
  | int n =>
    simp only [Number.chars, Number.intChars]
    split
    · exact cons_numeric rfl (toDigits_numeric _)
    · exact toDigits_numeric _
  | real x => exact realChars_numeric x

/-- Texts that do not go on with a lexeme of a number. -/
def Breaks (r : List Char) : Prop := ∀ c ∈ r.head?, isNumeric c = false

private theorem numeric_append_inj {cs ds r s : List Char} (hc : ∀ c ∈ cs, isNumeric c = true)
    (hd : ∀ c ∈ ds, isNumeric c = true) (hr : Breaks r) (hs : Breaks s)
    (h : cs ++ r = ds ++ s) : cs = ds ∧ r = s := by
  induction cs generalizing ds with
  | nil =>
    cases ds with
    | nil => exact ⟨rfl, h⟩
    | cons d ds =>
      have hnot := hr d (by rw [List.nil_append] at h; rw [h]; rfl)
      rw [hd d List.mem_cons_self] at hnot
      cases hnot
  | cons c cs ih =>
    cases ds with
    | nil =>
      have hnot := hs c (by rw [List.nil_append] at h; rw [← h]; rfl)
      rw [hc c List.mem_cons_self] at hnot
      cases hnot
    | cons d ds =>
      obtain ⟨rfl, h'⟩ := List.cons.inj h
      obtain ⟨rfl, rfl⟩ := ih (fun c hm => hc c (List.mem_cons_of_mem _ hm))
        (fun d hm => hd d (List.mem_cons_of_mem _ hm)) h'
      exact ⟨rfl, rfl⟩

theorem Number.chars_ne_nil (n : Number) : n.chars ≠ [] := by
  cases n with
  | int n =>
    simp only [Number.chars, Number.intChars]
    split
    · exact List.cons_ne_nil _ _
    · exact Nat.toDigits_ne_nil
  | real x =>
    simp only [Number.chars, Number.realChars]
    repeat' split
    all_goals simp

/-- What the first character of a value tells of it. -/
inductive Opening where
  | null
  | true
  | false
  | number
  | string
  | array
  | object
  deriving DecidableEq

def Opening.ofChar (c : Char) : Opening :=
  match c with
  | 'n' => .null
  | 't' => .true
  | 'f' => .false
  | '"' => .string
  | '[' => .array
  | '{' => .object
  | _ => .number

private theorem ofChar_numeric {c : Char} (h : isNumeric c = true) : Opening.ofChar c = .number := by
  unfold Opening.ofChar
  split <;> first | rfl | cases h

def Value.opening : Value → Opening
  | .null => .null
  | .bool true => .true
  | .bool false => .false
  | .num _ => .number
  | .str _ => .string
  | .arr _ => .array
  | .obj _ => .object

theorem chars_opening (v : Value) :
    ∃ c cs, v.chars = c :: cs ∧ Opening.ofChar c = v.opening := by
  cases v with
  | null => exact ⟨_, _, rfl, rfl⟩
  | bool b => cases b <;> exact ⟨_, _, rfl, rfl⟩
  | num n =>
    obtain ⟨c, cs, h⟩ := List.exists_cons_of_ne_nil n.chars_ne_nil
    exact ⟨c, cs, h, ofChar_numeric (n.chars_numeric c (h ▸ List.mem_cons_self))⟩
  | str s => exact ⟨_, _, rfl, rfl⟩
  | arr items => exact ⟨_, _, rfl, rfl⟩
  | obj fields => exact ⟨_, _, rfl, rfl⟩

private theorem opening_eq {v w : Value} {r s : List Char} (h : v.chars ++ r = w.chars ++ s) :
    v.opening = w.opening := by
  obtain ⟨c, cs, hv, hc⟩ := chars_opening v
  obtain ⟨d, ds, hw, hd⟩ := chars_opening w
  rw [hv, hw] at h
  rw [← hc, ← hd, (List.cons.inj h).1]

namespace Value

/-- Values with the same text. -/
def Alike (v w : Value) : Prop := v.chars = w.chars

/-- Fields with the same key and values with the same text. -/
def AlikeField (f g : String × Value) : Prop := f.1 = g.1 ∧ f.2.Alike g.2

private theorem itemChars_cons_cons (v w : Value) (ws : List Value) :
    itemChars (v :: w :: ws) = v.chars ++ ',' :: itemChars (w :: ws) := by
  rw [itemChars.eq_3 _ _ (List.cons_ne_nil w ws)]

private theorem fieldChars_cons_cons (f g : String × Value) (gs : Fields) :
    fieldChars (f :: g :: gs) = quoted f.1 ++ ':' :: f.2.chars ++ ',' :: fieldChars (g :: gs) := by
  rw [fieldChars.eq_3 _ _ _ (List.cons_ne_nil g gs)]

private theorem itemChars_alike {vs ws : List Value} (h : List.Forall₂ Alike vs ws) :
    itemChars vs = itemChars ws := by
  induction h with
  | nil => rfl
  | cons hv hvs ih =>
    cases hvs with
    | nil => exact hv
    | cons _ _ => rw [itemChars_cons_cons, itemChars_cons_cons, hv, ih]

private theorem fieldChars_alike {fs gs : Fields} (h : List.Forall₂ AlikeField fs gs) :
    fieldChars fs = fieldChars gs := by
  induction h with
  | nil => rfl
  | cons hf hfs ih =>
    obtain ⟨hk, hv⟩ := hf
    cases hfs with
    | nil => rw [fieldChars, fieldChars, hk, hv]
    | cons _ _ => rw [fieldChars_cons_cons, fieldChars_cons_cons, hk, hv, ih]

private theorem breaks_cons {c : Char} (h : isNumeric c = false) (r : List Char) :
    Breaks (c :: r) := by
  intro d hd
  rw [List.head?_cons, Option.mem_some_iff] at hd
  exact hd ▸ h

/-- A value does not begin with what closes a list of values. -/
theorem chars_ne_closing {v : Value} {c : Char} {r s : List Char}
    (hc : Opening.ofChar c = .number) (hn : isNumeric c = false) : v.chars ++ r ≠ c :: s := by
  intro h
  obtain ⟨d, ds, hv, hd⟩ := chars_opening v
  have hcd : d = c := by
    rw [hv] at h
    exact (List.cons.inj h).1
  have hnum : v.opening = .number := by rw [← hd, hcd, hc]
  cases v with
  | num n =>
    have hin := n.chars_numeric d (by rw [chars] at hv; rw [hv]; exact List.mem_cons_self)
    rw [hcd, hn] at hin
    cases hin
  | bool b => cases b <;> cases hnum
  | _ => cases hnum

/-- What follows the first entry of an array or an object. -/
def entryTail {α : Type} (close : Char) (text : List α → List Char) : List α → List Char → List Char
  | [], r => close :: r
  | e :: es, r => ',' :: text (e :: es) ++ close :: r

theorem itemChars_cons (v : Value) (vs : List Value) (r : List Char) :
    itemChars (v :: vs) ++ ']' :: r = v.chars ++ entryTail ']' itemChars vs r := by
  cases vs with
  | nil => rfl
  | cons w ws => rw [itemChars_cons_cons, List.append_assoc]; rfl

theorem fieldChars_cons (f : String × Value) (fs : Fields) (r : List Char) :
    fieldChars (f :: fs) ++ '}' :: r = quoted f.1 ++ ':' :: (f.2.chars ++ entryTail '}' fieldChars fs r) := by
  cases fs with
  | nil => simp [fieldChars, entryTail]
  | cons g gs => simp [fieldChars_cons_cons, entryTail]

private theorem breaks_entryTail {α : Type} {close : Char} (h : isNumeric close = false)
    (text : List α → List Char) (es : List α) (r : List Char) : Breaks (entryTail close text es r) := by
  cases es with
  | nil => exact breaks_cons h _
  | cons _ _ => exact breaks_cons rfl _

mutual

/-- Where the text of a value ends is seen from the text. -/
theorem chars_append_inj : ∀ {v w : Value} {r s : List Char}, Breaks r → Breaks s →
    v.chars ++ r = w.chars ++ s → v.Alike w ∧ r = s := by
  intro v w r s hr hs h
  match v, w, opening_eq h with
  | .null, .null, _ => exact ⟨rfl, List.append_cancel_left h⟩
  | .bool true, .bool true, _ => exact ⟨rfl, List.append_cancel_left h⟩
  | .bool false, .bool false, _ => exact ⟨rfl, List.append_cancel_left h⟩
  | .num n, .num m, _ =>
    simp only [chars] at h
    exact numeric_append_inj n.chars_numeric m.chars_numeric hr hs h
  | .str t, .str u, _ =>
    simp only [chars] at h
    obtain ⟨rfl, rfl⟩ := quoted_append_inj h
    exact ⟨rfl, rfl⟩
  | .arr vs, .arr ws, _ =>
    simp only [chars, List.cons_append, List.append_assoc, List.nil_append, List.cons.injEq,
      true_and] at h
    obtain ⟨ha, rfl⟩ := itemChars_append_inj h
    exact ⟨by rw [Alike, chars, chars, itemChars_alike ha], rfl⟩
  | .obj fs, .obj gs, _ =>
    simp only [chars, List.cons_append, List.append_assoc, List.nil_append, List.cons.injEq,
      true_and] at h
    obtain ⟨ha, rfl⟩ := fieldChars_append_inj h
    exact ⟨by rw [Alike, chars, chars, fieldChars_alike ha], rfl⟩

private theorem itemChars_append_inj : ∀ {vs ws : List Value} {r s : List Char},
    itemChars vs ++ ']' :: r = itemChars ws ++ ']' :: s → List.Forall₂ Alike vs ws ∧ r = s := by
  intro vs ws r s h
  match vs, ws with
  | [], [] => exact ⟨.nil, (List.cons.inj h).2⟩
  | [], w :: ws => exact absurd (itemChars_cons w ws s ▸ h.symm) (chars_ne_closing rfl rfl)
  | v :: vs, [] => exact absurd (itemChars_cons v vs r ▸ h) (chars_ne_closing rfl rfl)
  | v :: vs, w :: ws =>
    rw [itemChars_cons, itemChars_cons] at h
    obtain ⟨hv, ht⟩ := chars_append_inj (breaks_entryTail rfl _ vs r) (breaks_entryTail rfl _ ws s) h
    match vs, ws with
    | [], [] => exact ⟨.cons hv .nil, (List.cons.inj ht).2⟩
    | [], _ :: _ => cases ht
    | _ :: _, [] => cases ht
    | v' :: vs, w' :: ws =>
      obtain ⟨hvs, rfl⟩ := itemChars_append_inj (List.cons.inj ht).2
      exact ⟨.cons hv hvs, rfl⟩

private theorem fieldChars_append_inj : ∀ {fs gs : Fields} {r s : List Char},
    fieldChars fs ++ '}' :: r = fieldChars gs ++ '}' :: s →
      List.Forall₂ AlikeField fs gs ∧ r = s := by
  intro fs gs r s h
  match fs, gs with
  | [], [] => exact ⟨.nil, (List.cons.inj h).2⟩
  | [], g :: gs => rw [fieldChars_cons] at h; cases h
  | f :: fs, [] => rw [fieldChars_cons] at h; cases h
  | (k, v) :: fs, (l, w) :: gs =>
    rw [fieldChars_cons, fieldChars_cons] at h
    obtain ⟨rfl, h⟩ := quoted_append_inj h
    obtain ⟨hv, ht⟩ := chars_append_inj (breaks_entryTail rfl _ fs r) (breaks_entryTail rfl _ gs s)
      (List.cons.inj h).2
    match fs, gs with
    | [], [] => exact ⟨.cons ⟨rfl, hv⟩ .nil, (List.cons.inj ht).2⟩
    | [], _ :: _ => cases ht
    | _ :: _, [] => cases ht
    | f :: fs, g :: gs =>
      obtain ⟨hfs, rfl⟩ := fieldChars_append_inj (List.cons.inj ht).2
      exact ⟨.cons ⟨rfl, hv⟩ hfs, rfl⟩

end

variable {v w : Value}

theorem Alike.opening (h : v.Alike w) : v.opening = w.opening :=
  opening_eq (r := []) (s := []) (by rw [h])

theorem Alike.str {s t : String} (h : (Value.str s).Alike (.str t)) : s = t :=
  (quoted_append_inj (r := []) (u := []) (by
    have h' : quoted s = quoted t := h
    rw [h'])).1

private theorem toDigits_inj {n m : Nat} (h : Nat.toDigits 10 n = Nat.toDigits 10 m) : n = m := by
  rw [← Nat.ofDigitChars_ten_toDigits (n := n), h, Nat.ofDigitChars_ten_toDigits]

private theorem toDigits_ne_minus (n : Nat) (cs : List Char) : Nat.toDigits 10 n ≠ '-' :: cs := by
  intro h
  have hd : Char.isDigit '-' = true :=
    Nat.isDigit_of_mem_toDigits (b := 10) (n := n) (by decide) (by decide)
      (h ▸ List.mem_cons_self)
  cases hd

theorem Alike.int {n m : Int} (h : (Value.int n).Alike (.int m)) : n = m := by
  have h' : Number.intChars n = Number.intChars m := h
  unfold Number.intChars at h'
  split at h' <;> split at h'
  · have hnat := toDigits_inj (List.cons.inj h').2
    omega
  · exact absurd h'.symm (toDigits_ne_minus _ _)
  · exact absurd h' (toDigits_ne_minus _ _)
  · have hnat := toDigits_inj h'
    omega

theorem Alike.obj {fs gs : Fields} (h : (Value.obj fs).Alike (.obj gs)) :
    List.Forall₂ AlikeField fs gs := by
  have h' : '{' :: fieldChars fs ++ ['}'] = '{' :: fieldChars gs ++ ['}'] := h
  exact (fieldChars_append_inj (List.cons.inj h').2).1

theorem Alike.arr {vs ws : List Value} (h : (Value.arr vs).Alike (.arr ws)) :
    List.Forall₂ Alike vs ws := by
  have h' : '[' :: itemChars vs ++ [']'] = '[' :: itemChars ws ++ [']'] := h
  exact (itemChars_append_inj (List.cons.inj h').2).1

private theorem lookup_alike {fs gs : Fields} (h : List.Forall₂ AlikeField fs gs) (key : String) :
    Option.Rel Alike (Fields.get? fs key) (Fields.get? gs key) := by
  induction h with
  | nil => exact .none
  | @cons f g fs gs hf hfs ih =>
    obtain ⟨k, v⟩ := f
    obtain ⟨l, w⟩ := g
    obtain ⟨rfl, hv⟩ : k = l ∧ v.Alike w := hf
    simp only [Fields.get?, List.lookup_cons]
    split
    · exact .some hv
    · exact ih

theorem Alike.get? (h : v.Alike w) (key : String) : Option.Rel Alike (v.get? key) (w.get? key) := by
  have ho := h.opening
  match v, w, ho with
  | .obj fs, .obj gs, _ => exact lookup_alike h.obj key
  | .null, .null, _ => exact .none
  | .bool true, .bool true, _ => exact .none
  | .bool false, .bool false, _ => exact .none
  | .num _, .num _, _ => exact .none
  | .str _, .str _, _ => exact .none
  | .arr _, .arr _, _ => exact .none

theorem Alike.string? (h : v.Alike w) : v.string? = w.string? := by
  have ho := h.opening
  match v, w, ho with
  | .str s, .str t, _ => rw [h.str]
  | .null, .null, _ => rfl
  | .bool true, .bool true, _ => rfl
  | .bool false, .bool false, _ => rfl
  | .num _, .num _, _ => rfl
  | .arr _, .arr _, _ => rfl
  | .obj _, .obj _, _ => rfl

theorem Alike.textAt? (h : v.Alike w) (key : String) : v.textAt? key = w.textAt? key := by
  have hget := h.get? key
  unfold Value.textAt?
  generalize v.get? key = a at hget ⊢
  generalize w.get? key = b at hget ⊢
  cases hget with
  | none => rfl
  | some h => exact h.string?

end Value

end LanguageClient.Json

namespace LanguageClient.Rpc
open Json

private theorem alike_of_render {v w : Value} (h : v.render = w.render) : v.Alike w :=
  String.ofList_inj.mp h

theorem Notification.wire_inj {n m : Notification} (h : n.wire = m.wire) :
    n.method = m.method ∧ Option.Rel Value.Alike n.params m.params := by
  obtain ⟨j, f, p⟩ := n
  obtain ⟨k, g, q⟩ := m
  have hobj := Value.Alike.obj (alike_of_render h)
  obtain _ | ⟨_, hobj⟩ := hobj
  obtain _ | ⟨hmethod, hobj⟩ := hobj
  refine ⟨Value.Alike.str hmethod.2, ?_⟩
  cases p with
  | none =>
    cases q with
    | none => exact .none
    | some q => cases hobj
  | some p =>
    cases q with
    | none => cases hobj
    | some q =>
      obtain _ | ⟨hparams, _⟩ := hobj
      exact .some hparams.2

/-- The frame of a request tells its id. -/
theorem Request.wire_inj {n k : Int} {method other : String} {params given : Option Value}
    (h : (Request.new n method params).wire = (Request.new k other given).wire) : n = k := by
  have hobj := Value.Alike.obj (alike_of_render h)
  obtain _ | ⟨_, hobj⟩ := hobj
  obtain _ | ⟨hid, _⟩ := hobj
  exact Value.Alike.int hid.2

/-- No frame is the text of both a request and a notification. -/
theorem Request.wire_ne_notification (r : Request) (n : Notification) : r.wire ≠ n.wire := by
  intro h
  have hobj := Value.Alike.obj (alike_of_render h)
  obtain _ | ⟨_, hobj⟩ := hobj
  obtain _ | ⟨hid, _⟩ := hobj
  have hkey : "id" = "method" := hid.1
  exact absurd hkey (by decide)

end LanguageClient.Rpc
