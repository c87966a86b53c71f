import HarborSql.Theory.JsonText
import HarborSql.Theory.Utf8
import HarborSql.Verify.Results.Displayable
import Mathlib.Data.String.Basic
import Mathlib.Tactic.IntervalCases

/-! Nested values are rendered as JSON texts, which tell them apart up to the order of the entries
of their maps. -/

namespace HarborSql

open JsonText (Doc Unescapes)

/-! ## Types and values -/

/-- Booleans, integers, strings and binary values, as far as they are rendered. -/
def DataType.isScalar : DataType → Bool
  | .boolean | .int8 | .int16 | .int32 | .int64 | .uint8 | .uint16 | .uint32 | .uint64
  | .utf8 | .largeUtf8 | .utf8View | .binary | .largeBinary | .fixedSizeBinary _ => true
  | _ => false

def DataType.isText : DataType → Bool
  | .utf8 | .largeUtf8 | .utf8View => true
  | _ => false

theorem DataType.not_isOther_of_isScalar {dt : DataType} (h : dt.isScalar) :
    dt.isOther = false := by
  cases dt <;> first | rfl | cases h

/-- The types built from scalars as lists, structs and maps with keys that are strings. -/
inductive DataType.Nests : DataType → Prop
  | scalar {dt} : dt.isScalar → Nests dt
  | list {item} : Nests item → Nests (.list item)
  | largeList {item} : Nests item → Nests (.largeList item)
  | fixedSizeList {item size} : Nests item → Nests (.fixedSizeList item size)
  | map {key value sorted} : key.isText → Nests value → Nests (.map key value sorted)
  | struct {fields} : (∀ f ∈ fields, Nests f.2) → Nests (.struct fields)

namespace Value

/-- No `UInt64` is above `i64::MAX`, and the keys of every map are distinct strings. -/
inductive WellKeyed : Value → Prop
  | uint64 {v} : v.toNat < 2 ^ 63 → WellKeyed (uint64 v)
  | list {vs} : (∀ v ∈ vs, WellKeyed v) → WellKeyed (list vs)
  | map {es} : (∀ e ∈ es, ∃ k, e.1 = string k) → (es.map (·.1)).Nodup →
    (∀ e ∈ es, WellKeyed e.2) → WellKeyed (map es)
  | struct {vs} : (∀ v ∈ vs, WellKeyed v) → WellKeyed (struct vs)
  | unbounded {v} : v.unbounded → WellKeyed v

theorem WellKeyed.of_uint64 {n : UInt64} (h : (Value.uint64 n).WellKeyed) : n.toNat < 2 ^ 63 := by
  cases h with
  | uint64 h => exact h
  | unbounded h => cases h

theorem WellKeyed.of_list {vs : List Value} (h : (Value.list vs).WellKeyed) : ∀ v ∈ vs, WellKeyed v := by
  cases h with
  | list h => exact h
  | unbounded h => cases h

theorem WellKeyed.of_map {es : List (Value × Value)} (h : (Value.map es).WellKeyed) :
    (∀ e ∈ es, ∃ k, e.1 = string k) ∧ (es.map (·.1)).Nodup ∧ ∀ e ∈ es, WellKeyed e.2 := by
  cases h with
  | map hk hd hv => exact ⟨hk, hd, hv⟩
  | unbounded h => cases h

theorem WellKeyed.of_struct {vs : List Value} (h : (Value.struct vs).WellKeyed) :
    ∀ v ∈ vs, WellKeyed v := by
  cases h with
  | struct h => exact h
  | unbounded h => cases h

/-- Equal up to the order of the entries of maps, at any depth. -/
inductive SameUpToOrder : Value → Value → Prop
  | rfl {v} : SameUpToOrder v v
  | list {vs ws} : vs.length = ws.length → (∀ p ∈ vs.zip ws, SameUpToOrder p.1 p.2) →
    SameUpToOrder (list vs) (list ws)
  | map {es es' fs fs'} : es.Perm es' → fs.Perm fs' → es'.length = fs'.length →
    (∀ p ∈ es'.zip fs', p.1.1 = p.2.1) → (∀ p ∈ es'.zip fs', SameUpToOrder p.1.2 p.2.2) →
    SameUpToOrder (map es) (map fs)
  | struct {vs ws} : vs.length = ws.length → (∀ p ∈ vs.zip ws, SameUpToOrder p.1 p.2) →
    SameUpToOrder (struct vs) (struct ws)

def keyText : Value → String
  | string s => s
  | _ => ""

end Value

/-! ## The documents of values -/

/-- The members of an object in the order of the bytes of their keys. -/
def sortedMembers (members : List (String × Doc)) : List (String × Doc) :=
  members.insertionSort fun a b => utf8 a.1 ≤ utf8 b.1

mutual

/-- What a value of a type is as a JSON document. -/
def jsonDoc : DataType → Value → Doc
  | _, .null => .null
  | _, .boolean v => .bool v
  | _, .int8 v => .number v.toInt 0
  | _, .int16 v => .number v.toInt 0
  | _, .int32 v => .number v.toInt 0
  | _, .int64 v => .number v.toInt 0
  | _, .uint8 v => .number v.toNat 0
  | _, .uint16 v => .number v.toNat 0
  | _, .uint32 v => .number v.toNat 0
  | _, .uint64 v => .number v.toNat 0
  | _, .string v => .string v
  | _, .binary v => .array (v.map fun b => .number b.toNat 0)
  | .list item, .list vs | .largeList item, .list vs | .fixedSizeList item _, .list vs =>
    .array (vs.map (jsonDoc item))
  | .map _ value _, .map es =>
    .object (sortedMembers (es.map fun e => (e.1.keyText, jsonDoc value e.2)))
  | .struct fields, .struct vs => .object (fieldDocs fields vs)
  | _, _ => .null

def fieldDocs : List (String × DataType) → List Value → List (String × Doc)
  | (name, dt) :: fields, v :: vs => (name, jsonDoc dt v) :: fieldDocs fields vs
  | _, _ => []

end

/-! ## The escapes of serde_json -/

def escapes (c : Char) : List Char := (escapeChar c).toList

theorem readChar_control (n : Nat) (hn : n < 32) (cs : List Char) :
    JsonText.readChar (escapes (.ofNat n) ++ cs) = some (.ofNat n, cs) := by
  interval_cases n <;> rfl

theorem unescapes : Unescapes escapes := by
  intro c cs
  by_cases hcontrol : c.toNat < 32
  · have h := readChar_control c.toNat hcontrol cs
    rwa [Char.ofNat_toNat] at h
  by_cases hquote : c = '"'
  · rw [hquote]
    rfl
  by_cases hslash : c = '\\'
  · rw [hslash]
    rfl
  have hplain : escapes c = [c] := by
    have hne34 : c.toNat ≠ 0x22 := fun h => hquote (Char.toNat_inj.mp h)
    have hne92 : c.toNat ≠ 0x5c := fun h => hslash (Char.toNat_inj.mp h)
    unfold escapes escapeChar
    split
    case h_8 => rw [if_neg hcontrol, Char.toString, String.toList_singleton]
    all_goals omega
  rw [hplain, List.singleton_append, JsonText.readChar, if_neg hslash, if_neg (by simp [*])]

theorem toList_jsonString (s : String) : (jsonString s).toList = JsonText.quoted escapes s := by
  rw [jsonString, String.toList_append, String.toList_append, String.toList_join, List.flatMap_map]
  rfl

/-! ## How values are displayed -/

def printed (d : Doc) : String := .ofList (JsonText.text escapes d)

theorem toList_printed (d : Doc) : (printed d).toList = JsonText.text escapes d :=
  String.toList_ofList

theorem printed_number (n : Int) : printed (.number n 0) = toString n := by
  rw [← String.toList_inj, toList_printed, JsonText.text, if_pos rfl, List.append_nil]
  rfl

theorem printed_natNumber (n : Nat) : printed (.number n 0) = toString n := printed_number n

theorem bracketed_printed (docs : List Doc) :
    bracketed (docs.map printed) = printed (.array docs) := by
  rw [← String.toList_inj, toList_printed, JsonText.text, JsonText.itemsText_eq, bracketed,
    String.toList_append, String.toList_append, String.toList_intercalate, List.map_map]
  have h : String.toList ∘ printed = JsonText.text escapes := funext toList_printed
  rw [h]
  rfl

theorem braced_printed (members : List (String × Doc)) :
    braced (members.map fun m => jsonString m.1 ++ ":" ++ printed m.2) =
      printed (.object members) := by
  rw [← String.toList_inj, toList_printed, JsonText.text, JsonText.membersText_eq, braced,
    String.toList_append, String.toList_append, String.toList_intercalate, List.map_map]
  have h : String.toList ∘ (fun m : String × Doc => jsonString m.1 ++ ":" ++ printed m.2) =
      JsonText.memberText escapes := by
    funext m
    rw [Function.comp_apply, String.toList_append, String.toList_append, toList_jsonString,
      toList_printed, JsonText.memberText, List.append_assoc]
    rfl
  rw [h]
  rfl

theorem utf8_le_iff {s t : String} : utf8 s ≤ utf8 t ↔ s ≤ t := by
  have hlt : utf8 t < utf8 s ↔ t < s := by
    rw [utf8_eq_flatMap, utf8_eq_flatMap, flatMap_utf8EncodeChar_lt_iff]
    rfl
  exact not_congr hlt

theorem renderPairs_printed (members : List (String × Doc)) :
    renderPairs (members.map fun m => (m.1, printed m.2)) =
      printed (.object (sortedMembers members)) := by
  have hsort : (members.map fun m => (m.1, printed m.2)).insertionSort
      (fun left right => left.1 ≤ right.1) =
      (sortedMembers members).map fun m => (m.1, printed m.2) := by
    symm
    apply List.map_insertionSort
    exact fun a _ b _ => utf8_le_iff
  rw [renderPairs, hsort, List.map_map, ← braced_printed]
  rfl

theorem jsonBytes_printed (bytes : Bytes) :
    jsonBytes bytes = printed (.array (bytes.map fun b => .number b.toNat 0)) := by
  rw [← bracketed_printed, List.map_map]
  have h : printed ∘ (fun b : UInt8 => Doc.number b.toNat 0) = fun b => toString b.toNat :=
    funext fun b => printed_natNumber b.toNat
  rw [h]
  rfl

section
variable {F : Formatting} {dt : DataType} {v w : Value} {row : Nat}

theorem toString_toInt64 {n : UInt64} (h : n.toNat < 2 ^ 63) :
    toString n.toInt64 = toString n.toNat := by
  have hint : n.toInt64.toInt = (n.toNat : Int) :=
    BitVec.toInt_eq_toNat_of_lt (x := n.toBitVec) (by
      rw [UInt64.toNat_toBitVec]
      omega)
  have htext : toString n.toInt64 = toString n.toInt64.toInt := rfl
  rw [htext, hint]
  rfl

theorem display_scalar (hdt : dt.isScalar) (hv : v.HasType dt) (hk : v.WellKeyed) :
    databricksDisplayValue F dt row v = .ok (printed (jsonDoc dt v)) := by
  cases hv with
  | null => cases dt <;> rfl
  | @boolean b => cases b <;> rfl
  | @int8 n =>
    have h : toString n.toInt32 = toString n.toInt := congrArg toString (Int8.toInt_toInt32 n)
    rw [jsonDoc, printed_number, ← h]
    rfl
  | @int16 n =>
    have h : toString n.toInt32 = toString n.toInt := congrArg toString (Int16.toInt_toInt32 n)
    rw [jsonDoc, printed_number, ← h]
    rfl
  | int32 =>
    rw [jsonDoc, printed_number]
    rfl
  | int64 =>
    rw [jsonDoc, printed_number]
    rfl
  | @uint8 n =>
    have h : n.toUInt64.toNat < 2 ^ 63 := by
      rw [UInt8.toNat_toUInt64]
      exact Nat.lt_trans n.toNat_lt (by decide)
    rw [jsonDoc, printed_natNumber, ← UInt8.toNat_toUInt64, ← toString_toInt64 h]
    rfl
  | @uint16 n =>
    have h : n.toUInt64.toNat < 2 ^ 63 := by
      rw [UInt16.toNat_toUInt64]
      exact Nat.lt_trans n.toNat_lt (by decide)
    rw [jsonDoc, printed_natNumber, ← UInt16.toNat_toUInt64, ← toString_toInt64 h]
    rfl
  | @uint32 n =>
    have h : n.toUInt64.toNat < 2 ^ 63 := by
      rw [UInt32.toNat_toUInt64]
      exact Nat.lt_trans n.toNat_lt (by decide)
    rw [jsonDoc, printed_natNumber, ← UInt32.toNat_toUInt64, ← toString_toInt64 h]
    rfl
  | @uint64 n =>
    have h : arrowValueToI64 F .uint64 (.uint64 n) = .ok n.toInt64 := if_pos hk.of_uint64
    rw [jsonDoc, printed_natNumber, ← toString_toInt64 hk.of_uint64]
    exact Except.bind_eq_ok.mpr ⟨_, h, rfl⟩
  | @utf8 s | @largeUtf8 s | @utf8View s =>
    have h : printed (.string s) = jsonString s := by
      rw [← String.toList_inj, toList_printed, toList_jsonString, JsonText.text]
    rw [jsonDoc, h]
    rfl
  | binary | largeBinary | fixedSizeBinary =>
    rw [jsonDoc, ← jsonBytes_printed]
    rfl
  | other hother =>
    rw [DataType.not_isOther_of_isScalar hdt] at hother
    cases hother
  | _ => cases hdt

theorem display_list {item : DataType} {vs : List Value}
    (h : ∀ v ∈ vs, ∀ row, databricksDisplayValue F item row v = .ok (printed (jsonDoc item v))) :
    (vs.zipIdx.mapM fun (v, row) => databricksDisplayValue F item row v) =
      .ok ((vs.map (jsonDoc item)).map printed) := by
  rw [List.map_map]
  exact Except.mapM_zipIdx_eq_map h

theorem display_struct {fields : List (String × DataType)} {vs : List Value}
    (h : ∀ p ∈ fields.zip vs,
      databricksDisplayValue F p.1.2 row p.2 = .ok (printed (jsonDoc p.1.2 p.2))) :
    databricksDisplayStruct F fields row vs =
      .ok ((fieldDocs fields vs).map fun m => jsonString m.1 ++ ":" ++ printed m.2) := by
  induction fields generalizing vs with
  | nil => cases vs <;> rfl
  | cons f fields ih =>
    cases vs with
    | nil => rfl
    | cons v vs =>
      rw [List.zip_cons_cons, List.forall_mem_cons] at h
      exact Except.bind_eq_ok.mpr ⟨_, h.1, Except.bind_eq_ok.mpr ⟨_, ih h.2, rfl⟩⟩

theorem mapKey_string {key : DataType} {s : String} {display : Result String} (hkey : key.isText) :
    mapKey F key (.string s) display = .ok s := by
  cases key <;> first | rfl | cases hkey

theorem display_map {key value : DataType} {es : List (Value × Value)} (hkey : key.isText)
    (hk : ∀ e ∈ es, ∃ k, e.1 = .string k)
    (h : ∀ e ∈ es, ∀ row,
      databricksDisplayValue F value row e.2 = .ok (printed (jsonDoc value e.2))) :
    (es.zipIdx.mapM fun ((k, v), row) => do
      let key ← mapKey F key k (databricksDisplayValue F key row k)
      let value ← databricksDisplayValue F value row v
      return (key, value)) =
      .ok ((es.map fun e => (e.1.keyText, jsonDoc value e.2)).map fun m => (m.1, printed m.2)) := by
  rw [List.map_map]
  apply Except.mapM_zipIdx_eq_map
  rintro ⟨k, v⟩ he row
  obtain ⟨s, rfl⟩ := hk _ he
  exact Except.bind_eq_ok.mpr
    ⟨s, mapKey_string hkey, Except.bind_eq_ok.mpr ⟨_, h _ he row, rfl⟩⟩

/-- A value is displayed as the text of its document. -/
theorem display_eq (hdt : dt.Nests) (hv : v.HasType dt) (hk : v.WellKeyed) :
    databricksDisplayValue F dt row v = .ok (printed (jsonDoc dt v)) := by
  induction hdt generalizing v row with
  | scalar hdt => exact display_scalar hdt hv hk
  | list _ ih =>
    cases hv with
    | null => rfl
    | other hother => cases hother
    | list hv =>
      have h := display_list fun v hm _ => ih (hv v hm) (hk.of_list v hm)
      rw [jsonDoc, ← bracketed_printed]
      exact Except.bind_eq_ok.mpr ⟨_, h, rfl⟩
  | largeList _ ih =>
    cases hv with
    | null => rfl
    | other hother => cases hother
    | largeList hv =>
      have h := display_list fun v hm _ => ih (hv v hm) (hk.of_list v hm)
      rw [jsonDoc, ← bracketed_printed]
      exact Except.bind_eq_ok.mpr ⟨_, h, rfl⟩
  | fixedSizeList _ ih =>
    cases hv with
    | null => rfl
    | other hother => cases hother
    | fixedSizeList _ hv =>
      have h := display_list fun v hm _ => ih (hv v hm) (hk.of_list v hm)
      rw [jsonDoc, ← bracketed_printed]
      exact Except.bind_eq_ok.mpr ⟨_, h, rfl⟩
  | map hkey _ ih =>
    cases hv with
    | null => rfl
    | other hother => cases hother
    | map _ hv =>
      have h := display_map hkey hk.of_map.1 fun e he _ => ih (hv e he) (hk.of_map.2.2 e he)
      rw [jsonDoc, ← renderPairs_printed]
      exact Except.bind_eq_ok.mpr ⟨_, h, rfl⟩
  | struct _ ih =>
    cases hv with
    | null => rfl
    | other hother => cases hother
    | struct _ hv =>
      rw [jsonDoc, ← braced_printed]
      refine Except.bind_eq_ok.mpr ⟨_, display_struct fun p hp => ?_, rfl⟩
      exact ih p.1 (List.of_mem_zip hp).1 (hv p hp) (hk.of_struct p.2 (List.of_mem_zip hp).2)

/-! ## What the documents tell apart -/

/-- Two lists that are the same after a function are the same pointwise after it. -/
theorem forall_zip_of_map_eq {α β : Type} {f : α → β} {xs ys : List α} (h : xs.map f = ys.map f) :
    xs.length = ys.length ∧ ∀ p ∈ xs.zip ys, f p.1 = f p.2 := by
  induction xs generalizing ys with
  | nil =>
    cases ys with
    | nil => exact ⟨rfl, List.forall_mem_nil _⟩
    | cons => cases h
  | cons x xs ih =>
    cases ys with
    | nil => cases h
    | cons y ys =>
      obtain ⟨hxy, h⟩ := List.cons.inj h
      obtain ⟨hlen, hzip⟩ := ih h
      exact ⟨congrArg Nat.succ hlen, List.forall_mem_cons.mpr ⟨hxy, hzip⟩⟩

theorem map_eq_of_forall_zip {α β : Type} {f : α → β} {xs ys : List α}
    (hlen : xs.length = ys.length) (h : ∀ p ∈ xs.zip ys, f p.1 = f p.2) : xs.map f = ys.map f := by
  induction xs generalizing ys with
  | nil =>
    cases ys with
    | nil => rfl
    | cons => cases hlen
  | cons x xs ih =>
    cases ys with
    | nil => cases hlen
    | cons y ys =>
      rw [List.zip_cons_cons, List.forall_mem_cons] at h
      rw [List.map_cons, List.map_cons, h.1, ih (Nat.succ.inj hlen) h.2]

theorem fieldDocs_inj {fields : List (String × DataType)} {vs ws : List Value}
    (hlv : vs.length = fields.length) (hlw : ws.length = fields.length)
    (h : fieldDocs fields vs = fieldDocs fields ws) : ∀ p ∈ vs.zip ws, ∃ f,
      (f, p.1) ∈ fields.zip vs ∧ (f, p.2) ∈ fields.zip ws ∧ jsonDoc f.2 p.1 = jsonDoc f.2 p.2 := by
  induction fields generalizing vs ws with
  | nil =>
    rw [List.length_eq_zero_iff.mp hlv]
    exact List.forall_mem_nil _
  | cons f fields ih =>
    obtain ⟨v, vs, rfl⟩ := List.exists_cons_of_length_eq_add_one hlv
    obtain ⟨w, ws, rfl⟩ := List.exists_cons_of_length_eq_add_one hlw
    rw [fieldDocs, fieldDocs, List.cons.injEq] at h
    rw [List.zip_cons_cons, List.zip_cons_cons, List.zip_cons_cons, List.forall_mem_cons]
    refine ⟨⟨f, List.mem_cons_self, List.mem_cons_self, congrArg Prod.snd h.1⟩, fun p hp => ?_⟩
    obtain ⟨g, hv, hw, hdoc⟩ := ih (Nat.succ.inj hlv) (Nat.succ.inj hlw) h.2 p hp
    exact ⟨g, List.mem_cons_of_mem _ hv, List.mem_cons_of_mem _ hw, hdoc⟩

theorem fieldDocs_eq {fields : List (String × DataType)} {vs ws : List Value}
    (hlv : vs.length = fields.length) (hlw : vs.length = ws.length)
    (h : ∀ p ∈ vs.zip ws, ∀ f, (f, p.1) ∈ fields.zip vs → jsonDoc f.2 p.1 = jsonDoc f.2 p.2) :
    fieldDocs fields vs = fieldDocs fields ws := by
  induction fields generalizing vs ws with
  | nil => cases vs <;> cases ws <;> rfl
  | cons f fields ih =>
    obtain ⟨v, vs, rfl⟩ := List.exists_cons_of_length_eq_add_one hlv
    obtain ⟨w, ws, rfl⟩ := List.exists_cons_of_length_eq_add_one hlw.symm
    rw [List.zip_cons_cons, List.zip_cons_cons, List.forall_mem_cons] at h
    have hrest := ih (Nat.succ.inj hlv) (Nat.succ.inj hlw) fun p hp g hg =>
      h.2 p hp g (List.mem_cons_of_mem _ hg)
    rw [fieldDocs, fieldDocs, h.1 f List.mem_cons_self, hrest]

/-! ### Members -/

theorem sortedMembers_map {α : Type} (g : α → String × Doc) (xs : List α) :
    sortedMembers (xs.map g) =
      (xs.insertionSort fun a b => utf8 (g a).1 ≤ utf8 (g b).1).map g := by
  symm
  apply List.map_insertionSort
  exact fun a _ b _ => Iff.rfl

theorem pairwise_sortedMembers (ms : List (String × Doc)) :
    (sortedMembers ms).Pairwise fun a b => a.1 ≤ b.1 := by
  have : Std.Total fun a b : String × Doc => a.1 ≤ b.1 := ⟨fun a b => le_total a.1 b.1⟩
  have : IsTrans (String × Doc) fun a b => a.1 ≤ b.1 := ⟨fun _ _ _ => le_trans⟩
  have h : (sortedMembers ms).map id =
      (ms.map id).insertionSort fun a b => a.1 ≤ b.1 := by
    apply List.map_insertionSort
    exact fun a _ b _ => utf8_le_iff
  rw [List.map_id, List.map_id] at h
  rw [h]
  exact List.pairwise_insertionSort _ ms

/-- Members with distinct keys are sorted in one way. -/
theorem sortedMembers_eq_of_perm {ms ns : List (String × Doc)} (h : ms.Perm ns)
    (hd : (ms.map (·.1)).Nodup) : sortedMembers ms = sortedMembers ns := by
  have hsorted := pairwise_sortedMembers
  have hperm : (sortedMembers ms).Perm (sortedMembers ns) :=
    (List.perm_insertionSort _ ms).trans (h.trans (List.perm_insertionSort _ ns).symm)
  refine List.Perm.eq_of_pairwise ?_ (hsorted ms) (hsorted ns) hperm
  intro a b ha hb hab hba
  have ha' : a ∈ ms := (List.perm_insertionSort _ ms).mem_iff.mp ha
  have hb' : b ∈ ms := h.mem_iff.mpr ((List.perm_insertionSort _ ns).mem_iff.mp hb)
  exact List.inj_on_of_nodup_map hd ha' hb' (le_antisymm hab hba)

theorem keyText_inj {k l : Value} (hk : ∃ s, k = .string s) (hl : ∃ s, l = .string s)
    (h : k.keyText = l.keyText) : k = l := by
  obtain ⟨s, rfl⟩ := hk
  obtain ⟨t, rfl⟩ := hl
  exact congrArg Value.string h

/-! ### Values -/

theorem eq_of_jsonDoc_scalar (hdt : dt.isScalar) (hv : v.HasType dt) (hw : w.HasType dt)
    (h : jsonDoc dt v = jsonDoc dt w) : v = w := by
  have hother := DataType.not_isOther_of_isScalar hdt
  cases hv with
  | null =>
    cases hw with
    | null => rfl
    | other ho => cases hother.symm.trans ho
    | _ => first | (cases h; done) | exact nomatch hdt
  | @boolean a =>
    cases hw with
    | null => cases h
    | boolean => cases h; rfl
    | other ho => cases ho
  | @int8 a =>
    cases hw with
    | null => cases h
    | int8 => exact congrArg Value.int8 (Int8.toInt_inj.mp (Doc.number.inj h).1)
    | other ho => cases ho
  | @int16 a =>
    cases hw with
    | null => cases h
    | int16 => exact congrArg Value.int16 (Int16.toInt_inj.mp (Doc.number.inj h).1)
    | other ho => cases ho
  | @int32 a =>
    cases hw with
    | null => cases h
    | int32 => exact congrArg Value.int32 (Int32.toInt_inj.mp (Doc.number.inj h).1)
    | other ho => cases ho
  | @int64 a =>
    cases hw with
    | null => cases h
    | int64 => exact congrArg Value.int64 (Int64.toInt_inj.mp (Doc.number.inj h).1)
    | other ho => cases ho
  | @uint8 a =>
    cases hw with
    | null => cases h
    | uint8 => exact congrArg Value.uint8 (UInt8.toNat_inj.mp (Int.ofNat.inj (Doc.number.inj h).1))
    | other ho => cases ho
  | @uint16 a =>
    cases hw with
    | null => cases h
    | uint16 =>
      exact congrArg Value.uint16 (UInt16.toNat_inj.mp (Int.ofNat.inj (Doc.number.inj h).1))
    | other ho => cases ho
  | @uint32 a =>
    cases hw with
    | null => cases h
    | uint32 =>
      exact congrArg Value.uint32 (UInt32.toNat_inj.mp (Int.ofNat.inj (Doc.number.inj h).1))
    | other ho => cases ho
  | @uint64 a =>
    cases hw with
    | null => cases h
    | uint64 =>
      exact congrArg Value.uint64 (UInt64.toNat_inj.mp (Int.ofNat.inj (Doc.number.inj h).1))
    | other ho => cases ho
  | @utf8 a | @largeUtf8 a | @utf8View a =>
    cases hw with
    | null => cases h
    | other ho => cases ho
    | _ => exact congrArg Value.string (Doc.string.inj h)
  | @binary a | @largeBinary a | @fixedSizeBinary _ a =>
    have byte : Function.Injective fun b : UInt8 => Doc.number b.toNat 0 := fun a b h =>
      UInt8.toNat_inj.mp (Int.ofNat.inj (Doc.number.inj h).1)
    cases hw with
    | null => cases h
    | other ho => cases ho
    | _ => exact congrArg Value.binary (List.map_injective_iff.mpr byte (Doc.array.inj h))
  | other ho => cases hother.symm.trans ho
  | _ => cases hdt

theorem sameUpToOrder_list {item : DataType} {vs ws : List Value}
    (ih : ∀ v w : Value, v.HasType item → w.HasType item → v.WellKeyed → w.WellKeyed →
      jsonDoc item v = jsonDoc item w → v.SameUpToOrder w)
    (hv : ∀ v ∈ vs, v.HasType item) (hw : ∀ w ∈ ws, w.HasType item)
    (hkv : (Value.list vs).WellKeyed) (hkw : (Value.list ws).WellKeyed)
    (h : vs.map (jsonDoc item) = ws.map (jsonDoc item)) :
    (Value.list vs).SameUpToOrder (.list ws) := by
  obtain ⟨hlen, hzip⟩ := forall_zip_of_map_eq h
  refine .list hlen fun p hp => ?_
  obtain ⟨hp1, hp2⟩ := List.of_mem_zip hp
  exact ih p.1 p.2 (hv _ hp1) (hw _ hp2) (hkv.of_list _ hp1) (hkw.of_list _ hp2) (hzip p hp)

theorem sameUpToOrder_map {value : DataType} {es fs : List (Value × Value)}
    (ih : ∀ v w : Value, v.HasType value → w.HasType value → v.WellKeyed → w.WellKeyed →
      jsonDoc value v = jsonDoc value w → v.SameUpToOrder w)
    (hv : ∀ e ∈ es, e.2.HasType value) (hw : ∀ f ∈ fs, f.2.HasType value)
    (hkv : (Value.map es).WellKeyed) (hkw : (Value.map fs).WellKeyed)
    (h : sortedMembers (es.map fun e => (e.1.keyText, jsonDoc value e.2)) =
      sortedMembers (fs.map fun e => (e.1.keyText, jsonDoc value e.2))) :
    (Value.map es).SameUpToOrder (.map fs) := by
  rw [sortedMembers_map, sortedMembers_map] at h
  obtain ⟨hlen, hzip⟩ := forall_zip_of_map_eq h
  refine .map (List.perm_insertionSort _ es).symm (List.perm_insertionSort _ fs).symm hlen ?_ ?_
  all_goals
    intro p hp
    obtain ⟨hp1, hp2⟩ := List.of_mem_zip hp
    have hp1 := (List.perm_insertionSort _ es).mem_iff.mp hp1
    have hp2 := (List.perm_insertionSort _ fs).mem_iff.mp hp2
    have heq := Prod.mk.inj (hzip p hp)
  · exact keyText_inj (hkv.of_map.1 _ hp1) (hkw.of_map.1 _ hp2) heq.1
  · exact ih _ _ (hv _ hp1) (hw _ hp2) (hkv.of_map.2.2 _ hp1) (hkw.of_map.2.2 _ hp2) heq.2

/-- Values with one document are the same up to the order of map entries. -/
theorem sameUpToOrder_of_jsonDoc (hdt : dt.Nests) (hv : v.HasType dt) (hw : w.HasType dt)
    (hkv : v.WellKeyed) (hkw : w.WellKeyed) (h : jsonDoc dt v = jsonDoc dt w) :
    v.SameUpToOrder w := by
  induction hdt generalizing v w with
  | scalar hdt =>
    rw [eq_of_jsonDoc_scalar hdt hv hw h]
    exact .rfl
  | list _ ih =>
    cases hv with
    | null =>
      cases hw with
      | null => exact .rfl
      | other ho => cases ho
      | list => cases h
    | other ho => cases ho
    | list hv =>
      cases hw with
      | null => cases h
      | other ho => cases ho
      | list hw => exact sameUpToOrder_list @ih hv hw hkv hkw (Doc.array.inj h)
  | largeList _ ih =>
    cases hv with
    | null =>
      cases hw with
      | null => exact .rfl
      | other ho => cases ho
      | largeList => cases h
    | other ho => cases ho
    | largeList hv =>
      cases hw with
      | null => cases h
      | other ho => cases ho
      | largeList hw => exact sameUpToOrder_list @ih hv hw hkv hkw (Doc.array.inj h)
  | fixedSizeList _ ih =>
    cases hv with
    | null =>
      cases hw with
      | null => exact .rfl
      | other ho => cases ho
      | fixedSizeList => cases h
    | other ho => cases ho
    | fixedSizeList _ hv =>
      cases hw with
      | null => cases h
      | other ho => cases ho
      | fixedSizeList _ hw => exact sameUpToOrder_list @ih hv hw hkv hkw (Doc.array.inj h)
  | map hkey _ ih =>
    cases hv with
    | null =>
      cases hw with
      | null => exact .rfl
      | other ho => cases ho
      | map => cases h
    | other ho => cases ho
    | map _ hv =>
      cases hw with
      | null => cases h
      | other ho => cases ho
      | map _ hw => exact sameUpToOrder_map @ih hv hw hkv hkw (Doc.object.inj h)
  | struct _ ih =>
    cases hv with
    | null =>
      cases hw with
      | null => exact .rfl
      | other ho => cases ho
      | struct => cases h
    | other ho => cases ho
    | struct hlv hv =>
      cases hw with
      | null => cases h
      | other ho => cases ho
      | struct hlw hw =>
        refine .struct (hlv.trans hlw.symm) fun p hp => ?_
        obtain ⟨f, hf1, hf2, hdoc⟩ := fieldDocs_inj hlv hlw (Doc.object.inj h) p hp
        obtain ⟨hp1, hp2⟩ := List.of_mem_zip hp
        exact ih f (List.of_mem_zip hf1).1 (hv _ hf1) (hw _ hf2) (hkv.of_struct _ hp1)
          (hkw.of_struct _ hp2) hdoc

/-- The order of map entries does not show in the document. -/
theorem jsonDoc_eq_of_same (hsame : v.SameUpToOrder w) (hv : v.HasType dt) (hk : v.WellKeyed) :
    jsonDoc dt v = jsonDoc dt w := by
  induction hsame generalizing dt with
  | rfl => rfl
  | @list vs ws hlen _ ih =>
    have hdocs {item : DataType} (hv : ∀ v ∈ vs, v.HasType item) :
        vs.map (jsonDoc item) = ws.map (jsonDoc item) := by
      refine map_eq_of_forall_zip hlen fun p hp => ?_
      exact ih p hp (hv _ (List.of_mem_zip hp).1) (hk.of_list _ (List.of_mem_zip hp).1)
    cases hv with
    | list hv | largeList hv | fixedSizeList _ hv =>
      rw [jsonDoc, jsonDoc, hdocs hv]
    | listView | largeListView => rfl
  | @map es es' fs fs' hes hfs hlen hkeys _ ih =>
    cases hv with
    | @map key value sorted _ _ hv =>
      obtain ⟨hstring, hnodup, hvalues⟩ := hk.of_map
      have hdocs : (es'.map fun e => (e.1.keyText, jsonDoc value e.2)) =
          fs'.map fun e => (e.1.keyText, jsonDoc value e.2) := by
        refine map_eq_of_forall_zip hlen fun p hp => ?_
        have hp1 := hes.mem_iff.mpr (List.of_mem_zip hp).1
        rw [hkeys p hp, ih p hp (hv _ hp1) (hvalues _ hp1)]
      have hd : ((es.map fun e => (e.1.keyText, jsonDoc value e.2)).map (·.1)).Nodup := by
        rw [List.map_map]
        have hkeys : (es.map (·.1)).map Value.keyText = es.map (Value.keyText ∘ (·.1)) :=
          List.map_map
        refine hkeys ▸ hnodup.map_on fun k hk l hl => ?_
        obtain ⟨e, he, rfl⟩ := List.mem_map.mp hk
        obtain ⟨f, hf, rfl⟩ := List.mem_map.mp hl
        exact keyText_inj (hstring e he) (hstring f hf)
      have hfs := hfs.map fun e : Value × Value => (e.1.keyText, jsonDoc value e.2)
      have hes := hes.map fun e : Value × Value => (e.1.keyText, jsonDoc value e.2)
      rw [jsonDoc, jsonDoc, sortedMembers_eq_of_perm (hes.trans (hdocs ▸ hfs.symm)) hd]
  | @struct vs ws hlen _ ih =>
    cases hv with
    | struct hlv hv =>
      rw [jsonDoc, jsonDoc, fieldDocs_eq hlv hlen]
      intro p hp f hf
      exact ih p hp (hv _ hf) (hk.of_struct _ (List.of_mem_zip hp).1)

end

/-- A nested value is displayed as a JSON text of its document, the members of maps sorted by the
bytes of their keys, and the texts of two values are the same exactly if the values are the same
up to the order of map entries. -/
theorem rendersFaithfully (F : Formatting) (dt : DataType) (v : Value) (hdt : dt.Nests)
    (hv : v.HasType dt) (hk : v.WellKeyed) :
    ∃ text, (∀ row, databricksDisplayValue F dt row v = .ok text) ∧
      JsonText.parse text = some (jsonDoc dt v) ∧
      ∀ w, w.HasType dt → w.WellKeyed → ∀ row,
        (databricksDisplayValue F dt row w = .ok text ↔ v.SameUpToOrder w) := by
  refine ⟨printed (jsonDoc dt v), fun row => display_eq hdt hv hk,
    JsonText.parse_text unescapes _, fun w hw hkw row => ?_⟩
  rw [display_eq hdt hw hkw, Except.ok.injEq]
  constructor
  · intro h
    have htext := congrArg String.toList h
    rw [toList_printed, toList_printed] at htext
    exact sameUpToOrder_of_jsonDoc hdt hv hw hk hkw (JsonText.text_injective unescapes htext).symm
  · intro h
    rw [jsonDoc_eq_of_same h hv hk]

/-- A list and a map in a struct. -/
def nestedType : DataType :=
  .struct [("numbers", .list .int32), ("flags", .map .utf8 .boolean false)]

def nestedValue : Value :=
  .struct [.list [.int32 (-1), .null],
    .map [(.string "b", .boolean true), (.string "a\"", .null)]]

theorem nestedType_nests : nestedType.Nests := by
  refine .struct fun f hf => ?_
  rcases List.mem_cons.mp hf with rfl | hf
  · exact .list (.scalar rfl)
  · obtain rfl := List.mem_singleton.mp hf
    exact .map rfl (.scalar rfl)

theorem nestedValue_hasType : nestedValue.HasType nestedType := by
  have hnumbers : ∀ v ∈ [Value.int32 (-1), .null], v.HasType .int32 :=
    List.forall_mem_cons.mpr ⟨.int32, List.forall_mem_singleton.mpr (.null rfl)⟩
  have hflags : (Value.map [(.string "b", .boolean true), (.string "a\"", .null)]).HasType
      (.map .utf8 .boolean false) :=
    .map (List.forall_mem_cons.mpr ⟨.utf8, List.forall_mem_singleton.mpr .utf8⟩)
      (List.forall_mem_cons.mpr ⟨.boolean, List.forall_mem_singleton.mpr (.null rfl)⟩)
  exact .struct rfl (List.forall_mem_cons.mpr ⟨.list hnumbers, List.forall_mem_singleton.mpr hflags⟩)

theorem nestedValue_wellKeyed : nestedValue.WellKeyed := by
  have hflags : (Value.map [(.string "b", .boolean true), (.string "a\"", .null)]).WellKeyed := by
    refine .map ?_ (by simp) ?_
    · exact List.forall_mem_cons.mpr ⟨⟨_, rfl⟩, List.forall_mem_singleton.mpr ⟨_, rfl⟩⟩
    · exact List.forall_mem_cons.mpr
        ⟨.unbounded rfl, List.forall_mem_singleton.mpr (.unbounded rfl)⟩
  have hnumbers : (Value.list [.int32 (-1), .null]).WellKeyed :=
    .list (List.forall_mem_cons.mpr ⟨.unbounded rfl, List.forall_mem_singleton.mpr (.unbounded rfl)⟩)
  exact .struct (List.forall_mem_cons.mpr ⟨hnumbers, List.forall_mem_singleton.mpr hflags⟩)

theorem rendersFaithfully_nested : ∃ text,
    databricksDisplayValue utcFormatting nestedType 0 nestedValue = .ok text ∧
      JsonText.parse text = some (jsonDoc nestedType nestedValue) := by
  obtain ⟨text, h, hparse, -⟩ := rendersFaithfully utcFormatting nestedType nestedValue
    nestedType_nests nestedValue_hasType nestedValue_wellKeyed
  exact ⟨text, h 0, hparse⟩

end HarborSql
