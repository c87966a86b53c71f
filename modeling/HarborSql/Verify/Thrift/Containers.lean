import HarborSql.Verify.Thrift.Sizes

/-! When a request makes the decoder use a container size beyond the bound: the list of the
`get_info` types of an `OpenSession` request is read without the check that every container that
is skipped passes. -/

namespace HarborSql
namespace Reader

open Thrift

/-! ## Fields of a struct that is read -/

section
variable {σ : Type} {decode : Ty → Int16 → σ → Bytes → Option (σ × Bytes)}

/-- The fields that a loop accepts, if its body accepts the values that satisfy `A`. -/
theorem exists_decodeFold {A : Int16 → Thrift.Value → Prop}
    (h : ∀ ty id s bs rest, (∃ s', decode ty id s bs = some (s', rest)) ↔
      ∃ v : Thrift.Value, v.ty = ty ∧ A id v ∧ bs = v.encode ++ rest)
    {n : Nat} {s : σ} {bs rest : Bytes} (hn : bs.length ≤ n) :
    (∃ s', decodeFold decode n s bs = some (s', rest)) ↔
      ∃ fields : List (Int16 × Thrift.Value), (∀ f ∈ fields, A f.1 f.2) ∧
        bs = Thrift.Value.encodeFields fields ++ rest := by
  constructor
  · rintro ⟨s', hd⟩
    clear hn
    induction n generalizing s bs with
    | zero => cases hd
    | succ n ih =>
      rw [decodeFold] at hd
      obtain ⟨⟨begin?, bs₁⟩, hbegin, hd₁⟩ := Option.bind_eq_some_iff.mp hd
      cases begin? with
      | none =>
        obtain ⟨rfl, rfl⟩ := Prod.mk.inj (Option.some.inj hd₁)
        exact ⟨[], List.forall_mem_nil _, decodeFieldBegin_eq_none.mp hbegin⟩
      | some begin? =>
        obtain ⟨ty, id⟩ := begin?
        obtain ⟨⟨s₂, bs₂⟩, hfield, hd₂⟩ := Option.bind_eq_some_iff.mp hd₁
        obtain ⟨v, rfl, hv, rfl⟩ := (h ..).mp ⟨s₂, hfield⟩
        obtain ⟨fields, hfields, rfl⟩ := ih hd₂
        refine ⟨(id, v) :: fields, List.forall_mem_cons.mpr ⟨hv, hfields⟩, ?_⟩
        rw [decodeFieldBegin_eq_some.mp hbegin, Thrift.Value.encodeFields]
        simp
  · rintro ⟨fields, hfields, rfl⟩
    induction fields generalizing n s with
    | nil =>
      obtain ⟨n, rfl⟩ : ∃ m, n = m + 1 := ⟨n - 1, by simp [Thrift.Value.encodeFields] at hn; omega⟩
      exact ⟨s, rfl⟩
    | cons f fields ih =>
      obtain ⟨id, v⟩ := f
      obtain ⟨hv, hfields⟩ := List.forall_mem_cons.mp hfields
      obtain ⟨n, rfl⟩ : ∃ m, n = m + 1 := ⟨n - 1, by simp [Thrift.Value.encodeFields] at hn; omega⟩
      obtain ⟨s₂, hs₂⟩ := (h v.ty id s (v.encode ++ (Thrift.Value.encodeFields fields ++ rest)) _).mpr
        ⟨v, rfl, hv, rfl⟩
      obtain ⟨s', hs'⟩ := ih hfields (n := n) (s := s₂) (by
        simp only [Thrift.Value.encodeFields, List.cons_append, List.length_cons, List.append_assoc,
          List.length_append] at hn
        rw [List.length_append]
        omega)
      have hbegin : decodeFieldBegin (Thrift.Value.encodeFields ((id, v) :: fields) ++ rest) =
          some (some (v.ty, id), v.encode ++ (Thrift.Value.encodeFields fields ++ rest)) :=
        decodeFieldBegin_eq_some.mpr (by simp [Thrift.Value.encodeFields])
      refine ⟨s', ?_⟩
      simp only [decodeFold, hbegin, Option.bind_some, hs₂, hs']

end

theorem code_eq_tString {ty : Ty} : ty.code = tString ↔ ty = .string :=
  show ty.code = Ty.string.code ↔ _ from Ty.code_inj

theorem code_eq_tList {ty : Ty} : ty.code = tList ↔ ty = .list :=
  show ty.code = Ty.list.code ↔ _ from Ty.code_inj

theorem code_eq_tStruct {ty : Ty} : ty.code = tStruct ↔ ty = .struct :=
  show ty.code = Ty.struct.code ↔ _ from Ty.code_inj

/-! ## The namespace -/

/-- A string that `String::from_utf8` takes. -/
def IsUtf8 (bytes : Bytes) : Prop := (String.fromUTF8? ⟨bytes.toArray⟩).isSome

/-- A field that the loop over a namespace accepts. -/
structure NamespaceField (id : Int16) (v : Thrift.Value) : Prop where
  skippable : Skippable v
  isUtf8 : id = 1 ∨ id = 2 → ∀ bytes, v = .string bytes → IsUtf8 bytes

def decodeString (bs : Bytes) : Option (String × Bytes) :=
  (decodeBinary bs).bind fun (bytes, bs) =>
    (String.fromUTF8? ⟨bytes.toArray⟩).map fun value => (value, bs)

theorem reads_readString : Reads readString decodeString := by
  refine reads_readBinary.bind (d := fun bytes bs =>
    (String.fromUTF8? ⟨bytes.toArray⟩).map fun value => (value, bs)) fun bytes => ?_
  cases h : String.fromUTF8? ⟨bytes.toArray⟩ with
  | some value => exact reads_pure value
  | none => exact reads_error _

theorem exists_decodeString {bs rest : Bytes} :
    (∃ value, decodeString bs = some (value, rest)) ↔
      ∃ v, v.ty = .string ∧ (Skippable v ∧ ∀ bytes, v = .string bytes → IsUtf8 bytes) ∧
        bs = v.encode ++ rest := by
  simp only [decodeString, decodeBinary, Option.bind_eq_some_iff, Option.map_eq_some_iff,
    Prod.exists, Prod.mk.injEq, decodeSize_eq_some, takeBytes_eq_some]
  constructor
  · rintro ⟨value, bytes, _, ⟨n, _, ⟨hn, rfl⟩, rfl, rfl⟩, _, hvalue, rfl, rfl⟩
    refine ⟨.string bytes, rfl, ⟨⟨.string hn, .string, Nat.zero_le _⟩, ?_⟩, ?_⟩
    · rintro _ ⟨⟩
      exact Option.isSome_of_eq_some hvalue
    · simp [Thrift.Value.encode]
  · rintro ⟨v, hty, ⟨hv, hutf8⟩, rfl⟩
    cases hv.wf with
    | @string bytes hlen =>
      obtain ⟨value, hvalue⟩ := Option.isSome_iff_exists.mp (hutf8 bytes rfl)
      exact ⟨value, bytes, rest, ⟨_, _, ⟨hlen, by simp [Thrift.Value.encode]⟩, rfl, rfl⟩, value, hvalue,
        rfl, rfl⟩
    | _ => cases hty

/-- What the loop over a namespace does with a field. -/
def decodeNamespaceField (ty : Ty) (id : Int16) (s : Option String × Option String) (bs : Bytes) :
    Option ((Option String × Option String) × Bytes) :=
  if id = 1 ∧ ty = .string then (decodeString bs).map fun (value, bs) => ((some value, s.2), bs)
  else if id = 2 ∧ ty = .string then (decodeString bs).map fun (value, bs) => ((s.1, some value), bs)
  else (skipping (Thrift.Value.decodeWithin maxContainerElements (maxSkipDepth + 1) ty) bs).map
    fun (_, bs) => (s, bs)

theorem reads_readNamespace : Reads readNamespace fun bs =>
    decodeFold decodeNamespaceField bs.length (none, none) bs := by
  refine reads_readFields (fun ty id s => ?_) _
  simp only [code_eq_tString]
  unfold decodeNamespaceField
  by_cases h1 : id = 1 ∧ ty = .string
  · simp only [if_pos h1]
    exact reads_readString.map fun value => (some value, s.2)
  · by_cases h2 : id = 2 ∧ ty = .string
    · simp only [if_neg h1, if_pos h2]
      exact reads_readString.map fun value => (s.1, some value)
    · simp only [if_neg h1, if_neg h2]
      exact (reads_skip ty).map fun _ => s

theorem exists_decodeNamespaceField {ty : Ty} {id : Int16} {s : Option String × Option String}
    {bs rest : Bytes} : (∃ s', decodeNamespaceField ty id s bs = some (s', rest)) ↔
      ∃ v : Thrift.Value, v.ty = ty ∧ NamespaceField id v ∧ bs = v.encode ++ rest := by
  by_cases h : (id = 1 ∨ id = 2) ∧ ty = .string
  · obtain ⟨hid, rfl⟩ := h
    have hiff : (∃ s', decodeNamespaceField .string id s bs = some (s', rest)) ↔
        ∃ value, decodeString bs = some (value, rest) := by
      rcases hid with rfl | rfl <;>
        simp [decodeNamespaceField, Option.map_eq_some_iff, exists_comm]
    rw [hiff, exists_decodeString]
    refine exists_congr fun v => and_congr_right fun _ => and_congr_left fun _ => ?_
    exact ⟨fun h => ⟨h.1, fun _ => h.2⟩, fun h => ⟨h.skippable, h.isUtf8 hid⟩⟩
  · have hiff : (∃ s', decodeNamespaceField ty id s bs = some (s', rest)) ↔
        skipping (Thrift.Value.decodeWithin maxContainerElements (maxSkipDepth + 1) ty) bs =
          some ((), rest) := by
      have h1 : ¬ (id = 1 ∧ ty = .string) := fun h' => h ⟨.inl h'.1, h'.2⟩
      have h2 : ¬ (id = 2 ∧ ty = .string) := fun h' => h ⟨.inr h'.1, h'.2⟩
      simp only [decodeNamespaceField, if_neg h1, if_neg h2, Option.map_eq_some_iff]
      constructor
      · rintro ⟨s', ⟨_, rest⟩, h, hs⟩
        obtain ⟨rfl, rfl⟩ := Prod.mk.inj hs
        exact h
      · intro h
        exact ⟨s, ((), rest), h, rfl⟩
    rw [hiff, skipping_decodeWithin_eq_some]
    refine exists_congr fun v => ⟨?_, ?_⟩
    · rintro ⟨hv, rfl, rfl⟩
      refine ⟨rfl, ⟨hv, ?_⟩, rfl⟩
      rintro hid bytes rfl
      exact absurd ⟨hid, rfl⟩ h
    · rintro ⟨rfl, hv, rfl⟩
      exact ⟨hv.skippable, rfl, rfl⟩

/-- A namespace is a struct of such fields. -/
theorem exists_readNamespace {r : Reader} (hr : r.WF) {fields : List (Int16 × Thrift.Value)}
    (h : ∀ f ∈ fields, NamespaceField f.1 f.2) {rest : Bytes}
    (hrest : r.remaining = Thrift.Value.encodeFields fields ++ rest) :
    ∃ x r', readNamespace.run r = (.ok x, r') ∧ r.Ahead r' ∧ r'.remaining = rest := by
  obtain ⟨x, hx⟩ := (exists_decodeFold (A := NamespaceField) (fun _ _ _ _ _ => exists_decodeNamespaceField)
    (s := (none, none)) (Nat.le_refl _)).mpr ⟨fields, h, hrest⟩
  have hends := reads_readNamespace r hr
  dsimp only at hends
  rw [hx] at hends
  obtain ⟨r', hm, hahead, hr'⟩ := hends.of_some
  exact ⟨x, r', hm, hahead, hr'⟩

theorem remaining_of_readNamespace {r r' : Reader} (hr : r.WF) {x : Option String × Option String}
    (h : readNamespace.run r = (.ok x, r')) :
    ∃ fields : List (Int16 × Thrift.Value), (∀ f ∈ fields, NamespaceField f.1 f.2) ∧ r.Ahead r' ∧
      r.remaining = Thrift.Value.encodeFields fields ++ r'.remaining := by
  obtain ⟨hahead, hd⟩ := (reads_readNamespace r hr).eq_ok h
  obtain ⟨fields, hfields, hrem⟩ := (exists_decodeFold (A := NamespaceField)
    (fun _ _ _ _ _ => exists_decodeNamespaceField) (Nat.le_refl _)).mp ⟨x, hd⟩
  exact ⟨fields, hfields, hahead, hrem⟩

/-! ## The list of `get_info` types -/

/-- The elements behind the declared element type and size. -/
inductive GetInfoElements : UInt8 → Nat → Bytes → Prop
  | i32 (values : List Int32) : GetInfoElements tI32 values.length (values.flatMap encodeI32)
  | other {elementType : UInt8} {values : List Thrift.Value} : elementType ≠ tI32 →
    (∀ v ∈ values, Skippable v ∧ v.ty.code = elementType) →
    GetInfoElements elementType values.length (values.flatMap (·.encode))

/-- What `read_i32_list` does behind the declared element type and size. -/
def readGetInfoElements (elementType : UInt8) (len : Nat) : ReaderM (List Int32) :=
  if elementType ≠ tI32 then do
    times (skip elementType) len
    return []
  else collect readI32 len

/-- A value of a type that is given by its code. -/
def decodeSkip (code : UInt8) (bs : Bytes) : Option (Thrift.Value × Bytes) :=
  (Ty.ofCode code).bind fun ty =>
    Thrift.Value.decodeWithin maxContainerElements (maxSkipDepth + 1) ty bs

theorem decodes_decodeSkip (code : UInt8) :
    Decodes (decodeSkip code) (fun v => Skippable v ∧ v.ty.code = code) (·.encode) := by
  intro bs v rest
  simp only [decodeSkip, Option.bind_eq_some_iff, Ty.ofCode_eq_some,
    Thrift.Value.decodeWithin_eq_some maxContainerElements_lt _ _ _ _, within_iff_skippable]
  constructor
  · rintro ⟨ty, rfl, ⟨rfl, hv⟩, hbs⟩
    exact ⟨⟨hv, rfl⟩, hbs⟩
  · rintro ⟨⟨hv, rfl⟩, hbs⟩
    exact ⟨v.ty, rfl, ⟨rfl, hv⟩, hbs⟩

theorem reads_skip_code (code : UInt8) : Reads (skip code) (skipping (decodeSkip code)) := by
  by_cases h : ∃ ty : Ty, code = ty.code
  · obtain ⟨ty, rfl⟩ := h
    have hdecode : decodeSkip ty.code =
        Thrift.Value.decodeWithin maxContainerElements (maxSkipDepth + 1) ty := by
      funext bs
      rw [decodeSkip, Ty.ofCode_code, Option.bind_some]
    rw [hdecode]
    exact reads_skip ty
  · have hnone : Ty.ofCode code = none := by
      refine Option.eq_none_iff_forall_ne_some.mpr fun ty hty => h ⟨ty, Ty.ofCode_eq_some.mp hty⟩
    have hdecode : skipping (decodeSkip code) = fun _ => none := by
      funext bs
      rw [skipping, decodeSkip, hnone, Option.bind_none, Option.map_none]
    rw [hdecode]
    exact reads_skip_invalid (not_exists.mp h)

theorem reads_collect {α : Type} {item : ReaderM α} {decode : Bytes → Option (α × Bytes)}
    (h : Reads item decode) (n : Nat) : Reads (collect item n) (decodeMany decode n) := by
  induction n with
  | zero => exact reads_pure []
  | succ n ih =>
    rw [decodeMany_succ]
    exact h.bind fun x => ih.map fun xs => x :: xs

def decodeGetInfoElements (elementType : UInt8) (len : Nat) (bs : Bytes) :
    Option (List Int32 × Bytes) :=
  if elementType ≠ tI32 then
    (skipping (decodeMany (decodeSkip elementType) len) bs).map fun (_, bs) => ([], bs)
  else decodeMany decodeI32 len bs

theorem reads_readGetInfoElements (elementType : UInt8) (len : Nat) :
    Reads (readGetInfoElements elementType len) (decodeGetInfoElements elementType len) := by
  unfold readGetInfoElements decodeGetInfoElements
  by_cases h : elementType ≠ tI32
  · simp only [if_pos h]
    exact (reads_times (reads_skip_code elementType) len).map fun _ => []
  · simp only [if_neg h]
    exact reads_collect reads_readI32 len

theorem exists_decodeGetInfoElements {elementType : UInt8} {len : Nat} {bs rest : Bytes} :
    (∃ values, decodeGetInfoElements elementType len bs = some (values, rest)) ↔
      ∃ elements, GetInfoElements elementType len elements ∧ bs = elements ++ rest := by
  unfold decodeGetInfoElements
  by_cases h : elementType ≠ tI32
  · simp only [if_pos h, skipping, Option.map_map, Option.map_eq_some_iff, Function.comp_apply,
      Prod.exists, Prod.mk.injEq, (decodes_decodeSkip elementType).many len _ _ _]
    constructor
    · rintro ⟨_, values, _, ⟨⟨rfl, hvalues⟩, rfl⟩, -, rfl⟩
      exact ⟨_, .other h hvalues, rfl⟩
    · rintro ⟨elements, helements, rfl⟩
      cases helements with
      | i32 => exact absurd rfl h
      | other _ hvalues => exact ⟨[], _, rest, ⟨⟨rfl, hvalues⟩, rfl⟩, rfl, rfl⟩
  · obtain rfl := not_not.mp h
    have hmany := (Decodes.of_iff fun _ _ _ => decodeI32_eq_some).many len
    simp only [if_neg h, hmany _ _ _]
    constructor
    · rintro ⟨values, ⟨rfl, -⟩, rfl⟩
      exact ⟨_, .i32 values, rfl⟩
    · rintro ⟨elements, helements, rfl⟩
      cases helements with
      | i32 values => exact ⟨values, ⟨rfl, fun _ _ => trivial⟩, rfl⟩
      | other hne => exact absurd rfl hne

/-- No size beyond the bound has been used. -/
def Small (r : Reader) : Prop := ∀ n ∈ r.sizes, n ≤ maxContainerElements

section
variable {α : Type} {m : ReaderM α} {r r' : Reader}

theorem Uses.small {result : Except Fault α} (h : Uses (· ≤ maxContainerElements) m)
    (hm : m.run r = (result, r')) (hr : r.Small) : r'.Small := by
  have hmem := (h r).2
  rw [hm] at hmem
  exact fun n hn => (hmem n hn).elim (hr n) id

theorem Uses.small_of {P : Nat → Prop} (h : Uses P m) (hr : (m.run r).2.Small) : r.Small :=
  fun n hn => hr n ((h r).1 hn)

end

section
variable {r : Reader} (hr : r.WF) {elementType : UInt8} {size : Int32} {rest : Bytes}
include hr

/-- A declared size that is not negative is used. -/
theorem run_readI32List (h : r.remaining = elementType :: (encodeI32 size ++ rest))
    (h0 : 0 ≤ size.toInt) :
    ∃ r', r.Ahead r' ∧ r'.remaining = rest ∧ size.toInt.toNat ∈ r'.sizes ∧
      (r.Small → size.toInt.toNat ≤ maxContainerElements → r'.Small) ∧
      readI32List.run r = (readGetInfoElements elementType size.toInt.toNat).run r' := by
  have hu8 := reads_readU8 r hr
  rw [h] at hu8
  obtain ⟨r₁, hm₁, hahead₁, hrem₁⟩ := hu8.of_some
  have hi32 := reads_readI32 r₁ hahead₁.wf
  rw [hrem₁, decodeI32_encodeI32] at hi32
  obtain ⟨r₂, hm₂, hahead₂, hrem₂⟩ := hi32.of_some
  have hahead := hahead₁.trans hahead₂
  have hneg : ¬ size < 0 := fun hneg => (lt_zero_iff size).mp hneg h0
  refine ⟨{ r₂ with sizes := size.toInt.toNat :: r₂.sizes },
    ⟨⟨hahead.wf.position_le, hahead.wf.length_lt⟩, hahead.buffer, hahead.position_le⟩, hrem₂,
    List.mem_cons_self, fun hsmall hle => ?_, ?_⟩
  · have hsmall₂ := uses_readI32.small hm₂ (uses_readU8.small hm₁ hsmall)
    exact List.forall_mem_cons.mpr ⟨hle, hsmall₂⟩
  · rw [readI32List, run_bind_ok hm₁, run_bind_ok hm₂, if_neg hneg, readGetInfoElements]
    by_cases hty : elementType ≠ tI32
    · rw [if_pos hty, if_pos hty, run_bind_ok (run_useSize _ r₂)]
    · rw [if_neg hty, if_neg hty, run_bind_ok (run_useSize _ r₂)]

/-- Before that, nothing is used. -/
theorem readI32List_cases :
    (∃ elementType size rest, r.remaining = elementType :: (encodeI32 size ++ rest) ∧
      0 ≤ size.toInt) ∨
    ∃ fault r', readI32List.run r = (.error fault, r') ∧ (r.Small → r'.Small) := by
  have hu8 := reads_readU8 r hr
  cases h₁ : decodeU8 r.remaining with
  | none =>
    rw [h₁] at hu8
    cases hu8 with
    | error hm₁ _ => exact .inr ⟨_, _, run_bind_error hm₁, uses_readU8.small hm₁⟩
  | some p =>
    obtain ⟨elementType, bs⟩ := p
    rw [h₁] at hu8
    obtain ⟨r₁, hm₁, hahead₁, rfl⟩ := hu8.of_some
    have hi32 := reads_readI32 r₁ hahead₁.wf
    cases h₂ : decodeI32 r₁.remaining with
    | none =>
      rw [h₂] at hi32
      cases hi32 with
      | error hm₂ _ =>
        refine .inr ⟨_, _, (run_bind_ok hm₁).trans (run_bind_error hm₂), fun hsmall => ?_⟩
        exact uses_readI32.small hm₂ (uses_readU8.small hm₁ hsmall)
    | some p =>
      obtain ⟨size, bs⟩ := p
      by_cases hneg : size < 0
      · rw [h₂] at hi32
        obtain ⟨r₂, hm₂, -, -⟩ := hi32.of_some
        refine .inr ⟨.error (.thrift "negative i32 list size"), r₂, ?_, fun hsmall =>
          uses_readI32.small hm₂ (uses_readU8.small hm₁ hsmall)⟩
        rw [readI32List, run_bind_ok hm₁, run_bind_ok hm₂, if_pos hneg]
        rfl
      · refine .inl ⟨elementType, size, bs, ?_, not_not.mp (mt (lt_zero_iff size).mpr hneg)⟩
        rw [decodeU8_eq_some.mp h₁, decodeI32_eq_some.mp h₂]

end

/-- What is done with a result uses no size. -/
theorem small_map {α β : Type} {m : ReaderM α} {f : α → β} {r : Reader} :
    ((do return f (← m) : ReaderM β).run r).2.Small ↔ (m.run r).2.Small := by
  rw [run_bind]
  cases m.run r with
  | mk result r' => cases result <;> rfl

theorem uses_readGetInfoElements (elementType : UInt8) (len : Nat) :
    Uses (· ≤ maxContainerElements) (readGetInfoElements elementType len) :=
  .ite (((uses_skip _).times _).bind fun _ => uses_pure _) (uses_readI32.collect _)

/-! ## The fields of an `OpenSession` request -/

/-- A field that the loop over an `OpenSession` request gets past without using a size beyond the
bound. -/
inductive OpenSessionField : Int16 → Ty → Bytes → Prop
  | getInfoTypes {elementType : UInt8} {n : Nat} {elements : Bytes} : n ≤ maxContainerElements →
    GetInfoElements elementType n elements →
    OpenSessionField 1281 .list (elementType :: (encodeSize n ++ elements))
  | inNamespace {fields : List (Int16 × Thrift.Value)} : (∀ f ∈ fields, NamespaceField f.1 f.2) →
    OpenSessionField 1284 .struct (Thrift.Value.encodeFields fields)
  | other {id : Int16} {v : Thrift.Value} : ¬ (id = 1281 ∧ v.ty = .list) →
    ¬ (id = 1284 ∧ v.ty = .struct) → Skippable v → OpenSessionField id v.ty v.encode

section
variable {r : Reader} (hr : r.WF) {ty : Ty} {id : Int16}
include hr

theorem openSessionField_of {bytes rest : Bytes} (h : OpenSessionField id ty bytes)
    (hrest : r.remaining = bytes ++ rest) (s : OpenSessionReq) :
    ∃ s' r', (openSessionField ty.code id s).run r = (.ok s', r') ∧ r.Ahead r' ∧
      r'.remaining = rest := by
  cases h with
  | @getInfoTypes elementType n elements hle helements =>
    have hlt := Nat.lt_of_le_of_lt hle maxContainerElements_lt
    have hn : (Int32.ofNat n).toInt = n := Int32.toInt_ofNat_of_lt hlt
    obtain ⟨r₁, hahead₁, hrem₁, -, -, hrun⟩ := run_readI32List hr
      (show r.remaining = elementType :: (encodeI32 (.ofNat n) ++ (elements ++ rest)) by
        rw [hrest, List.cons_append, List.append_assoc]; rfl) (by omega)
    rw [hn, Int.toNat_natCast] at hrun
    obtain ⟨values, hvalues⟩ := exists_decodeGetInfoElements.mpr ⟨elements, helements, hrem₁⟩
    have hends := reads_readGetInfoElements elementType n r₁ hahead₁.wf
    rw [hvalues] at hends
    obtain ⟨r₂, hm₂, hahead₂, hrem₂⟩ := hends.of_some
    refine ⟨{ s with getInfoTypes := values }, r₂, ?_, hahead₁.trans hahead₂, hrem₂⟩
    rw [openSessionField, if_pos ⟨rfl, rfl⟩, run_bind_ok (hrun.trans hm₂), run_pure]
  | inNamespace hfields =>
    obtain ⟨x, r', hm, hahead, hrem⟩ := exists_readNamespace hr hfields hrest
    refine ⟨{ s with catalog := x.1, schema := x.2 }, r', ?_, hahead, hrem⟩
    rw [openSessionField, if_neg (by decide), if_pos ⟨rfl, rfl⟩, run_bind_ok hm]
    rfl
  | @other _ v hlist hstruct hv =>
    rw [← code_eq_tList] at hlist
    rw [← code_eq_tStruct] at hstruct
    have hends := reads_skip v.ty r hr
    rw [skipping_decodeWithin_eq_some.mpr ⟨v, hv, rfl, hrest⟩] at hends
    obtain ⟨r', hm, hahead, hrem⟩ := hends.of_some
    refine ⟨s, r', ?_, hahead, hrem⟩
    rw [openSessionField, if_neg hlist, if_neg hstruct, run_bind_ok hm, run_pure]

theorem remaining_of_openSessionField {s s' : OpenSessionReq} {r' : Reader}
    (h : (openSessionField ty.code id s).run r = (.ok s', r')) (hsmall : r'.Small) :
    ∃ bytes, OpenSessionField id ty bytes ∧ r.Ahead r' ∧
      r.remaining = bytes ++ r'.remaining := by
  unfold openSessionField at h
  simp only [code_eq_tList, code_eq_tStruct] at h
  by_cases hlist : id = 1281 ∧ ty = .list
  · obtain ⟨rfl, rfl⟩ := hlist
    rw [if_pos ⟨rfl, rfl⟩] at h
    obtain ⟨values, r₂, hm, hpure⟩ := run_bind_eq_ok h
    obtain rfl := (Prod.mk.inj hpure).2
    rcases readI32List_cases hr with ⟨elementType, size, rest, hrem, h0⟩ | ⟨fault, r₁, herror, -⟩
    · obtain ⟨r₁, hahead₁, rfl, hmem, -, hrun⟩ := run_readI32List hr hrem h0
      rw [hrun] at hm
      obtain ⟨hahead, hd⟩ := (reads_readGetInfoElements _ _ r₁ hahead₁.wf).eq_ok hm
      obtain ⟨elements, helements, hr₁⟩ := exists_decodeGetInfoElements.mp ⟨_, hd⟩
      have hle : size.toInt.toNat ≤ maxContainerElements := by
        have hsub := (uses_readGetInfoElements elementType size.toInt.toNat r₁).1
        rw [hm] at hsub
        exact hsmall _ (hsub hmem)
      refine ⟨_, .getInfoTypes hle helements, hahead₁.trans hahead, ?_⟩
      have hsize : Int32.ofNat size.toInt.toNat = size := by
        rw [← Int32.ofInt_eq_ofNat, Int.toNat_of_nonneg h0, Int32.ofInt_toInt]
      rw [hrem, hr₁, encodeSize, hsize, List.cons_append, List.append_assoc]
    · cases herror.symm.trans hm
  · rw [if_neg hlist] at h
    by_cases hstruct : id = 1284 ∧ ty = .struct
    · obtain ⟨rfl, rfl⟩ := hstruct
      rw [if_pos ⟨rfl, rfl⟩] at h
      obtain ⟨x, r₂, hm, hpure⟩ := run_bind_eq_ok h
      obtain rfl := (Prod.mk.inj hpure).2
      obtain ⟨fields, hfields, hahead, hrem⟩ := remaining_of_readNamespace hr hm
      exact ⟨_, .inNamespace hfields, hahead, hrem⟩
    · rw [if_neg hstruct] at h
      obtain ⟨x, r₂, hm, hpure⟩ := run_bind_eq_ok h
      obtain rfl := (Prod.mk.inj hpure).2
      obtain ⟨hahead, hd⟩ := (reads_skip ty r hr).eq_ok hm
      obtain ⟨v, hv, rfl, hrem⟩ := skipping_decodeWithin_eq_some.mp hd
      exact ⟨_, .other hlist hstruct hv, hahead, hrem⟩

/-- The only field that uses a size beyond the bound. -/
theorem oversized_of_openSessionField {s : OpenSessionReq} (hsmall : r.Small)
    (h : ¬ ((openSessionField ty.code id s).run r).2.Small) :
    id = 1281 ∧ ty = .list ∧ ∃ elementType size rest,
      r.remaining = elementType :: (encodeI32 size ++ rest) ∧
      (maxContainerElements : Int) < size.toInt := by
  unfold openSessionField at h
  simp only [code_eq_tList, code_eq_tStruct] at h
  have hbounded {α : Type} {m : ReaderM α} (hm : Uses (· ≤ maxContainerElements) m) :
      (m.run r).2.Small := hm.small rfl hsmall
  by_cases hlist : id = 1281 ∧ ty = .list
  · refine ⟨hlist.1, hlist.2, ?_⟩
    rw [if_pos hlist] at h
    rcases readI32List_cases hr with ⟨elementType, size, rest, hrem, h0⟩ | ⟨fault, r₁, herror, hr₁⟩
    · refine ⟨elementType, size, rest, hrem, Int.lt_of_not_ge fun hle => h ?_⟩
      obtain ⟨r₁, -, -, -, hsmall₁, hrun⟩ := run_readI32List hr hrem h0
      have hsmall₁ := hsmall₁ hsmall (by omega)
      have hlist : (readI32List.run r).2.Small := by
        rw [hrun]
        exact (uses_readGetInfoElements _ _).small rfl hsmall₁
      exact small_map.mpr hlist
    · rw [run_bind_error herror] at h
      exact absurd (hr₁ hsmall) h
  · rw [if_neg hlist] at h
    by_cases hstruct : id = 1284 ∧ ty = .struct
    · rw [if_pos hstruct] at h
      exact absurd (hbounded ((uses_readNamespace uses_skip).bind fun _ => uses_pure _)) h
    · rw [if_neg hstruct] at h
      exact absurd (hbounded ((uses_skip _).bind fun _ => uses_pure _)) h

theorem not_small_openSessionField {elementType : UInt8} {size : Int32} {rest : Bytes}
    (h : r.remaining = elementType :: (encodeI32 size ++ rest))
    (hlt : (maxContainerElements : Int) < size.toInt) (s : OpenSessionReq) :
    ¬ ((openSessionField tList 1281 s).run r).2.Small := by
  obtain ⟨r₁, -, -, hmem, -, hrun⟩ := run_readI32List hr h (by omega)
  rw [openSessionField, if_pos ⟨rfl, rfl⟩]
  intro hsmall
  have hlist : (readI32List.run r).2.Small := small_map.mp hsmall
  rw [hrun] at hlist
  have := (uses_readGetInfoElements _ _).small_of hlist _ hmem
  omega

end

end Reader
end HarborSql
