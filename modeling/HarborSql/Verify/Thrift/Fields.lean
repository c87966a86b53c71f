import HarborSql.Verify.Thrift.ContainerBound

/-! The fields of the structs of a request, in the abstract: which of them are recognised, what is
kept of them, and the edits of a struct that keep it. -/

namespace HarborSql.Reader

open Thrift Writer

/-! ## Framing -/

/-- What is decoded is decided by the bytes that it takes, whatever is behind them. -/
def Framed {α : Type} (decode : Bytes → Option (α × Bytes)) : Prop :=
  ∀ bs x rest, decode bs = some (x, rest) →
    ∃ front, bs = front ++ rest ∧ ∀ rest', decode (front ++ rest') = some (x, rest')

section
variable {α β : Type} {decode : Bytes → Option (α × Bytes)}

theorem Framed.length_le (h : Framed decode) {bs rest : Bytes} {x : α}
    (hd : decode bs = some (x, rest)) : rest.length ≤ bs.length := by
  obtain ⟨front, rfl, -⟩ := h bs x rest hd
  rw [List.length_append]
  omega

theorem Framed.of_iff {encode : α → Bytes} {P : α → Prop}
    (h : ∀ bs x rest, decode bs = some (x, rest) ↔ P x ∧ bs = encode x ++ rest) :
    Framed decode := by
  intro bs x rest hd
  obtain ⟨hP, rfl⟩ := (h ..).mp hd
  exact ⟨encode x, rfl, fun rest' => (h ..).mpr ⟨hP, rfl⟩⟩

theorem framed_pure (x : α) : Framed fun bs => some (x, bs) := by
  intro bs y rest hd
  obtain ⟨rfl, rfl⟩ := Prod.mk.inj (Option.some.inj hd)
  exact ⟨[], rfl, fun _ => rfl⟩

theorem Framed.bind {d : α → Bytes → Option (β × Bytes)} (h : Framed decode)
    (hd : ∀ x, Framed (d x)) : Framed fun bs => (decode bs).bind fun (x, bs) => d x bs := by
  intro bs y rest hbind
  obtain ⟨⟨x, bs'⟩, hx, hy⟩ := Option.bind_eq_some_iff.mp hbind
  obtain ⟨front, rfl, hfront⟩ := h bs x bs' hx
  obtain ⟨front', rfl, hfront'⟩ := hd x bs' y rest hy
  refine ⟨front ++ front', (List.append_assoc ..).symm, fun rest' => ?_⟩
  simp only [List.append_assoc, hfront, Option.bind_some, hfront']

theorem Framed.map (h : Framed decode) (f : α → β) :
    Framed fun bs => (decode bs).map fun (x, bs) => (f x, bs) := by
  have hbind := h.bind fun x => framed_pure (f x)
  simp only [Option.map_eq_bind]
  exact hbind

theorem Framed.many (h : Framed decode) (n : Nat) : Framed (decodeMany decode n) := by
  induction n with
  | zero => exact framed_pure []
  | succ n ih =>
    rw [decodeMany_succ]
    exact h.bind fun x => ih.map fun xs => x :: xs

theorem Framed.skipping (h : Framed decode) : Framed (skipping decode) := h.map fun _ => ()

theorem framed_decodeFieldBegin : Framed decodeFieldBegin := by
  intro bs begin? rest hd
  cases begin? with
  | none =>
    obtain rfl := decodeFieldBegin_eq_none.mp hd
    exact ⟨[0], rfl, fun _ => decodeFieldBegin_eq_none.mpr rfl⟩
  | some begin? =>
    obtain ⟨ty, id⟩ := begin?
    obtain rfl := decodeFieldBegin_eq_some.mp hd
    exact ⟨ty.code :: encodeI16 id, rfl, fun _ => decodeFieldBegin_eq_some.mpr rfl⟩

end

section
variable {σ : Type} {decode : Ty → Int16 → σ → Bytes → Option (σ × Bytes)}

/-- The fuel for the fields does not matter, as long as it lasts. -/
theorem decodeFold_congr (h : ∀ ty id s, Framed (decode ty id s)) {n m : Nat} {s : σ} {bs : Bytes}
    (hn : bs.length ≤ n) (hm : bs.length ≤ m) : decodeFold decode n s bs = decodeFold decode m s bs := by
  have hnil (k : Nat) (s : σ) : decodeFold decode k s [] = none := by cases k <;> rfl
  induction n generalizing m s bs with
  | zero =>
    obtain rfl := List.length_eq_zero_iff.mp (Nat.le_zero.mp hn)
    rw [hnil, hnil]
  | succ n ih =>
    cases m with
    | zero =>
      obtain rfl := List.length_eq_zero_iff.mp (Nat.le_zero.mp hm)
      rw [hnil, hnil]
    | succ m =>
      rw [decodeFold, decodeFold]
      refine Option.bind_congr ?_
      rintro ⟨begin?, bs'⟩ hbegin
      cases begin? with
      | none => rfl
      | some begin? =>
        obtain ⟨ty, id⟩ := begin?
        have hlen := congrArg List.length (decodeFieldBegin_eq_some.mp hbegin)
        rw [List.length_cons, List.length_append] at hlen
        refine Option.bind_congr ?_
        rintro ⟨s', bs''⟩ hfield
        have hle := (h ty id s).length_le hfield
        exact ih (by omega) (by omega)

theorem Framed.fold (h : ∀ ty id s, Framed (decode ty id s)) (s : σ) :
    Framed fun bs => decodeFold decode bs.length s bs := by
  have hfold {n : Nat} {s s' : σ} {bs rest : Bytes} (hd : decodeFold decode n s bs = some (s', rest)) :
      ∃ front, bs = front ++ rest ∧ ∀ rest' m, (front ++ rest').length ≤ m →
        decodeFold decode m s (front ++ rest') = some (s', rest') := by
    induction n generalizing s bs with
    | zero => cases hd
    | succ n ih =>
      rw [decodeFold] at hd
      obtain ⟨⟨begin?, bs₁⟩, hbegin, hd₁⟩ := Option.bind_eq_some_iff.mp hd
      obtain ⟨front, rfl, hfront⟩ := framed_decodeFieldBegin _ _ _ hbegin
      cases begin? with
      | none =>
        obtain ⟨rfl, rfl⟩ := Prod.mk.inj (Option.some.inj hd₁)
        obtain rfl : front = [0] :=
          List.append_cancel_right ((decodeFieldBegin_eq_none.mp hbegin).trans rfl)
        refine ⟨[0], rfl, fun rest' m hm => ?_⟩
        obtain ⟨m, rfl⟩ : ∃ k, m = k + 1 := ⟨m - 1, by simp at hm; omega⟩
        rfl
      | some begin? =>
        obtain ⟨ty, id⟩ := begin?
        obtain ⟨⟨s₁, bs₂⟩, hfield, hd₂⟩ := Option.bind_eq_some_iff.mp hd₁
        obtain ⟨front₁, rfl, hfront₁⟩ := h ty id s _ _ _ hfield
        obtain ⟨front₂, rfl, hfront₂⟩ := ih hd₂
        have hpos : 0 < front.length := by
          have hlen := congrArg List.length (decodeFieldBegin_eq_some.mp hbegin)
          simp only [List.length_append, List.length_cons] at hlen
          omega
        refine ⟨front ++ (front₁ ++ front₂), by simp only [List.append_assoc], fun rest' m hm => ?_⟩
        simp only [List.append_assoc, List.length_append] at hm ⊢
        obtain ⟨m, rfl⟩ : ∃ k, m = k + 1 := ⟨m - 1, by omega⟩
        rw [decodeFold, hfront, Option.bind_some]
        simp only [hfront₁, Option.bind_some]
        exact hfront₂ rest' m (by rw [List.length_append]; omega)
  intro bs s' rest hd
  obtain ⟨front, hbs, hfront⟩ := hfold hd
  exact ⟨front, hbs, fun rest' => hfront rest' _ (Nat.le_refl _)⟩

end

/-! ## Shapes -/

/-- What a reader recognises as the value of a field. All else is skipped, as is all that has
another type; a struct knows its fields by their ids. -/
inductive Shape where
  | unknown | string | binary | i32 | i64 | i32List
  | struct (fields : Int16 → Shape)

namespace Shape

def ty? : Shape → Option Ty
  | unknown => none
  | string | binary => some .string
  | i32 => some .i32
  | i64 => some .i64
  | i32List => some .list
  | struct _ => some .struct

end Shape

/-- What is kept of a value: of a struct, the last value of each field that is recognised. -/
inductive Content where
  | string (value : String)
  | binary (bytes : Bytes)
  | i32 (value : Int32)
  | i64 (value : Int64)
  | i32List (values : List Int32)
  | struct (fields : Int16 → Option Content)

abbrev Record := Int16 → Option Content

def Record.empty : Record := fun _ => none

def decodeI32List (bs : Bytes) : Option (List Int32 × Bytes) :=
  (decodeU8 bs).bind fun (elementType, bs) => (decodeSize bs).bind fun (len, bs) =>
    decodeGetInfoElements elementType len bs

def decodeSkipped (ty : Ty) : Bytes → Option (Unit × Bytes) :=
  skipping (Thrift.Value.decodeWithin maxContainerElements (maxSkipDepth + 1) ty)

def Shape.decode : Shape → Bytes → Option (Content × Bytes)
  | unknown, _ => none
  | string, bs => (decodeString bs).map fun (x, bs) => (.string x, bs)
  | binary, bs => (decodeBinary bs).map fun (x, bs) => (.binary x, bs)
  | i32, bs => (decodeI32 bs).map fun (x, bs) => (.i32 x, bs)
  | i64, bs => (decodeI64 bs).map fun (x, bs) => (.i64 x, bs)
  | i32List, bs => (decodeI32List bs).map fun (x, bs) => (.i32List x, bs)
  | struct fields, bs =>
    (decodeFold (fun ty id (record : Record) bs =>
      if (fields id).ty? = some ty then
        ((fields id).decode bs).map fun (x, bs) => (Function.update record id (some x), bs)
      else (decodeSkipped ty bs).map fun (_, bs) => (record, bs))
      bs.length .empty bs).map fun (record, bs) => (.struct record, bs)

/-! ## Fields -/

/-- A field in front of the STOP of a struct. -/
structure RawField where
  id : Int16
  ty : Ty
  bytes : Bytes

/-- A field whose value is of no interest. -/
def RawField.ofValue (id : Int16) (v : Thrift.Value) : RawField := ⟨id, v.ty, v.encode⟩

def RawField.encode (f : RawField) : Bytes := f.ty.code :: (encodeI16 f.id ++ f.bytes)

/-- The bytes of a value that has a shape. -/
def Shape.Takes : Shape → Bytes → Prop
  | unknown, _ => False
  | string, bytes => ∃ value, (utf8 value).length < 2 ^ 31 ∧ bytes = writeString value
  | binary, bytes => ∃ value, value.length < 2 ^ 31 ∧ bytes = writeBinary value
  | i32, bytes => ∃ value, bytes = encodeI32 value
  | i64, bytes => ∃ value, bytes = encodeI64 value
  | i32List, bytes => ∃ elementType n elements, n < 2 ^ 31 ∧
    GetInfoElements elementType n elements ∧ bytes = elementType :: (encodeSize n ++ elements)
  | struct fields, bytes => ∃ fs : List RawField,
    (∀ f ∈ fs, if (fields f.id).ty? = some f.ty then (fields f.id).Takes f.bytes
      else ∃ v, Skippable v ∧ f = .ofValue f.id v) ∧ bytes = fs.flatMap (·.encode) ++ [0]

section
variable (fields : Int16 → Shape)

/-- A field is recognised where its type is the one that its id has there. -/
def Recognised (id : Int16) (ty : Ty) : Prop := (fields id).ty? = some ty

instance (id : Int16) (ty : Ty) : Decidable (Recognised fields id ty) :=
  inferInstanceAs (Decidable (_ = _))

/-- A field that is read: one that is recognised, or one that is skipped. -/
def TakesField (f : RawField) : Prop :=
  if Recognised fields f.id f.ty then (fields f.id).Takes f.bytes
  else ∃ v, Skippable v ∧ f = .ofValue f.id v

def decodeRecordField (ty : Ty) (id : Int16) (record : Record) (bs : Bytes) :
    Option (Record × Bytes) :=
  if Recognised fields id ty then
    ((fields id).decode bs).map fun (x, bs) => (Function.update record id (some x), bs)
  else (decodeSkipped ty bs).map fun (_, bs) => (record, bs)

/-- The fields of a struct, up to its STOP. -/
def decodeRecord (record : Record) (bs : Bytes) : Option (Record × Bytes) :=
  decodeFold (decodeRecordField fields) bs.length record bs

theorem takes_struct {bytes : Bytes} : (Shape.struct fields).Takes bytes ↔
    ∃ fs : List RawField, (∀ f ∈ fs, TakesField fields f) ∧
      bytes = fs.flatMap (·.encode) ++ [0] := Iff.rfl

theorem decode_struct (bs : Bytes) : (Shape.struct fields).decode bs =
    (decodeRecord fields .empty bs).map fun (record, bs) => (.struct record, bs) := rfl

end

/-! ## Shapes and their bytes -/

theorem framed_decodeSkipped (ty : Ty) : Framed (decodeSkipped ty) :=
  (Framed.of_iff fun _ _ _ => Thrift.Value.decodeWithin_eq_some maxContainerElements_lt ..).skipping

theorem decodeBinary_eq_some {bs rest : Bytes} {value : Bytes} :
    decodeBinary bs = some (value, rest) ↔ value.length < 2 ^ 31 ∧ bs = writeBinary value ++ rest := by
  simp only [decodeBinary, Option.bind_eq_some_iff, Prod.exists, decodeSize_eq_some,
    takeBytes_eq_some]
  constructor
  · rintro ⟨n, _, ⟨hn, rfl⟩, rfl, rfl⟩
    exact ⟨hn, by rw [writeBinary, List.append_assoc]; rfl⟩
  · rintro ⟨hlen, rfl⟩
    exact ⟨_, _, ⟨hlen, by rw [writeBinary, List.append_assoc]; rfl⟩, rfl, rfl⟩

theorem framed_decodeGetInfoElements (elementType : UInt8) (len : Nat) :
    Framed (decodeGetInfoElements elementType len) := by
  unfold decodeGetInfoElements
  by_cases h : elementType ≠ tI32
  · simp only [if_pos h]
    exact (((Framed.of_iff (decodes_decodeSkip elementType)).many len).skipping).map fun _ => []
  · simp only [if_neg h]
    exact (Framed.of_iff (Decodes.of_iff fun _ _ _ => decodeI32_eq_some)).many len

theorem framed_decodeI32List : Framed decodeI32List := by
  have hsize : Framed decodeSize := .of_iff fun _ _ _ => decodeSize_eq_some
  have hcode : Framed decodeU8 :=
    @Framed.of_iff _ _ (fun b => [b]) _ (Decodes.of_iff fun _ _ _ => decodeU8_eq_some)
  exact hcode.bind fun elementType => hsize.bind fun len => framed_decodeGetInfoElements elementType len

theorem exists_decodeI32List {bs rest : Bytes} :
    (∃ values, decodeI32List bs = some (values, rest)) ↔
      ∃ bytes, Shape.i32List.Takes bytes ∧ bs = bytes ++ rest := by
  have helements (elementType : UInt8) (len : Nat) (bs : Bytes) :=
    @exists_decodeGetInfoElements elementType len bs rest
  constructor
  · rintro ⟨values, h⟩
    obtain ⟨⟨elementType, bs₁⟩, hcode, h⟩ := Option.bind_eq_some_iff.mp h
    obtain ⟨⟨n, bs₂⟩, hsize, h⟩ := Option.bind_eq_some_iff.mp h
    obtain ⟨elements, helem, rfl⟩ := (helements elementType n bs₂).mp ⟨values, h⟩
    obtain ⟨hn, rfl⟩ := decodeSize_eq_some.mp hsize
    obtain rfl := decodeU8_eq_some.mp hcode
    refine ⟨_, ?_, by rw [List.cons_append, List.append_assoc]⟩
    rw [Shape.Takes]
    exact ⟨elementType, n, elements, hn, helem, rfl⟩
  · rintro ⟨bytes, hbytes, rfl⟩
    rw [Shape.Takes] at hbytes
    obtain ⟨elementType, n, elements, hn, helem, rfl⟩ := hbytes
    obtain ⟨values, hvalues⟩ := (helements elementType n _).mpr ⟨elements, helem, rfl⟩
    have hsize := decodeSize_encodeSize hn (elements ++ rest)
    refine ⟨values, Option.bind_eq_some_iff.mpr ⟨(elementType, encodeSize n ++ (elements ++ rest)),
      ?_, Option.bind_eq_some_iff.mpr ⟨_, hsize, hvalues⟩⟩⟩
    rw [List.cons_append, List.append_assoc]
    rfl

section
variable {fields : Int16 → Shape}

theorem Framed.recordField {ty : Ty} {id : Int16} (h : Framed (fields id).decode) (record : Record) :
    Framed (decodeRecordField fields ty id record) := by
  unfold decodeRecordField
  by_cases hty : Recognised fields id ty
  · simp only [if_pos hty]
    exact h.map fun x => Function.update record id (some x)
  · simp only [if_neg hty]
    exact (framed_decodeSkipped ty).map fun _ => record

theorem framed_decode (shape : Shape) : Framed shape.decode := by
  induction shape with
  | unknown => exact fun _ _ _ h => nomatch h
  | string =>
    exact (Framed.of_iff fun _ _ _ => decodeString_eq_some).map Content.string
  | binary => exact (Framed.of_iff fun _ _ _ => decodeBinary_eq_some).map Content.binary
  | i32 => exact (Framed.of_iff (Decodes.of_iff fun _ _ _ => decodeI32_eq_some)).map Content.i32
  | i64 => exact (Framed.of_iff (Decodes.of_iff fun _ _ _ => decodeI64_eq_some)).map Content.i64
  | i32List => exact framed_decodeI32List.map Content.i32List
  | struct fields ih =>
    exact (Framed.fold (fun ty id => (ih id).recordField) Record.empty).map Content.struct

theorem framed_decodeRecordField (ty : Ty) (id : Int16) (record : Record) :
    Framed (decodeRecordField fields ty id record) := (framed_decode _).recordField record

theorem framed_decodeRecord (record : Record) : Framed (decodeRecord fields record) :=
  .fold framed_decodeRecordField record

/-- One turn of the loop over the fields. -/
theorem decodeRecord_field (ty : Ty) (id : Int16) (record : Record) (bs : Bytes) :
    decodeRecord fields record (ty.code :: (encodeI16 id ++ bs)) =
      (decodeRecordField fields ty id record bs).bind fun (record, bs) =>
        decodeRecord fields record bs := by
  rw [decodeRecord, List.length_cons, decodeFold, decodeFieldBegin_eq_some.mpr rfl, Option.bind_some]
  refine Option.bind_congr ?_
  rintro ⟨record', bs'⟩ hfield
  have hle := (framed_decodeRecordField ty id record).length_le hfield
  refine decodeFold_congr framed_decodeRecordField ?_ (Nat.le_refl _)
  rw [List.length_append]
  omega

theorem decodeRecord_stop (record : Record) (bs : Bytes) :
    decodeRecord fields record (0 :: bs) = some (record, bs) := rfl

theorem decodeSkipped_eq_some {ty : Ty} {bs rest : Bytes} :
    decodeSkipped ty bs = some ((), rest) ↔ ∃ v, Skippable v ∧ v.ty = ty ∧ bs = v.encode ++ rest :=
  skipping_decodeWithin_eq_some

theorem exists_decodeRecordField {ty : Ty} {id : Int16} (record : Record) {bs rest : Bytes}
    (h : ∀ bs rest, (∃ x, (fields id).decode bs = some (x, rest)) ↔
      ∃ bytes, (fields id).Takes bytes ∧ bs = bytes ++ rest) :
    (∃ record', decodeRecordField fields ty id record bs = some (record', rest)) ↔
      ∃ bytes, TakesField fields ⟨id, ty, bytes⟩ ∧ bs = bytes ++ rest := by
  unfold decodeRecordField TakesField
  by_cases hty : Recognised fields id ty
  · simp only [if_pos hty, Option.map_eq_some_iff, Prod.exists, Prod.mk.injEq, ← h bs rest]
    constructor
    · rintro ⟨_, x, _, hx, -, rfl⟩
      exact ⟨x, hx⟩
    · rintro ⟨x, hx⟩
      exact ⟨_, x, rest, hx, rfl, rfl⟩
  · simp only [if_neg hty, Option.map_eq_some_iff, Prod.exists, Prod.mk.injEq]
    constructor
    · rintro ⟨_, ⟨⟩, _, hx, -, rfl⟩
      obtain ⟨v, hv, rfl, rfl⟩ := decodeSkipped_eq_some.mp hx
      exact ⟨_, ⟨v, hv, rfl⟩, rfl⟩
    · rintro ⟨_, ⟨v, hv, hf⟩, rfl⟩
      obtain ⟨-, rfl, rfl⟩ := RawField.mk.inj hf
      exact ⟨record, (), rest, decodeSkipped_eq_some.mpr ⟨v, hv, rfl, rfl⟩, rfl, rfl⟩

/-- The structs that are read are the sequences of fields that are read, with a STOP behind. -/
theorem exists_decodeRecord
    (h : ∀ id bs rest, (∃ x, (fields id).decode bs = some (x, rest)) ↔
      ∃ bytes, (fields id).Takes bytes ∧ bs = bytes ++ rest)
    (record : Record) {bs rest : Bytes} :
    (∃ record', decodeRecord fields record bs = some (record', rest)) ↔
      ∃ bytes, (Shape.struct fields).Takes bytes ∧ bs = bytes ++ rest := by
  simp only [takes_struct]
  constructor
  · rintro ⟨record', hd⟩
    induction hlen : bs.length using Nat.strong_induction_on generalizing bs record with
    | _ n ih =>
    subst hlen
    cases hbegin : decodeFieldBegin bs with
    | none =>
      cases bs with
      | nil => cases hd
      | cons b bs =>
        rw [decodeRecord, List.length_cons, decodeFold, hbegin] at hd
        cases hd
    | some p =>
      obtain ⟨begin?, bs'⟩ := p
      cases begin? with
      | none =>
        obtain rfl := decodeFieldBegin_eq_none.mp hbegin
        obtain ⟨-, rfl⟩ := Prod.mk.inj (Option.some.inj hd)
        exact ⟨[0], ⟨[], List.forall_mem_nil _, rfl⟩, rfl⟩
      | some begin? =>
        obtain ⟨ty, id⟩ := begin?
        obtain rfl := decodeFieldBegin_eq_some.mp hbegin
        rw [decodeRecord_field] at hd
        obtain ⟨⟨record₁, bs₁⟩, hfield, hd₁⟩ := Option.bind_eq_some_iff.mp hd
        obtain ⟨bytes, hbytes, rfl⟩ := (exists_decodeRecordField record (h id)).mp ⟨_, hfield⟩
        obtain ⟨_, ⟨fs, hfs, rfl⟩, rfl⟩ := ih bs₁.length
          (by simp only [List.length_cons, List.length_append]; omega) _ hd₁ rfl
        refine ⟨_, ⟨⟨id, ty, bytes⟩ :: fs, List.forall_mem_cons.mpr ⟨hbytes, hfs⟩, rfl⟩, ?_⟩
        simp [RawField.encode]
  · rintro ⟨_, ⟨fs, hfs, rfl⟩, rfl⟩
    induction fs generalizing record with
    | nil => exact ⟨record, decodeRecord_stop record rest⟩
    | cons f fs ih =>
      obtain ⟨id, ty, bytes⟩ := f
      obtain ⟨hf, hfs⟩ := List.forall_mem_cons.mp hfs
      obtain ⟨record₁, hrecord₁⟩ := (exists_decodeRecordField record (h id)).mpr
        ⟨bytes, hf, rfl⟩
      obtain ⟨record', hrecord'⟩ := ih record₁ hfs
      refine ⟨record', ?_⟩
      simp only [List.flatMap_cons, RawField.encode, List.append_assoc, List.cons_append] at hrecord' ⊢
      rw [decodeRecord_field, hrecord₁]
      exact hrecord'

theorem exists_decode (shape : Shape) (bs rest : Bytes) :
    (∃ x, shape.decode bs = some (x, rest)) ↔ ∃ bytes, shape.Takes bytes ∧ bs = bytes ++ rest := by
  induction shape generalizing bs rest with
  | unknown => simp [Shape.decode, Shape.Takes]
  | struct fields ih =>
    rw [← exists_decodeRecord ih .empty]
    simp [decode_struct]
  | i32List =>
    rw [← exists_decodeI32List]
    simp [Shape.decode]
  | string => simp [Shape.decode, Shape.Takes, decodeString_eq_some]
  | binary => simp [Shape.decode, Shape.Takes, decodeBinary_eq_some]
  | i32 => simp [Shape.decode, Shape.Takes, decodeI32_eq_some]
  | i64 => simp [Shape.decode, Shape.Takes, decodeI64_eq_some]

/-! ## Edits -/

/-- What a field does to the record: nothing, where it is skipped. -/
def Record.put (record : Record) (id : Int16) : Option Content → Record
  | none => record
  | some x => Function.update record id (some x)

theorem Record.put_comm (record : Record) {id id' : Int16} (h : id ≠ id') (x x' : Option Content) :
    (record.put id x).put id' x' = (record.put id' x').put id x := by
  cases x with
  | none => rfl
  | some x =>
    cases x' with
    | none => rfl
    | some x' => exact Function.update_comm h (some x) (some x') record

theorem Record.put_put (record : Record) (id : Int16) (x : Option Content) (x' : Content) :
    (record.put id x).put id (some x') = record.put id (some x') := by
  cases x with
  | none => rfl
  | some x => exact Function.update_idem (β := fun _ => Option Content) (some x) (some x') record

/-- A field does the same to every record, whatever is behind it. -/
theorem TakesField.decode {f : RawField} (h : TakesField fields f) : ∃ x : Option Content,
    (Recognised fields f.id f.ty → x.isSome) ∧ ∀ record rest,
      decodeRecord fields record (f.encode ++ rest) = decodeRecord fields (record.put f.id x) rest := by
  have hfield (x : Option Content) (hx : ∀ record rest,
      decodeRecordField fields f.ty f.id record (f.bytes ++ rest) = some (record.put f.id x, rest))
      (record : Record) (rest : Bytes) :
      decodeRecord fields record (f.encode ++ rest) = decodeRecord fields (record.put f.id x) rest := by
    rw [RawField.encode, List.cons_append, List.append_assoc, decodeRecord_field, hx,
      Option.bind_some]
  unfold TakesField at h
  by_cases hty : Recognised fields f.id f.ty
  · rw [if_pos hty] at h
    obtain ⟨x, hx⟩ := (exists_decode _ _ []).mpr ⟨_, h, (List.append_nil _).symm⟩
    obtain ⟨front, hfront, hx⟩ := framed_decode _ _ _ _ hx
    obtain rfl := hfront.trans (List.append_nil _)
    refine ⟨some x, fun _ => rfl, hfield _ fun record rest => ?_⟩
    rw [decodeRecordField, if_pos hty, hx, Option.map_some]
    rfl
  · rw [if_neg hty] at h
    obtain ⟨v, hv, hf⟩ := h
    refine ⟨none, fun h => absurd h hty, hfield _ fun record rest => ?_⟩
    have hskip : decodeSkipped f.ty (f.bytes ++ rest) = some ((), rest) := by
      rw [hf]
      exact decodeSkipped_eq_some.mpr ⟨v, hv, rfl, rfl⟩
    rw [decodeRecordField, if_neg hty, hskip, Option.map_some]
    rfl

theorem TakesField.of_skippable {id : Int16} {v : Thrift.Value}
    (h : ¬ Recognised fields id v.ty) (hv : Skippable v) : TakesField fields (.ofValue id v) := by
  have hnot : ¬ Recognised fields (RawField.ofValue id v).id (RawField.ofValue id v).ty := h
  rw [TakesField, if_neg hnot]
  exact ⟨v, hv, rfl⟩

/-- A field that is not recognised does nothing. -/
theorem decodeRecord_skip {id : Int16} {v : Thrift.Value} (h : ¬ Recognised fields id v.ty)
    (hv : Skippable v) (record : Record) (rest : Bytes) :
    decodeRecord fields record ((RawField.ofValue id v).encode ++ rest) =
      decodeRecord fields record rest := by
  rw [RawField.encode, List.cons_append, List.append_assoc, decodeRecord_field, decodeRecordField]
  have hnot : ¬ Recognised fields (RawField.ofValue id v).id (RawField.ofValue id v).ty := h
  have hskip : decodeSkipped (RawField.ofValue id v).ty ((RawField.ofValue id v).bytes ++ rest) =
      some ((), rest) := decodeSkipped_eq_some.mpr ⟨v, hv, rfl, rfl⟩
  rw [if_neg hnot, hskip]
  rfl

theorem decodeRecord_swap {f g : RawField} (hf : TakesField fields f) (hg : TakesField fields g)
    (hne : f.id ≠ g.id) (record : Record) (rest : Bytes) :
    decodeRecord fields record (f.encode ++ (g.encode ++ rest)) =
      decodeRecord fields record (g.encode ++ (f.encode ++ rest)) := by
  obtain ⟨x, -, hx⟩ := hf.decode
  obtain ⟨y, -, hy⟩ := hg.decode
  rw [hx, hy, hy, hx, record.put_comm hne]

/-- What a field has put does not matter in front of another field that puts it anew. -/
theorem decodeRecord_put {g : RawField} (hg : TakesField fields g)
    (hrec : Recognised fields g.id g.ty) {fs : List RawField} (hfs : ∀ f ∈ fs, TakesField fields f)
    (x : Option Content) (record : Record) (rest : Bytes) :
    decodeRecord fields (record.put g.id x) (fs.flatMap (·.encode) ++ (g.encode ++ rest)) =
      decodeRecord fields record (fs.flatMap (·.encode) ++ (g.encode ++ rest)) := by
  induction fs generalizing record with
  | nil =>
    obtain ⟨y, hsome, hy⟩ := hg.decode
    obtain ⟨y, rfl⟩ := Option.isSome_iff_exists.mp (hsome hrec)
    rw [List.flatMap_nil, List.nil_append, hy, hy, record.put_put]
  | cons f fs ih =>
    obtain ⟨hf, hfs⟩ := List.forall_mem_cons.mp hfs
    obtain ⟨y, -, hy⟩ := hf.decode
    rw [List.flatMap_cons, List.append_assoc, hy, hy]
    by_cases hid : g.id = f.id
    · cases y with
      | none => exact ih hfs record
      | some y => rw [← hid, record.put_put]
    · rw [record.put_comm hid]
      exact ih hfs _

theorem decodeRecord_overwrite {f g : RawField} (hf : TakesField fields f)
    (hg : TakesField fields g) (hrec : Recognised fields g.id g.ty) (hid : f.id = g.id)
    {fs : List RawField} (hfs : ∀ f ∈ fs, TakesField fields f) (record : Record) (rest : Bytes) :
    decodeRecord fields record (f.encode ++ (fs.flatMap (·.encode) ++ (g.encode ++ rest))) =
      decodeRecord fields record (fs.flatMap (·.encode) ++ (g.encode ++ rest)) := by
  obtain ⟨x, -, hx⟩ := hf.decode
  rw [hx, hid]
  exact decodeRecord_put hg hrec hfs x record rest

end

/-- The edits of the fields of a struct, and of those within them, that are to keep what is read:
`Edit fields bs bs'` takes the bytes `bs` from a field of the struct on to `bs'`. -/
inductive Edit : (Int16 → Shape) → Bytes → Bytes → Prop
  /-- A field that is not recognised is inserted. -/
  | insert {fields : Int16 → Shape} {id : Int16} {v : Thrift.Value} {rest : Bytes} :
    ¬ Recognised fields id v.ty → Skippable v →
    Edit fields rest ((RawField.ofValue id v).encode ++ rest)
  /-- Neighbours with different ids are swapped. -/
  | swap {fields : Int16 → Shape} {f g : RawField} {rest : Bytes} : TakesField fields f →
    TakesField fields g → f.id ≠ g.id →
    Edit fields (f.encode ++ (g.encode ++ rest)) (g.encode ++ (f.encode ++ rest))
  /-- A field is inserted that a later one of the same id and type overwrites. -/
  | overwritten {fields : Int16 → Shape} {f g : RawField} {fs : List RawField} {rest : Bytes} :
    TakesField fields f → (∀ f ∈ fs, TakesField fields f) → TakesField fields g →
    Recognised fields g.id g.ty → f.id = g.id → f.ty = g.ty →
    Edit fields (fs.flatMap (·.encode) ++ (g.encode ++ rest))
      (f.encode ++ (fs.flatMap (·.encode) ++ (g.encode ++ rest)))
  /-- An edit behind a field. -/
  | behind {fields : Int16 → Shape} {f : RawField} {rest rest' : Bytes} : TakesField fields f →
    Edit fields rest rest' → Edit fields (f.encode ++ rest) (f.encode ++ rest')
  /-- An edit inside the struct that is the value of a field. -/
  | inside {fields sub : Int16 → Shape} {id : Int16} {rest rest' : Bytes} :
    fields id = .struct sub → Edit sub rest rest' →
    Edit fields (tStruct :: (encodeI16 id ++ rest)) (tStruct :: (encodeI16 id ++ rest'))

theorem Edit.decodeRecord_eq {fields : Int16 → Shape} {bs bs' : Bytes} (h : Edit fields bs bs')
    (record : Record) : decodeRecord fields record bs = decodeRecord fields record bs' := by
  induction h generalizing record with
  | insert hne hv => exact (decodeRecord_skip hne hv record _).symm
  | swap hf hg hne => exact decodeRecord_swap hf hg hne record _
  | overwritten hf hfs hg hrec hid _ => exact (decodeRecord_overwrite hf hg hrec hid hfs record _).symm
  | behind hf _ ih =>
    obtain ⟨x, -, hx⟩ := hf.decode
    rw [hx, hx, ih]
  | @inside fields sub id rest rest' hsub _ ih =>
    have hrec : Recognised fields id .struct := by rw [Recognised, hsub]; rfl
    have hfield : decodeRecordField fields .struct id record rest =
        decodeRecordField fields .struct id record rest' := by
      rw [decodeRecordField, decodeRecordField, if_pos hrec, if_pos hrec, hsub, decode_struct,
        decode_struct, ih]
    change decodeRecord fields record (Ty.struct.code :: _) =
      decodeRecord fields record (Ty.struct.code :: _)
    rw [decodeRecord_field, decodeRecord_field, hfield]

end HarborSql.Reader
