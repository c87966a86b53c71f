import HarborSql.Theory.Bitmap
import HarborSql.Theory.Except
import HarborSql.Thrift.ResultEncoding
import HarborSql.Verify.Results.Paging

/-! A row set is the encoding of one Thrift struct, from which a client reads the cells of every
column and which of them are null. -/

namespace HarborSql

open Writer

/-! ## Cells -/

namespace PhysicalType

/-- The field of a column's struct that holds a column of the type. -/
def fieldId : PhysicalType → Int16
  | bool => 1 | i32 => 4 | i64 => 5 | f64 => 6 | string => 7 | binary => 8

/-- The type of the values of a column. -/
def ty : PhysicalType → Thrift.Ty
  | bool => .bool | i32 => .i32 | i64 => .i64 | f64 => .double | string => .string
  | binary => .string

end PhysicalType

namespace ThriftValue

def toThrift : ThriftValue → Thrift.Value
  | bool value => .bool value.toUInt8
  | i32 value => .i32 value
  | i64 value => .i64 value
  | f64 bits => .double bits
  | string value => .string (utf8 value)
  | binary value => .string value

def physicalType : ThriftValue → PhysicalType
  | bool _ => .bool | i32 _ => .i32 | i64 _ => .i64 | f64 _ => .f64 | string _ => .string
  | binary _ => .binary

theorem write_eq (v : ThriftValue) : v.write = v.toThrift.encode := by
  cases v <;> simp [write, toThrift, Thrift.Value.encode, writeBool, writeI32, writeI64,
    writeDouble, writeString, writeBinary, Thrift.encodeSize]

theorem ty_toThrift (v : ThriftValue) : v.toThrift.ty = v.physicalType.ty := by cases v <;> rfl

end ThriftValue

section
variable (F : Formatting)

/-- The value of a column of a physical type at a cell. -/
def readValue (physicalType : PhysicalType) (dt : DataType) (row : Nat) (v : Value) :
    Result ThriftValue :=
  match physicalType with
  | .bool => .bool <$> arrowValueToBool F dt v
  | .i32 => .i32 <$> arrowValueToI32 F dt v
  | .i64 => .i64 <$> arrowValueToI64 F dt v
  | .f64 => .f64 <$> arrowValueToF64 F dt v
  | .string => .string <$> arrowValueToString F dt row v
  | .binary => .binary <$> arrowValueToBinary F dt v

theorem physicalType_readValue {pt : PhysicalType} {dt : DataType} {row : Nat} {v : Value}
    {t : ThriftValue} (h : readValue F pt dt row v = .ok t) : t.physicalType = pt := by
  cases pt <;> obtain ⟨x, -, rfl⟩ := Except.map_eq_ok.mp h <;> rfl

/-- The columns of all physical types are written in one way. -/
theorem writeColumn_eq (encoder : ColumnEncoder) (j : Nat) (page : QueryResultPage) :
    writeColumn F encoder j page = do
      let pt := encoder.physicalType
      let values ← writeColumnValues pt.ty.code page j (readValue F pt)
      return writeField tStruct pt.fieldId values ++ writeStop := by
  have hfield (id : Int16) (values : Result Bytes) :
      (do return (← writeFieldResult tStruct id values) ++ writeStop) =
        (do return writeField tStruct id (← values) ++ writeStop : Result Bytes) := by
    cases values <;> rfl
  obtain ⟨schemaType, pt, decimal⟩ := encoder
  cases pt <;> exact hfield _ _

/-! ## Reading a cell back

The value of a cell of a plain type is read back from what is sent for it. The other cells are
sent as their text. -/

/-- The types whose values are sent as they are. -/
def DataType.isPlain : DataType → Bool
  | boolean | int8 | int16 | int32 | int64 | uint8 | uint16 | uint32 | uint64 | float64
  | utf8 | largeUtf8 | utf8View | binary | largeBinary | fixedSizeBinary _ => true
  | _ => false

def readBack (dt : DataType) (t : Thrift.Value) : Option Value :=
  match dt, t with
  | .boolean, .bool b => some (.boolean (b != 0))
  | .int8, .i32 n => some (.int8 n.toInt8)
  | .int16, .i32 n => some (.int16 n.toInt16)
  | .int32, .i32 n => some (.int32 n)
  | .int64, .i64 n => some (.int64 n)
  | .uint8, .i64 n => some (.uint8 n.toUInt64.toUInt8)
  | .uint16, .i64 n => some (.uint16 n.toUInt64.toUInt16)
  | .uint32, .i64 n => some (.uint32 n.toUInt64.toUInt32)
  | .uint64, .i64 n => some (.uint64 n.toUInt64)
  | .float64, .double bits => some (.float64 bits)
  | .utf8, .string bytes | .largeUtf8, .string bytes | .utf8View, .string bytes =>
    (String.fromUTF8? ⟨bytes.toArray⟩).map .string
  | .binary, .string bytes | .largeBinary, .string bytes | .fixedSizeBinary _, .string bytes =>
    some (.binary bytes)
  | _, _ => none

theorem readBack_readValue {dt : DataType} {encoder : ColumnEncoder} {row : Nat} {v : Value}
    {t : ThriftValue} (hdt : dt.isPlain) (he : columnEncoder F dt = .ok encoder)
    (hv : v.HasType dt) (hnull : v.isNull = false)
    (h : readValue F encoder.physicalType dt row v = .ok t) : readBack dt t.toThrift = some v := by
  cases hv with
  | null => cases hnull
  | @boolean b =>
    cases he
    cases h
    cases b <;> rfl
  | @uint64 n =>
    cases he
    obtain ⟨x, hx, rfl⟩ := Except.map_eq_ok.mp h
    simp only [arrowValueToI64] at hx
    split at hx
    · cases hx
      simp [ThriftValue.toThrift, readBack]
    · cases hx
  | int8 | int16 | int32 | int64 | uint8 | uint16 | uint32 | float64 | binary | largeBinary
  | fixedSizeBinary =>
    cases he
    cases h
    simp [ThriftValue.toThrift, readBack]
  | utf8 | largeUtf8 | utf8View =>
    cases he
    cases h
    simp [ThriftValue.toThrift, readBack, fromUTF8?_utf8]
  | other hother =>
    cases dt with
    | null | float16 | time32 | time64 | duration | interval | binaryView | union | dictionary
    | decimal32 | decimal64 | runEndEncoded => cases hdt
    | _ => cases hother
  | _ => cases hdt

/-! ## Rows in error texts

A cell reads the same on every row: the row is only named in the errors. -/

theorem formatDateValue_row {dt : DataType} {row : Nat} (row' : Nat) {v : Value} {s : String}
    (h : formatDateValue F dt row v = .ok s) : formatDateValue F dt row' v = .ok s := by
  rw [formatDateValue, Except.bind_eq_ok] at h ⊢
  obtain ⟨value, hvalue, h⟩ := h
  refine ⟨value, hvalue, ?_⟩
  cases value with
  | none => cases h
  | some dateTime => exact h

theorem formatTimestampValue_row {dt : DataType} {row : Nat} (row' : Nat) {v : Value} {s : String}
    (h : formatTimestampValue F dt row v = .ok s) : formatTimestampValue F dt row' v = .ok s := by
  rw [formatTimestampValue, Except.bind_eq_ok] at h ⊢
  obtain ⟨value, hvalue, h⟩ := h
  refine ⟨value, hvalue, ?_⟩
  cases value with
  | none => cases h
  | some dateTime => exact h

theorem databricksDisplayStruct_row {fields : List (String × DataType)} {row : Nat} (row' : Nat)
    (ih : ∀ f ∈ fields, ∀ v s, databricksDisplayValue F f.2 row v = .ok s →
      databricksDisplayValue F f.2 row' v = .ok s)
    {values : List Value} {texts : List String}
    (h : databricksDisplayStruct F fields row values = .ok texts) :
    databricksDisplayStruct F fields row' values = .ok texts := by
  induction fields generalizing values texts with
  | nil => exact h
  | cons field fields ihs =>
    cases values with
    | nil => exact h
    | cons v values =>
      obtain ⟨text, htext, h⟩ := Except.bind_eq_ok.mp h
      obtain ⟨rendered, hrendered, h⟩ := Except.bind_eq_ok.mp h
      exact Except.bind_eq_ok.mpr ⟨text, ih _ List.mem_cons_self v text htext,
        Except.bind_eq_ok.mpr ⟨rendered, ihs (fun f hf => ih f (List.mem_cons_of_mem _ hf)) hrendered,
          h⟩⟩

theorem databricksDisplayValue_row {dt : DataType} {row : Nat} (row' : Nat) {v : Value}
    {s : String} (h : databricksDisplayValue F dt row v = .ok s) :
    databricksDisplayValue F dt row' v = .ok s := by
  induction dt using DataType.nested_induction generalizing v s with
  | list | largeList | fixedSizeList | map => cases v <;> exact h
  | struct fields ih =>
    cases v with
    | struct values =>
      obtain ⟨texts, htexts, h⟩ := Except.bind_eq_ok.mp h
      exact Except.bind_eq_ok.mpr
        ⟨texts, databricksDisplayStruct_row F row' (fun f hf _ _ h => ih f hf h) htexts, h⟩
    | _ => exact h
  | flat dt h1 h2 h3 h4 h5 =>
    cases v with
    | null => cases dt <;> exact h
    | _ =>
      cases dt with
      | date32 => exact formatDateValue_row F row' h
      | date64 => exact formatDateValue_row F row' h
      | timestamp unit tz => exact formatTimestampValue_row F row' h
      | list item => exact absurd rfl (h1 _)
      | largeList item => exact absurd rfl (h2 _)
      | fixedSizeList item size => exact absurd rfl (h3 _ _)
      | map key value sorted => exact absurd rfl (h4 _ _ _)
      | struct fields => exact absurd rfl (h5 _)
      | _ => exact h

theorem arrowValueToString_row {dt : DataType} {row : Nat} (row' : Nat) {v : Value} {s : String}
    (h : arrowValueToString F dt row v = .ok s) : arrowValueToString F dt row' v = .ok s := by
  cases v with
  | null => cases dt <;> exact h
  | _ =>
    cases dt with
    | list | largeList | fixedSizeList | listView | largeListView | map | struct | decimal128
    | decimal256 =>
      have h : databricksDisplayValue F _ row _ = .ok s := h
      exact databricksDisplayValue_row F row' h
    | _ => exact h

theorem readValue_row {pt : PhysicalType} {dt : DataType} {row : Nat} (row' : Nat) {v : Value}
    {t : ThriftValue} (h : readValue F pt dt row v = .ok t) : readValue F pt dt row' v = .ok t := by
  cases pt with
  | string =>
    obtain ⟨s, hs, rfl⟩ := Except.map_eq_ok.mp h
    exact Except.map_eq_ok.mpr ⟨s, arrowValueToString_row F row' hs, rfl⟩
  | _ => exact h

end

/-! ## Columns -/

/-- The bitmap of a page has bit `i` set when the value of row `i` is null. -/
theorem nullBitset_eq {batches : List RecordBatch} {j n : Nat} :
    nullBitset batches j n = Bitmap.setBits (List.replicate ((n + 7) / 8) 0) 0
      ((columnValues batches j).map (·.isNull)) := by
  have hvalues (values : List Value) (nulls : Bytes) (k : Nat) :
      values.foldl (fun state v =>
        (if v.isNull then Bitmap.setBit state.1 state.2 else state.1, state.2 + 1)) (nulls, k) =
      (Bitmap.setBits nulls k (values.map (·.isNull)), k + values.length) := by
    induction values generalizing nulls k with
    | nil => rfl
    | cons v values ih =>
      rw [List.foldl_cons, ih, List.map_cons, Bitmap.setBits, List.length_cons]
      congr 1
      omega
  have hcolumn : ((batches.filterMap (·.columns[j]?)).foldl (fun state (array : ArrowArray) =>
        array.values.foldl (fun state v =>
          (if v.isNull then Bitmap.setBit state.1 state.2 else state.1, state.2 + 1)) state)
        (List.replicate ((n + 7) / 8) 0, 0)) =
      (columnValues batches j).foldl (fun state v =>
        (if v.isNull then Bitmap.setBit state.1 state.2 else state.1, state.2 + 1))
        (List.replicate ((n + 7) / 8) 0, 0) := by
    generalize (List.replicate ((n + 7) / 8) (0 : UInt8), 0) = state
    unfold columnValues
    induction batches generalizing state with
    | nil => rfl
    | cons b batches ih =>
      cases hb : b.columns[j]? with
      | none => simp [hb, ih]
      | some array => simp [hb, ih, List.foldl_append]
  exact (congrArg Prod.fst hcolumn).trans (congrArg Prod.fst (hvalues _ _ _))

theorem bit_nullBitset {batches : List RecordBatch} {j n i : Nat}
    (hn : (columnValues batches j).length = n) :
    Bitmap.bit (nullBitset batches j n) i = ((columnValues batches j).map (·.isNull)).getD i false := by
  subst hn
  rw [nullBitset_eq, ← Bitmap.bit_setBits_zero, List.length_map]

theorem length_nullBitset {batches : List RecordBatch} {j n : Nat} :
    (nullBitset batches j n).length = (n + 7) / 8 := by
  rw [nullBitset_eq, Bitmap.length_setBits, List.length_replicate]

/-- The struct that a column is written as. -/
def columnStruct (pt : PhysicalType) (values : List ThriftValue) (nulls : Bytes) : Thrift.Value :=
  .struct [(pt.fieldId, .struct [(1, .list pt.ty (values.map (·.toThrift))), (2, .string nulls)])]

section
variable {F : Formatting} {types : List DataType} {page : QueryResultPage} {j : Nat}
  {dt : DataType} {encoder : ColumnEncoder} {cell : Value → ThriftValue}
  (hconform : Conform types page.batches) (hj : types[j]? = some dt)
  (hcell : ∀ v ∈ columnValues page.batches j, readValue F encoder.physicalType dt 0 v = .ok (cell v))
include hconform hj hcell

/-- The values of a page are written one after the other, across batches. -/
theorem writeColumnValues_eq :
    writeColumnValues encoder.physicalType.ty.code page j (readValue F encoder.physicalType) =
      .ok (writeField tList 1 (writeListBegin encoder.physicalType.ty.code page.rowCount ++
          (columnValues page.batches j).flatMap fun v => (cell v).write) ++
        writeField tString 2 (writeBinary (nullBitset page.batches j page.rowCount)) ++
        writeStop) := by
  have hbatches : page.batches.mapM (writeBatchValues j (readValue F encoder.physicalType)) =
      .ok (page.batches.map fun b =>
        ((b.columns[j]?.map (·.values)).getD []).flatMap fun v => (cell v).write) := by
    refine Except.mapM_eq_map fun b hb => ?_
    obtain ⟨a, ha, rfl, -⟩ := hconform.getElem?_eq hb hj
    have hmem (v : Value) (hv : v ∈ a.values) : v ∈ columnValues page.batches j :=
      List.mem_flatMap.mpr ⟨b, hb, by simpa [ha] using hv⟩
    simp only [writeBatchValues, ha]
    rw [Except.mapM_zipIdx_eq_map fun v hv row => readValue_row F row (hcell v (hmem v hv))]
    exact congrArg Except.ok (List.flatMap_map ..)
  rw [writeColumnValues, hbatches]
  rw [columnValues, List.flatMap_assoc, List.flatMap_def]
  rfl

theorem writeColumn_eq_encode (hcount : rowCount page.batches = page.rowCount) :
    writeColumn F encoder j page = .ok (columnStruct encoder.physicalType
      ((columnValues page.batches j).map cell) (nullBitset page.batches j page.rowCount)).encode := by
  have hlen : (columnValues page.batches j).length = page.rowCount :=
    (hconform.length_columnValues hj).trans hcount
  rw [writeColumn_eq]
  simp only [writeColumnValues_eq hconform hj hcell]
  simp [columnStruct, Thrift.Value.encode, Thrift.Value.encodeFields, Thrift.Value.encodeList_eq,
    hlen, List.flatMap_map, ThriftValue.write_eq, bind, Except.bind, pure, Except.pure, writeField,
    writeStop, writeListBegin, writeBinary, writeI16, writeI32, Thrift.encodeSize, Thrift.Value.ty,
    Thrift.Ty.code, tStop, tList, tStruct, tString]

end

/-! ## Row sets -/

/-- The struct that a row set is written as. -/
def rowSetStruct (startRowOffset : Int64) (columns : List Thrift.Value) : Thrift.Value :=
  .struct [(1, .i64 startRowOffset), (2, .list .struct []), (3, .list .struct columns),
    (5, .i32 (.ofNat columns.length))]

/-- What a cell is sent as, or why it is not. -/
def encodeCell (F : Formatting) (dt : DataType) (v : Value) : Result ThriftValue := do
  let encoder ← columnEncoder F dt
  readValue F encoder.physicalType dt 0 v

/-- What a cell that the encoder supports is sent as. -/
def sentCell (F : Formatting) (dt : DataType) (v : Value) : ThriftValue :=
  Except.getD (encodeCell F dt v) (.bool false)

/-- The encoder of a column that has one. -/
def encoderOf (F : Formatting) (dt : DataType) : ColumnEncoder :=
  Except.getD (columnEncoder F dt) ⟨0, .bool, none⟩

/-- Rows whose types and values the encoder supports. The counts and lengths of Thrift are below
`2 ^ 31`. -/
structure Supported (F : Formatting) (types : List DataType) (batches : List RecordBatch) :
    Prop where
  length_lt : types.length < 2 ^ 31
  encoder : ∀ dt ∈ types, ∃ e, columnEncoder F dt = .ok e
  cell : ∀ j dt, types[j]? = some dt → ∀ v ∈ columnValues batches j,
    ∃ t, encodeCell F dt v = .ok t ∧ t.toThrift.WF

/-- The column of a page that a client reads: the values and the bitmap of the nulls. -/
structure DecodedColumn where
  values : List Thrift.Value
  nulls : Bytes

/-- The cells of a column: none for a null. -/
def DecodedColumn.cells (column : DecodedColumn) : List (Option Thrift.Value) :=
  column.values.zipIdx.map fun (v, i) => if Bitmap.bit column.nulls i then none else some v

structure DecodedRowSet where
  startRowOffset : Int64
  columns : List DecodedColumn

def Thrift.Value.field? (v : Thrift.Value) (id : Int16) : Option Thrift.Value :=
  match v with
  | .struct fields => fields.lookup id
  | _ => none

def decodeColumn (v : Thrift.Value) : Option DecodedColumn := do
  let .struct [(_, column)] := v | none
  let .list _ values ← column.field? 1 | none
  let .string nulls ← column.field? 2 | none
  return { values, nulls }

/-- The row set in some bytes. -/
def decodeRowSet (bytes : Bytes) : Option DecodedRowSet := do
  let (rowSet, []) ← Thrift.Value.decode .struct bytes | none
  let .i64 startRowOffset ← rowSet.field? 1 | none
  let .list _ columns ← rowSet.field? 3 | none
  let columns ← columns.mapM decodeColumn
  return { startRowOffset, columns }

theorem wf_columnStruct {pt : PhysicalType} {values : List ThriftValue} {nulls : Bytes}
    (hlen : values.length < 2 ^ 31) (hnulls : nulls.length < 2 ^ 31)
    (hty : ∀ t ∈ values, t.physicalType.ty = pt.ty) (hwf : ∀ t ∈ values, t.toThrift.WF) :
    (columnStruct pt values nulls).WF := by
  refine .struct ?_
  simp only [List.forall_mem_cons]
  refine ⟨.struct ?_, List.forall_mem_nil _⟩
  simp only [List.forall_mem_cons]
  refine ⟨.list ?_ ?_ ?_, .string hnulls, List.forall_mem_nil _⟩
  · rwa [List.length_map]
  · rw [List.forall_mem_map]
    intro t ht
    rw [t.ty_toThrift, hty t ht]
  · rwa [List.forall_mem_map]

theorem decodeColumn_columnStruct {pt : PhysicalType} {values : List ThriftValue} {nulls : Bytes} :
    decodeColumn (columnStruct pt values nulls) = some ⟨values.map (·.toThrift), nulls⟩ := rfl

theorem decodeRowSet_encode {start : Int64} {columns : List Thrift.Value}
    {decoded : List DecodedColumn} (hlen : columns.length < 2 ^ 31)
    (hty : ∀ c ∈ columns, c.ty = .struct) (hwf : ∀ c ∈ columns, c.WF)
    (h : columns.mapM decodeColumn = some decoded) :
    decodeRowSet (rowSetStruct start columns).encode = some ⟨start, decoded⟩ := by
  have hwf : (rowSetStruct start columns).WF := by
    refine .struct ?_
    simp only [List.forall_mem_cons]
    refine ⟨.i64, .list (by simp) (by simp) (by simp), .list hlen hty hwf, .i32, ?_⟩
    exact List.forall_mem_nil _
  have hdecode := Thrift.Value.decode_encode hwf []
  rw [List.append_nil] at hdecode
  have hty : (rowSetStruct start columns).ty = .struct := rfl
  rw [decodeRowSet, ← hty, hdecode]
  have hstart : (rowSetStruct start columns).field? 1 = some (.i64 start) := rfl
  have hcolumns : (rowSetStruct start columns).field? 3 = some (.list .struct columns) := rfl
  simp [hstart, hcolumns, h]

section
variable {F : Formatting} {types : List DataType} {page : QueryResultPage} {result : QueryResult}

/-- The columns that a page is written as. -/
def columnStructs (F : Formatting) (types : List DataType) (page : QueryResultPage) :
    List Thrift.Value :=
  types.zipIdx.map fun (dt, j) => columnStruct (encoderOf F dt).physicalType
    ((columnValues page.batches j).map (sentCell F dt)) (nullBitset page.batches j page.rowCount)

/-- The columns of a page as a client reads them. -/
def sentColumns (F : Formatting) (types : List DataType) (page : QueryResultPage) :
    List DecodedColumn :=
  types.zipIdx.map fun (dt, j) =>
    { values := (columnValues page.batches j).map fun v => (sentCell F dt v).toThrift
      nulls := nullBitset page.batches j page.rowCount }

theorem mapM_decodeColumn :
    (columnStructs F types page).mapM decodeColumn = some (sentColumns F types page) := by
  rw [columnStructs, List.mapM_map, sentColumns]
  have hdecode : (decodeColumn ∘ fun (p : DataType × Nat) =>
      columnStruct (encoderOf F p.1).physicalType
        ((columnValues page.batches p.2).map (sentCell F p.1))
        (nullBitset page.batches p.2 page.rowCount)) = fun p => pure
      { values := (columnValues page.batches p.2).map fun v => (sentCell F p.1 v).toThrift
        nulls := nullBitset page.batches p.2 page.rowCount } := by
    funext p
    rw [Function.comp_apply, decodeColumn_columnStruct, List.map_map]
    rfl
  exact (congrArg (types.zipIdx.mapM ·) hdecode).trans List.mapM_pure

variable (hconform : Conform types page.batches) (hs : Supported F types page.batches)
  (hcount : rowCount page.batches = page.rowCount)
include hs

theorem Supported.columnEncoder_eq {dt : DataType} (hdt : dt ∈ types) :
    columnEncoder F dt = .ok (encoderOf F dt) :=
  Except.eq_ok_getD (hs.encoder dt hdt) _

theorem Supported.readValue_eq {j : Nat} {dt : DataType} (hj : types[j]? = some dt) {v : Value}
    (hv : v ∈ columnValues page.batches j) :
    readValue F (encoderOf F dt).physicalType dt 0 v = .ok (sentCell F dt v) := by
  obtain ⟨t, ht, -⟩ := hs.cell j dt hj v hv
  have h := Except.eq_ok_getD ⟨t, ht⟩ (.bool false)
  rw [encodeCell, hs.columnEncoder_eq (List.mem_of_getElem? hj)] at h
  exact h.trans (by rw [sentCell, encodeCell, hs.columnEncoder_eq (List.mem_of_getElem? hj)])

include hconform hcount

theorem mapM_writeColumn : (types.map (encoderOf F)).zipIdx.mapM (fun (encoder, j) =>
    writeColumn F encoder j page) = .ok ((columnStructs F types page).map (·.encode)) := by
  rw [List.zipIdx_map, List.mapM_map, columnStructs, List.map_map]
  refine Except.mapM_eq_map ?_
  rintro ⟨dt, j⟩ h
  have hj : types[j]? = some dt := List.mem_zipIdx_iff_getElem?.mp h
  exact writeColumn_eq_encode hconform hj (fun v hv => hs.readValue_eq hj hv) hcount

theorem writeRowSet_eq_encode (hcolumns : result.columns.length = types.length)
    (htypes : result.dataTypes = types) :
    writeRowSet F result page =
      .ok (rowSetStruct page.startRowOffset (columnStructs F types page)).encode := by
  have hencoders : columnEncoders F result = .ok (types.map (encoderOf F)) := by
    rw [columnEncoders, htypes, hcolumns, if_neg (by simp)]
    exact Except.mapM_eq_map fun dt hdt => hs.columnEncoder_eq hdt
  have hlen : (columnStructs F types page).length = types.length := by
    rw [columnStructs, List.length_map, List.length_zipIdx]
  rw [writeRowSet, hencoders]
  simp only [bind, Except.bind, writeRowSetWithEncoders, mapM_writeColumn hconform hs hcount]
  simp [rowSetStruct, Thrift.Value.encode, Thrift.Value.encodeFields, Thrift.Value.encodeList_eq,
    List.flatMap_def, hlen, hcolumns, writeFieldResult, Except.map, pure, Except.pure, writeField,
    writeStop, writeListBegin, writeI16, writeI32, writeI64, Thrift.encodeSize, Thrift.Value.ty,
    Thrift.Ty.code, tStop, tList, tStruct, tI32, tI64]

/-- A page is written, and read as the cells were sent. -/
theorem decodeRowSet_writeRowSet (hcolumns : result.columns.length = types.length)
    (htypes : result.dataTypes = types) (hlt : page.rowCount < 2 ^ 31) :
    ∃ bytes, writeRowSet F result page = .ok bytes ∧
      decodeRowSet bytes = some ⟨page.startRowOffset, sentColumns F types page⟩ := by
  refine ⟨_, writeRowSet_eq_encode hconform hs hcount hcolumns htypes, ?_⟩
  refine decodeRowSet_encode ?_ ?_ ?_ mapM_decodeColumn
  · rw [columnStructs, List.length_map, List.length_zipIdx]
    exact hs.length_lt
  · intro c hc
    obtain ⟨p, -, rfl⟩ := List.mem_map.mp hc
    rfl
  · intro c hc
    obtain ⟨⟨dt, j⟩, hp, rfl⟩ := List.mem_map.mp hc
    have hj : types[j]? = some dt := List.mem_zipIdx_iff_getElem?.mp hp
    refine wf_columnStruct ?_ ?_ ?_ ?_
    · rw [List.length_map, hconform.length_columnValues hj, hcount]
      exact hlt
    · rw [length_nullBitset]
      omega
    · intro t ht
      obtain ⟨v, hv, rfl⟩ := List.mem_map.mp ht
      exact congrArg PhysicalType.ty (physicalType_readValue F (hs.readValue_eq hj hv))
    · intro t ht
      obtain ⟨v, hv, rfl⟩ := List.mem_map.mp ht
      obtain ⟨t, ht, hwf⟩ := hs.cell j dt hj v hv
      rwa [sentCell, ht, Except.getD]

end
end HarborSql
