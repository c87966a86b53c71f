/-! Arrow data types, values, arrays and record batches, as far as the results of a query are read
from them. -/

namespace HarborSql

inductive TimeUnit where
  | second | millisecond | microsecond | nanosecond
  deriving DecidableEq, Repr

inductive IntervalUnit where
  | yearMonth | dayTime | monthDayNano
  deriving DecidableEq, Repr

inductive UnionMode where
  | sparse | dense
  deriving DecidableEq, Repr

/-- `arrow::datatypes::DataType`. Of the field inside a list or a map only the type is kept; an
array of `fixedSizeList` with a negative size does not exist. -/
inductive DataType where
  | null | boolean
  | int8 | int16 | int32 | int64 | uint8 | uint16 | uint32 | uint64
  | float16 | float32 | float64
  | timestamp (unit : TimeUnit) (timezone : Option String)
  | date32 | date64
  | time32 (unit : TimeUnit) | time64 (unit : TimeUnit)
  | duration (unit : TimeUnit) | interval (unit : IntervalUnit)
  | binary | fixedSizeBinary (size : Nat) | largeBinary | binaryView
  | utf8 | largeUtf8 | utf8View
  | list (item : DataType) | listView (item : DataType)
  | fixedSizeList (item : DataType) (size : Nat)
  | largeList (item : DataType) | largeListView (item : DataType)
  | struct (fields : List (String × DataType))
  | union (fields : List (Int8 × String × DataType)) (mode : UnionMode)
  | dictionary (key value : DataType)
  | decimal32 (precision : UInt8) (scale : Int8) | decimal64 (precision : UInt8) (scale : Int8)
  | decimal128 (precision : UInt8) (scale : Int8) | decimal256 (precision : UInt8) (scale : Int8)
  | map (key value : DataType) (sorted : Bool)
  | runEndEncoded (runEnds values : DataType)

namespace DataType

/-- Induction on the types that the cells of a result are nested from. -/
@[elab_as_elim]
theorem nested_induction {motive : DataType → Prop}
    (list : ∀ item, motive item → motive (list item))
    (largeList : ∀ item, motive item → motive (largeList item))
    (fixedSizeList : ∀ item size, motive item → motive (fixedSizeList item size))
    (map : ∀ key value sorted, motive key → motive value → motive (map key value sorted))
    (struct : ∀ fields, (∀ f ∈ fields, motive f.2) → motive (struct fields))
    (flat : ∀ dt, (∀ item, dt ≠ .list item) → (∀ item, dt ≠ .largeList item) →
      (∀ item size, dt ≠ .fixedSizeList item size) →
      (∀ key value sorted, dt ≠ .map key value sorted) → (∀ fields, dt ≠ .struct fields) →
      motive dt) : ∀ dt, motive dt := by
  intro dt
  induction h : sizeOf dt using Nat.strongRecOn generalizing dt with
  | _ n ih =>
    subst h
    cases dt with
    | list item => exact list _ (ih _ (by rw [DataType.list.sizeOf_spec]; omega) _ rfl)
    | largeList item =>
      exact largeList _ (ih _ (by rw [DataType.largeList.sizeOf_spec]; omega) _ rfl)
    | fixedSizeList item size =>
      exact fixedSizeList _ _ (ih _ (by rw [DataType.fixedSizeList.sizeOf_spec]; omega) _ rfl)
    | map key value sorted =>
      have hsize := DataType.map.sizeOf_spec key value sorted
      exact map _ _ _ (ih _ (by omega) _ rfl) (ih _ (by omega) _ rfl)
    | struct fields =>
      refine struct _ fun f hf => ih _ ?_ _ rfl
      have hlt := List.sizeOf_lt_of_mem hf
      obtain ⟨name, dt⟩ := f
      simp only [Prod.mk.sizeOf_spec, DataType.struct.sizeOf_spec] at hlt ⊢
      omega
    | _ => apply flat <;> intros <;> nofun

/-- Whether an array of the type has a validity bitmap, and so may hold nulls: `is_null` looks at
nothing else. -/
def hasValidity : DataType → Bool
  | null | union .. | runEndEncoded .. => false
  | _ => true

/-- The types whose values no column encoder reads. -/
def isOther : DataType → Bool
  | null | float16 | time32 _ | time64 _ | duration _ | interval _ | binaryView | union ..
  | dictionary .. | decimal32 .. | decimal64 .. | runEndEncoded .. => true
  | _ => false

end DataType

/-- An element of an array. Floats are given by their bits, the text of the three string types
and the bytes of the three binary types by themselves, and the lists of all list types by their
elements. `other` is a valid element of a type that no column encoder reads. -/
inductive Value where
  | null
  | boolean (v : Bool)
  | int8 (v : Int8) | int16 (v : Int16) | int32 (v : Int32) | int64 (v : Int64)
  | uint8 (v : UInt8) | uint16 (v : UInt16) | uint32 (v : UInt32) | uint64 (v : UInt64)
  | float32 (bits : UInt32) | float64 (bits : UInt64)
  | string (v : String)
  | binary (v : List UInt8)
  | date32 (days : Int32) | date64 (millis : Int64)
  | timestamp (unit : TimeUnit) (v : Int64)
  | decimal (v : Int)
  | list (values : List Value)
  | map (entries : List (Value × Value))
  | struct (fields : List Value)
  | other

namespace Value

def isNull : Value → Bool
  | null => true
  | _ => false

/-- The elements that an array of a type can have. -/
inductive HasType : DataType → Value → Prop
  | null {dt} : dt.hasValidity → HasType dt null
  | boolean {v} : HasType .boolean (boolean v)
  | int8 {v} : HasType .int8 (int8 v)
  | int16 {v} : HasType .int16 (int16 v)
  | int32 {v} : HasType .int32 (int32 v)
  | int64 {v} : HasType .int64 (int64 v)
  | uint8 {v} : HasType .uint8 (uint8 v)
  | uint16 {v} : HasType .uint16 (uint16 v)
  | uint32 {v} : HasType .uint32 (uint32 v)
  | uint64 {v} : HasType .uint64 (uint64 v)
  | float32 {v} : HasType .float32 (float32 v)
  | float64 {v} : HasType .float64 (float64 v)
  | utf8 {v} : HasType .utf8 (string v)
  | largeUtf8 {v} : HasType .largeUtf8 (string v)
  | utf8View {v} : HasType .utf8View (string v)
  | binary {v} : HasType .binary (binary v)
  | largeBinary {v} : HasType .largeBinary (binary v)
  | fixedSizeBinary {size v} : v.length = size → HasType (.fixedSizeBinary size) (binary v)
  | date32 {v} : HasType .date32 (date32 v)
  | date64 {v} : HasType .date64 (date64 v)
  | timestamp {unit tz v} : HasType (.timestamp unit tz) (timestamp unit v)
  | decimal128 {p s v} : HasType (.decimal128 p s) (decimal v)
  | decimal256 {p s v} : HasType (.decimal256 p s) (decimal v)
  | list {item vs} : (∀ v ∈ vs, HasType item v) → HasType (.list item) (list vs)
  | largeList {item vs} : (∀ v ∈ vs, HasType item v) → HasType (.largeList item) (list vs)
  | listView {item vs} : (∀ v ∈ vs, HasType item v) → HasType (.listView item) (list vs)
  | largeListView {item vs} : (∀ v ∈ vs, HasType item v) → HasType (.largeListView item) (list vs)
  | fixedSizeList {item size vs} : vs.length = size → (∀ v ∈ vs, HasType item v) →
    HasType (.fixedSizeList item size) (list vs)
  | map {key value sorted es} : (∀ e ∈ es, HasType key e.1) → (∀ e ∈ es, HasType value e.2) →
    HasType (.map key value sorted) (map es)
  | struct {fields vs} : vs.length = fields.length →
    (∀ p ∈ fields.zip vs, HasType p.1.2 p.2) → HasType (.struct fields) (struct vs)
  | other {dt} : dt.isOther → HasType dt other

end Value

/-- An array: its type and its elements. -/
structure ArrowArray where
  dataType : DataType
  values : List Value
  typed : ∀ v ∈ values, v.HasType dataType

/-- Columns of one length. A batch without columns has a number of rows too. -/
structure RecordBatch where
  columns : List ArrowArray
  numRows : Nat
  arrayMemorySize : Nat
  length_eq : ∀ a ∈ columns, a.values.length = numRows

end HarborSql
