import HarborSql.Formatting
import HarborSql.Thrift.Codec

/-! Query results: the materialization of a stream of record batches (`engine/results.rs`) and the
pages of a stored result (`engine.rs`). Row counts, `usize` in the source, are numbers of rows
held in memory. -/

namespace HarborSql

def usizeMax : Nat := 2 ^ 64 - 1

structure Column where
  name : String
  dataType : String
  nullable : Bool
  deriving DecidableEq, Repr

/-! ## Pages -/

def ArrowArray.slice (a : ArrowArray) (offset len : Nat) : ArrowArray where
  dataType := a.dataType
  values := (a.values.drop offset).take len
  typed v hv := a.typed v (List.drop_subset _ _ (List.take_subset _ _ hv))

/-- `RecordBatch::slice`, whose offset and length are within the batch. -/
def RecordBatch.slice (b : RecordBatch) (offset len : Nat) (h : offset + len ≤ b.numRows) :
    RecordBatch where
  columns := b.columns.map (·.slice offset len)
  numRows := len
  arrayMemorySize := b.arrayMemorySize
  length_eq _ ha := by
    obtain ⟨a, ha', rfl⟩ := List.mem_map.mp ha
    have := b.length_eq a ha'
    simp only [ArrowArray.slice, List.length_take, List.length_drop]
    omega

structure QueryResultPage where
  batches : List RecordBatch
  startRowOffset : Int64
  rowCount : Nat
  hasMoreRows : Bool

structure InlineResultStore where
  batches : List RecordBatch
  rowCount : Nat
  retainedBytes : Nat

namespace InlineResultStore

def new (batches : List RecordBatch) : InlineResultStore where
  batches
  rowCount := (batches.map (·.numRows)).sum
  retainedBytes := (batches.map (·.arrayMemorySize)).sum

/-- The loop of `page` over the batches. -/
def pageBatches : List RecordBatch → (remainingSkip remainingTake : Nat) → List RecordBatch
  | [], _, _ => []
  | batch :: batches, remainingSkip, remainingTake =>
    if remainingTake = 0 then []
    else if h : batch.numRows ≤ remainingSkip then
      pageBatches batches (remainingSkip - batch.numRows) remainingTake
    else
      let localTake := min (batch.numRows - remainingSkip) remainingTake
      batch.slice remainingSkip localTake (by omega) ::
        pageBatches batches 0 (remainingTake - localTake)

def page (store : InlineResultStore) (startRowOffset : Int64) (limit : Nat) : QueryResultPage :=
  let start := min (max startRowOffset.toInt 0).toNat store.rowCount
  let stop := min (min (start + limit) usizeMax) store.rowCount
  { batches := pageBatches store.batches start (stop - start)
    startRowOffset := .ofNat start
    rowCount := stop - start
    hasMoreRows := decide (stop < store.rowCount) }

end InlineResultStore

structure QueryResult where
  columns : List Column
  rowCount : Nat
  dataTypes : List DataType
  store : InlineResultStore

namespace QueryResult

def fromBatchesWithDataTypes (columns : List Column) (dataTypes : List DataType)
    (batches : List RecordBatch) : QueryResult :=
  let store := InlineResultStore.new batches
  { columns, rowCount := store.rowCount, dataTypes, store }

/-- `from_batches` of no columns and no batches, where there is no schema to take types from. -/
def empty : QueryResult := fromBatchesWithDataTypes [] [] []

def page (result : QueryResult) (startRowOffset : Int64) (limit : Nat) : QueryResultPage :=
  result.store.page startRowOffset limit

end QueryResult

/-! ## Materialization -/

/-- A field of a schema. -/
structure Field where
  name : String
  dataType : DataType
  nullable : Bool

/-- A finite stream of record batches, each of which has the columns of the schema. -/
structure RecordBatchStream where
  schema : List Field
  items : List (Result RecordBatch)
  conforms : ∀ batch, .ok batch ∈ items → batch.columns.map (·.dataType) = schema.map (·.dataType)

structure ResultLimits where
  maxRows : Option Nat
  maxBytes : Option Nat

/-- `row_count > max_rows`, for a limit that is set. -/
def exceeds (n : Nat) : Option Nat → Option Nat
  | some max => if max < n then some max else none
  | none => none

/-- The loop of `materialize_stream` over the batches. -/
def materializeBatches (limits : ResultLimits) :
    List (Result RecordBatch) → (rowCount resultBytes : Nat) → Result (List RecordBatch)
  | [], _, _ => return []
  | item :: items, rowCount, resultBytes => do
    let batch ← item
    let rowCount := rowCount + batch.numRows
    if let some max := exceeds rowCount limits.maxRows then
      throw (.query s!"query returned more than HARBORSQL_MAX_RESULT_ROWS={max}")
    let resultBytes := min (resultBytes + batch.arrayMemorySize) usizeMax
    if let some max := exceeds resultBytes limits.maxBytes then
      throw (.query s!"query result Arrow pages exceeded HARBORSQL_MAX_RESULT_BYTES={max}")
    let batches ← materializeBatches limits items rowCount resultBytes
    return batch :: batches

def materializeStream (F : Formatting) (stream : RecordBatchStream) (limits : ResultLimits) :
    Result QueryResult := do
  let schema := stream.schema.map fun field =>
    { name := field.name, dataType := F.dataTypeToString field.dataType, nullable := field.nullable }
  let dataTypes := stream.schema.map (·.dataType)
  let batches ← materializeBatches limits stream.items 0 0
  return .fromBatchesWithDataTypes schema dataTypes batches

end HarborSql
