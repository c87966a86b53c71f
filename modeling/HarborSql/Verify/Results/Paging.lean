import HarborSql.Theory.Cursor
import HarborSql.Engine.Results

/-! Materialization accepts a stream exactly when it has no error and stays within the limits, and
the pages of a result are windows of its columns. -/

namespace HarborSql

/-! ## The rows of batches -/

def rowCount (batches : List RecordBatch) : Nat := (batches.map (·.numRows)).sum

def memorySize (batches : List RecordBatch) : Nat := (batches.map (·.arrayMemorySize)).sum

@[simp] theorem rowCount_nil : rowCount [] = 0 := rfl

@[simp] theorem rowCount_cons {b : RecordBatch} {bs : List RecordBatch} :
    rowCount (b :: bs) = b.numRows + rowCount bs := rfl

@[simp] theorem memorySize_nil : memorySize [] = 0 := rfl

@[simp] theorem memorySize_cons {b : RecordBatch} {bs : List RecordBatch} :
    memorySize (b :: bs) = b.arrayMemorySize + memorySize bs := rfl

/-- The values of column `j`, across batches. -/
def columnValues (batches : List RecordBatch) (j : Nat) : List Value :=
  batches.flatMap fun b => (b.columns[j]?.map (·.values)).getD []

/-- Batches of one schema. -/
def Conform (types : List DataType) (batches : List RecordBatch) : Prop :=
  ∀ b ∈ batches, b.columns.map (·.dataType) = types

namespace Conform

variable {types : List DataType} {b : RecordBatch} {bs : List RecordBatch} {j : Nat}
  {dt : DataType}

theorem of_cons (h : Conform types (b :: bs)) : Conform types bs :=
  fun c hc => h c (List.mem_cons_of_mem _ hc)

theorem getElem?_eq (h : Conform types bs) (hb : b ∈ bs) (hj : types[j]? = some dt) :
    ∃ a, b.columns[j]? = some a ∧ a.dataType = dt ∧ a.values.length = b.numRows := by
  rw [← h b hb, List.getElem?_map] at hj
  obtain ⟨a, ha, rfl⟩ := Option.map_eq_some_iff.mp hj
  exact ⟨a, ha, rfl, b.length_eq a (List.mem_of_getElem? ha)⟩

/-- Every column has all the rows. -/
theorem length_columnValues (h : Conform types bs) (hj : types[j]? = some dt) :
    (columnValues bs j).length = rowCount bs := by
  induction bs with
  | nil => rfl
  | cons b bs ih =>
    obtain ⟨a, ha, -, hlen⟩ := h.getElem?_eq List.mem_cons_self hj
    have ih := ih h.of_cons
    unfold columnValues at ih ⊢
    rw [List.flatMap_cons, List.length_append, rowCount_cons, ha, ih]
    simp [hlen]

theorem hasType (h : Conform types bs) (hj : types[j]? = some dt) :
    ∀ v ∈ columnValues bs j, v.HasType dt := by
  intro v hv
  obtain ⟨b, hb, hv⟩ := List.mem_flatMap.mp hv
  obtain ⟨a, ha, rfl, -⟩ := h.getElem?_eq hb hj
  rw [ha] at hv
  exact a.typed v hv

end Conform

/-! ## Pages -/

open Cursor

theorem columnValues_slice {b : RecordBatch} {offset len j : Nat}
    (h : offset + len ≤ b.numRows) {bs : List RecordBatch} :
    columnValues (b.slice offset len h :: bs) j =
      window ((b.columns[j]?.map (·.values)).getD []) offset len ++ columnValues bs j := by
  unfold columnValues
  rw [List.flatMap_cons]
  simp only [RecordBatch.slice, List.getElem?_map, Option.map_map]
  cases b.columns[j]? <;> simp [ArrowArray.slice, window]

theorem Conform.pageBatches {types : List DataType} {bs : List RecordBatch}
    (h : Conform types bs) {skip take : Nat} :
    Conform types (InlineResultStore.pageBatches bs skip take) := by
  induction bs generalizing skip take with
  | nil => exact h
  | cons b bs ih =>
    unfold InlineResultStore.pageBatches
    split
    · exact fun c hc => by cases hc
    · split
      · exact ih h.of_cons
      · intro c hc
        rcases List.mem_cons.mp hc with rfl | hc
        · rw [← h b List.mem_cons_self]
          simp [RecordBatch.slice, ArrowArray.slice, Function.comp_def]
        · exact ih h.of_cons c hc

/-- The loop of `page` reads a window of every column. -/
theorem columnValues_pageBatches {types : List DataType} {bs : List RecordBatch}
    (h : Conform types bs) {j : Nat} {dt : DataType} (hj : types[j]? = some dt)
    {skip take : Nat} :
    columnValues (InlineResultStore.pageBatches bs skip take) j =
      window (columnValues bs j) skip take := by
  induction bs generalizing skip take with
  | nil => simp [InlineResultStore.pageBatches, columnValues, window]
  | cons b bs ih =>
    obtain ⟨a, ha, -, hlen⟩ := h.getElem?_eq List.mem_cons_self hj
    have ih {skip take} : columnValues (InlineResultStore.pageBatches bs skip take) j =
        window (columnValues bs j) skip take := ih h.of_cons
    have hcons : columnValues (b :: bs) j = a.values ++ columnValues bs j := by
      simp [columnValues, ha]
    rw [hcons, window_append, hlen]
    unfold InlineResultStore.pageBatches
    split
    next htake =>
      subst htake
      simp [columnValues, window]
    next htake =>
      split
      next hskip =>
        -- the batch ends before the window starts
        have hnil : window a.values skip take = [] := by
          rw [window, List.drop_eq_nil_of_le (by omega), List.take_nil]
        rw [hnil, ih, Nat.sub_eq_zero_of_le hskip, Nat.sub_zero, List.nil_append]
      next hskip =>
        rw [columnValues_slice, ha, ih]
        have hwindow : window a.values skip (min (b.numRows - skip) take) =
            window a.values skip take := by
          rw [window, window, List.take_eq_take_min (i := take), List.length_drop, hlen,
            Nat.min_comm]
        simp only [Option.map_some, Option.getD_some, hwindow]
        congr 2 <;> omega

theorem rowCount_pageBatches {bs : List RecordBatch} {skip take : Nat} :
    rowCount (InlineResultStore.pageBatches bs skip take) = min take (rowCount bs - skip) := by
  induction bs generalizing skip take with
  | nil => simp [InlineResultStore.pageBatches]
  | cons b bs ih =>
    unfold InlineResultStore.pageBatches
    split
    next htake => simp [htake]
    next htake =>
      split
      next hskip =>
        rw [ih, rowCount_cons]
        omega
      next hskip =>
        rw [rowCount_cons, rowCount_cons, ih]
        simp only [RecordBatch.slice]
        omega

section
variable {store : InlineResultStore} {offset : Int64} {start limit : Nat}
  (ho : offset.toInt = start) (hs : start ≤ store.rowCount) (hl : limit ≤ 2 ^ 32)
include ho hs hl

/-- A page that starts within the result is the window there. -/
theorem InlineResultStore.page_eq : store.page offset limit = {
    batches := pageBatches store.batches start (min limit (store.rowCount - start))
    startRowOffset := offset
    rowCount := min limit (store.rowCount - start)
    hasMoreRows := decide (advance store.rowCount start limit < store.rowCount) } := by
  have hlt : offset.toInt < 2 ^ 63 := offset.toInt_lt
  have hstart : min (max offset.toInt 0).toNat store.rowCount = start := by omega
  have hoffset : Int64.ofNat start = offset := by
    rw [← Int64.ofInt_toInt offset, ho, Int64.ofInt_eq_ofNat]
  have hstop : min (min (start + limit) usizeMax) store.rowCount =
      advance store.rowCount start limit := by
    unfold advance usizeMax
    omega
  have hcount : advance store.rowCount start limit - start =
      min limit (store.rowCount - start) := by
    unfold advance
    omega
  simp only [page, hstart, hstop, hcount, hoffset]

end

/-! ## Materialization -/

/-- A number is within a limit, if there is one. -/
def WithinLimit (n : Nat) (limit : Option Nat) : Prop := ∀ max, limit = some max → n ≤ max

theorem WithinLimit.mono {m n : Nat} {limit : Option Nat} (h : WithinLimit n limit) (hle : m ≤ n) :
    WithinLimit m limit := fun max hmax => Nat.le_trans hle (h max hmax)

theorem exceeds_eq_none {n : Nat} {limit : Option Nat} :
    exceeds n limit = none ↔ WithinLimit n limit := by
  cases limit with
  | none => simp [exceeds, WithinLimit]
  | some max => simp [exceeds, WithinLimit]

/-- One batch of the loop, when it is not refused. -/
theorem materializeBatches_cons {limits : ResultLimits} {item : Result RecordBatch}
    {items : List (Result RecordBatch)} {rows bytes : Nat} {batches : List RecordBatch} :
    materializeBatches limits (item :: items) rows bytes = .ok batches ↔
      ∃ b bs, item = .ok b ∧ batches = b :: bs ∧ WithinLimit (rows + b.numRows) limits.maxRows ∧
        WithinLimit (min (bytes + b.arrayMemorySize) usizeMax) limits.maxBytes ∧
        materializeBatches limits items (rows + b.numRows)
          (min (bytes + b.arrayMemorySize) usizeMax) = .ok bs := by
  cases item with
  | error e => simp [materializeBatches, bind, Except.bind]
  | ok b =>
    simp only [← exceeds_eq_none, Except.ok.injEq, exists_and_left, exists_eq_left']
    simp only [materializeBatches, bind, Except.bind, throw, throwThe, MonadExceptOf.throw]
    cases exceeds (rows + b.numRows) limits.maxRows with
    | some max => simp
    | none =>
      cases exceeds (min (bytes + b.arrayMemorySize) usizeMax) limits.maxBytes with
      | some max => simp
      | none =>
        cases materializeBatches limits items (rows + b.numRows)
          (min (bytes + b.arrayMemorySize) usizeMax) with
        | error e => simp
        | ok bs => simp [pure, Except.pure, eq_comm]

/-- The loop gives the batches of a stream without error whose totals are within the limits. -/
theorem materializeBatches_eq_ok {limits : ResultLimits} {items : List (Result RecordBatch)}
    {rows bytes : Nat} {batches : List RecordBatch} (hr : WithinLimit rows limits.maxRows)
    (hb : WithinLimit (min bytes usizeMax) limits.maxBytes) :
    materializeBatches limits items rows (min bytes usizeMax) = .ok batches ↔
      items = batches.map .ok ∧ WithinLimit (rows + rowCount batches) limits.maxRows ∧
        WithinLimit (min (bytes + memorySize batches) usizeMax) limits.maxBytes := by
  induction items generalizing rows bytes batches with
  | nil => 
    cases batches with
    | nil => simpa [materializeBatches, pure, Except.pure] using ⟨hr, hb⟩
    | cons b bs => simp [materializeBatches, pure, Except.pure]
  | cons item items ih =>
    have hsat {m k} : min (min m usizeMax + k) usizeMax = min (m + k) usizeMax := by omega
    rw [materializeBatches_cons]
    simp only [hsat]
    constructor
    · rintro ⟨b, bs, rfl, rfl, hr, hb, h⟩
      obtain ⟨rfl, hr, hb⟩ := (ih hr hb).mp h
      rw [Nat.add_assoc] at hr hb
      exact ⟨rfl, hr, hb⟩
    · rintro ⟨h, hr, hb⟩
      cases batches with
      | nil => cases h
      | cons b bs =>
        obtain ⟨rfl, rfl⟩ := List.cons.inj h
        rw [rowCount_cons] at hr
        rw [memorySize_cons] at hb
        have hr' : WithinLimit (rows + b.numRows) limits.maxRows := hr.mono (by omega)
        have hb' : WithinLimit (min (bytes + b.arrayMemorySize) usizeMax) limits.maxBytes :=
          hb.mono (by omega)
        refine ⟨b, bs, rfl, rfl, hr', hb', (ih hr' hb').mpr ⟨rfl, ?_, ?_⟩⟩
        · rwa [Nat.add_assoc]
        · rwa [Nat.add_assoc]

namespace RecordBatchStream

/-- The batches that come before an error, or all of them. -/
def batches (stream : RecordBatchStream) : List RecordBatch :=
  stream.items.filterMap Except.toOption

def NoError (stream : RecordBatchStream) : Prop := ∀ item ∈ stream.items, ∃ b, item = .ok b

def types (stream : RecordBatchStream) : List DataType := stream.schema.map (·.dataType)

variable {stream : RecordBatchStream}

theorem noError_iff : stream.NoError ↔ stream.items = stream.batches.map .ok := by
  unfold NoError batches
  induction stream.items with
  | nil => simp
  | cons item items ih =>
    cases item with
    | error e => 
      simp only [List.filterMap_cons, Except.toOption]
      constructor
      · intro h
        obtain ⟨b, hb⟩ := h _ List.mem_cons_self
        cases hb
      · intro h
        have := congrArg List.length h
        simp only [List.length_cons, List.length_map] at this
        have := List.length_filterMap_le Except.toOption items
        omega
    | ok b => simp [ih, Except.toOption]

theorem conform : Conform stream.types stream.batches := by
  intro b hb
  obtain ⟨item, hitem, h⟩ := List.mem_filterMap.mp hb
  cases item with
  | error e => cases h
  | ok c =>
    cases h
    exact stream.conforms b hitem

end RecordBatchStream

/-- What a stream within the limits is materialized to. -/
def RecordBatchStream.materialized (F : Formatting) (stream : RecordBatchStream) : QueryResult :=
  .fromBatchesWithDataTypes
    (stream.schema.map fun field => ⟨field.name, F.dataTypeToString field.dataType, field.nullable⟩)
    stream.types stream.batches

variable {F : Formatting} {stream : RecordBatchStream} {limits : ResultLimits}
  {result : QueryResult}

theorem materializeStream_eq_ok : materializeStream F stream limits = .ok result ↔
    (stream.NoError ∧ WithinLimit (rowCount stream.batches) limits.maxRows ∧
      WithinLimit (min (memorySize stream.batches) usizeMax) limits.maxBytes) ∧
    result = stream.materialized F := by
  have hiff {batches} := @materializeBatches_eq_ok limits stream.items 0 0 batches
    (fun _ _ => Nat.zero_le _) (fun _ _ => by rw [Nat.zero_min]; exact Nat.zero_le _)
  simp only [Nat.zero_min, Nat.zero_add] at hiff
  rw [materializeStream]
  constructor
  · intro h
    cases hm : materializeBatches limits stream.items 0 0 with
    | error e => simp [hm, bind, Except.bind] at h
    | ok batches =>
      obtain ⟨hitems, hr, hb⟩ := hiff.mp hm
      have hbatches : stream.batches = batches := by
        unfold RecordBatchStream.batches
        rw [hitems, List.filterMap_map]
        exact List.filterMap_some
      simp only [hm, bind, Except.bind, pure, Except.pure, Except.ok.injEq] at h
      subst hbatches
      exact ⟨⟨RecordBatchStream.noError_iff.mpr hitems, hr, hb⟩, h.symm⟩
  · rintro ⟨⟨he, hr, hb⟩, rfl⟩
    rw [hiff.mpr ⟨RecordBatchStream.noError_iff.mp he, hr, hb⟩]
    rfl

end HarborSql
