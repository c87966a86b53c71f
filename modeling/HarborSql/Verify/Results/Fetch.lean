import HarborSql.Verify.Results.RowSet

/-! A client that fetches a result page by page, each page from the number of rows that it has
received, reads every cell of the stream once and in order, and stops at the last row. -/

namespace HarborSql

open Cursor

structure FetchRequest where
  startRowOffset : Int64
  maxRows : Option Int64

/-- What a client gets for a request. The number of rows is that of the cells of every column. -/
structure FetchedPage where
  rowSet : DecodedRowSet
  rowCount : Nat
  hasMoreRows : Bool

namespace FetchedPage

/-- The cells of column `j`. -/
def cells (page : FetchedPage) (j : Nat) : List (Option Thrift.Value) :=
  (page.rowSet.columns[j]?.map (·.cells)).getD []

end FetchedPage

def received (pages : List FetchedPage) : Nat := (pages.map (·.rowCount)).sum

/-- Write the row set of a page, and read it. -/
def fetch (F : Formatting) (result : QueryResult) (request : FetchRequest) : Option FetchedPage :=
  let page := rowPage result request.startRowOffset request.maxRows
  match writeRowSet F result page with
  | .error _ => none
  | .ok bytes => (decodeRowSet bytes).map fun rowSet =>
    { rowSet, rowCount := page.rowCount, hasMoreRows := page.hasMoreRows }

/-- Every request starts at the number of rows received so far, and its limit is absent or
positive. -/
def IsFetchLoop (result : QueryResult) : Nat → List FetchRequest → Prop
  | _, [] => True
  | start, request :: requests =>
    request.startRowOffset.toInt = start ∧ (∀ n, request.maxRows = some n → 0 < n) ∧
      IsFetchLoop result
        (start + (rowPage result request.startRowOffset request.maxRows).rowCount) requests

/-- What a client knows of a cell of a stream: nothing of a null, else the value that is sent. -/
def receivedCell (F : Formatting) (dt : DataType) (v : Value) : Option Thrift.Value :=
  if v.isNull then none else some (sentCell F dt v).toThrift

/-- The value that a client reads from a cell of a plain type. -/
def cellValue (dt : DataType) (cell : Option Thrift.Value) : Value :=
  match cell with
  | none => .null
  | some t => (readBack dt t).getD .other

/-- The pages that a client has fetched from the start of a stream. -/
structure Fetched (F : Formatting) (stream : RecordBatchStream) (requests : List FetchRequest)
    (pages : List FetchedPage) : Prop where
  /-- Every page has all columns, with all the rows of the page. -/
  columns : ∀ page ∈ pages, page.rowSet.columns.length = stream.types.length ∧
    ∀ column ∈ page.rowSet.columns, column.cells.length = page.rowCount
  /-- The pages are the first rows of the stream, in order and each once. -/
  cells : ∀ j dt, stream.types[j]? = some dt → pages.flatMap (·.cells j) =
    ((columnValues stream.batches j).map (receivedCell F dt)).take (received pages)
  /-- In the columns of plain types, these are the values themselves. -/
  values : ∀ j dt, stream.types[j]? = some dt → dt.isPlain →
    (pages.flatMap (·.cells j)).map (cellValue dt) =
      (columnValues stream.batches j).take (received pages)
  /-- There are more rows until the last one has been received. -/
  hasMoreRows : ∀ k page, pages[k]? = some page →
    (page.hasMoreRows = false ↔ received (pages.take (k + 1)) = rowCount stream.batches)
  /-- The pages with the last row are the stream. -/
  complete : (∃ page ∈ pages, page.hasMoreRows = false) → ∀ j dt, stream.types[j]? = some dt →
    pages.flatMap (·.cells j) = (columnValues stream.batches j).map (receivedCell F dt)
  /-- A request for each row, and one more, is enough. -/
  ends : rowCount stream.batches < requests.length → ∃ page ∈ pages, page.hasMoreRows = false

/-! ## One page -/

theorem requestedRowLimit_le {maxRows : Option Int64} : requestedRowLimit maxRows ≤ maxFetchRows := by
  unfold requestedRowLimit
  split
  · split
    · exact Nat.zero_le _
    · exact Nat.min_le_right _ _
  · decide

theorem requestedRowLimit_pos {maxRows : Option Int64} (h : ∀ n, maxRows = some n → 0 < n) :
    0 < requestedRowLimit maxRows := by
  unfold requestedRowLimit
  split
  next n =>
    have hn : 0 < n.toInt := Int64.lt_iff_toInt_lt.mp (h n rfl)
    rw [if_neg (by simpa [Int64.le_iff_toInt_le] using hn)]
    exact Nat.lt_min.mpr ⟨by omega, by decide⟩
  next => decide

theorem cells_sent {F : Formatting} {dt : DataType} {values : List Value} {nulls : Bytes}
    (h : ∀ i, Bitmap.bit nulls i = (values.map (·.isNull)).getD i false) :
    DecodedColumn.cells ⟨values.map fun v => (sentCell F dt v).toThrift, nulls⟩ =
      values.map (receivedCell F dt) := by
  refine List.ext_getElem (by simp [DecodedColumn.cells]) fun i hi _ => ?_
  have hi : i < values.length := by simpa [DecodedColumn.cells] using hi
  simp [DecodedColumn.cells, h, hi, receivedCell]

section
variable {F : Formatting} {stream : RecordBatchStream} {request : FetchRequest}
  {requests : List FetchRequest} {start : Nat}

/-- The page of a request at position `start`. -/
def pageAt (stream : RecordBatchStream) (request : FetchRequest) (start : Nat) : QueryResultPage :=
  let limit := requestedRowLimit request.maxRows
  let n := rowCount stream.batches
  { batches := InlineResultStore.pageBatches stream.batches start (min limit (n - start))
    startRowOffset := request.startRowOffset
    rowCount := min limit (n - start)
    hasMoreRows := decide (advance n start limit < n) }

theorem rowPage_eq (ho : request.startRowOffset.toInt = start)
    (hs : start ≤ rowCount stream.batches) :
    rowPage (stream.materialized F) request.startRowOffset request.maxRows =
      pageAt stream request start := by
  refine InlineResultStore.page_eq ho hs (Nat.le_trans requestedRowLimit_le ?_)
  decide

theorem columnValues_pageAt {j : Nat} {dt : DataType} (hj : stream.types[j]? = some dt) :
    columnValues (pageAt stream request start).batches j = window (columnValues stream.batches j)
      start (min (requestedRowLimit request.maxRows) (rowCount stream.batches - start)) :=
  columnValues_pageBatches stream.conform hj

theorem rowCount_pageAt :
    rowCount (pageAt stream request start).batches = (pageAt stream request start).rowCount := by
  simp only [pageAt, rowCount_pageBatches]
  omega

/-- What the client gets at position `start`. -/
def fetchedAt (F : Formatting) (stream : RecordBatchStream) (request : FetchRequest)
    (start : Nat) : FetchedPage :=
  let page := pageAt stream request start
  { rowSet := ⟨page.startRowOffset, sentColumns F stream.types page⟩
    rowCount := page.rowCount
    hasMoreRows := page.hasMoreRows }

theorem fetch_eq (hs : Supported F stream.types stream.batches)
    (ho : request.startRowOffset.toInt = start) (hstart : start ≤ rowCount stream.batches) :
    fetch F (stream.materialized F) request = some (fetchedAt F stream request start) := by
  have hconform : Conform stream.types (pageAt stream request start).batches :=
    stream.conform.pageBatches
  have hsupported : Supported F stream.types (pageAt stream request start).batches := by
    refine ⟨hs.length_lt, hs.encoder, fun j dt hj v hv => ?_⟩
    rw [columnValues_pageAt hj] at hv
    exact hs.cell j dt hj v (List.drop_subset _ _ (List.take_subset _ _ hv))
  have hlt : (pageAt stream request start).rowCount < 2 ^ 31 := by
    have h : maxFetchRows < 2 ^ 31 := by decide
    have : requestedRowLimit request.maxRows ≤ maxFetchRows := requestedRowLimit_le
    simp only [pageAt]
    omega
  have hcolumns : (stream.materialized F).columns.length = stream.types.length := by
    simp [RecordBatchStream.materialized, QueryResult.fromBatchesWithDataTypes,
      RecordBatchStream.types]
  obtain ⟨bytes, hwrite, hdecode⟩ :=
    decodeRowSet_writeRowSet hconform hsupported rowCount_pageAt hcolumns rfl hlt
  simp only [fetch, rowPage_eq ho hstart, hwrite, hdecode]
  rfl

theorem cells_fetchedAt {j : Nat} {dt : DataType} (hj : stream.types[j]? = some dt) :
    (fetchedAt F stream request start).cells j =
      window ((columnValues stream.batches j).map (receivedCell F dt)) start
        (requestedRowLimit request.maxRows) := by
  have hconform : Conform stream.types (pageAt stream request start).batches :=
    stream.conform.pageBatches
  have hcolumn : (fetchedAt F stream request start).rowSet.columns[j]? = some
      { values := (columnValues (pageAt stream request start).batches j).map fun v =>
          (sentCell F dt v).toThrift
        nulls := nullBitset (pageAt stream request start).batches j
          (pageAt stream request start).rowCount } := by
    simp [fetchedAt, sentColumns, hj]
  have hlen : (columnValues (pageAt stream request start).batches j).length =
      (pageAt stream request start).rowCount :=
    (hconform.length_columnValues hj).trans rowCount_pageAt
  rw [FetchedPage.cells, hcolumn, Option.map_some, Option.getD_some,
    cells_sent fun i => bit_nullBitset hlen, columnValues_pageAt hj, window_map]
  congr 1
  rw [window, window, List.take_eq_take_min (i := requestedRowLimit _), List.length_drop,
    stream.conform.length_columnValues hj]

/-! ## The loop -/

/-- What the client gets for some requests, from position `start` on. -/
def pagesFrom (F : Formatting) (stream : RecordBatchStream) :
    Nat → List FetchRequest → List FetchedPage
  | _, [] => []
  | start, request :: requests =>
    fetchedAt F stream request start :: pagesFrom F stream
      (advance (rowCount stream.batches) start (requestedRowLimit request.maxRows)) requests

def limits (requests : List FetchRequest) : List Nat :=
  requests.map fun request => requestedRowLimit request.maxRows

theorem mapM_fetch (hs : Supported F stream.types stream.batches)
    (hstart : start ≤ rowCount stream.batches)
    (h : IsFetchLoop (stream.materialized F) start requests) :
    requests.mapM (fetch F (stream.materialized F)) = some (pagesFrom F stream start requests) := by
  induction requests generalizing start with
  | nil => rfl
  | cons request requests ih =>
    obtain ⟨ho, -, h⟩ := h
    rw [rowPage_eq ho hstart] at h
    rw [List.mapM_cons, fetch_eq hs ho hstart, ih (advance_le hstart) h]
    rfl

theorem pos_of_mem_limits {result : QueryResult} (h : IsFetchLoop result start requests) :
    ∀ limit ∈ limits requests, 0 < limit := by
  induction requests generalizing start with
  | nil => exact List.forall_mem_nil _
  | cons request requests ih =>
    obtain ⟨-, hpos, h⟩ := h
    exact List.forall_mem_cons.mpr ⟨requestedRowLimit_pos hpos, ih h⟩

/-- The pages are windows of the columns that follow each other. -/
theorem cells_pagesFrom {j : Nat} {dt : DataType} (hj : stream.types[j]? = some dt) :
    (pagesFrom F stream start requests).map (·.cells j) =
      windows ((columnValues stream.batches j).map (receivedCell F dt)) start (limits requests) := by
  induction requests generalizing start with
  | nil => rfl
  | cons request requests ih =>
    have hlen : ((columnValues stream.batches j).map (receivedCell F dt)).length =
        rowCount stream.batches := by
      rw [List.length_map, stream.conform.length_columnValues hj]
    rw [pagesFrom, List.map_cons, cells_fetchedAt hj, ih]
    simp only [limits, List.map_cons, windows, hlen]

theorem received_pagesFrom : start + received (pagesFrom F stream start requests) =
    position (rowCount stream.batches) start (limits requests) := by
  induction requests generalizing start with
  | nil => rfl
  | cons request requests ih =>
    have hcount : start + (fetchedAt F stream request start).rowCount =
        advance (rowCount stream.batches) start (requestedRowLimit request.maxRows) := rfl
    have hreceived : received (pagesFrom F stream start (request :: requests)) =
        (fetchedAt F stream request start).rowCount + received (pagesFrom F stream
          (advance (rowCount stream.batches) start (requestedRowLimit request.maxRows))
          requests) := rfl
    rw [hreceived, ← Nat.add_assoc, hcount, ih]
    rfl

theorem hasMoreRows_pagesFrom (hstart : start ≤ rowCount stream.batches) {k : Nat}
    {page : FetchedPage} (h : (pagesFrom F stream start requests)[k]? = some page) :
    page.hasMoreRows = false ↔
      start + received ((pagesFrom F stream start requests).take (k + 1)) =
        rowCount stream.batches := by
  induction requests generalizing start k with
  | nil => cases h
  | cons request requests ih =>
    have hcount : start + (fetchedAt F stream request start).rowCount =
        advance (rowCount stream.batches) start (requestedRowLimit request.maxRows) := rfl
    have hle : advance (rowCount stream.batches) start (requestedRowLimit request.maxRows) ≤
        rowCount stream.batches := advance_le hstart
    cases k with
    | zero =>
      obtain rfl : fetchedAt F stream request start = page := Option.some.inj h
      have hreceived : received ((pagesFrom F stream start (request :: requests)).take (0 + 1)) =
          (fetchedAt F stream request start).rowCount := Nat.add_zero _
      rw [hreceived, hcount]
      refine decide_eq_false_iff_not.trans ?_
      omega
    | succ k =>
      have hreceived : received ((pagesFrom F stream start (request :: requests)).take (k + 1 + 1)) =
          (fetchedAt F stream request start).rowCount +
            received ((pagesFrom F stream (advance (rowCount stream.batches) start
              (requestedRowLimit request.maxRows)) requests).take (k + 1)) := rfl
      rw [ih hle h, hreceived, ← Nat.add_assoc, hcount]

theorem columns_pagesFrom {page : FetchedPage} (h : page ∈ pagesFrom F stream start requests) :
    page.rowSet.columns.length = stream.types.length ∧
      ∀ column ∈ page.rowSet.columns, column.cells.length = page.rowCount := by
  induction requests generalizing start with
  | nil => cases h
  | cons request requests ih =>
    rcases List.mem_cons.mp h with rfl | h
    · refine ⟨by simp [fetchedAt, sentColumns], fun column hcolumn => ?_⟩
      obtain ⟨⟨dt, j⟩, hp, rfl⟩ := List.mem_map.mp hcolumn
      have hj : stream.types[j]? = some dt := List.mem_zipIdx_iff_getElem?.mp hp
      have hconform : Conform stream.types (pageAt stream request start).batches :=
        stream.conform.pageBatches
      rw [DecodedColumn.cells, List.length_map, List.length_zipIdx, List.length_map,
        hconform.length_columnValues hj, rowCount_pageAt]
      rfl
    · exact ih h

end

theorem received_take_le {pages : List FetchedPage} {k : Nat} :
    received (pages.take k) ≤ received pages := by
  have h := congrArg received (List.take_append_drop k pages)
  simp only [received, List.map_append, List.sum_append] at h ⊢
  omega

theorem length_pagesFrom {F : Formatting} {stream : RecordBatchStream} {start : Nat}
    {requests : List FetchRequest} :
    (pagesFrom F stream start requests).length = requests.length := by
  induction requests generalizing start with
  | nil => rfl
  | cons request requests ih => rw [pagesFrom, List.length_cons, ih, List.length_cons]

section
variable {F : Formatting} {stream : RecordBatchStream} {requests : List FetchRequest}

/-- A cell of a plain type is received as its value. -/
theorem cellValue_receivedCell (hs : Supported F stream.types stream.batches) {j : Nat}
    {dt : DataType} (hj : stream.types[j]? = some dt) (hdt : dt.isPlain) {v : Value}
    (hv : v ∈ columnValues stream.batches j) : cellValue dt (receivedCell F dt v) = v := by
  have htype := stream.conform.hasType hj v hv
  obtain ⟨t, ht, -⟩ := hs.cell j dt hj v hv
  obtain ⟨encoder, he, ht'⟩ := Except.bind_eq_ok.mp ht
  cases hnull : v.isNull with
  | true =>
    cases v with
    | null => rfl
    | _ => cases hnull
  | false =>
    have hback := readBack_readValue F hdt he htype hnull ht'
    simp [receivedCell, hnull, cellValue, sentCell, ht, Except.getD, hback]

theorem fetched_pagesFrom (hs : Supported F stream.types stream.batches) (h : IsFetchLoop (stream.materialized F) 0 requests) :
    Fetched F stream requests (pagesFrom F stream 0 requests) := by
  have hreceived : received (pagesFrom F stream 0 requests) =
      position (rowCount stream.batches) 0 (limits requests) := by
    rw [← received_pagesFrom (F := F), Nat.zero_add]
  have hle : received (pagesFrom F stream 0 requests) ≤ rowCount stream.batches :=
    hreceived ▸ position_le (Nat.zero_le _)
  have hmore {k page} (hk : (pagesFrom F stream 0 requests)[k]? = some page) :=
    hasMoreRows_pagesFrom (Nat.zero_le _) hk
  simp only [Nat.zero_add] at hmore
  have hcells {j dt} (hj : stream.types[j]? = some dt) :
      (pagesFrom F stream 0 requests).flatMap (·.cells j) =
        ((columnValues stream.batches j).map (receivedCell F dt)).take
          (received (pagesFrom F stream 0 requests)) := by
    rw [List.flatMap_def, cells_pagesFrom hj, windows_flatten_zero, List.length_map,
      stream.conform.length_columnValues hj, hreceived]
  refine ⟨fun page => columns_pagesFrom, fun j dt => hcells, ?_, fun k page => hmore, ?_, ?_⟩
  · intro j dt hj hdt
    rw [hcells hj, List.map_take, List.map_map]
    congr 1
    exact (List.map_congr_left fun v hv => cellValue_receivedCell hs hj hdt hv).trans
      (List.map_id _)
  · rintro ⟨page, hpage, hlast⟩ j dt hj
    obtain ⟨k, hk⟩ := List.mem_iff_getElem?.mp hpage
    have hall := (hmore hk).mp hlast
    have : received ((pagesFrom F stream 0 requests).take (k + 1)) ≤
        received (pagesFrom F stream 0 requests) := received_take_le
    rw [hcells hj, List.take_of_length_le]
    rw [List.length_map, stream.conform.length_columnValues hj]
    omega
  · intro hlen
    have hall : received (pagesFrom F stream 0 requests) = rowCount stream.batches := by
      rw [hreceived]
      refine position_eq (Nat.zero_le _) (pos_of_mem_limits h) ?_
      rw [limits, List.length_map]
      omega
    have hpos : 0 < (pagesFrom F stream 0 requests).length := by
      rw [length_pagesFrom]
      omega
    have hlast := List.getElem?_eq_getElem (Nat.sub_lt hpos Nat.one_pos)
    refine ⟨_, List.mem_of_getElem? hlast, (hmore hlast).mpr ?_⟩
    rwa [Nat.sub_add_cancel hpos, List.take_length]

end

/-- A stream is materialized exactly when it has no error and its rows and bytes are within the
limits, and then a client that fetches page after page reads the stream, each row once and in
order, and knows when it has read the last one. -/
theorem fetchesStream (F : Formatting) (stream : RecordBatchStream) (limits : ResultLimits) :
    ((∃ result, materializeStream F stream limits = .ok result) ↔
      stream.NoError ∧ WithinLimit (rowCount stream.batches) limits.maxRows ∧
        WithinLimit (min (memorySize stream.batches) usizeMax) limits.maxBytes) ∧
    ∀ result, materializeStream F stream limits = .ok result →
      Supported F stream.types stream.batches → ∀ requests, IsFetchLoop result 0 requests →
      ∃ pages, requests.mapM (fetch F result) = some pages ∧ Fetched F stream requests pages := by
  constructor
  · constructor
    · rintro ⟨result, h⟩
      exact (materializeStream_eq_ok.mp h).1
    · intro h
      exact ⟨_, materializeStream_eq_ok.mpr ⟨h, rfl⟩⟩
  · intro result hm hs requests hloop
    obtain ⟨-, rfl⟩ := materializeStream_eq_ok.mp hm
    exact ⟨_, mapM_fetch hs (Nat.zero_le _) hloop, fetched_pagesFrom hs hloop⟩

/-- Formatters for results of integers, which format no values. -/
def integerFormatting : Formatting where
  dataTypeToString
    | .int32 => "Int32"
    | _ => "other"
  arrayValueToString _ _ := .error "not an integer"
  parsesTimezone _ := false
  f64ToString _ := ""
  dateToString _ := ""
  dateTimeToString _ := ""

/-- A batch of one column of integers. -/
def integerBatch (values : List (Option Int32)) : RecordBatch where
  columns := [{
    dataType := .int32
    values := values.map fun | none => .null | some v => .int32 v
    typed v hv := by
      obtain ⟨v, -, rfl⟩ := List.mem_map.mp hv
      cases v with
      | none => exact .null rfl
      | some v => exact .int32 }]
  numRows := values.length
  arrayMemorySize := 64
  length_eq a ha := by
    obtain rfl := List.mem_singleton.mp ha
    exact List.length_map _

/-- Three rows, the second of them null, in two batches around an empty one. -/
def integerStream : RecordBatchStream where
  schema := [⟨"n", .int32, true⟩]
  items := [.ok (integerBatch [some 1, none]), .ok (integerBatch []), .ok (integerBatch [some 3])]
  conforms b hb := by
    simp only [List.mem_cons, Except.ok.injEq, List.not_mem_nil, or_false] at hb
    rcases hb with rfl | rfl | rfl <;> rfl

theorem fetchesStream_integers : ∃ result pages,
    materializeStream integerFormatting integerStream ⟨some 3, none⟩ = .ok result ∧
      [⟨0, some 2⟩, ⟨2, none⟩].mapM (fetch integerFormatting result) = some pages ∧
      Fetched integerFormatting integerStream [⟨0, some 2⟩, ⟨2, none⟩] pages := by
  have hm : materializeStream integerFormatting integerStream ⟨some 3, none⟩ =
      .ok (integerStream.materialized integerFormatting) := rfl
  have hs : Supported integerFormatting integerStream.types integerStream.batches := by
    refine ⟨by decide, fun dt hdt => ?_, fun j dt hj v hv => ?_⟩
    · obtain rfl := List.mem_singleton.mp hdt
      exact ⟨_, rfl⟩
    · obtain ⟨rfl, rfl⟩ : j = 0 ∧ dt = .int32 := by
        cases j with
        | zero => exact ⟨rfl, (Option.some.inj hj).symm⟩
        | succ j => cases hj
      have hv : v ∈ [Value.int32 1, .null, .int32 3] := hv
      simp only [List.mem_cons, List.not_mem_nil, or_false] at hv
      rcases hv with rfl | rfl | rfl <;> exact ⟨_, rfl, .i32⟩
  have hloop : IsFetchLoop (integerStream.materialized integerFormatting) 0
      [⟨0, some 2⟩, ⟨2, none⟩] := by
    refine ⟨rfl, ?_, rfl, ?_, trivial⟩
    · rintro n ⟨⟩
      decide
    · rintro n ⟨⟩
  obtain ⟨pages, hpages, h⟩ := (fetchesStream integerFormatting integerStream ⟨some 3, none⟩).2
    _ hm hs _ hloop
  exact ⟨_, pages, hm, hpages, h⟩

end HarborSql
