import HarborSql.Theory.Except
import HarborSql.Thrift.ResultWriter

/-! A writer that keeps what was written before an error: the responses with a result are what the
bytes of their parts are, and a result that cannot be encoded leaves no byte behind. -/

namespace HarborSql

open Writer

namespace WriterM

/-- The call appends the bytes of `result`, or, where that is an error, some bytes. -/
structure Writes (m : WriterM Unit) (result : Result Bytes) : Prop where
  ok : ∀ {bytes}, result = .ok bytes → ∀ buffer, m.call buffer = (.ok (), buffer ++ bytes)
  error : ∀ {err}, result = .error err →
    ∀ buffer, ∃ bytes, m.call buffer = (.error err, buffer ++ bytes)

section
variable {α β : Type} {m m' : WriterM Unit} {r r' : Result Bytes} {buffer buffer' : Bytes}

theorem call_bind_ok {m : WriterM α} {f : α → WriterM β} {a : α}
    (h : m.call buffer = (.ok a, buffer')) : (m >>= f).call buffer = (f a).call buffer' := by
  simp only [call, ExceptT.run_bind, StateT.run_bind] at h ⊢
  rw [h]
  rfl

theorem call_bind_error {m : WriterM α} {f : α → WriterM β} {err : HarborError}
    (h : m.call buffer = (.error err, buffer')) : (m >>= f).call buffer = (.error err, buffer') := by
  simp only [call, ExceptT.run_bind, StateT.run_bind] at h ⊢
  rw [h]
  rfl

theorem Writes.write (bytes : Bytes) : Writes (write bytes) (.ok bytes) where
  ok h buffer := by
    cases h
    rfl
  error h := by cases h

theorem Writes.pure : Writes (pure ()) (.ok []) where
  ok h buffer := by
    cases h
    rw [List.append_nil]
    rfl
  error h := by cases h

theorem Writes.throw {err : HarborError} : Writes (throw err) (.error err) where
  ok h := by cases h
  error h buffer := by
    cases h
    exact ⟨[], by rw [List.append_nil]; rfl⟩

/-- Two calls, one after the other. -/
theorem Writes.seq (h : Writes m r) (h' : Writes m' r') :
    Writes (do m; m') (do return (← r) ++ (← r')) where
  ok hr buffer := by
    obtain ⟨bytes, hbytes, hr⟩ := Except.bind_eq_ok.mp hr
    obtain ⟨bytes', hbytes', hr⟩ := Except.bind_eq_ok.mp hr
    cases hr
    rw [call_bind_ok (h.ok hbytes buffer), h'.ok hbytes', List.append_assoc]
  error hr buffer := by
    cases hfirst : r with
    | error err =>
      rw [hfirst] at hr
      cases hr
      obtain ⟨bytes, hcall⟩ := h.error hfirst buffer
      exact ⟨bytes, call_bind_error hcall⟩
    | ok bytes =>
      cases hsecond : r' with
      | error err =>
        rw [hfirst, hsecond] at hr
        cases hr
        obtain ⟨bytes', hcall⟩ := h'.error hsecond (buffer ++ bytes)
        exact ⟨bytes ++ bytes', by rw [call_bind_ok (h.ok hfirst buffer), hcall, List.append_assoc]⟩
      | ok bytes' =>
        rw [hfirst, hsecond] at hr
        cases hr

theorem Writes.forM (xs : List α) {f : α → WriterM Unit} {g : α → Result Bytes}
    (h : ∀ a ∈ xs, Writes (f a) (g a)) : Writes (xs.forM f) (List.flatten <$> xs.mapM g) := by
  induction xs with
  | nil => exact .pure
  | cons a xs ih =>
    have hseq := (h a List.mem_cons_self).seq (ih fun b hb => h b (List.mem_cons_of_mem a hb))
    have hr : List.flatten <$> (a :: xs).mapM g =
        (do return (← g a) ++ (← List.flatten <$> xs.mapM g)) := by
      rw [List.mapM_cons]
      cases g a with
      | error err => rfl
      | ok bytes => cases xs.mapM g <;> rfl
    rw [hr]
    exact hseq

theorem Writes.field (fieldType : UInt8) (fieldId : Int16) (h : Writes m r) :
    Writes (writeFieldResult fieldType fieldId m) (HarborSql.Writer.writeFieldResult fieldType fieldId r) := by
  have hseq := (Writes.write (fieldType :: writeI16 fieldId)).seq h
  cases r <;> exact hseq

/-- A writer of its own has the bytes of a call, or is dropped. -/
theorem Writes.written_eq (h : Writes m r) : written m = liftResult r := by
  unfold written
  cases hr : r with
  | ok bytes =>
    rw [h.ok hr []]
    rfl
  | error err =>
    obtain ⟨bytes, hcall⟩ := h.error hr []
    rw [hcall]
    rfl

end

section
variable {F : Formatting} {result : QueryResult}

theorem writes_batchValues (columnIndex : Nat)
    (readValue : DataType → Nat → Value → Result ThriftValue) (batch : RecordBatch) :
    Writes (match batch.columns[columnIndex]? with
      | none => throw (.unsupportedResultType s!"result page is missing column index {columnIndex}")
      | some array => array.values.zipIdx.forM fun (v, row) => do
        let value ← liftResult (readValue array.dataType row v)
        write value.write) (writeBatchValues columnIndex readValue batch) := by
  unfold writeBatchValues
  cases batch.columns[columnIndex]? with
  | none => exact .throw
  | some array =>
    have hcell (p : Value × Nat) : Writes (do
        let value ← liftResult (readValue array.dataType p.2 p.1)
        write value.write) (ThriftValue.write <$> readValue array.dataType p.2 p.1) := by
      cases readValue array.dataType p.2 p.1 with
      | ok value => exact .write _
      | error err => exact .throw
    have h := Writes.forM array.values.zipIdx fun p _ => hcell p
    rw [Except.mapM_map_result] at h
    dsimp only
    cases hvalues : array.values.zipIdx.mapM fun p => readValue array.dataType p.2 p.1 with
    | ok values =>
      rw [hvalues] at h
      exact h
    | error err =>
      rw [hvalues] at h
      exact h

theorem writes_columnValues (page : QueryResultPage) (valueType : UInt8) (columnIndex : Nat)
    (readValue : DataType → Nat → Value → Result ThriftValue) :
    Writes (writeColumnValues valueType page columnIndex readValue)
      (HarborSql.writeColumnValues valueType page columnIndex readValue) := by
  have hvalues := Writes.forM page.batches fun batch _ =>
    writes_batchValues columnIndex readValue batch
  have h := (((Writes.write (writeListBegin valueType page.rowCount)).seq hvalues).field tList 1).seq
    ((Writes.write (writeField tString 2
      (writeBinary (nullBitset page.batches columnIndex page.rowCount)))).seq (.write writeStop))
  unfold HarborSql.writeColumnValues
  cases hbatches : page.batches.mapM (writeBatchValues columnIndex readValue) with
  | ok values =>
    rw [hbatches] at h
    show Writes _ (.ok (writeField tList 1 (writeListBegin valueType page.rowCount ++ values.flatten)
      ++ writeField tString 2 _ ++ writeStop))
    rw [List.append_assoc]
    exact h
  | error err =>
    rw [hbatches] at h
    exact h

theorem writes_column (page : QueryResultPage) (encoder : ColumnEncoder) (columnIndex : Nat) :
    Writes (writeColumn F encoder columnIndex page)
      (HarborSql.writeColumn F encoder columnIndex page) := by
  obtain ⟨schemaType, physicalType, decimal⟩ := encoder
  have h {fieldId : Int16} {valueType : UInt8}
      {readValue : DataType → Nat → Value → Result ThriftValue} :=
    ((writes_columnValues page valueType columnIndex readValue).field tStruct fieldId).seq
      (.write writeStop)
  cases physicalType <;> exact h

theorem writes_rowSetWithEncoders (result : QueryResult) (page : QueryResultPage)
    (encoders : List ColumnEncoder) :
    Writes (writeRowSetWithEncoders F result page encoders)
      (HarborSql.writeRowSetWithEncoders F result page encoders) := by
  have hcolumns := Writes.forM encoders.zipIdx fun p _ =>
    writes_column (F := F) page p.1 p.2
  have h := (Writes.write (writeField tI64 1 (writeI64 page.startRowOffset))).seq <|
    (Writes.write (writeField tList 2 (writeListBegin tStruct 0))).seq <|
    (((Writes.write (writeListBegin tStruct result.columns.length)).seq hcolumns).field tList 3).seq <|
    (Writes.write (writeField tI32 5 (writeI32 (.ofNat result.columns.length)))).seq <|
    .write writeStop
  unfold HarborSql.writeRowSetWithEncoders
  cases hmapM : encoders.zipIdx.mapM fun p => HarborSql.writeColumn F p.1 p.2 page with
  | ok columns =>
    rw [hmapM] at h
    show Writes _ (.ok (writeField tI64 1 _ ++ writeField tList 2 _ ++
      writeField tList 3 (writeListBegin tStruct result.columns.length ++ columns.flatten) ++
      writeField tI32 5 _ ++ writeStop))
    simp only [List.append_assoc]
    exact h
  | error err =>
    rw [hmapM] at h
    exact h

/-! ## Responses -/

/-- Nothing is written before the row set is complete. -/
theorem call_fetchResultsResponseStruct {includeMetadata : Bool} {startRowOffset : Int64}
    {maxRows : Option Int64} {buffer : Bytes} :
    (writeFetchResultsResponseStruct F result includeMetadata startRowOffset maxRows).call buffer =
      match HarborSql.writeFetchResultsResponseStruct F result includeMetadata startRowOffset
        maxRows with
      | .ok bytes => (.ok (), buffer ++ bytes)
      | .error err => (.error err, buffer) := by
  unfold writeFetchResultsResponseStruct HarborSql.writeFetchResultsResponseStruct
  cases hencoders : columnEncoders F result with
  | error err => rfl
  | ok encoders =>
    have hrowSet := (writes_rowSetWithEncoders (F := F) result
      (rowPage result startRowOffset maxRows) encoders).written_eq
    simp only [liftResult, pure_bind, hrowSet]
    cases hresult : HarborSql.writeRowSetWithEncoders F result
        (rowPage result startRowOffset maxRows) encoders with
    | error err =>
      simp only [bind, Except.bind, hresult]
      rfl
    | ok rowSet =>
      simp only [bind, Except.bind, hresult, pure, Except.pure, ← List.append_assoc]
      cases includeMetadata with
      | true => rfl
      | false =>
        simp only [Bool.false_eq_true, if_false, List.append_nil]
        rfl

/-- The closure of a response only appends to the head of the message. -/
theorem writeSuccessResponse_append {method : String} {seqid : Int32} {bytes : Bytes} :
    writeSuccessResponse method seqid (· ++ bytes) =
      HarborSql.writeSuccessResponse method seqid bytes := by
  simp [writeSuccessResponse, HarborSql.writeSuccessResponse, writeField]

theorem writeGetResultSetMetadataResponse_eq {seqid : Int32} :
    writeGetResultSetMetadataResponse F seqid result =
      HarborSql.writeGetResultSetMetadataResponse F seqid result := by
  rw [HarborSql.writeGetResultSetMetadataResponse, ← writeSuccessResponse_append]
  unfold writeGetResultSetMetadataResponse
  congr 1
  funext buffer
  unfold writeResultSetMetadataResponse HarborSql.writeResultSetMetadataResponse
  cases columnEncoders F result <;> rfl

theorem writeFetchResultsResponse_eq {seqid : Int32} {includeMetadata : Bool}
    {startRowOffset : Int64} {maxRows : Option Int64} :
    writeFetchResultsResponse F seqid result includeMetadata startRowOffset maxRows =
      HarborSql.writeFetchResultsResponse F seqid result includeMetadata startRowOffset maxRows := by
  rw [HarborSql.writeFetchResultsResponse, ← writeSuccessResponse_append]
  unfold writeFetchResultsResponse
  congr 1
  funext buffer
  rw [call_fetchResultsResponseStruct]
  cases HarborSql.writeFetchResultsResponseStruct F result includeMetadata startRowOffset
    maxRows <;> rfl

end
end WriterM
end HarborSql
