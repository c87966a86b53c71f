import HarborSql.Verify.Results.Fetch
import HarborSql.Verify.Results.RowSet
import HarborSql.Verify.Thrift.ContainerBound
import HarborSql.Verify.Thrift.PartialWrites
import Mathlib.Algebra.Group.Nat.Defs

/-! What the service writes is one message with one struct, which a strict reader reads to its
end. -/

namespace HarborSql

open Writer

/-! ## What a strict reader takes for a message -/

/-- The bytes are a header and one struct, and nothing more. -/
def ReadsMessage (bytes : Bytes) (name : String) (messageType : UInt8) (seqid : Int32)
    (fields : List (Int16 × Thrift.Value)) : Prop :=
  ∃ payload, Reader.decodeMessageBytes bytes = some (⟨name, messageType, seqid, payload⟩, payload) ∧
    Thrift.Value.decode .struct payload = some (.struct fields, [])

/-- `bytes` is the encoding of a well-formed value. -/
def Encodes (v : Thrift.Value) (bytes : Bytes) : Prop := v.WF ∧ v.encode = bytes

/-- `bytes` is the encoding of well-formed fields, before those that follow. -/
def EncodesFields (fields : List (Int16 × Thrift.Value)) (bytes : Bytes) : Prop :=
  (∀ f ∈ fields, f.2.WF) ∧ ∀ more,
    Thrift.Value.encodeFields (fields ++ more) = bytes ++ Thrift.Value.encodeFields more

/-- A text whose size can be written. -/
def ShortText (text : String) : Prop := (utf8 text).length < 2 ^ 31

instance {text : String} : Decidable (ShortText text) := Nat.decLt _ _

theorem length_utf8_le (s : String) : (utf8 s).length ≤ 4 * s.toList.length := by
  rw [utf8_eq_flatMap]
  induction s.toList with
  | nil => exact Nat.le_refl _
  | cons c cs ih =>
    have hc := c.utf8Size_le_four
    rw [List.flatMap_cons, List.length_append, String.length_utf8EncodeChar, List.length_cons]
    omega

theorem shortText_uuid (id : Uuid) : ShortText id.toString := by
  have hle := length_utf8_le id.toString
  have hlen : id.toString.toList.length = 36 := by
    simp [Uuid.toString, List.length_flatMap, id.length_eq]
  unfold ShortText
  omega

section
variable {v : Thrift.Value} {bytes : Bytes} {fields fields' : List (Int16 × Thrift.Value)}

theorem EncodesFields.nil : EncodesFields [] [] := ⟨List.forall_mem_nil _, fun _ => rfl⟩

theorem EncodesFields.append {bytes' : Bytes} (h : EncodesFields fields bytes)
    (h' : EncodesFields fields' bytes') : EncodesFields (fields ++ fields') (bytes ++ bytes') := by
  refine ⟨List.forall_mem_append.mpr ⟨h.1, h'.1⟩, fun more => ?_⟩
  rw [List.append_assoc, h.2, h'.2, List.append_assoc]

theorem Encodes.field {id : Int16} (h : Encodes v bytes) :
    EncodesFields [(id, v)] (writeField v.ty.code id bytes) := by
  refine ⟨List.forall_mem_singleton.mpr h.1, fun more => ?_⟩
  rw [List.singleton_append, Thrift.Value.encodeFields, h.2, writeField, writeI16,
    List.cons_append, List.append_assoc]

theorem EncodesFields.struct (h : EncodesFields fields bytes) :
    Encodes (.struct fields) (bytes ++ writeStop) := by
  refine ⟨.struct h.1, ?_⟩
  have hall := h.2 []
  rwa [List.append_nil] at hall

theorem encodes_i32 (value : Int32) : Encodes (.i32 value) (writeI32 value) := ⟨.i32, rfl⟩

theorem encodes_i64 (value : Int64) : Encodes (.i64 value) (writeI64 value) := ⟨.i64, rfl⟩

theorem encodes_bool (value : Bool) : Encodes (.bool value.toUInt8) (writeBool value) :=
  ⟨.bool, rfl⟩

theorem encodes_binary {value : Bytes} (h : value.length < 2 ^ 31) :
    Encodes (.string value) (writeBinary value) := ⟨.string h, rfl⟩

theorem encodes_string {value : String} (h : ShortText value) :
    Encodes (.string (utf8 value)) (writeString value) := encodes_binary h

theorem encodes_singleton (h : Encodes v bytes) :
    Encodes (.list v.ty [v]) (writeListBegin v.ty.code 1 ++ bytes) := by
  refine ⟨.list (by simp) (by simp) (List.forall_mem_singleton.mpr h.1), ?_⟩
  rw [Thrift.Value.encode, Thrift.Value.encodeList_eq, List.flatMap_singleton, h.2]
  rfl

/-- Items that are written one after the other. -/
theorem exists_values {α : Type} {items : List α} {t : Thrift.Ty} {write : α → Bytes}
    (h : ∀ a ∈ items, ∃ v, v.ty = t ∧ Encodes v (write a)) :
    ∃ values : List Thrift.Value, values.length = items.length ∧
      (∀ v ∈ values, v.ty = t ∧ v.WF) ∧
      values.flatMap Thrift.Value.encode = items.flatMap write := by
  induction items with
  | nil => exact ⟨[], rfl, List.forall_mem_nil _, rfl⟩
  | cons a items ih =>
    obtain ⟨v, hty, hwf, hv⟩ := h a List.mem_cons_self
    obtain ⟨values, hlen, hvalues, hflat⟩ := ih fun b hb => h b (List.mem_cons_of_mem a hb)
    refine ⟨v :: values, congrArg (· + 1) hlen, List.forall_mem_cons.mpr ⟨⟨hty, hwf⟩, hvalues⟩, ?_⟩
    rw [List.flatMap_cons, List.flatMap_cons, hv, hflat]

theorem exists_list {α : Type} {items : List α} {t : Thrift.Ty} {write : α → Bytes}
    (hlen : items.length < 2 ^ 31) (h : ∀ a ∈ items, ∃ v, v.ty = t ∧ Encodes v (write a)) :
    ∃ values, Encodes (.list t values)
      (writeListBegin t.code items.length ++ items.flatMap write) := by
  obtain ⟨values, hlen', hvalues, hflat⟩ := exists_values h
  refine ⟨values, .list (hlen' ▸ hlen) (fun v hv => (hvalues v hv).1) fun v hv => (hvalues v hv).2, ?_⟩
  rw [Thrift.Value.encode, Thrift.Value.encodeList_eq, hflat, hlen']
  rfl

end

section
variable {name method : String} {messageType : UInt8} {seqid : Int32} {bytes : Bytes}
  {fields : List (Int16 × Thrift.Value)}

theorem readsMessage (hname : ShortText name)
    (htype : messageType = tMessageReply ∨ messageType = tMessageException)
    (h : EncodesFields fields bytes) :
    ReadsMessage (writeMessageBegin name messageType seqid ++ (bytes ++ writeStop)) name messageType
      seqid fields := by
  refine ⟨bytes ++ writeStop, ?_, ?_⟩
  · have hversion : (tBinaryVersion1 ||| messageType.toUInt32) &&& 0xffff0000 = tBinaryVersion1 ∧
        ((tBinaryVersion1 ||| messageType.toUInt32) &&& 0x000000ff).toUInt8 = messageType := by
      rcases htype with rfl | rfl <;> decide
    have hdecode := @Reader.decodeMessageBytes_write _ name seqid (bytes ++ writeStop) hversion.1
      hname
    rw [hversion.2] at hdecode
    rw [writeMessageBegin, List.append_assoc, List.append_assoc]
    exact hdecode
  · have hstruct := h.struct
    have hdecode := Thrift.Value.decode_encode hstruct.1 []
    rwa [List.append_nil, hstruct.2] at hdecode

/-- A reply with one struct in its success field. -/
def IsReply (bytes : Bytes) (method : String) (seqid : Int32) : Prop :=
  ∃ fields, ReadsMessage bytes method tMessageReply seqid [(0, .struct fields)]

theorem readsMessage_success (hmethod : ShortText method) (h : EncodesFields fields bytes) :
    ReadsMessage (writeSuccessResponse method seqid (bytes ++ writeStop)) method tMessageReply seqid
      [(0, .struct fields)] := by
  rw [writeSuccessResponse, List.append_assoc]
  exact readsMessage hmethod (.inl rfl) h.struct.field

theorem isReply (hmethod : ShortText method) (h : EncodesFields fields bytes) :
    IsReply (writeSuccessResponse method seqid (bytes ++ writeStop)) method seqid :=
  ⟨fields, readsMessage_success hmethod h⟩

end

/-! ## Statuses -/

/-- The texts that the service writes of its own. -/
def fixedTexts : List String := ["OpenSession", "CloseSession", "GetInfo", "GetColumns",
  "ExecuteStatement", "GetOperationStatus", "GetQueryId", "GetResultSetMetadata", "FetchResults",
  "CloseOperation", "CancelOperation", "invalid session handle", "unknown operation handle",
  "operation is not finished", "maximum session count exceeded",
  "maximum operation count exceeded", "OPERATION_RUNNING: operation is still running",
  "OPERATION_CANCELED: operation was canceled", "expected a Thrift CALL message", "HarborSQL",
  "\\", "Spark SQL", "3.1.0", "\x60", "", "precision", "scale"]

theorem shortText_fixed : ∀ text ∈ fixedTexts, ShortText text := by decide +kernel

/-- What a client sees of the errors. -/
def clientErrors : List ClientError := [.internal, ⟨"CONFIG_INVALID", "invalid configuration"⟩,
  ⟨"UNAUTHORIZED", "missing bearer token"⟩, ⟨"UNSUPPORTED_SQL", "unsupported SQL"⟩,
  ⟨"UNITY_CATALOG_ERROR", "Unity Catalog request failed"⟩,
  ⟨"QUERY_FAILED", "query execution failed"⟩,
  ⟨"UNSUPPORTED_RESULT_TYPE", "unsupported result column type"⟩,
  ⟨"THRIFT_PROTOCOL_ERROR", "invalid Thrift request"⟩,
  ⟨"UPSTREAM_HTTP_ERROR", "upstream HTTP request failed"⟩, ⟨"INVALID_URL", "invalid URL"⟩,
  ⟨"DELTA_TABLE_ERROR", "Delta table operation failed"⟩,
  ⟨"DATAFUSION_ERROR", "query planning or execution failed"⟩,
  ⟨"RESULT_ENCODING_ERROR", "result encoding failed"⟩, ⟨"JSON_ERROR", "JSON processing failed"⟩]

theorem mem_clientErrors (err : HarborError) : err.clientError ∈ clientErrors := by
  cases err <;> simp [HarborError.clientError, clientErrors]

theorem shortText_clientErrors : ∀ error ∈ clientErrors, ShortText error.statusMessage := by
  decide +kernel

theorem shortText_client (err : HarborError) : ShortText (thriftClientErrorMessage err) :=
  shortText_clientErrors _ (mem_clientErrors err)

/-- The fields of a status. -/
def statusFields (statusCode : Int32) (message : Option String) : List (Int16 × Thrift.Value) :=
  (1, .i32 statusCode) :: match message with
    | some message => [(5, .string (utf8 message)), (6, .string (utf8 message))]
    | none => []

section
variable {statusCode : Int32} {message : Option String} {text : String}

theorem encodesFields_status (h : ∀ text, message = some text → ShortText text) :
    EncodesFields [(1, .struct (statusFields statusCode message))]
      (writeStatusField statusCode message) := by
  have hcode : EncodesFields [(1, .i32 statusCode)] (writeField tI32 1 (writeI32 statusCode)) :=
    (encodes_i32 statusCode).field
  cases message with
  | none => exact (hcode.append .nil).struct.field
  | some text =>
    have htext := encodes_string (h text rfl)
    exact (hcode.append (htext.field.append htext.field)).struct.field

theorem encodesFields_statusText (h : ShortText text) :
    EncodesFields [(1, .struct (statusFields statusCode (some text)))]
      (writeStatusField statusCode (some text)) :=
  encodesFields_status fun _ htext => Option.some.inj htext ▸ h

theorem encodesFields_statusOnly :
    EncodesFields [(1, .struct (statusFields statusCode none))] (writeStatusField statusCode none) :=
  encodesFields_status fun _ htext => by cases htext

end

/-! ## Responses without a result -/

section
variable {seqid : Int32} {guid secret : Bytes} {catalog schema message : String}

theorem encodesFields_handleIdentifier (hguid : guid.length = 16) (hsecret : secret.length = 16) :
    EncodesFields [(1, .struct [(1, .string guid), (2, .string secret)])]
      (writeField tStruct 1 (writeHandleIdentifier guid secret)) := by
  have hguid : Encodes (.string guid) (writeBinary guid) := encodes_binary (by omega)
  have hsecret : Encodes (.string secret) (writeBinary secret) := encodes_binary (by omega)
  exact (hguid.field.append hsecret.field).struct.field

theorem encodes_operationHandle (hasResultSet : Bool) (operationType : Int32)
    (hguid : guid.length = 16) (hsecret : secret.length = 16) :
    ∃ fields, Encodes (.struct fields)
      (writeOperationHandleWithType guid secret hasResultSet operationType) :=
  ⟨_, (((encodesFields_handleIdentifier hguid hsecret).append (encodes_i32 _).field).append
    (encodes_bool _).field).struct⟩

theorem encodes_sessionHandle (hguid : guid.length = 16) (hsecret : secret.length = 16) :
    ∃ fields, Encodes (.struct fields) (writeSessionHandle guid secret) :=
  ⟨_, ((encodesFields_handleIdentifier hguid hsecret).append (encodes_i32 _).field).struct⟩

theorem encodes_namespace (hcatalog : ShortText catalog) (hschema : ShortText schema) :
    ∃ fields, Encodes (.struct fields) (writeNamespace catalog schema) :=
  ⟨_, ((encodes_string hcatalog).field.append (encodes_string hschema).field).struct⟩

theorem shortText_getInfoString (infoType : Int32) (h : ShortText catalog) :
    ShortText (getInfoString infoType catalog) := by
  have hfixed {text : String} (hmem : text ∈ fixedTexts) : ShortText text := shortText_fixed text hmem
  unfold getInfoString
  repeat' split
  all_goals first | exact h | exact hfixed (by simp [fixedTexts])

theorem encodes_getInfoValue (infoType : Int32) (h : ShortText catalog) :
    ∃ fields, Encodes (.struct fields) (writeGetInfoValue infoType catalog) := by
  unfold writeGetInfoValue
  split
  · exact ⟨_, (encodes_string (shortText_getInfoString infoType h)).field.struct⟩
  · split
    · exact ⟨_, (encodes_i64 _).field.struct⟩
    · split
      · exact ⟨_, (encodes_i32 _).field.struct⟩
      · exact ⟨_, (encodes_i32 _).field.struct⟩

theorem isReply_openSession {types : List Int32} (hguid : guid.length = 16)
    (hsecret : secret.length = 16) (hcatalog : ShortText catalog) (hschema : ShortText schema)
    (htypes : types.length < 2 ^ 31) :
    IsReply (writeOpenSessionResponse seqid guid secret catalog schema types) "OpenSession"
      seqid := by
  obtain ⟨handle, hhandle⟩ := encodes_sessionHandle hguid hsecret
  obtain ⟨names, hnames⟩ := encodes_namespace hcatalog hschema
  have hinfo : ∃ fields, EncodesFields fields (if types.isEmpty then []
      else writeField tList 1281 <| writeListBegin tStruct types.length ++
        types.flatMap fun infoType => writeGetInfoValue infoType catalog) := by
    split
    · exact ⟨[], .nil⟩
    · obtain ⟨values, hvalues⟩ := exists_list htypes fun infoType _ =>
        have ⟨fields, h⟩ := encodes_getInfoValue infoType hcatalog
        ⟨.struct fields, rfl, h⟩
      exact ⟨_, hvalues.field⟩
  obtain ⟨info, hinfo⟩ := hinfo
  exact isReply (shortText_fixed _ (by simp [fixedTexts])) <|
    ((((encodesFields_statusOnly.append (encodes_i32 _).field).append hhandle.field).append
      hnames.field).append (encodes_bool _).field).append hinfo

theorem isReply_status {method : String} {statusCode : Int32} {message : Option String}
    (hmethod : method ∈ fixedTexts) (h : ∀ text, message = some text → ShortText text) :
    IsReply (writeSuccessResponse method seqid (writeStatusField statusCode message ++ writeStop))
      method seqid :=
  isReply (shortText_fixed _ hmethod) (encodesFields_status h)

theorem isReply_valid {method text : String} {valid : Bool} (hmethod : method ∈ fixedTexts)
    (htext : text ∈ fixedTexts) :
    IsReply (writeSuccessResponse method seqid
      (writeStatusField (if valid then successStatus else invalidHandleStatus)
        (if valid then none else some text) ++ writeStop)) method seqid := by
  refine isReply_status hmethod fun text' h => ?_
  cases valid with
  | true => cases h
  | false =>
    cases h
    exact shortText_fixed _ htext

theorem isReply_getInfo {infoType : Int32} (h : ShortText catalog) :
    IsReply (writeGetInfoResponse seqid infoType catalog) "GetInfo" seqid := by
  obtain ⟨fields, hvalue⟩ := encodes_getInfoValue infoType h
  exact isReply (shortText_fixed _ (by simp [fixedTexts]))
    (encodesFields_statusOnly.append hvalue.field)

theorem isReply_getInfoInvalid : IsReply (writeGetInfoInvalid seqid) "GetInfo" seqid :=
  isReply (shortText_fixed _ (by simp [fixedTexts])) <|
    (encodesFields_statusText (shortText_fixed _ (by simp [fixedTexts]))).append
      (encodes_string (shortText_fixed "" (by simp [fixedTexts]))).field.struct.field

theorem isReply_getColumns (hguid : guid.length = 16) (hsecret : secret.length = 16) :
    IsReply (writeGetColumnsResponse seqid guid secret) "GetColumns" seqid := by
  obtain ⟨fields, hhandle⟩ := encodes_operationHandle true getColumns hguid hsecret
  exact isReply (shortText_fixed _ (by simp [fixedTexts]))
    (encodesFields_statusOnly.append hhandle.field)

theorem isReply_executeStatement (hguid : guid.length = 16) (hsecret : secret.length = 16) :
    IsReply (writeExecuteStatementResponse seqid guid secret) "ExecuteStatement" seqid := by
  obtain ⟨fields, hhandle⟩ := encodes_operationHandle true executeStatement hguid hsecret
  exact isReply (shortText_fixed _ (by simp [fixedTexts]))
    (encodesFields_statusOnly.append hhandle.field)

theorem isReply_operationStatus {statusCode operationState : Int32} {hasResultSet : Bool}
    {message : Option String} (h : ∀ text, message = some text → ShortText text) :
    IsReply (writeSuccessResponse "GetOperationStatus" seqid
      (writeOperationStatusResponse statusCode operationState hasResultSet message))
      "GetOperationStatus" seqid :=
  isReply (shortText_fixed _ (by simp [fixedTexts])) <|
    ((encodesFields_status h).append (encodes_i32 _).field).append (encodes_bool _).field

theorem isReply_getQueryId {queryId : String} (h : ShortText queryId) :
    IsReply (writeGetQueryIdResponse seqid queryId) "GetQueryId" seqid :=
  isReply (shortText_fixed _ (by simp [fixedTexts])) (encodes_string h).field

/-- The struct of metadata without a result. -/
def noMetadata (statusCode : Int32) (message : String) : List (Int16 × Thrift.Value) :=
  [(1, .struct (statusFields statusCode (some message))), (2, .struct [(1, .list .struct [])]),
    (1281, .i32 columnBasedSet), (1282, .bool 0)]

theorem readsMessage_noMetadata (statusCode : Int32) (h : ShortText message) :
    ReadsMessage (writeSuccessResponse "GetResultSetMetadata" seqid
      (writeResultSetMetadataResponseWithError statusCode message)) "GetResultSetMetadata"
      tMessageReply seqid [(0, .struct (noMetadata statusCode message))] := by
  have hlist : Encodes (.list .struct []) (writeListBegin tStruct 0 ++ []) :=
    ⟨.list (by simp) (List.forall_mem_nil _) (List.forall_mem_nil _), rfl⟩
  exact readsMessage_success (shortText_fixed _ (by simp [fixedTexts])) <|
    (((encodesFields_statusText h).append hlist.field.struct.field).append (encodes_i32 _).field).append
      (encodes_bool false).field

/-- The struct of a page without a result. -/
def noRows (statusCode : Int32) (message : String) : List (Int16 × Thrift.Value) :=
  [(1, .struct (statusFields statusCode (some message))), (2, .bool 0)]

theorem readsMessage_noRows (statusCode : Int32) (h : ShortText message) :
    ReadsMessage (writeSuccessResponse "FetchResults" seqid (writeNoRows statusCode message))
      "FetchResults" tMessageReply seqid [(0, .struct (noRows statusCode message))] :=
  readsMessage_success (shortText_fixed _ (by simp [fixedTexts]))
    ((encodesFields_statusText h).append (encodes_bool false).field)

theorem readsMessage_exception {method : String} (hmethod : ShortText method)
    (h : ShortText message) :
    ReadsMessage (writeApplicationException method seqid message) method tMessageException seqid
      [(1, .string (utf8 message)), (2, .i32 0)] := by
  rw [writeApplicationException, List.append_assoc, List.append_assoc, ← List.append_assoc _ _ writeStop]
  exact readsMessage hmethod (.inr rfl) ((encodes_string h).field.append (encodes_i32 _).field)

end

/-! ## Results -/

/-- A result fits the sizes of Thrift: the number of its columns, their names, and what its cells
are sent as. -/
structure QueryResult.InLimits (F : Formatting) (result : QueryResult) : Prop where
  store : result.store = .new result.store.batches
  columns : result.columns.length < 2 ^ 31
  names : ∀ column ∈ result.columns, ShortText column.name
  cells : ∀ batch ∈ result.store.batches, ∀ array ∈ batch.columns, ∀ v ∈ array.values,
    ∀ pt row t, readValue F pt array.dataType row v = .ok t → t.toThrift.WF

/-- The cells of a page are cells of the batches. -/
theorem mem_pageBatches {batches : List RecordBatch} {skip take : Nat} {batch : RecordBatch}
    {array : ArrowArray} {v : Value} (h : batch ∈ InlineResultStore.pageBatches batches skip take)
    (harray : array ∈ batch.columns) (hv : v ∈ array.values) :
    ∃ batch' ∈ batches, ∃ array' ∈ batch'.columns,
      array'.dataType = array.dataType ∧ v ∈ array'.values := by
  induction batches generalizing skip take with
  | nil => cases h
  | cons b batches ih =>
    have later {skip take : Nat} (h : batch ∈ InlineResultStore.pageBatches batches skip take) :
        ∃ batch' ∈ b :: batches, ∃ array' ∈ batch'.columns,
          array'.dataType = array.dataType ∧ v ∈ array'.values :=
      have ⟨batch', hbatch', hrest⟩ := ih h
      ⟨batch', List.mem_cons_of_mem b hbatch', hrest⟩
    unfold InlineResultStore.pageBatches at h
    split at h
    · cases h
    · split at h
      · exact later h
      · rcases List.mem_cons.mp h with rfl | h
        · obtain ⟨array', harray', rfl⟩ := List.mem_map.mp harray
          exact ⟨b, List.mem_cons_self, array', harray', rfl,
            List.mem_of_mem_drop (List.mem_of_mem_take hv)⟩
        · exact later h

section
variable {F : Formatting} {result : QueryResult} {page : QueryResultPage} {pt : PhysicalType}
  {columnIndex : Nat} {bytes : Bytes}

/-- What the cells of a page are sent as fits. -/
def QueryResultPage.InLimits (F : Formatting) (page : QueryResultPage) : Prop :=
  page.rowCount < 2 ^ 31 ∧ HarborSql.rowCount page.batches = page.rowCount ∧
    ∀ batch ∈ page.batches, ∀ array ∈ batch.columns, ∀ v ∈ array.values, ∀ pt row t,
      readValue F pt array.dataType row v = .ok t → t.toThrift.WF

theorem QueryResult.InLimits.rowPage (h : result.InLimits F) (startRowOffset : Int64)
    (maxRows : Option Int64) : (rowPage result startRowOffset maxRows).InLimits F := by
  have hlimit : requestedRowLimit maxRows ≤ 10000 := requestedRowLimit_le
  have hcount : result.store.rowCount = HarborSql.rowCount result.store.batches :=
    congrArg InlineResultStore.rowCount h.store
  refine ⟨?_, ?_, fun batch hbatch array harray v hv pt row t ht => ?_⟩
  · simp only [HarborSql.rowPage, QueryResult.page, InlineResultStore.page]
    omega
  · simp only [HarborSql.rowPage, QueryResult.page, InlineResultStore.page, rowCount_pageBatches,
      hcount]
    omega
  · obtain ⟨batch', hbatch', array', harray', hdt, hv'⟩ := mem_pageBatches hbatch harray hv
    exact h.cells batch' hbatch' array' harray' v hv' pt row t (hdt ▸ ht)

/-- The values of a batch are of one type, and as many as its rows. -/
theorem exists_batchValues {batch : RecordBatch} (hbatch : batch ∈ page.batches)
    (hpage : page.InLimits F) (h : writeBatchValues columnIndex (readValue F pt) batch = .ok bytes) :
    ∃ values : List ThriftValue, values.length = batch.numRows ∧
      (∀ t ∈ values, t.physicalType = pt ∧ t.toThrift.WF) ∧
      bytes = values.flatMap ThriftValue.write := by
  unfold writeBatchValues at h
  split at h
  · cases h
  next array hcolumn =>
    have harray := List.mem_of_getElem? hcolumn
    obtain ⟨values, hvalues, h⟩ := Except.bind_eq_ok.mp h
    obtain rfl := Except.ok.inj h
    have hlen := (Except.mapM_eq_ok.mp hvalues).length_eq
    rw [List.length_zipIdx, batch.length_eq array harray] at hlen
    refine ⟨values, hlen.symm, fun t ht => ?_, rfl⟩
    obtain ⟨⟨v, row⟩, hv, ht⟩ := Except.exists_of_mem_mapM hvalues ht
    exact ⟨physicalType_readValue F ht,
      hpage.2.2 batch hbatch array harray v (List.fst_mem_of_mem_zipIdx hv) pt row t ht⟩

/-- The values of the batches of a page, one batch after the other. -/
theorem exists_pageValues {batches : List RecordBatch} {written : List Bytes}
    (hbatches : ∀ batch ∈ batches, batch ∈ page.batches) (hpage : page.InLimits F)
    (h : batches.mapM (writeBatchValues columnIndex (readValue F pt)) = .ok written) :
    ∃ values : List ThriftValue, values.length = rowCount batches ∧
      (∀ t ∈ values, t.physicalType = pt ∧ t.toThrift.WF) ∧
      written.flatten = values.flatMap ThriftValue.write := by
  replace h := Except.mapM_eq_ok.mp h
  induction h with
  | nil => exact ⟨[], rfl, List.forall_mem_nil _, rfl⟩
  | @cons batch bytes batches written hbatch _ ih =>
    obtain ⟨values, hlen, hwf, rfl⟩ :=
      exists_batchValues (hbatches batch List.mem_cons_self) hpage hbatch
    obtain ⟨values', hlen', hwf', hflat⟩ := ih fun b hb => hbatches b (List.mem_cons_of_mem _ hb)
    refine ⟨values ++ values', ?_, List.forall_mem_append.mpr ⟨hwf, hwf'⟩, ?_⟩
    · rw [List.length_append, hlen, hlen', rowCount_cons]
    · rw [List.flatten_cons, hflat, List.flatMap_append]

theorem encodes_column {encoder : ColumnEncoder} (hpage : page.InLimits F)
    (h : writeColumn F encoder columnIndex page = .ok bytes) :
    ∃ fields, Encodes (.struct fields) bytes := by
  rw [writeColumn_eq] at h
  obtain ⟨column, hcolumn, h⟩ := Except.bind_eq_ok.mp h
  obtain rfl := Except.ok.inj h
  obtain ⟨list, hlist, h⟩ := Except.bind_eq_ok.mp hcolumn
  obtain rfl := Except.ok.inj h
  obtain ⟨_, hvalues, rfl⟩ := Except.map_eq_ok.mp hlist
  obtain ⟨written, hwritten, h⟩ := Except.bind_eq_ok.mp hvalues
  obtain rfl := Except.ok.inj h
  obtain ⟨values, hlen, hwf, hflat⟩ := exists_pageValues (fun _ h => h) hpage hwritten
  rw [hpage.2.1] at hlen
  have hnulls : Encodes (.string (nullBitset page.batches columnIndex page.rowCount))
      (writeBinary (nullBitset page.batches columnIndex page.rowCount)) :=
    encodes_binary (by have := hpage.1; rw [length_nullBitset]; omega)
  obtain ⟨cells, hcells⟩ := exists_list (hlen ▸ hpage.1) fun t (ht : t ∈ values) =>
    ⟨t.toThrift, t.ty_toThrift.trans (congrArg PhysicalType.ty (hwf t ht).1), (hwf t ht).2,
      t.write_eq.symm⟩
  rw [hlen, ← hflat] at hcells
  exact ⟨_, (hcells.field.append hnulls.field).struct.field.struct⟩

theorem encodes_rowSet {encoders : List ColumnEncoder} (hresult : result.columns.length < 2 ^ 31)
    (hlen : encoders.length = result.columns.length) (hpage : page.InLimits F)
    (h : writeRowSetWithEncoders F result page encoders = .ok bytes) :
    ∃ fields, Encodes (.struct fields) bytes := by
  obtain ⟨_, hfield, h⟩ := Except.bind_eq_ok.mp h
  obtain ⟨_, hlist, rfl⟩ := Except.map_eq_ok.mp hfield
  obtain ⟨columns, hcolumns, hlist⟩ := Except.bind_eq_ok.mp hlist
  obtain rfl := Except.ok.inj hlist
  obtain rfl := Except.ok.inj h
  have hcount := (Except.mapM_eq_ok.mp hcolumns).length_eq
  rw [List.length_zipIdx, hlen] at hcount
  obtain ⟨values, hvalues⟩ := exists_list (hcount ▸ hresult) fun column (hcolumn : column ∈ columns) =>
    have ⟨_, _, h⟩ := Except.exists_of_mem_mapM hcolumns hcolumn
    have ⟨fields, h⟩ := encodes_column hpage h
    ⟨.struct fields, rfl, h⟩
  rw [← hcount, List.flatMap_id'] at hvalues
  have hrows : Encodes (.list .struct []) (writeListBegin tStruct 0) :=
    ⟨.list (by simp) (List.forall_mem_nil _) (List.forall_mem_nil _), rfl⟩
  exact ⟨_, ((((encodes_i64 _).field.append hrows.field).append hvalues.field).append
    (encodes_i32 _).field).struct⟩

/-! ### Metadata -/

theorem encodes_decimalTypeQualifiers (precision scale : Int32) :
    ∃ v, EncodesFields [(2, v)] (writeDecimalTypeQualifiers precision scale) := by
  have hvalue (value : Int32) : Encodes (.struct [(1, .i32 value)])
      (writeField tI32 1 (writeI32 value) ++ writeStop) :=
    EncodesFields.struct (encodes_i32 value).field
  have hprecision : ShortText "precision" := shortText_fixed _ (by simp [fixedTexts])
  have hscale : ShortText "scale" := shortText_fixed _ (by simp [fixedTexts])
  have hmap : Encodes (.map .string .struct
      [(.string (utf8 "precision"), .struct [(1, .i32 precision)]),
        (.string (utf8 "scale"), .struct [(1, .i32 scale)])])
      ([tString, tStruct] ++ writeI32 2 ++
        writeString "precision" ++ writeField tI32 1 (writeI32 precision) ++ writeStop ++
        writeString "scale" ++ writeField tI32 1 (writeI32 scale) ++ writeStop) := by
    refine ⟨.map (by simp) ?_ ?_ ?_, ?_⟩
    · simp [Thrift.Value.ty]
    · simp only [List.forall_mem_cons]
      exact ⟨.string hprecision, .string hscale, List.forall_mem_nil _⟩
    · simp only [List.forall_mem_cons]
      exact ⟨(hvalue precision).1, (hvalue scale).1, List.forall_mem_nil _⟩
    · simp [Thrift.Value.encode, Thrift.Value.encodeEntries, Thrift.Value.encodeFields, writeString,
        writeBinary, writeField, writeI32, writeI16, writeStop, Thrift.encodeSize, Thrift.Value.ty,
        Thrift.Ty.code, tString, tStruct, tI32, tStop]
  exact ⟨_, hmap.field.struct.field⟩

/-- The descriptor of a type, once its qualifiers are there. -/
theorem exists_typeDesc {qualifiers : List (Int16 × Thrift.Value)} {bytes : Bytes}
    (schemaType : Int32) (h : EncodesFields qualifiers bytes) :
    ∃ fields, Encodes (.struct fields)
      ((writeField tList 1 <| writeListBegin tStruct 1 ++
        writeField tStruct 1 (writeField tI32 1 (writeI32 schemaType) ++ bytes ++ writeStop) ++
          writeStop) ++ writeStop) := by
  have hentry : Encodes (.struct [(1, .struct ((1, .i32 schemaType) :: qualifiers))]) _ :=
    EncodesFields.struct ((encodes_i32 schemaType).field.append h).struct.field
  have hlist := encodes_singleton hentry
  rw [← List.append_assoc] at hlist
  exact ⟨_, hlist.field.struct⟩

theorem encodes_typeDesc (encoder : ColumnEncoder) :
    ∃ fields, Encodes (.struct fields) (writeTypeDesc encoder) := by
  unfold writeTypeDesc
  rcases encoder.decimal with _ | ⟨precision, scale⟩
  · exact exists_typeDesc encoder.schemaType .nil
  · obtain ⟨v, h⟩ := encodes_decimalTypeQualifiers precision scale
    exact exists_typeDesc encoder.schemaType h

theorem encodes_columnDesc {column : Column} (encoder : ColumnEncoder) (position : Int32)
    (h : ShortText column.name) :
    ∃ fields, Encodes (.struct fields) (writeColumnDesc column encoder position) := by
  obtain ⟨desc, hdesc⟩ := encodes_typeDesc encoder
  exact ⟨_, (((encodes_string h).field.append hdesc.field).append (encodes_i32 _).field).struct⟩

theorem encodes_tableSchema {columns : List Column} {encoders : List ColumnEncoder}
    (hcolumns : columns.length < 2 ^ 31) (hlen : encoders.length = columns.length)
    (hnames : ∀ column ∈ columns, ShortText column.name) :
    ∃ fields, Encodes (.struct fields) (writeTableSchema columns encoders) := by
  have hcount : ((columns.zip encoders).zipIdx).length = columns.length := by
    rw [List.length_zipIdx, List.length_zip, hlen, Nat.min_self]
  obtain ⟨descs, hdescs⟩ := exists_list (hcount ▸ hcolumns)
    fun p (hp : p ∈ (columns.zip encoders).zipIdx) =>
      have hcolumn := (List.of_mem_zip (List.fst_mem_of_mem_zipIdx hp)).1
      have ⟨fields, h⟩ := encodes_columnDesc p.1.2 (.ofNat p.2) (hnames p.1.1 hcolumn)
      ⟨.struct fields, rfl, h⟩
  rw [hcount] at hdescs
  exact ⟨_, hdescs.field.struct⟩

theorem encodes_metadata {columns : List Column} {encoders : List ColumnEncoder} (status : Int32)
    (hcolumns : columns.length < 2 ^ 31) (hlen : encoders.length = columns.length)
    (hnames : ∀ column ∈ columns, ShortText column.name) :
    ∃ fields, Encodes (.struct fields)
      (writeResultSetMetadataResponseWithEncoders columns encoders status) := by
  obtain ⟨fields, hschema⟩ := encodes_tableSchema hcolumns hlen hnames
  exact ⟨_, ((((encodesFields_statusOnly.append hschema.field).append (encodes_i32 _).field).append
    (encodes_bool _).field).append (encodes_bool _).field).struct⟩

theorem length_columnEncoders {encoders : List ColumnEncoder}
    (h : columnEncoders F result = .ok encoders) : encoders.length = result.columns.length := by
  unfold columnEncoders at h
  split at h
  · cases h
  next hlen =>
    exact (Except.mapM_eq_ok.mp h).length_eq.symm.trans (not_not.mp hlen).symm

/-! ### The responses with a result -/

theorem isReply_metadata {seqid : Int32} (h : result.InLimits F) :
    IsReply (writeGetResultSetMetadataResponse F seqid result) "GetResultSetMetadata" seqid := by
  unfold writeGetResultSetMetadataResponse
  cases hresponse : writeResultSetMetadataResponse F result successStatus with
  | error err => exact ⟨_, readsMessage_noMetadata errorStatus (shortText_client err)⟩
  | ok response =>
    obtain ⟨encoders, hencoders, hresponse⟩ := Except.bind_eq_ok.mp hresponse
    obtain rfl := Except.ok.inj hresponse
    obtain ⟨fields, hschema⟩ := encodes_tableSchema h.columns (length_columnEncoders hencoders)
      h.names
    exact isReply (shortText_fixed _ (by simp [fixedTexts])) <|
      (((encodesFields_statusOnly.append hschema.field).append (encodes_i32 _).field).append
        (encodes_bool _).field).append (encodes_bool _).field

theorem isReply_fetchResults {seqid : Int32} {includeMetadata : Bool} {startRowOffset : Int64}
    {maxRows : Option Int64} (h : result.InLimits F) :
    IsReply (writeFetchResultsResponse F seqid result includeMetadata startRowOffset maxRows)
      "FetchResults" seqid := by
  unfold writeFetchResultsResponse
  cases hresponse : writeFetchResultsResponseStruct F result includeMetadata startRowOffset
      maxRows with
  | error err => exact ⟨_, readsMessage_noRows errorStatus (shortText_client err)⟩
  | ok response =>
    obtain ⟨encoders, hencoders, hresponse⟩ := Except.bind_eq_ok.mp hresponse
    obtain ⟨rowSet, hrowSet, hresponse⟩ := Except.bind_eq_ok.mp hresponse
    obtain rfl := Except.ok.inj hresponse
    have hlen := length_columnEncoders hencoders
    obtain ⟨rows, hrows⟩ := encodes_rowSet h.columns hlen (h.rowPage startRowOffset maxRows) hrowSet
    obtain ⟨metadata, hmetadata⟩ := encodes_metadata successStatus h.columns hlen h.names
    have hincluded : ∃ fields, EncodesFields fields (if includeMetadata then
        writeField tStruct 1281
          (writeResultSetMetadataResponseWithEncoders result.columns encoders successStatus)
        else []) := by
      split
      · exact ⟨_, hmetadata.field⟩
      · exact ⟨[], .nil⟩
    obtain ⟨included, hincluded⟩ := hincluded
    exact isReply (shortText_fixed _ (by simp [fixedTexts])) <|
      ((encodesFields_statusOnly.append (encodes_bool _).field).append hrows.field).append hincluded

end
end HarborSql
