import HarborSql.Verify.Thrift.Fields

/-! The decoder of the requests reads the records of their fields, so that it takes requests with
fields that it does not know, in another order, or more than once. -/

namespace HarborSql
namespace Reader

open Thrift

/-! ## What the requests recognise -/

/-- The shapes of some ids; the others are unknown. -/
def fieldsOf : List (Int16 × Shape) → Int16 → Shape
  | [], _ => .unknown
  | (i, shape) :: rest, id => if id = i then shape else fieldsOf rest id

def handleIdentifierFields : Int16 → Shape := fieldsOf [(1, .binary), (2, .binary)]

def handleFields : Int16 → Shape := fieldsOf [(1, .struct handleIdentifierFields)]

def namespaceFields : Int16 → Shape := fieldsOf [(1, .string), (2, .string)]

def openSessionFields : Int16 → Shape :=
  fieldsOf [(1281, .i32List), (1284, .struct namespaceFields)]

def handleReqFields : Int16 → Shape := fieldsOf [(1, .struct handleFields)]

def getInfoFields : Int16 → Shape := fieldsOf [(1, .struct handleFields), (2, .i32)]

def getColumnsFields : Int16 → Shape :=
  fieldsOf [(1, .struct handleFields), (2, .string), (3, .string), (4, .string), (5, .string)]

def executeStatementFields : Int16 → Shape := fieldsOf [(1, .struct handleFields), (2, .string)]

def fetchResultsFields : Int16 → Shape :=
  fieldsOf [(1, .struct handleFields), (3, .i64), (1282, .i64)]

/-- The fields of the request of a method. -/
def requestFields (name : String) : Option (Int16 → Shape) :=
  match name with
  | "OpenSession" => some openSessionFields
  | "GetInfo" => some getInfoFields
  | "GetColumns" => some getColumnsFields
  | "ExecuteStatement" => some executeStatementFields
  | "FetchResults" => some fetchResultsFields
  | "CloseSession" | "GetOperationStatus" | "GetQueryId" | "GetResultSetMetadata"
  | "CloseOperation" | "CancelOperation" => some handleReqFields
  | _ => none

/-! ## Records that are read -/

section
variable {σ : Type} {view : Record → σ} {record : Record}

/-- What a loop over the fields keeps of the record. -/
theorem reads_record (fields : Int16 → Shape) (view : Record → σ)
    (field : UInt8 → Int16 → σ → ReaderM σ)
    (h : ∀ ty id record, Reads (field ty.code id (view record)) fun bs =>
      (decodeRecordField fields ty id record bs).map fun (record, bs) => (view record, bs)) :
    Reads (readFields field (view .empty)) fun bs =>
      (decodeRecord fields .empty bs).map fun (record, bs) => (view record, bs) :=
  reads_readFields_view view h .empty

theorem reads_unknown (view : Record → σ) (record : Record) (ty : Ty) (id : Int16) :
    Reads (do skip ty.code; return view record) fun bs =>
      (decodeRecordField (fieldsOf []) ty id record bs).map fun (record, bs) => (view record, bs) := by
  have hnot : ¬ Recognised (fieldsOf []) id ty := nofun
  simp only [decodeRecordField, if_neg hnot, Option.map_map]
  exact (reads_skip ty).map fun _ => view record

/-- The branch of a loop for one of the fields. -/
theorem reads_fieldsOf {ty t : Ty} {id i : Int16} (shape : Shape) {rest : List (Int16 × Shape)}
    {m m' : ReaderM σ} (ht : shape.ty? = some t) (hrest : fieldsOf rest i = .unknown)
    (h : Reads m fun bs => (shape.decode bs).map fun (x, bs) =>
      (view (Function.update record i (some x)), bs))
    (h' : Reads m' fun bs =>
      (decodeRecordField (fieldsOf rest) ty id record bs).map fun (record, bs) => (view record, bs)) :
    Reads (if id = i ∧ ty.code = t.code then m else m') fun bs =>
      (decodeRecordField (fieldsOf ((i, shape) :: rest)) ty id record bs).map
        fun (record, bs) => (view record, bs) := by
  by_cases hid : id = i
  · subst hid
    have hshape : fieldsOf ((id, shape) :: rest) id = shape := if_pos rfl
    by_cases hty : ty = t
    · subst hty
      have hrec : Recognised (fieldsOf ((id, shape) :: rest)) id ty := by rw [Recognised, hshape, ht]
      rw [if_pos ⟨rfl, rfl⟩]
      simp only [decodeRecordField, if_pos hrec, hshape, Option.map_map]
      exact h
    · have hrec : ¬ Recognised (fieldsOf ((id, shape) :: rest)) id ty := by
        rw [Recognised, hshape, ht]
        exact fun h => hty (Option.some.inj h).symm
      have hrec' : ¬ Recognised (fieldsOf rest) id ty := by
        rw [Recognised, hrest]
        exact (Option.some_ne_none ty).symm
      rw [if_neg fun h => hty (Ty.code_inj.mp h.2)]
      simp only [decodeRecordField, if_neg hrec, if_neg hrec'] at h' ⊢
      exact h'
  · have hshape : fieldsOf ((i, shape) :: rest) id = fieldsOf rest id := if_neg hid
    rw [if_neg fun h => hid h.1]
    simp only [decodeRecordField, Recognised, hshape] at h' ⊢
    exact h'

theorem reads_value {α : Type} {m : ReaderM α} {shape : Shape} {decode : Bytes → Option (α × Bytes)}
    {wrap : α → Content} {i : Int16} {f : α → σ} (h : Reads m decode)
    (hshape : ∀ bs, shape.decode bs = (decode bs).map fun (x, bs) => (wrap x, bs))
    (hview : ∀ x, view (Function.update record i (some (wrap x))) = f x) :
    Reads (do return f (← m)) fun bs => (shape.decode bs).map fun (x, bs) =>
      (view (Function.update record i (some x)), bs) := by
  simp only [hshape, Option.map_map, Function.comp_def, hview]
  exact h.map f

theorem reads_struct {α : Type} {m : ReaderM α} {sub : Int16 → Shape} {proj : Record → α}
    {i : Int16} {f : α → σ}
    (h : Reads m fun bs => (decodeRecord sub .empty bs).map fun (record, bs) => (proj record, bs))
    (hview : ∀ x, view (Function.update record i (some (.struct x))) = f (proj x)) :
    Reads (do return f (← m)) fun bs => ((Shape.struct sub).decode bs).map fun (x, bs) =>
      (view (Function.update record i (some x)), bs) := by
  simp only [decode_struct, Option.map_map, Function.comp_def, hview]
  have hmap := h.map f
  simp only [Option.map_map, Function.comp_def] at hmap
  exact hmap

end

/-! ## The readers -/

def Content.string? : Content → Option String
  | string value => some value
  | _ => none

def Content.binary? : Content → Option Bytes
  | binary value => some value
  | _ => none

def Content.i32? : Content → Option Int32
  | i32 value => some value
  | _ => none

def Content.i64? : Content → Option Int64
  | i64 value => some value
  | _ => none

def Content.i32List? : Content → Option (List Int32)
  | i32List values => some values
  | _ => none

def Content.struct? : Content → Option Record
  | struct fields => some fields
  | _ => none

def namespaceView (record : Record) : Option String × Option String :=
  ((record 1).bind Content.string?, (record 2).bind Content.string?)

theorem reads_readNamespace_record : Reads readNamespace fun bs =>
    (decodeRecord namespaceFields .empty bs).map fun (record, bs) => (namespaceView record, bs) := by
  apply reads_record _ namespaceView
  intro ty id record
  apply reads_fieldsOf .string rfl rfl
  · exact reads_value reads_readString (fun _ => rfl) fun _ => rfl
  · apply reads_fieldsOf .string rfl rfl
    · exact reads_value reads_readString (fun _ => rfl) fun _ => rfl
    · exact reads_unknown namespaceView record ty id

/-- The parts of an identifier, each read again where it comes again. -/
def identifierView (record : Record) : Option String × Option Bytes :=
  ((record 1).bind fun x => x.binary?.bind fun bytes =>
      if h : bytes.length = 16 then some (Uuid.mk bytes h).toString else none,
    (record 2).bind fun x => x.binary?.bind fun bytes =>
      if bytes.length = 16 then some bytes else none)

def handleOf : Option String × Option Bytes → Option Handle
  | (some id, some secret) => some { id, secret }
  | _ => none

/-- The loop of `read_handle_identifier`. -/
def handleIdentifierPart (fieldType : UInt8) (fieldId : Int16) :
    Option String × Option Bytes → ReaderM (Option String × Option Bytes)
  | (guid, secret) =>
    if fieldId = 1 ∧ fieldType = tString then do
      let bytes ← readBinary
      return (if h : bytes.length = 16 then some (Uuid.mk bytes h).toString else none, secret)
    else if fieldId = 2 ∧ fieldType = tString then do
      let bytes ← readBinary
      return (guid, if bytes.length = 16 then some bytes else none)
    else do
      skip fieldType
      return (guid, secret)

/-- What `read_handle_identifier` returns after its loop. -/
def handleOfParts : Option String × Option Bytes → ReaderM (Option Handle)
  | (guid, secret) => return match guid, secret with
    | some id, some secret => some { id, secret }
    | _, _ => none

theorem reads_readHandleIdentifier : Reads readHandleIdentifier fun bs =>
    (decodeRecord handleIdentifierFields .empty bs).map fun (record, bs) =>
      (handleOf (identifierView record), bs) := by
  have hparts := reads_record handleIdentifierFields identifierView handleIdentifierPart ?_
  · have hhandle (parts : Option String × Option Bytes) :
        Reads (handleOfParts parts) fun bs => some (handleOf parts, bs) := by
      obtain ⟨_ | id, _ | secret⟩ := parts <;> exact reads_pure _
    simp only [Option.map_eq_bind]
    exact hparts.bind_map (d := fun record bs => some (handleOf (identifierView record), bs))
      fun record => hhandle (identifierView record)
  · intro ty id record
    apply reads_fieldsOf .binary rfl rfl
    · exact reads_value reads_readBinary (fun _ => rfl) fun _ => rfl
    · apply reads_fieldsOf .binary rfl rfl
      · exact reads_value reads_readBinary (fun _ => rfl) fun _ => rfl
      · exact reads_unknown identifierView record ty id

/-- The field 1 of a struct with nothing else to read. -/
def firstView {α : Type} (view : Record → Option α) (record : Record) : Option α :=
  (record 1).bind fun x => x.struct?.bind view

theorem reads_readFirstField {α : Type} {sub : Int16 → Shape} {read : ReaderM (Option α)}
    {view : Record → Option α}
    (h : Reads read fun bs =>
      (decodeRecord sub .empty bs).map fun (record, bs) => (view record, bs)) :
    Reads (readFirstField read) fun bs =>
      (decodeRecord (fieldsOf [(1, .struct sub)]) .empty bs).map fun (record, bs) =>
        (firstView view record, bs) := by
  apply reads_record _ (firstView view)
  intro ty id record
  apply reads_fieldsOf (.struct sub) rfl rfl
  · simp only [decode_struct, Option.map_map]
    exact h
  · exact reads_unknown (firstView view) record ty id

def handleView : Record → Option Handle :=
  firstView fun record => handleOf (identifierView record)

theorem reads_readSessionHandle : Reads readSessionHandle fun bs =>
    (decodeRecord handleFields .empty bs).map fun (record, bs) => (handleView record, bs) :=
  reads_readFirstField reads_readHandleIdentifier

theorem reads_readOperationHandle : Reads readOperationHandle fun bs =>
    (decodeRecord handleFields .empty bs).map fun (record, bs) => (handleView record, bs) :=
  reads_readFirstField reads_readHandleIdentifier

theorem reads_readCloseSessionReq : Reads readCloseSessionReq fun bs =>
    (decodeRecord handleReqFields .empty bs).map fun (record, bs) =>
      (firstView handleView record, bs) :=
  reads_readFirstField reads_readSessionHandle

theorem reads_readOperationReq : Reads readOperationReq fun bs =>
    (decodeRecord handleReqFields .empty bs).map fun (record, bs) =>
      (firstView handleView record, bs) :=
  reads_readFirstField reads_readOperationHandle

def openSessionView (record : Record) : OpenSessionReq where
  catalog := (record 1284).bind fun x => x.struct?.bind fun record => (namespaceView record).1
  schema := (record 1284).bind fun x => x.struct?.bind fun record => (namespaceView record).2
  getInfoTypes := ((record 1281).bind Content.i32List?).getD []

theorem reads_readI32List : Reads readI32List decodeI32List := by
  have hlist (elementType : UInt8) (len : Int32) : Reads
      (if len < 0 then thriftError "negative i32 list size"
        else if elementType ≠ tI32 then do
          useSize len.toInt.toNat
          times (skip elementType) len.toInt.toNat
          return []
        else do
          useSize len.toInt.toNat
          collect readI32 len.toInt.toNat)
      fun bs => if 0 ≤ len.toInt then decodeGetInfoElements elementType len.toInt.toNat bs
        else none := by
    by_cases h : len < 0
    · simp only [if_pos h, if_neg ((lt_zero_iff len).mp h)]
      exact reads_error _
    · simp only [if_neg h, if_pos (not_not.mp (mt (lt_zero_iff len).mpr h))]
      have helements := reads_readGetInfoElements elementType len.toInt.toNat
      unfold readGetInfoElements at helements
      by_cases htype : elementType ≠ tI32
      · simp only [if_pos htype] at helements ⊢
        exact (reads_useSize _).bind fun _ => helements
      · simp only [if_neg htype] at helements ⊢
        exact (reads_useSize _).bind fun _ => helements
  have hdecode : decodeI32List = fun bs => (decodeU8 bs).bind fun elementType =>
      (decodeI32 elementType.2).bind fun len =>
        if 0 ≤ len.1.toInt then decodeGetInfoElements elementType.1 len.1.toInt.toNat len.2
        else none := by
    funext bs
    simp only [decodeI32List, decodeSize, Option.bind_eq_bind, Option.bind_assoc]
    congr 1
    funext p
    obtain ⟨elementType, bs⟩ := p
    congr 1
    funext p
    obtain ⟨len, bs⟩ := p
    by_cases h : 0 ≤ len.toInt <;> simp [h]
  rw [hdecode]
  exact reads_readU8.bind fun elementType => reads_readI32.bind (hlist elementType)

theorem reads_readOpenSessionReq : Reads readOpenSessionReq fun bs =>
    (decodeRecord openSessionFields .empty bs).map fun (record, bs) =>
      (openSessionView record, bs) := by
  apply reads_record _ openSessionView
  intro ty id record
  apply reads_fieldsOf .i32List rfl rfl
  · exact reads_value reads_readI32List (fun _ => rfl) fun _ => rfl
  · apply reads_fieldsOf (.struct namespaceFields) rfl rfl
    · exact reads_struct reads_readNamespace_record fun _ => rfl
    · exact reads_unknown openSessionView record ty id

def getInfoView (record : Record) : Option Handle × Option Int32 :=
  (firstView handleView record, (record 2).bind Content.i32?)

def getColumnsView (record : Record) : GetColumnsReq where
  sessionHandle := firstView handleView record
  names := ⟨(record 2).bind Content.string?, (record 3).bind Content.string?,
    (record 4).bind Content.string?, (record 5).bind Content.string?⟩

theorem reads_readGetColumnsReq : Reads readGetColumnsReq fun bs =>
    (decodeRecord getColumnsFields .empty bs).map fun (record, bs) =>
      (getColumnsView record, bs) := by
  apply reads_record _ getColumnsView
  intro ty id record
  apply reads_fieldsOf (.struct handleFields) rfl rfl
  · exact reads_struct reads_readSessionHandle fun _ => rfl
  · apply reads_fieldsOf .string rfl rfl
    · exact reads_value reads_readString (fun _ => rfl) fun _ => rfl
    · apply reads_fieldsOf .string rfl rfl
      · exact reads_value reads_readString (fun _ => rfl) fun _ => rfl
      · apply reads_fieldsOf .string rfl rfl
        · exact reads_value reads_readString (fun _ => rfl) fun _ => rfl
        · apply reads_fieldsOf .string rfl rfl
          · exact reads_value reads_readString (fun _ => rfl) fun _ => rfl
          · exact reads_unknown getColumnsView record ty id

def getInfoReqView (record : Record) : GetInfoReq where
  sessionHandle := (getInfoView record).1
  infoType := (getInfoView record).2.getD cliDbmsName

/-- The loop of `read_get_info_req`. -/
def getInfoPart (fieldType : UInt8) (fieldId : Int16) :
    Option Handle × Option Int32 → ReaderM (Option Handle × Option Int32)
  | (sessionHandle, infoType) =>
    if fieldId = 1 ∧ fieldType = tStruct then do return (← readSessionHandle, infoType)
    else if fieldId = 2 ∧ fieldType = tI32 then do return (sessionHandle, some (← readI32))
    else do
      skip fieldType
      return (sessionHandle, infoType)

theorem reads_readGetInfoReq : Reads readGetInfoReq fun bs =>
    (decodeRecord getInfoFields .empty bs).map fun (record, bs) => (getInfoReqView record, bs) := by
  have hparts := reads_record getInfoFields getInfoView getInfoPart ?_
  · have hmap := hparts.map fun parts => GetInfoReq.mk parts.1 (parts.2.getD cliDbmsName)
    simp only [Option.map_map, Function.comp_def] at hmap
    exact hmap
  · intro ty id record
    apply reads_fieldsOf (.struct handleFields) rfl rfl
    · exact reads_struct reads_readSessionHandle fun _ => rfl
    · apply reads_fieldsOf .i32 rfl rfl
      · exact reads_value reads_readI32 (fun _ => rfl) fun _ => rfl
      · exact reads_unknown getInfoView record ty id

def fetchResultsView (record : Record) : FetchResultsReq where
  operationHandle := firstView handleView record
  startRowOffset := (record 1282).bind Content.i64?
  maxRows := (record 3).bind Content.i64?

theorem reads_readFetchResultsReq : Reads readFetchResultsReq fun bs =>
    (decodeRecord fetchResultsFields .empty bs).map fun (record, bs) =>
      (fetchResultsView record, bs) := by
  apply reads_record _ fetchResultsView
  intro ty id record
  apply reads_fieldsOf (.struct handleFields) rfl rfl
  · exact reads_struct reads_readOperationHandle fun _ => rfl
  · apply reads_fieldsOf .i64 rfl rfl
    · exact reads_value reads_readI64 (fun _ => rfl) fun _ => rfl
    · apply reads_fieldsOf .i64 rfl rfl
      · exact reads_value reads_readI64 (fun _ => rfl) fun _ => rfl
      · exact reads_unknown fetchResultsView record ty id

def executeStatementView (record : Record) : Option Handle × Option String :=
  (firstView handleView record, (record 2).bind Content.string?)

/-- The request, which has to have a statement. -/
def executeStatementReqView (record : Record) : Option ExecuteStatementReq :=
  (executeStatementView record).2.map fun statement =>
    { sessionHandle := (executeStatementView record).1, statement }

/-- The loop of `read_execute_statement_req`. -/
def executeStatementPart (fieldType : UInt8) (fieldId : Int16) :
    Option Handle × Option String → ReaderM (Option Handle × Option String)
  | (sessionHandle, statement) =>
    if fieldId = 1 ∧ fieldType = tStruct then do return (← readSessionHandle, statement)
    else if fieldId = 2 ∧ fieldType = tString then do return (sessionHandle, some (← readString))
    else do
      skip fieldType
      return (sessionHandle, statement)

/-- What `read_execute_statement_req` returns after its loop. -/
def executeStatementOfParts : Option Handle × Option String → ReaderM ExecuteStatementReq
  | (sessionHandle, statement) => match statement with
    | some statement => return { sessionHandle, statement }
    | none => thriftError "ExecuteStatement missing SQL"

theorem reads_readExecuteStatementReq : Reads readExecuteStatementReq fun bs =>
    (decodeRecord executeStatementFields .empty bs).bind fun (record, bs) =>
      (executeStatementReqView record).map fun request => (request, bs) := by
  have hparts := reads_record executeStatementFields executeStatementView executeStatementPart ?_
  · have hrequest (parts : Option Handle × Option String) : Reads (executeStatementOfParts parts)
        fun bs => (parts.2.map (ExecuteStatementReq.mk parts.1)).map fun request => (request, bs) := by
      cases parts with
      | mk sessionHandle statement =>
        cases statement with
        | some statement => exact reads_pure (ExecuteStatementReq.mk sessionHandle statement)
        | none => exact reads_error _
    exact hparts.bind_map (d := fun record bs =>
      (executeStatementReqView record).map fun request => (request, bs))
      fun record => hrequest (executeStatementView record)
  · intro ty id record
    apply reads_fieldsOf (.struct handleFields) rfl rfl
    · exact reads_struct reads_readSessionHandle fun _ => rfl
    · apply reads_fieldsOf .string rfl rfl
      · exact reads_value reads_readString (fun _ => rfl) fun _ => rfl
      · exact reads_unknown executeStatementView record ty id

/-! ## Arguments -/

section
variable {α : Type} {parseReq : ReaderM α} {decodeReq : Bytes → Option (α × Bytes)}

/-- The fields behind the request. -/
def decodeTrailing (bs : Bytes) : Option (Unit × Bytes) :=
  skipping (decodeFields (Thrift.Value.decodeWithin maxContainerElements maxSkipDepth) bs.length) bs

/-- The arguments of a call: the fields up to the request, it, and those behind it. -/
def decodeArgs (decodeReq : Bytes → Option (α × Bytes)) : Nat → Bytes → Option (α × Bytes)
  | 0, _ => none
  | n + 1, bs =>
    (decodeFieldBegin bs).bind fun (begin?, bs) =>
      match begin? with
      | none => none
      | some (ty, id) =>
        if id = 1 ∧ ty = .struct then
          (decodeReq bs).bind fun (request, bs) =>
            (decodeTrailing bs).map fun (_, bs) => (request, bs)
        else (decodeSkipped ty bs).bind fun (_, bs) => decodeArgs decodeReq n bs

theorem ends_argsLoop (h : Reads parseReq decodeReq) {r : Reader} (hr : r.WF) {n : Nat}
    (hn : r.remaining.length ≤ n) :
    Ends (argsLoop parseReq (n + 1)) r (decodeArgs decodeReq n r.remaining) := by
  induction n generalizing r with
  | zero =>
    have hnil : r.remaining = [] := List.length_eq_zero_iff.mp (Nat.le_zero.mp hn)
    have hbegin := reads_readFieldBegin r hr
    rw [hnil] at hbegin
    cases hbegin with | error hm hahead => exact .error (run_bind_error hm) hahead
  | succ n ih =>
    rw [decodeArgs, argsLoop]
    refine (reads_readFieldBegin r hr).bind_map (d := fun begin? bs =>
      match begin? with
      | none => none
      | some (ty, id) =>
        if id = 1 ∧ ty = .struct then
          (decodeReq bs).bind fun (request, bs) =>
            (decodeTrailing bs).map fun (_, bs) => (request, bs)
        else (decodeSkipped ty bs).bind fun (_, bs) => decodeArgs decodeReq n bs)
      fun begin? r' hahead hbegin => ?_
    cases begin? with
    | none => exact reads_error _ r' hahead.wf
    | some begin? =>
      obtain ⟨ty, id⟩ := begin?
      have hlen := congrArg List.length (decodeFieldBegin_eq_some.mp hbegin)
      rw [List.length_cons, List.length_append] at hlen
      have hstop : ¬ ty.code = tStop := ty.code_ne_stop
      change Ends (if ty.code = tStop then _ else if id = 1 ∧ ty.code = tStruct then _ else _) r'
        (if id = 1 ∧ ty = .struct then _ else _)
      rw [if_neg hstop]
      simp only [code_eq_tStruct]
      by_cases hreq : id = 1 ∧ ty = .struct
      · rw [if_pos hreq, if_pos hreq]
        exact (h.bind fun request => reads_skipRemainingStructFields.map fun _ => request) r'
          hahead.wf
      · rw [if_neg hreq, if_neg hreq]
        refine (reads_skip ty r' hahead.wf).bind fun _ r'' _ hahead' _ => ih hahead'.wf ?_
        have := hahead'.length_le
        omega

theorem reads_readArgs (h : Reads parseReq decodeReq) :
    Reads (readArgs parseReq) fun bs => decodeArgs decodeReq bs.length bs := by
  intro r hr
  have hfuel : (readArgs parseReq).run r =
      (argsLoop parseReq (r.remaining.length + 1)).run r := by
    rw [length_remaining]
    rfl
  exact (ends_argsLoop h hr (Nat.le_refl _)).map_run hr.ahead hfuel

/-- The fuel for the arguments does not matter, as long as it lasts. -/
theorem decodeArgs_congr {n m : Nat} {bs : Bytes} (hn : bs.length ≤ n) (hm : bs.length ≤ m) :
    decodeArgs decodeReq n bs = decodeArgs decodeReq m bs := by
  have hnil (k : Nat) : decodeArgs decodeReq k [] = none := by cases k <;> rfl
  induction n generalizing m bs with
  | zero =>
    obtain rfl := List.length_eq_zero_iff.mp (Nat.le_zero.mp hn)
    rw [hnil, hnil]
  | succ n ih =>
    cases m with
    | zero =>
      obtain rfl := List.length_eq_zero_iff.mp (Nat.le_zero.mp hm)
      rw [hnil, hnil]
    | succ m =>
      rw [decodeArgs, decodeArgs]
      refine Option.bind_congr fun ⟨begin?, bs'⟩ hbegin => ?_
      cases begin? with
      | none => rfl
      | some begin? =>
        obtain ⟨ty, id⟩ := begin?
        have hlen := congrArg List.length (decodeFieldBegin_eq_some.mp hbegin)
        rw [List.length_cons, List.length_append] at hlen
        change (if id = 1 ∧ ty = .struct then _ else _) = if id = 1 ∧ ty = .struct then _ else _
        congr 1
        refine Option.bind_congr fun ⟨_, bs''⟩ hskip => ?_
        have hle := (framed_decodeSkipped ty).length_le hskip
        exact ih (by omega) (by omega)

theorem decodeArgs_req (bs : Bytes) :
    decodeArgs decodeReq (tStruct :: (encodeI16 1 ++ bs)).length (tStruct :: (encodeI16 1 ++ bs)) =
      (decodeReq bs).bind fun (request, bs) =>
        (decodeTrailing bs).map fun (_, bs) => (request, bs) := by
  have hbegin : decodeFieldBegin (tStruct :: (encodeI16 1 ++ bs)) = some (some (.struct, 1), bs) :=
    decodeFieldBegin_eq_some.mpr rfl
  rw [List.length_cons, decodeArgs, hbegin]
  rfl

theorem decodeArgs_skip {id : Int16} {v : Thrift.Value} (h : ¬ (id = 1 ∧ v.ty = .struct))
    (hv : Skippable v) (rest : Bytes) :
    decodeArgs decodeReq ((RawField.ofValue id v).encode ++ rest).length
        ((RawField.ofValue id v).encode ++ rest) =
      decodeArgs decodeReq rest.length rest := by
  have hbytes : (RawField.ofValue id v).encode ++ rest =
      v.ty.code :: (encodeI16 id ++ (v.encode ++ rest)) := by
    rw [← List.append_assoc]
    rfl
  rw [hbytes, List.length_cons, decodeArgs, decodeFieldBegin_eq_some.mpr rfl, Option.bind_some]
  dsimp only
  rw [if_neg h, decodeSkipped_eq_some.mpr ⟨v, hv, rfl, rfl⟩, Option.bind_some]
  refine decodeArgs_congr ?_ (Nat.le_refl _)
  simp only [List.length_append]
  omega

end

/-- The edits of the arguments of a call up to its request, and of the request. -/
inductive ArgsEdit (fields : Int16 → Shape) : Bytes → Bytes → Prop
  /-- A field that is not the request is inserted in front of it. -/
  | insert {id : Int16} {v : Thrift.Value} {rest : Bytes} : ¬ (id = 1 ∧ v.ty = .struct) →
    Skippable v → ArgsEdit fields rest ((RawField.ofValue id v).encode ++ rest)
  /-- An edit behind such a field. -/
  | behind {id : Int16} {v : Thrift.Value} {rest rest' : Bytes} : ¬ (id = 1 ∧ v.ty = .struct) →
    Skippable v → ArgsEdit fields rest rest' →
    ArgsEdit fields ((RawField.ofValue id v).encode ++ rest) ((RawField.ofValue id v).encode ++ rest')
  /-- An edit of the request. -/
  | req {rest rest' : Bytes} : Edit fields rest rest' →
    ArgsEdit fields (tStruct :: (encodeI16 1 ++ rest)) (tStruct :: (encodeI16 1 ++ rest'))

theorem ArgsEdit.decodeArgs_eq {α : Type} {decodeReq : Bytes → Option (α × Bytes)}
    {fields : Int16 → Shape} (hreq : ∀ bs bs', Edit fields bs bs' → decodeReq bs = decodeReq bs')
    {bs bs' : Bytes} (h : ArgsEdit fields bs bs') :
    decodeArgs decodeReq bs.length bs = decodeArgs decodeReq bs'.length bs' := by
  induction h with
  | insert hne hv => exact (decodeArgs_skip hne hv _).symm
  | behind hne hv _ ih => rw [decodeArgs_skip hne hv, decodeArgs_skip hne hv, ih]
  | req hedit => rw [decodeArgs_req, decodeArgs_req, hreq _ _ hedit]

/-! ## Calls -/

/-- A call whose arguments are decoded to what every edit keeps. -/
def Compatible (fields : Int16 → Shape) (read : ReaderM RpcCall) : Prop :=
  ∃ decode : Bytes → Option (RpcCall × Bytes), Reads read decode ∧
    ∀ bs bs', ArgsEdit fields bs bs' → decode bs = decode bs'

theorem compatible_readArgs {α : Type} {fields : Int16 → Shape} {parseReq : ReaderM α}
    {finish : Record → Option α}
    (h : Reads parseReq fun bs => (decodeRecord fields .empty bs).bind fun (record, bs) =>
      (finish record).map fun request => (request, bs)) (f : α → RpcCall) :
    Compatible fields do return f (← readArgs parseReq) := by
  refine ⟨_, (reads_readArgs h).map f, fun bs bs' hedit => ?_⟩
  dsimp only
  rw [hedit.decodeArgs_eq fun bs bs' hreq => ?_]
  rw [hreq.decodeRecord_eq]

theorem compatible_view {α : Type} {fields : Int16 → Shape} {parseReq : ReaderM α}
    {view : Record → α}
    (h : Reads parseReq fun bs =>
      (decodeRecord fields .empty bs).map fun (record, bs) => (view record, bs))
    (f : α → RpcCall) : Compatible fields do return f (← readArgs parseReq) := by
  refine @compatible_readArgs α fields parseReq (fun record => some (view record)) ?_ f
  simp only [Option.map_some]
  simp only [Option.map_eq_bind] at h
  exact h

theorem compatible_readCall {name : String} {fields : Int16 → Shape} {read : ReaderM RpcCall}
    (hfields : requestFields name = some fields) (hread : readCall name = some read) :
    Compatible fields read := by
  unfold requestFields at hfields
  split at hfields
  · cases hfields
    cases hread
    exact compatible_view reads_readOpenSessionReq fun request =>
      .openSession request.catalog request.schema request.getInfoTypes
  · cases hfields
    cases hread
    exact compatible_view reads_readGetInfoReq fun request =>
      .session (.getInfo request.infoType) request.sessionHandle
  · cases hfields
    cases hread
    exact compatible_view reads_readGetColumnsReq fun request =>
      .session (.getColumns request.names) request.sessionHandle
  · cases hfields
    cases hread
    exact compatible_readArgs reads_readExecuteStatementReq fun request =>
      .session (.executeStatement request.statement) request.sessionHandle
  · cases hfields
    cases hread
    exact compatible_view reads_readFetchResultsReq fun request =>
      .operation (.fetchResults request.startRowOffset request.maxRows) request.operationHandle
  · cases hfields
    cases hread
    exact compatible_view reads_readCloseSessionReq .closeSession
  · cases hfields
    cases hread
    exact compatible_view reads_readOperationReq (.operation .getOperationStatus)
  · cases hfields
    cases hread
    exact compatible_view reads_readOperationReq (.operation .getQueryId)
  · cases hfields
    cases hread
    exact compatible_view reads_readOperationReq (.operation .getResultSetMetadata)
  · cases hfields
    cases hread
    exact compatible_view reads_readOperationReq .closeOperation
  · cases hfields
    cases hread
    exact compatible_view reads_readOperationReq .cancelOperation
  · cases hfields

theorem exists_readCall {name : String} {fields : Int16 → Shape}
    (h : requestFields name = some fields) :
    ∃ read, readCall name = some read ∧ (utf8 name).length < 2 ^ 31 := by
  unfold requestFields at h
  split at h
  case h_12 => cases h
  all_goals exact ⟨_, rfl, by decide +kernel⟩

theorem Ends.ok_iff {α : Type} {m : ReaderM α} {r : Reader} {result : Option (α × Bytes)}
    (h : Ends m r result) (x : α) : (m.run r).1 = .ok x ↔ ∃ rest, result = some (x, rest) := by
  cases h with
  | ok hm _ =>
    rw [hm]
    constructor
    · rintro ⟨⟩
      exact ⟨_, rfl⟩
    · rintro ⟨rest, ⟨⟩⟩
      rfl
  | error hm _ =>
    rw [hm]
    exact ⟨nofun, nofun⟩

end Reader

open Reader Writer
open Thrift (encodeI16)

/-! ## Requests -/

/-- The body of the message of a request. -/
def requestBody (version : UInt32) (name : String) (seqid : Int32) (payload : Bytes) : Bytes :=
  writeI32 version.toInt32 ++ (writeString name ++ (writeI32 seqid ++ payload))

theorem decodeRequest_ok_iff (bearerToken : String) {version : UInt32} {name : String}
    {seqid : Int32} {payload : Bytes} (hlen : (requestBody version name seqid payload).length < 2 ^ 63)
    (hname : (utf8 name).length < 2 ^ 31) {read : ReaderM RpcCall}
    (hread : readCall name = some read) {decode : Bytes → Option (RpcCall × Bytes)}
    (hdecode : Reads read decode) (request : RpcRequest) :
    ((decodeRequest bearerToken).run (.new (requestBody version name seqid payload))).1 =
        .ok request ↔
      version &&& 0xffff0000 = tBinaryVersion1 ∧ ∃ call,
        (if (version &&& 0x000000ff).toUInt8 ≠ tMessageCall then call = .notACall name
          else ∃ rest, decode payload = some (call, rest)) ∧
        request = { bearerToken, seqid, call } := by
  have hmessage := reads_decodeMessage _ (show (Reader.new _).WF from ⟨Nat.zero_le _, hlen⟩)
  change Ends _ _ (decodeMessageBytes (requestBody version name seqid payload)) at hmessage
  by_cases hversion : version &&& 0xffff0000 = tBinaryVersion1
  · have hbytes := @decodeMessageBytes_write version name seqid payload hversion hname
    rw [requestBody, hbytes] at hmessage
    obtain ⟨r, hm, hahead, -⟩ := hmessage.of_some
    rw [requestBody, decodeRequest, run_bind_ok hm, decodeCall]
    dsimp only
    by_cases htype : (version &&& 0x000000ff).toUInt8 ≠ tMessageCall
    · simp only [if_pos htype, hversion, true_and, exists_eq_left]
      exact ⟨fun h => (Except.ok.inj h).symm, fun h => congrArg Except.ok h.symm⟩
    · have hwf : Reader.WF { r with buffer := payload, position := 0 } := by
        refine ⟨Nat.zero_le _, ?_⟩
        simp only [requestBody, List.length_append] at hlen
        dsimp only
        omega
      have hends := hdecode _ hwf
      change Ends _ _ (decode payload) at hends
      have hrun := run_bind_ok (f := fun _ => read)
        (run_modify (fun reader => { reader with buffer := payload, position := 0 }) (r := r))
      simp only [if_neg htype, hread, hversion, true_and]
      generalize decode payload = result at hends ⊢
      cases hends with
      | @ok call r' hm' _ =>
        rw [run_bind_ok (hrun.trans hm'), run_pure]
        constructor
        · rintro ⟨⟩
          exact ⟨call, ⟨_, rfl⟩, rfl⟩
        · rintro ⟨_, ⟨_, ⟨⟩⟩, rfl⟩
          rfl
      | error hm' _ =>
        rw [run_bind_error (hrun.trans hm')]
        simp
  · have hdecode : decodeMessageBytes (requestBody version name seqid payload) = none := by
      have hi32 : Thrift.decodeI32 (requestBody version name seqid payload) =
        some (version.toInt32, _) := Thrift.decodeI32_eq_some.mpr rfl
      rw [decodeMessageBytes, hi32, Option.bind_some]
      exact if_pos (by simpa using hversion)
    rw [hdecode] at hmessage
    cases hmessage with
    | error hm _ =>
      rw [requestBody, decodeRequest, run_bind_error hm]
      simp [hversion]

/-- An edit of the arguments up to the request, of the request, or of a struct within it, keeps the
request that is decoded: fields that are not known are skipped, neighbours with different ids are
in any order, and of a field that comes again the last one counts. -/
theorem decodeRequest_edit (bearerToken : String) {version : UInt32} {name : String}
    {seqid : Int32} {fields : Int16 → Shape} (hname : requestFields name = some fields)
    {payload payload' : Bytes} (hedit : ArgsEdit fields payload payload')
    (hlen : (requestBody version name seqid payload).length < 2 ^ 63)
    (hlen' : (requestBody version name seqid payload').length < 2 ^ 63) (request : RpcRequest) :
    ((decodeRequest bearerToken).run (.new (requestBody version name seqid payload))).1 =
        .ok request ↔
      ((decodeRequest bearerToken).run (.new (requestBody version name seqid payload'))).1 =
        .ok request := by
  obtain ⟨read, hread, hname'⟩ := exists_readCall hname
  obtain ⟨decode, hdecode, heq⟩ := compatible_readCall hname hread
  rw [decodeRequest_ok_iff bearerToken hlen hname' hread hdecode,
    decodeRequest_ok_iff bearerToken hlen' hname' hread hdecode, heq _ _ hedit]

/-- The arguments of `CloseSession`, up to the fields of the identifier of the handle. -/
def identifierPayload (identifier : Bytes) : Bytes :=
  tStruct :: (encodeI16 1 ++ tStruct :: (encodeI16 1 ++ tStruct :: (encodeI16 1 ++ identifier)))

/-- A field of an identifier that no reader knows: the list of 7 and 8 under the id 9. -/
def unknownField : RawField := .ofValue 9 (.list .i32 [.i32 7, .i32 8])

/-- The request of a `CloseSession` whose handle names no session. -/
def closeSessionRequest : RpcRequest := ⟨"token", 1, .closeSession none⟩

theorem decodeRequest_edit_unknownField :
    ((decodeRequest "token").run (.new (requestBody 0x80010001 "CloseSession" 1
        (identifierPayload [0, 0, 0, 0])))).1 = .ok closeSessionRequest ↔
      ((decodeRequest "token").run (.new (requestBody 0x80010001 "CloseSession" 1
        (identifierPayload (unknownField.encode ++ [0, 0, 0, 0]))))).1 =
          .ok closeSessionRequest := by
  have hskip : Skippable (.list .i32 [.i32 7, .i32 8]) := by
    refine ⟨.list (by decide) ?_ ?_, .list (by decide) ?_, by decide⟩
    · simp [Thrift.Value.ty]
    · simp [Thrift.Value.WF.i32]
    · simp [Thrift.Value.SizesWithin.i32]
  have hedit : Edit handleIdentifierFields [0, 0, 0, 0] (unknownField.encode ++ [0, 0, 0, 0]) :=
    .insert (Option.some_ne_none _).symm hskip
  exact decodeRequest_edit "token" rfl (.req (.inside rfl (.inside rfl hedit))) (by decide +kernel)
    (by decide +kernel) closeSessionRequest

end HarborSql
