import HarborSql.Verify.Thrift.Basic
import HarborSql.Verify.Thrift.Compatibility

/-! The handles that the service hands out are read back, from any request, as the key of their
entry and its secret. -/

namespace HarborSql
namespace Reader

open Thrift Writer

/-! ## The fields of a record -/

section
variable {fields : Int16 → Shape}

/-- Fields change the record only where they are recognised, and keep what they read there. -/
theorem decodeRecord_fields {fs : List RawField} (hfs : ∀ f ∈ fs, TakesField fields f)
    (record : Record) : ∃ record' : Record,
      (∀ rest, decodeRecord fields record (fs.flatMap (·.encode) ++ rest) =
        decodeRecord fields record' rest) ∧
      (∀ id, (∀ f ∈ fs, f.id = id → ¬ Recognised fields id f.ty) → record' id = record id) ∧
      (∀ id, (record id).isSome ∨ (∃ f ∈ fs, f.id = id ∧ Recognised fields id f.ty) →
        (record' id).isSome) ∧
      ∀ id x, record' id = some x →
        record id = some x ∨ ∃ bs rest, (fields id).decode bs = some (x, rest) := by
  induction fs generalizing record with
  | nil =>
    refine ⟨record, fun rest => rfl, fun id _ => rfl, fun id h => ?_, fun id x h => .inl h⟩
    refine h.resolve_right ?_
    rintro ⟨f, hf, -⟩
    exact absurd hf List.not_mem_nil
  | cons f fs ih =>
    obtain ⟨hf, hfs⟩ := List.forall_mem_cons.mp hfs
    by_cases hrec : Recognised fields f.id f.ty
    · have htakes : (fields f.id).Takes f.bytes := by rwa [TakesField, if_pos hrec] at hf
      obtain ⟨x, hx⟩ := (exists_decode _ _ []).mpr ⟨_, htakes, (List.append_nil _).symm⟩
      obtain ⟨front, hfront, hdecode⟩ := framed_decode _ _ _ _ hx
      obtain rfl := hfront.trans (List.append_nil _)
      obtain ⟨record', hrest, hkeep, hsome, hread⟩ := ih hfs (Function.update record f.id (some x))
      refine ⟨record', fun rest => ?_, fun id h => ?_, fun id h => ?_, fun id y h => ?_⟩
      · rw [List.flatMap_cons, List.append_assoc, RawField.encode, List.cons_append,
          List.append_assoc, decodeRecord_field, decodeRecordField, if_pos hrec, hdecode]
        exact hrest rest
      · have hne : id ≠ f.id := by
          rintro rfl
          exact h f List.mem_cons_self rfl hrec
        rw [hkeep id fun g hg => h g (List.mem_cons_of_mem f hg), Function.update_of_ne hne]
      · apply hsome id
        by_cases hid : id = f.id
        · subst hid
          exact .inl (by rw [Function.update_self]; rfl)
        · rw [Function.update_of_ne hid]
          refine h.imp_right ?_
          rintro ⟨g, hg, hgid, hgrec⟩
          refine ⟨g, ?_, hgid, hgrec⟩
          exact (List.mem_cons.mp hg).resolve_left fun heq => hid (heq ▸ hgid).symm
      · refine (hread id y h).elim (fun hy => ?_) .inr
        by_cases hid : id = f.id
        · subst hid
          rw [Function.update_self] at hy
          exact .inr ⟨_, [], Option.some.inj hy ▸ hx⟩
        · rw [Function.update_of_ne hid] at hy
          exact .inl hy
    · have hskipped : ∃ v, Skippable v ∧ f = .ofValue f.id v := by
        rwa [TakesField, if_neg hrec] at hf
      obtain ⟨v, hv, hfv⟩ := hskipped
      have hne : ¬ Recognised fields f.id v.ty := by
        rw [hfv] at hrec
        exact hrec
      obtain ⟨record', hrest, hkeep, hsome, hread⟩ := ih hfs record
      refine ⟨record', fun rest => ?_, fun id h => ?_, fun id h => ?_, hread⟩
      · rw [List.flatMap_cons, List.append_assoc, hfv, decodeRecord_skip hne hv]
        exact hrest rest
      · exact hkeep id fun g hg => h g (List.mem_cons_of_mem f hg)
      · refine hsome id (h.imp_right ?_)
        rintro ⟨g, hg, hgid, hgrec⟩
        refine ⟨g, ?_, hgid, hgrec⟩
        refine (List.mem_cons.mp hg).resolve_left fun heq => hrec ?_
        subst heq
        exact hgid ▸ hgrec

end

/-! ## Identifiers -/

/-- The bytes of the last binary of an id. -/
def lastBinary (id : Int16) : List RawField → Option Bytes
  | [] => none
  | f :: fs =>
    (lastBinary id fs).or (if f.id = id ∧ f.ty = .string then some (f.bytes.drop 4) else none)

theorem takesField_binary {f : RawField} (hf : TakesField handleIdentifierFields f)
    (hrec : Recognised handleIdentifierFields f.id f.ty) : f.ty = .string ∧ ∃ value : Bytes,
      value.length < 2 ^ 31 ∧ f.bytes = writeBinary value ∧
        handleIdentifierFields f.id = .binary := by
  rw [TakesField, if_pos hrec] at hf
  unfold Recognised at hrec
  have hshape : handleIdentifierFields f.id = .binary ∨ handleIdentifierFields f.id = .unknown := by
    rw [handleIdentifierFields, fieldsOf, fieldsOf, fieldsOf]
    by_cases h₁ : f.id = 1
    · exact .inl (if_pos h₁)
    · rw [if_neg h₁]
      by_cases h₂ : f.id = 2
      · exact .inl (if_pos h₂)
      · exact .inr (if_neg h₂)
  rcases hshape with hshape | hshape
  · rw [hshape] at hf hrec
    obtain ⟨value, hlen, hbytes⟩ := hf
    exact ⟨(Option.some.inj hrec).symm, value, hlen, hbytes, hshape⟩
  · rw [hshape] at hrec
    cases hrec

theorem drop_writeBinary (value : Bytes) : (writeBinary value).drop 4 = value := by
  have hlen : (writeI32 (.ofNat value.length)).length = 4 := beBytes_length 4 _
  rw [writeBinary, ← hlen, List.drop_left]

/-- What an identifier has under its ids are the last binaries there. -/
theorem decodeRecord_lastBinary {fs : List RawField}
    (hfs : ∀ f ∈ fs, TakesField handleIdentifierFields f) (record : Record) :
    ∃ record' : Record,
      (∀ rest, decodeRecord handleIdentifierFields record (fs.flatMap (·.encode) ++ rest) =
        decodeRecord handleIdentifierFields record' rest) ∧
      ∀ id, handleIdentifierFields id = .binary → (record' id).bind Content.binary? =
        (lastBinary id fs).or ((record id).bind Content.binary?) := by
  induction fs generalizing record with
  | nil => exact ⟨record, fun rest => rfl, fun id _ => rfl⟩
  | cons f fs ih =>
    obtain ⟨hf, hfs⟩ := List.forall_mem_cons.mp hfs
    by_cases hrec : Recognised handleIdentifierFields f.id f.ty
    · obtain ⟨hty, value, hlen, hbytes, hshape⟩ := takesField_binary hf hrec
      obtain ⟨record', hrest, hlast⟩ := ih hfs (Function.update record f.id (some (.binary value)))
      refine ⟨record', fun rest => ?_, fun id hid => ?_⟩
      · have hdecode (rest : Bytes) :
            (handleIdentifierFields f.id).decode (f.bytes ++ rest) = some (.binary value, rest) := by
          rw [hshape, Shape.decode, hbytes, decodeBinary_eq_some.mpr ⟨hlen, rfl⟩]
          rfl
        rw [List.flatMap_cons, List.append_assoc, RawField.encode, List.cons_append,
          List.append_assoc, decodeRecord_field, decodeRecordField, if_pos hrec, hdecode]
        exact hrest rest
      · rw [hlast id hid, lastBinary, Option.or_assoc]
        by_cases heq : id = f.id
        · subst heq
          rw [Function.update_self, if_pos ⟨rfl, hty⟩, hbytes, drop_writeBinary]
          rfl
        · rw [Function.update_of_ne heq, if_neg fun h => heq h.1.symm, Option.none_or]
    · have hskipped : ∃ v, Skippable v ∧ f = .ofValue f.id v := by
        rwa [TakesField, if_neg hrec] at hf
      obtain ⟨v, hv, hfv⟩ := hskipped
      have hne : ¬ Recognised handleIdentifierFields f.id v.ty := by
        rw [hfv] at hrec
        exact hrec
      obtain ⟨record', hrest, hlast⟩ := ih hfs record
      refine ⟨record', fun rest => ?_, fun id hid => ?_⟩
      · rw [List.flatMap_cons, List.append_assoc, hfv, decodeRecord_skip hne hv]
        exact hrest rest
      · have hnot : ¬ (f.id = id ∧ f.ty = .string) := by
          rintro ⟨rfl, hty⟩
          exact hrec (by rw [Recognised, hid, hty]; rfl)
        rw [hlast id hid, lastBinary, if_neg hnot, Option.or_none]

theorem handleOf_eq_none {parts : Option String × Option Bytes} :
    handleOf parts = none ↔ parts.1 = none ∨ parts.2 = none := by
  obtain ⟨_ | id, _ | secret⟩ := parts <;> simp [handleOf]

theorem identifierView_eq_none {record : Record} : handleOf (identifierView record) = none ↔
    (∀ guid, (record 1).bind Content.binary? = some guid → guid.length ≠ 16) ∨
    ∀ secret, (record 2).bind Content.binary? = some secret → secret.length ≠ 16 := by
  have hguid : (identifierView record).1 = none ↔
      ∀ guid, (record 1).bind Content.binary? = some guid → guid.length ≠ 16 := by
    rw [identifierView]
    dsimp only
    rw [← Option.bind_assoc, Option.bind_eq_none_iff]
    refine forall₂_congr fun guid _ => ?_
    by_cases hlen : guid.length = 16 <;> simp [hlen]
  have hsecret : (identifierView record).2 = none ↔
      ∀ secret, (record 2).bind Content.binary? = some secret → secret.length ≠ 16 := by
    rw [identifierView]
    dsimp only
    rw [← Option.bind_assoc, Option.bind_eq_none_iff]
    refine forall₂_congr fun secret _ => ?_
    by_cases hlen : secret.length = 16 <;> simp [hlen]
  rw [handleOf_eq_none, hguid, hsecret]

/-- An identifier is no handle if one of its parts is missing or does not have 16 bytes. -/
theorem readHandleIdentifier_eq_none {fs : List RawField}
    (hfs : ∀ f ∈ fs, TakesField handleIdentifierFields f) {r : Reader} (hr : r.WF) {rest : Bytes}
    (hbytes : r.remaining = fs.flatMap (·.encode) ++ 0 :: rest) :
    (readHandleIdentifier.run r).1 = .ok none ↔
      (∀ guid, lastBinary 1 fs = some guid → guid.length ≠ 16) ∨
      ∀ secret, lastBinary 2 fs = some secret → secret.length ≠ 16 := by
  obtain ⟨record, hrest, hlast⟩ := decodeRecord_lastBinary hfs .empty
  have hlast (id : Int16) (hid : handleIdentifierFields id = .binary) :
      (record id).bind Content.binary? = lastBinary id fs :=
    (hlast id hid).trans (Option.or_none ..)
  have hends := reads_readHandleIdentifier r hr
  dsimp only at hends
  rw [hbytes, hrest, decodeRecord_stop] at hends
  rw [hends.ok_iff, ← hlast 1 rfl, ← hlast 2 rfl, ← identifierView_eq_none]
  constructor
  · rintro ⟨_, h⟩
    exact congrArg Prod.fst (Option.some.inj h)
  · intro h
    rw [Option.map_some, h]
    exact ⟨rest, rfl⟩

/-! ## Handles -/

/-- The structs that are written for an id and a secret. -/
inductive HandleStruct (id secret : Uuid) : Bytes → Prop
  | session : HandleStruct id secret (writeSessionHandle id.bytes secret.bytes)
  | operation {hasResultSet : Bool} {operationType : Int32} : HandleStruct id secret
    (writeOperationHandleWithType id.bytes secret.bytes hasResultSet operationType)

/-- The record of a written identifier. -/
def identifierRecord (id secret : Uuid) : Record :=
  Function.update (Function.update Record.empty 1 (some (.binary id.bytes))) 2
    (some (.binary secret.bytes))

/-- The record of a written handle. -/
def handleRecord (id secret : Uuid) : Record :=
  Function.update Record.empty 1 (some (.struct (identifierRecord id secret)))

theorem decodeBinary_uuid (id : Uuid) (rest : Bytes) :
    decodeBinary (writeBinary id.bytes ++ rest) = some (id.bytes, rest) :=
  decodeBinary_eq_some.mpr ⟨by rw [id.length_eq]; decide, rfl⟩

theorem decodeRecord_identifier (id secret : Uuid) (rest : Bytes) :
    decodeRecord handleIdentifierFields .empty
        (writeHandleIdentifier id.bytes secret.bytes ++ rest) =
      some (identifierRecord id secret, rest) := by
  have hfield {i : Int16} (hi : handleIdentifierFields i = .binary) (record : Record) (value : Uuid)
      (rest : Bytes) : decodeRecord handleIdentifierFields record
        (Ty.string.code :: (encodeI16 i ++ (writeBinary value.bytes ++ rest))) =
      decodeRecord handleIdentifierFields
        (Function.update record i (some (.binary value.bytes))) rest := by
    have hrec : Recognised handleIdentifierFields i .string := by rw [Recognised, hi]; rfl
    rw [decodeRecord_field, decodeRecordField, if_pos hrec, hi, Shape.decode, decodeBinary_uuid]
    rfl
  have hbytes : writeHandleIdentifier id.bytes secret.bytes ++ rest =
      Ty.string.code :: (encodeI16 1 ++ (writeBinary id.bytes ++
        Ty.string.code :: (encodeI16 2 ++ (writeBinary secret.bytes ++ 0 :: rest)))) := by
    simp only [writeHandleIdentifier, writeField, writeStop, List.append_assoc, List.cons_append,
      List.nil_append]
    rfl
  rw [hbytes, hfield rfl, hfield rfl, decodeRecord_stop]
  rfl

/-- What a reader makes of a handle that was written, whatever the fields behind its identifier. -/
theorem HandleStruct.decodeRecord {id secret : Uuid} {bytes : Bytes}
    (h : HandleStruct id secret bytes) (rest : Bytes) :
    decodeRecord handleFields .empty (bytes ++ rest) = some (handleRecord id secret, rest) := by
  have hidentifier (rest : Bytes) : Reader.decodeRecord handleFields .empty (Ty.struct.code ::
        (encodeI16 1 ++ (writeHandleIdentifier id.bytes secret.bytes ++ rest))) =
      Reader.decodeRecord handleFields (handleRecord id secret) rest := by
    have hrec : Recognised handleFields 1 .struct := rfl
    have hshape : handleFields 1 = .struct handleIdentifierFields := rfl
    rw [decodeRecord_field, decodeRecordField, if_pos hrec, hshape, decode_struct,
      decodeRecord_identifier]
    rfl
  have hi32 (v : Int32) : Skippable (.i32 v) := ⟨.i32, .i32, Nat.zero_le _⟩
  have hbool (b : UInt8) : Skippable (.bool b) := ⟨.bool, .bool, Nat.zero_le _⟩
  have hunknown {i : Int16} (hi : handleFields i = .unknown) (ty : Ty) :
      ¬ Recognised handleFields i ty := by
    rw [Recognised, hi]
    exact (Option.some_ne_none ty).symm
  cases h with
  | session =>
    have hbytes : writeSessionHandle id.bytes secret.bytes ++ rest = Ty.struct.code ::
        (encodeI16 1 ++ (writeHandleIdentifier id.bytes secret.bytes ++
          ((RawField.ofValue 3329 (.i32 sparkCliServiceProtocolV7)).encode ++ 0 :: rest))) := by
      simp only [writeSessionHandle, writeField, writeStop, List.append_assoc, List.cons_append,
        List.nil_append]
      rfl
    rw [hbytes, hidentifier, decodeRecord_skip (hunknown rfl _) (hi32 _), decodeRecord_stop]
  | @operation hasResultSet operationType =>
    have hbytes : writeOperationHandleWithType id.bytes secret.bytes hasResultSet operationType ++
        rest = Ty.struct.code :: (encodeI16 1 ++ (writeHandleIdentifier id.bytes secret.bytes ++
          ((RawField.ofValue 2 (.i32 operationType)).encode ++
            ((RawField.ofValue 3 (.bool hasResultSet.toUInt8)).encode ++ 0 :: rest)))) := by
      simp only [writeOperationHandleWithType, writeField, writeStop, List.append_assoc,
        List.cons_append, List.nil_append]
      rfl
    rw [hbytes, hidentifier, decodeRecord_skip (hunknown rfl _) (hi32 _), decodeRecord_skip (hunknown rfl _) (hbool _),
      decodeRecord_stop]

theorem handleView_handleRecord (id secret : Uuid) :
    handleView (handleRecord id secret) = some ⟨id.toString, secret.bytes⟩ := by
  have hid : identifierRecord id secret 1 = some (.binary id.bytes) := rfl
  have hsecret : identifierRecord id secret 2 = some (.binary secret.bytes) := rfl
  change handleOf (identifierView (identifierRecord id secret)) = _
  rw [identifierView, hid, hsecret]
  simp only [Option.bind_some, Content.binary?, id.length_eq, secret.length_eq, dite_true, if_true,
    handleOf]

/-- The struct of a handle determines the id and the secret. -/
theorem HandleStruct.inj {id secret id' secret' : Uuid} {bytes : Bytes}
    (h : HandleStruct id secret bytes) (h' : HandleStruct id' secret' bytes) :
    id = id' ∧ secret = secret' := by
  have hrecord : handleRecord id secret = handleRecord id' secret' :=
    congrArg Prod.fst (Option.some.inj ((h.decodeRecord []).symm.trans (h'.decodeRecord [])))
  have hidentifier : identifierRecord id secret = identifierRecord id' secret' :=
    Content.struct.inj (Option.some.inj (congrFun hrecord 1))
  have hid := Content.binary.inj (Option.some.inj (congrFun hidentifier 1))
  have hsecret := Content.binary.inj (Option.some.inj (congrFun hidentifier 2))
  cases id; cases id'; cases secret; cases secret'
  cases hid; cases hsecret
  exact ⟨rfl, rfl⟩

/-! ## Calls -/

theorem decodeArgs_map {α β : Type} {decodeReq : Bytes → Option (α × Bytes)} (f : α → β) (n : Nat)
    (bs : Bytes) : decodeArgs (fun bs => (decodeReq bs).map fun (x, bs) => (f x, bs)) n bs =
      (decodeArgs decodeReq n bs).map fun (x, bs) => (f x, bs) := by
  induction n generalizing bs with
  | zero => rfl
  | succ n ih =>
    rw [decodeArgs, decodeArgs, Option.map_bind]
    refine Option.bind_congr ?_
    rintro ⟨begin?, bs'⟩ -
    cases begin? with
    | none => rfl
    | some begin? =>
      obtain ⟨ty, id⟩ := begin?
      by_cases hreq : id = 1 ∧ ty = .struct
      · simp only [if_pos hreq, Function.comp_apply, Option.map_bind, Option.bind_map,
          Option.map_map, Function.comp_def]
      · simp only [if_neg hreq, Function.comp_apply, Option.map_bind, ih]

theorem reads_readArgs_map {α β : Type} {parseReq : ReaderM α}
    {decodeReq : Bytes → Option (α × Bytes)} (h : Reads parseReq decodeReq) (f : α → β) :
    Reads (do return f (← readArgs parseReq)) fun bs =>
      decodeArgs (fun bs => (decodeReq bs).map fun (x, bs) => (f x, bs)) bs.length bs := by
  simp only [decodeArgs_map]
  exact (reads_readArgs h).map f

/-- A call that is made of the record of its request. -/
def ReadsCall (fields : Int16 → Shape) (read : ReaderM RpcCall)
    (finish : Record → Option RpcCall) : Prop :=
  Reads read fun bs => decodeArgs (fun bs => (decodeRecord fields .empty bs).bind
    fun (record, bs) => (finish record).map fun call => (call, bs)) bs.length bs

theorem readsCall_of_view {α : Type} {fields : Int16 → Shape} {parseReq : ReaderM α}
    {view : Record → α}
    (h : Reads parseReq fun bs =>
      (decodeRecord fields .empty bs).map fun (record, bs) => (view record, bs))
    (f : α → RpcCall) :
    ReadsCall fields (do return f (← readArgs parseReq)) fun record => some (f (view record)) := by
  have hmap := reads_readArgs_map h f
  simp only [Option.map_map] at hmap
  simp only [Option.map_eq_bind] at hmap
  exact hmap

theorem readsCall_executeStatement : ReadsCall executeStatementFields (do
      let request ← readArgs readExecuteStatementReq
      return .session (.executeStatement request.statement) request.sessionHandle)
    fun record => (executeStatementReqView record).map fun request =>
      .session (.executeStatement request.statement) request.sessionHandle := by
  have hmap := reads_readArgs_map reads_readExecuteStatementReq fun request =>
    RpcCall.session (.executeStatement request.statement) request.sessionHandle
  simp only [Option.map_bind, Option.map_map, Function.comp_def] at hmap
  simp only [ReadsCall, Option.map_map, Function.comp_def]
  exact hmap

/-- The call of a request with a handle has the handle of its record; only the text of a statement
has to be there for it. -/
theorem exists_handleCall {name : String} {fields : Int16 → Shape}
    (hname : requestFields name = some fields) (hfields : fields 1 = .struct handleFields) :
    ∃ read finish, readCall name = some read ∧ ReadsCall fields read finish ∧
      (∀ record call, finish record = some call → call.handle = firstView handleView record) ∧
      ∀ record, (name = "ExecuteStatement" → ∃ statement, record 2 = some (.string statement)) →
        (finish record).isSome := by
  have hview {f : Record → RpcCall} (hf : ∀ record, (f record).handle = firstView handleView record)
      (record : Record) (call : RpcCall) (h : some (f record) = some call) :
      call.handle = firstView handleView record := Option.some.inj h ▸ hf record
  unfold requestFields at hname
  split at hname
  · cases hname
    cases hfields
  · cases hname
    exact ⟨_, _, rfl, readsCall_of_view reads_readGetInfoReq fun request =>
      .session (.getInfo request.infoType) request.sessionHandle, hview fun _ => rfl,
      fun _ _ => rfl⟩
  · cases hname
    exact ⟨_, _, rfl, readsCall_of_view reads_readGetColumnsReq fun request =>
      .session (.getColumns request.names) request.sessionHandle, hview fun _ => rfl,
      fun _ _ => rfl⟩
  · cases hname
    refine ⟨_, _, rfl, readsCall_executeStatement, fun record call h => ?_, fun record h => ?_⟩
    · rw [executeStatementReqView, Option.map_map] at h
      obtain ⟨statement, -, rfl⟩ := Option.map_eq_some_iff.mp h
      rfl
    · obtain ⟨statement, hstatement⟩ := h rfl
      rw [executeStatementReqView, executeStatementView, hstatement]
      rfl
  · cases hname
    exact ⟨_, _, rfl, readsCall_of_view reads_readFetchResultsReq fun request =>
      .operation (.fetchResults request.startRowOffset request.maxRows) request.operationHandle,
      hview fun _ => rfl, fun _ _ => rfl⟩
  · cases hname
    exact ⟨_, _, rfl, readsCall_of_view reads_readCloseSessionReq .closeSession,
      hview fun _ => rfl, fun _ _ => rfl⟩
  · cases hname
    exact ⟨_, _, rfl, readsCall_of_view reads_readOperationReq (.operation .getOperationStatus),
      hview fun _ => rfl, fun _ _ => rfl⟩
  · cases hname
    exact ⟨_, _, rfl, readsCall_of_view reads_readOperationReq (.operation .getQueryId),
      hview fun _ => rfl, fun _ _ => rfl⟩
  · cases hname
    exact ⟨_, _, rfl, readsCall_of_view reads_readOperationReq (.operation .getResultSetMetadata),
      hview fun _ => rfl, fun _ _ => rfl⟩
  · cases hname
    exact ⟨_, _, rfl, readsCall_of_view reads_readOperationReq .closeOperation,
      hview fun _ => rfl, fun _ _ => rfl⟩
  · cases hname
    exact ⟨_, _, rfl, readsCall_of_view reads_readOperationReq .cancelOperation,
      hview fun _ => rfl, fun _ _ => rfl⟩
  · cases hname

/-! ## Echoes -/

/-- The arguments of a call with a handle in its place: the fields in front of the request, those
of the request around the handle, and those behind the request. -/
structure Echo where
  method : String
  fields : Int16 → Shape
  args : List RawField
  before : List RawField
  after : List RawField
  trailing : List (Int16 × Thrift.Value)

namespace Echo

structure WF (e : Echo) : Prop where
  method : requestFields e.method = some e.fields
  handle : e.fields 1 = .struct handleFields
  args : ∀ f ∈ e.args, ∃ v, Skippable v ∧ ¬ (f.id = 1 ∧ v.ty = .struct) ∧ f = .ofValue f.id v
  before : ∀ f ∈ e.before, TakesField e.fields f
  after : ∀ f ∈ e.after, TakesField e.fields f ∧ ¬ (f.id = 1 ∧ f.ty = .struct)
  statement : e.method = "ExecuteStatement" → ∃ f ∈ e.before ++ e.after, f.id = 2 ∧ f.ty = .string
  trailing : (Thrift.Value.struct e.trailing).Within maxContainerElements (maxSkipDepth + 2)

def payload (e : Echo) (handle : Bytes) : Bytes :=
  e.args.flatMap (·.encode) ++ tStruct :: (encodeI16 1 ++ (e.before.flatMap (·.encode) ++
    ((RawField.mk 1 .struct handle).encode ++ (e.after.flatMap (·.encode) ++
      0 :: Thrift.Value.encodeFields e.trailing))))

end Echo

theorem decodeTrailing_encodeFields {trailing : List (Int16 × Thrift.Value)}
    (h : (Thrift.Value.struct trailing).Within maxContainerElements (maxSkipDepth + 2)) :
    decodeTrailing (Thrift.Value.encodeFields trailing) = some ((), []) := by
  have hdecode := (Thrift.Value.decodeWithin_eq_some maxContainerElements_lt .struct
    (Thrift.Value.encodeFields trailing) (.struct trailing) []).mpr
      ⟨⟨rfl, h⟩, (List.append_nil _).symm⟩
  obtain ⟨⟨fs, rest⟩, hfields, hrest⟩ := Option.map_eq_some_iff.mp hdecode
  obtain ⟨-, rfl⟩ := Prod.mk.inj hrest
  have hfields : decodeFields (Thrift.Value.decodeWithin maxContainerElements maxSkipDepth) _ _ =
    some (fs, []) := hfields
  rw [decodeTrailing, skipping, hfields]
  rfl

theorem decodeArgs_args {α : Type} {decodeReq : Bytes → Option (α × Bytes)} {args : List RawField}
    (h : ∀ f ∈ args, ∃ v, Skippable v ∧ ¬ (f.id = 1 ∧ v.ty = .struct) ∧ f = .ofValue f.id v)
    (rest : Bytes) :
    decodeArgs decodeReq (args.flatMap (·.encode) ++ rest).length
        (args.flatMap (·.encode) ++ rest) = decodeArgs decodeReq rest.length rest := by
  induction args with
  | nil => rfl
  | cons f args ih =>
    obtain ⟨⟨v, hv, hne, hf⟩, hargs⟩ := List.forall_mem_cons.mp h
    rw [List.flatMap_cons, List.append_assoc, hf, decodeArgs_skip hne hv, ih hargs]

/-- The record of a request has the handle, and a statement where there is one. -/
theorem Echo.WF.decodeRecord {e : Echo} (he : e.WF) {id secret : Uuid} {handle : Bytes}
    (h : HandleStruct id secret handle) (rest : Bytes) : ∃ record : Record,
      Reader.decodeRecord e.fields .empty (e.before.flatMap (·.encode) ++
        ((RawField.mk 1 .struct handle).encode ++ (e.after.flatMap (·.encode) ++ 0 :: rest))) =
          some (record, rest) ∧
      firstView handleView record = some ⟨id.toString, secret.bytes⟩ ∧
      (e.method = "ExecuteStatement" → ∃ statement, record 2 = some (.string statement)) := by
  obtain ⟨record₁, hrest₁, -, hsome₁, hread₁⟩ := decodeRecord_fields he.before .empty
  obtain ⟨record₂, hrest₂, hkeep₂, hsome₂, hread₂⟩ :=
    decodeRecord_fields (fun f hf => (he.after f hf).1)
      (Function.update record₁ 1 (some (.struct (handleRecord id secret))))
  have hrec {ty : Ty} : Recognised e.fields 1 ty ↔ ty = .struct := by
    rw [Recognised, he.handle]
    exact ⟨fun h => (Option.some.inj h).symm, fun h => h ▸ rfl⟩
  refine ⟨record₂, ?_, ?_, fun hmethod => ?_⟩
  · have hstruct (bs : Bytes) : (e.fields 1).decode (handle ++ bs) =
        some (.struct (handleRecord id secret), bs) := by
      rw [he.handle, decode_struct, h.decodeRecord]
      rfl
    rw [hrest₁, RawField.encode, List.cons_append, List.append_assoc, decodeRecord_field,
      decodeRecordField, if_pos (hrec.mpr rfl), hstruct, Option.map_some, Option.bind_some]
    dsimp only
    rw [hrest₂, decodeRecord_stop]
  · have hkeep : record₂ 1 = some (.struct (handleRecord id secret)) := by
      rw [hkeep₂ 1 fun f hf hid hrec' => (he.after f hf).2 ⟨hid, hrec.mp hrec'⟩,
        Function.update_self]
    rw [firstView, hkeep]
    exact handleView_handleRecord id secret
  · have hfields : e.fields = executeStatementFields := by
      have := he.method
      rw [hmethod] at this
      exact (Option.some.inj this).symm
    have hupdate (x : Option Content) : Function.update record₁ 1 x 2 = record₁ 2 :=
      Function.update_of_ne (by decide) ..
    have hstring : Recognised e.fields 2 .string := by rw [hfields]; rfl
    have hisSome : (record₂ 2).isSome := by
      apply hsome₂
      rw [hupdate]
      obtain ⟨f, hf, hid, hty⟩ := he.statement hmethod
      refine (List.mem_append.mp hf).imp (fun hf => hsome₁ 2 (.inr ⟨f, hf, hid, ?_⟩))
        fun hf => ⟨f, hf, hid, ?_⟩ <;> rwa [hty]
    obtain ⟨x, hx⟩ := Option.isSome_iff_exists.mp hisSome
    have hdecode : ∃ bs rest, (e.fields 2).decode bs = some (x, rest) := by
      refine (hread₂ 2 x hx).elim (fun hx => ?_) fun h => h
      rw [hupdate] at hx
      exact (hread₁ 2 x hx).resolve_left (Option.some_ne_none x).symm
    obtain ⟨bs, rest, hx'⟩ := hdecode
    rw [hfields] at hx'
    obtain ⟨⟨statement, _⟩, -, hstatement⟩ := Option.map_eq_some_iff.mp hx'
    obtain ⟨rfl, -⟩ := Prod.mk.inj hstatement
    exact ⟨statement, hx⟩

end Reader

open Reader Writer

/-- A request with the handle in its place, with whatever fields around it, is decoded to a call
with the handle. -/
def ReadBack (bytes : Bytes) (handle : Handle) : Prop :=
  ∀ (e : Echo), e.WF → ∀ (bearerToken : String) (version : UInt32) (seqid : Int32),
    version &&& 0xffff0000 = tBinaryVersion1 →
    (version &&& 0x000000ff).toUInt8 = tMessageCall →
    (requestBody version e.method seqid (e.payload bytes)).length < 2 ^ 63 →
    ∃ request, ((decodeRequest bearerToken).run
        (.new (requestBody version e.method seqid (e.payload bytes)))).1 = .ok request ∧
      request.call.handle = some handle

theorem readBack_of_handleStruct {id secret : Uuid} {bytes : Bytes} (h : HandleStruct id secret bytes) :
    ReadBack bytes ⟨id.toString, secret.bytes⟩ := by
  intro e he bearerToken version seqid hversion htype hlen
  obtain ⟨read, finish, hread, hreads, hhandle, hfinish⟩ :=
    exists_handleCall he.method he.handle
  obtain ⟨-, -, hname⟩ := exists_readCall he.method
  obtain ⟨record, hrecord, hview, hstatement⟩ :=
    he.decodeRecord h (Thrift.Value.encodeFields e.trailing)
  obtain ⟨call, hcall⟩ := Option.isSome_iff_exists.mp (hfinish record hstatement)
  refine ⟨{ bearerToken, seqid, call }, ?_, (hhandle record call hcall).trans hview⟩
  rw [decodeRequest_ok_iff bearerToken hlen hname hread hreads]
  refine ⟨hversion, call, ?_, rfl⟩
  rw [if_neg (not_not.mpr htype)]
  refine ⟨[], ?_⟩
  rw [Echo.payload, decodeArgs_args he.args, decodeArgs_req, hrecord, Option.bind_some]
  simp only [hcall, Option.map_some, Option.bind_some, decodeTrailing_encodeFields he.trailing]

/-! ## Responses -/

/-- A success response with a struct in one of its fields. -/
def CarriesStruct (response : Bytes) (id : Int16) (bytes : Bytes) : Prop :=
  ∃ method seqid, ∃ before after : List RawField, (∀ f ∈ before ++ after, f.id ≠ id) ∧
    response = writeSuccessResponse method seqid (before.flatMap (·.encode) ++
      ((RawField.mk id .struct bytes).encode ++ (after.flatMap (·.encode) ++ writeStop)))

theorem openSession_carries (seqid : Int32) (guid secret : Bytes) (catalog schema : String)
    (types : List Int32) :
    CarriesStruct (writeOpenSessionResponse seqid guid secret catalog schema types) 3
      (writeSessionHandle guid secret) := by
  have hinfo : ∃ fs : List RawField, (∀ f ∈ fs, f.id = 1281) ∧ (if types.isEmpty then []
      else writeField tList 1281 (writeListBegin tStruct types.length ++
        types.flatMap fun infoType => writeGetInfoValue infoType catalog)) =
      fs.flatMap (·.encode) := by
    by_cases htypes : types.isEmpty
    · rw [if_pos htypes]
      exact ⟨[], List.forall_mem_nil _, rfl⟩
    · rw [if_neg htypes]
      exact ⟨[⟨1281, .list, writeListBegin tStruct types.length ++
        types.flatMap fun infoType => writeGetInfoValue infoType catalog⟩], by simp,
        (List.append_nil _).symm⟩
  obtain ⟨fs, hfs, hinfo⟩ := hinfo
  refine ⟨"OpenSession", seqid,
    [⟨1, .struct, writeStatus successStatus none⟩, ⟨2, .i32, writeI32 sparkCliServiceProtocolV7⟩],
    [⟨1284, .struct, writeNamespace catalog schema⟩, ⟨1285, .bool, writeBool true⟩] ++ fs, ?_, ?_⟩
  · intro f hf
    simp only [List.mem_append, List.mem_cons, List.not_mem_nil, or_false] at hf
    have hne : f.id = 1 ∨ f.id = 2 ∨ f.id = 1284 ∨ f.id = 1285 ∨ f.id = 1281 := by
      rcases hf with (rfl | rfl) | (rfl | rfl) | hf
      · exact .inl rfl
      · exact .inr (.inl rfl)
      · exact .inr (.inr (.inl rfl))
      · exact .inr (.inr (.inr (.inl rfl)))
      · exact .inr (.inr (.inr (.inr (hfs f hf))))
    rcases hne with h | h | h | h | h <;> (rw [h]; decide)
  · rw [writeOpenSessionResponse, hinfo, List.flatMap_append]
    simp only [List.flatMap_cons, List.flatMap_nil, List.append_nil, List.append_assoc]
    rfl

theorem executeStatement_carries (seqid : Int32) (guid secret : Bytes) :
    CarriesStruct (writeExecuteStatementResponse seqid guid secret) 2
      (writeOperationHandle guid secret true) := by
  refine ⟨"ExecuteStatement", seqid, [⟨1, .struct, writeStatus successStatus none⟩], [],
    by simp, ?_⟩
  simp only [writeExecuteStatementResponse, List.flatMap_cons, List.flatMap_nil, List.append_nil,
    List.nil_append, List.append_assoc]
  rfl

theorem getColumns_carries (seqid : Int32) (guid secret : Bytes) :
    CarriesStruct (writeGetColumnsResponse seqid guid secret) 2
      (writeOperationHandleWithType guid secret true getColumns) := by
  refine ⟨"GetColumns", seqid, [⟨1, .struct, writeStatus successStatus none⟩], [], by simp, ?_⟩
  simp only [writeGetColumnsResponse, List.flatMap_cons, List.flatMap_nil, List.append_nil,
    List.nil_append, List.append_assoc]
  rfl

/-! ## The round trip -/

/-- The handle that a call answers with, echoed in a request, is decoded to the key and the secret
of the entry that the call stored; handles of different ids and secrets are different bytes, and an
identifier that lacks one of its 16 byte parts is no handle. -/
theorem handle_roundTrip (cfg : ServiceConfig) (request : RpcRequest) (s : ServiceState)
    (id secret : Uuid) :
    (∀ catalog schema types, s.sessions.len < cfg.maxSessions → ∃ s' response session,
      runOpenSession cfg request s catalog schema types id secret =
        (s', .reply (.response response)) ∧
      s'.sessions.lookup id.toString = some session ∧
      CarriesStruct response 3 (writeSessionHandle id.bytes secret.bytes) ∧
      ReadBack (writeSessionHandle id.bytes secret.bytes) ⟨id.toString, session.secret⟩) ∧
    (∀ session statement, s.operations.len < cfg.maxOperations → ∃ s' response op,
      runInsertExecuteStatement cfg request s session statement id secret =
        (s', .reply (.response response)) ∧
      s'.operations.lookup id.toString = some op ∧
      CarriesStruct response 2 (writeOperationHandle id.bytes secret.bytes true) ∧
      ReadBack (writeOperationHandle id.bytes secret.bytes true) ⟨id.toString, op.secret⟩) ∧
    (∀ session filters started, s.operations.len < cfg.maxOperations → ∃ s' op,
      runInsertGetColumns cfg request s session filters started id secret =
        (s', .sections [.awaitOperationCompletion id secret s.tasks.length]) ∧
      s'.operations.lookup id.toString = some op ∧
      ∀ s₁, ∃ s₂ response,
        runAwaitOperationCompletion request s₁ id secret .succeeded =
          (s₂, .reply (.response response)) ∧
        CarriesStruct response 2
          (writeOperationHandleWithType id.bytes secret.bytes true getColumns) ∧
        ReadBack (writeOperationHandleWithType id.bytes secret.bytes true getColumns)
          ⟨id.toString, op.secret⟩) ∧
    (∀ id' secret' bytes, HandleStruct id secret bytes → HandleStruct id' secret' bytes →
      id = id' ∧ secret = secret') ∧
    ∀ fs : List RawField, (∀ f ∈ fs, TakesField handleIdentifierFields f) →
      ∀ (r : Reader) (rest : Bytes), r.WF → r.remaining = fs.flatMap (·.encode) ++ 0 :: rest →
        ((readHandleIdentifier.run r).1 = .ok none ↔
          (∀ guid, lastBinary 1 fs = some guid → guid.length ≠ 16) ∨
          ∀ secret, lastBinary 2 fs = some secret → secret.length ≠ 16) := by
  refine ⟨fun catalog schema types hlen => ?_, fun session statement hlen => ?_,
    fun session filters started hlen => ?_, fun id' secret' bytes h h' => h.inj h',
    fun fs hfs r rest hr hbytes => readHandleIdentifier_eq_none hfs hr hbytes⟩
  · rw [runOpenSession, if_neg (Nat.not_le.mpr hlen)]
    exact ⟨_, _, newSession cfg request s catalog schema id secret, rfl,
      HashMap.lookup_insert_eq_some.mpr (.inl ⟨rfl, rfl⟩), openSession_carries ..,
      readBack_of_handleStruct .session⟩
  · rw [runInsertExecuteStatement, if_neg (Nat.not_le.mpr hlen)]
    exact ⟨_, _, newOperation cfg request s session s.clock secret, rfl,
      HashMap.lookup_insert_eq_some.mpr (.inl ⟨rfl, rfl⟩), executeStatement_carries ..,
      readBack_of_handleStruct .operation⟩
  · rw [runInsertGetColumns, if_neg (Nat.not_le.mpr hlen)]
    exact ⟨_, newOperation cfg request s session started secret, rfl,
      HashMap.lookup_insert_eq_some.mpr (.inl ⟨rfl, rfl⟩), fun s₁ =>
        ⟨_, _, rfl, getColumns_carries .., readBack_of_handleStruct .operation⟩⟩

/-- `CloseSession` with nothing but the handle. -/
def closeSessionEcho : Echo := ⟨"CloseSession", handleReqFields, [], [], [], []⟩

theorem handle_roundTrip_closeSession : ∃ s' response session,
    runOpenSession testService ⟨"token-a", 1, .openSession none none []⟩ (.new 0) none none []
      (testUuid 1) (testUuid 2) = (s', .reply (.response response)) ∧
    s'.sessions.lookup (testUuid 1).toString = some session ∧
    ∃ request, ((decodeRequest "token-a").run (.new (requestBody 0x80010001 "CloseSession" 2
        (closeSessionEcho.payload
          (writeSessionHandle (testUuid 1).bytes (testUuid 2).bytes))))).1 = .ok request ∧
      request.call.handle = some ⟨(testUuid 1).toString, session.secret⟩ := by
  have hwf : closeSessionEcho.WF := by
    refine ⟨rfl, rfl, List.forall_mem_nil _, List.forall_mem_nil _, List.forall_mem_nil _,
      fun h => absurd h (by decide), ⟨.struct (List.forall_mem_nil _),
        .struct (List.forall_mem_nil _), by decide⟩⟩
  obtain ⟨s', response, session, hrun, hsession, -, hread⟩ :=
    (handle_roundTrip testService ⟨"token-a", 1, .openSession none none []⟩ (.new 0) (testUuid 1)
      (testUuid 2)).1 none none [] (by decide)
  exact ⟨s', response, session, hrun, hsession, hread closeSessionEcho hwf "token-a" 0x80010001 2
    (by decide) (by decide) (by decide +kernel)⟩

end HarborSql
