import HarborSql.Verify.Thrift.Containers

/-! Exactly the requests that declare too long a list of `get_info` types make the decoder use a
container size beyond the bound. -/

namespace HarborSql
namespace Reader

open Thrift

/-! ## What declares such a list -/

/-- The fields of an `OpenSession` request up to such a list. -/
inductive OversizedReq : Bytes → Prop
  | here {elementType : UInt8} {size : Int32} {rest : Bytes} :
    (maxContainerElements : Int) < size.toInt →
    OversizedReq (tList :: (encodeI16 1281 ++ elementType :: (encodeI32 size ++ rest)))
  | field {id : Int16} {ty : Ty} {bytes rest : Bytes} : OpenSessionField id ty bytes →
    OversizedReq rest → OversizedReq (ty.code :: (encodeI16 id ++ (bytes ++ rest)))

/-- The arguments of a call, up to such a list in their `req`. -/
inductive OversizedArgs : Bytes → Prop
  | req {bytes : Bytes} : OversizedReq bytes → OversizedArgs (tStruct :: (encodeI16 1 ++ bytes))
  | field {id : Int16} {v : Thrift.Value} {rest : Bytes} : ¬ (id = 1 ∧ v.ty = .struct) →
    Skippable v → OversizedArgs rest →
    OversizedArgs (v.ty.code :: (encodeI16 id ++ (v.encode ++ rest)))

end Reader

open Reader Writer

/-- The body of an `OpenSession` call whose request, behind fields that are decoded, declares a
list of `get_info` types beyond the bound. -/
def DeclaresOversizedList (body : Bytes) : Prop :=
  ∃ (version : UInt32) (seqid : Int32) (payload : Bytes),
    version &&& 0xffff0000 = tBinaryVersion1 ∧ (version &&& 0x000000ff).toUInt8 = tMessageCall ∧
    body = writeI32 version.toInt32 ++ (writeString "OpenSession" ++ (writeI32 seqid ++ payload)) ∧
    OversizedArgs payload

namespace Reader

open Thrift

/-! ## Loops -/

section
variable {α β : Type} {P : Nat → Prop} {m : ReaderM α} {f : α → ReaderM β} {r : Reader}

theorem small_bind (h : (m.run r).2.Small) (hf : ∀ x, Uses (· ≤ maxContainerElements) (f x)) :
    ((m >>= f).run r).2.Small := by
  rw [run_bind]
  cases hm : m.run r with
  | mk result r' =>
    rw [hm] at h
    cases result with
    | ok x => exact (hf x).small rfl h
    | error fault => exact h

theorem small_of_bind (h : ((m >>= f).run r).2.Small) (hf : ∀ x, Uses P (f x)) :
    (m.run r).2.Small := by
  rw [run_bind] at h
  cases hm : m.run r with
  | mk result r' =>
    rw [hm] at h
    cases result with
    | ok x => exact (hf x).small_of h
    | error fault => exact h

theorem small_bind_iff (hf : ∀ x, Uses (· ≤ maxContainerElements) (f x)) :
    ((m >>= f).run r).2.Small ↔ (m.run r).2.Small :=
  ⟨fun h => small_of_bind h hf, fun h => small_bind h hf⟩

theorem run_readFieldBegin (hr : r.WF) {begin? : Option (Ty × Int16)} {bs : Bytes}
    (h : decodeFieldBegin r.remaining = some (begin?, bs)) :
    ∃ r', readFieldBegin.run r = (.ok (fieldBegin begin?), r') ∧ r.Ahead r' ∧ r'.remaining = bs ∧
      (r.Small → r'.Small) := by
  have hends := reads_readFieldBegin r hr
  simp only [h, Option.map_some] at hends
  obtain ⟨r', hm, hahead, hrem⟩ := hends.of_some
  exact ⟨r', hm, hahead, hrem, uses_readFieldBegin.small hm⟩

/-- A loop that reads a field whose type and id are those of a value. -/
theorem run_loop_field (hr : r.WF) {ty : Ty} {id : Int16} {bs : Bytes}
    (h : r.remaining = ty.code :: (encodeI16 id ++ bs)) (k : UInt8 × Int16 → ReaderM α) :
    ∃ r', r.Ahead r' ∧ r'.remaining = bs ∧ (r.Small → r'.Small) ∧
      (readFieldBegin >>= k).run r = (k (ty.code, id)).run r' := by
  obtain ⟨r', hm, hahead, hrem, hsmall⟩ :=
    run_readFieldBegin hr (decodeFieldBegin_eq_some.mpr h)
  exact ⟨r', hahead, hrem, hsmall, run_bind_ok hm⟩

/-- A loop that does not read a field there, and then stops. -/
theorem small_loop_end (hr : r.WF) (hsmall : r.Small) {k : UInt8 × Int16 → ReaderM α}
    (hstop : Uses (· ≤ maxContainerElements) (k (tStop, 0)))
    (h : ∀ (ty : Ty) id bs, r.remaining ≠ ty.code :: (encodeI16 id ++ bs)) :
    ((readFieldBegin >>= k).run r).2.Small := by
  have hends := reads_readFieldBegin r hr
  dsimp only at hends
  cases hd : decodeFieldBegin r.remaining with
  | none =>
    rw [hd] at hends
    cases hends with
    | error hm _ =>
      rw [run_bind_error hm]
      exact uses_readFieldBegin.small hm hsmall
  | some p =>
    obtain ⟨begin?, bs⟩ := p
    cases begin? with
    | some begin? => exact (h _ _ _ (decodeFieldBegin_eq_some.mp hd)).elim
    | none =>
      obtain ⟨r', hm, -, -, hsmall'⟩ := run_readFieldBegin hr hd
      rw [run_bind_ok hm]
      exact hstop.small rfl (hsmall' hsmall)

end

/-! ## The request -/

section
variable {r : Reader} (hr : r.WF) {ty : Ty} {id : Int16} {bs : Bytes}
include hr

theorem run_fieldLoop_field {σ : Type} (field : UInt8 → Int16 → σ → ReaderM σ)
    (h : r.remaining = ty.code :: (encodeI16 id ++ bs)) (fuel : Nat) (s : σ) :
    ∃ r', r.Ahead r' ∧ r'.remaining = bs ∧ (r.Small → r'.Small) ∧
      (fieldLoop field (fuel + 1) s).run r =
        (field ty.code id s >>= fieldLoop field fuel).run r' := by
  obtain ⟨r', hahead, hrem, hsmall, hrun⟩ := run_loop_field hr h fun start =>
    if start.1 = tStop then return s
    else do
      let s ← field start.1 start.2 s
      fieldLoop field fuel s
  refine ⟨r', hahead, hrem, hsmall, hrun.trans ?_⟩
  dsimp only
  rw [if_neg (show ¬ ty.code = tStop from ty.code_ne_stop)]

theorem run_argsLoop_field {α : Type} (parseReq : ReaderM α)
    (h : r.remaining = ty.code :: (encodeI16 id ++ bs)) (fuel : Nat) :
    ∃ r', r.Ahead r' ∧ r'.remaining = bs ∧ (r.Small → r'.Small) ∧
      (argsLoop parseReq (fuel + 1)).run r =
        (if id = 1 ∧ ty.code = tStruct then do
          let request ← parseReq
          skipRemainingStructFields
          return request
        else do
          skip ty.code
          argsLoop parseReq fuel).run r' := by
  obtain ⟨r', hahead, hrem, hsmall, hrun⟩ := run_loop_field hr h fun start =>
    if start.1 = tStop then thriftError "Thrift RPC arguments did not include field \x60req\x60"
    else if start.2 = 1 ∧ start.1 = tStruct then do
      let request ← parseReq
      skipRemainingStructFields
      return request
    else do
      skip start.1
      argsLoop parseReq fuel
  refine ⟨r', hahead, hrem, hsmall, hrun.trans ?_⟩
  dsimp only
  rw [if_neg (show ¬ ty.code = tStop from ty.code_ne_stop)]

end

theorem uses_fieldLoop_openSessionField (fuel : Nat) (s : OpenSessionReq) :
    Uses (fun _ => True) (fieldLoop openSessionField fuel s) :=
  .fieldLoop uses_openSessionField fuel s

theorem not_small_fieldLoop {bs : Bytes} (h : OversizedReq bs) {r : Reader} (hr : r.WF)
    (hbs : r.remaining = bs) {fuel : Nat} (hfuel : bs.length < fuel) (s : OpenSessionReq) :
    ¬ ((fieldLoop openSessionField fuel s).run r).2.Small := by
  induction h generalizing r fuel s with
  | @here elementType size rest hlt =>
    obtain ⟨fuel, rfl⟩ : ∃ n, fuel = n + 1 := ⟨fuel - 1, by omega⟩
    obtain ⟨r', hahead, hrem, -, hrun⟩ :=
      run_fieldLoop_field hr openSessionField (show _ = Ty.list.code :: _ from hbs) fuel s
    rw [hrun]
    intro hsmall
    exact not_small_openSessionField hahead.wf hrem hlt s
      (small_of_bind hsmall fun _ => uses_fieldLoop_openSessionField _ _)
  | @field id ty bytes rest hfield _ ih =>
    obtain ⟨fuel, rfl⟩ : ∃ n, fuel = n + 1 := ⟨fuel - 1, by omega⟩
    obtain ⟨r', hahead, hrem, -, hrun⟩ :=
      run_fieldLoop_field hr openSessionField hbs fuel s
    obtain ⟨s', r'', hm, hahead', hrem'⟩ := openSessionField_of hahead.wf hfield hrem s
    rw [hrun, run_bind_ok hm]
    refine ih hahead'.wf hrem' ?_ s'
    simp only [List.length_cons, List.length_append] at hfuel
    omega

theorem oversized_of_fieldLoop {fuel : Nat} {r : Reader} (hr : r.WF) (hsmall : r.Small)
    {s : OpenSessionReq} (h : ¬ ((fieldLoop openSessionField fuel s).run r).2.Small) :
    OversizedReq r.remaining := by
  induction fuel generalizing r s with
  | zero => exact absurd hsmall h
  | succ fuel ih =>
    by_cases hfield : ∃ (ty : Ty) (id : Int16) (bs : Bytes),
        r.remaining = ty.code :: (encodeI16 id ++ bs)
    · obtain ⟨ty, id, bs, hbs⟩ := hfield
      obtain ⟨r', hahead, rfl, hsmall', hrun⟩ :=
        run_fieldLoop_field hr openSessionField hbs fuel s
      rw [hrun] at h
      rw [hbs]
      by_cases hnext : ((openSessionField ty.code id s).run r').2.Small
      · cases hm : (openSessionField ty.code id s).run r' with
        | mk result r'' =>
          rw [hm] at hnext
          cases result with
          | error fault =>
            rw [run_bind_error hm] at h
            exact absurd hnext h
          | ok s' =>
            rw [run_bind_ok hm] at h
            obtain ⟨bytes, hbytes, hahead', hrem⟩ :=
              remaining_of_openSessionField hahead.wf hm hnext
            rw [hrem]
            exact .field hbytes (ih hahead'.wf hnext h)
      · obtain ⟨rfl, rfl, elementType, size, rest, hrem, hlt⟩ :=
          oversized_of_openSessionField hahead.wf (hsmall' hsmall) hnext
        rw [hrem]
        exact .here hlt
    · refine absurd (small_loop_end hr hsmall (uses_pure s) fun ty id bs hbs => ?_) h
      exact hfield ⟨ty, id, bs, hbs⟩

theorem run_readFields {σ : Type} (field : UInt8 → Int16 → σ → ReaderM σ) (s : σ) (r : Reader) :
    (readFields field s).run r = (fieldLoop field (r.remaining.length + 1) s).run r := by
  rw [length_remaining]
  rfl

theorem small_readOpenSessionReq {r : Reader} (hr : r.WF) (hsmall : r.Small) :
    (readOpenSessionReq.run r).2.Small ↔ ¬ OversizedReq r.remaining := by
  rw [readOpenSessionReq, run_readFields]
  constructor
  · exact fun h hbs => not_small_fieldLoop hbs hr rfl (Nat.lt_succ_self _) _ h
  · exact fun h => not_not.mp (mt (oversized_of_fieldLoop hr hsmall) h)

/-! ## The arguments -/

theorem uses_argsLoop_req (request : OpenSessionReq) :
    Uses (· ≤ maxContainerElements) (do skipRemainingStructFields; return request) :=
  uses_skipRemainingStructFields.bind fun _ => uses_pure _

theorem uses_argsLoop (fuel : Nat) : Uses (fun _ => True) (argsLoop readOpenSessionReq fuel) := by
  induction fuel with
  | zero => exact uses_throw _
  | succ fuel ih =>
    refine uses_readFieldBegin.bind fun _ => .ite (uses_error _) <| .ite ?_ ?_
    · refine (Uses.readFields uses_openSessionField _).bind fun request => ?_
      exact (uses_argsLoop_req request).mono fun _ _ => trivial
    · exact ((uses_skip _).mono fun _ _ => trivial).bind fun _ => ih

theorem not_small_argsLoop {bs : Bytes} (h : OversizedArgs bs) {r : Reader} (hr : r.WF)
    (hsmall : r.Small) (hbs : r.remaining = bs) {fuel : Nat} (hfuel : bs.length < fuel) :
    ¬ ((argsLoop readOpenSessionReq fuel).run r).2.Small := by
  induction h generalizing r fuel with
  | @req bytes hbytes =>
    obtain ⟨fuel, rfl⟩ : ∃ n, fuel = n + 1 := ⟨fuel - 1, by omega⟩
    obtain ⟨r', hahead, hrem, hsmall', hrun⟩ :=
      run_argsLoop_field hr readOpenSessionReq (show _ = Ty.struct.code :: _ from hbs) fuel
    rw [hrun, if_pos ⟨rfl, rfl⟩]
    intro h
    have hreq := small_of_bind h fun request => uses_argsLoop_req request
    rw [small_readOpenSessionReq hahead.wf (hsmall' hsmall), hrem] at hreq
    exact hreq hbytes
  | @field id v rest hne hv _ ih =>
    obtain ⟨fuel, rfl⟩ : ∃ n, fuel = n + 1 := ⟨fuel - 1, by omega⟩
    obtain ⟨r', hahead, hrem, hsmall', hrun⟩ :=
      run_argsLoop_field hr readOpenSessionReq hbs fuel
    have hends := reads_skip v.ty r' hahead.wf
    rw [skipping_decodeWithin_eq_some.mpr ⟨v, hv, rfl, hrem⟩] at hends
    obtain ⟨r'', hm, hahead', hrem'⟩ := hends.of_some
    rw [hrun, if_neg (mt (And.imp_right code_eq_tStruct.mp) hne), run_bind_ok hm]
    refine ih hahead'.wf ((uses_skip _).small hm (hsmall' hsmall)) hrem' ?_
    simp only [List.length_cons, List.length_append] at hfuel
    omega

theorem oversized_of_argsLoop {fuel : Nat} {r : Reader} (hr : r.WF) (hsmall : r.Small)
    (h : ¬ ((argsLoop readOpenSessionReq fuel).run r).2.Small) : OversizedArgs r.remaining := by
  induction fuel generalizing r with
  | zero => exact absurd hsmall h
  | succ fuel ih =>
    by_cases hfield : ∃ (ty : Ty) (id : Int16) (bs : Bytes),
        r.remaining = ty.code :: (encodeI16 id ++ bs)
    · obtain ⟨ty, id, bs, hbs⟩ := hfield
      obtain ⟨r', hahead, rfl, hsmall', hrun⟩ :=
        run_argsLoop_field hr readOpenSessionReq hbs fuel
      rw [hrun] at h
      rw [hbs]
      by_cases hreq : id = 1 ∧ ty.code = tStruct
      · obtain ⟨rfl, hty⟩ := hreq
        obtain rfl := code_eq_tStruct.mp hty
        rw [if_pos ⟨rfl, rfl⟩] at h
        refine .req (not_not.mp fun hbytes => h ?_)
        exact small_bind ((small_readOpenSessionReq hahead.wf (hsmall' hsmall)).mpr hbytes)
          fun request => uses_argsLoop_req request
      · rw [if_neg hreq] at h
        cases hm : (skip ty.code).run r' with
        | mk result r'' =>
          have hsmall'' := (uses_skip _).small hm (hsmall' hsmall)
          cases result with
          | error fault =>
            rw [run_bind_error hm] at h
            exact absurd hsmall'' h
          | ok _ =>
            rw [run_bind_ok hm] at h
            obtain ⟨hahead', hd⟩ := (reads_skip ty r' hahead.wf).eq_ok hm
            obtain ⟨v, hv, rfl, hrem⟩ := skipping_decodeWithin_eq_some.mp hd
            rw [hrem]
            exact
              .field (mt (And.imp_right code_eq_tStruct.mpr) hreq) hv (ih hahead'.wf hsmall'' h)
    · refine absurd (small_loop_end hr hsmall (uses_error _) fun ty id bs hbs => ?_) h
      exact hfield ⟨ty, id, bs, hbs⟩

theorem small_readArgs {r : Reader} (hr : r.WF) (hsmall : r.Small) :
    ((readArgs readOpenSessionReq).run r).2.Small ↔ ¬ OversizedArgs r.remaining := by
  have hrun : (readArgs readOpenSessionReq).run r =
      (argsLoop readOpenSessionReq (r.remaining.length + 1)).run r := by
    rw [length_remaining]
    rfl
  rw [hrun]
  constructor
  · exact fun h hbs => not_small_argsLoop hbs hr hsmall rfl (Nat.lt_succ_self _) h
  · exact fun h => not_not.mp (mt (oversized_of_argsLoop hr hsmall) h)

/-! ## The message -/

def decodeMessageBytes (bs : Bytes) : Option (Message × Bytes) :=
  (decodeI32 bs).bind fun (version, bs) =>
    if version.toUInt32 &&& 0xffff0000 ≠ tBinaryVersion1 then none
    else (decodeString bs).bind fun (name, bs) => (decodeI32 bs).bind fun (seqid, bs) =>
      some (⟨name, (version.toUInt32 &&& 0x000000ff).toUInt8, seqid, bs⟩, bs)

theorem reads_decodeMessage : Reads decodeMessage decodeMessageBytes := by
  have hpayload (version : UInt32) (name : String) (seqid : Int32) : Reads (do
      let reader ← get
      let payload ← slice reader.buffer reader.position reader.buffer.length
      return { name, messageType := (version &&& 0x000000ff).toUInt8, seqid, payload })
      fun bs => some (Message.mk name (version &&& 0x000000ff).toUInt8 seqid bs, bs) := by
    intro r hr
    have htake : (r.buffer.drop r.position).take (r.buffer.length - r.position) = r.remaining :=
      List.take_of_length_le (by rw [List.length_drop])
    refine .ok ((run_bind_ok run_get).trans ?_) hr.ahead
    rw [run_bind_ok (run_slice ⟨hr.position_le, Nat.le_refl _⟩ r), htake, run_pure]
  have hversion (version : Int32) : Reads
      (if version.toUInt32 &&& 0xffff0000 ≠ tBinaryVersion1 then
        thriftError "only strict binary Thrift messages are supported"
      else do
        let name ← readString
        let seqid ← readI32
        let reader ← get
        let payload ← slice reader.buffer reader.position reader.buffer.length
        return Message.mk name (version.toUInt32 &&& 0x000000ff).toUInt8 seqid payload)
      fun bs => if version.toUInt32 &&& 0xffff0000 ≠ tBinaryVersion1 then none
        else (decodeString bs).bind fun (name, bs) => (decodeI32 bs).bind fun (seqid, bs) =>
          some (Message.mk name (version.toUInt32 &&& 0x000000ff).toUInt8 seqid bs, bs) := by
    by_cases h : version.toUInt32 &&& 0xffff0000 ≠ tBinaryVersion1
    · simp only [if_pos h]
      exact reads_error _
    · simp only [if_neg h]
      exact reads_readString.bind fun name => reads_readI32.bind fun seqid =>
        hpayload version.toUInt32 name seqid
  exact reads_readI32.bind hversion

theorem decodeString_eq_some {bs rest : Bytes} {value : String} :
    decodeString bs = some (value, rest) ↔
      (utf8 value).length < 2 ^ 31 ∧ bs = writeString value ++ rest := by
  simp only [decodeString, decodeBinary, Option.bind_eq_some_iff, Option.map_eq_some_iff,
    Prod.exists, Prod.mk.injEq, decodeSize_eq_some, takeBytes_eq_some]
  constructor
  · rintro ⟨bytes, _, ⟨n, _, ⟨hn, rfl⟩, rfl, rfl⟩, _, hvalue, rfl, rfl⟩
    obtain rfl := fromUTF8?_eq_some.mp hvalue
    refine ⟨hn, ?_⟩
    rw [writeString, writeBinary, List.append_assoc]
    rfl
  · rintro ⟨hlen, rfl⟩
    refine ⟨utf8 value, rest, ⟨_, _, ⟨hlen, ?_⟩, rfl, rfl⟩, value, fromUTF8?_utf8 value, rfl, rfl⟩
    rw [writeString, writeBinary, List.append_assoc]
    rfl

theorem decodeMessageBytes_eq_some {bs rest : Bytes} {message : Message} :
    decodeMessageBytes bs = some (message, rest) ↔ ∃ version : UInt32,
      version &&& 0xffff0000 = tBinaryVersion1 ∧
      message.messageType = (version &&& 0x000000ff).toUInt8 ∧
      (utf8 message.name).length < 2 ^ 31 ∧ message.payload = rest ∧
      bs = writeI32 version.toInt32 ++
        (writeString message.name ++ (writeI32 message.seqid ++ message.payload)) := by
  simp only [decodeMessageBytes, Option.bind_eq_some_iff, Prod.exists, Option.ite_none_left_eq_some,
    decodeI32_eq_some, decodeString_eq_some, Option.some.injEq, Prod.mk.injEq, not_not]
  constructor
  · rintro ⟨version, _, rfl, hversion, name, _, ⟨hname, rfl⟩, seqid, _, rfl, rfl, rfl⟩
    exact ⟨version.toUInt32, hversion, rfl, hname, rfl, rfl⟩
  · obtain ⟨name, messageType, seqid, payload⟩ := message
    rintro ⟨version, hversion, rfl, hname, rfl, rfl⟩
    exact ⟨version.toInt32, _, rfl, hversion, name, _, ⟨hname, rfl⟩, seqid, _, rfl, rfl, rfl⟩

theorem decodeMessageBytes_write {version : UInt32} {name : String} {seqid : Int32}
    {payload : Bytes} (hversion : version &&& 0xffff0000 = tBinaryVersion1)
    (hname : (utf8 name).length < 2 ^ 31) :
    decodeMessageBytes
        (writeI32 version.toInt32 ++ (writeString name ++ (writeI32 seqid ++ payload))) =
      some (⟨name, (version &&& 0x000000ff).toUInt8, seqid, payload⟩, payload) :=
  decodeMessageBytes_eq_some.mpr ⟨version, hversion, rfl, hname, rfl, rfl⟩

/-! ## The body -/

theorem length_openSession : (utf8 "OpenSession").length < 2 ^ 31 := by decide +kernel

theorem readCall_openSession : readCall "OpenSession" = some do
    let request ← readArgs readOpenSessionReq
    return .openSession request.catalog request.schema request.getInfoTypes := rfl

theorem small_decodeCall {r : Reader} {message : Message} (hlen : message.payload.length < 2 ^ 63)
    (hsmall : r.Small) :
    ((decodeCall message).run r).2.Small ↔
      ¬ (message.messageType = tMessageCall ∧ message.name = "OpenSession" ∧
        OversizedArgs message.payload) := by
  unfold decodeCall
  by_cases htype : message.messageType ≠ tMessageCall
  · rw [if_pos htype]
    exact iff_of_true hsmall fun h => htype h.1
  · rw [if_neg htype]
    have htype := not_not.mp htype
    by_cases hname : message.name = "OpenSession"
    · have hargs := small_readArgs (r := { r with buffer := message.payload, position := 0 })
        ⟨Nat.zero_le _, hlen⟩ hsmall
      rw [hname, readCall_openSession]
      simp only [htype, true_and]
      rw [run_bind_ok (run_modify _), small_bind_iff fun _ => uses_pure _, hargs]
      rfl
    · cases hread : readCall message.name with
      | none => exact iff_of_true hsmall fun h => hname h.2.1
      | some read =>
        refine iff_of_true ?_ fun h => hname h.2.1
        exact (uses_readCall hname hread).small rfl hsmall

theorem small_decodeRequest (bearerToken : String) {body : Bytes} (hbody : body.length < 2 ^ 63) :
    ((decodeRequest bearerToken).run (.new body)).2.Small ↔ ¬ DeclaresOversizedList body := by
  have hwf : (Reader.new body).WF := ⟨Nat.zero_le _, hbody⟩
  have hnew : (Reader.new body).Small := List.forall_mem_nil _
  have hends := reads_decodeMessage _ hwf
  change Ends _ _ (decodeMessageBytes body) at hends
  cases hd : decodeMessageBytes body with
  | none =>
    rw [hd] at hends
    cases hends with
    | @error e r' hm =>
      rw [decodeRequest, run_bind_error hm]
      refine iff_of_true (uses_decodeMessage.small hm hnew) ?_
      rintro ⟨version, seqid, payload, hversion, -, rfl, -⟩
      rw [decodeMessageBytes_write hversion length_openSession] at hd
      cases hd
  | some p =>
    obtain ⟨message, rest⟩ := p
    rw [hd] at hends
    obtain ⟨r', hm, hahead, -⟩ := hends.of_some
    obtain ⟨version, hversion, htype, hname, rfl, hbytes⟩ := decodeMessageBytes_eq_some.mp hd
    have hpayload : message.payload.length < 2 ^ 63 := by
      have hlen := congrArg List.length hbytes
      simp only [List.length_append] at hlen
      omega
    rw [decodeRequest, run_bind_ok hm, small_bind_iff fun _ => uses_pure _,
      small_decodeCall hpayload (uses_decodeMessage.small hm hnew), not_iff_not]
    constructor
    · rintro ⟨hcall, hopen, hargs⟩
      exact ⟨version, message.seqid, message.payload, hversion, htype ▸ hcall, hopen ▸ hbytes, hargs⟩
    · rintro ⟨version', seqid', payload', hversion', htype', rfl, hargs'⟩
      rw [decodeMessageBytes_write hversion' length_openSession] at hd
      obtain ⟨rfl, -⟩ := Prod.mk.inj (Option.some.inj hd)
      exact ⟨htype', rfl, hargs'⟩

end Reader

/-- The container sizes that the decoder uses are within the bound exactly when no list of
`get_info` types is declared beyond it. -/
theorem bounded (bearerToken : String) (body : Bytes) (hbody : body.length < 2 ^ 63) :
    (∀ n ∈ ((decodeRequest bearerToken).run (.new body)).2.sizes, n ≤ maxContainerElements) ↔
      ¬ DeclaresOversizedList body :=
  small_decodeRequest bearerToken hbody

/-- An `OpenSession` call whose request ends behind the header of a list of 2^31 - 1 integers. -/
def truncatedList : Bytes :=
  [0x80, 1, 0, 1] ++ [0, 0, 0, 11] ++ utf8 "OpenSession" ++ [0, 0, 0, 1] ++
    [tStruct, 0, 1] ++ [tList, 5, 1] ++ [tI32, 0x7f, 0xff, 0xff, 0xff]

theorem length_truncatedList : truncatedList.length < 2 ^ 63 := by decide +kernel

theorem bounded_truncatedList :
    (∀ n ∈ ((decodeRequest "token").run (.new truncatedList)).2.sizes, n ≤ maxContainerElements) ↔
      ¬ DeclaresOversizedList truncatedList :=
  bounded "token" truncatedList length_truncatedList

theorem not_bounded_truncatedList :
    ¬ ∀ n ∈ ((decodeRequest "token").run (.new truncatedList)).2.sizes, n ≤ maxContainerElements := by
  refine (small_decodeRequest "token" length_truncatedList).not.mpr (not_not.mpr ?_)
  refine ⟨0x80010001, 1, _, by decide, by decide, rfl, @OversizedArgs.req (_ :: _) ?_⟩
  exact @OversizedReq.here tI32 2147483647 [] (by decide)

end HarborSql
