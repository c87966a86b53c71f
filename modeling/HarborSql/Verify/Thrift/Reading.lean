import HarborSql.Theory.ThriftGrammar
import HarborSql.Thrift.Reader

/-! What the reader reads: each of its functions reads what a decoder of the grammar decodes, and
returns an error on all other bytes. -/

namespace HarborSql

/-- What a call returns, and the reader after it. -/
def ReaderM.run {α : Type} (m : ReaderM α) (r : Reader) : Except Fault α × Reader := m r

namespace Reader

/-- The bytes that are still to be read. -/
def remaining (r : Reader) : Bytes := r.buffer.drop r.position

/-- The position is in the buffer, and the buffer is no longer than a Rust slice may be. -/
structure WF (r : Reader) : Prop where
  position_le : r.position ≤ r.buffer.length
  length_lt : r.buffer.length < 2 ^ 63

/-- `r'` has read on in the buffer of `r`. -/
structure Ahead (r r' : Reader) : Prop where
  wf : r'.WF
  buffer : r'.buffer = r.buffer
  position_le : r.position ≤ r'.position

theorem WF.ahead {r : Reader} (h : r.WF) : r.Ahead r := ⟨h, rfl, Nat.le_refl _⟩

theorem Ahead.trans {r r' r'' : Reader} (h : r.Ahead r') (h' : r'.Ahead r'') : r.Ahead r'' :=
  ⟨h'.wf, h'.buffer.trans h.buffer, Nat.le_trans h.position_le h'.position_le⟩

theorem length_remaining (r : Reader) : r.remaining.length = r.buffer.length - r.position :=
  List.length_drop

theorem Ahead.length_le {r r' : Reader} (h : r.Ahead r') :
    r'.remaining.length ≤ r.remaining.length := by
  have := h.position_le
  rw [length_remaining, length_remaining, h.buffer]
  omega

/-- What was read is as long as the way that the position went. -/
theorem Ahead.position_eq {r r' : Reader} (h : r.Ahead r') {front : Bytes}
    (hr : r.remaining = front ++ r'.remaining) : r'.position = r.position + front.length := by
  have hlen := congrArg List.length hr
  have hle := h.wf.position_le
  have := h.position_le
  rw [List.length_append, length_remaining, length_remaining, h.buffer] at hlen
  rw [h.buffer] at hle
  omega

/-! ## Runs -/

section
variable {α β : Type} {r : Reader}

theorem run_pure (x : α) : (pure x : ReaderM α).run r = (.ok x, r) := rfl

theorem run_throw (fault : Fault) : (throw fault : ReaderM α).run r = (.error fault, r) := rfl

theorem run_bind {m : ReaderM α} {f : α → ReaderM β} :
    (m >>= f).run r =
      match m.run r with
      | (.ok x, r') => (f x).run r'
      | (.error fault, r') => (.error fault, r') := by
  have h : (m >>= f).run r = (ExceptT.bindCont f (m.run r).1 : ReaderM β).run (m.run r).2 := rfl
  rw [h]
  cases m.run r with
  | mk x r' => cases x <;> rfl

theorem run_bind_ok {m : ReaderM α} {f : α → ReaderM β} {x : α} {r' : Reader}
    (h : m.run r = (.ok x, r')) : (m >>= f).run r = (f x).run r' := by
  rw [run_bind, h]

theorem run_bind_error {m : ReaderM α} {f : α → ReaderM β} {fault : Fault} {r' : Reader}
    (h : m.run r = (.error fault, r')) : (m >>= f).run r = (.error fault, r') := by
  rw [run_bind, h]

theorem run_bind_eq_ok {m : ReaderM α} {f : α → ReaderM β} {y : β} {r'' : Reader}
    (h : (m >>= f).run r = (.ok y, r'')) :
    ∃ x r', m.run r = (.ok x, r') ∧ (f x).run r' = (.ok y, r'') := by
  rw [run_bind] at h
  split at h
  · exact ⟨_, _, ‹_›, h⟩
  · cases h

theorem run_get : (get : ReaderM Reader).run r = (.ok r, r) := rfl

theorem run_modify (f : Reader → Reader) :
    (modify f : ReaderM PUnit).run r = (.ok ⟨⟩, f r) := rfl

end

/-! ## Reading what a decoder decodes -/

/-- How a call of `m` ends when a decoder says what should be read. -/
inductive Ends {α : Type} (m : ReaderM α) (r : Reader) : Option (α × Bytes) → Prop
  | ok {x : α} {r' : Reader} : m.run r = (.ok x, r') → r.Ahead r' → Ends m r (some (x, r'.remaining))
  | error {e : HarborError} {r' : Reader} : m.run r = (.error (.error e), r') → r.Ahead r' →
    Ends m r none

/-- `m` reads what `decode` decodes, and returns an error on all other bytes. -/
def Reads {α : Type} (m : ReaderM α) (decode : Bytes → Option (α × Bytes)) : Prop :=
  ∀ r : Reader, r.WF → Ends m r (decode r.remaining)

section
variable {α β : Type} {r : Reader}

theorem Ends.of_some {m : ReaderM α} {x : α} {rest : Bytes} (h : Ends m r (some (x, rest))) :
    ∃ r', m.run r = (.ok x, r') ∧ r.Ahead r' ∧ r'.remaining = rest := by
  cases h with | ok hm hahead => exact ⟨_, hm, hahead, rfl⟩

theorem Ends.bind {m : ReaderM α} {f : α → ReaderM β} {result : Option (α × Bytes)}
    {d : α → Bytes → Option (β × Bytes)} (h : Ends m r result)
    (hf : ∀ x r', m.run r = (.ok x, r') → r.Ahead r' → result = some (x, r'.remaining) →
      Ends (f x) r' (d x r'.remaining)) :
    Ends (m >>= f) r (result.bind fun (x, bs) => d x bs) := by
  cases h with
  | @ok x r' hm hahead =>
    have hf := hf x r' hm hahead rfl
    change Ends _ _ (d x r'.remaining)
    generalize d x r'.remaining = result at hf ⊢
    cases hf with
    | ok hm' hahead' => exact .ok ((run_bind_ok hm).trans hm') (hahead.trans hahead')
    | error hm' hahead' => exact .error ((run_bind_ok hm).trans hm') (hahead.trans hahead')
  | error hm hahead => exact .error (run_bind_error hm) hahead

theorem Reads.bind {m : ReaderM α} {f : α → ReaderM β} {decode : Bytes → Option (α × Bytes)}
    {d : α → Bytes → Option (β × Bytes)} (h : Reads m decode) (hf : ∀ x, Reads (f x) (d x)) :
    Reads (m >>= f) fun bs => (decode bs).bind fun (x, bs) => d x bs :=
  fun r hr => (h r hr).bind fun x r' _ hahead _ => hf x r' hahead.wf

theorem Ends.map_run {m m' : ReaderM α} {r r' : Reader} {result : Option (α × Bytes)}
    (h : Ends m r' result) (hahead : r.Ahead r') (hrun : m'.run r = m.run r') :
    Ends m' r result := by
  cases h with
  | ok hm hahead' => exact .ok (hrun.trans hm) (hahead.trans hahead')
  | error hm hahead' => exact .error (hrun.trans hm) (hahead.trans hahead')

theorem Ends.bind_map {γ : Type} {m : ReaderM β} {f : β → ReaderM γ} {g : α → β}
    {result : Option (α × Bytes)} {d : α → Bytes → Option (γ × Bytes)}
    (h : Ends m r (result.map fun (x, bs) => (g x, bs)))
    (hf : ∀ x r', r.Ahead r' → result = some (x, r'.remaining) →
      Ends (f (g x)) r' (d x r'.remaining)) :
    Ends (m >>= f) r (result.bind fun (x, bs) => d x bs) := by
  cases result with
  | none => cases h with | error hm hahead => exact .error (run_bind_error hm) hahead
  | some p =>
    obtain ⟨x, bs⟩ := p
    cases h with
    | ok hm hahead => exact (hf x _ hahead rfl).map_run hahead (run_bind_ok hm)

theorem Reads.bind_map {γ : Type} {m : ReaderM β} {f : β → ReaderM γ} {g : α → β}
    {decode : Bytes → Option (α × Bytes)} {d : α → Bytes → Option (γ × Bytes)}
    (h : Reads m fun bs => (decode bs).map fun (x, bs) => (g x, bs))
    (hf : ∀ x, Reads (f (g x)) (d x)) :
    Reads (m >>= f) fun bs => (decode bs).bind fun (x, bs) => d x bs :=
  fun r hr => (h r hr).bind_map fun x r' hahead _ => hf x r' hahead.wf

theorem reads_pure (x : α) : Reads (pure x) fun bs => some (x, bs) :=
  fun _ hr => .ok (run_pure x) hr.ahead

theorem reads_error (message : String) : Reads (thriftError message : ReaderM α) fun _ => none :=
  fun _ hr => .error (run_throw _) hr.ahead

theorem Reads.map {m : ReaderM α} {decode : Bytes → Option (α × Bytes)} (h : Reads m decode)
    (f : α → β) :
    Reads (do return f (← m)) fun bs => (decode bs).map fun (x, bs) => (f x, bs) := by
  have hbind := h.bind fun x => reads_pure (f x)
  simp only [Option.map_eq_bind]
  exact hbind

end

/-! ## Primitives -/

section
open Thrift

theorem run_index {bytes : Bytes} {i : Nat} {b : UInt8} (h : bytes[i]? = some b) (r : Reader) :
    (index bytes i).run r = (.ok b, r) := by
  rw [index, h]
  rfl

theorem run_addUsize {left right : Nat} (h : left + right < 2 ^ 64) (r : Reader) :
    (addUsize left right).run r = (.ok (left + right), r) := by
  rw [addUsize, if_pos h]
  rfl

theorem run_slice {bytes : Bytes} {start stop : Nat} (h : start ≤ stop ∧ stop ≤ bytes.length)
    (r : Reader) :
    (slice bytes start stop).run r = (.ok ((bytes.drop start).take (stop - start)), r) := by
  rw [slice, if_pos h]
  rfl

theorem reads_readU8 : Reads readU8 decodeU8 := by
  intro r hr
  have hrun := run_bind_ok (f := fun reader =>
    if reader.buffer.length ≤ reader.position then thriftError "unexpected end of message"
    else do
      let value ← index reader.buffer reader.position
      let position ← addUsize reader.position 1
      modify fun reader => { reader with position }
      return value) (run_get (r := r))
  by_cases hend : r.buffer.length ≤ r.position
  · have hnil : r.remaining = [] := List.drop_eq_nil_of_le hend
    rw [hnil]
    rw [if_pos hend] at hrun
    exact .error hrun hr.ahead
  · have hlt := Nat.lt_of_not_le hend
    have hcons : r.remaining = r.buffer[r.position] :: r.buffer.drop (r.position + 1) :=
      List.drop_eq_getElem_cons hlt
    have hadd : r.position + 1 < 2 ^ 64 := by
      have := hr.length_lt
      omega
    rw [if_neg hend, run_bind_ok (run_index (List.getElem?_eq_getElem hlt) r),
      run_bind_ok (run_addUsize hadd r), run_bind_ok (run_modify _), run_pure] at hrun
    rw [hcons]
    exact .ok hrun ⟨⟨hlt, hr.length_lt⟩, rfl, Nat.le_succ _⟩

theorem reads_readExact {n : Nat} (hn : n < 2 ^ 63) : Reads (readExact n) (takeBytes n) := by
  intro r hr
  have hle := hr.position_le
  have hadd : r.position + n < 2 ^ 64 := by
    have := hr.length_lt
    omega
  have hrun := run_bind_ok (f := fun reader => do
    let stop ← addUsize reader.position n
    if reader.buffer.length < stop then thriftError "unexpected end of message"
    else do
      let bytes ← slice reader.buffer reader.position stop
      modify fun reader => { reader with position := stop }
      return bytes) (run_get (r := r))
  rw [run_bind_ok (run_addUsize hadd r)] at hrun
  unfold takeBytes
  rw [length_remaining]
  by_cases hend : r.buffer.length < r.position + n
  · rw [if_pos hend] at hrun
    rw [if_neg (by omega)]
    exact .error hrun hr.ahead
  · rw [if_neg hend, run_bind_ok (run_slice ⟨Nat.le_add_right _ _, by omega⟩ r),
      run_bind_ok (run_modify _), run_pure, Nat.add_sub_cancel_left] at hrun
    rw [if_pos (by omega), remaining, List.drop_drop]
    exact .ok hrun ⟨⟨by dsimp only; omega, hr.length_lt⟩, rfl, Nat.le_add_right _ _⟩

theorem run_mapM_index (bytes : Bytes) (r : Reader) (is : List Nat)
    (h : ∀ i ∈ is, i < bytes.length) :
    (is.mapM (index bytes)).run r = (.ok (is.map fun i => bytes[i]?.getD 0), r) := by
  induction is with
  | nil => rfl
  | cons i is ih =>
    obtain ⟨hi, his⟩ := List.forall_mem_cons.mp h
    rw [List.mapM_cons, run_bind_ok (run_index (List.getElem?_eq_getElem hi) r),
      run_bind_ok (ih his), run_pure, List.map_cons, List.getElem?_eq_getElem hi, Option.getD_some]

theorem reads_readBeBytes {n : Nat} (hn : n < 2 ^ 63) : Reads (readBeBytes n) (decodeNat n) := by
  intro r hr
  have h := (reads_readExact hn r hr).bind (f := fun bytes => do
    let bytes ← (List.range n).mapM (index bytes)
    return ofBeBytes bytes) (d := fun bytes bs => some (ofBeBytes bytes, bs)) ?_
  · rw [decodeNat, Option.map_eq_bind]
    exact h
  · intro bytes r' _ hahead htake
    obtain ⟨rfl, -⟩ := takeBytes_eq_some.mp htake
    have hmap : (List.range bytes.length).map (fun i => bytes[i]?.getD 0) = bytes := by
      apply List.ext_getElem <;> simp +contextual
    have hrun := run_mapM_index bytes r' (List.range bytes.length) fun i hi => List.mem_range.mp hi
    rw [hmap] at hrun
    exact .ok ((run_bind_ok hrun).trans (run_pure _)) hahead.wf.ahead

theorem reads_readI16 : Reads readI16 decodeI16 :=
  (reads_readBeBytes (n := 2) (by decide)).map fun n => Int16.ofBitVec (.ofNat 16 n)

theorem reads_readI32 : Reads readI32 decodeI32 :=
  (reads_readBeBytes (n := 4) (by decide)).map fun n => Int32.ofBitVec (.ofNat 32 n)

theorem reads_readI64 : Reads readI64 decodeI64 :=
  (reads_readBeBytes (n := 8) (by decide)).map fun n => Int64.ofBitVec (.ofNat 64 n)

/-- The bytes of a string. -/
def decodeBinary (bs : Bytes) : Option (Bytes × Bytes) :=
  (decodeSize bs).bind fun (n, bs) => takeBytes n bs

theorem lt_zero_iff (n : Int32) : n < 0 ↔ ¬ 0 ≤ n.toInt := by
  rw [Int32.lt_iff_toInt_lt, Int.not_le]
  rfl

theorem reads_readBinary : Reads readBinary decodeBinary := by
  have hlt (n : Int32) : n.toInt.toNat < 2 ^ 63 := by
    have := n.toInt_lt
    omega
  have hlen (len : Int32) : Reads
      (if len < 0 then thriftError "negative binary length" else readExact len.toInt.toNat)
      fun bs => if 0 ≤ len.toInt then takeBytes len.toInt.toNat bs else none := by
    by_cases h : len < 0
    · simp only [if_pos h, if_neg ((lt_zero_iff len).mp h)]
      exact reads_error _
    · simp only [if_neg h, if_pos (not_not.mp (mt (lt_zero_iff len).mpr h))]
      exact reads_readExact (hlt len)
  have hdecode : decodeBinary = fun bs => (decodeI32 bs).bind fun p =>
      if 0 ≤ p.1.toInt then takeBytes p.1.toInt.toNat p.2 else none := by
    funext bs
    simp only [decodeBinary, decodeSize, Option.bind_eq_bind, Option.bind_assoc]
    congr 1
    funext p
    obtain ⟨len, bs⟩ := p
    by_cases h : 0 ≤ len.toInt <;> simp [h]
  rw [hdecode]
  exact reads_readI32.bind hlen

theorem validFieldType_iff (code : UInt8) : validFieldType code ↔ ∃ ty : Ty, code = ty.code := by
  rw [validFieldType, decide_eq_true_iff]
  constructor
  · intro h
    simp only [List.mem_cons, List.not_mem_nil, or_false] at h
    rcases h with h | h | h | h | h | h | h | h | h | h | h
    exacts [⟨.bool, h⟩, ⟨.byte, h⟩, ⟨.double, h⟩, ⟨.i16, h⟩, ⟨.i32, h⟩, ⟨.i64, h⟩, ⟨.string, h⟩,
      ⟨.struct, h⟩, ⟨.map, h⟩, ⟨.set, h⟩, ⟨.list, h⟩]
  · rintro ⟨ty, rfl⟩
    cases ty <;> decide

theorem reads_readContainerElementType (position : String) :
    Reads (readContainerElementType position) fun bs =>
      (decodeTy bs).map fun (ty, bs) => (ty.code, bs) := by
  have htype (code : UInt8) : Reads
      (if validFieldType code then return code
        else thriftError s!"invalid Thrift {position} type \x60{code}\x60")
      fun bs => (Ty.ofCode code).map fun ty => (ty.code, bs) := by
    cases h : Ty.ofCode code with
    | none =>
      have hinvalid : ¬ validFieldType code := by
        rw [validFieldType_iff]
        rintro ⟨ty, rfl⟩
        simp at h
      simp only [if_neg hinvalid]
      exact reads_error _
    | some ty =>
      obtain rfl := Ty.ofCode_eq_some.mp h
      simp only [if_pos ((validFieldType_iff _).mpr ⟨ty, rfl⟩)]
      exact reads_pure _
  have hdecode : (fun bs => (decodeTy bs).map fun p => (p.1.code, p.2)) = fun bs =>
      (decodeU8 bs).bind fun p => (Ty.ofCode p.1).map fun ty => (ty.code, p.2) := by
    funext bs
    rw [decodeTy]
    cases decodeU8 bs with
    | none => rfl
    | some p => cases h : Ty.ofCode p.1 <;> simp [h]
  rw [hdecode]
  exact reads_readU8.bind htype

theorem reads_readContainerSize (kind : String) :
    Reads (readContainerSize kind) (Thrift.Value.decodeSizeWithin maxContainerElements) := by
  have hsize (size : Int32) : Reads
      (if size < 0 then thriftError s!"negative {kind} size"
        else if maxContainerElements < size.toInt.toNat then
          thriftError s!"Thrift {kind} size exceeds maximum of {maxContainerElements}"
        else return size.toInt.toNat)
      fun bs => if 0 ≤ size.toInt ∧ size.toInt.toNat ≤ maxContainerElements then
        some (size.toInt.toNat, bs) else none := by
    by_cases h : size < 0
    · simp only [if_pos h, (lt_zero_iff size).mp h, false_and, if_false]
      exact reads_error _
    · have h0 := not_not.mp (mt (lt_zero_iff size).mpr h)
      simp only [if_neg h, h0, true_and]
      by_cases hmax : maxContainerElements < size.toInt.toNat
      · simp only [if_pos hmax, if_neg (Nat.not_le_of_lt hmax)]
        exact reads_error _
      · simp only [if_neg hmax, if_pos (Nat.le_of_not_lt hmax)]
        exact reads_pure _
  have hdecode : Thrift.Value.decodeSizeWithin maxContainerElements = fun bs =>
      (decodeI32 bs).bind fun p =>
        if 0 ≤ p.1.toInt ∧ p.1.toInt.toNat ≤ maxContainerElements then
          some (p.1.toInt.toNat, p.2) else none := by
    funext bs
    rw [Thrift.Value.decodeSizeWithin, decodeSize]
    cases decodeI32 bs with
    | none => rfl
    | some p => by_cases h : 0 ≤ p.1.toInt <;> simp [h, Option.filter]
  rw [hdecode]
  exact reads_readI32.bind hsize

/-! ## Fields -/

/-- The type and the id of a field, or the STOP after the last one. -/
def decodeFieldBegin (bs : Bytes) : Option (Option (Ty × Int16) × Bytes) := do
  let (code, bs) ← decodeU8 bs
  if code = 0 then return (none, bs)
  let ty ← Ty.ofCode code
  let (id, bs) ← decodeI16 bs
  return (some (ty, id), bs)

/-- What `read_field_begin` returns. -/
def fieldBegin : Option (Ty × Int16) → UInt8 × Int16
  | none => (tStop, 0)
  | some (ty, id) => (ty.code, id)

theorem reads_readFieldBegin : Reads readFieldBegin fun bs =>
    (decodeFieldBegin bs).map fun (begin?, bs) => (fieldBegin begin?, bs) := by
  have hfield (code : UInt8) : Reads
      (if code = tStop then return (tStop, 0)
        else if validFieldType code then do
          let fieldId ← readI16
          return (code, fieldId)
        else thriftError s!"unsupported Thrift type \x60{code}\x60")
      fun bs => if code = 0 then some (fieldBegin none, bs) else
        (Ty.ofCode code).bind fun ty =>
          (decodeI16 bs).map fun (id, bs) => (fieldBegin (some (ty, id)), bs) := by
    by_cases hstop : code = 0
    · simp only [hstop, if_pos (show (0 : UInt8) = tStop from rfl), if_true]
      exact reads_pure _
    · simp only [if_neg (show code ≠ tStop from hstop), if_neg hstop]
      cases h : Ty.ofCode code with
      | none =>
        have hinvalid : ¬ validFieldType code := by
          rw [validFieldType_iff]
          rintro ⟨ty, rfl⟩
          simp at h
        simp only [if_neg hinvalid]
        exact reads_error _
      | some ty =>
        obtain rfl := Ty.ofCode_eq_some.mp h
        simp only [if_pos ((validFieldType_iff _).mpr ⟨ty, rfl⟩)]
        exact reads_readI16.map fun id => (ty.code, id)
  have hdecode : (fun bs => (decodeFieldBegin bs).map fun (begin?, bs) => (fieldBegin begin?, bs)) =
      fun bs => (decodeU8 bs).bind fun (code, bs) =>
        if code = 0 then some (fieldBegin none, bs) else (Ty.ofCode code).bind fun ty =>
          (decodeI16 bs).map fun (id, bs) => (fieldBegin (some (ty, id)), bs) := by
    funext bs
    rw [decodeFieldBegin]
    cases decodeU8 bs with
    | none => rfl
    | some p =>
      obtain ⟨code, bs⟩ := p
      by_cases hstop : code = 0
      · simp [hstop]
      · cases hty : Ty.ofCode code with
        | none => simp [hstop, hty]
        | some ty => cases hid : decodeI16 bs <;> simp [hstop, hty, hid]
  rw [hdecode]
  exact reads_readU8.bind hfield

/-! ## Loops -/

/-- What is skipped is decoded, and its value forgotten. -/
def skipping {α : Type} (decode : Bytes → Option (α × Bytes)) (bs : Bytes) :
    Option (Unit × Bytes) :=
  (decode bs).map fun (_, bs) => ((), bs)

theorem reads_times {α : Type} {m : ReaderM Unit} {item : Bytes → Option (α × Bytes)}
    (h : Reads m (skipping item)) (n : Nat) : Reads (times m n) (skipping (decodeMany item n)) := by
  induction n with
  | zero => exact reads_pure ()
  | succ n ih =>
    have hdecode : skipping (decodeMany item (n + 1)) = fun bs =>
        (skipping item bs).bind fun (_, bs) => skipping (decodeMany item n) bs := by
      funext bs
      simp only [skipping, decodeMany]
      cases item bs with
      | none => rfl
      | some p => cases h : decodeMany item n p.2 <;> simp [h]
    rw [hdecode]
    exact h.bind fun _ => ih

theorem run_useSize (size : Nat) (r : Reader) :
    (useSize size).run r = (.ok (), { r with sizes := size :: r.sizes }) := rfl

theorem reads_useSize (size : Nat) : Reads (useSize size) fun bs => some ((), bs) :=
  fun r hr => (Ends.ok (run_useSize size r)
    ⟨⟨hr.position_le, hr.length_lt⟩, rfl, Nat.le_refl r.position⟩ :)

theorem decodeFieldBegin_eq_none {bs rest : Bytes} :
    decodeFieldBegin bs = some (none, rest) ↔ bs = 0 :: rest := by
  rw [decodeFieldBegin]
  cases bs with
  | nil => exact ⟨nofun, nofun⟩
  | cons code bs =>
    by_cases hstop : code = 0
    · simp [decodeU8, hstop]
    · cases hty : Ty.ofCode code with
      | none => simp [decodeU8, hstop, hty]
      | some ty => cases hid : decodeI16 bs <;> simp [decodeU8, hstop, hty, hid]

theorem decodeFieldBegin_eq_some {bs rest : Bytes} {ty : Ty} {id : Int16} :
    decodeFieldBegin bs = some (some (ty, id), rest) ↔ bs = ty.code :: (encodeI16 id ++ rest) := by
  rw [decodeFieldBegin]
  cases bs with
  | nil => exact ⟨nofun, nofun⟩
  | cons code bs =>
    by_cases hstop : code = 0
    · simp [decodeU8, hstop, ty.code_ne_stop.symm]
    · cases hty : Ty.ofCode code with
      | none =>
        have hne : code ≠ ty.code := by
          rintro rfl
          simp at hty
        simp [decodeU8, hstop, hty, hne]
      | some ty' =>
        obtain rfl := Ty.ofCode_eq_some.mp hty
        simp [decodeU8, hstop, Option.bind_eq_some_iff, decodeI16_eq_some, Ty.code_inj, and_left_comm]

section
variable {σ : Type} {field : UInt8 → Int16 → σ → ReaderM σ}
  {decode : Ty → Int16 → σ → Bytes → Option (σ × Bytes)}

/-- The fields of a struct, each decoded by its type and its id. -/
def decodeFold (decode : Ty → Int16 → σ → Bytes → Option (σ × Bytes)) :
    Nat → σ → Bytes → Option (σ × Bytes)
  | 0, _, _ => none
  | n + 1, s, bs =>
    (decodeFieldBegin bs).bind fun (begin?, bs) =>
      match begin? with
      | none => some (s, bs)
      | some (ty, id) => (decode ty id s bs).bind fun (s, bs) => decodeFold decode n s bs

/-- The loop over the fields reads a byte with every turn, so that its fuel lasts. The loop keeps
what `view` shows of the state that is decoded. -/
theorem ends_fieldLoop {τ : Type} {decode : Ty → Int16 → τ → Bytes → Option (τ × Bytes)}
    (view : τ → σ)
    (h : ∀ ty id t, Reads (field ty.code id (view t)) fun bs =>
      (decode ty id t bs).map fun (t, bs) => (view t, bs))
    {r : Reader} (hr : r.WF) {n : Nat} (hn : r.remaining.length ≤ n) (t : τ) :
    Ends (fieldLoop field (n + 1) (view t)) r
      ((decodeFold decode n t r.remaining).map fun (t, bs) => (view t, bs)) := by
  induction n generalizing r t with
  | zero =>
    have hnil : r.remaining = [] := List.length_eq_zero_iff.mp (Nat.le_zero.mp hn)
    have hbegin := reads_readFieldBegin r hr
    rw [hnil] at hbegin
    cases hbegin with | error hm hahead => exact .error (run_bind_error hm) hahead
  | succ n ih =>
    rw [decodeFold, fieldLoop, Option.map_bind]
    refine (reads_readFieldBegin r hr).bind_map (d := fun begin? bs =>
      Option.map (fun (t, bs) => (view t, bs)) <| match begin? with
      | none => some (t, bs)
      | some (ty, id) => (decode ty id t bs).bind fun (t, bs) => decodeFold decode n t bs)
      fun begin? r' hahead hbegin => ?_
    cases begin? with
    | none => exact reads_pure (view t) r' hahead.wf
    | some begin? =>
      obtain ⟨ty, id⟩ := begin?
      have hlen := congrArg List.length (decodeFieldBegin_eq_some.mp hbegin)
      rw [List.length_cons, List.length_append] at hlen
      have hstop : ¬ ty.code = tStop := ty.code_ne_stop
      change Ends (if ty.code = tStop then _ else _) r'
        (((decode ty id t r'.remaining).bind fun (t, bs) => decodeFold decode n t bs).map _)
      rw [if_neg hstop, Option.map_bind]
      refine (h ty id t r' hahead.wf).bind_map (d := fun t bs =>
        (decodeFold decode n t bs).map fun (t, bs) => (view t, bs)) fun t' r'' hahead' _ => ?_
      refine ih hahead'.wf ?_ t'
      have := hahead'.length_le
      omega

theorem reads_readFields_view {τ : Type} {decode : Ty → Int16 → τ → Bytes → Option (τ × Bytes)}
    (view : τ → σ)
    (h : ∀ ty id t, Reads (field ty.code id (view t)) fun bs =>
      (decode ty id t bs).map fun (t, bs) => (view t, bs)) (t : τ) :
    Reads (readFields field (view t)) fun bs =>
      (decodeFold decode bs.length t bs).map fun (t, bs) => (view t, bs) := by
  intro r hr
  have hfuel : (readFields field (view t)).run r =
      (fieldLoop field (r.remaining.length + 1) (view t)).run r := by
    rw [length_remaining]
    rfl
  exact (ends_fieldLoop view h hr (Nat.le_refl _) t).map_run hr.ahead hfuel

theorem reads_readFields (h : ∀ ty id s, Reads (field ty.code id s) (decode ty id s)) (s : σ) :
    Reads (readFields field s) fun bs => decodeFold decode bs.length s bs := by
  have hid (ty : Ty) (i : Int16) (s : σ) : Reads (field ty.code i (id s)) fun bs =>
      (decode ty i s bs).map fun (s, bs) => (id s, bs) := by
    simpa only [id_eq, Prod.mk.eta, Option.map_id'] using h ty i s
  have hview := reads_readFields_view id hid s
  simpa only [id_eq, Prod.mk.eta, Option.map_id'] using hview

end

/-- Fields of which nothing is kept. -/
theorem decodeFold_skipping (value : Ty → Bytes → Option (Thrift.Value × Bytes)) (n : Nat)
    (bs : Bytes) : decodeFold (fun ty _ _ => skipping (value ty)) n () bs =
      skipping (decodeFields value n) bs := by
  induction n generalizing bs with
  | zero => rfl
  | succ n ih =>
    simp only [decodeFold, decodeFieldBegin, skipping, decodeFields]
    cases decodeU8 bs with
    | none => rfl
    | some p =>
      obtain ⟨code, bs⟩ := p
      by_cases hstop : code = 0
      · simp [hstop]
      · cases hty : Ty.ofCode code with
        | none => simp [hstop, hty]
        | some ty =>
          cases hid : decodeI16 bs with
          | none => simp [hstop, hty, hid]
          | some p =>
            cases hv : value ty p.2 with
            | none => simp [hstop, hty, hid, hv]
            | some q =>
              have ih := ih q.2
              simp only [skipping] at ih
              simp [hstop, hty, hid, hv, ih, Option.map_eq_bind, Option.bind_assoc]

/-! ## Skipping -/

section
variable {depth : Nat}

theorem reads_checkDepth_le {α : Type} {m : ReaderM α} {decode : Bytes → Option (α × Bytes)}
    (hd : depth ≤ maxSkipDepth) (h : Reads m decode) :
    Reads (do checkDepth depth; m) decode := by
  have hcheck : checkDepth depth = pure () := if_neg (Nat.not_lt_of_le hd)
  rw [hcheck]
  exact (reads_pure ()).bind fun _ => h

theorem reads_checkDepth_lt {α : Type} {m : ReaderM α} (hd : maxSkipDepth < depth) :
    Reads (do checkDepth depth; m) fun _ => none := by
  have hcheck : checkDepth depth =
      thriftError s!"Thrift nesting depth exceeds maximum of {maxSkipDepth}" := if_pos hd
  rw [hcheck]
  exact fun r hr => .error (run_bind_error (run_throw _)) hr.ahead

end

end
end Reader
end HarborSql
