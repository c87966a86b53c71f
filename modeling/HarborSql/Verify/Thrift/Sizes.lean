import HarborSql.Thrift.Requests
import HarborSql.Verify.Thrift.Skipping

/-! The container sizes that the decoder takes from a request and uses: those of a container that
is skipped or of a call other than `OpenSession` were checked. -/

namespace HarborSql
namespace Reader

/-- The sizes that `m` uses satisfy `P`. -/
def Uses {α : Type} (P : Nat → Prop) (m : ReaderM α) : Prop :=
  ∀ r : Reader, r.sizes ⊆ (m.run r).2.sizes ∧ ∀ n ∈ (m.run r).2.sizes, n ∈ r.sizes ∨ P n

section
variable {α β σ : Type} {P : Nat → Prop}

theorem Uses.of_sizes_eq {m : ReaderM α} (h : ∀ r : Reader, (m.run r).2.sizes = r.sizes) :
    Uses P m := by
  intro r
  rw [h r]
  exact ⟨List.Subset.refl _, fun n hn => .inl hn⟩

theorem Uses.mono {Q : Nat → Prop} {m : ReaderM α} (h : Uses P m) (hPQ : ∀ n, P n → Q n) :
    Uses Q m := fun r => ⟨(h r).1, fun n hn => ((h r).2 n hn).imp_right (hPQ n)⟩

theorem Uses.bind_of {m : ReaderM α} {f : α → ReaderM β} (h : Uses P m)
    (hf : ∀ x r r', m.run r = (.ok x, r') → Uses P (f x)) : Uses P (m >>= f) := by
  intro r
  obtain ⟨hsub, hmem⟩ := h r
  cases hm : m.run r with
  | mk result r' =>
    rw [hm] at hsub hmem
    cases result with
    | error fault =>
      rw [run_bind_error hm]
      exact ⟨hsub, hmem⟩
    | ok x =>
      rw [run_bind_ok hm]
      obtain ⟨hsub', hmem'⟩ := hf x r r' hm r'
      refine ⟨fun n hn => hsub' (hsub hn), fun n hn => ?_⟩
      exact (hmem' n hn).elim (hmem n) .inr

theorem Uses.bind {m : ReaderM α} {f : α → ReaderM β} (h : Uses P m) (hf : ∀ x, Uses P (f x)) :
    Uses P (m >>= f) := h.bind_of fun x _ _ _ => hf x

theorem Uses.ite {c : Prop} [Decidable c] {m m' : ReaderM α} (h : Uses P m) (h' : Uses P m') :
    Uses P (if c then m else m') := by
  by_cases hc : c
  · rwa [if_pos hc]
  · rwa [if_neg hc]

theorem uses_pure (x : α) : Uses P (pure x : ReaderM α) := .of_sizes_eq fun _ => rfl

theorem uses_throw (fault : Fault) : Uses P (throw fault : ReaderM α) := .of_sizes_eq fun _ => rfl

theorem uses_get : Uses P (get : ReaderM Reader) := .of_sizes_eq fun _ => rfl

theorem uses_seek (position : Nat) :
    Uses P (modify fun reader => { reader with position } : ReaderM PUnit) :=
  .of_sizes_eq fun _ => rfl

theorem uses_error (message : String) : Uses P (thriftError message : ReaderM α) := uses_throw _

theorem uses_useSize {size : Nat} (h : P size) : Uses P (useSize size) := by
  intro r
  refine ⟨fun n hn => List.mem_cons_of_mem _ hn, fun n hn => ?_⟩
  rcases List.mem_cons.mp hn with rfl | hn
  · exact .inr h
  · exact .inl hn

theorem uses_index (bytes : Bytes) (i : Nat) : Uses P (index bytes i) := by
  unfold index
  split
  · exact uses_pure _
  · exact uses_throw _

theorem uses_addUsize (left right : Nat) : Uses P (addUsize left right) :=
  .ite (uses_pure _) (uses_throw _)

theorem uses_slice (bytes : Bytes) (start stop : Nat) : Uses P (slice bytes start stop) :=
  .ite (uses_pure _) (uses_throw _)

/-! ## Primitives -/

theorem uses_readU8 : Uses P readU8 :=
  uses_get.bind fun _ => .ite (uses_error _) <| (uses_index _ _).bind fun _ =>
    (uses_addUsize _ _).bind fun _ => (uses_seek _).bind fun _ => uses_pure _

theorem uses_readExact (len : Nat) : Uses P (readExact len) :=
  uses_get.bind fun _ => (uses_addUsize _ _).bind fun _ => .ite (uses_error _) <|
    (uses_slice _ _ _).bind fun _ => (uses_seek _).bind fun _ => uses_pure _

theorem Uses.mapM {f : α → ReaderM β} (h : ∀ x, Uses P (f x)) (xs : List α) :
    Uses P (xs.mapM f) := by
  induction xs with
  | nil => exact uses_pure _
  | cons x xs ih =>
    rw [List.mapM_cons]
    exact (h x).bind fun _ => ih.bind fun _ => uses_pure _

theorem uses_readBeBytes (n : Nat) : Uses P (readBeBytes n) :=
  (uses_readExact n).bind fun _ => (Uses.mapM (uses_index _) _).bind fun _ => uses_pure _

theorem uses_readI16 : Uses P readI16 := (uses_readBeBytes 2).bind fun _ => uses_pure _

theorem uses_readI32 : Uses P readI32 := (uses_readBeBytes 4).bind fun _ => uses_pure _

theorem uses_readI64 : Uses P readI64 := (uses_readBeBytes 8).bind fun _ => uses_pure _

theorem uses_readDouble : Uses P readDouble := uses_readI64.bind fun _ => uses_pure _

theorem uses_readBinary : Uses P readBinary :=
  uses_readI32.bind fun _ => .ite (uses_error _) (uses_readExact _)

theorem uses_readString : Uses P readString := by
  refine uses_readBinary.bind fun bytes => ?_
  split
  · exact uses_pure _
  · exact uses_error _

theorem uses_readFieldBegin : Uses P readFieldBegin :=
  uses_readU8.bind fun _ => .ite (uses_pure _) <|
    .ite (uses_readI16.bind fun _ => uses_pure _) (uses_error _)

/-! ## Loops -/

theorem Uses.times {body : ReaderM Unit} (h : Uses P body) (n : Nat) :
    Uses P (Reader.times body n) := by
  induction n with
  | zero => exact uses_pure _
  | succ n ih => exact h.bind fun _ => ih

theorem Uses.collect {item : ReaderM α} (h : Uses P item) (n : Nat) :
    Uses P (Reader.collect item n) := by
  induction n with
  | zero => exact uses_pure _
  | succ n ih => exact h.bind fun _ => ih.bind fun _ => uses_pure _

theorem Uses.fieldLoop {field : UInt8 → Int16 → σ → ReaderM σ}
    (h : ∀ fieldType fieldId s, Uses P (field fieldType fieldId s)) (fuel : Nat) (s : σ) :
    Uses P (Reader.fieldLoop field fuel s) := by
  induction fuel generalizing s with
  | zero => exact uses_throw _
  | succ fuel ih =>
    exact uses_readFieldBegin.bind fun _ => .ite (uses_pure _) ((h _ _ _).bind fun s => ih s)

theorem uses_loopFuel : Uses P loopFuel := uses_get.bind fun _ => uses_pure _

theorem Uses.readFields {field : UInt8 → Int16 → σ → ReaderM σ}
    (h : ∀ fieldType fieldId s, Uses P (field fieldType fieldId s)) (s : σ) :
    Uses P (Reader.readFields field s) := uses_loopFuel.bind fun _ => .fieldLoop h _ s

/-! ## Skipping -/

theorem uses_checkDepth (depth : Nat) : Uses P (checkDepth depth) :=
  .ite (uses_error _) (uses_pure _)

theorem uses_readContainerElementType (position : String) :
    Uses P (readContainerElementType position) :=
  uses_readU8.bind fun _ => .ite (uses_pure _) (uses_error _)

theorem uses_readContainerSize (kind : String) : Uses P (readContainerSize kind) :=
  uses_readI32.bind fun _ => .ite (uses_error _) (.ite (uses_error _) (uses_pure _))

/-- The size of a container that is skipped was checked. -/
theorem readContainerSize_le {kind : String} {r r' : Reader} {size : Nat}
    (h : (readContainerSize kind).run r = (.ok size, r')) : size ≤ maxContainerElements := by
  unfold readContainerSize at h
  rw [run_bind] at h
  split at h
  · rename_i n r'' _
    by_cases hneg : n < 0
    · rw [if_pos hneg] at h
      cases h
    · by_cases hmax : maxContainerElements < n.toInt.toNat
      · rw [if_neg hneg, if_pos hmax] at h
        cases h
      · rw [if_neg hneg, if_neg hmax] at h
        cases h
        exact Nat.le_of_not_lt hmax
  · cases h

theorem uses_counted {body : ReaderM Unit} (h : Uses (· ≤ maxContainerElements) body)
    (kind : String) : Uses (· ≤ maxContainerElements) (do
      let size ← readContainerSize kind
      useSize size
      Reader.times body size) :=
  (uses_readContainerSize kind).bind_of fun _ _ _ hsize =>
    (uses_useSize (P := (· ≤ maxContainerElements)) (readContainerSize_le hsize)).bind fun _ =>
      h.times _

theorem uses_skipAtDepth (fuel : Nat) (fieldType : UInt8) (depth : Nat) :
    Uses (· ≤ maxContainerElements) (skipAtDepth fuel fieldType depth) := by
  induction fuel generalizing fieldType depth with
  | zero => exact uses_throw _
  | succ fuel ih =>
    have hleaf {α : Type} {m : ReaderM α} (h : Uses (· ≤ maxContainerElements) m) :
        Uses (· ≤ maxContainerElements) (do let _ ← m; return : ReaderM Unit) :=
      h.bind fun _ => uses_pure _
    refine (uses_checkDepth depth).bind fun _ => .ite (uses_error _) ?_
    refine .ite (hleaf uses_readU8) <| .ite (hleaf uses_readI16) <| .ite (hleaf uses_readI32) <|
      .ite (hleaf uses_readI64) <| .ite (hleaf uses_readDouble) <| .ite (hleaf uses_readBinary) ?_
    refine .ite ((uses_checkDepth _).bind fun _ => .readFields (fun _ _ _ => ih _ _) _) ?_
    refine .ite ?_ <| .ite ?_ (uses_error _)
    · refine (uses_readContainerElementType _).bind fun keyType => ?_
      refine (uses_readContainerElementType _).bind fun valueType => ?_
      exact uses_counted ((ih keyType _).bind fun _ => ih valueType _) _
    · refine (uses_readContainerElementType _).bind fun elementType => ?_
      exact uses_counted (ih elementType _) _

theorem uses_skip (fieldType : UInt8) : Uses (· ≤ maxContainerElements) (skip fieldType) :=
  uses_skipAtDepth _ _ _

theorem uses_skipRemainingStructFields :
    Uses (· ≤ maxContainerElements) skipRemainingStructFields :=
  (uses_checkDepth _).bind fun _ => .readFields (fun _ _ _ => uses_skipAtDepth _ _ _) _

/-- A list of integers uses the size that it declares. -/
theorem uses_readI32List : Uses (fun _ => True) readI32List := by
  refine uses_readU8.bind fun elementType => uses_readI32.bind fun len => .ite (uses_error _) ?_
  refine .ite ?_ ?_
  · refine (uses_useSize trivial).bind fun _ => ?_
    exact (((uses_skip _).mono fun _ _ => trivial).times _).bind fun _ => uses_pure _
  · exact (uses_useSize trivial).bind fun _ => uses_readI32.collect _

end

/-! ## Requests -/

section
variable {α : Type} {P : Nat → Prop} (hskip : ∀ fieldType, Uses P (skip fieldType))
include hskip

theorem uses_readHandleIdentifier : Uses P readHandleIdentifier := by
  refine (Uses.readFields (fun fieldType fieldId (guid, secret) => ?_) _).bind fun _ => uses_pure _
  refine .ite (uses_readBinary.bind fun _ => uses_pure _) <|
    .ite (uses_readBinary.bind fun _ => uses_pure _) ?_
  exact (hskip _).bind fun _ => uses_pure _

theorem uses_readFirstField {read : ReaderM (Option α)} (h : Uses P read) :
    Uses P (readFirstField read) :=
  .readFields (fun _ _ _ => .ite h ((hskip _).bind fun _ => uses_pure _)) _

theorem uses_readSessionHandle : Uses P readSessionHandle :=
  uses_readFirstField hskip (uses_readHandleIdentifier hskip)

theorem uses_readNamespace : Uses P readNamespace := by
  refine .readFields (fun fieldType fieldId (catalog, schema) => ?_) _
  refine .ite (uses_readString.bind fun _ => uses_pure _) <|
    .ite (uses_readString.bind fun _ => uses_pure _) ?_
  exact (hskip _).bind fun _ => uses_pure _

theorem uses_readCloseSessionReq : Uses P readCloseSessionReq :=
  uses_readFirstField hskip (uses_readSessionHandle hskip)

theorem uses_readGetInfoReq : Uses P readGetInfoReq := by
  refine (Uses.readFields (fun fieldType fieldId (sessionHandle, infoType) => ?_) _).bind
    fun _ => uses_pure _
  refine .ite ((uses_readSessionHandle hskip).bind fun _ => uses_pure _) <|
    .ite (uses_readI32.bind fun _ => uses_pure _) ?_
  exact (hskip _).bind fun _ => uses_pure _

theorem uses_readGetColumnsReq : Uses P readGetColumnsReq := by
  refine .readFields (fun fieldType fieldId request => ?_) _
  refine .ite ((uses_readSessionHandle hskip).bind fun _ => uses_pure _) <|
    .ite (uses_readString.bind fun _ => uses_pure _) <|
    .ite (uses_readString.bind fun _ => uses_pure _) <|
    .ite (uses_readString.bind fun _ => uses_pure _) <|
    .ite (uses_readString.bind fun _ => uses_pure _) ?_
  exact (hskip _).bind fun _ => uses_pure _

theorem uses_readExecuteStatementReq : Uses P readExecuteStatementReq := by
  refine (Uses.readFields (fun fieldType fieldId (sessionHandle, statement) => ?field) _).bind
    fun (sessionHandle, statement) => ?_
  case field =>
    refine .ite ((uses_readSessionHandle hskip).bind fun _ => uses_pure _) <|
      .ite (uses_readString.bind fun _ => uses_pure _) ?_
    exact (hskip _).bind fun _ => uses_pure _
  cases statement with
  | some statement => exact uses_pure _
  | none => exact uses_error _

theorem uses_readOperationReq : Uses P readOperationReq :=
  uses_readFirstField hskip (uses_readSessionHandle hskip)

theorem uses_readFetchResultsReq : Uses P readFetchResultsReq := by
  refine .readFields (fun fieldType fieldId request => ?_) _
  refine .ite ((uses_readSessionHandle hskip).bind fun _ => uses_pure _) <|
    .ite (uses_readI64.bind fun _ => uses_pure _) <|
    .ite (uses_readI64.bind fun _ => uses_pure _) ?_
  exact (hskip _).bind fun _ => uses_pure _

theorem uses_readArgs {parseReq : ReaderM α} (h : Uses P parseReq)
    (hrest : Uses P skipRemainingStructFields) : Uses P (readArgs parseReq) := by
  have hloop (fuel : Nat) : Uses P (argsLoop parseReq fuel) := by
    induction fuel with
    | zero => exact uses_throw _
    | succ fuel ih =>
      refine uses_readFieldBegin.bind fun _ => .ite (uses_error _) <| .ite ?_ ?_
      · exact h.bind fun _ => hrest.bind fun _ => uses_pure _
      · exact (hskip _).bind fun _ => ih
  exact uses_loopFuel.bind fun _ => hloop _

end

/-- The sizes that an open session request uses. -/
theorem uses_openSessionField (fieldType : UInt8) (fieldId : Int16) (request : OpenSessionReq) :
    Uses (fun _ => True) (openSessionField fieldType fieldId request) := by
  have hskip (fieldType : UInt8) : Uses (fun _ => True) (skip fieldType) :=
    (uses_skip fieldType).mono fun _ _ => trivial
  refine .ite (uses_readI32List.bind fun _ => uses_pure _) <|
    .ite ((uses_readNamespace hskip).bind fun _ => uses_pure _) ?_
  exact (hskip _).bind fun _ => uses_pure _

/-- The calls of all other methods only use sizes that were checked. -/
theorem uses_readCall {name : String} (hname : name ≠ "OpenSession") {m : ReaderM RpcCall}
    (h : readCall name = some m) : Uses (· ≤ maxContainerElements) m := by
  have hargs {α : Type} {parseReq : ReaderM α} (h : Uses (· ≤ maxContainerElements) parseReq) :=
    uses_readArgs uses_skip h uses_skipRemainingStructFields
  have hoperation := hargs (uses_readOperationReq uses_skip)
  unfold readCall at h
  split at h
  case h_1 => exact absurd rfl hname
  case h_2 =>
    cases h
    exact (hargs (uses_readCloseSessionReq uses_skip)).bind fun _ => uses_pure _
  case h_3 =>
    cases h
    exact (hargs (uses_readGetInfoReq uses_skip)).bind fun _ => uses_pure _
  case h_4 =>
    cases h
    exact (hargs (uses_readGetColumnsReq uses_skip)).bind fun _ => uses_pure _
  case h_5 =>
    cases h
    exact (hargs (uses_readExecuteStatementReq uses_skip)).bind fun _ => uses_pure _
  case h_9 =>
    cases h
    exact (hargs (uses_readFetchResultsReq uses_skip)).bind fun _ => uses_pure _
  case h_12 => cases h
  all_goals
    cases h
    exact hoperation.bind fun _ => uses_pure _

theorem uses_decodeMessage {P : Nat → Prop} : Uses P decodeMessage := by
  refine uses_readI32.bind fun _ => .ite (uses_error _) ?_
  refine uses_readString.bind fun _ => uses_readI32.bind fun _ => uses_get.bind fun _ => ?_
  exact (uses_slice _ _ _).bind fun _ => uses_pure _

end Reader
end HarborSql
