import HarborSql.Thrift.Codec

/-! The reader of Thrift messages (`thrift/codec.rs`). Indexing, slicing and adding two `usize`
fail where Rust panics, and a loop without a bound of its own fails when its fuel runs out. -/

namespace HarborSql

def maxContainerElements : Nat := 16384
def maxSkipDepth : Nat := 32

/-- `Reader`, and as history the container sizes that reserved memory or drove a loop. -/
structure Reader where
  buffer : Bytes
  position : Nat
  sizes : List Nat

def Reader.new (buffer : Bytes) : Reader := ⟨buffer, 0, []⟩

/-- Why a call did not return `Ok`. -/
inductive Fault where
  | error (e : HarborError)
  | panicked
  | diverged

/-- A function that takes `&mut Reader` and returns a `Result`. -/
abbrev ReaderM := ExceptT Fault (StateM Reader)

namespace Reader

def thriftError {α : Type} (message : String) : ReaderM α := throw (.error (.thrift message))

/-- `bytes[i]`. -/
def index (bytes : Bytes) (i : Nat) : ReaderM UInt8 :=
  match bytes[i]? with
  | some b => pure b
  | none => throw .panicked

/-- `bytes[start..stop]`. -/
def slice (bytes : Bytes) (start stop : Nat) : ReaderM Bytes :=
  if start ≤ stop ∧ stop ≤ bytes.length then pure ((bytes.drop start).take (stop - start))
  else throw .panicked

def addUsize (left right : Nat) : ReaderM Nat :=
  if left + right < 2 ^ 64 then pure (left + right) else throw .panicked

/-! ## Primitives -/

def readU8 : ReaderM UInt8 := do
  let reader ← get
  if reader.buffer.length ≤ reader.position then thriftError "unexpected end of message"
  else do
    let value ← index reader.buffer reader.position
    let position ← addUsize reader.position 1
    modify fun reader => { reader with position }
    return value

def readExact (len : Nat) : ReaderM Bytes := do
  let reader ← get
  let stop ← addUsize reader.position len
  if reader.buffer.length < stop then thriftError "unexpected end of message"
  else do
    let bytes ← slice reader.buffer reader.position stop
    modify fun reader => { reader with position := stop }
    return bytes

/-- `from_be_bytes([bytes[0], .., bytes[n - 1]])` of the next `n` bytes. -/
def readBeBytes (n : Nat) : ReaderM Nat := do
  let bytes ← readExact n
  let bytes ← (List.range n).mapM (index bytes)
  return ofBeBytes bytes

def readI16 : ReaderM Int16 := do return .ofBitVec (.ofNat 16 (← readBeBytes 2))

def readI32 : ReaderM Int32 := do return .ofBitVec (.ofNat 32 (← readBeBytes 4))

def readI64 : ReaderM Int64 := do return .ofBitVec (.ofNat 64 (← readBeBytes 8))

/-- The bits of the double. -/
def readDouble : ReaderM UInt64 := do return (← readI64).toUInt64

def readBinary : ReaderM Bytes := do
  let len ← readI32
  if len < 0 then thriftError "negative binary length" else readExact len.toInt.toNat

/-- The error does not repeat what `String::from_utf8` says. -/
def readString : ReaderM String := do
  let bytes ← readBinary
  match String.fromUTF8? ⟨bytes.toArray⟩ with
  | some value => return value
  | none => thriftError "invalid UTF-8 string"

def readFieldBegin : ReaderM (UInt8 × Int16) := do
  let fieldType ← readU8
  if fieldType = tStop then return (tStop, 0)
  else if validFieldType fieldType then do
    let fieldId ← readI16
    return (fieldType, fieldId)
  else thriftError s!"unsupported Thrift type \x60{fieldType}\x60"

/-! ## Loops -/

/-- `for _ in 0..n`. -/
def times (body : ReaderM Unit) : Nat → ReaderM Unit
  | 0 => pure ()
  | n + 1 => do
    body
    times body n

/-- `for _ in 0..n`, pushing what the body returns. -/
def collect {α : Type} (item : ReaderM α) : Nat → ReaderM (List α)
  | 0 => pure []
  | n + 1 => do
    let value ← item
    let values ← collect item n
    return value :: values

/-- The loop over the fields of a struct, up to its STOP; `field` is what the loop does with a
field whose type and id it has read. -/
def fieldLoop {σ : Type} (field : UInt8 → Int16 → σ → ReaderM σ) : Nat → σ → ReaderM σ
  | 0, _ => throw .diverged
  | fuel + 1, s => do
    let (fieldType, fieldId) ← readFieldBegin
    if fieldType = tStop then return s
    else do
      let s ← field fieldType fieldId s
      fieldLoop field fuel s

/-- Every turn of a loop over fields reads a byte. -/
def loopFuel : ReaderM Nat := do
  let reader ← get
  return reader.buffer.length - reader.position + 1

def readFields {σ : Type} (field : UInt8 → Int16 → σ → ReaderM σ) (s : σ) : ReaderM σ := do
  fieldLoop field (← loopFuel) s

/-- A container size is about to reserve memory or drive a loop. -/
def useSize (size : Nat) : ReaderM Unit :=
  modify fun reader => { reader with sizes := size :: reader.sizes }

/-! ## Skipping -/

def checkDepth (depth : Nat) : ReaderM Unit :=
  if maxSkipDepth < depth then
    thriftError s!"Thrift nesting depth exceeds maximum of {maxSkipDepth}"
  else pure ()

def readContainerElementType (position : String) : ReaderM UInt8 := do
  let elementType ← readU8
  if validFieldType elementType then return elementType
  else thriftError s!"invalid Thrift {position} type \x60{elementType}\x60"

def readContainerSize (kind : String) : ReaderM Nat := do
  let size ← readI32
  if size < 0 then thriftError s!"negative {kind} size"
  else if maxContainerElements < size.toInt.toNat then
    thriftError s!"Thrift {kind} size exceeds maximum of {maxContainerElements}"
  else return size.toInt.toNat

def skipRemainingStructFieldsAtDepth (skipAtDepth : UInt8 → Nat → ReaderM Unit) (depth : Nat) :
    ReaderM Unit := do
  checkDepth depth
  readFields (fun fieldType _ _ => skipAtDepth fieldType (depth + 1)) ()

def skipAtDepth : Nat → UInt8 → Nat → ReaderM Unit
  | 0, _, _ => throw .diverged
  | fuel + 1, fieldType, depth => do
    checkDepth depth
    if fieldType = tStop then thriftError "invalid Thrift STOP type in value position"
    else if fieldType = tBool ∨ fieldType = tByte then do let _ ← readU8; return
    else if fieldType = tI16 then do let _ ← readI16; return
    else if fieldType = tI32 then do let _ ← readI32; return
    else if fieldType = tI64 then do let _ ← readI64; return
    else if fieldType = tDouble then do let _ ← readDouble; return
    else if fieldType = tString then do let _ ← readBinary; return
    else if fieldType = tStruct then
      skipRemainingStructFieldsAtDepth (skipAtDepth fuel) (depth + 1)
    else if fieldType = tMap then do
      let keyType ← readContainerElementType "map key"
      let valueType ← readContainerElementType "map value"
      let size ← readContainerSize "map"
      useSize size
      times (do skipAtDepth fuel keyType (depth + 1); skipAtDepth fuel valueType (depth + 1)) size
    else if fieldType = tList ∨ fieldType = tSet then do
      let elementType ← readContainerElementType "list/set element"
      let size ← readContainerSize "list/set"
      useSize size
      times (skipAtDepth fuel elementType (depth + 1)) size
    else thriftError s!"unsupported Thrift type \x60{fieldType}\x60"

/-- The calls nest once for each level up to the first that `check_depth` refuses. -/
def skipFuel : Nat := maxSkipDepth + 2

def skip (fieldType : UInt8) : ReaderM Unit := skipAtDepth skipFuel fieldType 0

def skipRemainingStructFields : ReaderM Unit :=
  skipRemainingStructFieldsAtDepth (skipAtDepth skipFuel) 0

end Reader
end HarborSql
