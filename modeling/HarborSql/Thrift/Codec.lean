import HarborSql.Theory.Thrift
import HarborSql.Error
import HarborSql.Thrift.Protocol

/-! The writer of Thrift messages (`thrift/codec.rs`). A function that writes to a `Writer` is the
bytes that it appends, and two calls in a row are `++`. Where a call fails the source discards
the writer, so a fallible function is the bytes or the error. -/

namespace HarborSql

abbrev Bytes := List UInt8

/-- The bytes of a string. -/
def utf8 (s : String) : Bytes := s.toUTF8.data.toList

theorem utf8_eq_flatMap (s : String) : utf8 s = s.toList.flatMap String.utf8EncodeChar := by
  have hbytes : s.toUTF8 = (s.toList.flatMap String.utf8EncodeChar).toByteArray :=
    String.utf8Encode_toList.symm
  rw [utf8, hbytes, List.data_toByteArray]

theorem fromUTF8?_eq_some {bytes : Bytes} {s : String} :
    String.fromUTF8? ⟨bytes.toArray⟩ = some s ↔ bytes = utf8 s := by
  constructor
  · intro h
    rw [String.fromUTF8?] at h
    split at h
    · cases h
      rfl
    · cases h
  · rintro rfl
    rw [utf8, Array.toArray_toList]
    exact dif_pos s.isValidUTF8

theorem fromUTF8?_utf8 (s : String) : String.fromUTF8? ⟨(utf8 s).toArray⟩ = some s :=
  fromUTF8?_eq_some.mpr rfl

abbrev Result := Except HarborError

namespace Writer

/-- `to_be_bytes` of an `i16`. -/
def writeI16 (value : Int16) : Bytes := Thrift.encodeI16 value

def writeI32 (value : Int32) : Bytes := Thrift.encodeI32 value

def writeI64 (value : Int64) : Bytes := Thrift.encodeI64 value

def writeBool (value : Bool) : Bytes := [value.toUInt8]

/-- A double is given by its bits. -/
def writeDouble (value : UInt64) : Bytes := beBytes 8 value.toNat

def writeBinary (value : Bytes) : Bytes := writeI32 (.ofNat value.length) ++ value

def writeString (value : String) : Bytes := writeBinary (utf8 value)

def writeField (fieldType : UInt8) (fieldId : Int16) (value : Bytes) : Bytes :=
  fieldType :: (writeI16 fieldId ++ value)

def writeFieldResult (fieldType : UInt8) (fieldId : Int16) (value : Result Bytes) :
    Result Bytes :=
  value.map (writeField fieldType fieldId)

def writeStop : Bytes := [tStop]

def writeListBegin (elementType : UInt8) (len : Nat) : Bytes :=
  elementType :: writeI32 (.ofNat len)

def writeMessageBegin (name : String) (messageType : UInt8) (seqid : Int32) : Bytes :=
  writeI32 (tBinaryVersion1 ||| messageType.toUInt32).toInt32 ++ writeString name ++ writeI32 seqid

end Writer
end HarborSql
