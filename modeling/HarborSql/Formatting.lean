import Mathlib.Algebra.Group.Nat.Defs
import HarborSql.Temporal

/-! The text forms of values: those of `serde_json`, and the formatters of `arrow`, `chrono` and
the standard library that stay parameters. -/

namespace HarborSql

/-- The formatters of other crates. -/
structure Formatting where
  /-- `Display` of a data type. -/
  dataTypeToString : DataType → String
  /-- `array_value_to_string`, of the type of an array and one of its elements. -/
  arrayValueToString : DataType → Value → Except String String
  /-- Whether `arrow` can parse the text of a time zone. -/
  parsesTimezone : String → Bool
  /-- `Display` of a double, given by its bits. -/
  f64ToString : UInt64 → String
  /-- `Display` of a date, in days since the epoch. -/
  dateToString : Int → String
  dateTimeToString : NaiveDateTime → String

/-- What the encoder relies on: `array_value_to_string` reports a value that it cannot render in
the text itself, and fails only for a time zone that it cannot parse. -/
structure Formatting.Lawful (F : Formatting) : Prop where
  date32 : ∀ v, ∃ s, F.arrayValueToString .date32 (.date32 v) = .ok s
  date64 : ∀ v, ∃ s, F.arrayValueToString .date64 (.date64 v) = .ok s
  timestamp : ∀ unit v, ∃ s, F.arrayValueToString (.timestamp unit none) (.timestamp unit v) = .ok s
  timestamp_tz : ∀ unit tz v,
    (∃ s, F.arrayValueToString (.timestamp unit (some tz)) (.timestamp unit v) = .ok s) ↔
      F.parsesTimezone tz
  decimal128 : ∀ p s v, ∃ t, F.arrayValueToString (.decimal128 p s) (.decimal v) = .ok t
  decimal256 : ∀ p s v, ∃ t, F.arrayValueToString (.decimal256 p s) (.decimal v) = .ok t

/-! ## JSON -/

def hexDigit (n : Nat) : Char := "0123456789abcdef".toList.getD n '0'

/-- The escapes of `serde_json`. -/
def escapeChar (c : Char) : String :=
  match c.toNat with
  | 0x08 => "\\b"
  | 0x09 => "\\t"
  | 0x0a => "\\n"
  | 0x0c => "\\f"
  | 0x0d => "\\r"
  | 0x22 => "\\\x22"
  | 0x5c => "\\\\"
  | n => if n < 0x20 then "\\u00" ++ .ofList [hexDigit (n / 16), hexDigit (n % 16)] else c.toString

/-- `serde_json::to_string` of a string. -/
def jsonString (s : String) : String := "\x22" ++ .join (s.toList.map escapeChar) ++ "\x22"

/-- `serde_json::to_string` of bytes: an array of numbers. -/
def jsonBytes (bytes : List UInt8) : String :=
  "[" ++ ",".intercalate (bytes.map fun b => toString b.toNat) ++ "]"

/-! ## Floats -/

/-- The double equal to a float, on bits. -/
def f64FromF32 (bits : UInt32) : UInt64 :=
  let sign := bits.toNat / 2 ^ 31
  let exponent := bits.toNat / 2 ^ 23 % 2 ^ 8
  let fraction := bits.toNat % 2 ^ 23
  let double (exponent fraction : Nat) : UInt64 :=
    .ofNat (sign * 2 ^ 63 + exponent * 2 ^ 52 + fraction)
  if exponent = 255 then double 2047 (fraction * 2 ^ 29)
  else if exponent = 0 then
    if fraction = 0 then double 0 0
    else
      -- a subnormal float is a normal double
      let k := fraction.log2
      double (k + 874) ((fraction - 2 ^ k) * 2 ^ (52 - k))
  else double (exponent + 896) (fraction * 2 ^ 29)

end HarborSql
