import HarborSql.Theory.Bytes

/-! Values of the Thrift binary protocol: their encoding, a decoder, and the round trip. A bool
and a byte are kept as the byte on the wire. -/

namespace HarborSql.Thrift

/-- The types of values. -/
inductive Ty where
  | bool | byte | double | i16 | i32 | i64 | string | struct | map | set | list
  deriving DecidableEq

namespace Ty

def code : Ty → UInt8
  | bool => 2 | byte => 3 | double => 4 | i16 => 6 | i32 => 8 | i64 => 10 | string => 11
  | struct => 12 | map => 13 | set => 14 | list => 15

def ofCode (b : UInt8) : Option Ty :=
  [bool, byte, double, i16, i32, i64, string, struct, map, set, list].find? (·.code == b)

@[simp] theorem ofCode_code (t : Ty) : ofCode t.code = some t := by cases t <;> rfl

theorem code_ne_stop (t : Ty) : t.code ≠ 0 := by cases t <;> decide

end Ty

inductive Value where
  | bool (byte : UInt8)
  | byte (byte : UInt8)
  | double (bits : UInt64)
  | i16 (v : Int16)
  | i32 (v : Int32)
  | i64 (v : Int64)
  | string (bytes : List UInt8)
  | struct (fields : List (Int16 × Value))
  | map (key value : Ty) (entries : List (Value × Value))
  | set (element : Ty) (values : List Value)
  | list (element : Ty) (values : List Value)

/-! ## Encoding -/

def encodeI16 (v : Int16) : List UInt8 := beBytes 2 v.toBitVec.toNat
def encodeI32 (v : Int32) : List UInt8 := beBytes 4 v.toBitVec.toNat
def encodeI64 (v : Int64) : List UInt8 := beBytes 8 v.toBitVec.toNat

/-- The size of a string or a container. -/
def encodeSize (n : Nat) : List UInt8 := encodeI32 (Int32.ofNat n)

namespace Value

def ty : Value → Ty
  | bool _ => .bool | byte _ => .byte | double _ => .double | i16 _ => .i16 | i32 _ => .i32
  | i64 _ => .i64 | string _ => .string | struct _ => .struct | map .. => .map | set .. => .set
  | list .. => .list

mutual

def encode : Value → List UInt8
  | bool b | byte b => [b]
  | double bits => beBytes 8 bits.toNat
  | i16 v => encodeI16 v
  | i32 v => encodeI32 v
  | i64 v => encodeI64 v
  | string bytes => encodeSize bytes.length ++ bytes
  | struct fields => encodeFields fields
  | map k v entries => k.code :: v.code :: (encodeSize entries.length ++ encodeEntries entries)
  | set t values | list t values => t.code :: (encodeSize values.length ++ encodeList values)

def encodeFields : List (Int16 × Value) → List UInt8
  | [] => [0]
  | (id, v) :: fields => v.ty.code :: (encodeI16 id ++ (encode v ++ encodeFields fields))

def encodeEntries : List (Value × Value) → List UInt8
  | [] => []
  | (k, v) :: entries => encode k ++ (encode v ++ encodeEntries entries)

def encodeList : List Value → List UInt8
  | [] => []
  | v :: values => encode v ++ encodeList values

end

/-- The sizes fit their fields, and the elements of a container have its element type. -/
inductive WF : Value → Prop
  | bool {b} : WF (bool b)
  | byte {b} : WF (byte b)
  | double {bits} : WF (double bits)
  | i16 {v} : WF (i16 v)
  | i32 {v} : WF (i32 v)
  | i64 {v} : WF (i64 v)
  | string {bytes} : bytes.length < 2 ^ 31 → WF (string bytes)
  | struct {fields} : (∀ f ∈ fields, WF f.2) → WF (struct fields)
  | map {k v entries} : entries.length < 2 ^ 31 → (∀ e ∈ entries, e.1.ty = k ∧ e.2.ty = v) →
    (∀ e ∈ entries, WF e.1) → (∀ e ∈ entries, WF e.2) → WF (map k v entries)
  | set {t values} : values.length < 2 ^ 31 → (∀ v ∈ values, v.ty = t) → (∀ v ∈ values, WF v) →
    WF (set t values)
  | list {t values} : values.length < 2 ^ 31 → (∀ v ∈ values, v.ty = t) → (∀ v ∈ values, WF v) →
    WF (list t values)

end Value

/-! ## Decoding -/

/-- The first `n` bytes and the rest. -/
def takeBytes (n : Nat) (bs : List UInt8) : Option (List UInt8 × List UInt8) :=
  if n ≤ bs.length then some (bs.take n, bs.drop n) else none

def decodeU8 : List UInt8 → Option (UInt8 × List UInt8)
  | [] => none
  | b :: bs => some (b, bs)

def decodeTy (bs : List UInt8) : Option (Ty × List UInt8) := do
  let (code, bs) ← decodeU8 bs
  let ty ← Ty.ofCode code
  return (ty, bs)

/-- An integer of `n` bytes. -/
def decodeNat (n : Nat) (bs : List UInt8) : Option (Nat × List UInt8) :=
  (takeBytes n bs).map fun (front, bs) => (ofBeBytes front, bs)

def decodeI16 (bs : List UInt8) : Option (Int16 × List UInt8) :=
  (decodeNat 2 bs).map fun (n, bs) => (.ofBitVec (.ofNat 16 n), bs)

def decodeI32 (bs : List UInt8) : Option (Int32 × List UInt8) :=
  (decodeNat 4 bs).map fun (n, bs) => (.ofBitVec (.ofNat 32 n), bs)

def decodeI64 (bs : List UInt8) : Option (Int64 × List UInt8) :=
  (decodeNat 8 bs).map fun (n, bs) => (.ofBitVec (.ofNat 64 n), bs)

/-- A size is not negative. -/
def decodeSize (bs : List UInt8) : Option (Nat × List UInt8) := do
  let (size, bs) ← decodeI32 bs
  if 0 ≤ size.toInt then some (size.toInt.toNat, bs) else none

section
variable {α : Type} (item : List UInt8 → Option (α × List UInt8))

/-- Two items, one after the other. -/
def decodePair {β : Type} (other : List UInt8 → Option (β × List UInt8)) (bs : List UInt8) :
    Option ((α × β) × List UInt8) := do
  let (x, bs) ← item bs
  let (y, bs) ← other bs
  return ((x, y), bs)

/-- A counted run of items. -/
def decodeMany : Nat → List UInt8 → Option (List α × List UInt8)
  | 0, bs => some ([], bs)
  | n + 1, bs => do
    let (x, bs) ← item bs
    let (xs, bs) ← decodeMany n bs
    return (x :: xs, bs)

/-- Fields up to the stop byte. -/
def decodeFields (value : Ty → List UInt8 → Option (α × List UInt8)) :
    Nat → List UInt8 → Option (List (Int16 × α) × List UInt8)
  | 0, _ => none
  | n + 1, bs => do
    let (code, bs) ← decodeU8 bs
    if code = 0 then return ([], bs)
    let ty ← Ty.ofCode code
    let (id, bs) ← decodeI16 bs
    let (v, bs) ← value ty bs
    let (fields, bs) ← decodeFields value n bs
    return ((id, v) :: fields, bs)

end

namespace Value

/-- A value of at most `fuel` bytes. -/
def decodeFuel : Nat → Ty → List UInt8 → Option (Value × List UInt8)
  | 0, _, _ => none
  | fuel + 1, ty, bs =>
    match ty with
    | .bool => (decodeU8 bs).map fun (b, bs) => (bool b, bs)
    | .byte => (decodeU8 bs).map fun (b, bs) => (byte b, bs)
    | .double => (decodeNat 8 bs).map fun (n, bs) => (double (.ofNat n), bs)
    | .i16 => (decodeI16 bs).map fun (v, bs) => (i16 v, bs)
    | .i32 => (decodeI32 bs).map fun (v, bs) => (i32 v, bs)
    | .i64 => (decodeI64 bs).map fun (v, bs) => (i64 v, bs)
    | .string => do
      let (n, bs) ← decodeSize bs
      let (bytes, bs) ← takeBytes n bs
      return (string bytes, bs)
    | .struct => (decodeFields (decodeFuel fuel) bs.length bs).map fun (fs, bs) => (struct fs, bs)
    | .map => do
      let (k, bs) ← decodeTy bs
      let (v, bs) ← decodeTy bs
      let (n, bs) ← decodeSize bs
      let (entries, bs) ← decodeMany (decodePair (decodeFuel fuel k) (decodeFuel fuel v)) n bs
      return (map k v entries, bs)
    | .set => do
      let (t, bs) ← decodeTy bs
      let (n, bs) ← decodeSize bs
      let (values, bs) ← decodeMany (decodeFuel fuel t) n bs
      return (set t values, bs)
    | .list => do
      let (t, bs) ← decodeTy bs
      let (n, bs) ← decodeSize bs
      let (values, bs) ← decodeMany (decodeFuel fuel t) n bs
      return (list t values, bs)

/-- The value of a type in front of the bytes, and the bytes after it. -/
def decode (ty : Ty) (bs : List UInt8) : Option (Value × List UInt8) := decodeFuel bs.length ty bs

end Value

/-! ## The round trip -/

theorem takeBytes_append {n : Nat} {front rest : List UInt8} (h : front.length = n) :
    takeBytes n (front ++ rest) = some (front, rest) := by
  subst h
  simp [takeBytes]

theorem decodeNat_beBytes (n x : Nat) (rest : List UInt8) :
    decodeNat n (beBytes n x ++ rest) = some (x % 256 ^ n, rest) := by
  simp [decodeNat, takeBytes_append (beBytes_length n x), ofBeBytes_beBytes]

@[simp] theorem decodeTy_code (t : Ty) (rest : List UInt8) :
    decodeTy (t.code :: rest) = some (t, rest) := by
  simp [decodeTy, decodeU8]

@[simp] theorem decodeI16_encodeI16 (v : Int16) (rest : List UInt8) :
    decodeI16 (encodeI16 v ++ rest) = some (v, rest) := by
  have h := v.toBitVec.isLt
  simp [decodeI16, encodeI16, decodeNat_beBytes, Nat.mod_eq_of_lt h]

@[simp] theorem decodeI32_encodeI32 (v : Int32) (rest : List UInt8) :
    decodeI32 (encodeI32 v ++ rest) = some (v, rest) := by
  have h := v.toBitVec.isLt
  simp [decodeI32, encodeI32, decodeNat_beBytes, Nat.mod_eq_of_lt h]

@[simp] theorem decodeI64_encodeI64 (v : Int64) (rest : List UInt8) :
    decodeI64 (encodeI64 v ++ rest) = some (v, rest) := by
  have h := v.toBitVec.isLt
  simp [decodeI64, encodeI64, decodeNat_beBytes, Nat.mod_eq_of_lt h]

theorem decodeSize_encodeSize {n : Nat} (h : n < 2 ^ 31) (rest : List UInt8) :
    decodeSize (encodeSize n ++ rest) = some (n, rest) := by
  have hn : (Int32.ofNat n).toInt = n := Int32.toInt_ofNat_of_lt h
  simp [decodeSize, encodeSize, hn, -Int32.toNat_toInt]

theorem decodeMany_succ {α : Type} (item : List UInt8 → Option (α × List UInt8)) (n : Nat) :
    decodeMany item (n + 1) = fun bs => (item bs).bind fun (x, bs) =>
      (decodeMany item n bs).map fun (xs, bs) => (x :: xs, bs) := by
  funext bs
  simp [decodeMany, Option.map_eq_bind]

/-- A counted run decodes if each of its items does. -/
theorem decodeMany_append {α : Type} {item : List UInt8 → Option (α × List UInt8)}
    {encode : α → List UInt8} {xs : List α}
    (h : ∀ x ∈ xs, ∀ rest, item (encode x ++ rest) = some (x, rest)) (rest : List UInt8) :
    decodeMany item xs.length (xs.flatMap encode ++ rest) = some (xs, rest) := by
  induction xs with
  | nil => rfl
  | cons x xs ih =>
    have ih := ih fun y hy => h y (List.mem_cons_of_mem _ hy)
    simp [decodeMany, List.append_assoc, h x List.mem_cons_self, ih]

namespace Value

theorem encodeList_eq (values : List Value) : encodeList values = values.flatMap encode := by
  induction values with
  | nil => rfl
  | cons v values ih => rw [encodeList, ih, List.flatMap_cons]

theorem encodeEntries_eq (entries : List (Value × Value)) :
    encodeEntries entries = entries.flatMap fun e => encode e.1 ++ encode e.2 := by
  induction entries with
  | nil => rfl
  | cons e entries ih => rw [encodeEntries, ih, List.flatMap_cons, List.append_assoc]

/-- A field's value is at least three bytes shorter than the fields. -/
theorem encode_lt_of_mem_fields {f : Int16 × Value} {fields : List (Int16 × Value)}
    (h : f ∈ fields) : (encode f.2).length < (encodeFields fields).length := by
  induction fields with
  | nil => cases h
  | cons g fields ih =>
    rw [encodeFields]
    simp only [List.length_cons, List.length_append]
    rcases List.mem_cons.mp h with rfl | h
    · omega
    · have := ih h
      omega

theorem length_lt_encodeFields (fields : List (Int16 × Value)) :
    fields.length < (encodeFields fields).length := by
  induction fields with
  | nil => simp [encodeFields]
  | cons f fields ih =>
    rw [encodeFields]
    simp only [List.length_cons, List.length_append]
    omega

/-- Fields decode if each of their values does. -/
theorem decodeFields_encodeFields {value : Ty → List UInt8 → Option (Value × List UInt8)}
    {fields : List (Int16 × Value)}
    (h : ∀ f ∈ fields, ∀ rest, value f.2.ty (encode f.2 ++ rest) = some (f.2, rest))
    {n : Nat} (hn : fields.length < n) (rest : List UInt8) :
    decodeFields value n (encodeFields fields ++ rest) = some (fields, rest) := by
  induction fields generalizing n with
  | nil =>
    obtain ⟨n, rfl⟩ := Nat.exists_eq_succ_of_ne_zero (Nat.ne_zero_of_lt hn)
    simp [decodeFields, encodeFields, decodeU8]
  | cons f fields ih =>
    obtain ⟨n, rfl⟩ := Nat.exists_eq_succ_of_ne_zero (Nat.ne_zero_of_lt hn)
    have ih := ih (fun g hg => h g (List.mem_cons_of_mem _ hg)) (Nat.lt_of_succ_lt_succ hn)
    simp [decodeFields, encodeFields, decodeU8, Ty.code_ne_stop, List.append_assoc,
      h f List.mem_cons_self, ih]

theorem encode_length_pos (v : Value) : 0 < (encode v).length := by
  cases v with
  | struct fields => exact Nat.zero_lt_of_lt (length_lt_encodeFields fields)
  | _ => simp [encode, encodeI16, encodeI32, encodeI64, encodeSize]; try omega

/-- The encoding of an element is no longer than that of its list. -/
theorem length_le_of_mem_flatMap {α : Type} {f : α → List UInt8} {x : α} {xs : List α}
    (h : x ∈ xs) : (f x).length ≤ (xs.flatMap f).length := by
  induction xs with
  | nil => cases h
  | cons y xs ih =>
    rw [List.flatMap_cons, List.length_append]
    rcases List.mem_cons.mp h with rfl | h
    · omega
    · have := ih h
      omega

section
variable {fuel : Nat} (ih : ∀ {v : Value}, v.WF → (encode v).length ≤ fuel →
  ∀ rest, decodeFuel fuel v.ty (encode v ++ rest) = some (v, rest))
include ih

/-- The elements of a container decode with the fuel that is left. -/
theorem decodeMany_encode {t : Ty} {values : List Value} (ht : ∀ v ∈ values, v.ty = t)
    (h : ∀ v ∈ values, v.WF) (hlen : (values.flatMap encode).length ≤ fuel) (rest : List UInt8) :
    decodeMany (decodeFuel fuel t) values.length (values.flatMap encode ++ rest) =
      some (values, rest) := by
  refine decodeMany_append (fun v hv rest => ?_) rest
  rw [← ht v hv]
  exact ih (h v hv) (Nat.le_trans (length_le_of_mem_flatMap hv) hlen) rest

/-- The pairs of a map decode with the fuel that is left. -/
theorem decodeMany_decodePair_encode {k v : Ty} {entries : List (Value × Value)}
    (ht : ∀ e ∈ entries, e.1.ty = k ∧ e.2.ty = v) (hk : ∀ e ∈ entries, e.1.WF)
    (hv : ∀ e ∈ entries, e.2.WF)
    (hlen : (entries.flatMap fun e => encode e.1 ++ encode e.2).length ≤ fuel)
    (rest : List UInt8) :
    decodeMany (decodePair (decodeFuel fuel k) (decodeFuel fuel v)) entries.length
      ((entries.flatMap fun e => encode e.1 ++ encode e.2) ++ rest) = some (entries, rest) := by
  refine decodeMany_append (fun e he rest => ?_) rest
  have hle := Nat.le_trans
    (length_le_of_mem_flatMap (f := fun e : Value × Value => encode e.1 ++ encode e.2) he) hlen
  rw [List.length_append] at hle
  obtain ⟨rfl, rfl⟩ := ht e he
  rw [decodePair, List.append_assoc, ih (hk e he) (by omega)]
  simp only [Option.bind_eq_bind, Option.bind_some, ih (hv e he) (by omega)]
  rfl

/-- The fields of a struct decode with the fuel that is left. -/
theorem decodeFields_encode {fields : List (Int16 × Value)} (h : ∀ f ∈ fields, WF f.2)
    (hlen : (encodeFields fields).length ≤ fuel + 1) (rest : List UInt8) :
    decodeFields (decodeFuel fuel) (encodeFields fields ++ rest).length
      (encodeFields fields ++ rest) = some (fields, rest) := by
  refine decodeFields_encodeFields (fun f hf rest => ih (h f hf) ?_ rest) ?_ rest
  · have := encode_lt_of_mem_fields hf
    omega
  · have := length_lt_encodeFields fields
    rw [List.length_append]
    omega

end

theorem decodeFuel_map {fuel n : Nat} {k v : Ty} {bs bs' rest : List UInt8}
    {entries : List (Value × Value)} (hs : decodeSize bs = some (n, bs'))
    (h : decodeMany (decodePair (decodeFuel fuel k) (decodeFuel fuel v)) n bs' =
      some (entries, rest)) :
    decodeFuel (fuel + 1) .map (k.code :: v.code :: bs) = some (map k v entries, rest) := by
  simp only [decodeFuel, decodeTy_code, Option.bind_eq_bind, Option.bind_some, hs, h]
  rfl

theorem decodeFuel_set {fuel n : Nat} {t : Ty} {bs bs' rest : List UInt8} {values : List Value}
    (hs : decodeSize bs = some (n, bs'))
    (h : decodeMany (decodeFuel fuel t) n bs' = some (values, rest)) :
    decodeFuel (fuel + 1) .set (t.code :: bs) = some (set t values, rest) := by
  simp only [decodeFuel, decodeTy_code, Option.bind_eq_bind, Option.bind_some, hs, h]
  rfl

theorem decodeFuel_list {fuel n : Nat} {t : Ty} {bs bs' rest : List UInt8} {values : List Value}
    (hs : decodeSize bs = some (n, bs'))
    (h : decodeMany (decodeFuel fuel t) n bs' = some (values, rest)) :
    decodeFuel (fuel + 1) .list (t.code :: bs) = some (list t values, rest) := by
  simp only [decodeFuel, decodeTy_code, Option.bind_eq_bind, Option.bind_some, hs, h]
  rfl

theorem decodeFuel_encode {v : Value} (H : v.WF) {fuel : Nat} (hf : (encode v).length ≤ fuel)
    (rest : List UInt8) : decodeFuel fuel v.ty (encode v ++ rest) = some (v, rest) := by
  induction fuel generalizing v rest with
  | zero => exact absurd (encode_length_pos v) (by omega)
  | succ fuel ih =>
    cases H with
    | bool | byte => rfl
    | @double bits =>
      have h : bits.toNat % 256 ^ 8 = bits.toNat := Nat.mod_eq_of_lt bits.toNat_lt
      simp only [ty, encode, decodeFuel, decodeNat_beBytes, h, Option.map_some, UInt64.ofNat_toNat]
    | i16 | i32 | i64 => simp [decodeFuel, encode, ty]
    | string h =>
      simp [decodeFuel, encode, ty, List.append_assoc, decodeSize_encodeSize h, takeBytes_append]
    | @struct fields h =>
      rw [encode] at hf ⊢
      simp only [decodeFuel, ty, decodeFields_encode ih h hf, Option.map_some]
    | @map k v entries hn ht hk hv =>
      rw [encode, encodeEntries_eq] at hf ⊢
      simp only [List.length_cons, List.length_append] at hf
      simp only [List.cons_append, List.append_assoc]
      exact decodeFuel_map (decodeSize_encodeSize hn _)
        (decodeMany_decodePair_encode ih ht hk hv (by omega) rest)
    | @set t values hn ht h =>
      rw [encode, encodeList_eq] at hf ⊢
      simp only [List.length_cons, List.length_append] at hf
      simp only [List.cons_append, List.append_assoc]
      exact decodeFuel_set (decodeSize_encodeSize hn _) (decodeMany_encode ih ht h (by omega) rest)
    | @list t values hn ht h =>
      rw [encode, encodeList_eq] at hf ⊢
      simp only [List.length_cons, List.length_append] at hf
      simp only [List.cons_append, List.append_assoc]
      exact decodeFuel_list (decodeSize_encodeSize hn _) (decodeMany_encode ih ht h (by omega) rest)

/-- A well-formed value decodes from its encoding, whatever follows. -/
theorem decode_encode {v : Value} (H : v.WF) (rest : List UInt8) :
    decode v.ty (encode v ++ rest) = some (v, rest) :=
  decodeFuel_encode H (by simp) rest

end Value
end HarborSql.Thrift
