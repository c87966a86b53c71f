import HarborSql.Length
import HarborSql.Theory.Except

/-! `length` of scalars and of arrays: both count the characters of a string and the bytes of a
binary, but the path over scalars knows no dictionaries. -/

namespace HarborSql.Length

/-! ## Lengths -/

/-- The types with 64-bit offsets, whose lengths are `Int64`. -/
def isLong : DataType → Bool
  | .largeUtf8 | .largeBinary => true
  | .dictionary _ value => isLong value
  | _ => false

namespace Scalar

/-- The characters of a string or the bytes of a binary; a NULL has none. -/
def count : Scalar → Option Nat
  | utf8 value | utf8View value | largeUtf8 value => value.map String.length
  | binary value | binaryView value | fixedSizeBinary _ value | largeBinary value =>
    value.map List.length
  | dictionary _ value => value.count
  | _ => none

/-- The length fits the declared type. -/
def Fits (scalar : Scalar) : Prop :=
  ∀ n, scalar.count = some n → n < if isLong scalar.dataType then 2 ^ 63 else 2 ^ 31

/-- The length, in the declared type. -/
def lengthValue (scalar : Scalar) : Scalar :=
  if isLong scalar.dataType then .int64 (scalar.count.map .ofNat)
  else .int32 (scalar.count.map .ofNat)

end Scalar

/-- Every string of an array, also those that no key points to, has a length that fits. -/
def ArrayRef.Fits : ArrayRef → Prop
  | utf8 values | utf8View values => ∀ value, some value ∈ values → value.length < 2 ^ 31
  | largeUtf8 values => ∀ value, some value ∈ values → value.length < 2 ^ 63
  | dictionary _ _ values => values.Fits
  | _ => True

/-- The lengths of the values of an array that fit `bound`, in the places of the values. -/
structure ByteLengths {β : Type} (ofNat : Nat → β) (bound : Nat)
    (values : List (Option (List UInt8))) (lengths : List (Option β)) : Prop where
  length_eq : lengths.length = values.length
  getElem? : ∀ (i : Nat) (value : Option (List UInt8)), values[i]? = some value →
    (∀ v, value = some v → v.length < bound) →
    lengths[i]? = some (value.map fun v => ofNat v.length)

/-- What `length` relies on: the kernel of `arrow` gives the lengths in bytes, as `Int32` or, of a
`LargeBinary`, as `Int64`, and `take` gathers by key. -/
structure Crates.Lawful (crates : Crates) : Prop where
  binary : ∀ values, ∃ lengths, crates.length (.binary values) = .ok (.int32 lengths) ∧
    ByteLengths Int32.ofNat (2 ^ 31) values lengths
  binaryView : ∀ values, ∃ lengths, crates.length (.binaryView values) = .ok (.int32 lengths) ∧
    ByteLengths Int32.ofNat (2 ^ 31) values lengths
  fixedSizeBinary : ∀ size values, ∃ lengths,
    crates.length (.fixedSizeBinary size values) = .ok (.int32 lengths) ∧
    ByteLengths Int32.ofNat (2 ^ 31) values lengths
  largeBinary : ∀ values, ∃ lengths, crates.length (.largeBinary values) = .ok (.int64 lengths) ∧
    ByteLengths Int64.ofNat (2 ^ 63) values lengths
  take_int32 : ∀ values keys, (∀ key ∈ keys, ∀ k, key = some k → k < values.length) →
    crates.take (.int32 values) keys =
      .ok (.int32 (keys.map fun key => key.bind fun k => values[k]?.join))
  take_int64 : ∀ values keys, (∀ key ∈ keys, ∀ k, key = some k → k < values.length) →
    crates.take (.int64 values) keys =
      .ok (.int64 (keys.map fun key => key.bind fun k => values[k]?.join))

variable {crates : Crates}

/-! ## Types -/

theorem lengthReturnType_eq_ok {dataType type : DataType} :
    lengthReturnType crates dataType = .ok type ↔
      accepts dataType ∧ type = if isLong dataType then .int64 else .int32 := by
  induction dataType using lengthReturnType.induct with
  | case9 key value ih => rw [lengthReturnType, ih, accepts, isLong]
  | case10 dataType =>
    rw [lengthReturnType.eq_10]
    · refine ⟨nofun, fun h => ?_⟩
      cases dataType <;> simp_all [accepts]
    all_goals assumption
  | _ => simp [lengthReturnType, accepts, isLong, eq_comm]

/-! ## Scalars -/

theorem countI32_eq {count : Nat} (h : count < 2 ^ 31) : countI32 count = .ok (.ofNat count) :=
  if_pos h

theorem countI64_eq {count : Nat} (h : count < 2 ^ 63) : countI64 count = .ok (.ofNat count) :=
  if_pos h

theorem optionalCount_eq {α β : Type} {count : α → Except DataFusionError β} {f : α → β}
    {value : Option α} (h : ∀ v, value = some v → count v = .ok (f v)) :
    optionalCount count value = .ok (value.map f) := by
  cases value with
  | none => rfl
  | some v =>
    rw [optionalCount, h v rfl]
    rfl

/-- A scalar that is no dictionary has the length of its value. -/
theorem lengthScalar_eq {scalar : Scalar} (haccepts : accepts scalar.dataType)
    (hfits : scalar.Fits) (hplain : ∀ key value, scalar ≠ .dictionary key value) :
    lengthScalar crates scalar = .ok scalar.lengthValue := by
  cases scalar with
  | dictionary key value => exact absurd rfl (hplain key value)
  | other dataType h => exact absurd haccepts (by simp [Scalar.dataType, h])
  | int32 | int64 => exact absurd haccepts nofun
  | null => rfl
  | largeUtf8 value =>
    rw [lengthScalar, optionalCharCountI64, optionalCount_eq fun v hv =>
      countI64_eq (hfits v.length (by simp [Scalar.count, hv]))]
    simp [Scalar.lengthValue, Scalar.count, Scalar.dataType, isLong]
    rfl
  | largeBinary value =>
    rw [lengthScalar, optionalByteLenI64, optionalCount_eq fun v hv =>
      countI64_eq (hfits v.length (by simp [Scalar.count, hv]))]
    simp [Scalar.lengthValue, Scalar.count, Scalar.dataType, isLong]
    rfl
  | utf8 value | utf8View value =>
    rw [lengthScalar, optionalCharCountI32, optionalCount_eq fun v hv =>
      countI32_eq (hfits v.length (by simp [Scalar.count, hv]))]
    simp [Scalar.lengthValue, Scalar.count, Scalar.dataType, isLong]
    rfl
  | binary value | binaryView value | fixedSizeBinary _ value =>
    rw [lengthScalar, optionalByteLenI32, optionalCount_eq fun v hv =>
      countI32_eq (hfits v.length (by simp [Scalar.count, hv]))]
    simp [Scalar.lengthValue, Scalar.count, Scalar.dataType, isLong]
    rfl

/-! ## Arrays -/

/-- The lengths of the elements of an array that fit the declared type, in their places. -/
structure Counted {β : Type} (ofNat : Nat → β) (array : ArrayRef) (lengths : List (Option β)) :
    Prop where
  length_eq : lengths.length = array.len
  getElem? : ∀ (i : Nat) (scalar : Scalar), array.element i = some scalar → scalar.Fits →
    lengths[i]? = some (scalar.count.map ofNat)

theorem ByteLengths.counted {β : Type} {ofNat : Nat → β} {bound : Nat}
    {values : List (Option (List UInt8))} {lengths : List (Option β)}
    (h : ByteLengths ofNat bound values lengths) {array : ArrayRef}
    {f : Option (List UInt8) → Scalar} (hlen : array.len = values.length)
    (helement : ∀ i, array.element i = values[i]?.map f)
    (hcount : ∀ value, (f value).count = value.map List.length)
    (hbound : ∀ value, (if isLong (f value).dataType then 2 ^ 63 else 2 ^ 31) = bound) :
    Counted ofNat array lengths where
  length_eq := by rw [h.length_eq, hlen]
  getElem? i scalar hscalar hfits := by
    rw [helement, Option.map_eq_some_iff] at hscalar
    obtain ⟨value, hvalue, rfl⟩ := hscalar
    have hlengths := h.getElem? i value hvalue fun v hv => by
      have := hfits v.length (by rw [hcount, hv, Option.map_some])
      rwa [hbound] at this
    rw [hlengths, hcount, Option.map_map]
    rfl

theorem mapM_optionalCount {β : Type} {count : Nat → Except DataFusionError β} {ofNat : Nat → β}
    (hcount : ∀ n length, count n = .ok length → length = ofNat n) {values : List (Option String)}
    {lengths : List (Option β)}
    (h : values.mapM (optionalCount fun value => count value.length) = .ok lengths) :
    lengths = values.map fun value => value.map fun v => ofNat v.length := by
  induction Except.mapM_eq_ok.mp h with
  | nil => rfl
  | @cons value length values lengths hvalue hvalues ih =>
    rw [List.map_cons, ih (Except.mapM_eq_ok.mpr hvalues)]
    congr 1
    cases value with
    | none => exact (Except.ok.inj hvalue).symm
    | some v =>
      rw [optionalCount] at hvalue
      obtain ⟨n, hn, rfl⟩ := Except.map_eq_ok.mp hvalue
      rw [hcount _ _ hn]
      rfl

theorem countI32_eq_ok (n : Nat) (length : Int32) (h : countI32 n = .ok length) :
    length = .ofNat n := by
  rw [countI32] at h
  split at h
  · exact (Except.ok.inj h).symm
  · cases h

theorem countI64_eq_ok (n : Nat) (length : Int64) (h : countI64 n = .ok length) :
    length = .ofNat n := by
  rw [countI64] at h
  split at h
  · exact (Except.ok.inj h).symm
  · cases h

theorem counted_strings {β : Type} {ofNat : Nat → β} {values : List (Option String)}
    {array : ArrayRef} {f : Option String → Scalar} (hlen : array.len = values.length)
    (helement : ∀ i, array.element i = values[i]?.map f)
    (hcount : ∀ value, (f value).count = value.map String.length) :
    Counted ofNat array (values.map fun value => value.map fun v => ofNat v.length) where
  length_eq := by rw [List.length_map, hlen]
  getElem? i scalar hscalar _ := by
    rw [helement, Option.map_eq_some_iff] at hscalar
    obtain ⟨value, hvalue, rfl⟩ := hscalar
    rw [List.getElem?_map, hvalue, hcount, Option.map_map]
    rfl

theorem count_nullScalar (array : ArrayRef) : array.nullScalar.count = none := by
  induction array with
  | dictionary key keys values ih => exact ih
  | _ => rfl

/-- The lengths of the values of a dictionary, gathered by its keys. -/
theorem Counted.take {β : Type} {ofNat : Nat → β} {values : ArrayRef} {lengths : List (Option β)}
    (h : Counted ofNat values lengths) (keyType : DataType) (keys : List (Option Nat)) :
    Counted ofNat (.dictionary keyType keys values)
      (keys.map fun key => key.bind fun k => lengths[k]?.join) where
  length_eq := List.length_map ..
  getElem? i scalar hscalar hfits := by
    rw [List.getElem?_map]
    rw [ArrayRef.element] at hscalar
    split at hscalar
    · cases hscalar
    · rename_i hkey
      obtain rfl := Option.some.inj hscalar
      rw [hkey, Scalar.count, count_nullScalar]
      rfl
    · rename_i key hkey
      obtain ⟨value, hvalue, rfl⟩ := Option.map_eq_some_iff.mp hscalar
      rw [hkey, Option.map_some, Option.bind_some, h.getElem? key value hvalue hfits]
      rfl

/-- The array has the declared type, and the lengths of the elements in their places. -/
def Counts (array result : ArrayRef) : Prop :=
  if isLong array.dataType then
    ∃ lengths, result = .int64 lengths ∧ Counted Int64.ofNat array lengths
  else ∃ lengths, result = .int32 lengths ∧ Counted Int32.ofNat array lengths

theorem lengthArray_counts (hl : crates.Lawful) {array result : ArrayRef} (hwf : array.WF)
    (haccepts : accepts array.dataType) (h : lengthArray crates array = .ok result) :
    Counts array result := by
  induction array generalizing result with
  | dictionary keyType keys values ih =>
    rw [lengthArray] at h
    obtain ⟨lengths, hlengths, htake⟩ := Except.bind_eq_ok.mp h
    have hvalues := ih hwf.2 haccepts hlengths
    rw [Counts, ArrayRef.dataType, isLong]
    rw [Counts] at hvalues
    split
    · rename_i hlong
      rw [if_pos hlong] at hvalues
      obtain ⟨lengths, rfl, hcounted⟩ := hvalues
      rw [hl.take_int64 lengths keys fun key hkey k hk => by
        rw [hcounted.length_eq]; exact hwf.1 key hkey k hk] at htake
      exact ⟨_, (Except.ok.inj htake).symm, hcounted.take keyType keys⟩
    · rename_i hlong
      rw [if_neg hlong] at hvalues
      obtain ⟨lengths, rfl, hcounted⟩ := hvalues
      rw [hl.take_int32 lengths keys fun key hkey k hk => by
        rw [hcounted.length_eq]; exact hwf.1 key hkey k hk] at htake
      exact ⟨_, (Except.ok.inj htake).symm, hcounted.take keyType keys⟩
  | utf8 values | utf8View values =>
    obtain ⟨lengths, hlengths, rfl⟩ := Except.map_eq_ok.mp h
    obtain rfl := mapM_optionalCount countI32_eq_ok hlengths
    exact ⟨_, rfl, counted_strings rfl (fun _ => rfl) fun _ => rfl⟩
  | largeUtf8 values =>
    obtain ⟨lengths, hlengths, rfl⟩ := Except.map_eq_ok.mp h
    obtain rfl := mapM_optionalCount countI64_eq_ok hlengths
    exact ⟨_, rfl, counted_strings rfl (fun _ => rfl) fun _ => rfl⟩
  | binary values =>
    obtain ⟨lengths, hlengths, hbytes⟩ := hl.binary values
    rw [lengthArray, hlengths] at h
    exact ⟨_, (Except.ok.inj h).symm,
      hbytes.counted rfl (fun _ => rfl) (fun _ => rfl) fun _ => rfl⟩
  | binaryView values =>
    obtain ⟨lengths, hlengths, hbytes⟩ := hl.binaryView values
    rw [lengthArray, hlengths] at h
    exact ⟨_, (Except.ok.inj h).symm,
      hbytes.counted rfl (fun _ => rfl) (fun _ => rfl) fun _ => rfl⟩
  | fixedSizeBinary size values =>
    obtain ⟨lengths, hlengths, hbytes⟩ := hl.fixedSizeBinary size values
    rw [lengthArray, hlengths] at h
    exact ⟨_, (Except.ok.inj h).symm,
      hbytes.counted rfl (fun _ => rfl) (fun _ => rfl) fun _ => rfl⟩
  | largeBinary values =>
    obtain ⟨lengths, hlengths, hbytes⟩ := hl.largeBinary values
    rw [lengthArray, hlengths] at h
    exact ⟨_, (Except.ok.inj h).symm,
      hbytes.counted rfl (fun _ => rfl) (fun _ => rfl) fun _ => rfl⟩
  | null len =>
    refine ⟨_, (Except.ok.inj h).symm, List.length_replicate, fun i scalar hscalar _ => ?_⟩
    rw [ArrayRef.element] at hscalar
    split at hscalar
    · obtain rfl := Option.some.inj hscalar
      simp [‹i < len›, Scalar.count]
    · cases hscalar
  | other dataType hother => exact absurd haccepts (by simp [ArrayRef.dataType, hother])
  | int32 | int64 => exact absurd haccepts nofun

/-- An element of the array of lengths is the length of the element. -/
theorem Counts.element {array result : ArrayRef} (h : Counts array result) {i : Nat}
    {scalar : Scalar} (hscalar : array.element i = some scalar)
    (htype : array.dataType = scalar.dataType) (hfits : scalar.Fits) :
    result.element i = some scalar.lengthValue := by
  rw [Counts, htype] at h
  rw [Scalar.lengthValue]
  split at h
  · obtain ⟨lengths, rfl, hcounted⟩ := h
    rw [if_pos ‹_›, ArrayRef.element, hcounted.getElem? i scalar hscalar hfits]
    rfl
  · obtain ⟨lengths, rfl, hcounted⟩ := h
    rw [if_neg ‹_›, ArrayRef.element, hcounted.getElem? i scalar hscalar hfits]
    rfl

theorem exists_lengthArray (hl : crates.Lawful) {array : ArrayRef} (hwf : array.WF)
    (haccepts : accepts array.dataType) (hfits : array.Fits) :
    ∃ result, lengthArray crates array = .ok result := by
  induction array with
  | dictionary keyType keys values ih =>
    obtain ⟨lengths, hlengths⟩ := ih hwf.2 haccepts hfits
    have hvalues := lengthArray_counts hl hwf.2 haccepts hlengths
    rw [lengthArray, hlengths]
    rw [Counts] at hvalues
    split at hvalues
    · obtain ⟨lengths, rfl, hcounted⟩ := hvalues
      exact ⟨_, hl.take_int64 lengths keys fun key hkey k hk => by
        rw [hcounted.length_eq]; exact hwf.1 key hkey k hk⟩
    · obtain ⟨lengths, rfl, hcounted⟩ := hvalues
      exact ⟨_, hl.take_int32 lengths keys fun key hkey k hk => by
        rw [hcounted.length_eq]; exact hwf.1 key hkey k hk⟩
  | utf8 values | utf8View values =>
    refine ⟨_, congrArg (ArrayRef.int32 <$> ·) (Except.mapM_eq_map fun value hvalue =>
      optionalCount_eq fun v hv => countI32_eq (hfits v (hv ▸ hvalue)))⟩
  | largeUtf8 values =>
    refine ⟨_, congrArg (ArrayRef.int64 <$> ·) (Except.mapM_eq_map fun value hvalue =>
      optionalCount_eq fun v hv => countI64_eq (hfits v (hv ▸ hvalue)))⟩
  | binary values => exact ⟨_, (hl.binary values).choose_spec.1⟩
  | binaryView values => exact ⟨_, (hl.binaryView values).choose_spec.1⟩
  | fixedSizeBinary size values => exact ⟨_, (hl.fixedSizeBinary size values).choose_spec.1⟩
  | largeBinary values => exact ⟨_, (hl.largeBinary values).choose_spec.1⟩
  | null len => exact ⟨_, rfl⟩
  | other dataType hother => exact absurd haccepts (by simp [ArrayRef.dataType, hother])
  | int32 | int64 => exact absurd haccepts nofun

/-! ## The two paths -/

/-- The arrays that hold a scalar: unless a string in one is too long, the path over arrays gives
an array, and where it does, the element in the place of the scalar is its length. -/
structure ArrayPath (crates : Crates) (scalar : Scalar) : Prop where
  exists_ok : ∀ array : ArrayRef, array.WF → array.dataType = scalar.dataType → array.Fits →
    ∃ result, lengthArray crates array = .ok result
  element : ∀ (array : ArrayRef) (i : Nat) (result : ArrayRef), array.WF →
    array.dataType = scalar.dataType → array.element i = some scalar →
    lengthArray crates array = .ok result → result.element i = some scalar.lengthValue

/-- The path over scalars gives the length, in the declared type, and the path over arrays the same
in the place of the scalar. -/
def OneFunction (crates : Crates) (scalar : Scalar) : Prop :=
  ∃ length, lengthScalar crates scalar = .ok length ∧
    lengthReturnType crates scalar.dataType = .ok length.dataType ∧ length = scalar.lengthValue ∧
    ∀ (array : ArrayRef) (i : Nat) (result : ArrayRef), array.WF →
      array.dataType = scalar.dataType → array.element i = some scalar →
      lengthArray crates array = .ok result → result.element i = some length

theorem arrayPath (hl : crates.Lawful) {scalar : Scalar} (haccepts : accepts scalar.dataType)
    (hfits : scalar.Fits) : ArrayPath crates scalar where
  exists_ok _ hwf htype hok := exists_lengthArray hl hwf (htype ▸ haccepts) hok
  element _ _ _ hwf htype hscalar h :=
    (lengthArray_counts hl hwf (htype ▸ haccepts) h).element hscalar htype hfits

theorem Scalar.dataType_lengthValue (scalar : Scalar) :
    scalar.lengthValue.dataType = if isLong scalar.dataType then .int64 else .int32 := by
  rw [lengthValue]
  split <;> rfl

theorem lengthScalar_dictionary (key : DataType) (value : Scalar) :
    ∃ err, lengthScalar crates (.dictionary key value) = .error err :=
  ⟨_, rfl⟩

/-- For a value of a type with a declared result, whose length fits, `length` is one function if and
only if the value is not of a dictionary: these have a declared type and the path over arrays, but
none over scalars. -/
theorem oneFunction_iff (hl : crates.Lawful) {scalar : Scalar} {type : DataType}
    (htype : lengthReturnType crates scalar.dataType = .ok type) (hfits : scalar.Fits) :
    (OneFunction crates scalar ↔ ∀ key value, scalar ≠ .dictionary key value) ∧
      ArrayPath crates scalar := by
  obtain ⟨haccepts, rfl⟩ := lengthReturnType_eq_ok.mp htype
  have harray := arrayPath hl haccepts hfits
  refine ⟨⟨?_, fun hplain => ?_⟩, harray⟩
  · rintro ⟨length, hlength, -⟩ key value rfl
    obtain ⟨err, herr⟩ := @lengthScalar_dictionary crates key value
    rw [herr] at hlength
    cases hlength
  · refine ⟨_, lengthScalar_eq haccepts hfits hplain, ?_, rfl, harray.element⟩
    rw [scalar.dataType_lengthValue]
    exact htype

/-- Kernels that do what those of `arrow` do. -/
def plainCrates : Crates where
  length
    | .binary values | .binaryView values | .fixedSizeBinary _ values =>
      .ok (.int32 (values.map fun value => value.map fun v => .ofNat v.length))
    | .largeBinary values =>
      .ok (.int64 (values.map fun value => value.map fun v => .ofNat v.length))
    | _ => .error (executionError "length not supported")
  take
    | .int32 values, keys => .ok (.int32 (keys.map fun key => key.bind fun k => values[k]?.join))
    | .int64 values, keys => .ok (.int64 (keys.map fun key => key.bind fun k => values[k]?.join))
    | values, _ => .ok values
  scalarDebug _ := ""
  dataTypeToString _ := ""

theorem byteLengths_map {β : Type} (ofNat : Nat → β) (bound : Nat)
    (values : List (Option (List UInt8))) :
    ByteLengths ofNat bound values (values.map fun value => value.map fun v => ofNat v.length) where
  length_eq := List.length_map ..
  getElem? i value hvalue _ := by rw [List.getElem?_map, hvalue, Option.map_some]

theorem lawful_plainCrates : plainCrates.Lawful where
  binary values := ⟨_, rfl, byteLengths_map ..⟩
  binaryView values := ⟨_, rfl, byteLengths_map ..⟩
  fixedSizeBinary size values := ⟨_, rfl, byteLengths_map ..⟩
  largeBinary values := ⟨_, rfl, byteLengths_map ..⟩
  take_int32 _ _ _ := rfl
  take_int64 _ _ _ := rfl

theorem oneFunction_utf8 : (OneFunction plainCrates (.utf8 (some "josé")) ↔
      ∀ key value, Scalar.utf8 (some "josé") ≠ .dictionary key value) ∧
    ArrayPath plainCrates (.utf8 (some "josé")) :=
  oneFunction_iff lawful_plainCrates rfl fun n hn => by
    obtain rfl := Option.some.inj hn
    decide

/-- The dictionary with the string of the test of the path over arrays, as a scalar. -/
theorem not_oneFunction_dictionary :
    lengthReturnType plainCrates (Scalar.dictionary .int8 (.utf8 (some "josé"))).dataType =
        .ok .int32 ∧
      (Scalar.dictionary .int8 (.utf8 (some "josé"))).Fits ∧
      ¬ OneFunction plainCrates (.dictionary .int8 (.utf8 (some "josé"))) := by
  refine ⟨rfl, fun n hn => ?_, ?_⟩
  · obtain rfl := Option.some.inj hn
    decide
  · rintro ⟨length, hlength, -⟩
    cases hlength

end HarborSql.Length
