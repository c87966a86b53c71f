import HarborSql.Theory.Thrift

/-! The grammar of the Thrift binary protocol with bounds: a decoder that limits the sizes of
containers and the nesting, and the values that it decodes. -/

namespace HarborSql.Thrift

/-! ## Exact decoders -/

/-- `decode` decodes exactly the encodings of the values that satisfy `P`. -/
def Decodes {α : Type} (decode : List UInt8 → Option (α × List UInt8)) (P : α → Prop)
    (encode : α → List UInt8) : Prop :=
  ∀ bs x rest, decode bs = some (x, rest) ↔ P x ∧ bs = encode x ++ rest

theorem Decodes.of_iff {α : Type} {decode : List UInt8 → Option (α × List UInt8)}
    {encode : α → List UInt8}
    (h : ∀ bs x rest, decode bs = some (x, rest) ↔ bs = encode x ++ rest) :
    Decodes decode (fun _ => True) encode := by
  intro bs x rest
  rw [h, true_and]

theorem takeBytes_eq_some {n : Nat} {bs front rest : List UInt8} :
    takeBytes n bs = some (front, rest) ↔ front.length = n ∧ bs = front ++ rest := by
  unfold takeBytes
  constructor
  · intro h
    split at h
    · obtain ⟨rfl, rfl⟩ := Prod.mk.inj (Option.some.inj h)
      exact ⟨List.length_take_of_le ‹_›, (List.take_append_drop n bs).symm⟩
    · cases h
  · rintro ⟨rfl, rfl⟩
    simp

theorem decodeU8_eq_some {bs rest : List UInt8} {b : UInt8} :
    decodeU8 bs = some (b, rest) ↔ bs = b :: rest := by
  cases bs with
  | nil => exact ⟨nofun, nofun⟩
  | cons c bs => simp [decodeU8]

theorem Ty.ofCode_eq_some {b : UInt8} {t : Ty} : ofCode b = some t ↔ b = t.code := by
  constructor
  · intro h
    exact (beq_iff_eq.mp (List.find?_some h :)).symm
  · rintro rfl
    exact ofCode_code t

theorem Ty.code_inj {t t' : Ty} : t.code = t'.code ↔ t = t' := by
  refine ⟨fun h => ?_, congrArg code⟩
  have h := congrArg ofCode h
  simpa using h

theorem decodeTy_eq_some {bs rest : List UInt8} {t : Ty} :
    decodeTy bs = some (t, rest) ↔ bs = t.code :: rest := by
  cases bs with
  | nil => exact ⟨nofun, nofun⟩
  | cons b bs =>
    cases hb : Ty.ofCode b with
    | none =>
      have hne : b ≠ t.code := by
        rintro rfl
        simp at hb
      simp [decodeTy, decodeU8, hb, hne]
    | some t' =>
      obtain rfl := Ty.ofCode_eq_some.mp hb
      simp [decodeTy, decodeU8, Ty.code_inj]

theorem decodeNat_eq_some {n x : Nat} {bs rest : List UInt8} :
    decodeNat n bs = some (x, rest) ↔ x < 256 ^ n ∧ bs = beBytes n x ++ rest := by
  constructor
  · intro h
    obtain ⟨⟨front, rest'⟩, htake, h⟩ := Option.map_eq_some_iff.mp h
    obtain ⟨rfl, rfl⟩ := Prod.mk.inj h
    obtain ⟨rfl, rfl⟩ := takeBytes_eq_some.mp htake
    exact ⟨ofBeBytes_lt front, by rw [beBytes_ofBeBytes]⟩
  · rintro ⟨hlt, rfl⟩
    rw [decodeNat_beBytes, Nat.mod_eq_of_lt hlt]

section
variable {bs rest : List UInt8}

theorem decodeI16_eq_some {v : Int16} :
    decodeI16 bs = some (v, rest) ↔ bs = encodeI16 v ++ rest := by
  constructor
  · intro h
    obtain ⟨⟨n, rest'⟩, hn, h⟩ := Option.map_eq_some_iff.mp h
    obtain ⟨rfl, rfl⟩ := Prod.mk.inj h
    obtain ⟨-, rfl⟩ := decodeNat_eq_some.mp hn
    exact congrArg (· ++ rest') (beBytes_mod 2 n).symm
  · rintro rfl
    exact decodeI16_encodeI16 v rest

theorem decodeI32_eq_some {v : Int32} :
    decodeI32 bs = some (v, rest) ↔ bs = encodeI32 v ++ rest := by
  constructor
  · intro h
    obtain ⟨⟨n, rest'⟩, hn, h⟩ := Option.map_eq_some_iff.mp h
    obtain ⟨rfl, rfl⟩ := Prod.mk.inj h
    obtain ⟨-, rfl⟩ := decodeNat_eq_some.mp hn
    exact congrArg (· ++ rest') (beBytes_mod 4 n).symm
  · rintro rfl
    exact decodeI32_encodeI32 v rest

theorem decodeI64_eq_some {v : Int64} :
    decodeI64 bs = some (v, rest) ↔ bs = encodeI64 v ++ rest := by
  constructor
  · intro h
    obtain ⟨⟨n, rest'⟩, hn, h⟩ := Option.map_eq_some_iff.mp h
    obtain ⟨rfl, rfl⟩ := Prod.mk.inj h
    obtain ⟨-, rfl⟩ := decodeNat_eq_some.mp hn
    exact congrArg (· ++ rest') (beBytes_mod 8 n).symm
  · rintro rfl
    exact decodeI64_encodeI64 v rest

theorem decodeSize_eq_some {n : Nat} :
    decodeSize bs = some (n, rest) ↔ n < 2 ^ 31 ∧ bs = encodeSize n ++ rest := by
  constructor
  · intro h
    obtain ⟨⟨size, rest'⟩, hsize, hn⟩ := Option.bind_eq_some_iff.mp h
    obtain rfl := decodeI32_eq_some.mp hsize
    obtain ⟨hpos, hn⟩ := Option.ite_none_right_eq_some.mp hn
    obtain ⟨rfl, rfl⟩ := Prod.mk.inj (Option.some.inj hn)
    have hlt := size.toInt_lt
    refine ⟨by omega, ?_⟩
    have hofNat : Int32.ofNat size.toInt.toNat = size := by
      rw [← Int32.ofInt_eq_ofNat, Int.toNat_of_nonneg hpos, Int32.ofInt_toInt]
    rw [encodeSize, hofNat]
  · rintro ⟨hlt, rfl⟩
    exact decodeSize_encodeSize hlt rest

end

section
variable {α β : Type} {item : List UInt8 → Option (α × List UInt8)} {P : α → Prop}
  {encode : α → List UInt8}

theorem Decodes.pair {other : List UInt8 → Option (β × List UInt8)} {Q : β → Prop}
    {encode' : β → List UInt8} (h : Decodes item P encode) (h' : Decodes other Q encode') :
    Decodes (decodePair item other) (fun p => P p.1 ∧ Q p.2)
      (fun p => encode p.1 ++ encode' p.2) := by
  intro bs p rest
  simp only [decodePair, Option.bind_eq_bind, Option.bind_eq_some_iff, Option.pure_def,
    Option.some.injEq, Prod.exists, Prod.mk.injEq]
  constructor
  · rintro ⟨x, bs₁, hx, y, bs₂, hy, rfl, rfl⟩
    obtain ⟨hP, rfl⟩ := (h _ _ _).mp hx
    obtain ⟨hQ, rfl⟩ := (h' _ _ _).mp hy
    exact ⟨⟨hP, hQ⟩, (List.append_assoc ..).symm⟩
  · rintro ⟨⟨hP, hQ⟩, rfl⟩
    exact ⟨p.1, encode' p.2 ++ rest, (h _ _ _).mpr ⟨hP, List.append_assoc ..⟩, p.2, rest,
      (h' _ _ _).mpr ⟨hQ, rfl⟩, rfl, rfl⟩

theorem Decodes.map {f : α → β} {Q : β → Prop} {encode' : β → List UInt8}
    (h : Decodes item P encode) (hQ : ∀ y, Q y ↔ ∃ x, P x ∧ f x = y)
    (hencode : ∀ x, encode' (f x) = encode x) :
    Decodes (fun bs => (item bs).map fun (x, bs) => (f x, bs)) Q encode' := by
  intro bs y rest
  simp only [Option.map_eq_some_iff, Prod.exists, Prod.mk.injEq, hQ]
  constructor
  · rintro ⟨x, bs', hx, rfl, rfl⟩
    obtain ⟨hP, rfl⟩ := (h ..).mp hx
    exact ⟨⟨x, hP, rfl⟩, by rw [hencode]⟩
  · rintro ⟨⟨x, hP, rfl⟩, rfl⟩
    exact ⟨x, rest, (h ..).mpr ⟨hP, by rw [hencode]⟩, rfl, rfl⟩

theorem Decodes.many (h : Decodes item P encode) (n : Nat) :
    Decodes (decodeMany item n) (fun xs => xs.length = n ∧ ∀ x ∈ xs, P x)
      (fun xs => xs.flatMap encode) := by
  intro bs xs rest
  induction n generalizing bs xs with
  | zero =>
    simp only [decodeMany, Option.some.injEq, Prod.mk.injEq, List.length_eq_zero_iff]
    constructor
    · rintro ⟨rfl, rfl⟩
      exact ⟨⟨rfl, List.forall_mem_nil _⟩, rfl⟩
    · rintro ⟨⟨rfl, -⟩, rfl⟩
      exact ⟨rfl, rfl⟩
  | succ n ih =>
    simp only [decodeMany, Option.bind_eq_bind, Option.bind_eq_some_iff, Option.pure_def,
      Option.some.injEq, Prod.exists, Prod.mk.injEq]
    constructor
    · rintro ⟨x, bs₁, hx, ys, bs₂, hys, rfl, rfl⟩
      obtain ⟨hP, rfl⟩ := (h _ _ _).mp hx
      obtain ⟨⟨rfl, hall⟩, rfl⟩ := (ih _ _).mp hys
      exact ⟨⟨rfl, List.forall_mem_cons.mpr ⟨hP, hall⟩⟩, by simp⟩
    · rintro ⟨⟨hlen, hall⟩, rfl⟩
      cases xs with
      | nil => cases hlen
      | cons x xs =>
        obtain ⟨hP, hall⟩ := List.forall_mem_cons.mp hall
        refine ⟨x, xs.flatMap encode ++ rest, (h _ _ _).mpr ⟨hP, by simp⟩, xs, rest, ?_, rfl, rfl⟩
        exact (ih _ _).mpr ⟨⟨Nat.succ.inj hlen, hall⟩, rfl⟩

end

namespace Value

/-- Fields are decoded exactly if the values of each type are. -/
theorem decodeFields_eq_some {value : Ty → List UInt8 → Option (Value × List UInt8)}
    {P : Value → Prop} (h : ∀ ty, Decodes (value ty) (fun v => v.ty = ty ∧ P v) encode)
    {n : Nat} {bs rest : List UInt8} (hn : bs.length ≤ n) {fields : List (Int16 × Value)} :
    decodeFields value n bs = some (fields, rest) ↔
      (∀ f ∈ fields, P f.2) ∧ bs = encodeFields fields ++ rest := by
  constructor
  · intro hd
    clear hn
    induction n generalizing bs fields with
    | zero => cases hd
    | succ n ih =>
      simp only [decodeFields, Option.bind_eq_bind, Option.bind_eq_some_iff, Prod.exists] at hd
      obtain ⟨code, bs₁, hcode, hd⟩ := hd
      obtain rfl := decodeU8_eq_some.mp hcode
      split at hd
      · rename_i hstop
        obtain ⟨rfl, rfl⟩ := Prod.mk.inj (Option.some.inj hd)
        exact ⟨List.forall_mem_nil _, by rw [hstop]; rfl⟩
      · simp only [Option.bind_eq_some_iff, Prod.exists] at hd
        obtain ⟨ty, hty, id, bs₂, hid, v, bs₃, hv, fs, bs₄, hfs, hd⟩ := hd
        obtain ⟨rfl, rfl⟩ := Prod.mk.inj (Option.some.inj hd)
        obtain rfl := Ty.ofCode_eq_some.mp hty
        obtain rfl := decodeI16_eq_some.mp hid
        obtain ⟨⟨rfl, hP⟩, rfl⟩ := (h ..).mp hv
        obtain ⟨hall, rfl⟩ := ih hfs
        exact ⟨List.forall_mem_cons.mpr ⟨hP, hall⟩, by simp [encodeFields]⟩
  · rintro ⟨hall, rfl⟩
    refine decodeFields_encodeFields (fun f hf rest => (h ..).mpr ⟨⟨rfl, hall f hf⟩, rfl⟩) ?_ rest
    have hlt := length_lt_encodeFields fields
    rw [List.length_append] at hn
    omega

/-! ## Bounds -/

/-- The containers of a value have at most `maxSize` elements. -/
inductive SizesWithin (maxSize : Nat) : Value → Prop
  | bool {b} : SizesWithin maxSize (bool b)
  | byte {b} : SizesWithin maxSize (byte b)
  | double {bits} : SizesWithin maxSize (double bits)
  | i16 {v} : SizesWithin maxSize (i16 v)
  | i32 {v} : SizesWithin maxSize (i32 v)
  | i64 {v} : SizesWithin maxSize (i64 v)
  | string {bytes} : SizesWithin maxSize (string bytes)
  | struct {fields} : (∀ f ∈ fields, SizesWithin maxSize f.2) → SizesWithin maxSize (struct fields)
  | map {k v entries} : entries.length ≤ maxSize → (∀ e ∈ entries, SizesWithin maxSize e.1) →
    (∀ e ∈ entries, SizesWithin maxSize e.2) → SizesWithin maxSize (map k v entries)
  | set {t values} : values.length ≤ maxSize → (∀ v ∈ values, SizesWithin maxSize v) →
    SizesWithin maxSize (set t values)
  | list {t values} : values.length ≤ maxSize → (∀ v ∈ values, SizesWithin maxSize v) →
    SizesWithin maxSize (list t values)

mutual

/-- How deep a value is nested. An element of a container is one level further in than the
container; a struct takes a level for itself and one more for its fields. -/
def nesting : Value → Nat
  | struct fields => nestingFields fields + 1
  | map _ _ entries => nestingEntries entries
  | set _ values | list _ values => nestingList values
  | _ => 0

def nestingFields : List (Int16 × Value) → Nat
  | [] => 0
  | (_, v) :: fields => max (nesting v + 1) (nestingFields fields)

def nestingEntries : List (Value × Value) → Nat
  | [] => 0
  | (k, v) :: entries => max (max (nesting k + 1) (nesting v + 1)) (nestingEntries entries)

def nestingList : List Value → Nat
  | [] => 0
  | v :: values => max (nesting v + 1) (nestingList values)

end

theorem nestingFields_le {fields : List (Int16 × Value)} {n : Nat} :
    nestingFields fields ≤ n ↔ ∀ f ∈ fields, nesting f.2 < n := by
  induction fields with
  | nil => simp [nestingFields]
  | cons f fields ih =>
    rw [nestingFields, Nat.max_le, ih, List.forall_mem_cons, Nat.succ_le_iff]

theorem nestingEntries_le {entries : List (Value × Value)} {n : Nat} :
    nestingEntries entries ≤ n ↔ ∀ e ∈ entries, nesting e.1 < n ∧ nesting e.2 < n := by
  induction entries with
  | nil => simp [nestingEntries]
  | cons e entries ih =>
    rw [nestingEntries, Nat.max_le, Nat.max_le, ih, List.forall_mem_cons, Nat.succ_le_iff,
      Nat.succ_le_iff]

theorem nestingList_le {values : List Value} {n : Nat} :
    nestingList values ≤ n ↔ ∀ v ∈ values, nesting v < n := by
  induction values with
  | nil => simp [nestingList]
  | cons v values ih =>
    rw [nestingList, Nat.max_le, ih, List.forall_mem_cons, Nat.succ_le_iff]

/-- A well-formed value within the bounds. -/
structure Within (maxSize levels : Nat) (v : Value) : Prop where
  wf : v.WF
  sizes : v.SizesWithin maxSize
  nesting_lt : v.nesting < levels

/-! ## Decoding within bounds -/

/-- A container size of at most `maxSize`. -/
def decodeSizeWithin (maxSize : Nat) (bs : List UInt8) : Option (Nat × List UInt8) :=
  (decodeSize bs).filter (·.1 ≤ maxSize)

/-- A value of at most `levels` levels. -/
def decodeWithin (maxSize : Nat) : Nat → Ty → List UInt8 → Option (Value × List UInt8)
  | 0, _, _ => none
  | levels + 1, ty, bs =>
    match ty with
    | .bool => (decodeU8 bs).map fun (b, bs) => (bool b, bs)
    | .byte => (decodeU8 bs).map fun (b, bs) => (byte b, bs)
    | .double => (decodeNat 8 bs).map fun (n, bs) => (double (.ofNat n), bs)
    | .i16 => (decodeI16 bs).map fun (v, bs) => (i16 v, bs)
    | .i32 => (decodeI32 bs).map fun (v, bs) => (i32 v, bs)
    | .i64 => (decodeI64 bs).map fun (v, bs) => (i64 v, bs)
    | .string => do
      let (n, bs) ← decodeSize bs
      let (bytes, bs) ← takeBytes n bs
      return (string bytes, bs)
    | .struct =>
      match levels with
      | 0 => none
      | levels + 1 =>
        (decodeFields (decodeWithin maxSize levels) bs.length bs).map fun (fs, bs) =>
          (struct fs, bs)
    | .map => do
      let (k, bs) ← decodeTy bs
      let (v, bs) ← decodeTy bs
      let (n, bs) ← decodeSizeWithin maxSize bs
      let (entries, bs) ←
        decodeMany (decodePair (decodeWithin maxSize levels k) (decodeWithin maxSize levels v)) n bs
      return (map k v entries, bs)
    | .set => do
      let (t, bs) ← decodeTy bs
      let (n, bs) ← decodeSizeWithin maxSize bs
      let (values, bs) ← decodeMany (decodeWithin maxSize levels t) n bs
      return (set t values, bs)
    | .list => do
      let (t, bs) ← decodeTy bs
      let (n, bs) ← decodeSizeWithin maxSize bs
      let (values, bs) ← decodeMany (decodeWithin maxSize levels t) n bs
      return (list t values, bs)

section
variable {maxSize levels : Nat} {bs rest : List UInt8}

theorem decodeSizeWithin_eq_some (hmax : maxSize < 2 ^ 31) {n : Nat} :
    decodeSizeWithin maxSize bs = some (n, rest) ↔ n ≤ maxSize ∧ bs = encodeSize n ++ rest := by
  rw [decodeSizeWithin, Option.filter_eq_some_iff, decodeSize_eq_some, decide_eq_true_iff]
  constructor
  · rintro ⟨⟨-, rfl⟩, hn⟩
    exact ⟨hn, rfl⟩
  · rintro ⟨hn, rfl⟩
    exact ⟨⟨Nat.lt_of_le_of_lt hn hmax, rfl⟩, hn⟩

/-- The elements of a list or a set: their type, their number, and they themselves. -/
def decodeElements (maxSize levels : Nat) (bs : List UInt8) :
    Option ((Ty × List Value) × List UInt8) := do
  let (t, bs) ← decodeTy bs
  let (n, bs) ← decodeSizeWithin maxSize bs
  let (values, bs) ← decodeMany (decodeWithin maxSize levels t) n bs
  return ((t, values), bs)

theorem decodeWithin_set :
    decodeWithin maxSize (levels + 1) .set bs =
      (decodeElements maxSize levels bs).map fun (e, bs) => (set e.1 e.2, bs) := by
  simp [decodeWithin, decodeElements, Option.map_bind]

theorem decodeWithin_list :
    decodeWithin maxSize (levels + 1) .list bs =
      (decodeElements maxSize levels bs).map fun (e, bs) => (list e.1 e.2, bs) := by
  simp [decodeWithin, decodeElements, Option.map_bind]

variable (hmax : maxSize < 2 ^ 31)
  (ih : ∀ ty, Decodes (decodeWithin maxSize levels ty) (fun v => v.ty = ty ∧ v.Within maxSize levels)
    encode)
include hmax ih

theorem decodeElements_eq_some {t : Ty} {values : List Value} :
    decodeElements maxSize levels bs = some ((t, values), rest) ↔
      (values.length ≤ maxSize ∧ ∀ v ∈ values, v.ty = t ∧ v.Within maxSize levels) ∧
      bs = t.code :: (encodeSize values.length ++ values.flatMap encode) ++ rest := by
  simp only [decodeElements, Option.bind_eq_bind, Option.bind_eq_some_iff, Option.pure_def,
    Option.some.injEq, Prod.exists, Prod.mk.injEq, decodeTy_eq_some,
    decodeSizeWithin_eq_some hmax, ((ih _).many _) _ _ _]
  constructor
  · rintro ⟨t, bs₁, rfl, n, bs₂, ⟨hn, rfl⟩, vs, bs₃, ⟨⟨rfl, hvs⟩, rfl⟩, ⟨rfl, rfl⟩, rfl⟩
    exact ⟨⟨hn, hvs⟩, by simp⟩
  · rintro ⟨⟨hn, hvs⟩, rfl⟩
    exact ⟨_, _, rfl, _, _, ⟨hn, List.append_assoc ..⟩, _, _, ⟨⟨rfl, hvs⟩, rfl⟩, ⟨rfl, rfl⟩, rfl⟩

theorem decodeWithin_map_eq_some {k v : Ty} {entries : List (Value × Value)} :
    decodeWithin maxSize (levels + 1) .map bs = some (map k v entries, rest) ↔
      (entries.length ≤ maxSize ∧ ∀ e ∈ entries, (e.1.ty = k ∧ e.1.Within maxSize levels) ∧
        e.2.ty = v ∧ e.2.Within maxSize levels) ∧ bs = (map k v entries).encode ++ rest := by
  simp only [decodeWithin, Option.bind_eq_bind, Option.bind_eq_some_iff, Option.pure_def,
    Option.some.injEq, Prod.exists, Prod.mk.injEq, decodeTy_eq_some,
    decodeSizeWithin_eq_some hmax, (((ih _).pair (ih _)).many _) _ _ _, map.injEq, encode,
    encodeEntries_eq]
  constructor
  · rintro ⟨k, bs₁, rfl, v, bs₂, rfl, n, bs₃, ⟨hn, rfl⟩, es, bs₄, ⟨⟨rfl, hes⟩, rfl⟩, ⟨rfl, rfl, rfl⟩,
      rfl⟩
    exact ⟨⟨hn, hes⟩, by simp⟩
  · rintro ⟨⟨hn, hes⟩, rfl⟩
    exact ⟨_, _, rfl, _, _, rfl, _, _, ⟨hn, List.append_assoc ..⟩, _, _, ⟨⟨rfl, hes⟩, rfl⟩,
      ⟨rfl, rfl, rfl⟩, rfl⟩

end

/-! ### Exactness -/

section
variable {maxSize levels : Nat} (hmax : maxSize < 2 ^ 31)

theorem within_struct {fields : List (Int16 × Value)} :
    (struct fields).Within maxSize (levels + 2) ↔ ∀ f ∈ fields, f.2.Within maxSize levels := by
  constructor
  · rintro ⟨hwf, hsizes, hnest⟩
    cases hwf with | struct hwf =>
    cases hsizes with | struct hsizes =>
    rw [nesting, Nat.succ_lt_succ_iff, Nat.lt_succ_iff, nestingFields_le] at hnest
    exact fun f hf => ⟨hwf f hf, hsizes f hf, hnest f hf⟩
  · intro h
    refine ⟨.struct fun f hf => (h f hf).wf, .struct fun f hf => (h f hf).sizes, ?_⟩
    rw [nesting, Nat.succ_lt_succ_iff, Nat.lt_succ_iff, nestingFields_le]
    exact fun f hf => (h f hf).nesting_lt

include hmax

theorem within_list {t : Ty} {values : List Value} :
    (list t values).Within maxSize (levels + 1) ↔
      values.length ≤ maxSize ∧ ∀ v ∈ values, v.ty = t ∧ v.Within maxSize levels := by
  constructor
  · rintro ⟨hwf, hsizes, hnest⟩
    cases hwf with | list _ ht hwf =>
    cases hsizes with | list hlen hsizes =>
    rw [nesting, Nat.lt_succ_iff, nestingList_le] at hnest
    exact ⟨hlen, fun v hv => ⟨ht v hv, hwf v hv, hsizes v hv, hnest v hv⟩⟩
  · rintro ⟨hlen, h⟩
    refine ⟨.list (Nat.lt_of_le_of_lt hlen hmax) (fun v hv => (h v hv).1)
      fun v hv => (h v hv).2.wf, .list hlen fun v hv => (h v hv).2.sizes, ?_⟩
    rw [nesting, Nat.lt_succ_iff, nestingList_le]
    exact fun v hv => (h v hv).2.nesting_lt

theorem within_set {t : Ty} {values : List Value} :
    (set t values).Within maxSize (levels + 1) ↔
      values.length ≤ maxSize ∧ ∀ v ∈ values, v.ty = t ∧ v.Within maxSize levels := by
  rw [← within_list hmax]
  constructor
  · rintro ⟨hwf, hsizes, hnest⟩
    cases hwf with | set hlt ht hwf =>
    cases hsizes with | set hlen hsizes =>
    exact ⟨.list hlt ht hwf, .list hlen hsizes, hnest⟩
  · rintro ⟨hwf, hsizes, hnest⟩
    cases hwf with | list hlt ht hwf =>
    cases hsizes with | list hlen hsizes =>
    exact ⟨.set hlt ht hwf, .set hlen hsizes, hnest⟩

theorem within_map {k v : Ty} {entries : List (Value × Value)} :
    (map k v entries).Within maxSize (levels + 1) ↔
      entries.length ≤ maxSize ∧ ∀ e ∈ entries, (e.1.ty = k ∧ e.1.Within maxSize levels) ∧
        e.2.ty = v ∧ e.2.Within maxSize levels := by
  constructor
  · rintro ⟨hwf, hsizes, hnest⟩
    cases hwf with | map _ ht hk hv =>
    cases hsizes with | map hlen hsk hsv =>
    rw [nesting, Nat.lt_succ_iff, nestingEntries_le] at hnest
    exact ⟨hlen, fun e he => ⟨⟨(ht e he).1, hk e he, hsk e he, (hnest e he).1⟩,
      (ht e he).2, hv e he, hsv e he, (hnest e he).2⟩⟩
  · rintro ⟨hlen, h⟩
    refine ⟨.map (Nat.lt_of_le_of_lt hlen hmax) (fun e he => ⟨(h e he).1.1, (h e he).2.1⟩)
      (fun e he => (h e he).1.2.wf) fun e he => (h e he).2.2.wf,
      .map hlen (fun e he => (h e he).1.2.sizes) fun e he => (h e he).2.2.sizes, ?_⟩
    rw [nesting, Nat.lt_succ_iff, nestingEntries_le]
    exact fun e he => ⟨(h e he).1.2.nesting_lt, (h e he).2.2.nesting_lt⟩

omit hmax in
/-- The values of the types without parts. -/
theorem Within.leaf {v : Value} (hwf : v.WF) (hsizes : v.SizesWithin maxSize)
    (h : v.nesting = 0) : v.Within maxSize (levels + 1) := ⟨hwf, hsizes, by omega⟩

omit hmax in
theorem Decodes.leaf {α : Type} {item : List UInt8 → Option (α × List UInt8)} {P : α → Prop}
    {encode' : α → List UInt8} {f : α → Value} {ty : Ty} (h : Decodes item P encode')
    (hwithin : ∀ x, P x → (f x).ty = ty ∧ (f x).Within maxSize (levels + 1))
    (hinv : ∀ v : Value, v.ty = ty → ∃ x, P x ∧ f x = v)
    (hencode : ∀ x, (f x).encode = encode' x) :
    Decodes (fun bs => (item bs).map fun (x, bs) => (f x, bs))
      (fun v => v.ty = ty ∧ v.Within maxSize (levels + 1)) encode := by
  refine h.map (fun v => ⟨fun hv => hinv v hv.1, ?_⟩) hencode
  rintro ⟨x, hP, rfl⟩
  exact hwithin x hP

omit hmax in
theorem decodes_string :
    Decodes (decodeWithin maxSize (levels + 1) .string)
      (fun v => v.ty = .string ∧ v.Within maxSize (levels + 1)) encode := by
  intro bs x rest
  simp only [decodeWithin, Option.bind_eq_bind, Option.bind_eq_some_iff, Option.pure_def,
    Option.some.injEq, Prod.exists, Prod.mk.injEq, decodeSize_eq_some, takeBytes_eq_some]
  constructor
  · rintro ⟨n, bs₁, ⟨hn, rfl⟩, bytes, bs₂, ⟨rfl, rfl⟩, rfl, rfl⟩
    exact ⟨⟨rfl, .leaf (.string hn) .string rfl⟩, by simp [encode]⟩
  · rintro ⟨⟨hty, hx⟩, rfl⟩
    cases hx.wf with
    | string hlen => exact ⟨_, _, ⟨hlen, List.append_assoc ..⟩, _, _, ⟨rfl, rfl⟩, rfl, rfl⟩
    | _ => cases hty

omit hmax in
theorem decodes_struct
    (ih : ∀ ty, Decodes (decodeWithin maxSize levels ty)
      (fun v => v.ty = ty ∧ v.Within maxSize levels) encode) :
    Decodes (decodeWithin maxSize (levels + 2) .struct)
      (fun v => v.ty = .struct ∧ v.Within maxSize (levels + 2)) encode := by
  intro bs x rest
  simp only [decodeWithin, Option.map_eq_some_iff, Prod.exists, Prod.mk.injEq,
    decodeFields_eq_some ih (Nat.le_refl _)]
  constructor
  · rintro ⟨fields, bs', ⟨hall, rfl⟩, rfl, rfl⟩
    exact ⟨⟨rfl, within_struct.mpr hall⟩, rfl⟩
  · rintro ⟨⟨hty, hx⟩, rfl⟩
    cases x with
    | struct fields => exact ⟨fields, rest, ⟨within_struct.mp hx, rfl⟩, rfl, rfl⟩
    | _ => cases hty

/-- The values decoded within the bounds are exactly the well-formed values within them. -/
theorem decodeWithin_eq_some (ty : Ty) :
    Decodes (decodeWithin maxSize levels ty) (fun v => v.ty = ty ∧ v.Within maxSize levels)
      encode := by
  induction levels using Nat.strong_induction_on generalizing ty with
  | _ levels ih =>
  cases levels with
  | zero => exact fun bs x rest => ⟨nofun, fun h => absurd h.1.2.nesting_lt (Nat.not_lt_zero _)⟩
  | succ levels =>
  have ih' := ih levels (Nat.lt_succ_self _)
  cases ty with
  | bool =>
    refine Decodes.leaf (.of_iff fun _ _ _ => decodeU8_eq_some)
      (fun b _ => ⟨rfl, .leaf .bool .bool rfl⟩) (fun v hv => ?_) (fun b => rfl)
    cases v <;> cases hv
    exact ⟨_, trivial, rfl⟩
  | byte =>
    refine Decodes.leaf (.of_iff fun _ _ _ => decodeU8_eq_some)
      (fun b _ => ⟨rfl, .leaf .byte .byte rfl⟩) (fun v hv => ?_) (fun b => rfl)
    cases v <;> cases hv
    exact ⟨_, trivial, rfl⟩
  | i16 =>
    refine Decodes.leaf (.of_iff fun _ _ _ => decodeI16_eq_some)
      (fun b _ => ⟨rfl, .leaf .i16 .i16 rfl⟩) (fun v hv => ?_) (fun b => rfl)
    cases v <;> cases hv
    exact ⟨_, trivial, rfl⟩
  | i32 =>
    refine Decodes.leaf (.of_iff fun _ _ _ => decodeI32_eq_some)
      (fun b _ => ⟨rfl, .leaf .i32 .i32 rfl⟩) (fun v hv => ?_) (fun b => rfl)
    cases v <;> cases hv
    exact ⟨_, trivial, rfl⟩
  | i64 =>
    refine Decodes.leaf (.of_iff fun _ _ _ => decodeI64_eq_some)
      (fun b _ => ⟨rfl, .leaf .i64 .i64 rfl⟩) (fun v hv => ?_) (fun b => rfl)
    cases v <;> cases hv
    exact ⟨_, trivial, rfl⟩
  | double =>
    refine Decodes.leaf (f := fun n => double (.ofNat n)) (fun _ _ _ => decodeNat_eq_some)
      (fun n hn => ⟨rfl, .leaf .double .double rfl⟩) (fun v hv => ?_) (fun n => ?_)
    · cases v <;> cases hv
      exact ⟨_, UInt64.toNat_lt _, by rw [UInt64.ofNat_toNat]⟩
    · exact beBytes_mod 8 n
  | string => exact decodes_string
  | struct =>
    cases levels with
    | zero =>
      refine fun bs x rest => ⟨nofun, ?_⟩
      rintro ⟨⟨hty, hx⟩, -⟩
      have hlt := hx.nesting_lt
      cases x with
      | struct fields => exact absurd hlt (by rw [nesting]; omega)
      | _ => cases hty
    | succ levels => exact decodes_struct (ih levels (by omega))
  | map =>
    intro bs x rest
    constructor
    · intro h
      have hx : ∃ k v entries, x = map k v entries := by
        simp only [decodeWithin, Option.bind_eq_bind, Option.bind_eq_some_iff, Option.pure_def,
          Option.some.injEq, Prod.exists, Prod.mk.injEq] at h
        obtain ⟨k, _, _, v, _, _, _, _, _, entries, _, _, rfl, _⟩ := h
        exact ⟨k, v, entries, rfl⟩
      obtain ⟨k, v, entries, rfl⟩ := hx
      obtain ⟨hw, rfl⟩ := (decodeWithin_map_eq_some hmax ih').mp h
      exact ⟨⟨rfl, (within_map hmax).mpr hw⟩, rfl⟩
    · rintro ⟨⟨hty, hx⟩, rfl⟩
      cases x with
      | map k v entries => exact (decodeWithin_map_eq_some hmax ih').mpr ⟨(within_map hmax).mp hx, rfl⟩
      | _ => cases hty
  | set =>
    intro bs x rest
    simp only [decodeWithin_set, Option.map_eq_some_iff, Prod.exists, Prod.mk.injEq,
      decodeElements_eq_some hmax ih']
    constructor
    · rintro ⟨t, values, bs', ⟨hw, rfl⟩, rfl, rfl⟩
      exact ⟨⟨rfl, (within_set hmax).mpr hw⟩, by rw [encode, encodeList_eq]⟩
    · rintro ⟨⟨hty, hx⟩, rfl⟩
      cases x with
      | set t values =>
        exact ⟨t, values, rest, ⟨(within_set hmax).mp hx, by rw [encode, encodeList_eq]⟩, rfl, rfl⟩
      | _ => cases hty
  | list =>
    intro bs x rest
    simp only [decodeWithin_list, Option.map_eq_some_iff, Prod.exists, Prod.mk.injEq,
      decodeElements_eq_some hmax ih']
    constructor
    · rintro ⟨t, values, bs', ⟨hw, rfl⟩, rfl, rfl⟩
      exact ⟨⟨rfl, (within_list hmax).mpr hw⟩, by rw [encode, encodeList_eq]⟩
    · rintro ⟨⟨hty, hx⟩, rfl⟩
      cases x with
      | list t values =>
        exact ⟨t, values, rest, ⟨(within_list hmax).mp hx, by rw [encode, encodeList_eq]⟩, rfl, rfl⟩
      | _ => cases hty

end

end Value
end HarborSql.Thrift
