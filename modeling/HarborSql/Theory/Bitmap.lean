import Mathlib.Data.Nat.Bitwise

/-! Bitmaps as bytes: bit `i` is bit `i % 8` of byte `i / 8`, counted from the least significant. -/

namespace HarborSql.Bitmap

def bit (bs : List UInt8) (i : Nat) : Bool := (bs.getD (i / 8) 0).toNat.testBit (i % 8)

def setBit (bs : List UInt8) (i : Nat) : List UInt8 :=
  bs.modify (i >>> 3) (· ||| 1 <<< (i &&& 7).toUInt8)

/-- The bits of a list, from bit `start` on. -/
def setBits (bs : List UInt8) (start : Nat) : List Bool → List UInt8
  | [] => bs
  | b :: bits => setBits (if b then setBit bs start else bs) (start + 1) bits

variable {bs : List UInt8} {i j start : Nat}

@[simp] theorem length_setBit : (setBit bs i).length = bs.length := List.length_modify ..

theorem length_setBits {bits : List Bool} : (setBits bs start bits).length = bs.length := by
  induction bits generalizing bs start with
  | nil => rfl
  | cons b bits ih =>
    rw [setBits, ih]
    split
    · exact length_setBit
    · rfl

theorem bit_replicate {n : Nat} : bit (List.replicate n 0) i = false := by
  unfold bit
  rw [List.getD_eq_getElem?_getD, List.getElem?_replicate]
  split <;> simp

/-- The mask of bit `i` within its byte. -/
theorem testBit_mask {k : Nat} (hk : k < 8) :
    ((1 : UInt8) <<< (i &&& 7).toUInt8).toNat.testBit k = decide (k = i % 8) := by
  have hi : i &&& 7 = i % 8 := Nat.and_two_pow_sub_one_eq_mod i 3
  have hlt : i % 8 < 8 := Nat.mod_lt _ (by decide)
  rw [hi]
  generalize i % 8 = m at hlt
  have : ∀ k < 8, ∀ m < 8,
      ((1 : UInt8) <<< m.toUInt8).toNat.testBit k = decide (k = m) := by decide
  exact this k hk m hlt

theorem bit_setBit (hi : i < 8 * bs.length) : bit (setBit bs i) j = (decide (j = i) || bit bs j) := by
  have hshift : i >>> 3 = i / 8 := Nat.shiftRight_eq_div_pow i 3
  have hj : j % 8 < 8 := Nat.mod_lt _ (by decide)
  unfold bit setBit
  rw [hshift, List.getD_eq_getElem?_getD, List.getD_eq_getElem?_getD, List.getElem?_modify]
  by_cases h : i / 8 = j / 8
  · have hlt : j / 8 < bs.length := by omega
    have hmod : j % 8 = i % 8 ↔ j = i := by omega
    rw [List.getElem?_eq_getElem hlt]
    simp only [Option.map_eq_map, Option.map_some, Option.getD_some, if_pos h, UInt8.toNat_or,
      Nat.testBit_or, testBit_mask hj, hmod, Bool.or_comm]
  · have hne : j ≠ i := fun e => h (e ▸ rfl)
    simp [h, hne]

/-- Setting the bits of a list changes the bits from `start` on. -/
theorem bit_setBits {bits : List Bool} (h : start + bits.length ≤ 8 * bs.length) :
    bit (setBits bs start bits) j =
      (bit bs j || (decide (start ≤ j) && bits.getD (j - start) false)) := by
  induction bits generalizing bs start with
  | nil => simp [setBits]
  | cons b bits ih =>
    rw [List.length_cons] at h
    have hlen : (if b then setBit bs start else bs).length = bs.length := by
      split
      · exact length_setBit
      · rfl
    have hbit : bit (if b then setBit bs start else bs) j = (bit bs j || (decide (j = start) && b)) := by
      cases b with
      | false => simp
      | true =>
        have hstart : start < 8 * bs.length := by omega
        simp [bit_setBit hstart, Bool.or_comm]
    rw [setBits, ih (by rw [hlen]; omega), hbit]
    rcases Nat.lt_trichotomy j start with hj | rfl | hj
    · simp [show j ≠ start by omega, show ¬start ≤ j by omega, show ¬start + 1 ≤ j by omega]
    · simp
    · have hsub : j - start = j - (start + 1) + 1 := by omega
      rw [hsub, List.getD_cons_succ]
      simp [show j ≠ start by omega, show start ≤ j by omega, show start + 1 ≤ j by omega]

/-- The bits of a list, in as many bytes as they need. -/
theorem bit_setBits_zero {bits : List Bool} :
    bit (setBits (List.replicate ((bits.length + 7) / 8) 0) 0 bits) j = bits.getD j false := by
  rw [bit_setBits (by rw [List.length_replicate]; omega), bit_replicate]
  simp

end HarborSql.Bitmap
