import Mathlib.Data.Nat.ModEq
import Mathlib.Tactic.Ring

/-! Big-endian integers of a fixed width. -/

namespace HarborSql

/-- The `n` low bytes of `x`, the most significant first. -/
def beBytes : Nat → Nat → List UInt8
  | 0, _ => []
  | n + 1, x => UInt8.ofNat (x / 256 ^ n) :: beBytes n x

/-- The number that big-endian bytes spell. -/
def ofBeBytes : List UInt8 → Nat
  | [] => 0
  | b :: bs => b.toNat * 256 ^ bs.length + ofBeBytes bs

@[simp] theorem beBytes_length (n x : Nat) : (beBytes n x).length = n := by
  induction n with
  | zero => rfl
  | succ n ih => simp [beBytes, ih]

theorem ofBeBytes_beBytes (n x : Nat) : ofBeBytes (beBytes n x) = x % 256 ^ n := by
  induction n with
  | zero => simp [beBytes, ofBeBytes, Nat.mod_one]
  | succ n ih =>
    have h : (UInt8.ofNat (x / 256 ^ n)).toNat = x / 256 ^ n % 256 := by simp
    rw [beBytes, ofBeBytes, beBytes_length, ih, h, Nat.pow_succ, Nat.mod_mul]
    ring

theorem ofBeBytes_lt (bs : List UInt8) : ofBeBytes bs < 256 ^ bs.length := by
  induction bs with
  | nil => exact Nat.one_pos
  | cons b bs ih =>
    have hb : b.toNat + 1 ≤ 256 := b.toNat_lt
    calc b.toNat * 256 ^ bs.length + ofBeBytes bs
        < (b.toNat + 1) * 256 ^ bs.length := by rw [Nat.add_mul, Nat.one_mul]; omega
      _ ≤ 256 * 256 ^ bs.length := Nat.mul_le_mul_right _ hb
      _ = 256 ^ (b :: bs).length := by rw [List.length_cons, Nat.pow_succ, Nat.mul_comm]

/-- Only the low bytes of a number are written. -/
theorem beBytes_mod (n x : Nat) : beBytes n (x % 256 ^ n) = beBytes n x := by
  induction n generalizing x with
  | zero => rfl
  | succ n ih =>
    have hlow : beBytes n (x % 256 ^ (n + 1)) = beBytes n x := by
      rw [← ih, Nat.mod_mod_of_dvd _ (Nat.pow_dvd_pow 256 (Nat.le_succ n)), ih]
    have hhigh : x % 256 ^ (n + 1) / 256 ^ n = x / 256 ^ n % 256 := by
      rw [Nat.pow_succ, Nat.mod_mul_right_div_self]
    have hbyte (y : Nat) : UInt8.ofNat (y % 256) = UInt8.ofNat y :=
      UInt8.toNat_inj.mp (by simp)
    rw [beBytes, beBytes, hlow, hhigh, hbyte]

theorem beBytes_ofBeBytes (bs : List UInt8) : beBytes bs.length (ofBeBytes bs) = bs := by
  induction bs with
  | nil => rfl
  | cons b bs ih =>
    have hlt := ofBeBytes_lt bs
    have hhigh : ofBeBytes (b :: bs) / 256 ^ bs.length = b.toNat := by
      rw [ofBeBytes, Nat.mul_comm, Nat.mul_add_div (Nat.pow_pos (by decide)),
        Nat.div_eq_of_lt hlt, Nat.add_zero]
    have hlow : ofBeBytes (b :: bs) % 256 ^ bs.length = ofBeBytes bs := by
      rw [ofBeBytes, Nat.mul_comm, Nat.mul_add_mod, Nat.mod_eq_of_lt hlt]
    rw [List.length_cons, beBytes, hhigh, ← beBytes_mod, hlow, ih]
    simp

end HarborSql
