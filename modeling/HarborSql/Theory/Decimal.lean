import Mathlib.Algebra.Group.Nat.Defs
import Mathlib.Data.List.Lex

/-! Decimal digits with zeros in front of them, and their order as texts. -/

namespace HarborSql

/-- The digits of a number, with zeros in front of them up to a width. -/
def paddedDigits (width n : Nat) : List Char :=
  List.replicate (width - (Nat.toDigits 10 n).length) '0' ++ Nat.toDigits 10 n

section
variable {width n m : Nat}

theorem length_paddedDigits (hw : 0 < width) (hn : n < 10 ^ width) :
    (paddedDigits width n).length = width := by
  have hle := (Nat.length_toDigits_le_iff (by decide : 1 < 10) hw).mpr hn
  rw [paddedDigits, List.length_append, List.length_replicate]
  omega

theorem isDigit_of_mem_paddedDigits {c : Char} (h : c ∈ paddedDigits width n) : c.isDigit := by
  rcases List.mem_append.mp h with h | h
  · rw [List.eq_of_mem_replicate h]
    rfl
  · exact Nat.isDigit_of_mem_toDigits (by decide) (by decide) h

theorem paddedDigits_one (hn : n < 10) : paddedDigits 1 n = [n.digitChar] := by
  rw [paddedDigits, Nat.toDigits_of_lt_base hn]
  rfl

/-- The last digit stands behind the digits of a tenth. -/
theorem paddedDigits_succ (hw : 0 < width) :
    paddedDigits (width + 1) n = paddedDigits width (n / 10) ++ [(n % 10).digitChar] := by
  by_cases h : n < 10
  · have hdigits : Nat.toDigits 10 (n / 10) = ['0'] := by
      rw [Nat.div_eq_of_lt h]
      rfl
    rw [paddedDigits, paddedDigits, hdigits, Nat.toDigits_of_lt_base h, Nat.mod_eq_of_lt h]
    obtain ⟨k, rfl⟩ : ∃ k, width = k + 1 := ⟨width - 1, by omega⟩
    simp only [List.length_singleton, Nat.add_sub_cancel]
    rw [List.replicate_succ', List.append_assoc]
  · rw [paddedDigits, paddedDigits, Nat.toDigits_of_base_le (by decide) (Nat.not_lt.mp h),
      List.length_append, List.length_singleton, Nat.add_sub_add_right, List.append_assoc]

/-- A number that is too long for the width has no zeros in front of it. -/
theorem paddedDigits_of_le (hw : 0 < width) (hn : 10 ^ width ≤ n) :
    paddedDigits width n = paddedDigits (width + 1) n := by
  have hlen : ¬ (Nat.toDigits 10 n).length ≤ width := by
    rw [Nat.length_toDigits_le_iff (by decide) hw]
    exact Nat.not_lt.mpr hn
  have hzero : width - (Nat.toDigits 10 n).length = 0 := by omega
  have hzero' : width + 1 - (Nat.toDigits 10 n).length = 0 := by omega
  rw [paddedDigits, paddedDigits, hzero, hzero']

theorem digitChar_lt_iff (hn : n < 10) (hm : m < 10) : n.digitChar < m.digitChar ↔ n < m := by
  have h : ∀ n < 10, ∀ m < 10, (n.digitChar < m.digitChar ↔ n < m) := by decide
  exact h n hn m hm

theorem digitChar_inj (hn : n < 10) (hm : m < 10) : n.digitChar = m.digitChar ↔ n = m := by
  have h : ∀ n < 10, ∀ m < 10, (n.digitChar = m.digitChar ↔ n = m) := by decide
  exact h n hn m hm

theorem append_lt_append_iff {xs ys xs' ys' : List Char} (h : xs.length = ys.length) :
    xs ++ xs' < ys ++ ys' ↔ xs < ys ∨ xs = ys ∧ xs' < ys' := by
  induction xs generalizing ys with
  | nil =>
    obtain rfl := List.length_eq_zero_iff.mp h.symm
    simp
  | cons x xs ih =>
    cases ys with
    | nil => cases h
    | cons y ys =>
      simp only [List.cons_append, List.cons_lt_cons_iff, List.cons.injEq,
        ih (Nat.succ.inj h)]
      constructor
      · rintro (h | ⟨hxy, h | ⟨h, h'⟩⟩)
        · exact .inl (.inl h)
        · exact .inl (.inr ⟨hxy, h⟩)
        · exact .inr ⟨⟨hxy, h⟩, h'⟩
      · rintro ((h | ⟨hxy, h⟩) | ⟨⟨hxy, h⟩, h'⟩)
        · exact .inl h
        · exact .inr ⟨hxy, .inl h⟩
        · exact .inr ⟨hxy, .inr ⟨h, h'⟩⟩

/-- As long as the width suffices, the texts of numbers are in the order of the numbers. -/
theorem paddedDigits_lt_iff (hw : 0 < width) (hn : n < 10 ^ width) (hm : m < 10 ^ width) :
    (paddedDigits width n < paddedDigits width m ↔ n < m) ∧
      (paddedDigits width n = paddedDigits width m ↔ n = m) := by
  induction width generalizing n m with
  | zero => cases hw
  | succ width ih =>
    by_cases hw' : width = 0
    · subst hw'
      rw [paddedDigits_one hn, paddedDigits_one hm, List.cons_lt_cons_iff, List.cons.injEq,
        digitChar_lt_iff hn hm, digitChar_inj hn hm]
      simp
    · have hw' := Nat.pos_of_ne_zero hw'
      have hn' : n / 10 < 10 ^ width := by rw [Nat.pow_succ] at hn; omega
      have hm' : m / 10 < 10 ^ width := by rw [Nat.pow_succ] at hm; omega
      obtain ⟨hlt, heq⟩ := ih hw' hn' hm'
      have hlen := (length_paddedDigits hw' hn').trans (length_paddedDigits hw' hm').symm
      have hnlast := Nat.mod_lt n (by decide : 0 < 10)
      have hmlast := Nat.mod_lt m (by decide : 0 < 10)
      rw [paddedDigits_succ hw', paddedDigits_succ hw', append_lt_append_iff hlen, hlt, heq,
        List.cons_lt_cons_iff, digitChar_lt_iff hnlast hmlast]
      constructor
      · simp only [List.lt_irrefl, and_false, or_false]
        omega
      · have happend : paddedDigits width (n / 10) ++ [(n % 10).digitChar] =
            paddedDigits width (m / 10) ++ [(m % 10).digitChar] ↔
              n / 10 = m / 10 ∧ n % 10 = m % 10 := by
          rw [← heq, ← digitChar_inj hnlast hmlast]
          exact ⟨fun h => (List.append_inj h hlen).imp_right (List.cons.inj · |>.1),
            fun h => by rw [h.1, h.2]⟩
        rw [happend]
        omega

/-- A number that is one digit too long comes behind one that is not by its first digits: the last
one decides nothing. -/
theorem paddedDigits_lt_of_long (hw : 0 < width) (hn : 10 ^ width ≤ n) (hn' : n < 10 ^ (width + 1))
    (hm : m < 10 ^ width) : paddedDigits width m < paddedDigits width n ↔ m ≤ n / 10 := by
  have hten : n / 10 < 10 ^ width := by rw [Nat.pow_succ] at hn'; omega
  have hlen := (length_paddedDigits hw hm).trans (length_paddedDigits hw hten).symm
  have happend := @append_lt_append_iff _ _ [] [(n % 10).digitChar] hlen
  rw [List.append_nil, (paddedDigits_lt_iff hw hm hten).1, (paddedDigits_lt_iff hw hm hten).2]
    at happend
  rw [paddedDigits_of_le hw hn, paddedDigits_succ hw, happend]
  simp only [List.nil_lt_cons, and_true]
  omega

end

end HarborSql
