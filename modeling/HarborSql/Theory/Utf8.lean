import Mathlib.Data.Char
import Mathlib.Data.List.Lex

/-! UTF-8 keeps the order of texts: comparing the bytes compares the code points. -/

namespace HarborSql

variable {c d : Char} {l m : List Char}

/-- The lexicographic order of the base-64 digits of two code points. -/
theorem digits64_lt {v w : Nat} (h : v < w) :
    v / 262144 < w / 262144 ∨ v / 262144 = w / 262144 ∧ (v / 4096 % 64 < w / 4096 % 64 ∨
      v / 4096 % 64 = w / 4096 % 64 ∧ (v / 64 % 64 < w / 64 % 64 ∨
        v / 64 % 64 = w / 64 % 64 ∧ v % 64 < w % 64)) := by
  have hv : v = v / 262144 * 262144 + v / 4096 % 64 * 4096 + v / 64 % 64 * 64 + v % 64 := by omega
  have hw : w = w / 262144 * 262144 + w / 4096 % 64 * 4096 + w / 64 % 64 * 64 + w % 64 := by omega
  have h1 := Nat.mod_lt (v / 4096) (by decide : 0 < 64)
  have h2 := Nat.mod_lt (v / 64) (by decide : 0 < 64)
  have h3 := Nat.mod_lt v (by decide : 0 < 64)
  have h4 := Nat.mod_lt (w / 4096) (by decide : 0 < 64)
  have h5 := Nat.mod_lt (w / 64) (by decide : 0 < 64)
  have h6 := Nat.mod_lt w (by decide : 0 < 64)
  generalize v / 262144 = a at *
  generalize w / 262144 = a' at *
  generalize v / 4096 % 64 = b at *
  generalize w / 4096 % 64 = b' at *
  generalize v / 64 % 64 = c at *
  generalize w / 64 % 64 = c' at *
  generalize v % 64 = d at *
  generalize w % 64 = d' at *
  omega

theorem utf8EncodeChar_append_lt (h : c < d) (s t : List UInt8) :
    String.utf8EncodeChar c ++ s < String.utf8EncodeChar d ++ t := by
  have hlt : c.val.toNat < d.val.toNat := h
  have hd : d.val.toNat < 0x110000 := by
    have := d.valid
    simp only [UInt32.isValidChar, Nat.isValidChar] at this
    omega
  have hdigits := digits64_lt hlt
  simp only [String.utf8EncodeChar]
  generalize c.val.toNat = v at *
  generalize d.val.toNat = w at *
  have byte : ∀ n, (n % 64 + 128) % 256 = n % 64 + 128 := fun n => by omega
  have first : ∀ n < 0x110000, (n / 262144 % 8 + 240) % 256 = n / 262144 + 240 := fun n _ => by omega
  split_ifs <;> simp only [List.cons_append, List.cons_lt_cons_iff, ← UInt8.toNat_inj,
    UInt8.lt_iff_toNat_lt, UInt8.toNat_ofNat', Nat.reducePow, byte, first v (Nat.lt_trans hlt hd), first w hd]
  all_goals omega

theorem flatMap_utf8EncodeChar_lt (h : l < m) :
    l.flatMap String.utf8EncodeChar < m.flatMap String.utf8EncodeChar := by
  induction l generalizing m with
  | nil =>
    cases m with
    | nil => cases h
    | cons d m =>
      obtain ⟨b, bs, hb⟩ := List.exists_cons_of_ne_nil (String.utf8EncodeChar_ne_nil (c := d))
      rw [List.flatMap_nil, List.flatMap_cons, hb]
      exact List.nil_lt_cons _ _
  | cons c l ih =>
    cases m with
    | nil => cases h
    | cons d m =>
      rw [List.flatMap_cons, List.flatMap_cons]
      rcases List.cons_lt_cons_iff.mp h with hlt | ⟨rfl, hlt⟩
      · exact utf8EncodeChar_append_lt hlt _ _
      · exact List.append_left_lt (ih hlt)

theorem flatMap_utf8EncodeChar_lt_iff :
    l.flatMap String.utf8EncodeChar < m.flatMap String.utf8EncodeChar ↔ l < m := by
  refine ⟨fun h => ?_, flatMap_utf8EncodeChar_lt⟩
  rcases lt_trichotomy l m with hlt | rfl | hlt
  · exact hlt
  · exact absurd h (List.lt_irrefl _)
  · exact absurd h (List.lt_asymm (flatMap_utf8EncodeChar_lt hlt))

end HarborSql
