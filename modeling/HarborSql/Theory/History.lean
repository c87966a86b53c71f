import Mathlib.Data.List.Basic

/-! Histories: lists that only grow at their end. A moment is the length the history had then,
so the event at index `k` lies between the moments `a` and `b` when `a ≤ k < b`. -/

namespace HarborSql

universe u

variable {α : Type u}

/-- An address of a list that grows keeps its content. -/
theorem List.getElem?_concat_eq_some {l : List α} {x y : α} {i : Nat} :
    (l ++ [x])[i]? = some y ↔ l[i]? = some y ∨ (i = l.length ∧ x = y) := by
  rcases Nat.lt_trichotomy i l.length with h | h | h
  · rw [List.getElem?_append_left h]
    exact ⟨.inl, fun h' => h'.elim id fun h' => absurd h'.1 (Nat.ne_of_lt h)⟩
  · subst h; simp
  · have h1 : (l ++ [x])[i]? = none := List.getElem?_eq_none (by simp; omega)
    have h2 : l[i]? = none := List.getElem?_eq_none (by omega)
    simp [h1, h2, Nat.ne_of_gt h]

/-- An event satisfying `p` happened between the moments `a` and `b`. -/
def HappenedIn (h : List α) (p : α → Prop) (a b : Nat) : Prop :=
  ∃ k e, a ≤ k ∧ k < b ∧ h[k]? = some e ∧ p e

namespace HappenedIn

variable {h h' : List α} {p : α → Prop} {e : α} {a a' b b' c : Nat}

theorem mono (H : HappenedIn h p a b) (ha : a' ≤ a) (hb : b ≤ b') : HappenedIn h p a' b' := by
  obtain ⟨k, e, hak, hkb, he, hp⟩ := H
  exact ⟨k, e, Nat.le_trans ha hak, Nat.lt_of_lt_of_le hkb hb, he, hp⟩

theorem lt (H : HappenedIn h p a b) : a < b := by
  obtain ⟨k, _, hak, hkb, _⟩ := H
  exact Nat.lt_of_le_of_lt hak hkb

theorem split (H : HappenedIn h p a c) (b : Nat) : HappenedIn h p a b ∨ HappenedIn h p b c := by
  obtain ⟨k, e, hak, hkc, he, hp⟩ := H
  by_cases hkb : k < b
  · exact .inl ⟨k, e, hak, hkb, he, hp⟩
  · exact .inr ⟨k, e, Nat.le_of_not_lt hkb, hkc, he, hp⟩

/-- What happened up to a moment does not change as the history grows. -/
theorem prefix_iff (hh : h <+: h') (hb : b ≤ h.length) :
    HappenedIn h' p a b ↔ HappenedIn h p a b := by
  obtain ⟨l, rfl⟩ := hh
  constructor
  · rintro ⟨k, e, hak, hkb, he, hp⟩
    rw [List.getElem?_append_left (by omega)] at he
    exact ⟨k, e, hak, hkb, he, hp⟩
  · rintro ⟨k, e, hak, hkb, he, hp⟩
    exact ⟨k, e, hak, hkb, by rwa [List.getElem?_append_left (by omega)], hp⟩

theorem concat_iff : HappenedIn (h ++ [e]) p a (h.length + 1) ↔
    HappenedIn h p a h.length ∨ (a ≤ h.length ∧ p e) := by
  constructor
  · rintro ⟨k, e', hak, hkb, he, hp⟩
    rcases List.getElem?_concat_eq_some.mp he with he | ⟨rfl, rfl⟩
    · exact .inl ⟨k, e', hak, (List.getElem?_eq_some_iff.mp he).1, he, hp⟩
    · exact .inr ⟨hak, hp⟩
  · rintro (⟨k, e', hak, hkb, he, hp⟩ | ⟨ha, hp⟩)
    · exact ⟨k, e', hak, by omega, List.getElem?_concat_eq_some.mpr (.inl he), hp⟩
    · exact ⟨h.length, e, ha, by omega, by simp, hp⟩

end HappenedIn
end HarborSql
