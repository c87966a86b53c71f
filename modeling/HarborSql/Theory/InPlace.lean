import Mathlib.Data.List.Basic

/-! Changes in place that report whether they changed anything: a rewriting returns the new value and
a flag, and the flag of a whole is put together from those of its parts. -/

namespace HarborSql

universe u v w
variable {α : Type u} {β : Type v} {γ : Type w}

/-- The flag tells whether the value has changed. -/
def Tells (a : α) (rewritten : α × Bool) : Prop := rewritten.2 = true ↔ rewritten.1 ≠ a

namespace Tells

theorem unchanged (a : α) : Tells a (a, false) := ⟨nofun, fun h => absurd rfl h⟩

theorem changed {a b : α} (h : b ≠ a) : Tells a (b, true) := ⟨fun _ => h, fun _ => rfl⟩

theorem eq_of_false {a : α} {rewritten : α × Bool} (h : Tells a rewritten)
    (hflag : rewritten.2 = false) : rewritten.1 = a := by
  by_contra hne
  rw [h.mpr hne] at hflag
  cases hflag

/-- A part of a whole with nothing else to change. -/
theorem map {a : α} {rewritten : α × Bool} (h : Tells a rewritten) {f : α → β}
    (hf : ∀ x y, f x = f y → x = y) : Tells (f a) (f rewritten.1, rewritten.2) := by
  rw [Tells] at h ⊢
  rw [h]
  exact not_congr ⟨fun heq => congrArg f heq, hf _ _⟩

/-- Two parts of a whole. -/
theorem map₂ {a : α} {b : β} {rewritten : α × Bool} {rewritten' : β × Bool}
    (h : Tells a rewritten) (h' : Tells b rewritten') {f : α → β → γ}
    (hf : ∀ x x' y y', f x y = f x' y' → x = x' ∧ y = y') :
    Tells (f a b) (f rewritten.1 rewritten'.1, rewritten.2 || rewritten'.2) := by
  rw [Tells] at h h' ⊢
  rw [Bool.or_eq_true, h, h', ← not_and_or]
  exact not_congr ⟨fun ⟨ha, hb⟩ => by rw [ha, hb], hf _ _ _ _⟩

theorem pair {a : α} {b : β} {rewritten : α × Bool} {rewritten' : β × Bool}
    (h : Tells a rewritten) (h' : Tells b rewritten') :
    Tells (a, b) ((rewritten.1, rewritten'.1), rewritten.2 || rewritten'.2) :=
  h.map₂ h' fun _ _ _ _ => Prod.mk.inj

/-- The items of a list. -/
theorem each {rewrite : α → α × Bool} {items : List α} (h : ∀ a ∈ items, Tells a (rewrite a)) :
    Tells items ((items.map rewrite).map Prod.fst, (items.map rewrite).any Prod.snd) := by
  induction items with
  | nil => exact unchanged []
  | cons a items ih =>
    exact (h a List.mem_cons_self).map₂ (ih fun b hb => h b (.tail _ hb))
      fun _ _ _ _ => List.cons.inj

end Tells

end HarborSql
