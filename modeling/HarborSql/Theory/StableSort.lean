import Mathlib.Data.List.Sort
import Mathlib.Data.List.Lex

/-! Stable sorts: what is known of two neighbours in the result. -/

namespace HarborSql

section
variable {α : Type}

theorem not_both_sublist {l : List α} (hl : l.Nodup) {x y : α} (h : List.Sublist [x, y] l)
    (h' : List.Sublist [y, x] l) : False := by
  induction l with
  | nil => cases h
  | cons a l ih =>
    obtain ⟨ha, hl⟩ := List.nodup_cons.mp hl
    cases h with
    | cons _ h =>
      cases h' with
      | cons _ h' => exact ih hl h h'
      | cons_cons _ h' => exact ha (h.subset (List.mem_cons_of_mem _ List.mem_cons_self))
    | cons_cons _ h =>
      cases h' with
      | cons _ h' => exact ha (h'.subset (List.mem_cons_of_mem _ List.mem_cons_self))
      | cons_cons _ h' => exact ha (h.subset List.mem_cons_self)

/-- Two different elements of a list are in one of the two orders. -/
theorem pair_sublist_or {l : List α} {x y : α} (hx : x ∈ l) (hy : y ∈ l) (hne : x ≠ y) :
    List.Sublist [x, y] l ∨ List.Sublist [y, x] l := by
  induction l with
  | nil => cases hx
  | cons a l ih =>
    rw [List.mem_cons] at hx hy
    cases hx with
    | inl hx =>
      subst hx
      have hy := hy.resolve_left fun h => hne h.symm
      exact .inl ((List.singleton_sublist.mpr hy).cons_cons x)
    | inr hx =>
      cases hy with
      | inl hy =>
        subst hy
        exact .inr ((List.singleton_sublist.mpr hx).cons_cons y)
      | inr hy => exact (ih hx hy).imp (·.cons a) (·.cons a)

variable {le : α → α → Bool} (trans : ∀ a b c, le a b → le b c → le a c)
  (total : ∀ a b, le a b || le b a)
include trans total

/-- Elements that are as good as each other stay in their order. -/
theorem pairwise_mergeSort_stable {l : List α} {place : α → Nat}
    (hplace : l.Pairwise fun x y => place x < place y) :
    (l.mergeSort le).Pairwise fun x y => le x y ∧ (le y x → place x < place y) := by
  have hnodup : l.Nodup := hplace.imp fun h heq => absurd (congrArg place heq) (Nat.ne_of_lt h)
  have hnodup' : (l.mergeSort le).Nodup := (List.mergeSort_perm l le).nodup_iff.mpr hnodup
  rw [List.pairwise_iff_forall_sublist]
  intro x y hsub
  refine ⟨List.pairwise_iff_forall_sublist.mp (List.pairwise_mergeSort trans total l) hsub,
    fun hyx => ?_⟩
  have hx : x ∈ l := List.mem_mergeSort.mp (hsub.subset List.mem_cons_self)
  have hy : y ∈ l :=
    List.mem_mergeSort.mp (hsub.subset (List.mem_cons_of_mem _ List.mem_cons_self))
  have hne : x ≠ y := by
    rintro rfl
    exact not_both_sublist hnodup' hsub hsub
  rcases pair_sublist_or hx hy hne with h | h
  · exact List.pairwise_iff_forall_sublist.mp hplace h
  · exact (not_both_sublist hnodup' hsub
      (List.pair_sublist_mergeSort trans total hyx h)).elim

end

end HarborSql
