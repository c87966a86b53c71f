import Mathlib.Data.List.Infix
import Mathlib.Data.List.Sort

/-! Routing to the longest prefix. Records of which the last of a key counts, the first match of a list sorted by descending size, and prefixes of whole
segments. -/

namespace HarborSql

namespace Routing

universe u v

/-! ## Records by key -/

section Records

variable {κ : Type u} {ν : Type v} [DecidableEq κ] {k k' : κ} {w : ν}
  {records : List (κ × ν)}

/-- The value that was recorded last under a key. -/
def lastRecorded (records : List (κ × ν)) (k : κ) : Option ν :=
  ((records.filter (·.1 = k)).getLast?).map (·.2)

@[simp] theorem lastRecorded_nil : lastRecorded ([] : List (κ × ν)) k = none := rfl

theorem lastRecorded_concat :
    lastRecorded (records ++ [(k', w)]) k = if k' = k then some w else lastRecorded records k := by
  by_cases h : k' = k
  · simp [lastRecorded, h]
  · simp [lastRecorded, h]

theorem lastRecorded_eq_none : lastRecorded records k = none ↔ ∀ v, (k, v) ∉ records := by
  rw [lastRecorded, Option.map_eq_none_iff, List.getLast?_eq_none_iff, List.filter_eq_nil_iff]
  constructor
  · intro h v hv
    exact h (k, v) hv (decide_eq_true rfl)
  · intro h r hr hk
    obtain rfl := of_decide_eq_true hk
    exact h r.2 hr

end Records

/-! ## The first match in descending order -/

section Largest

variable {α : Type u} {l : List α} {size : α → Nat} {p : α → Bool} {x : α}

/-- `x` is the greatest of the elements that satisfy `p`. -/
structure Largest (l : List α) (size : α → Nat) (p : α → Bool) (x : α) : Prop where
  mem : x ∈ l
  holds : p x
  largest : ∀ y ∈ l, p y → size y ≤ size x

/-- The list in descending order of size, elements of one size in their order. -/
def descending (l : List α) (size : α → Nat) : List α :=
  l.mergeSort fun x y => decide (size y ≤ size x)

@[simp] theorem mem_descending : x ∈ descending l size ↔ x ∈ l := List.mem_mergeSort

theorem pairwise_descending : (descending l size).Pairwise fun x y => size y ≤ size x := by
  have h : (descending l size).Pairwise fun x y => decide (size y ≤ size x) = true := by
    apply List.pairwise_mergeSort
    · intro a b c hab hbc
      simp only [decide_eq_true_eq] at *
      omega
    · intro a b
      simp only [Bool.or_eq_true, decide_eq_true_eq]
      omega
  exact h.imp of_decide_eq_true

theorem find_descending (h : (descending l size).find? p = some x) : Largest l size p x := by
  obtain ⟨hx, before, after, heq, hbefore⟩ := List.find?_eq_some_iff_append.mp h
  have hmem : ∀ y, y ∈ l ↔ y ∈ before ++ x :: after := fun y => by
    rw [← heq, mem_descending]
  have hsorted : (before ++ x :: after).Pairwise fun x y => size y ≤ size x :=
    heq ▸ pairwise_descending
  refine ⟨(hmem x).mpr (by simp), hx, ?_⟩
  intro y hy hp
  rcases List.mem_append.mp ((hmem y).mp hy) with hy | hy
  · have := hbefore y hy
    simp [hp] at this
  · rcases List.mem_cons.mp hy with rfl | hy
    · exact Nat.le_refl _
    · exact List.rel_of_pairwise_cons (List.pairwise_append.mp hsorted).2.1 hy

/-- Where matches of one size are the same, the first match in descending order is the
greatest. -/
theorem find_descending_eq_some
    (unique : ∀ x ∈ l, ∀ y ∈ l, p x → p y → size x = size y → x = y) :
    (descending l size).find? p = some x ↔ Largest l size p x := by
  constructor
  · exact find_descending
  · intro h
    have hsome : ((descending l size).find? p).isSome :=
      List.find?_isSome.mpr ⟨x, mem_descending.mpr h.mem, h.holds⟩
    obtain ⟨y, hy⟩ := Option.isSome_iff_exists.mp hsome
    have hl := find_descending hy
    have hsize := Nat.le_antisymm (h.largest y hl.mem hl.holds) (hl.largest x h.mem h.holds)
    rw [hy, unique y hl.mem x h.mem hl.holds h.holds hsize]

theorem find_descending_eq_none :
    (descending l size).find? p = none ↔ ∀ x ∈ l, ¬p x := by
  simp [List.find?_eq_none]

end Largest

/-! ## Segments -/

section Segments

variable {α : Type u} {sep : α}

theorem intercalate_append {xs ys : List (List α)} (hx : xs ≠ []) (hy : ys ≠ []) :
    [sep].intercalate (xs ++ ys) = [sep].intercalate xs ++ sep :: [sep].intercalate ys := by
  induction xs with
  | nil => exact absurd rfl hx
  | cons x xs ih =>
    cases xs with
    | nil => rw [List.singleton_append, List.intercalate_cons_of_ne_nil hy]; simp
    | cons x' xs =>
      have := ih (List.cons_ne_nil x' xs)
      simp only [List.cons_append, List.intercalate_cons_cons] at this ⊢
      rw [this]
      simp

variable [DecidableEq α] {l m : List α}

/-- A list is cut into a prefix of the segments of another where the other goes on, if it does,
with a separator. -/
theorem splitOn_isPrefix_iff :
    l.splitOn sep <+: m.splitOn sep ↔ m = l ∨ ∃ rest, m = l ++ sep :: rest := by
  constructor
  · intro ⟨parts, h⟩
    have hm : m = [sep].intercalate (l.splitOn sep ++ parts) := by
      rw [h, List.intercalate_splitOn]
    cases parts with
    | nil => exact .inl (by rw [hm, List.append_nil, List.intercalate_splitOn])
    | cons part parts =>
      refine .inr ⟨[sep].intercalate (part :: parts), ?_⟩
      rw [hm, intercalate_append (List.splitOn_ne_nil sep l) (List.cons_ne_nil part parts),
        List.intercalate_splitOn]
  · intro h
    rcases h with rfl | ⟨rest, rfl⟩
    · exact List.prefix_rfl
    · rw [List.splitOn_append_cons_self]
      exact List.prefix_append _ _

end Segments

end Routing

end HarborSql
