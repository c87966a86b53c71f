/-! Reading a list in windows. A reader that starts each window where the last one ended, and asks
for at least one element each time, reads the list once, in order and to its end. -/

namespace HarborSql.Cursor

universe u v
variable {α : Type u} {β : Type v}

/-- At most `limit` elements from position `start`. -/
def window (xs : List α) (start limit : Nat) : List α := (xs.drop start).take limit

/-- The position after a window, in a list of `n` elements. -/
def advance (n start limit : Nat) : Nat := start + min limit (n - start)

/-- The position after some windows. -/
def position (n : Nat) (start : Nat) (limits : List Nat) : Nat := limits.foldl (advance n) start

/-- Windows that follow each other. -/
def windows (xs : List α) : Nat → List Nat → List (List α)
  | _, [] => []
  | start, limit :: limits =>
    window xs start limit :: windows xs (advance xs.length start limit) limits

variable {xs ys : List α} {n start limit : Nat} {limits : List Nat}

theorem window_length : (window xs start limit).length = min limit (xs.length - start) := by
  rw [window, List.length_take, List.length_drop]

theorem window_map (f : α → β) : window (xs.map f) start limit = (window xs start limit).map f := by
  rw [window, window, List.map_take, List.map_drop]

/-- A window of a concatenation continues in the second list where the first one ends. -/
theorem window_append : window (xs ++ ys) start limit =
    window xs start limit ++ window ys (start - xs.length) (limit - (xs.length - start)) := by
  rw [window, List.drop_append, List.take_append, List.length_drop]
  rfl

theorem window_zero : window xs start 0 = [] := List.take_zero

/-- Two windows that follow each other are one window. -/
theorem window_add (m : Nat) : window xs start (limit + m) =
    window xs start limit ++ window xs (advance xs.length start limit) m := by
  rw [window, window, window, advance, List.take_add, List.drop_drop]
  by_cases h : limit ≤ xs.length - start
  · rw [Nat.min_eq_left h]
  · have hdrop {k} (hk : xs.length ≤ k) : xs.drop k = [] := List.drop_eq_nil_of_le hk
    rw [hdrop (k := start + limit) (by omega), hdrop (k := start + min limit _) (by omega)]

theorem le_advance : start ≤ advance n start limit := Nat.le_add_right _ _

theorem advance_le (h : start ≤ n) : advance n start limit ≤ n := by
  unfold advance
  omega

theorem le_position : start ≤ position n start limits := by
  induction limits generalizing start with
  | nil => exact Nat.le_refl _
  | cons limit limits ih => exact Nat.le_trans le_advance ih

theorem position_le (h : start ≤ n) : position n start limits ≤ n := by
  induction limits generalizing start with
  | nil => exact h
  | cons limit limits ih => exact ih (advance_le h)

/-- The windows together are one window, up to the position after them. -/
theorem windows_flatten : (windows xs start limits).flatten =
    window xs start (position xs.length start limits - start) := by
  induction limits generalizing start with
  | nil => simp [windows, position, window]
  | cons limit limits ih =>
    let next := advance xs.length start limit
    have hnext : next = start + min limit (xs.length - start) := rfl
    have hle : next ≤ position xs.length next limits := le_position
    have hwindow : window xs start limit = window xs start (next - start) := by
      rw [window, window, List.take_eq_take_min, List.length_drop, hnext, Nat.add_sub_cancel_left]
    have hadvance : advance xs.length start (next - start) = next := by
      unfold advance
      omega
    calc window xs start limit ++ (windows xs next limits).flatten
      _ = window xs start (next - start) ++
          window xs next (position xs.length next limits - next) := by rw [ih, hwindow]
      _ = window xs start ((next - start) + (position xs.length next limits - next)) := by
          rw [window_add, hadvance]
      _ = window xs start (position xs.length start (limit :: limits) - start) := by
          have hstart : start ≤ next := le_advance
          rw [show position xs.length start (limit :: limits) = position xs.length next limits from rfl]
          congr 1
          omega

/-- From the start of the list, the windows are what has been read. -/
theorem windows_flatten_zero :
    (windows xs 0 limits).flatten = xs.take (position xs.length 0 limits) := by
  rw [windows_flatten, window, List.drop_zero, Nat.sub_zero]

/-- Each positive limit reads on, until the end. -/
theorem min_le_position (h : ∀ limit ∈ limits, 0 < limit) :
    min n (start + limits.length) ≤ position n start limits := by
  induction limits generalizing start with
  | nil =>
    simp only [List.length_nil, position, List.foldl_nil]
    omega
  | cons limit limits ih =>
    have hpos := h limit List.mem_cons_self
    have ih : min n (advance n start limit + limits.length) ≤
        position n (advance n start limit) limits := ih fun l hl => h l (List.mem_cons_of_mem _ hl)
    have hstep : min n (start + 1) ≤ advance n start limit := by
      unfold advance
      omega
    simp only [List.length_cons]
    refine Nat.le_trans ?_ ih
    omega

/-- A reader with positive limits is at the end after as many windows as there are elements. -/
theorem position_eq (hn : start ≤ n) (h : ∀ limit ∈ limits, 0 < limit)
    (hlen : n - start ≤ limits.length) : position n start limits = n := by
  have : min n (start + limits.length) ≤ position n start limits := min_le_position h
  have : position n start limits ≤ n := position_le hn
  omega

end HarborSql.Cursor
