import Mathlib.Data.List.Forall2

/-! When a computation that may fail gives a value. -/

namespace HarborSql.Except

universe u
variable {ε α β : Type u}

/-- The value, or a default. -/
def getD : Except ε α → α → α
  | .ok a, _ => a
  | .error _, d => d

theorem eq_ok_getD {x : Except ε α} (h : ∃ a, x = .ok a) (d : α) : x = .ok (getD x d) := by
  obtain ⟨a, rfl⟩ := h
  rfl

theorem bind_eq_ok {x : Except ε α} {f : α → Except ε β} {b : β} :
    x >>= f = .ok b ↔ ∃ a, x = .ok a ∧ f a = .ok b := by
  cases x with
  | error e => simp [bind, Except.bind]
  | ok a => simp [bind, Except.bind]

theorem map_eq_ok {x : Except ε α} {f : α → β} {b : β} :
    f <$> x = .ok b ↔ ∃ a, x = .ok a ∧ f a = b := by
  cases x with
  | error e => simp [Functor.map, Except.map]
  | ok a => simp [Functor.map, Except.map]

theorem map_eq_error {x : Except ε α} {f : α → β} {e : ε} :
    f <$> x = .error e ↔ x = .error e := by
  cases x with
  | error e' => simp [Functor.map, Except.map]
  | ok a => simp [Functor.map, Except.map]

theorem mapM_eq_ok {f : α → Except ε β} {xs : List α} {ys : List β} :
    xs.mapM f = .ok ys ↔ List.Forall₂ (fun x y => f x = .ok y) xs ys := by
  induction xs generalizing ys with
  | nil =>
    rw [List.mapM_nil, List.forall₂_nil_left_iff]
    exact ⟨fun h => (Except.ok.inj h).symm, fun h => h ▸ rfl⟩
  | cons x xs ih =>
    rw [List.mapM_cons, bind_eq_ok, List.forall₂_cons_left_iff]
    constructor
    · rintro ⟨y, hy, h⟩
      obtain ⟨ys, hys, h⟩ := bind_eq_ok.mp h
      exact ⟨y, ys, hy, ih.mp hys, (Except.ok.inj h).symm⟩
    · rintro ⟨y, ys, hy, hys, rfl⟩
      exact ⟨y, hy, bind_eq_ok.mpr ⟨ys, ih.mpr hys, rfl⟩⟩

/-- A function of the results of a fallible one. -/
theorem mapM_map_result {γ : Type u} (f : α → Except ε β) (g : β → γ) (xs : List α) :
    (xs.mapM fun a => g <$> f a) = List.map g <$> xs.mapM f := by
  induction xs with
  | nil => rfl
  | cons a xs ih =>
    rw [List.mapM_cons, List.mapM_cons, ih]
    cases f a with
    | error e => rfl
    | ok b => cases xs.mapM f <;> rfl

/-- A function that succeeds on every element. -/
theorem mapM_eq_map {f : α → Except ε β} {g : α → β} {xs : List α}
    (h : ∀ x ∈ xs, f x = .ok (g x)) : xs.mapM f = .ok (xs.map g) := by
  rw [mapM_eq_ok, List.forall₂_map_right_iff, List.forall₂_same]
  exact h

/-- The same of a function that is given the positions too. -/
theorem mapM_zipIdx_eq_map {f : α × Nat → Except ε β} {g : α → β} {xs : List α}
    (h : ∀ x ∈ xs, ∀ i, f (x, i) = .ok (g x)) : xs.zipIdx.mapM f = .ok (xs.map g) := by
  rw [mapM_eq_map (g := g ∘ Prod.fst) fun p hp => h p.1 (List.fst_mem_of_mem_zipIdx hp) p.2,
    ← List.map_map, List.zipIdx_map_fst]

/-- All elements of a list succeed, or the list does not. -/
theorem exists_mapM_eq_ok {f : α → Except ε β} {xs : List α} :
    (∃ ys, xs.mapM f = .ok ys) ↔ ∀ x ∈ xs, ∃ y, f x = .ok y := by
  induction xs with
  | nil => exact ⟨fun _ _ hx => (List.not_mem_nil hx).elim, fun _ => ⟨[], rfl⟩⟩
  | cons x xs ih =>
    rw [List.forall_mem_cons, ← ih, List.mapM_cons]
    simp only [bind_eq_ok]
    constructor
    · rintro ⟨_, y, hy, ys, hys, -⟩
      exact ⟨⟨y, hy⟩, ys, hys⟩
    · rintro ⟨⟨y, hy⟩, ys, hys⟩
      exact ⟨y :: ys, y, hy, ys, hys, rfl⟩

/-- What an element succeeds with is in one piece in the flattened result. -/
theorem mapM_block {f : α → Except ε (List β)} {xs : List α} {ys : List (List β)}
    (h : xs.mapM f = .ok ys) {x : α} (hx : x ∈ xs) {y : List β} (hy : f x = .ok y) :
    ∃ before after, ys.flatten = before ++ y ++ after := by
  rw [mapM_eq_ok] at h
  induction h with
  | nil => cases hx
  | @cons x' y' xs ys hhead _ ih =>
    rw [List.flatten_cons]
    cases hx with
    | head =>
      obtain rfl := Except.ok.inj (hhead.symm.trans hy)
      exact ⟨[], ys.flatten, rfl⟩
    | tail _ hx =>
      obtain ⟨before, after, heq⟩ := ih hx
      exact ⟨y' ++ before, after, by rw [heq, List.append_assoc, List.append_assoc,
        List.append_assoc]⟩

theorem exists_of_mem_mapM {f : α → Except ε β} {xs : List α} {ys : List β} {y : β}
    (h : xs.mapM f = .ok ys) (hy : y ∈ ys) : ∃ x ∈ xs, f x = .ok y := by
  rw [mapM_eq_ok] at h
  induction h with
  | nil => cases hy
  | @cons x' y' xs ys hhead _ ih =>
    obtain rfl | hy := List.mem_cons.mp hy
    · exact ⟨x', List.mem_cons_self, hhead⟩
    · obtain ⟨x, hx, hf⟩ := ih hy
      exact ⟨x, List.mem_cons_of_mem x' hx, hf⟩

/-! ## Searches -/

/-- All that a search finds has a property. -/
def FindsOnly (x : Except ε (List β)) (P : β → Prop) : Prop :=
  ∀ found, x = .ok found → ∀ b ∈ found, P b

theorem FindsOnly.search {x : Except ε (List α)} {f : α → Except ε (List β)} {P : β → Prop}
    (h : ∀ xs, x = .ok xs → ∀ a ∈ xs, FindsOnly (f a) P) :
    FindsOnly (do return (← (← x).mapM f).flatten) P := by
  intro found hfound b hb
  obtain ⟨xs, hx, hfound⟩ := bind_eq_ok.mp hfound
  obtain ⟨founds, hfounds, hfound⟩ := bind_eq_ok.mp hfound
  obtain rfl := Except.ok.inj hfound
  obtain ⟨found, hmem, hb⟩ := List.mem_flatten.mp hb
  obtain ⟨a, ha, hf⟩ := exists_of_mem_mapM hfounds hmem
  exact h xs hx a ha found hf b hb

/-- `y` finds all that is kept of what `x` finds. -/
def Prunes (keep : β → Bool) (x y : Except ε (List β)) : Prop :=
  ∀ found, x = .ok found → ∃ found', y = .ok found' ∧ found'.filter keep = found.filter keep

theorem Prunes.of_eq {keep : β → Bool} {x y : Except ε (List β)} (h : y = x) : Prunes keep x y :=
  fun found hx => ⟨found, h.trans hx, rfl⟩

theorem Prunes.perm {keep : β → Bool} {x y : Except ε (List β)} {found : List β}
    (h : Prunes keep x y) (hfound : x = .ok found) :
    ∃ found', y = .ok found' ∧ (found'.filter keep).Perm (found.filter keep) := by
  obtain ⟨found', hfound', heq⟩ := h found hfound
  exact ⟨found', hfound', .of_eq heq⟩

theorem mapM_prune {keep : β → Bool} {f g : α → Except ε (List β)} {p : α → Bool} {xs : List α}
    {founds : List (List β)} (h : xs.mapM f = .ok founds)
    (hprunes : ∀ x ∈ xs, p x = true → Prunes keep (f x) (g x))
    (hempty : ∀ x ∈ xs, p x = false → ∀ found, f x = .ok found → found.filter keep = []) :
    ∃ founds', (xs.filter p).mapM g = .ok founds' ∧
      founds'.flatten.filter keep = founds.flatten.filter keep := by
  rw [mapM_eq_ok] at h
  induction h with
  | nil => exact ⟨[], rfl, rfl⟩
  | @cons x found xs founds hx _ ih =>
    obtain ⟨founds', hfounds', heq⟩ := ih
      (fun x hx => hprunes x (List.mem_cons_of_mem _ hx))
      (fun x hx => hempty x (List.mem_cons_of_mem _ hx))
    rw [List.flatten_cons, List.filter_append]
    cases hp : p x with
    | true =>
      obtain ⟨found', hfound', hkept⟩ := hprunes x List.mem_cons_self hp found hx
      refine ⟨found' :: founds', ?_, ?_⟩
      · rw [List.filter_cons_of_pos hp, List.mapM_cons]
        exact bind_eq_ok.mpr ⟨found', hfound', bind_eq_ok.mpr ⟨founds', hfounds', rfl⟩⟩
      · rw [List.flatten_cons, List.filter_append, hkept, heq]
    | false =>
      refine ⟨founds', ?_, ?_⟩
      · rw [List.filter_cons_of_neg (by simp [hp])]
        exact hfounds'
      · rw [hempty x List.mem_cons_self hp found hx, List.nil_append, heq]

/-- A search may leave out the elements under which nothing is kept. -/
theorem Prunes.search {keep : β → Bool} {x y : Except ε (List α)} {f g : α → Except ε (List β)}
    {p : α → Bool} (hxy : ∀ xs, x = .ok xs → y = .ok (xs.filter p))
    (hprunes : ∀ xs, x = .ok xs → ∀ a ∈ xs, p a = true → Prunes keep (f a) (g a))
    (hempty : ∀ xs, x = .ok xs → ∀ a ∈ xs, p a = false → ∀ found, f a = .ok found →
      found.filter keep = []) :
    Prunes keep (do return (← (← x).mapM f).flatten) (do return (← (← y).mapM g).flatten) := by
  intro found h
  obtain ⟨xs, hx, h⟩ := bind_eq_ok.mp h
  obtain ⟨founds, hfounds, h⟩ := bind_eq_ok.mp h
  obtain rfl := Except.ok.inj h
  obtain ⟨founds', hfounds', heq⟩ := mapM_prune hfounds (hprunes xs hx) (hempty xs hx)
  exact ⟨founds'.flatten,
    bind_eq_ok.mpr ⟨_, hxy xs hx, bind_eq_ok.mpr ⟨founds', hfounds', rfl⟩⟩, heq⟩

end HarborSql.Except
