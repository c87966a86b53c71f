import Mathlib.Logic.Function.Basic

/-! Labelled machines and the states of their runs. A run may be restricted by a condition
`ok` on the state before a step and the step's label; the unrestricted runs are those of
`fun _ _ => True`. Everything here is about an arbitrary machine. -/

namespace HarborSql

universe u v

/-- A machine with labelled steps. `step s a = none` when `a` cannot happen in `s`. -/
structure Machine (σ : Type u) (α : Type v) where
  init : σ
  step : σ → α → Option σ

namespace Machine

variable {σ : Type u} {α : Type v}

/-- `t` ends a run from `s` all of whose steps meet `ok`. -/
inductive ReachesBy (M : Machine σ α) (ok : σ → α → Prop) (s : σ) : σ → Prop
  | refl : ReachesBy M ok s s
  | step {t u : σ} {a : α} : ReachesBy M ok s t → ok t a → M.step t a = some u →
    ReachesBy M ok s u

/-- The states of the runs from the initial state whose steps meet `ok`. -/
def ReachableBy (M : Machine σ α) (ok : σ → α → Prop) (s : σ) : Prop :=
  M.ReachesBy ok M.init s

/-- The reachable states. -/
def Reachable (M : Machine σ α) (s : σ) : Prop := M.ReachableBy (fun _ _ => True) s

/-- The state after the labels `as`, if they can happen one after the other. -/
def run (M : Machine σ α) (s : σ) : List α → Option σ
  | [] => some s
  | a :: as => (M.step s a).bind fun t => M.run t as

/-- Each of the labels meets `ok` where it happens. -/
def Meets (M : Machine σ α) (ok : σ → α → Prop) (s : σ) : List α → Prop
  | [] => True
  | a :: as => ok s a ∧ ∀ t ∈ M.step s a, M.Meets ok t as

instance decidableMeets (M : Machine σ α) (ok : σ → α → Prop) [∀ s a, Decidable (ok s a)] (s : σ) :
    (as : List α) → Decidable (M.Meets ok s as)
  | [] => inferInstanceAs (Decidable True)
  | a :: as =>
    have : ∀ t, Decidable (M.Meets ok t as) := fun t => decidableMeets M ok t as
    inferInstanceAs (Decidable (ok s a ∧ ∀ t ∈ M.step s a, M.Meets ok t as))

variable {M : Machine σ α} {ok ok' : σ → α → Prop} {s t u : σ} {I J : σ → Prop}

theorem ReachesBy.trans (h : M.ReachesBy ok s t) (h' : M.ReachesBy ok t u) :
    M.ReachesBy ok s u := by
  induction h' with
  | refl => exact h
  | step _ hok hs ih => exact .step ih hok hs

theorem ReachesBy.mono (H : ∀ s a, ok s a → ok' s a) (h : M.ReachesBy ok s t) :
    M.ReachesBy ok' s t := by
  induction h with
  | refl => exact .refl
  | step _ hok hs ih => exact .step ih (H _ _ hok) hs

/-- A predicate preserved by the steps that meet `ok` holds at the end of a run if it holds
at its start. -/
theorem ReachesBy.invariant (h : M.ReachesBy ok s t) (h0 : I s)
    (H : ∀ s a t, I s → ok s a → M.step s a = some t → I t) : I t := by
  induction h with
  | refl => exact h0
  | step _ hok hs ih => exact H _ _ _ ih hok hs

theorem ReachableBy.trans (h : M.ReachableBy ok s) (h' : M.ReachesBy ok s t) :
    M.ReachableBy ok t := ReachesBy.trans h h'

theorem ReachableBy.reachable (h : M.ReachableBy ok s) : M.Reachable s :=
  ReachesBy.mono (fun _ _ _ => trivial) h

theorem ReachableBy.invariant (h : M.ReachableBy ok s) (h0 : I M.init)
    (H : ∀ s a t, I s → ok s a → M.step s a = some t → I t) : I s :=
  ReachesBy.invariant h h0 H

/-- An invariant whose preservation may use an invariant `J` that is already known. -/
theorem ReachableBy.invariant_of (hJ : ∀ s, M.ReachableBy ok s → J s)
    (h : M.ReachableBy ok s) (h0 : I M.init)
    (H : ∀ s a t, J s → J t → I s → ok s a → M.step s a = some t → I t) : I s := by
  refine (ReachesBy.invariant (I := fun s => M.ReachableBy ok s ∧ I s) h ⟨.refl, h0⟩ ?_).2
  rintro s a t ⟨hr, hI⟩ hok hs
  have hr' : M.ReachableBy ok t := .step hr hok hs
  exact ⟨hr', H s a t (hJ s hr) (hJ t hr') hI hok hs⟩

/-- An explicit run whose labels meet `ok` in every state. -/
theorem reachesBy_run (as : List α) (hok : ∀ a ∈ as, ∀ s, ok s a) (h : (M.run s as).isSome) :
    M.ReachesBy ok s ((M.run s as).get h) := by
  induction as generalizing s with
  | nil => exact .refl
  | cons a as ih =>
    obtain ⟨s', hs⟩ := Option.isSome_iff_exists.mp (Option.isSome_of_isSome_bind h)
    have hrun : M.run s (a :: as) = M.run s' as := by simp [run, hs]
    simp only [hrun] at h ⊢
    exact .trans (.step .refl (hok a List.mem_cons_self s) hs)
      (ih (fun a ha => hok a (List.mem_cons_of_mem _ ha)) h)

/-- An explicit run whose labels meet `ok` where they happen. -/
theorem reachesBy_of_meets (as : List α) (hok : M.Meets ok s as) (h : (M.run s as).isSome) :
    M.ReachesBy ok s ((M.run s as).get h) := by
  induction as generalizing s with
  | nil => exact .refl
  | cons a as ih =>
    obtain ⟨s', hs⟩ := Option.isSome_iff_exists.mp (Option.isSome_of_isSome_bind h)
    have hrun : M.run s (a :: as) = M.run s' as := by simp [run, hs]
    simp only [hrun] at h ⊢
    exact .trans (.step .refl hok.1 hs) (ih (hok.2 s' hs) h)

theorem reachable_run (M : Machine σ α) (as : List α) (h : (M.run M.init as).isSome) :
    M.Reachable ((M.run M.init as).get h) :=
  reachesBy_run as (fun _ _ _ => trivial) h

end Machine
end HarborSql
