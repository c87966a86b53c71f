import HarborSql.Theory.Interleaving

/-! Threads that come to their end in a bounded number of their own sections, whatever the other
threads do in between. -/

namespace HarborSql

universe u v w x y

/-- The sections of one thread. -/
def Action.isExecOf {ρ : Type w} {ι : Type x} {ε : Type y} (i : ThreadId) : Action ρ ι ε → Bool
  | .exec j _ => j = i
  | _ => false

namespace Program

variable {σ : Type u} {κ : Type v} {ρ : Type w} {ι : Type x} {ε : Type y}

/-- Every section brings its thread closer to its end, in the configurations where `J` holds. -/
structure Ranked (P : Program σ κ ρ ι ε) (J : Conf σ κ → Prop) (rank : κ → Nat) (bound : Nat) :
    Prop where
  start : ∀ {c request k}, J c → P.start c.shared request = some k → rank k ≤ bound
  exec : ∀ {c i input k s l}, J c → c.threads i = some k →
    P.exec c.shared i k input = some (s, l) → rank l < rank k
  drop : ∀ {c i k s l}, J c → c.threads i = some k → P.drop c.shared k = some (s, l) →
    rank l ≤ rank k

/-- How many sections a thread can still take, also one that is not started yet. -/
def remaining (rank : κ → Nat) (bound : Nat) (c : Conf σ κ) (i : ThreadId) : Nat :=
  ((c.threads i).map rank).getD bound

variable {P : Program σ κ ρ ι ε} {J : Conf σ κ → Prop} {rank : κ → Nat} {bound : Nat}
variable {c c' : Conf σ κ} {a : Action ρ ι ε} {s : σ} {i j : ThreadId} {k : κ}

theorem remaining_of_some (h : c.threads i = some k) : remaining rank bound c i = rank k := by
  rw [remaining, h]
  rfl

theorem remaining_set_self : remaining rank bound (c.set s i k) i = rank k :=
  remaining_of_some Conf.set_threads_self

theorem remaining_set_of_ne (h : j ≠ i) :
    remaining rank bound (c.set s i k) j = remaining rank bound c j := by
  rw [remaining, Conf.set_threads_of_ne h, remaining]

namespace Ranked

variable (H : P.Ranked J rank bound)
include H

theorem step (hJ : J c) (hs : P.step c a = some c') :
    (if a.isExecOf i then 1 else 0) + remaining rank bound c' i ≤ remaining rank bound c i := by
  rcases step_cases hs with ⟨j, request, k, rfl, hj, hk, rfl⟩ |
    ⟨j, input, k, s, l, rfl, hj, hk, rfl⟩ | ⟨j, k, s, l, rfl, hj, hk, rfl⟩ | ⟨event, s, rfl, -, rfl⟩
  · by_cases hij : i = j
    · subst hij
      rw [remaining_set_self, remaining, hj]
      simpa [Action.isExecOf] using H.start hJ hk
    · simp [Action.isExecOf, remaining_set_of_ne hij]
  · by_cases hij : i = j
    · subst hij
      rw [remaining_set_self, remaining_of_some hj]
      have hlt := H.exec hJ hj hk
      simp only [Action.isExecOf, decide_true, if_true]
      omega
    · simp [Action.isExecOf, remaining_set_of_ne hij, Ne.symm hij]
  · by_cases hij : i = j
    · subst hij
      rw [remaining_set_self, remaining_of_some hj]
      simpa [Action.isExecOf] using H.drop hJ hj hk
    · simp [Action.isExecOf, remaining_set_of_ne hij]
  · simp [Action.isExecOf, remaining]

omit H in
theorem mono {J' : Conf σ κ → Prop} (H : P.Ranked J rank bound) (h : ∀ c, J' c → J c) :
    P.Ranked J' rank bound where
  start hJ := H.start (h _ hJ)
  exec hJ := H.exec (h _ hJ)
  drop hJ := H.drop (h _ hJ)

/-- What a thread can take in any reachable configuration. -/
theorem remaining_le {s₀ : σ} (hJ : ∀ c, (P.machine s₀).Reachable c → J c)
    (hc : (P.machine s₀).Reachable c) : remaining rank bound c i ≤ bound := by
  refine Machine.ReachableBy.invariant_of (I := fun c => remaining rank bound c i ≤ bound) hJ hc
    (Nat.le_refl bound) fun c a c' hc _ hle _ hs => ?_
  exact Nat.le_trans (Nat.le_trans (Nat.le_add_left _ _) (H.step hc hs)) hle

/-- No run has more sections of a thread than the thread can take. -/
theorem countP_le (hstep : ∀ {c a c'}, J c → P.step c a = some c' → J c') {s₀ : σ}
    {as : List (Action ρ ι ε)} (hJ : J c) (hrun : (P.machine s₀).run c as = some c') :
    as.countP (·.isExecOf i) + remaining rank bound c' i ≤ remaining rank bound c i := by
  induction as generalizing c with
  | nil =>
    obtain rfl := Option.some.inj hrun
    rw [List.countP_nil]
    omega
  | cons a as ih =>
    obtain ⟨c₁, hs, hrun⟩ := Option.bind_eq_some_iff.mp hrun
    have hle := H.step (i := i) hJ hs
    have hrest := ih (hstep hJ hs) hrun
    rw [List.countP_cons]
    omega

/-- A thread that can always go on until it has stopped comes to its stop by itself. -/
theorem stops {stopped : σ → κ → Prop} {s₀ : σ}
    (hexec : ∀ {c input c'}, J c → P.step c (.exec i input) = some c' → J c')
    (hcan : ∀ {c k}, J c → c.threads i = some k → ¬ stopped c.shared k →
      ∃ input, (P.exec c.shared i k input).isSome) (hJ : J c) (hk : c.threads i = some k) :
    ∃ inputs : List ι, inputs.length ≤ rank k ∧ ∃ c' k',
      (P.machine s₀).run c (inputs.map fun input => .exec i input) = some c' ∧ J c' ∧
        c'.threads i = some k' ∧ stopped c'.shared k' := by
  induction hr : rank k using Nat.strongRecOn generalizing c k with
  | _ r ih =>
    by_cases hstopped : stopped c.shared k
    · exact ⟨[], Nat.zero_le _, c, k, rfl, hJ, hk, hstopped⟩
    · obtain ⟨input, hsome⟩ := hcan hJ hk hstopped
      obtain ⟨⟨s, l⟩, hl⟩ := Option.isSome_iff_exists.mp hsome
      have hs : P.step c (.exec i input) = some (c.set s i l) := by
        rw [Program.step, hk, Option.bind_some, hl]
        rfl
      have hlt := H.exec hJ hk hl
      obtain ⟨inputs, hlen, c', k', hrun, hJ', hk', hstopped'⟩ :=
        ih _ (hr ▸ hlt) (hexec hJ hs) Conf.set_threads_self rfl
      refine ⟨input :: inputs, ?_, c', k', ?_, hJ', hk', hstopped'⟩
      · rw [List.length_cons]
        omega
      · exact Option.bind_eq_some_iff.mpr ⟨_, hs, hrun⟩

end Ranked
end Program
end HarborSql
