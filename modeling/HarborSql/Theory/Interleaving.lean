import HarborSql.Theory.Machine

/-! Interleavings of threads over a shared state. A thread's program counter says which atomic
section it executes next; between two sections every other thread may run. A thread may be
dropped at the counters where the program allows it, which runs its destructors. -/

namespace HarborSql

universe u v w x y

abbrev ThreadId := Nat

/-- A shared state and the program counters of the threads started so far. A thread that has
ended keeps its last counter, so the name of a thread is never used twice. -/
structure Conf (σ : Type u) (κ : Type v) where
  shared : σ
  threads : ThreadId → Option κ

/-- The threads' code: how a request `ρ` starts a thread, the atomic section at a counter
(whose nondeterminism the input `ι` resolves), the destructors of a dropped thread, and what
the environment does on its own. -/
structure Program (σ : Type u) (κ : Type v) (ρ : Type w) (ι : Type x) (ε : Type y) where
  start : σ → ρ → Option κ
  exec : σ → ThreadId → κ → ι → Option (σ × κ)
  drop : σ → κ → Option (σ × κ)
  env : σ → ε → Option σ

/-- One step of an interleaving. -/
inductive Action (ρ : Type w) (ι : Type x) (ε : Type y) where
  | start (i : ThreadId) (request : ρ)
  | exec (i : ThreadId) (input : ι)
  | drop (i : ThreadId)
  | env (event : ε)

namespace Conf

variable {σ : Type u} {κ : Type v}

/-- Set the shared state and the counter of thread `i`. -/
def set (c : Conf σ κ) (s : σ) (i : ThreadId) (k : κ) : Conf σ κ where
  shared := s
  threads := Function.update c.threads i (some k)

variable {c : Conf σ κ} {s : σ} {i j : ThreadId} {k l : κ}

@[simp] theorem set_shared : (c.set s i k).shared = s := rfl

@[simp] theorem set_threads_self : (c.set s i k).threads i = some k := by simp [set]

theorem set_threads_of_ne (h : j ≠ i) : (c.set s i k).threads j = c.threads j := by
  simp [set, h]

theorem set_threads_eq_some : (c.set s i k).threads j = some l ↔
    (j = i ∧ k = l) ∨ (j ≠ i ∧ c.threads j = some l) := by
  by_cases h : j = i
  · simp [set, h]
  · simp [set, h]

end Conf

namespace Program

variable {σ : Type u} {κ : Type v} {ρ : Type w} {ι : Type x} {ε : Type y}

def step (P : Program σ κ ρ ι ε) (c : Conf σ κ) : Action ρ ι ε → Option (Conf σ κ)
  | .start i request =>
    match c.threads i with
    | none => (P.start c.shared request).map fun k => c.set c.shared i k
    | some _ => none
  | .exec i input =>
    (c.threads i).bind fun k => (P.exec c.shared i k input).map fun (s, k) => c.set s i k
  | .drop i => (c.threads i).bind fun k => (P.drop c.shared k).map fun (s, k) => c.set s i k
  | .env event => (P.env c.shared event).map fun s => { c with shared := s }

/-- The interleavings of a program from the shared state `s`, with no thread started. -/
def machine (P : Program σ κ ρ ι ε) (s : σ) : Machine (Conf σ κ) (Action ρ ι ε) where
  init := ⟨s, fun _ => none⟩
  step := P.step

variable {P : Program σ κ ρ ι ε} {c c' : Conf σ κ} {a : Action ρ ι ε}

/-- Everything a step can do. -/
theorem step_cases (h : P.step c a = some c') :
    (∃ i request k, a = .start i request ∧ c.threads i = none ∧
      P.start c.shared request = some k ∧ c' = c.set c.shared i k) ∨
    (∃ i input k s l, a = .exec i input ∧ c.threads i = some k ∧
      P.exec c.shared i k input = some (s, l) ∧ c' = c.set s i l) ∨
    (∃ i k s l, a = .drop i ∧ c.threads i = some k ∧
      P.drop c.shared k = some (s, l) ∧ c' = c.set s i l) ∨
    (∃ event s, a = .env event ∧ P.env c.shared event = some s ∧
      c' = { c with shared := s }) := by
  cases a with
  | start i request =>
    simp only [step] at h
    split at h
    · obtain ⟨k, hk, rfl⟩ := Option.map_eq_some_iff.mp h
      exact .inl ⟨i, request, k, rfl, ‹_›, hk, rfl⟩
    · cases h
  | exec i input =>
    obtain ⟨k, hk, h⟩ := Option.bind_eq_some_iff.mp (by simpa only [step] using h)
    obtain ⟨⟨s, l⟩, hs, rfl⟩ := Option.map_eq_some_iff.mp h
    exact .inr <| .inl ⟨i, input, k, s, l, rfl, hk, hs, rfl⟩
  | drop i =>
    obtain ⟨k, hk, h⟩ := Option.bind_eq_some_iff.mp (by simpa only [step] using h)
    obtain ⟨⟨s, l⟩, hs, rfl⟩ := Option.map_eq_some_iff.mp h
    exact .inr <| .inr <| .inl ⟨i, k, s, l, rfl, hk, hs, rfl⟩
  | env event =>
    obtain ⟨s, hs, rfl⟩ := Option.map_eq_some_iff.mp (by simpa only [step] using h)
    exact .inr <| .inr <| .inr ⟨event, s, rfl, hs, rfl⟩

section Proof
variable {ok : Conf σ κ → Action ρ ι ε → Prop} {s₀ : σ}

/-- A global invariant `G` of the shared state and a local invariant `L` of every thread,
each section of one thread preserving the local invariants of the others. -/
structure Outline (P : Program σ κ ρ ι ε) (ok : Conf σ κ → Action ρ ι ε → Prop)
    (G : σ → Prop) (L : σ → ThreadId → κ → Prop) : Prop where
  start : ∀ {c i request k}, ok c (.start i request) → G c.shared →
    P.start c.shared request = some k → L c.shared i k
  exec : ∀ {c i input k s l}, ok c (.exec i input) → G c.shared → c.threads i = some k →
    L c.shared i k → P.exec c.shared i k input = some (s, l) →
    G s ∧ L s i l ∧ ∀ j m, j ≠ i → L c.shared j m → L s j m
  drop : ∀ {c i k s l}, ok c (.drop i) → G c.shared → c.threads i = some k →
    L c.shared i k → P.drop c.shared k = some (s, l) →
    G s ∧ L s i l ∧ ∀ j m, j ≠ i → L c.shared j m → L s j m
  env : ∀ {c event s}, ok c (.env event) → G c.shared → P.env c.shared event = some s →
    G s ∧ ∀ j m, L c.shared j m → L s j m

/-- The invariants of a proof outline hold along every run. -/
theorem Outline.invariant {G : σ → Prop} {L : σ → ThreadId → κ → Prop}
    (H : P.Outline ok G L) (h0 : G s₀) (hr : (P.machine s₀).ReachableBy ok c) :
    G c.shared ∧ ∀ i k, c.threads i = some k → L c.shared i k := by
  refine Machine.ReachableBy.invariant
    (I := fun c => G c.shared ∧ ∀ i k, c.threads i = some k → L c.shared i k) hr
    ⟨h0, fun i k hk => by cases hk⟩ ?_
  rintro c a c' ⟨hG, hL⟩ hok hs
  have others {s i l} (hs : ∀ j m, j ≠ i → L c.shared j m → L s j m) (hl : L s i l) :
      ∀ j m, (c.set s i l).threads j = some m → L (c.set s i l).shared j m := by
    intro j m hm
    rcases Conf.set_threads_eq_some.mp hm with ⟨rfl, rfl⟩ | ⟨hj, hm⟩
    · exact hl
    · exact hs j m hj (hL j m hm)
  rcases step_cases hs with ⟨i, request, k, rfl, hi, hk, rfl⟩ | ⟨i, input, k, s, l, rfl, hi, hk, rfl⟩ |
    ⟨i, k, s, l, rfl, hi, hk, rfl⟩ | ⟨event, s, rfl, he, rfl⟩
  · exact ⟨hG, others (fun _ _ _ h => h) (H.start hok hG hk)⟩
  · obtain ⟨hG', hl, hs⟩ := H.exec hok hG hi (hL i k hi) hk
    exact ⟨hG', others hs hl⟩
  · obtain ⟨hG', hl, hs⟩ := H.drop hok hG hi (hL i k hi) hk
    exact ⟨hG', others hs hl⟩
  · obtain ⟨hG', hs⟩ := H.env hok hG he
    exact ⟨hG', fun j m hm => hs j m (hL j m hm)⟩

end Proof
end Program
end HarborSql
