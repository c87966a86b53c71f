import Mathlib.Logic.Basic

/-! Asynchronous functions as far as others can see them: the calls that they await, the answers
that they get, and the guards that they hold. A future may be dropped whenever it waits. -/

namespace HarborSql

/-- A future. Its calls are of type `E` and a call is answered by an `R call`; a guard of type `G`
lives from where it is created to the end of the function. -/
inductive Async (E : Type) (R : E → Type) (G α : Type) where
  | ready (value : α)
  | await (call : E) (next : R call → Async E R G α)
  | guarded (guard : G) (rest : Async E R G α)

namespace Async

variable {E : Type} {R : E → Type} {G α β γ : Type}

protected def bind (m : Async E R G α) (f : α → Async E R G β) : Async E R G β :=
  match m with
  | ready value => f value
  | await call next => .await call fun answer => (next answer).bind f
  | guarded guard rest => .guarded guard (rest.bind f)

instance : Monad (Async E R G) where
  pure := .ready
  bind := .bind

theorem pure_def (x : α) : (pure x : Async E R G α) = .ready x := rfl

@[simp] theorem ready_bind (x : α) (f : α → Async E R G β) : ready x >>= f = f x := rfl

@[simp] theorem await_bind (call : E) (next : R call → Async E R G α) (f : α → Async E R G β) :
    await call next >>= f = .await call fun answer => next answer >>= f := rfl

@[simp] theorem guarded_bind (guard : G) (rest : Async E R G α) (f : α → Async E R G β) :
    guarded guard rest >>= f = .guarded guard (rest >>= f) := rfl

instance : LawfulMonad (Async E R G) := .mk' _
  (fun m => by
    change m.bind ready = m
    induction m with
    | ready _ => rfl
    | await call next ih => exact congrArg _ (funext ih)
    | guarded guard rest ih => exact congrArg _ ih)
  (fun _ _ => rfl)
  (fun m f g => by
    change (m.bind f).bind g = m.bind fun x => (f x).bind g
    induction m with
    | ready _ => rfl
    | await call next ih => exact congrArg _ (funext ih)
    | guarded guard rest ih => exact congrArg _ ih)

/-- What is seen of a run. -/
inductive Event (E : Type) (R : E → Type) (G : Type) where
  | answered (call : E) (answer : R call)
  /-- The future was dropped while it waited for the call. -/
  | abandoned (call : E)
  | dropped (guard : G)

namespace Event

/-- The call that was made. -/
def call? : Event E R G → Option E
  | answered call _ | abandoned call => some call
  | dropped _ => none

@[simp] theorem call?_answered {call : E} {answer : R call} :
    (answered call answer : Event E R G).call? = some call := rfl

@[simp] theorem call?_abandoned {call : E} : (abandoned call : Event E R G).call? = some call := rfl

@[simp] theorem call?_dropped {guard : G} : (dropped guard : Event E R G).call? = none := rfl

/-- The call was made when `front` had happened. -/
def CallsAfter (events front : List (Event E R G)) (call : E) : Prop :=
  ∃ e rest, events = front ++ e :: rest ∧ e.call? = some call

@[simp] theorem callsAfter_nil {front : List (Event E R G)} {call : E} :
    ¬ CallsAfter [] front call := by
  rintro ⟨e, rest, h, -⟩
  exact List.append_ne_nil_of_right_ne_nil front (List.cons_ne_nil e rest) h.symm

@[simp] theorem callsAfter_cons {e : Event E R G} {events front : List (Event E R G)} {call : E} :
    CallsAfter (e :: events) front call ↔
      (front = [] ∧ e.call? = some call) ∨
        ∃ back, front = e :: back ∧ CallsAfter events back call := by
  constructor
  · rintro ⟨e', rest, h, hcall⟩
    cases front with
    | nil =>
      obtain ⟨rfl, rfl⟩ := List.cons.inj h
      exact .inl ⟨rfl, hcall⟩
    | cons x back =>
      obtain ⟨rfl, rfl⟩ := List.cons.inj h
      exact .inr ⟨back, rfl, e', rest, rfl, hcall⟩
  · rintro (⟨rfl, hcall⟩ | ⟨back, rfl, e', rest, rfl, hcall⟩)
    · exact ⟨e, events, rfl, hcall⟩
    · exact ⟨e', rest, rfl, hcall⟩

theorem CallsAfter.mem {events front : List (Event E R G)} {call : E}
    (h : CallsAfter events front call) : ∃ e ∈ events, e.call? = some call := by
  obtain ⟨e, rest, rfl, hcall⟩ := h
  exact ⟨e, List.mem_append_right _ List.mem_cons_self, hcall⟩

end Event

/-- A future that is polled, and what it does up to its end: it returns a value, or is dropped at
an await. Its guards are dropped then. -/
inductive Runs : Async E R G α → List (Event E R G) → Option α → Prop
  | ready {value} : Runs (.ready value) [] (some value)
  | answered {call next answer events result} : Runs (next answer) events result →
    Runs (.await call next) (.answered call answer :: events) result
  | abandoned {call next} : Runs (.await call next) [.abandoned call] none
  | guarded {guard rest events result} : Runs rest events result →
    Runs (.guarded guard rest) (events ++ [.dropped guard]) result

/-- A future may be dropped before it is polled. -/
def Exits (m : Async E R G α) (events : List (Event E R G)) (result : Option α) : Prop :=
  events = [] ∧ result = none ∨ m.Runs events result

/-- A future without guards of its own. -/
inductive Unguarded : Async E R G α → Prop
  | ready {value} : Unguarded (.ready value)
  | await {call next} : (∀ answer, Unguarded (next answer)) → Unguarded (.await call next)

theorem Unguarded.bind {m : Async E R G α} {f : α → Async E R G β} (hm : m.Unguarded)
    (hf : ∀ x, (f x).Unguarded) : (m >>= f).Unguarded := by
  induction hm with
  | ready => exact hf _
  | await _ ih => exact .await ih

variable {events : List (Event E R G)}

theorem runs_ready {x : α} {result : Option α} :
    Runs (ready x : Async E R G α) events result ↔ events = [] ∧ result = some x := by
  constructor
  · rintro ⟨⟩
    exact ⟨rfl, rfl⟩
  · rintro ⟨rfl, rfl⟩
    exact .ready

theorem runs_await {call : E} {next : R call → Async E R G α} {result : Option α} :
    Runs (await call next) events result ↔
      (events = [.abandoned call] ∧ result = none) ∨
      ∃ answer rest, events = .answered call answer :: rest ∧ Runs (next answer) rest result := by
  constructor
  · rintro (_ | h | _ | _)
    · exact .inr ⟨_, _, rfl, h⟩
    · exact .inl ⟨rfl, rfl⟩
  · rintro (⟨rfl, rfl⟩ | ⟨answer, rest, rfl, h⟩)
    · exact .abandoned
    · exact .answered h

theorem runs_guarded {guard : G} {rest : Async E R G α} {result : Option α} :
    Runs (guarded guard rest) events result ↔
      ∃ front, events = front ++ [.dropped guard] ∧ Runs rest front result := by
  constructor
  · rintro (_ | _ | _ | h)
    exact ⟨_, rfl, h⟩
  · rintro ⟨front, rfl, h⟩
    exact .guarded h

/-- A run of two parts in a row ends in the first, or goes through it. -/
theorem Runs.of_bind {m : Async E R G α} {f : α → Async E R G β} {result : Option β}
    (hm : m.Unguarded) (h : Runs (m >>= f) events result) :
    (result = none ∧ Runs m events none) ∨
      ∃ x front back, events = front ++ back ∧ Runs m front (some x) ∧ Runs (f x) back result := by
  induction hm generalizing events with
  | @ready value => exact .inr ⟨value, [], events, rfl, .ready, h⟩
  | await _ ih =>
    rcases runs_await.mp h with ⟨rfl, rfl⟩ | ⟨answer, rest, rfl, hrest⟩
    · exact .inl ⟨rfl, .abandoned⟩
    · rcases ih answer hrest with ⟨rfl, hnone⟩ | ⟨x, front, back, rfl, hfront, hback⟩
      · exact .inl ⟨rfl, .answered hnone⟩
      · exact .inr ⟨x, _, back, rfl, .answered hfront, hback⟩

end Async

/-! ## Functions that may fail -/

/-- An asynchronous function that returns a `Result`. -/
abbrev AsyncM (E : Type) (R : E → Type) (G ε : Type) := ExceptT ε (Async E R G)

namespace AsyncM

open Async (Event Runs Unguarded)

variable {E : Type} {R : E → Type} {G ε α β : Type}

def awaitCall (call : E) : AsyncM E R G ε (R call) := ExceptT.lift (.await call .ready)

/-- The rest of a function, with a guard that lives to its end. -/
def withGuard (guard : G) (rest : AsyncM E R G ε α) : AsyncM E R G ε α :=
  ExceptT.mk (.guarded guard rest.run)

/-- The outcome of a call that cannot wait. -/
def liftResult (result : Except ε α) : AsyncM E R G ε α := ExceptT.mk (.ready result)

variable {events : List (Event E R G)} {result : Option (Except ε β)}

theorem runs_awaitCall_bind {call : E} {f : R call → AsyncM E R G ε β} :
    Runs (awaitCall call >>= f : AsyncM E R G ε β).run events result ↔
      (events = [.abandoned call] ∧ result = none) ∨
      ∃ answer rest, events = .answered call answer :: rest ∧
        Runs (f answer).run rest result := Async.runs_await

theorem runs_liftResult_bind {x : Except ε α} {f : α → AsyncM E R G ε β} :
    Runs (liftResult x >>= f : AsyncM E R G ε β).run events result ↔
      (∃ e, x = .error e ∧ events = [] ∧ result = some (.error e)) ∨
      ∃ a, x = .ok a ∧ Runs (f a).run events result := by
  cases x with
  | error e =>
    have hrun : (liftResult (.error e) >>= f : AsyncM E R G ε β).run = .ready (.error e) := rfl
    simp [hrun, Async.runs_ready]
  | ok a =>
    have hrun : (liftResult (.ok a) >>= f : AsyncM E R G ε β).run = (f a).run := rfl
    simp [hrun]

theorem runs_throw_bind {e : ε} {f : α → AsyncM E R G ε β} :
    Runs (throw e >>= f : AsyncM E R G ε β).run events result ↔
      events = [] ∧ result = some (.error e) := Async.runs_ready

/-- A call whose outcome the function does not go on with if it is an error. -/
theorem runs_call_bind {call : E} {g : R call → Except ε α} {f : α → AsyncM E R G ε β} :
    Runs ((awaitCall call >>= fun answer => liftResult (g answer)) >>= f :
        AsyncM E R G ε β).run events result ↔
      (events = [.abandoned call] ∧ result = none) ∨
      ∃ answer rest, events = .answered call answer :: rest ∧
        ((∃ e, g answer = .error e ∧ rest = [] ∧ result = some (.error e)) ∨
          ∃ a, g answer = .ok a ∧ Runs (f a).run rest result) := by
  rw [bind_assoc, runs_awaitCall_bind]
  simp only [runs_liftResult_bind]

theorem runs_withGuard {guard : G} {rest : AsyncM E R G ε β} :
    Runs (withGuard guard rest).run events result ↔
      ∃ front, events = front ++ [.dropped guard] ∧ Runs rest.run front result :=
  Async.runs_guarded

theorem runs_throw {e : ε} :
    Runs (throw e : AsyncM E R G ε β).run events result ↔ events = [] ∧ result = some (.error e) :=
  Async.runs_ready

theorem runs_pure {x : β} :
    Runs (pure x : AsyncM E R G ε β).run events result ↔ events = [] ∧ result = some (.ok x) :=
  Async.runs_ready

/-- A run of two parts in a row ends in the first, or goes through it. -/
theorem of_runs_bind {m : AsyncM E R G ε α} {f : α → AsyncM E R G ε β} (hm : m.run.Unguarded)
    (h : Runs (m >>= f).run events result) :
    ((∀ x, result ≠ some (.ok x)) ∧ ∃ r, Runs m.run events r ∧ ∀ x, r ≠ some (.ok x)) ∨
      ∃ x front back, events = front ++ back ∧ Runs m.run front (some (.ok x)) ∧
        Runs (f x).run back result := by
  rcases Async.Runs.of_bind (f := ExceptT.bindCont f) hm h with
    ⟨rfl, hnone⟩ | ⟨x, front, back, rfl, hfront, hback⟩
  · exact .inl ⟨nofun, none, hnone, nofun⟩
  · cases x with
    | ok x => exact .inr ⟨x, front, back, rfl, hfront, hback⟩
    | error e =>
      obtain ⟨rfl, rfl⟩ := Async.runs_ready.mp hback
      rw [List.append_nil]
      exact .inl ⟨nofun, _, hfront, nofun⟩

end AsyncM
end HarborSql
