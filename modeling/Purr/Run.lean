import Purr.Diagnostic

/-!
# Runs

A run is a computation on a state that may halt before its end. The state it has reached is kept in
either case, so what was written before a halt stays written.
-/

namespace Purr

set_option autoImplicit false

/-- A computation on a state: a result or the reason of a halt, and the state reached. -/
def Run (σ α : Type) : Type := σ → Except Halt α × σ

namespace Run

variable {σ α β : Type}

protected def pure (result : α) : Run σ α := fun state => (.ok result, state)

/-- One run after another. A halt of the first is a halt of both. -/
protected def bind (first : Run σ α) (next : α → Run σ β) : Run σ β := fun state =>
  match first state with
  | (.ok result, reached) => next result reached
  | (.error halt, reached) => (.error halt, reached)

instance : Monad (Run σ) where
  pure := Run.pure
  bind := Run.bind

def halt (reason : Halt) : Run σ α := fun state => (.error reason, state)

def modify (change : σ → σ) : Run σ Unit := fun state => (.ok (), change state)

def inRange (result : Option α) : Run σ α :=
  match result with
  | some value => pure value
  | none => halt .outOfRange

@[simp] theorem pure_apply (result : α) (state : σ) :
    (pure result : Run σ α) state = (.ok result, state) := rfl

@[simp] theorem halt_apply (reason : Halt) (state : σ) :
    (halt reason : Run σ α) state = (.error reason, state) := rfl

theorem bind_apply (first : Run σ α) (next : α → Run σ β) (state : σ) :
    (first >>= next) state =
      match first state with
      | (.ok result, reached) => next result reached
      | (.error reason, reached) => (.error reason, reached) := rfl

theorem of_bind_ok {first : Run σ α} {next : α → Run σ β} {state reached : σ} {result : β}
    (ran : (first >>= next) state = (.ok result, reached)) :
    ∃ value between, first state = (.ok value, between) ∧
      next value between = (.ok result, reached) := by
  rw [bind_apply] at ran
  split at ran
  next value between before => exact ⟨value, between, before, ran⟩
  next => cases ran

theorem of_bind_error {first : Run σ α} {next : α → Run σ β} {state reached : σ} {reason : Halt}
    (halted : (first >>= next) state = (.error reason, reached)) :
    first state = (.error reason, reached) ∨
      ∃ value between, first state = (.ok value, between) ∧
        next value between = (.error reason, reached) := by
  rw [bind_apply] at halted
  split at halted
  next value between before => exact .inr ⟨value, between, before, halted⟩
  next _ between before =>
    cases halted
    exact .inl before

theorem bind_pure_apply (first : Run σ α) (state : σ) :
    (first >>= pure) state = first state := by
  rw [bind_apply]
  rcases first state with ⟨_ | _, _⟩ <;> rfl

instance : LawfulMonad (Run σ) :=
  LawfulMonad.mk' (Run σ)
    (fun first => funext fun state => bind_pure_apply first state)
    (fun _ _ => rfl)
    (fun first next last => funext fun state => by
      simp only [bind_apply]
      rcases first state with ⟨_ | _, _⟩ <;> rfl)

end Run

end Purr
