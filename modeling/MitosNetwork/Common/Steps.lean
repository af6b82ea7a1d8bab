import Mathlib.Data.List.Basic

/-!
# Programs of steps that may fail

A program over a state whose steps have given outcomes. A failed step ends it, after a change to the
state that undoes what was done before, or without one. What is asked of such a program is what it
leaves behind when it fails.
-/

abbrev Steps (ε σ : Type) := ExceptT ε (StateM σ)

namespace Steps

variable {ε σ α β : Type}

/-- A step, and what is done before its error is returned. -/
def orElse (outcome : Except ε α) (undo : σ → σ) : Steps ε σ α :=
  match outcome with
  | .ok a => return a
  | .error e => do
    modify undo
    throw e

def attempt (outcome : Except ε α) : Steps ε σ α := orElse outcome id

variable {m : Steps ε σ α} {f : α → Steps ε σ β} {s s' : σ} {a : α} {e : ε} {undo : σ → σ}

theorem run_bind_of_ok (h : m.run s = (.ok a, s')) : (m >>= f).run s = (f a).run s' := by
  rw [ExceptT.run_bind]
  simp only [bind, StateT.bind, h]

theorem run_bind_of_error (h : m.run s = (.error e, s')) : (m >>= f).run s = (.error e, s') := by
  rw [ExceptT.run_bind]
  simp only [bind, StateT.bind, h]
  rfl

@[simp] theorem run_orElse_ok : (orElse (.ok a) undo >>= f).run s = (f a).run s := rfl

@[simp] theorem run_orElse_error : (orElse (.error e) undo >>= f).run s = (.error e, undo s) := rfl

@[simp] theorem run_attempt_ok : (attempt (.ok a) >>= f).run s = (f a).run s := rfl

@[simp] theorem run_attempt_error : (attempt (.error e) >>= f).run s = (.error e, s) := rfl

@[simp] theorem run_modify {f : Unit → Steps ε σ β} :
    ((modify undo : Steps ε σ Unit) >>= f).run s = (f ()).run (undo s) := rfl

/-- If the program fails, it leaves a state that satisfies `P`. -/
def Leaves (P : σ → Prop) (ran : Except ε α × σ) : Prop := ∀ e, ran.1 = .error e → P ran.2

variable {P : σ → Prop}

@[simp] theorem leaves_error : Leaves P ((.error e : Except ε α), s) ↔ P s := by simp [Leaves]

@[simp] theorem leaves_ok : Leaves P ((.ok a : Except ε α), s) := fun _ h => by cases h

theorem leaves_orElse {outcome : Except ε α} (hok : ∀ a, Leaves P ((f a).run s))
    (herr : P (undo s)) : Leaves P ((orElse outcome undo >>= f).run s) := by
  cases outcome with
  | error e => exact leaves_error.mpr herr
  | ok a => exact hok a

end Steps
