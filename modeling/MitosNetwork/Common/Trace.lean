import Mathlib.Data.List.Basic

/-!
# Runs of a machine that can block

A machine whose steps are partial and are observed: an action takes a state to a new state and to
what is seen of the step, or is not possible. `exec` takes the actions of a list one after another.
`exec_invariant` is the induction for invariants that speak of the state and of all that was seen
so far, `length_le_of_exec` the one for runs that have to come to an end.
-/

namespace Trace

variable {σ α ο : Type*} (step : σ → α → Option (σ × List ο))

variable {as : List α} {trace before : List ο} {s t : σ} {Q : α → Prop} {P : σ → List ο → Prop}

/-- The state after a list of actions and what was seen; nothing if one of them is not possible. -/
def exec : σ → List α → Option (σ × List ο)
  | s, [] => some (s, [])
  | s, a :: as =>
    match step s a with
    | none => none
    | some (s', seen) =>
      match exec s' as with
      | none => none
      | some (t, later) => some (t, seen ++ later)

variable {step}

theorem exec_cons {a : α} (h : exec step s (a :: as) = some (t, trace)) :
    ∃ s' seen later, step s a = some (s', seen) ∧ exec step s' as = some (t, later) ∧
      trace = seen ++ later := by
  rw [exec] at h
  split at h
  · cases h
  · rename_i s' seen hstep
    split at h
    · cases h
    · rename_i t' later hlat
      cases h
      exact ⟨s', seen, later, hstep, hlat, rfl⟩

theorem exec_append {s' : σ} {bs : List α} {later : List ο}
    (has : exec step s as = some (s', trace)) (hbs : exec step s' bs = some (t, later)) :
    exec step s (as ++ bs) = some (t, trace ++ later) := by
  induction as generalizing s trace with
  | nil =>
    cases has
    exact hbs
  | cons a as ih =>
    obtain ⟨u, seen, rest, ha, hrest, rfl⟩ := exec_cons has
    rw [List.cons_append, exec, ha]
    dsimp only
    rw [ih hrest, List.append_assoc]

theorem exec_invariant (hstep : ∀ {s before a s' seen}, P s before → step s a = some (s', seen) →
      P s' (before ++ seen)) (hs : P s before) (h : exec step s as = some (t, trace)) :
    P t (before ++ trace) := by
  induction as generalizing s before trace with
  | nil =>
    cases h
    rwa [List.append_nil]
  | cons a as ih =>
    obtain ⟨s', seen, later, ha, hlat, rfl⟩ := exec_cons h
    rw [← List.append_assoc]
    exact ih (hstep hs ha) hlat

theorem length_le_of_exec {μ : σ → ℕ}
    (hstep : ∀ {s a s' seen}, Q a → step s a = some (s', seen) → μ s' < μ s) (has : ∀ a ∈ as, Q a)
    (h : exec step s as = some (t, trace)) : as.length ≤ μ s := by
  induction as generalizing s trace with
  | nil => exact Nat.zero_le _
  | cons a as ih =>
    obtain ⟨s', seen, later, ha, hlat, rfl⟩ := exec_cons h
    rw [List.forall_mem_cons] at has
    have hrest := ih has.2 hlat
    have hfst := hstep has.1 ha
    rw [List.length_cons]
    omega

end Trace
