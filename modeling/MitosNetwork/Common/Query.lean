import Mathlib.Data.List.Basic

/-!
# Computations that consult an environment

A `Query` may ask an environment for answers and may fail. It returns the questions it asked, in
order, with its result, and it depends on the environment through the answers to these questions
only: two environments that agree on what was asked give the same run (`Query.depends`). The field
is preserved by every operation of the monad, so it need not be proved again for a program written
in it.
-/

/-- A computation with questions in `Q`, answers in `A`, errors in `ε` and results in `α`. -/
structure Query (Q A ε α : Type) where
  run : (Q → A) → List Q × Except ε α
  depends : ∀ u v : Q → A, (∀ q ∈ (run u).1, u q = v q) → run u = run v

namespace Query

variable {Q A ε α β : Type} (x : Query Q A ε α)

def asked (u : Q → A) : List Q := (x.run u).1

def result (u : Q → A) : Except ε α := (x.run u).2

def ask (q : Q) : Query Q A ε A where
  run u := ([q], .ok (u q))
  depends u v h := by rw [h q List.mem_cons_self]

def fail (e : ε) : Query Q A ε α where
  run _ := ([], .error e)
  depends _ _ _ := rfl

/-- A computation that asks nothing. -/
def ofExcept (r : Except ε α) : Query Q A ε α where
  run _ := ([], r)
  depends _ _ _ := rfl

def andThen (f : α → Query Q A ε β) (u : Q → A) : List Q × Except ε α → List Q × Except ε β
  | (qs, .ok a) => (qs ++ ((f a).run u).1, ((f a).run u).2)
  | (qs, .error e) => (qs, .error e)

theorem asked_subset_andThen (f : α → Query Q A ε β) (u : Q → A) (r : List Q × Except ε α) :
    r.1 ⊆ (andThen f u r).1 := by
  obtain ⟨qs, r⟩ := r
  cases r with
  | ok a => exact List.subset_append_left qs _
  | error e => exact List.Subset.refl qs

protected def bind (x : Query Q A ε α) (f : α → Query Q A ε β) : Query Q A ε β where
  run u := andThen f u (x.run u)
  depends u v h := by
    have hx : x.run u = x.run v :=
      x.depends u v fun q hq => h q (asked_subset_andThen f u _ hq)
    rw [← hx]
    cases hr : x.run u with
    | mk qs r =>
      rw [hr] at h
      cases r with
      | error e => rfl
      | ok a =>
        have hf : (f a).run u = (f a).run v :=
          (f a).depends u v fun q hq => h q (List.mem_append_right qs hq)
        rw [andThen, andThen, hf]

instance : Monad (Query Q A ε) where
  pure a := ofExcept (.ok a)
  bind := Query.bind

theorem result_bind (f : α → Query Q A ε β) (u : Q → A) :
    (x >>= f).result u = x.result u >>= fun a => (f a).result u := by
  show (andThen f u (x.run u)).2 = (x.run u).2 >>= fun a => (f a).result u
  obtain ⟨qs, r⟩ := x.run u
  cases r <;> rfl

end Query
