import MitosNetwork.Common.Query

/-!
# Recursion with fuel

A recursive program whose termination is not known is modelled by recursion on fuel: `none` is a run
that has not ended yet. `Ends` says that it ends once it is given enough, and with which result; the
rules follow the program's own structure. `Computes` states this for the result of a `Query`, so
that a program defined by fuel can be compared with one that is total by its definition.
-/

/-- A run with errors in `ε` that may not have ended yet. -/
abbrev Fuelled (ε α : Type) := ExceptT ε Option α

namespace Fuelled

variable {ε α β Q A : Type}

variable {r : Except ε α} {x : ℕ → Fuelled ε α} {f : ℕ → α → Fuelled ε β} {q : Query Q A ε α}

/-- A run that has not ended yet. -/
def outOfFuel : Fuelled ε α := ExceptT.mk none

def ended (r : Except ε α) : Fuelled ε α := ExceptT.mk (some r)

def Ends (x : ℕ → Fuelled ε α) (r : Except ε α) : Prop := ∃ n, ∀ m, n ≤ m → x m = ended r

theorem Ends.unique {s : Except ε α} (hr : Ends x r) (hs : Ends x s) : r = s := by
  obtain ⟨n, hn⟩ := hr
  obtain ⟨m, hm⟩ := hs
  have h := (hn (n + m) (Nat.le_add_right n m)).symm.trans (hm (n + m) (Nat.le_add_left m n))
  exact Option.some.inj h

theorem ends_ended (r : Except ε α) : Ends (fun _ => ended r) r := ⟨0, fun _ _ => rfl⟩

theorem Ends.of_succ (h : Ends (fun n => x (n + 1)) r) : Ends x r := by
  obtain ⟨n, hn⟩ := h
  refine ⟨n + 1, fun m hm => ?_⟩
  obtain ⟨m, rfl⟩ := Nat.exists_eq_add_of_le' hm
  exact hn (m + n) (Nat.le_add_left n m)

theorem Ends.bind_error {e : ε} (hx : Ends x (.error e)) :
    Ends (fun n => x n >>= f n) (.error e) := by
  obtain ⟨n, hn⟩ := hx
  refine ⟨n, fun m hm => ?_⟩
  show x m >>= f m = _
  rw [hn m hm]
  rfl

theorem Ends.bind_ok {a : α} {s : Except ε β} (hx : Ends x (.ok a))
    (hf : Ends (fun n => f n a) s) : Ends (fun n => x n >>= f n) s := by
  obtain ⟨n, hn⟩ := hx
  obtain ⟨k, hk⟩ := hf
  refine ⟨n + k, fun m hm => ?_⟩
  show x m >>= f m = _
  rw [hn m (Nat.le_trans (Nat.le_add_right n k) hm)]
  exact hk m (Nat.le_trans (Nat.le_add_left k n) hm)

/-! ## Against a query -/

/-- Given enough fuel, the run ends with what the query gives in an environment. If it need not be
exact, it may also end with an error where the query goes on. -/
def Computes (exact : Prop) (u : Q → A) (x : ℕ → Fuelled ε α) (q : Query Q A ε α) : Prop :=
  Ends x (q.result u) ∨ ¬exact ∧ ∃ e, Ends x (.error e)

variable {exact : Prop} {u : Q → A}

theorem Computes.ends (h : Computes exact u x q) : ∃ r, Ends x r :=
  h.elim (fun hx => ⟨_, hx⟩) fun ⟨_, _, hx⟩ => ⟨_, hx⟩

theorem computes_ended (r : Except ε α) : Computes exact u (fun _ => ended r) (.ofExcept r) :=
  .inl (ends_ended r)

theorem computes_pure (a : α) :
    Computes exact u (fun _ => pure a : ℕ → Fuelled ε α) (pure a : Query Q A ε α) :=
  .inl (ends_ended (.ok a))

theorem Computes.of_succ (h : Computes exact u (fun n => x (n + 1)) q) : Computes exact u x q :=
  h.imp Ends.of_succ (And.imp_right (Exists.imp fun _ => Ends.of_succ))

theorem Computes.bind {g : α → Query Q A ε β} (hx : Computes exact u x q)
    (hf : ∀ a, Computes exact u (fun n => f n a) (g a)) :
    Computes exact u (fun n => x n >>= f n) (q >>= g) := by
  unfold Computes
  rw [Query.result_bind]
  rcases hx with hx | ⟨hexact, e, hx⟩
  · cases hr : q.result u with
    | error e =>
      rw [hr] at hx
      exact .inl hx.bind_error
    | ok a =>
      rw [hr] at hx
      exact (hf a).imp hx.bind_ok (And.imp_right (Exists.imp fun _ => hx.bind_ok))
  · exact .inr ⟨hexact, e, hx.bind_error⟩

theorem Computes.ite {c : Prop} [Decidable c] {y : ℕ → Fuelled ε α} {q' : Query Q A ε α}
    (hx : Computes exact u x q) (hy : Computes exact u y q') :
    Computes exact u (fun n => if c then x n else y n) (if c then q else q') := by
  split
  · exact hx
  · exact hy

theorem Computes.map₂ {γ : Type} {y : ℕ → Fuelled ε β} {p : Query Q A ε α} {q : Query Q A ε β}
    {f : α → β → γ} (hx : Computes exact u x p) (hy : Computes exact u y q) :
    Computes exact u (fun n => do let a ← x n; let b ← y n; pure (f a b))
      (do let a ← p; let b ← q; pure (f a b)) :=
  .bind hx fun a => .bind hy fun b => computes_pure (f a b)

end Fuelled
