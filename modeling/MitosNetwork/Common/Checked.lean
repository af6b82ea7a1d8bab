import Mathlib.Algebra.Ring.Int.Defs
import Mathlib.Algebra.Ring.Nat
import Mathlib.Data.List.Basic
import Mathlib.Logic.Relation

/-!
# Code that may panic

A slice or an index out of range stops the program. `Checked α` is the outcome of code that may stop
like this. The loops that walk over a byte string take something off its front in every turn; `run`
is such a loop, and `run_eq_none_iff` says that it panics exactly if a turn does that the loop comes
to. It needs no bound on the number of turns as long as every turn shortens what is left.
-/

/-- The outcome of code that may panic: `none` is the panic. -/
abbrev Checked (α : Type) := Option α

namespace Checked

variable {α β : Type}

variable {a : α} {bs rest : List β} {i j n w : ℕ} {x : ℤ}

theorem bind_of_eq {x : Checked α} (h : x = some a) (f : α → Checked β) : x >>= f = f a := by
  rw [h]
  rfl

/-! ## Slices -/

/-- `&bs[i..j]`. -/
def slice (bs : List β) (i j : ℕ) : Checked (List β) :=
  if i ≤ j ∧ j ≤ bs.length then some (bs.extract i j) else none

/-- `&bs[i..]`. -/
def sliceFrom (bs : List β) (i : ℕ) : Checked (List β) :=
  if i ≤ bs.length then some (bs.drop i) else none

/-- `bs[i]`. -/
def index (bs : List β) (i : ℕ) : Checked β := bs[i]?

/-- A slice as an array of `n`, by `try_into().unwrap()` or `copy_from_slice`. -/
def array (n : ℕ) (bs : List β) : Checked (List β) := if bs.length = n then some bs else none

theorem slice_of_le (hij : i ≤ j) (hj : j ≤ bs.length) : slice bs i j = some (bs.extract i j) :=
  if_pos ⟨hij, hj⟩

theorem sliceFrom_of_le (h : i ≤ bs.length) : sliceFrom bs i = some (bs.drop i) := if_pos h

theorem sliceFrom_of_lt (h : bs.length < i) : sliceFrom bs i = none := if_neg (Nat.not_le.mpr h)

theorem index_of_lt (h : i < bs.length) (d : β) : index bs i = some (bs.getD i d) := by
  rw [index, List.getD_eq_getElem?_getD, List.getElem?_eq_getElem h, Option.getD_some]

theorem array_extract (hj : j ≤ bs.length) (hn : j - i = n) :
    array n (bs.extract i j) = some (bs.extract i j) := by
  refine if_pos ?_
  rw [List.length_take, List.length_drop]
  omega

/-! ## Arithmetic -/

/-- An unsigned number of `w` bits, if `x` is one. -/
def unsigned (w : ℕ) (x : ℤ) : Checked ℕ := if 0 ≤ x ∧ x < 2 ^ w then some x.toNat else none

/-- A signed number of `w` bits, if `x` is one. -/
def signed (w : ℕ) (x : ℤ) : Checked ℤ :=
  if -2 ^ (w - 1) ≤ x ∧ x < 2 ^ (w - 1) then some x else none

theorem unsigned_of_eq (h : x = n) (hn : n < 2 ^ w) : unsigned w x = some n := by
  subst h
  exact if_pos ⟨Int.natCast_nonneg n, by exact_mod_cast hn⟩

theorem signed_of_mem (hlow : -2 ^ (w - 1) ≤ x) (hhigh : x < 2 ^ (w - 1)) : signed w x = some x :=
  if_pos ⟨hlow, hhigh⟩

theorem bind_unsigned (h : x = n) (hn : n < 2 ^ w) (f : ℕ → Checked α) :
    unsigned w x >>= f = f n := bind_of_eq (unsigned_of_eq h hn) f

theorem bind_signed (hlow : -2 ^ (w - 1) ≤ x) (hhigh : x < 2 ^ (w - 1)) (f : ℤ → Checked α) :
    signed w x >>= f = f x := bind_of_eq (signed_of_mem hlow hhigh) f

/-! ## Loops -/

/-- How a turn of a loop ends: the loop stops, with or without a last item, or goes on with what is
left. -/
inductive Turn (α σ : Type) where
  | stop
  | last (a : α)
  | next (a : α) (rest : σ)

/-- At most `n` turns. -/
def loop (turn : List β → Checked (Turn α (List β))) : ℕ → List β → Checked (List α)
  | 0, _ => some []
  | n + 1, bs =>
    match turn bs with
    | none => none
    | some .stop => some []
    | some (.last a) => some [a]
    | some (.next a rest) => (loop turn n rest).map (a :: ·)

def run (turn : List β → Checked (Turn α (List β))) (bs : List β) : Checked (List α) :=
  loop turn (bs.length + 1) bs

variable {turn : List β → Checked (Turn α (List β))}

/-- Every turn that goes on shortens what is left. -/
def Shrinks (turn : List β → Checked (Turn α (List β))) : Prop :=
  ∀ {bs rest : List β} {a : α}, turn bs = some (.next a rest) → rest.length < bs.length

/-- The turn at `bs` goes on at `rest`. -/
def Follows (turn : List β → Checked (Turn α (List β))) (bs rest : List β) : Prop :=
  ∃ a, turn bs = some (.next a rest)

theorem loop_of_stop (h : turn bs = some .stop) (n : ℕ) : loop turn (n + 1) bs = some [] := by
  rw [loop, h]

theorem loop_of_last (h : turn bs = some (.last a)) (n : ℕ) : loop turn (n + 1) bs = some [a] := by
  rw [loop, h]

theorem loop_of_next (h : turn bs = some (.next a rest)) (n : ℕ) :
    loop turn (n + 1) bs = (loop turn n rest).map (a :: ·) := by
  rw [loop, h]

theorem loop_congr (hshr : Shrinks turn) {m : ℕ} (hn : bs.length < n) (hm : bs.length < m) :
    loop turn n bs = loop turn m bs := by
  induction n generalizing m bs with
  | zero => omega
  | succ n ih =>
    obtain ⟨m, rfl⟩ : ∃ k, m = k + 1 := ⟨m - 1, by omega⟩
    cases hturn : turn bs with
    | none => rw [loop, loop, hturn]
    | some t =>
      cases t with
      | stop => rw [loop_of_stop hturn, loop_of_stop hturn]
      | last a => rw [loop_of_last hturn, loop_of_last hturn]
      | next a rest =>
        have hlt := hshr hturn
        rw [loop_of_next hturn, loop_of_next hturn, ih (m := m) (by omega) (by omega)]

theorem run_of_stop (h : turn bs = some .stop) : run turn bs = some [] := loop_of_stop h _

theorem run_of_next (hshr : Shrinks turn) (h : turn bs = some (.next a rest)) :
    run turn bs = (run turn rest).map (a :: ·) := by
  have hlt := hshr h
  rw [run, loop_of_next h, run, loop_congr hshr hlt (Nat.lt_succ_self _)]

theorem loop_eq_none_iff (hshr : Shrinks turn) (hn : bs.length < n) :
    loop turn n bs = none ↔
      ∃ rest, Relation.ReflTransGen (Follows turn) bs rest ∧ turn rest = none := by
  constructor
  · intro h
    clear hn
    induction n generalizing bs with
    | zero => cases h
    | succ n ih =>
      cases hturn : turn bs with
      | none => exact ⟨bs, .refl, hturn⟩
      | some t =>
        cases t with
        | stop =>
          rw [loop_of_stop hturn] at h
          cases h
        | last a =>
          rw [loop_of_last hturn] at h
          cases h
        | next a rest =>
          rw [loop_of_next hturn, Option.map_eq_none_iff] at h
          obtain ⟨final, hrch, hfin⟩ := ih h
          exact ⟨final, hrch.head ⟨a, hturn⟩, hfin⟩
  · rintro ⟨final, hrch, hfin⟩
    induction hrch using Relation.ReflTransGen.head_induction_on generalizing n with
    | refl =>
      obtain ⟨n, rfl⟩ : ∃ k, n = k + 1 := ⟨n - 1, by omega⟩
      rw [loop, hfin]
    | head hstep _ ih =>
      obtain ⟨a, hturn⟩ := hstep
      have hlt := hshr hturn
      obtain ⟨n, rfl⟩ : ∃ k, n = k + 1 := ⟨n - 1, by omega⟩
      rw [loop_of_next hturn, ih (by omega), Option.map_none]

/-- **A loop panics exactly if a turn that it comes to does.** -/
theorem run_eq_none_iff (hshr : Shrinks turn) :
    run turn bs = none ↔ ∃ rest, Relation.ReflTransGen (Follows turn) bs rest ∧ turn rest = none :=
  loop_eq_none_iff hshr (Nat.lt_succ_self _)

end Checked
