import Mathlib.Data.List.Basic

/-!
# Runs of a deterministic machine

A machine takes a state and an input to a new state and an output. `finalState` and `outputs` run it
over a list of inputs. The rules below are the inductions every run-level result uses: an invariant
of each step is an invariant of the run (`finalState_invariant`), also when only the steps that are
taken are known to preserve it (`finalState_invariant_of_allSteps`), and inputs that leave the state
alone can be dropped from a run (`finalState_filter`, `outputs_filter`).
-/

namespace Machine

variable {σ ι ο : Type*} (step : σ → ι → σ × ο)

variable {is : List ι} {s : σ} {P I : σ → Prop} {G D : σ → ι → Prop}

def finalState : σ → List ι → σ
  | s, [] => s
  | s, i :: is => finalState (step s i).1 is

def outputs : σ → List ι → List ο
  | _, [] => []
  | s, i :: is => (step s i).2 :: outputs (step s i).1 is

/-- Every step of the run is taken in a state that satisfies `G` together with its input. -/
def AllSteps (G : σ → ι → Prop) : σ → List ι → Prop
  | _, [] => True
  | s, i :: is => G s i ∧ AllSteps G (step s i).1 is

instance AllSteps.decidable (G : σ → ι → Prop) [∀ s i, Decidable (G s i)] :
    (s : σ) → (is : List ι) → Decidable (AllSteps step G s is)
  | _, [] => inferInstanceAs (Decidable True)
  | s, i :: is =>
    have := AllSteps.decidable G (step s i).1 is
    inferInstanceAs (Decidable (G s i ∧ AllSteps step G (step s i).1 is))

variable {step}

@[simp] theorem finalState_nil (s : σ) : finalState step s [] = s := rfl

@[simp] theorem finalState_cons (s : σ) (i : ι) (is : List ι) :
    finalState step s (i :: is) = finalState step (step s i).1 is := rfl

theorem finalState_append (s : σ) (is js : List ι) :
    finalState step s (is ++ js) = finalState step (finalState step s is) js := by
  induction is generalizing s with
  | nil => rfl
  | cons i is ih => exact ih (step s i).1

theorem exists_split_of_mem_outputs {o : ο} (ho : o ∈ outputs step s is) :
    ∃ before i after, is = before ++ i :: after ∧ (step (finalState step s before) i).2 = o := by
  induction is generalizing s with
  | nil => cases ho
  | cons i is ih =>
    rcases List.mem_cons.mp ho with rfl | ho
    · exact ⟨[], i, is, rfl, rfl⟩
    · obtain ⟨before, j, after, rfl, hj⟩ := ih ho
      exact ⟨i :: before, j, after, rfl, hj⟩

theorem mem_outputs_append (s : σ) (before : List ι) (i : ι) (after : List ι) :
    (step (finalState step s before) i).2 ∈ outputs step s (before ++ i :: after) := by
  induction before generalizing s with
  | nil => exact List.mem_cons_self
  | cons j before ih => exact List.mem_cons_of_mem _ (ih (step s j).1)

theorem finalState_invariant (h0 : P s) (hstep : ∀ s i, P s → P (step s i).1) (is : List ι) :
    P (finalState step s is) := by
  induction is generalizing s with
  | nil => exact h0
  | cons i is ih => exact ih (hstep s i h0)

theorem finalState_invariant_of_allSteps (h0 : P s) (hstep : ∀ s i, P s → G s i → P (step s i).1)
    (hG : AllSteps step G s is) : P (finalState step s is) := by
  induction is generalizing s with
  | nil => exact h0
  | cons i is ih => exact ih (hstep s i h0 hG.1) hG.2

theorem forall_take_iff_allSteps (hI : ∀ s i, I s → D s i → I (step s i).1)
    (hP : ∀ s i, I s → D s i → P s → (P (step s i).1 ↔ G s i)) (hs : I s) (hst : P s)
    (hD : AllSteps step D s is) :
    (∀ n, P (finalState step s (is.take n))) ↔ AllSteps step G s is := by
  induction is generalizing s with
  | nil => exact ⟨fun _ => trivial, fun _ n => by rwa [List.take_nil]⟩
  | cons i is ih =>
    have hnext := hP s i hs hD.1 hst
    constructor
    · intro h
      have hstep : P (step s i).1 := h 1
      exact ⟨hnext.mp hstep, (ih (hI s i hs hD.1) hstep hD.2).mp fun n => h (n + 1)⟩
    · rintro ⟨hG, hrest⟩ n
      cases n with
      | zero => exact hst
      | succ n => exact (ih (hI s i hs hD.1) (hnext.mpr hG) hD.2).mpr hrest n

theorem allSteps_iff_of_invariant {P : σ → ι → Prop}
    (hI : ∀ s i, I s → D s i → G s i → I (step s i).1) (hP : ∀ s i, I s → D s i → (P s i ↔ G s i))
    (hs : I s) (hD : AllSteps step D s is) : AllSteps step P s is ↔ AllSteps step G s is := by
  induction is generalizing s with
  | nil => exact Iff.rfl
  | cons i is ih =>
    refine ⟨fun h => ?_, fun h => ?_⟩
    · have hG := (hP s i hs hD.1).mp h.1
      exact ⟨hG, (ih (hI s i hs hD.1 hG) hD.2).mp h.2⟩
    · exact ⟨(hP s i hs hD.1).mpr h.1, (ih (hI s i hs hD.1 h.1) hD.2).mpr h.2⟩

section Filter

variable {keep : ι → Bool} (hidle : ∀ s i, keep i = false → (step s i).1 = s)
include hidle

theorem finalState_filter (s : σ) (is : List ι) :
    finalState step s (is.filter keep) = finalState step s is := by
  induction is generalizing s with
  | nil => rfl
  | cons i is ih =>
    cases hk : keep i with
    | true => rw [List.filter_cons_of_pos hk, finalState_cons, finalState_cons, ih]
    | false =>
      rw [List.filter_cons, if_neg (ne_true_of_eq_false hk), ih, finalState_cons, hidle s i hk]

theorem outputs_filter (s : σ) (is : List ι) :
    outputs step s (is.filter keep) =
      ((is.zip (outputs step s is)).filter fun p => keep p.1).map (·.2) := by
  induction is generalizing s with
  | nil => rfl
  | cons i is ih =>
    have hzip : (i :: is).zip (outputs step s (i :: is)) =
        (i, (step s i).2) :: is.zip (outputs step (step s i).1 is) := rfl
    rw [hzip, List.filter_cons, List.filter_cons]
    cases hk : keep i with
    | true => rw [if_pos rfl, if_pos rfl, outputs, ih, List.map_cons]
    | false => rw [if_neg Bool.false_ne_true, if_neg Bool.false_ne_true, ih, hidle s i hk]

end Filter

theorem allSteps_congr {H : σ → ι → Prop} (h : ∀ s i, G s i ↔ H s i) :
    AllSteps step G s is ↔ AllSteps step H s is := by
  induction is generalizing s with
  | nil => exact Iff.rfl
  | cons i is ih => exact and_congr (h s i) ih

theorem allSteps_append {js : List ι} :
    AllSteps step G s (is ++ js) ↔
      AllSteps step G s is ∧ AllSteps step G (finalState step s is) js := by
  induction is generalizing s with
  | nil => simp [AllSteps]
  | cons i is ih => simp only [List.cons_append, AllSteps, ih, finalState_cons, and_assoc]

theorem allSteps_iff_forall_split :
    AllSteps step G s is ↔
      ∀ before i after, is = before ++ i :: after → G (finalState step s before) i := by
  constructor
  · rintro h before i after rfl
    exact (allSteps_append.mp h).2.1
  · intro h
    induction is generalizing s with
    | nil => trivial
    | cons i is ih =>
      refine ⟨h [] i is rfl, ih fun before j after heq => ?_⟩
      exact h (i :: before) j after (by rw [heq, List.cons_append])

end Machine
