import Mathlib.Data.List.MinMax
import Mathlib.Data.List.Sort
import Mathlib.Data.Prod.Lex

/-!
# The first maximum and stable sorting

The head of a list that was sorted by a descending key, with equal keys in their old order, is the
first element with the greatest key. Sorting by one key and then by another takes the first maximum
of the pair of keys in lexicographic order, the second key first.
-/

namespace MitosNetwork

open List

variable {α β γ : Type*} [LinearOrder β] [LinearOrder γ] {P : α → Bool} {l : List α} {x : α}

theorem head?_insertionSort (key : α → β) (l : List α) :
    (l.insertionSort fun a b => key b ≤ key a).head? = l.argmax key := by
  induction l with
  | nil => rfl
  | cons x l ih =>
    rw [insertionSort_cons, argmax_cons, ← ih]
    cases l.insertionSort fun a b => key b ≤ key a with
    | nil => rfl
    | cons y s =>
      by_cases hxy : key y ≤ key x
      · simp [hxy]
      · simp [hxy]

theorem argmax_cons_eq_elim (key : α → β) (x : α) (l : List α) :
    (x :: l).argmax key =
      (l.argmax key).elim (some x) fun c => if key x < key c then some c else some x := by
  rw [argmax_cons]
  cases l.argmax key <;> rfl

theorem filter_orderedInsert_of_not {r : α → α → Prop} [DecidableRel r] (h : ¬P x) (s : List α) :
    (s.orderedInsert r x).filter P = s.filter P := by
  induction s with
  | nil => simp [h]
  | cons y s ih =>
    rw [orderedInsert_cons]
    split
    · rw [filter_cons_of_neg h]
    · rw [filter_cons, filter_cons, ih]

theorem argmax_filter_orderedInsert (first : α → β) (second : α → γ) {s : List α}
    (hsor : s.Pairwise fun a b => second b ≤ second a) (hx : P x) :
    ((s.orderedInsert (fun a b => second b ≤ second a) x).filter P).argmax first =
      ((s.filter P).argmax first).elim (some x) fun c =>
        if toLex (first x, second x) < toLex (first c, second c) then some c else some x := by
  induction s with
  | nil => simp [hx]
  | cons y s ih =>
    obtain ⟨hy, hs⟩ := pairwise_cons.mp hsor
    rw [orderedInsert_cons]
    by_cases hxy : second y ≤ second x
    · rw [if_pos hxy, filter_cons_of_pos hx, argmax_cons]
      cases hmax : ((y :: s).filter P).argmax first with
      | none => rfl
      | some c =>
        have hc : second c ≤ second x := by
          rcases mem_cons.mp (mem_filter.mp (argmax_mem hmax)).1 with rfl | hmem
          · exact hxy
          · exact (hy c hmem).trans hxy
        simp [Prod.Lex.toLex_lt_toLex, hc.not_gt]
    · rw [if_neg hxy]
      by_cases hP : P y
      · rw [filter_cons_of_pos hP, filter_cons_of_pos hP, argmax_cons_eq_elim, argmax_cons_eq_elim,
          ih hs]
        simp only [Prod.Lex.toLex_lt_toLex]
        cases hmax : (s.filter P).argmax first with
        | none => grind
        | some c =>
          by_cases hxc : first x < first c ∨ first x = first c ∧ second x < second c <;>
            by_cases hyc : first y < first c <;>
            simp only [hxc, hyc, if_true, if_false, Option.elim_some] <;> grind
      · rw [filter_cons_of_neg hP, filter_cons_of_neg hP, ih hs]

theorem argmax_filter_insertionSort (first : α → β) (second : α → γ) (l : List α) :
    ((l.insertionSort fun a b => second b ≤ second a).filter P).argmax first =
      (l.filter P).argmax fun a => toLex (first a, second a) := by
  induction l with
  | nil => rfl
  | cons x l ih =>
    rw [insertionSort_cons]
    by_cases hx : P x
    · rw [argmax_filter_orderedInsert first second (pairwise_insertionSort _ l) hx, ih,
        filter_cons_of_pos hx, argmax_cons_eq_elim]
    · rw [filter_orderedInsert_of_not hx, ih, filter_cons_of_neg hx]

/-- The element is the first with the greatest key of those that satisfy the condition. -/
def FirstMax [DecidableEq α] (key : α → β) (P : α → Bool) (l : List α) (a : α) : Prop :=
  a ∈ l ∧ P a ∧ (∀ b ∈ l, P b → key b ≤ key a) ∧
    ∀ b ∈ l, P b → key a ≤ key b → l.idxOf a ≤ l.idxOf b

theorem idxOf_filter_le_iff [DecidableEq α] {a b : α} (ha : P a) (hb : P b) :
    (l.filter P).idxOf a ≤ (l.filter P).idxOf b ↔ l.idxOf a ≤ l.idxOf b := by
  induction l with
  | nil => rfl
  | cons x l ih =>
    by_cases hx : P x
    · rw [filter_cons_of_pos hx]
      simp only [idxOf_cons]
      grind
    · simp only [idxOf_cons]
      grind

theorem argmax_filter_eq_some_iff [DecidableEq α] {key : α → β} {a : α} :
    (l.filter P).argmax key = some a ↔ FirstMax key P l a := by
  rw [argmax_eq_some_iff]
  simp only [mem_filter, and_imp, and_assoc]
  refine and_congr_right fun _ => and_congr_right fun ha => and_congr_right fun _ => ?_
  exact forall₄_congr fun b _ hb _ => idxOf_filter_le_iff ha hb

theorem FirstMax.mono [DecidableEq α] {key : α → β} {Q : α → Bool} {a : α}
    (h : FirstMax key P l a) (hQ : ∀ b, Q b → P b) (ha : Q a) : FirstMax key Q l a :=
  ⟨h.1, ha, fun b hb hq => h.2.2.1 b hb (hQ b hq), fun b hb hq => h.2.2.2 b hb (hQ b hq)⟩

end MitosNetwork
