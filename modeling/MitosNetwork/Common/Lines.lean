import Mathlib.Data.List.Basic

/-!
# Files of lines

A file is a sequence of lines, each ended by a separator. Splitting it gives the lines back if and
only if none of them holds the separator itself; records that are rendered one to a line and parsed
line by line come back under the same condition (`map_split_file_iff`), because a line that holds
the separator makes the file longer by a line.
-/

namespace Lines

open List

variable {α ρ ν : Type*} [DecidableEq α] {sep : α}

def file (sep : α) (lines : List (List α)) : List α := lines.flatMap (· ++ [sep])

/-- The lines of a file; what follows the last separator is no line. -/
def split (sep : α) (cs : List α) : List (List α) := (cs.splitOn sep).dropLast

theorem splitOn_file (lines : List (List α)) :
    (file sep lines).splitOn sep = lines.flatMap (·.splitOn sep) ++ [[]] := by
  induction lines with
  | nil => exact splitOn_nil sep
  | cons l lines ih =>
    rw [file, flatMap_cons, append_assoc, singleton_append,
      splitOn_append_cons_self, flatMap_cons, append_assoc]
    exact congrArg (List.splitOn sep l ++ ·) ih

theorem split_file (lines : List (List α)) :
    split sep (file sep lines) = lines.flatMap (·.splitOn sep) := by
  rw [split, splitOn_file, dropLast_concat]

theorem length_splitOn_pos (sep : α) (l : List α) : 0 < (l.splitOn sep).length :=
  length_pos_iff.mpr (splitOnP_ne_nil _ _)

theorem one_lt_length_splitOn {l : List α} (h : sep ∈ l) : 1 < (l.splitOn sep).length := by
  obtain ⟨before, after, rfl⟩ := append_of_mem h
  rw [splitOn_append_cons_self, length_append]
  have hbefore := length_splitOn_pos sep before
  have hafter := length_splitOn_pos sep after
  exact Nat.add_lt_add_of_le_of_lt hbefore hafter

theorem length_le_length_flatMap_splitOn (sep : α) (lines : List (List α)) :
    lines.length ≤ (lines.flatMap (·.splitOn sep)).length := by
  induction lines with
  | nil => exact Nat.le_refl 0
  | cons l lines ih =>
    rw [flatMap_cons, length_append, length_cons, Nat.add_comm]
    exact Nat.add_le_add (length_splitOn_pos sep l) ih

omit [DecidableEq α] in
theorem eq_false_of_mem_splitOnP {p : α → Bool} {l piece : List α} (h : piece ∈ l.splitOnP p) :
    ∀ x ∈ piece, p x = false := by
  induction l generalizing piece with
  | nil =>
    rw [splitOnP_nil, mem_singleton] at h
    simp [h]
  | cons a l ih =>
    rw [splitOnP_cons_eq_if_modifyHead] at h
    by_cases ha : p a = true
    · rw [if_pos ha, mem_cons] at h
      rcases h with rfl | h
      · simp
      · exact ih h
    · rw [if_neg ha] at h
      obtain ⟨first, rest, hsp⟩ := exists_cons_of_ne_nil (splitOnP_ne_nil p l)
      rw [hsp, modifyHead_cons, mem_cons] at h
      rw [hsp] at ih
      rcases h with rfl | h
      · intro x hx
        rcases mem_cons.mp hx with rfl | hx
        · exact Bool.eq_false_iff.mpr ha
        · exact ih mem_cons_self x hx
      · exact ih (mem_cons_of_mem first h)

theorem notMem_of_mem_split {cs l : List α} (h : l ∈ split sep cs) : sep ∉ l := by
  intro hsep
  have hpc := eq_false_of_mem_splitOnP ((dropLast_sublist _).subset h) sep hsep
  simp at hpc

theorem split_file_of_notMem {lines : List (List α)} (h : ∀ l ∈ lines, sep ∉ l) :
    split sep (file sep lines) = lines := by
  rw [split_file]
  calc lines.flatMap (·.splitOn sep) = lines.flatMap fun l => [l] :=
        flatMap_congr fun l hl => splitOn_eq_singleton (h l hl)
    _ = lines := flatMap_singleton' lines

theorem exists_mem_splitOn {l : List α} {c : α} (hc : c ∈ l) (hne : c ≠ sep) :
    ∃ piece ∈ l.splitOn sep, c ∈ piece := by
  induction l with
  | nil => cases hc
  | cons x l ih =>
    rw [List.splitOn, splitOnP_cons_eq_if_modifyHead]
    split
    · rename_i hx
      rcases mem_cons.mp hc with rfl | hc
      · exact absurd (eq_of_beq hx) hne
      · obtain ⟨piece, hpc, hmem⟩ := ih hc
        exact ⟨piece, mem_cons_of_mem _ hpc, hmem⟩
    · obtain ⟨first, rest, hsp⟩ := exists_cons_of_ne_nil (splitOnP_ne_nil (· == sep) l)
      rw [hsp]
      rcases mem_cons.mp hc with rfl | hc
      · exact ⟨_, mem_cons_self, mem_cons_self⟩
      · obtain ⟨piece, hpc, hmem⟩ := ih hc
        rw [List.splitOn, hsp] at hpc
        rcases mem_cons.mp hpc with rfl | hpc
        · exact ⟨_, mem_cons_self, mem_cons_of_mem _ hmem⟩
        · exact ⟨piece, mem_cons_of_mem _ hpc, hmem⟩

theorem length_split_file_iff {lines : List (List α)} :
    (split sep (file sep lines)).length = lines.length ↔ ∀ l ∈ lines, sep ∉ l := by
  rw [split_file]
  induction lines with
  | nil => simp
  | cons l lines ih =>
    rw [flatMap_cons, length_append, length_cons, forall_mem_cons, ← ih]
    have hrest := length_le_length_flatMap_splitOn sep lines
    by_cases hmem : sep ∈ l
    · have hlong := one_lt_length_splitOn hmem
      exact ⟨fun h => by omega, fun h => absurd hmem h.1⟩
    · rw [splitOn_eq_singleton hmem, length_singleton]
      exact ⟨fun h => ⟨hmem, by omega⟩, fun h => by omega⟩

theorem map_split_file_iff {render : ρ → List α} {parse : List α → Option ν} {value : ρ → ν}
    {rs : List ρ} (hp : ∀ r ∈ rs, sep ∉ render r → parse (render r) = some (value r)) :
    (split sep (file sep (rs.map render))).map parse = rs.map (some ∘ value) ↔
      ∀ r ∈ rs, sep ∉ render r := by
  constructor
  · intro h
    have hlen := congrArg List.length h
    rw [length_map, length_map, ← length_map render] at hlen
    exact fun r hr => length_split_file_iff.mp hlen _ (mem_map_of_mem hr)
  · intro h
    rw [split_file_of_notMem (forall_mem_map.mpr h), map_map]
    exact map_congr_left fun r hr => hp r hr (h r hr)

end Lines
