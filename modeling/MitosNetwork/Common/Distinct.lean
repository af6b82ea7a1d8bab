import Mathlib.Data.List.Induction
import Mathlib.Data.List.Nodup

/-!
# Lists without repetitions

A loop that appends every item that is not there yet, as a function of what is there before it
(`appendNew`), and from nothing (`distinct`). The rules say what is in such a list and in which
order; `appendNew_prefix` is the one for merging lists that begin alike.
-/

namespace List

variable {α : Type*} [DecidableEq α]

def appendNew (acc items : List α) : List α :=
  items.foldl (fun acc x => if x ∈ acc then acc else acc ++ [x]) acc

/-- The items without repetitions, in the order in which they occur first. -/
def distinct (items : List α) : List α := appendNew [] items

variable {acc items l : List α}

@[simp] theorem appendNew_nil (acc : List α) : acc.appendNew [] = acc := rfl

theorem appendNew_append (acc items items' : List α) :
    acc.appendNew (items ++ items') = (acc.appendNew items).appendNew items' := foldl_append

theorem appendNew_singleton (acc : List α) (x : α) :
    acc.appendNew [x] = if x ∈ acc then acc else acc ++ [x] := rfl

theorem distinct_append (items items' : List α) :
    (items ++ items').distinct = items.distinct.appendNew items' := appendNew_append [] items items'

theorem mem_appendNew {x : α} : x ∈ acc.appendNew items ↔ x ∈ acc ∨ x ∈ items := by
  induction items generalizing acc with
  | nil => simp
  | cons y items ih =>
    rw [← singleton_append, appendNew_append, appendNew_singleton]
    split <;> grind

@[simp] theorem mem_distinct {x : α} : x ∈ items.distinct ↔ x ∈ items := by
  rw [distinct, mem_appendNew]
  simp

theorem appendNew_of_subset (h : items ⊆ acc) : acc.appendNew items = acc := by
  induction items with
  | nil => rfl
  | cons y items ih =>
    rw [← singleton_append, appendNew_append, appendNew_singleton, if_pos (h mem_cons_self)]
    exact ih fun x hx => h (mem_cons_of_mem y hx)

theorem nodup_appendNew (h : acc.Nodup) : (acc.appendNew items).Nodup := by
  induction items generalizing acc with
  | nil => exact h
  | cons y items ih =>
    rw [← singleton_append, appendNew_append, appendNew_singleton]
    split
    · exact ih h
    · rename_i hy
      refine ih (nodup_append.mpr ⟨h, nodup_singleton y, ?_⟩)
      rintro x hx z hz rfl
      exact hy (mem_singleton.mp hz ▸ hx)

theorem nodup_distinct (items : List α) : items.distinct.Nodup := nodup_appendNew nodup_nil

theorem prefix_appendNew (acc items : List α) : acc <+: acc.appendNew items := by
  induction items generalizing acc with
  | nil => exact prefix_rfl
  | cons y items ih =>
    rw [← singleton_append, appendNew_append, appendNew_singleton]
    split
    · exact ih acc
    · exact (prefix_append acc [y]).trans (ih _)

theorem appendNew_eq_append_filter (acc items : List α) :
    acc.appendNew items = acc ++ items.distinct.filter (· ∉ acc) := by
  induction items using List.reverseRecOn with
  | nil => simp
  | append_singleton items x ih =>
    rw [appendNew_append, appendNew_singleton, distinct_append, appendNew_singleton]
    by_cases hit : x ∈ items
    · rw [if_pos (mem_appendNew.mpr (.inr hit)), if_pos (mem_distinct.mpr hit), ih]
    · rw [if_neg (mem_distinct.not.mpr hit), filter_append, ← append_assoc, ← ih]
      by_cases hacc : x ∈ acc
      · rw [if_pos (mem_appendNew.mpr (.inl hacc))]
        simp [hacc]
      · rw [if_neg (mem_appendNew.not.mpr (not_or_intro hacc hit))]
        simp [hacc]

omit [DecidableEq α] in
theorem eq_of_prefix_of_subset (hl : l.Nodup) (hpre : acc <+: l) (hsub : l ⊆ acc) : acc = l := by
  obtain ⟨rest, rfl⟩ := hpre
  cases rest with
  | nil => exact (append_nil acc).symm
  | cons x rest =>
    have hx : x ∈ acc := hsub (mem_append_right _ mem_cons_self)
    exact absurd rfl ((nodup_append.mp hl).2.2 x hx x mem_cons_self)

theorem appendNew_prefix (hacc : acc <+: l) (hit : items.distinct <+: l) :
    acc.appendNew items <+: l := by
  rcases prefix_or_prefix_of_prefix hacc hit with hle | hge
  · obtain ⟨rest, hrest⟩ := hle
    have hnd : (acc ++ rest).Nodup := hrest ▸ nodup_distinct items
    have hnew : ∀ x ∈ rest, x ∉ acc := fun x hx hmem =>
      (nodup_append.mp hnd).2.2 x hmem x hx rfl
    have hfilter : items.distinct.filter (· ∉ acc) = rest := by
      rw [← hrest, filter_append, filter_eq_nil_iff.mpr (by simp)]
      simpa using hnew
    rw [appendNew_eq_append_filter, hfilter, hrest]
    exact hit
  · rw [appendNew_of_subset fun x hx => hge.subset (mem_distinct.mpr hx)]
    exact hacc

/-- Taking an item out and putting it at the end changes nothing exactly if it is there, and only
there. -/
theorem filter_concat_eq_iff {β : Type*} [DecidableEq β] {f : β → α} {a : β} {l : List β} :
    l.filter (fun x => f x ≠ f a) ++ [a] = l ↔ l.getLast? = some a ∧ (l.map f).count (f a) = 1 := by
  have hout : ((l.filter fun x => f x ≠ f a).map f).count (f a) = 0 := by
    simp [count_eq_zero]
  constructor
  · intro hsame
    refine ⟨hsame ▸ getLast?_concat, ?_⟩
    calc (l.map f).count (f a) = ((l.filter (fun x => f x ≠ f a) ++ [a]).map f).count (f a) := by
          rw [hsame]
      _ = 1 := by rw [map_append, count_append, hout, map_singleton, count_singleton_self]
  · rintro ⟨hlast, hcount⟩
    obtain ⟨before, rfl⟩ := getLast?_eq_some_iff.mp hlast
    rw [map_append, count_append, map_singleton, count_singleton_self, Nat.add_eq_right,
      count_eq_zero] at hcount
    have hkept : before.filter (fun x => f x ≠ f a) = before := filter_eq_self.mpr fun x hx =>
      decide_eq_true fun heq => hcount (mem_map.mpr ⟨x, hx, heq⟩)
    rw [filter_append, hkept]
    simp

end List
