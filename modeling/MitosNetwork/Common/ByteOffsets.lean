import MitosNetwork.Common.Text

/-!
# Text at byte offsets

The strings of the source language are sequences of characters that are measured and cut in bytes. A
cut is possible only between two characters: `splitAtByte` fails inside of one, where the source
panics. `splitOnceOn` looks for a string in a text; `splitOnceOn_eq_some` says that it finds the
first occurrence.
-/

namespace Text

open List

variable {cs before : List Char} {n : ℕ}

/-- `str::len`. -/
def byteLength (cs : List Char) : ℕ := (cs.map Char.utf8Size).sum

@[simp] theorem byteLength_cons (c : Char) (cs : List Char) :
    byteLength (c :: cs) = c.utf8Size + byteLength cs := rfl

theorem byteLength_append (a b : List Char) :
    byteLength (a ++ b) = byteLength a + byteLength b := by
  rw [byteLength, map_append, sum_append]
  rfl

theorem byteLength_pos (h : cs ≠ []) : 0 < byteLength cs := by
  obtain ⟨c, cs, rfl⟩ := exists_cons_of_ne_nil h
  exact Nat.add_pos_left c.utf8Size_pos _

/-- The text before and after a number of bytes, if that is between two characters. -/
def splitAtByte (n : ℕ) : List Char → Option (List Char × List Char)
  | [] => if n = 0 then some ([], []) else none
  | c :: cs =>
    if n = 0 then some ([], c :: cs)
    else if c.utf8Size ≤ n then
      (splitAtByte (n - c.utf8Size) cs).map fun p => (c :: p.1, p.2)
    else none

theorem splitAtByte_byteLength (a b : List Char) :
    splitAtByte (byteLength a) (a ++ b) = some (a, b) := by
  induction a with
  | nil =>
    cases b with
    | nil | cons c b => exact if_pos rfl
  | cons c a ih =>
    have hpos := c.utf8Size_pos
    rw [byteLength_cons, cons_append, splitAtByte, if_neg (by omega),
      if_pos (Nat.le_add_right _ _), Nat.add_sub_cancel_left, ih, Option.map_some]

theorem splitAtByte_eq_some {a b : List Char} (h : splitAtByte n cs = some (a, b)) :
    cs = a ++ b ∧ byteLength a = n := by
  induction cs generalizing n a with
  | nil =>
    rw [splitAtByte] at h
    split at h
    · rename_i hn
      cases h
      exact ⟨rfl, hn.symm⟩
    · cases h
  | cons c cs ih =>
    rw [splitAtByte] at h
    split at h
    · rename_i hn
      cases h
      exact ⟨rfl, hn.symm⟩
    split at h
    · obtain ⟨⟨a', b'⟩, hrest, heq⟩ := Option.map_eq_some_iff.mp h
      obtain ⟨rfl, rfl⟩ := Prod.mk.inj heq
      obtain ⟨rfl, hlen⟩ := ih hrest
      refine ⟨rfl, ?_⟩
      rw [byteLength_cons, hlen]
      omega
    · cases h

theorem splitAtByte_eq_none_iff :
    splitAtByte n cs = none ↔ ∀ a b, cs = a ++ b → byteLength a ≠ n := by
  constructor
  · rintro h a b rfl rfl
    rw [splitAtByte_byteLength] at h
    cases h
  · intro h
    rw [Option.eq_none_iff_forall_ne_some]
    rintro ⟨a, b⟩ hsp
    obtain ⟨hcs, hlen⟩ := splitAtByte_eq_some hsp
    exact h a b hcs hlen

/-- `str::split_once` on a string: the text before and after its first occurrence. -/
def splitOnceOn (sep : List Char) : List Char → Option (List Char × List Char)
  | [] => if sep.isEmpty then some ([], []) else none
  | c :: cs =>
    if sep.isPrefixOf (c :: cs) then some ([], (c :: cs).drop sep.length)
    else (splitOnceOn sep cs).map fun p => (c :: p.1, p.2)

theorem splitOnceOn_eq_some {sep after : List Char} (hsep : sep ≠ [])
    (h : splitOnceOn sep cs = some (before, after)) :
    cs = before ++ sep ++ after ∧ ¬sep <:+: before := by
  induction cs generalizing before with
  | nil =>
    rw [splitOnceOn, if_neg (by simpa using hsep)] at h
    cases h
  | cons c cs ih =>
    rw [splitOnceOn] at h
    split at h
    · rename_i hhere
      cases h
      obtain ⟨rest, hrest⟩ := isPrefixOf_iff_prefix.mp hhere
      refine ⟨?_, fun hin => hsep (infix_nil.mp hin)⟩
      rw [← hrest, drop_left, nil_append]
    · rename_i hhere
      obtain ⟨⟨before', after'⟩, hlat, heq⟩ := Option.map_eq_some_iff.mp h
      obtain ⟨rfl, rfl⟩ := Prod.mk.inj heq
      obtain ⟨hcs, hfst⟩ := ih hlat
      refine ⟨by rw [hcs]; rfl, fun hin => ?_⟩
      -- An earlier occurrence would be at the front of the text.
      rcases infix_cons_iff.mp hin with hfro | hin
      · refine hhere ( isPrefixOf_iff_prefix.mpr ?_)
        rw [hcs, append_assoc]
        exact hfro.trans (prefix_append _ _)
      · exact hfst hin

theorem splitOnceOn_pair {x y : Char} (hxy : x ≠ y) (h : ¬[x, y] <:+: before) (after : List Char) :
    splitOnceOn [x, y] (before ++ x :: y :: after) = some (before, after) := by
  induction before with
  | nil => exact if_pos (by simp)
  | cons c before ih =>
    have hbefore : ¬[x, y] <:+: before :=
      fun hin => h (hin.trans (suffix_cons c before).isInfix)
    rw [cons_append, splitOnceOn, if_neg ?_, ih hbefore, Option.map_some]
    -- At the front the two would be in the text before, or the first of them is the second.
    rw [ isPrefixOf_iff_prefix]
    intro hfro
    cases before with
    | nil =>
      rw [nil_append, cons_prefix_cons, cons_prefix_cons] at hfro
      exact hxy hfro.2.1.symm
    | cons d before =>
      rw [cons_append, cons_prefix_cons, cons_prefix_cons] at hfro
      obtain ⟨rfl, rfl, -⟩ := hfro
      exact h ⟨[], before, rfl⟩

end Text
