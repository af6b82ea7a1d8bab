import MitosNetwork.Common.Table

/-!
# Files of a directory

A `Directory` maps file names to contents. A file is replaced atomically by writing a second file
and renaming it; what the second file is called comes from `Path::with_extension`, which cuts a name
at its last dot.
-/

abbrev Directory := Table String String

namespace Directory

/-- `std::fs::rename` inside the directory. A missing source leaves it as it is. -/
def rename (d : Directory) (src dst : String) : Directory :=
  match d.lookup src with
  | some text => (d.erase src).insert dst text
  | none => d

/-- Writes `tmp` and renames it to `dst`. -/
def replace (d : Directory) (tmp dst text : String) : Directory :=
  rename (d.insert tmp text) tmp dst

theorem lookup_replace (d : Directory) {tmp dst : String} (text name : String) :
    (d.replace tmp dst text).lookup name =
      if name = dst then some text else if name = tmp then none else d.lookup name := by
  rw [replace, rename, AList.lookup_insert]
  show (((d.insert tmp text).erase tmp).insert dst text).lookup name = _
  rw [Table.lookup_insert_eq, Table.lookup_erase_eq]
  by_cases htmp : name = tmp <;> simp [htmp]

/-- `remove_file` on each of some names that pass a test. -/
def removeWhere (p : String → Bool) (d : Directory) (names : List String) : Directory :=
  names.foldl (fun d name => if p name then d.erase name else d) d

theorem lookup_removeWhere (p : String → Bool) (d : Directory) (names : List String)
    (name : String) :
    (d.removeWhere p names).lookup name =
      if name ∈ names ∧ p name then none else d.lookup name := by
  induction names generalizing d with
  | nil => simp [removeWhere]
  | cons n names ih =>
    rw [removeWhere, List.foldl_cons]
    refine (ih _).trans ?_
    by_cases hn : p n
    · rw [if_pos hn]
      by_cases hname : name = n
      · subst hname
        simp [hn]
      · simp [hname]
    · rw [if_neg hn]
      by_cases hname : name = n
      · subst hname
        simp [hn]
      · simp [hname]

theorem lookup_removeWhere_all (p : String → Bool) (d : Directory) (order : Order String)
    (name : String) :
    (d.removeWhere p (order.arrange d.keys)).lookup name =
      if p name then none else d.lookup name := by
  have hls : name ∈ order.arrange d.keys ↔ name ∈ d.keys := order.mem_arrange
  rw [lookup_removeWhere]
  by_cases hp : p name
  · by_cases hname : name ∈ d.keys
    · rw [if_pos ⟨hls.mpr hname, hp⟩, if_pos hp]
    · rw [if_neg fun h => hname (hls.mp h.1), if_pos hp]
      exact AList.lookup_eq_none.mpr fun h => hname (AList.mem_keys.mpr h)
  · rw [if_neg fun h => hp h.2, if_neg hp]

end Directory

/-! ## Names -/

namespace FileName

def splitLastDot (name : List Char) : Option (List Char × List Char) :=
  match name.reverse.dropWhile (· ≠ '.') with
  | [] => none
  | _ :: before => some (before.reverse, (name.reverse.takeWhile (· ≠ '.')).reverse)

/-- `Path::file_stem` and `Path::extension` of a file name. A leading dot does not count. -/
def stemAndExtension (name : List Char) : List Char × Option (List Char) :=
  if name = ['.', '.'] then (name, none)
  else
    match splitLastDot name with
    | none => (name, none)
    | some ([], _) => (name, none)
    | some (before, after) => (before, some after)

/-- `Path::extension`. -/
def extension (name : String) : Option String :=
  (stemAndExtension name.toList).2.map String.ofList

/-- `Path::with_extension`, for an extension that is not empty. -/
def withExtension (name ext : String) : String :=
  String.ofList (stemAndExtension name.toList).1 ++ "." ++ ext

theorem splitLastDot_append {before after : List Char} (h : '.' ∉ after) :
    splitLastDot (before ++ '.' :: after) = some (before, after) := by
  have hrev : (before ++ '.' :: after).reverse = after.reverse ++ '.' :: before.reverse := by
    simp
  have hafter : ∀ c ∈ after.reverse, decide (c ≠ '.') = true := by
    intro c hc
    exact decide_eq_true fun hdot => h (hdot ▸ List.mem_reverse.mp hc)
  have hdrop : (after.reverse ++ '.' :: before.reverse).dropWhile (· ≠ '.') =
      '.' :: before.reverse := by
    rw [List.dropWhile_append_of_pos hafter]
    rfl
  have htake : (after.reverse ++ '.' :: before.reverse).takeWhile (· ≠ '.') = after.reverse := by
    rw [List.takeWhile_append_of_pos hafter]
    simp
  rw [splitLastDot, hrev, hdrop, htake]
  simp

theorem stemAndExtension_append {before after : List Char} (hbefore : before ≠ [])
    (hafter : '.' ∉ after) (hne : after ≠ []) :
    stemAndExtension (before ++ '.' :: after) = (before, some after) := by
  have hdots : before ++ '.' :: after ≠ ['.', '.'] := by
    intro h
    have hlen := congrArg List.length h
    have hpos₁ := List.length_pos_iff.mpr hbefore
    have hpos₂ := List.length_pos_iff.mpr hne
    simp only [List.length_append, List.length_cons, List.length_nil] at hlen
    omega
  rw [stemAndExtension, if_neg hdots, splitLastDot_append hafter]
  cases before with
  | nil => exact absurd rfl hbefore
  | cons c before => rfl

end FileName
