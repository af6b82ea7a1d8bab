import Mathlib.Data.List.AList

/-!
# Hash tables with an unspecified iteration order

A `Table` is a finite map. Its entries are kept in a list without repeated keys, but the order of
that list means nothing: a program that iterates over a hash table sees the entries in the order an
`Order` picks, and a statement about the program quantifies over every `Order`.
-/

/-- A finite map from `κ` to `ν`. -/
abbrev Table (κ ν : Type*) := AList fun _ : κ => ν

namespace Table

variable {κ ν : Type*} [DecidableEq κ]

variable {t : Table κ ν} {v : ν}

def values (t : Table κ ν) : List ν := t.entries.map (·.2)

theorem mem_entries_iff {k : κ} : (⟨k, v⟩ : Σ _ : κ, ν) ∈ t.entries ↔ t.lookup k = some v :=
  AList.mem_lookup_iff.symm

theorem mem_values : v ∈ t.values ↔ ∃ k, t.lookup k = some v := by
  rw [values, List.mem_map]
  constructor
  · rintro ⟨⟨k, w⟩, hmem, rfl⟩
    exact ⟨k, mem_entries_iff.mp hmem⟩
  · rintro ⟨k, hk⟩
    exact ⟨⟨k, v⟩, mem_entries_iff.mpr hk, rfl⟩

theorem lookup_insert_eq (t : Table κ ν) (k k' : κ) (v : ν) :
    (t.insert k v).lookup k' = if k' = k then some v else t.lookup k' := by
  by_cases h : k' = k
  · rw [if_pos h, h, AList.lookup_insert]
  · rw [if_neg h, AList.lookup_insert_ne h]

theorem lookup_erase_eq (t : Table κ ν) (k k' : κ) :
    (t.erase k).lookup k' = if k' = k then none else t.lookup k' := by
  by_cases h : k' = k
  · rw [if_pos h, h, AList.lookup_erase]
  · rw [if_neg h, AList.lookup_erase_ne h]

def mapValues {ν' : Type*} (t : Table κ ν) (f : κ → ν → ν') : Table κ ν' where
  entries := t.entries.map fun e => ⟨e.1, f e.1 e.2⟩
  nodupKeys := by
    have hkeys : (t.entries.map fun e => (⟨e.1, f e.1 e.2⟩ : Σ _ : κ, ν')).keys =
        t.entries.keys := by
      rw [List.keys, List.map_map]
      rfl
    rw [List.NodupKeys, hkeys]
    exact t.nodupKeys

theorem mem_values_mapValues {ν' : Type*} {f : κ → ν → ν'} {v' : ν'} :
    v' ∈ (t.mapValues f).values ↔ ∃ k v, t.lookup k = some v ∧ f k v = v' := by
  rw [values, mapValues, List.map_map, List.mem_map]
  constructor
  · rintro ⟨⟨k, v⟩, hmem, rfl⟩
    exact ⟨k, v, mem_entries_iff.mp hmem, rfl⟩
  · rintro ⟨k, v, hk, rfl⟩
    exact ⟨⟨k, v⟩, mem_entries_iff.mpr hk, rfl⟩

end Table

/-- An iteration order: a rearrangement of every list of entries. -/
structure Order (α : Type*) where
  arrange : List α → List α
  perm : ∀ l, (arrange l).Perm l

namespace Order

variable {α : Type*}

variable {l : List α} {a : α} {p : α → Bool}

def stored : Order α := ⟨id, fun _ => List.Perm.refl _⟩

instance : Inhabited (Order α) := ⟨stored⟩

/-- The order that visits `a` first whenever it occurs. -/
def frontOf [DecidableEq α] (a : α) : Order α where
  arrange l := if a ∈ l then a :: l.erase a else l
  perm l := by
    split
    · rename_i h
      exact (List.perm_cons_erase h).symm
    · exact .refl l

theorem mem_arrange (o : Order α) : a ∈ o.arrange l ↔ a ∈ l := (o.perm l).mem_iff

theorem of_find?_arrange {o : Order α} (h : (o.arrange l).find? p = some a) : a ∈ l ∧ p a = true :=
  ⟨o.mem_arrange.mp (List.mem_of_find?_eq_some h), List.find?_some h⟩

theorem find?_frontOf [DecidableEq α] (hmem : a ∈ l) (ha : p a = true) :
    ((frontOf a).arrange l).find? p = some a := by
  have harr : (frontOf a).arrange l = a :: l.erase a := if_pos hmem
  rw [harr, List.find?_cons_of_pos ha]

end Order
