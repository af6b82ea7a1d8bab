import Mathlib.Data.List.Basic

/-!
# Streams of records

Many formats are a sequence of records, each of which says where it ends. `records read` takes
records off the front of a stream for as long as `read` finds one. Its rules only ask for what one
record does:

* `records_flatMap`: if `read` finds what `emit` wrote, the records of a stream come back in order;
* `eq_flatMap_readAll`: if `read` finds only what `emit` writes, what was read is written again as
  the part of the stream that was consumed;
* `records_take`: if a record that is cut off is not found, then a stream that is cut off gives the
  records that end before the cut.
-/

namespace Records

open List

variable {α β : Type*} {read : List β → Option (α × List β)} {emit : α → List β}

variable {bs rest : List β} {a : α} {n k : ℕ} {l : List α}

/-- The records at the front of a stream, at most `n` of them, and what is left. -/
def readAll (read : List β → Option (α × List β)) : ℕ → List β → List α × List β
  | 0, bs => ([], bs)
  | n + 1, bs =>
    match read bs with
    | none => ([], bs)
    | some (a, rest) => (a :: (readAll read n rest).1, (readAll read n rest).2)

theorem readAll_of_none (h : read bs = none) (n : ℕ) : readAll read n bs = ([], bs) := by
  cases n with
  | zero => rfl
  | succ n => rw [readAll, h]

theorem readAll_of_some (h : read bs = some (a, rest)) (n : ℕ) :
    readAll read (n + 1) bs = (a :: (readAll read n rest).1, (readAll read n rest).2) := by
  rw [readAll, h]

/-- Every record takes some of the stream. -/
def Shrinks (read : List β → Option (α × List β)) : Prop :=
  ∀ {bs rest : List β} {a : α}, read bs = some (a, rest) → rest.length < bs.length

theorem readAll_eq (hshr : Shrinks read) {m : ℕ} (hn : bs.length ≤ n) (hm : bs.length ≤ m) :
    readAll read n bs = readAll read m bs := by
  induction n generalizing bs m with
  | zero =>
    cases hread : read bs with
    | none => rw [readAll_of_none hread, readAll_of_none hread]
    | some p =>
      have hlt := hshr hread
      omega
  | succ n ih =>
    cases hread : read bs with
    | none => rw [readAll_of_none hread, readAll_of_none hread]
    | some p =>
      have hlt := hshr hread
      obtain ⟨m, rfl⟩ : ∃ k, m = k + 1 := ⟨m - 1, by omega⟩
      have hsame : readAll read n p.2 = readAll read m p.2 := ih (by omega) (by omega)
      rw [readAll_of_some hread, readAll_of_some hread, hsame]

theorem read_readAll (hshr : Shrinks read) (hn : bs.length ≤ n) :
    read (readAll read n bs).2 = none := by
  induction n generalizing bs with
  | zero =>
    cases hread : read bs with
    | none => rw [readAll_of_none hread, hread]
    | some p =>
      have hlt := hshr hread
      omega
  | succ n ih =>
    cases hread : read bs with
    | none => rw [readAll_of_none hread, hread]
    | some p =>
      have hlt := hshr hread
      rw [readAll_of_some hread]
      exact ih (by omega)

/-- All records at the front of a stream, and what is left. -/
def records (read : List β → Option (α × List β)) (bs : List β) : List α × List β :=
  readAll read bs.length bs

/-! ## Written and read -/

theorem readAll_flatMap (h : ∀ a ∈ l, ∀ rest, read (emit a ++ rest) = some (a, rest)) (n : ℕ)
    (rest : List β) :
    readAll read (l.length + n) (l.flatMap emit ++ rest) =
      (l ++ (readAll read n rest).1, (readAll read n rest).2) := by
  induction l with
  | nil => rw [length_nil, Nat.zero_add, flatMap_nil, nil_append, nil_append]
  | cons a l ih =>
    obtain ⟨ha, hl⟩ := forall_mem_cons.mp h
    rw [length_cons, Nat.add_right_comm, flatMap_cons, append_assoc,
      readAll_of_some (ha _), ih hl, cons_append]

theorem records_flatMap (hshr : Shrinks read)
    (h : ∀ a ∈ l, ∀ rest, read (emit a ++ rest) = some (a, rest)) (rest : List β) :
    records read (l.flatMap emit ++ rest) =
      (l ++ (records read rest).1, (records read rest).2) := by
  have hlen : rest.length ≤ (l.flatMap emit ++ rest).length := by
    rw [length_append]
    exact Nat.le_add_left _ _
  rw [records, readAll_eq hshr (Nat.le_refl _) (Nat.le_add_left _ l.length),
    readAll_flatMap h, records, readAll_eq hshr hlen (Nat.le_refl _)]

theorem eq_flatMap_readAll
    (h : ∀ {bs rest : List β} {a : α}, read bs = some (a, rest) → bs = emit a ++ rest) (n : ℕ)
    (bs : List β) :
    bs = (readAll read n bs).1.flatMap emit ++ (readAll read n bs).2 := by
  induction n generalizing bs with
  | zero => rfl
  | succ n ih =>
    cases hread : read bs with
    | none => rw [readAll_of_none hread, flatMap_nil, nil_append]
    | some p =>
      rw [readAll_of_some hread, flatMap_cons, append_assoc, ← ih p.2]
      exact h hread

/-! ## Streams that are cut off -/

/-- The records of a stream that begins at `start`, each with the offset where it ends. -/
def placed (emit : α → List β) : ℕ → List α → List (α × ℕ)
  | _, [] => []
  | start, a :: l =>
    (a, start + (emit a).length) :: placed emit (start + (emit a).length) l

/-- The records that end at or before the offset `k`. -/
def endingBy (emit : α → List β) (k : ℕ) (l : List α) : List α :=
  ((placed emit 0 l).filter fun p => p.2 ≤ k).map Prod.fst

theorem le_of_mem_placed {start : ℕ} {p : α × ℕ} (h : p ∈ placed emit start l) : start ≤ p.2 := by
  induction l generalizing start with
  | nil => cases h
  | cons a l ih =>
    rcases mem_cons.mp h with rfl | h
    · exact Nat.le_add_right _ _
    · exact Nat.le_trans (Nat.le_add_right _ _) (ih h)

theorem placed_add (m start : ℕ) (l : List α) :
    placed emit (m + start) l = (placed emit start l).map fun p => (p.1, m + p.2) := by
  induction l generalizing start with
  | nil => rfl
  | cons a l ih => rw [placed, placed, map_cons, Nat.add_assoc, ih]

theorem endingBy_cons_of_le (l : List α) (h : (emit a).length ≤ k) :
    endingBy emit k (a :: l) = a :: endingBy emit (k - (emit a).length) l := by
  have hshift : ∀ p : α × ℕ, decide ((emit a).length + p.2 ≤ k) =
      decide (p.2 ≤ k - (emit a).length) := fun p => decide_eq_decide.mpr (by omega)
  rw [endingBy, placed, Nat.zero_add, filter_cons_of_pos (by simpa using h), map_cons,
    ← Nat.add_zero (emit a).length, placed_add, filter_map, map_map]
  simp only [Function.comp_def, hshift]
  rfl

theorem endingBy_cons_of_lt (l : List α) (h : k < (emit a).length) :
    endingBy emit k (a :: l) = [] := by
  rw [endingBy, map_eq_nil_iff, filter_eq_nil_iff]
  intro p hp hle
  have hst : 0 + (emit a).length ≤ p.2 := by
    rcases mem_cons.mp hp with rfl | hp
    · exact Nat.le_refl _
    · exact le_of_mem_placed hp
  have hcut := of_decide_eq_true hle
  omega

theorem endingBy_eq_self (h : (l.flatMap emit).length ≤ k) : endingBy emit k l = l := by
  induction l generalizing k with
  | nil => rfl
  | cons a l ih =>
    rw [flatMap_cons, length_append] at h
    rw [endingBy_cons_of_le l (by omega), ih (by omega)]

theorem readAll_take (h : ∀ a ∈ l, ∀ rest, read (emit a ++ rest) = some (a, rest))
    (hcut : ∀ a ∈ l, ∀ k < (emit a).length, read ((emit a).take k) = none)
    (hrest : ∀ k, read (rest.take k) = none) (n k : ℕ) :
    (readAll read (l.length + n) ((l.flatMap emit ++ rest).take k)).1 = endingBy emit k l := by
  induction l generalizing k with
  | nil =>
    rw [flatMap_nil, nil_append, readAll_of_none (hrest k)]
    rfl
  | cons a l ih =>
    obtain ⟨ha, hl⟩ := forall_mem_cons.mp h
    obtain ⟨hcuta, hcutl⟩ := forall_mem_cons.mp hcut
    rw [flatMap_cons, append_assoc, take_append]
    rcases Nat.lt_or_ge k (emit a).length with hlt | hle
    · rw [Nat.sub_eq_zero_of_le (Nat.le_of_lt hlt), take_zero, append_nil,
        readAll_of_none (hcuta k hlt), endingBy_cons_of_lt l hlt]
    · rw [take_of_length_le hle, length_cons, Nat.add_right_comm,
        readAll_of_some (ha _), endingBy_cons_of_le l hle, ih hl hcutl]

theorem records_take (hshr : Shrinks read)
    (h : ∀ a ∈ l, ∀ rest, read (emit a ++ rest) = some (a, rest))
    (hcut : ∀ a ∈ l, ∀ k < (emit a).length, read ((emit a).take k) = none)
    (hrest : ∀ k, read (rest.take k) = none) (k : ℕ) :
    (records read ((l.flatMap emit ++ rest).take k)).1 = endingBy emit k l := by
  rw [records, readAll_eq hshr (Nat.le_refl _) (Nat.le_add_left _ l.length),
    readAll_take h hcut hrest]

end Records
