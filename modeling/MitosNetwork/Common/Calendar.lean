import Mathlib.Algebra.Order.BigOperators.Group.Finset
import Mathlib.Algebra.BigOperators.Intervals
import Mathlib.Order.Interval.Finset.Nat

/-!
# The Gregorian calendar

Dates of the proleptic Gregorian calendar, the day after a date, and the number of a day counted
from 1970-01-01. `dayNumber_next` says that the number grows by one from a date to the next, which
with `dayNumber_epoch` is what counting days means, and `dayNumber_inj` that no two dates have the
same number.
-/

namespace Calendar

def isLeap (y : ℤ) : Bool := y % 4 = 0 ∧ (y % 100 ≠ 0 ∨ y % 400 = 0)

variable (leap : Bool)

def monthLength (m : ℕ) : ℕ :=
  if m = 2 then if leap then 29 else 28
  else if m = 4 ∨ m = 6 ∨ m = 9 ∨ m = 11 then 30
  else 31

def yearLength : ℕ := if leap then 366 else 365

theorem yearLength_le : yearLength leap ≤ 366 := by
  cases leap <;> decide

structure Date where
  year : ℤ
  month : ℕ
  day : ℕ
deriving DecidableEq

def Date.monthLength (d : Date) : ℕ := Calendar.monthLength (isLeap d.year) d.month

/-- There is such a day. -/
structure Date.Valid (d : Date) : Prop where
  one_le_month : 1 ≤ d.month
  month_le : d.month ≤ 12
  one_le_day : 1 ≤ d.day
  day_le : d.day ≤ d.monthLength

def epoch : Date := ⟨1970, 1, 1⟩

def Date.next (d : Date) : Date :=
  if d.day < d.monthLength then ⟨d.year, d.month, d.day + 1⟩
  else if d.month < 12 then ⟨d.year, d.month + 1, 1⟩
  else ⟨d.year + 1, 1, 1⟩

/-- The days from 0001-01-01 to the first of January of a year. -/
def daysBeforeYear (y : ℤ) : ℤ := 365 * (y - 1) + (y - 1) / 4 - (y - 1) / 100 + (y - 1) / 400

def daysBeforeMonth (m : ℕ) : ℕ := ∑ k ∈ Finset.Ico 1 m, monthLength leap k

def Date.daysBefore (d : Date) : ℕ := daysBeforeMonth (isLeap d.year) d.month + (d.day - 1)

def Date.dayNumber (d : Date) : ℤ := daysBeforeYear d.year + d.daysBefore - daysBeforeYear 1970

/-! ## Years and months -/

theorem daysBeforeYear_succ (y : ℤ) :
    daysBeforeYear (y + 1) = daysBeforeYear y + yearLength (isLeap y) := by
  unfold daysBeforeYear
  cases hleap : isLeap y with
  | true =>
    have hyear : y % 4 = 0 ∧ (y % 100 ≠ 0 ∨ y % 400 = 0) := of_decide_eq_true hleap
    show _ = _ + ((366 : ℕ) : ℤ)
    omega
  | false =>
    have hyear : ¬ (y % 4 = 0 ∧ (y % 100 ≠ 0 ∨ y % 400 = 0)) := of_decide_eq_false hleap
    show _ = _ + ((365 : ℕ) : ℤ)
    omega

theorem daysBeforeYear_mono {y y' : ℤ} (h : y ≤ y') : daysBeforeYear y ≤ daysBeforeYear y' := by
  unfold daysBeforeYear
  omega

theorem daysBeforeMonth_succ {m : ℕ} (h : 1 ≤ m) :
    daysBeforeMonth leap (m + 1) = daysBeforeMonth leap m + monthLength leap m :=
  Finset.sum_Ico_succ_top h _

theorem daysBeforeMonth_mono {m m' : ℕ} (h : m ≤ m') :
    daysBeforeMonth leap m ≤ daysBeforeMonth leap m' :=
  Finset.sum_le_sum_of_subset (Finset.Ico_subset_Ico_right h)

theorem daysBeforeMonth_thirteen : ∀ leap, daysBeforeMonth leap 13 = yearLength leap := by
  decide

theorem one_le_monthLength (m : ℕ) : 1 ≤ monthLength leap m := by
  unfold monthLength
  split
  · cases leap <;> decide
  · split <;> decide

/-! ## Counting days -/

namespace Date

variable {d d' : Date}

theorem dayNumber_epoch : epoch.dayNumber = 0 := rfl

section

variable (h : d.Valid)
include h

theorem Valid.next : d.next.Valid := by
  obtain ⟨hm, hm', hd, hd'⟩ := h
  unfold Date.next
  split
  · exact ⟨hm, hm', Nat.le_add_left 1 _, ‹_›⟩
  · split
    · exact ⟨Nat.le_add_left 1 _, ‹_›, le_rfl, one_le_monthLength _ _⟩
    · exact ⟨le_rfl, Nat.le_add_left 1 11, le_rfl, one_le_monthLength _ _⟩

theorem Valid.daysBefore_succ :
    d.daysBefore + 1 = daysBeforeMonth (isLeap d.year) d.month + d.day := by
  have hday := h.one_le_day
  unfold daysBefore
  omega

theorem Valid.daysBefore_lt : d.daysBefore < daysBeforeMonth (isLeap d.year) (d.month + 1) := by
  have hday := h.day_le
  have hbefore := h.daysBefore_succ
  rw [daysBeforeMonth_succ _ h.one_le_month]
  unfold Date.monthLength at hday
  omega

theorem Valid.daysBefore_lt_yearLength : d.daysBefore < yearLength (isLeap d.year) := by
  have hmon := daysBeforeMonth_mono (isLeap d.year) (Nat.succ_le_succ h.month_le)
  rw [daysBeforeMonth_thirteen] at hmon
  exact h.daysBefore_lt.trans_le hmon

theorem dayNumber_next : d.next.dayNumber = d.dayNumber + 1 := by
  have hbefore := h.daysBefore_succ
  have hmon := daysBeforeMonth_succ (isLeap d.year) h.one_le_month
  have hday := h.day_le
  unfold Date.next
  split
  · show daysBeforeYear d.year + ((daysBeforeMonth (isLeap d.year) d.month + d.day : ℕ) : ℤ) - _ = _
    rw [dayNumber]
    omega
  · rename_i hlast
    have hend : d.daysBefore + 1 = daysBeforeMonth (isLeap d.year) (d.month + 1) := by
      unfold Date.monthLength at hday hlast
      omega
    split
    · show daysBeforeYear d.year + ((daysBeforeMonth (isLeap d.year) (d.month + 1) : ℕ) : ℤ) - _ = _
      rw [dayNumber]
      omega
    · have hthirteen : d.month + 1 = 13 := by
        have := h.month_le
        omega
      rw [hthirteen, daysBeforeMonth_thirteen] at hend
      show daysBeforeYear (d.year + 1) + ((0 : ℕ) : ℤ) - _ = _
      rw [daysBeforeYear_succ, ← hend, dayNumber]
      omega

theorem year_eq_of_dayNumber_eq (h' : d'.Valid) (heq : d.dayNumber = d'.dayNumber) :
    d.year = d'.year := by
  have hle : ∀ {a b : Date}, a.Valid → a.dayNumber = b.dayNumber → b.year ≤ a.year := by
    intro a b ha hab
    by_contra hlt
    have hyr := daysBeforeYear_mono (Int.add_one_le_of_lt (not_le.mp hlt))
    have hday := ha.daysBefore_lt_yearLength
    rw [daysBeforeYear_succ] at hyr
    unfold dayNumber at hab
    omega
  exact le_antisymm (hle h' heq.symm) (hle h heq)

theorem dayNumber_inj (h' : d'.Valid) (heq : d.dayNumber = d'.dayNumber) : d = d' := by
  have hyear := year_eq_of_dayNumber_eq h h' heq
  have hbefore : d.daysBefore = d'.daysBefore := by
    unfold dayNumber at heq
    rw [hyear] at heq
    omega
  have hle : ∀ {a b : Date}, a.Valid → b.Valid → a.year = b.year → a.daysBefore = b.daysBefore →
      b.month ≤ a.month := by
    intro a b ha hb hyear hab
    by_contra hlt
    have hnext : a.month + 1 ≤ b.month := not_le.mp hlt
    have hmonths := daysBeforeMonth_mono (isLeap a.year) hnext
    have hday := ha.daysBefore_lt
    have hfst := hb.daysBefore_succ
    have hpos := hb.one_le_day
    rw [hyear] at hmonths hday
    omega
  have hmon := le_antisymm (hle h' h hyear.symm hbefore.symm) (hle h h' hyear hbefore)
  have hday : d.day = d'.day := by
    have hfst := h.daysBefore_succ
    have hfirst' := h'.daysBefore_succ
    rw [hyear, hmon] at hfst
    omega
  obtain ⟨year, month, day⟩ := d
  simp only at hyear hmon hday
  rw [hyear, hmon, hday]

end

end Date

end Calendar
