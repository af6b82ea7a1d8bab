import MitosNetwork.Common.Calendar
import MitosNetwork.Common.Checked
import MitosNetwork.Proxy.PacBuiltins

/-!
# Dates of PAC scripts

`civil_from_days` of `src/proxy/pac.rs`. It counts from the first of March of the year 0, in eras of
400 years, so that the leap day is the last one of a year. `yearOfEra_spec` and `monthOfYear_spec`
say that its two divisions find the year and the month; `civil_from_days_spec` that the result is
the date with the given number in the Gregorian calendar, and that nothing overflows on the way.
-/

namespace MitosNetwork.Pac

open Calendar Checked

variable {doe q c s doy yoe : ℕ}

/-! ## The steps -/

variable (z : ℤ)

/-- The era of a day counted from 0000-03-01. -/
def eraOf : ℤ := (if 0 ≤ z then z else z - 146096).tdiv 146097

def yearOfEra (doe : ℕ) : ℕ := (doe - doe / 1460 + doe / 36524 - doe / 146096) / 365

def daysBeforeYearOfEra (yoe : ℕ) : ℕ := 365 * yoe + yoe / 4 - yoe / 100

/-- The month of a day of the year, counted from March. -/
def monthOfYear (doy : ℕ) : ℕ := (5 * doy + 2) / 153

def daysBeforeMonthOfYear (mp : ℕ) : ℕ := (153 * mp + 2) / 5

/-- The date of the day `doy` of the year `y`, both counted from March. -/
def dateOf (y : ℤ) (doy : ℕ) : ℤ × ℕ × ℕ :=
  let mp := monthOfYear doy
  let m := if mp < 10 then mp + 3 else mp - 9
  (if m ≤ 2 then y + 1 else y, m, doy - daysBeforeMonthOfYear mp + 1)

theorem civilFromDays_eq :
    civilFromDays z =
      let era := eraOf (z + 719468)
      let doe := (z + 719468 - era * 146097).toNat
      dateOf (yearOfEra doe + era * 400) (doe - daysBeforeYearOfEra (yearOfEra doe)) := rfl

theorem eraOf_eq : eraOf z = z / 146097 := by
  unfold eraOf
  split
  · rename_i h
    exact Int.tdiv_eq_ediv_of_nonneg h
  · have hneg : (z - 146096).tdiv 146097 = -((146096 - z) / 146097) := by
      rw [← Int.tdiv_eq_ediv_of_nonneg (by omega), ← Int.neg_tdiv, neg_sub]
    omega

theorem exists_dayOfEra : ∃ doe : ℕ, z - eraOf z * 146097 = doe ∧ doe < 146097 := by
  have hera := eraOf_eq z
  exact ⟨(z - eraOf z * 146097).toNat, by omega, by omega⟩

/-! ## The year -/

theorem exists_century (h : doe < 146097) :
    ∃ c q s, c ≤ 3 ∧ q ≤ 24 ∧ s ≤ 1460 ∧ doe = 36524 * c + 1461 * q + s ∧
      (q = 24 → c < 3 → s < 1460) := by
  refine ⟨min (doe / 36524) 3, (doe - 36524 * min (doe / 36524) 3) / 1461,
    (doe - 36524 * min (doe / 36524) 3) % 1461, ?_, ?_, ?_, ?_, ?_⟩
  all_goals omega

theorem daysBeforeYearOfEra_eq (c : ℕ) {t : ℕ} (hq : q ≤ 24) (ht : t ≤ 3) :
    daysBeforeYearOfEra (100 * c + 4 * q + t) = 36524 * c + 1461 * q + 365 * t := by
  have hfour : (100 * c + 4 * q + t) / 4 = 25 * c + q := by omega
  have hhundred : (100 * c + 4 * q + t) / 100 = c := by omega
  rw [daysBeforeYearOfEra]
  omega

theorem div_1460_eq (hc : c ≤ 3) (hq : q ≤ 24) (hs : s ≤ 1460) :
    ∃ e, (36524 * c + 1461 * q + s) / 1460 = 25 * c + q + e ∧ e ≤ 1 ∧ (e = 1 → 1364 ≤ s) ∧
      (s = 1460 → e = 1) := by
  refine ⟨(24 * c + q + s) / 1460, ?_, ?_, ?_, ?_⟩
  all_goals omega

theorem div_36524_eq (hc : c ≤ 3) (hq : q ≤ 24) (hs : s ≤ 1460)
    (hlast : q = 24 → c < 3 → s < 1460) :
    (36524 * c + 1461 * q + s) / 36524 = c + (36524 * c + 1461 * q + s) / 146096 := by
  have hcas : 1461 * q + s < 36524 ∨ (c = 3 ∧ q = 24 ∧ s = 1460) := by omega
  rcases hcas with hr | ⟨rfl, rfl, rfl⟩
  · have hzero : (36524 * c + 1461 * q + s) / 146096 = 0 := by omega
    omega
  · rfl

theorem yearOfEra_spec (h : doe < 146097) :
    yearOfEra doe < 400 ∧ daysBeforeYearOfEra (yearOfEra doe) ≤ doe ∧
      doe < daysBeforeYearOfEra (yearOfEra doe + 1) + (yearOfEra doe + 1) / 400 := by
  obtain ⟨c, q, s, hc, hq, hs, rfl, hlast⟩ := exists_century h
  obtain ⟨e, hleaps, he, hlate, hend⟩ := div_1460_eq hc hq hs
  have hcenturies := div_36524_eq hc hq hs hlast
  have hyear : yearOfEra (36524 * c + 1461 * q + s) = 100 * c + 4 * q + (s - e) / 365 := by
    rw [yearOfEra, hleaps, hcenturies]
    generalize (36524 * c + 1461 * q + s) / 146096 = x
    omega
  obtain ⟨t, ht⟩ : ∃ t, (s - e) / 365 = t := ⟨_, rfl⟩
  have hthree : t ≤ 3 := by omega
  have hhigh : t < 3 → s < 365 * (t + 1) := by omega
  rw [hyear, ht, daysBeforeYearOfEra_eq c hq hthree]
  refine ⟨by omega, by omega, ?_⟩
  -- The next year is in the same four years, in the next four years, or in the next century.
  rcases Nat.lt_or_ge t 3 with hyr | hyr
  · have hday := hhigh hyr
    have hnext : daysBeforeYearOfEra (100 * c + 4 * q + t + 1) = _ :=
      daysBeforeYearOfEra_eq c hq (t := t + 1) hyr
    omega
  obtain rfl : t = 3 := le_antisymm hthree hyr
  rcases Nat.lt_or_ge q 24 with hfours | hfours
  · have hnext : 100 * c + 4 * q + 3 + 1 = 100 * c + 4 * (q + 1) + 0 := by ring
    rw [hnext, daysBeforeYearOfEra_eq c (q := q + 1) hfours (Nat.zero_le 3)]
    omega
  obtain rfl : q = 24 := le_antisymm hq hfours
  have hnext : 100 * c + 4 * 24 + 3 + 1 = 100 * (c + 1) + 4 * 0 + 0 := by ring
  rw [hnext, daysBeforeYearOfEra_eq (c + 1) (Nat.zero_le 24) (Nat.zero_le 3)]
  omega

/-! ## The month -/

theorem monthOfYear_spec (h : doy < 366) :
    monthOfYear doy ≤ 11 ∧ daysBeforeMonthOfYear (monthOfYear doy) ≤ doy ∧
      doy < daysBeforeMonthOfYear (monthOfYear doy + 1) := by
  unfold monthOfYear daysBeforeMonthOfYear
  omega

theorem daysBeforeMonth_add_three : ∀ leap, ∀ mp < 10,
    daysBeforeMonth leap (mp + 3) + 306 = yearLength leap + daysBeforeMonthOfYear mp ∧
      daysBeforeMonthOfYear mp + monthLength leap (mp + 3) = daysBeforeMonthOfYear (mp + 1) := by
  decide

theorem daysBeforeMonth_sub_nine : ∀ leap, ∀ mp, 10 ≤ mp → mp ≤ 11 →
    daysBeforeMonth leap (mp - 9) + 306 = daysBeforeMonthOfYear mp ∧
      min (daysBeforeMonthOfYear (mp + 1)) (yearLength leap) =
        daysBeforeMonthOfYear mp + monthLength leap (mp - 9) := by
  intro leap mp hlow hhigh
  obtain rfl | rfl : mp = 10 ∨ mp = 11 := by omega
  · revert leap
    decide
  · revert leap
    decide

def dateOfCivil (t : ℤ × ℕ × ℕ) : Date := ⟨t.1, t.2.1, t.2.2⟩

theorem dateOf_spec (y : ℤ) (h : doy < yearLength (isLeap (y + 1))) :
    (dateOfCivil (dateOf y doy)).Valid ∧
      (dateOfCivil (dateOf y doy)).dayNumber =
        daysBeforeYear (y + 1) + doy - 306 - daysBeforeYear 1970 := by
  obtain ⟨hmon, hlow, hhigh⟩ := monthOfYear_spec (h.trans_le (yearLength_le _))
  generalize hmp : monthOfYear doy = mp at hmon hlow hhigh
  by_cases hmar : mp < 10
  · have hdate : dateOfCivil (dateOf y doy) =
        ⟨y, mp + 3, doy - daysBeforeMonthOfYear mp + 1⟩ := by
      simp only [dateOf, dateOfCivil, hmp, if_pos hmar]
      rw [if_neg (by omega)]
    obtain ⟨hbefore, hlen⟩ := daysBeforeMonth_add_three (isLeap y) mp hmar
    have hsucc := daysBeforeYear_succ y
    rw [hdate]
    refine ⟨⟨by simp only; omega, by simp only; omega, Nat.le_add_left 1 _, ?_⟩, ?_⟩
    · show doy - daysBeforeMonthOfYear mp + 1 ≤ monthLength (isLeap y) (mp + 3)
      omega
    · show daysBeforeYear y + ((daysBeforeMonth (isLeap y) (mp + 3) +
        (doy - daysBeforeMonthOfYear mp + 1 - 1) : ℕ) : ℤ) - _ = _
      omega
  · have hdate : dateOfCivil (dateOf y doy) =
        ⟨y + 1, mp - 9, doy - daysBeforeMonthOfYear mp + 1⟩ := by
      simp only [dateOf, dateOfCivil, hmp, if_neg hmar]
      rw [if_pos (by omega)]
    obtain ⟨hbefore, hlen⟩ := daysBeforeMonth_sub_nine (isLeap (y + 1)) mp (not_lt.mp hmar) hmon
    rw [hdate]
    refine ⟨⟨by simp only; omega, by simp only; omega, Nat.le_add_left 1 _, ?_⟩, ?_⟩
    · show doy - daysBeforeMonthOfYear mp + 1 ≤ monthLength (isLeap (y + 1)) (mp - 9)
      omega
    · show daysBeforeYear (y + 1) + ((daysBeforeMonth (isLeap (y + 1)) (mp - 9) +
        (doy - daysBeforeMonthOfYear mp + 1 - 1) : ℕ) : ℤ) - _ = _
      omega

/-! ## The date -/

theorem daysBeforeYear_era (era : ℤ) (h : yoe < 400) :
    daysBeforeYear (yoe + era * 400 + 1) = era * 146097 + daysBeforeYearOfEra yoe ∧
      daysBeforeYear (yoe + era * 400 + 1 + 1) =
        era * 146097 + (daysBeforeYearOfEra (yoe + 1) + (yoe + 1) / 400 : ℕ) := by
  unfold daysBeforeYear daysBeforeYearOfEra
  omega

theorem dayOfYear_lt (era : ℤ) (h : doe < 146097) :
    doe - daysBeforeYearOfEra (yearOfEra doe) <
      yearLength (isLeap (yearOfEra doe + era * 400 + 1)) := by
  obtain ⟨hyoe, hlow, hhigh⟩ := yearOfEra_spec h
  obtain ⟨hbefore, hafter⟩ := daysBeforeYear_era era hyoe
  have hsucc := daysBeforeYear_succ (yearOfEra doe + era * 400 + 1)
  omega

theorem civilFromDays_spec :
    (dateOfCivil (civilFromDays z)).Valid ∧ (dateOfCivil (civilFromDays z)).dayNumber = z := by
  obtain ⟨doe, hdoe, hlt⟩ := exists_dayOfEra (z + 719468)
  rw [civilFromDays_eq]
  simp only [hdoe]
  obtain ⟨hyoe, hlow, -⟩ := yearOfEra_spec hlt
  obtain ⟨hbefore, -⟩ := daysBeforeYear_era (eraOf (z + 719468)) hyoe
  obtain ⟨hvalid, hnum⟩ := dateOf_spec _ (dayOfYear_lt (eraOf (z + 719468)) hlt)
  refine ⟨hvalid, hnum.trans ?_⟩
  have hepoch : daysBeforeYear 1970 = 719162 := rfl
  omega

theorem civilFromDays_succ :
    dateOfCivil (civilFromDays (z + 1)) = (dateOfCivil (civilFromDays z)).next := by
  obtain ⟨hvalid, hnum⟩ := civilFromDays_spec z
  obtain ⟨hvalid', hnumber'⟩ := civilFromDays_spec (z + 1)
  exact Date.dayNumber_inj hvalid' hvalid.next
    (by rw [hnumber', Date.dayNumber_next hvalid, hnum])

/-! ## The arithmetic

The same steps with every operation of the source on a word of 64 bits. A cast with `as` keeps the
low bits and never panics.
-/

/-- The year of the era, `yoe`. -/
def yearOfEraChecked (doe : ℕ) : Checked ℕ := do
  let days ← unsigned 64 (doe - ↑(doe / 1460))
  let days ← unsigned 64 (days + ↑(doe / 36524))
  let days ← unsigned 64 (days - ↑(doe / 146096))
  return days / 365

/-- The day of the year, `doy`. -/
def dayOfYearChecked (doe yoe : ℕ) : Checked ℕ := do
  let before ← unsigned 64 (365 * yoe)
  let before ← unsigned 64 (before + ↑(yoe / 4))
  let before ← unsigned 64 (before - ↑(yoe / 100))
  unsigned 64 (doe - before)

/-- The month, the day and with them the year. -/
def dateOfChecked (y : ℤ) (doy : ℕ) : Checked (ℤ × ℕ × ℕ) := do
  let mp ← unsigned 64 (5 * doy)
  let mp ← unsigned 64 (mp + 2)
  let mp := mp / 153
  let before ← unsigned 64 (153 * mp)
  let before ← unsigned 64 (before + 2)
  let d ← unsigned 64 (doy - ↑(before / 5))
  let d ← unsigned 64 (d + 1)
  let m ← (if mp < 10 then unsigned 64 (mp + 3) else unsigned 64 (mp - 9))
  let y ← (if m % 2 ^ 32 ≤ 2 then signed 64 (y + 1) else some y)
  return (y, m % 2 ^ 32, d % 2 ^ 32)

/-- `civil_from_days`. -/
def civilFromDaysChecked : Checked (ℤ × ℕ × ℕ) := do
  let z ← signed 64 (z + 719468)
  let start ← (if 0 ≤ z then some z else signed 64 (z - 146096))
  let era := start.tdiv 146097
  let eraStart ← signed 64 (era * 146097)
  let inEra ← signed 64 (z - eraStart)
  let doe := (inEra % 2 ^ 64).toNat
  let yoe ← yearOfEraChecked doe
  let eraYear ← signed 64 (era * 400)
  let y ← signed 64 (Int.bmod yoe (2 ^ 64) + eraYear)
  let doy ← dayOfYearChecked doe yoe
  dateOfChecked y doy

theorem yearOfEraChecked_eq (h : doe < 146097) : yearOfEraChecked doe = some (yearOfEra doe) := by
  rw [yearOfEraChecked, bind_unsigned (n := doe - doe / 1460) (by omega) (by omega),
    bind_unsigned (n := doe - doe / 1460 + doe / 36524) (by omega) (by omega),
    bind_unsigned (n := doe - doe / 1460 + doe / 36524 - doe / 146096) (by omega) (by omega)]
  rfl

theorem dayOfYearChecked_eq (hdoe : doe < 146097) (hyoe : yoe < 400)
    (h : daysBeforeYearOfEra yoe ≤ doe) :
    dayOfYearChecked doe yoe = some (doe - daysBeforeYearOfEra yoe) := by
  unfold daysBeforeYearOfEra at h ⊢
  rw [dayOfYearChecked, bind_unsigned (n := 365 * yoe) (by omega) (by omega),
    bind_unsigned (n := 365 * yoe + yoe / 4) (by omega) (by omega),
    bind_unsigned (n := 365 * yoe + yoe / 4 - yoe / 100) (by omega) (by omega)]
  exact unsigned_of_eq (by omega) (by omega)

theorem dateOfChecked_eq {y : ℤ} (hdoy : doy < 366) (hlow : -2 ^ 63 ≤ y) (hhigh : y + 1 < 2 ^ 63) :
    dateOfChecked y doy = some (dateOf y doy) := by
  obtain ⟨hmon, hbefore, hafter⟩ := monthOfYear_spec hdoy
  have hmp : (5 * doy + 2) / 153 = monthOfYear doy := rfl
  have hsum : (153 * monthOfYear doy + 2) / 5 = daysBeforeMonthOfYear (monthOfYear doy) := rfl
  rw [dateOfChecked, bind_unsigned (n := 5 * doy) (by omega) (by omega),
    bind_unsigned (n := 5 * doy + 2) (by omega) (by omega), hmp,
    bind_unsigned (n := 153 * monthOfYear doy) (by omega) (by omega),
    bind_unsigned (n := 153 * monthOfYear doy + 2) (by omega) (by omega), hsum, dateOf]
  generalize monthOfYear doy = mp at hmon hbefore hafter
  generalize daysBeforeMonthOfYear mp = before at hbefore
  have hm : (if mp < 10 then unsigned 64 (mp + 3) else unsigned 64 (mp - 9)) =
      some (if mp < 10 then mp + 3 else mp - 9) := by
    split <;> exact unsigned_of_eq (by omega) (by omega)
  have hcast : (if mp < 10 then mp + 3 else mp - 9) % 2 ^ 32 =
      if mp < 10 then mp + 3 else mp - 9 :=
    Nat.mod_eq_of_lt (by split <;> omega)
  have hcast' : (doy - before + 1) % 2 ^ 32 = doy - before + 1 := Nat.mod_eq_of_lt (by omega)
  have hyear : signed 64 (y + 1) = some (y + 1) := signed_of_mem (by omega) (by omega)
  rw [bind_unsigned (n := doy - before) (by omega) (by omega),
    bind_unsigned (n := doy - before + 1) (by omega) (by omega), bind_of_eq hm, hcast, hcast',
    hyear]
  generalize (if mp < 10 then mp + 3 else mp - 9) = m
  have hlast : (if m ≤ 2 then some (y + 1) else some y) = some (if m ≤ 2 then y + 1 else y) := by
    split <;> rfl
  rw [bind_of_eq hlast]
  rfl

theorem civilFromDaysChecked_eq {z : ℤ} (hlow : -2 ^ 63 ≤ z) (hhigh : z + 719468 < 2 ^ 63) :
    civilFromDaysChecked z = some (civilFromDays z) := by
  obtain ⟨doe, hdoe, hlt⟩ := exists_dayOfEra (z + 719468)
  obtain ⟨hyoe, hyear, -⟩ := yearOfEra_spec hlt
  have hday := (dayOfYear_lt 0 hlt).trans_le (yearLength_le _)
  have hst : (if 0 ≤ z + 719468 then some (z + 719468) else signed 64 (z + 719468 - 146096)) =
      some (if 0 ≤ z + 719468 then z + 719468 else z + 719468 - 146096) := by
    split
    · rfl
    · exact signed_of_mem (by omega) (by omega)
  have hdiv : (if 0 ≤ z + 719468 then z + 719468 else z + 719468 - 146096).tdiv 146097 =
      eraOf (z + 719468) := rfl
  rw [civilFromDays_eq, civilFromDaysChecked, bind_signed (by omega) (by omega),
    bind_of_eq hst, hdiv]
  simp only [hdoe, Int.toNat_natCast]
  have hyr := yearOfEraChecked_eq hlt
  generalize eraOf (z + 719468) = era at hdoe ⊢
  generalize yearOfEra doe = yoe at hyoe hyear hday hyr ⊢
  have hsub : signed 64 (z + 719468 - era * 146097) = some (doe : ℤ) := by
    rw [hdoe]
    exact signed_of_mem (by omega) (by omega)
  have hcast : ((doe : ℤ) % 2 ^ 64).toNat = doe := by omega
  have hdate := dateOfChecked_eq (y := yoe + era * 400) hday (by omega) (by omega)
  have hcast' : Int.bmod yoe (2 ^ 64) = yoe := Int.bmod_eq_of_le (by omega) (by omega)
  rw [bind_signed (by omega) (by omega), bind_of_eq hsub, hcast, bind_of_eq hyr,
    bind_signed (by omega) (by omega), hcast', bind_signed (by omega) (by omega),
    bind_of_eq (dayOfYearChecked_eq hlt hyoe hyear), hdate]

/-- The date of a day is the one of the Gregorian calendar with that number, in the whole range of
the source's words: all the arithmetic fits them and what is subtracted is never the larger. -/
theorem civil_from_days_spec (z : ℤ) (hlow : -2 ^ 63 ≤ z) (hhigh : z + 719468 < 2 ^ 63) :
    civilFromDaysChecked z = some (civilFromDays z) ∧
      (dateOfCivil (civilFromDays z)).Valid ∧
      (dateOfCivil (civilFromDays z)).dayNumber = z ∧
      dateOfCivil (civilFromDays (z + 1)) = (dateOfCivil (civilFromDays z)).next :=
  ⟨civilFromDaysChecked_eq hlow hhigh, (civilFromDays_spec z).1, (civilFromDays_spec z).2,
    civilFromDays_succ z⟩

/-- The day before a first of March, in a leap year at the end of a century. -/
theorem civil_from_days_leap_day :
    civilFromDays 11016 = (2000, 2, 29) ∧ civilFromDaysChecked 11016 = some (2000, 2, 29) ∧
      civilFromDays 11017 = (2000, 3, 1) := by
  obtain ⟨hchecked, -, -, -⟩ := civil_from_days_spec 11016 (by decide) (by decide)
  exact ⟨by decide, hchecked.trans (by decide), by decide⟩

end MitosNetwork.Pac
