import Rudis.Spec.Primitives

/-!
# `Rudis.Proofs.Time`: date keys count days

A day is a day of a year that begins in March (`DayOf`). The leap day is the last of such a year, so
the month table is the same for all years (`monthDay_spec`); the year formula is monotone and right
at both ends of each of the 400 years of an era (`yearOfEra_spec`).
-/

namespace Rudis.Time

open Nat

/-- Days before March of a year. -/
def yearStart (y : Nat) : Nat := 365 * y + y / 4 - y / 100 + y / 400

theorem yearStart_mono : Monotone yearStart := by
  refine monotone_nat_of_le_succ fun y => ?_
  simp only [yearStart]
  omega

theorem yearStart_era (yoe era : Nat) :
    yearStart (yoe + era * 400) = yearStart yoe + era * 146097 := by
  simp only [yearStart]
  omega

/-- The year of an era that a day of it is in. -/
def yearOfEra (doe : Nat) : Nat := (doe - doe / 1460 + doe / 36524 - doe / 146096) / 365

theorem yearOfEra_mono : Monotone yearOfEra := by
  refine monotone_nat_of_le_succ fun doe => Nat.div_le_div_right ?_
  omega

theorem yearOfEra_ends : ∀ y < 400,
    yearOfEra (yearStart y) = y ∧ yearOfEra (yearStart (y + 1) - 1) = y := by decide +kernel

theorem exists_year {d k : Nat} (h : d < yearStart k) :
    ∃ y < k, yearStart y ≤ d ∧ d < yearStart (y + 1) := by
  induction k with
  | zero => exact absurd h (Nat.not_lt_zero d)
  | succ k ih =>
    by_cases hk : d < yearStart k
    · obtain ⟨y, hy, hyear⟩ := ih hk
      exact ⟨y, by omega, hyear⟩
    · exact ⟨k, by omega, not_lt.mp hk, h⟩

theorem yearOfEra_spec {doe : Nat} (h : doe < 146097) :
    yearOfEra doe < 400 ∧ yearStart (yearOfEra doe) ≤ doe ∧ doe < yearStart (yearOfEra doe + 1) := by
  obtain ⟨y, hy, hge, hlt⟩ := exists_year (show doe < yearStart 400 from h)
  have hfirst := yearOfEra_mono hge
  have hlast := yearOfEra_mono (le_sub_one_of_lt hlt)
  rw [(yearOfEra_ends y hy).1] at hfirst
  rw [(yearOfEra_ends y hy).2] at hlast
  rw [le_antisymm hlast hfirst]
  exact ⟨hy, hge, hlt⟩

/-- Month and day of a day of the year that begins in March, as a key; January and February are of
the next civil year. -/
def monthDay (doy : Nat) : Nat :=
  let mp := (5 * doy + 2) / 153
  let m := if mp < 10 then mp + 3 else mp - 9
  (if m ≤ 2 then 10000 else 0) + m * 100 + (doy - (153 * mp + 2) / 5 + 1)

/-- The month table, in a year that is not a leap year except for the last day. -/
theorem monthDay_spec : ∀ doy < 366, let k := monthDay doy; let m := k / 100 % 100
    301 ≤ k ∧ k ≤ 10229 ∧ k < monthDay (doy + 1) ∧ (k / 10000 = if m ≤ 2 then 1 else 0) ∧
    (1 ≤ m ∧ m ≤ 12 ∧ 1 ≤ k % 100 ∧ k % 100 ≤ daysInMonth (if doy = 365 then 4 else 1) m) ∧
    (153 * (if m > 2 then m - 3 else m + 9) + 2) / 5 + k % 100 - 1 = doy ∧
    (doy < 306 → k < 10000) := by
  decide +kernel

theorem monthDay_lt {a b : Nat} (hab : a < b) (hb : b < 366) : monthDay a < monthDay b := by
  induction b, hab using le_induction with
  | base => exact (monthDay_spec a (by omega)).2.2.1
  | succ b _ ih => exact (ih (by omega)).trans (monthDay_spec b (by omega)).2.2.1

theorem key_parts (y k : Nat) : (y * 10000 + k) / 10000 = y + k / 10000 ∧
    (y * 10000 + k) / 100 % 100 = k / 100 % 100 ∧ (y * 10000 + k) % 100 = k % 100 := by
  omega

variable {n m y doy : Nat}

/-- A day since the epoch is a day of a year that begins in March. -/
structure DayOf (n y doy : Nat) : Prop where
  sum : n + 719468 = yearStart y + doy
  lt : yearStart y + doy < yearStart (y + 1)

theorem DayOf.doy_lt (h : DayOf n y doy) : doy < 366 := by
  have := h.lt
  simp only [yearStart] at this
  omega

/-- The days up to year 9999. -/
def dayLimit : Nat := 2932897

theorem DayOf.year_lt (h : DayOf n y doy) (hn : n < dayLimit) : y < 10000 := by
  have hsum := h.sum
  simp only [yearStart, dayLimit] at *
  omega

theorem exists_dayOf (hn : n < dayLimit) :
    ∃ y doy, DayOf n y doy ∧ civilDateFromDays n = y * 10000 + monthDay doy := by
  simp only [civilDateFromDays]
  generalize hz : n + 719468 = z
  have hyear := yearOfEra_spec (mod_lt z (show 146097 > 0 by decide))
  have hdoe : z - z / 146097 * 146097 = z % 146097 := by omega
  have hera := div_add_mod z 146097
  rw [hdoe]
  generalize z % 146097 = doe at *
  generalize z / 146097 = era at *
  simp only [yearOfEra] at hyear
  generalize (doe - doe / 1460 + doe / 36524 - doe / 146096) / 365 = yoe at *
  obtain ⟨hlt, hge, hend⟩ := hyear
  have hstart : 365 * yoe + yoe / 4 - yoe / 100 = yearStart yoe := by
    rw [yearStart, div_eq_of_lt hlt, Nat.add_zero]
  rw [hstart]
  have hday : DayOf n (yoe + era * 400) (doe - yearStart yoe) := by
    constructor
    · rw [yearStart_era]
      omega
    · rw [yearStart_era, Nat.add_right_comm yoe, yearStart_era]
      omega
  refine ⟨_, _, hday, ?_⟩
  have hy := hday.year_lt hn
  have hdoy := hday.doy_lt
  generalize doe - yearStart yoe = doy at *
  generalize yoe + era * 400 = y at *
  simp only [monthDay]
  clear * - hy hdoy
  split <;> split <;> omega

theorem DayOf.daysFromCivil_eq (h : DayOf n y doy) :
    daysFromCivil (y + monthDay doy / 10000) (monthDay doy / 100 % 100) (monthDay doy % 100) = n := by
  obtain ⟨-, -, -, hcarry, -, hback, -⟩ := monthDay_spec doy h.doy_lt
  have hsum := h.sum
  have hy : (if monthDay doy / 100 % 100 ≤ 2 then y + monthDay doy / 10000 - 1
      else y + monthDay doy / 10000) = y := by
    rw [hcarry]
    split <;> omega
  have hera := yearStart_era (y - y / 400 * 400) (y / 400)
  rw [Nat.sub_add_cancel (div_mul_le_self y 400)] at hera
  have hlt : y - y / 400 * 400 < 400 := by omega
  unfold daysFromCivil
  dsimp only
  rw [hy, hback]
  generalize y - y / 400 * 400 = yoe at *
  rw [hera, yearStart, div_eq_of_lt hlt] at hsum
  omega

/-- Only the year before a leap year has a day 365. -/
theorem DayOf.daysInMonth_le (h : DayOf n y doy) :
    daysInMonth (if doy = 365 then 4 else 1) (monthDay doy / 100 % 100) ≤
      daysInMonth (y + monthDay doy / 10000) (monthDay doy / 100 % 100) := by
  by_cases hlast : doy = 365
  · subst hlast
    have hlt := h.lt
    have hleap : (y + 1) % 4 = 0 ∧ ((y + 1) % 100 ≠ 0 ∨ (y + 1) % 400 = 0) := by
      simp only [yearStart] at hlt
      omega
    rw [show monthDay 365 = 10229 by decide]
    show 29 ≤ if _ then 29 else 28
    rw [if_pos hleap]
  · rw [if_neg hlast]
    generalize y + monthDay doy / 10000 = year
    generalize monthDay doy / 100 % 100 = month
    unfold daysInMonth
    split
    · split <;> split <;> omega
    · exact le_rfl

theorem DayOf.isValidDay_key (h : DayOf n y doy) (hn : n < dayLimit) :
    isValidDay (y * 10000 + monthDay doy) = true := by
  obtain ⟨hyear, hmonth, hdate⟩ := key_parts y (monthDay doy)
  obtain ⟨-, hle, -, -, ⟨hm, hm', hpos, hlen⟩, -, hfirst⟩ := monthDay_spec doy h.doy_lt
  have hlimit : y + monthDay doy / 10000 ≤ 9999 := by
    have hy := h.year_lt hn
    have hsum := h.sum
    simp only [yearStart, dayLimit] at hsum hn
    omega
  simp only [isValidDay, hyear, hmonth, hdate, Bool.and_eq_true, decide_eq_true_eq]
  exact ⟨⟨⟨⟨hlimit, hm⟩, hm'⟩, hpos⟩, hlen.trans h.daysInMonth_le⟩

theorem civilDateFromDays_lt (hnm : n < m) (hm : m < dayLimit) :
    civilDateFromDays n < civilDateFromDays m := by
  obtain ⟨y, doy, hday, hkey⟩ := exists_dayOf (hnm.trans hm)
  obtain ⟨y', doy', hday', hkey'⟩ := exists_dayOf hm
  rw [hkey, hkey']
  have hsum := hday.sum
  have hsum' := hday'.sum
  have hle := (monthDay_spec doy hday.doy_lt).2.1
  have hge := (monthDay_spec doy' hday'.doy_lt).1
  have hyear : y ≤ y' := by
    refine Nat.le_of_not_lt fun hlt => ?_
    have hmono : yearStart (y' + 1) ≤ yearStart y := yearStart_mono hlt
    have := hday'.lt
    omega
  rcases hyear.lt_or_eq with hlt | rfl
  · omega
  · have := monthDay_lt (show doy < doy' by omega) hday'.doy_lt
    omega

theorem dateKeyToUtcTimestamp_eq (hn : n < dayLimit) :
    dateKeyToUtcTimestamp (civilDateFromDays n) = n * secondsPerDay := by
  obtain ⟨y, doy, hday, hkey⟩ := exists_dayOf hn
  obtain ⟨hyear, hmonth, hdate⟩ := key_parts y (monthDay doy)
  rw [dateKeyToUtcTimestamp, hkey, hyear, hmonth, hdate, hday.daysFromCivil_eq]

/-- The keys are the dates in their order, and what is computed on keys is computed on days. -/
theorem date_keys_count_days (hn : n < dayLimit) :
    let key := civilDateFromDays n
    daysFromCivil (key / 10000) (key / 100 % 100) (key % 100) = n ∧
    isValidDay key = true ∧ (∀ m < n, civilDateFromDays m < key) ∧
    nextDateKey key = civilDateFromDays (n + 1) ∧ previousDateKey key = civilDateFromDays (n - 1) ∧
    (∀ m < dayLimit, dayNumberBetween (civilDateFromDays m) key =
      if m ≤ n then .ok (n - m) else .error (.preGenesis key (civilDateFromDays m))) ∧
    ∀ t, t + utcPlus14Offset < dayLimit * secondsPerDay → 0 < n →
      (worldwideDayFromTimestamp t = key ↔ startTimestamp key ≤ t ∧
        t < startTimestamp key + secondsPerDay) := by
  have hts := dateKeyToUtcTimestamp_eq hn
  obtain ⟨y, doy, hday, hkey⟩ := exists_dayOf hn
  refine ⟨eq_of_mul_eq_mul_right (by decide) hts, hkey ▸ hday.isValidDay_key hn,
    fun m hm => civilDateFromDays_lt hm hn, ?_, ?_, fun m hm => ?_, fun t ht hpos => ?_⟩
  · have hnext : saturatingAdd 64 (n * secondsPerDay) secondsPerDay / secondsPerDay = n + 1 := by
      simp only [saturatingAdd, secondsPerDay, dayLimit] at *
      omega
    rw [nextDateKey, hts, timestampToDateKey, hnext]
  · have hprev : (n * secondsPerDay - secondsPerDay) / secondsPerDay = n - 1 := by
      simp only [secondsPerDay]
      omega
    rw [previousDateKey, hts, timestampToDateKey, hprev]
  · rw [dayNumberBetween, hts, dateKeyToUtcTimestamp_eq hm, checkedSub]
    by_cases hle : m ≤ n
    · rw [if_pos hle, if_pos (Nat.mul_le_mul_right _ hle), ← Nat.sub_mul]
      show Except.ok (min ((n - m) * secondsPerDay / secondsPerDay) _) = _
      simp only [dayLimit] at *
      rw [Nat.mul_div_cancel _ (by decide), Nat.min_eq_left (by omega)]
    · rw [if_neg hle, if_neg (by simp only [secondsPerDay]; omega)]
      rfl
  · have hlt : (t + utcPlus14Offset) / secondsPerDay < dayLimit :=
      Nat.div_lt_of_lt_mul (by rwa [Nat.mul_comm])
    -- different days have different midnights, so their keys differ
    have hinj := fun h => congrArg dateKeyToUtcTimestamp
      (show civilDateFromDays ((t + utcPlus14Offset) / secondsPerDay) = civilDateFromDays n from h)
    rw [dateKeyToUtcTimestamp_eq hlt, hts] at hinj
    rw [worldwideDayFromTimestamp, startTimestamp, hts, timestampToDateKey,
      wrappingAdd_eq (ht.trans (by decide))]
    simp only [secondsPerDay, utcPlus14Offset] at *
    constructor
    · intro h
      have := hinj h
      omega
    · intro h
      rw [show (t + 50400) / 86400 = n by omega]

theorem date_keys_count_days_last :
    previousDateKey (civilDateFromDays 2932896) = civilDateFromDays 2932895 :=
  (date_keys_count_days (show 2932896 < dayLimit by decide)).2.2.2.2.1

end Rudis.Time
