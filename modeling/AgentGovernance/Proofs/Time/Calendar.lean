import AgentGovernance.Time.Instant
import Mathlib.Tactic.IntervalCases

/-!
# The calendar

The days of the calendar and its dates correspond to each other. Years are counted from March here,
so that the day of a leap year that other years lack is the last one, and 400 years are an era of
146097 days.
-/
namespace AgentGovernance.Instant

/-- The days of an era before one of its years. -/
def startOfYear (year : Nat) : Nat := 365 * year + year / 4 - year / 100

/-- The year of a day of an era. -/
def yearOfEra (day : Nat) : Nat := (day - day / 1460 + day / 36524 - day / 146096) / 365

/-- A day of an era but the last one by its century, by its four years in the century and by the
days behind these. The last four years of a century are a day short. -/
theorem exists_century {day : Nat} (h : day < 146096) :
    ∃ century cycle b, day = 36524 * century + 1461 * cycle + b ∧ century ≤ 3 ∧ cycle ≤ 24 ∧
      b < 1461 ∧ (cycle = 24 → b < 1460) := by
  have hcentury : day = 36524 * (day / 36524) + day % 36524 := by omega
  have hcycle : day % 36524 = 1461 * (day % 36524 / 1461) + day % 36524 % 1461 := by omega
  have hlast : day % 36524 < 36524 := by omega
  refine ⟨day / 36524, day % 36524 / 1461, day % 36524 % 1461, ?_, ?_, ?_, ?_, ?_⟩ <;> omega

theorem startOfYear_parts {century cycle y : Nat} (hcycle : cycle ≤ 24) (hy : y ≤ 3) :
    startOfYear (100 * century + 4 * cycle + y) = 36524 * century + 1461 * cycle + 365 * y := by
  have hfour : (100 * century + 4 * cycle + y) / 4 = 25 * century + cycle := by omega
  have hhundred : (100 * century + 4 * cycle + y) / 100 = century := by omega
  rw [startOfYear, hfour, hhundred]
  omega

/-- The year of such a day. Late in the last of four years, one day is skipped. -/
theorem yearOfEra_parts {day century cycle b : Nat}
    (hday : day = 36524 * century + 1461 * cycle + b) (hcentury : century ≤ 3)
    (hcycle : cycle ≤ 24) (hb : b < 1461) (hshort : cycle = 24 → b < 1460) :
    ∃ y d skipped, b = 365 * y + d + skipped ∧ y ≤ 3 ∧ d < 365 ∧
      (skipped = 0 ∨ skipped = 1 ∧ 1364 ≤ b) ∧
      yearOfEra day = 100 * century + 4 * cycle + y := by
  have hcycles : day / 1460 = 25 * century + cycle + (24 * century + cycle + b) / 1460 := by omega
  have hcenturies : day / 36524 = century := by omega
  have hera : day / 146096 = 0 := by omega
  obtain ⟨skipped, hskipped, hcase⟩ : ∃ e, (24 * century + cycle + b) / 1460 = e ∧
      (e = 0 ∧ 24 * century + cycle + b < 1460 ∨ e = 1 ∧ 1460 ≤ 24 * century + cycle + b) :=
    ⟨_, rfl, by omega⟩
  obtain ⟨y, d, hyd, hd⟩ : ∃ y d, b - skipped = 365 * y + d ∧ d < 365 :=
    ⟨(b - skipped) / 365, (b - skipped) % 365, by omega, by omega⟩
  have hsum : day - day / 1460 + day / 36524 - day / 146096 =
      365 * (100 * century + 4 * cycle + y) + d := by
    rw [hcycles, hskipped, hcenturies, hera]
    clear hcycles hcenturies hera hskipped
    omega
  clear hcycles hcenturies hera hskipped hday
  refine ⟨y, d, skipped, by omega, by omega, hd, by omega, ?_⟩
  rw [yearOfEra, hsum]
  omega

/-- A day of an era lies in its year, and has the number 365 there only if February of that year
has 29 days. -/
theorem yearOfEra_spec {day : Nat} (h : day < 146097) :
    ∃ n, day = startOfYear (yearOfEra day) + n ∧ yearOfEra day < 400 ∧ n ≤ 365 ∧
      (n = 365 → (yearOfEra day + 1) % 4 = 0 ∧
        ((yearOfEra day + 1) % 100 ≠ 0 ∨ yearOfEra day = 399)) := by
  by_cases hlast : day = 146096
  · subst hlast
    exact ⟨365, by decide, by decide, by decide, by decide⟩
  · obtain ⟨century, cycle, b, hday, hcentury, hcycle, hb, hshort⟩ :=
      exists_century (show day < 146096 by omega)
    obtain ⟨y, d, skipped, hparts, hy, hd, hcase, hyear⟩ :=
      yearOfEra_parts hday hcentury hcycle hb hshort
    rw [hyear, startOfYear_parts hcycle hy]
    refine ⟨d + skipped, by omega, by omega, by omega, fun hn => ?_⟩
    have hlong : y = 3 := by omega
    exact ⟨by omega, .inl (by omega)⟩

/-- The month of a day of a year, counted from March as 0. -/
def monthOf (n : Nat) : Nat := (5 * n + 2) / 153

def startOfMonth (month : Nat) : Nat := (153 * month + 2) / 5

theorem startOfMonth_le (n : Nat) : startOfMonth (monthOf n) ≤ n := by
  unfold startOfMonth monthOf
  omega

theorem lt_startOfMonth (n : Nat) : n < startOfMonth (monthOf n + 1) := by
  unfold startOfMonth monthOf
  omega

theorem monthOf_le {n : Nat} (h : n ≤ 365) : monthOf n ≤ 11 := by
  unfold monthOf
  omega

/-- The number that the calendar gives to a month, and whether its year has already changed. -/
def monthNumber (month : Nat) : Nat := if month < 10 then month + 3 else month - 9

/-- Where the date of a day stands: the era, the year of the era and the day of the year. -/
theorem Date.ofDays_spec (days : Int) :
    ∃ (era : Int) (year n : Nat), days + 719468 = 146097 * era + startOfYear year + n ∧
      year < 400 ∧ n ≤ 365 ∧
      (n = 365 → (year + 1) % 4 = 0 ∧ ((year + 1) % 100 ≠ 0 ∨ year = 399)) ∧
      Date.ofDays days =
        ⟨(year : Int) + era * 400 + if monthNumber (monthOf n) ≤ 2 then 1 else 0,
          monthNumber (monthOf n), n - startOfMonth (monthOf n) + 1⟩ := by
  obtain ⟨day, hday⟩ : ∃ day : Nat, (day : Int) = (days + 719468) % 146097 :=
    ⟨((days + 719468) % 146097).toNat, by omega⟩
  obtain ⟨n, hn, hyear, hle, hlong⟩ := @yearOfEra_spec day (by omega)
  refine ⟨(days + 719468) / 146097, yearOfEra day, n, by omega, hyear, hle, hlong, ?_⟩
  have hnat : ((days + 719468) % 146097).toNat = day := by omega
  have hrest : day - startOfYear (yearOfEra day) = n := by omega
  have hdate : Date.ofDays days =
      ⟨if monthNumber (monthOf (day - startOfYear (yearOfEra day))) ≤ 2
          then (yearOfEra day : Int) + (days + 719468) / 146097 * 400 + 1
          else (yearOfEra day : Int) + (days + 719468) / 146097 * 400,
        monthNumber (monthOf (day - startOfYear (yearOfEra day))),
        day - startOfYear (yearOfEra day) -
          startOfMonth (monthOf (day - startOfYear (yearOfEra day))) + 1⟩ := by
    simp only [Date.ofDays, hnat]
    rfl
  rw [hdate, hrest]
  split
  · rfl
  · rw [Int.add_zero]

theorem monthNumber_cases {month : Nat} (h : month ≤ 11) :
    (month ≤ 9 ∧ monthNumber month = month + 3) ∨
      (10 ≤ month ∧ monthNumber month = month - 9) := by
  unfold monthNumber
  split
  · exact .inl ⟨by omega, rfl⟩
  · exact .inr ⟨by omega, rfl⟩

/-- Every day has the date it is counted from. -/
@[simp] theorem Date.toDays_ofDays (days : Int) : (Date.ofDays days).toDays = days := by
  obtain ⟨era, year, n, hdays, hyear, hn, -, hdate⟩ := Date.ofDays_spec days
  have hmonth := startOfMonth_le n
  rw [hdate]
  unfold startOfYear at hdays
  rcases monthNumber_cases (monthOf_le hn) with ⟨hm, hnumber⟩ | ⟨hm, hnumber⟩
  · have hday : dayOfEra (monthNumber (monthOf n)) (n - startOfMonth (monthOf n) + 1) = n := by
      rw [hnumber, dayOfEra, if_pos (by omega), Nat.add_sub_cancel]
      change startOfMonth (monthOf n) + _ - 1 = n
      omega
    rw [Date.toDays, hday, if_neg (by simp only [hnumber]; omega),
      if_neg (by simp only [hnumber]; omega)]
    dsimp only
    omega
  · have hle := monthOf_le hn
    have hday : dayOfEra (monthNumber (monthOf n)) (n - startOfMonth (monthOf n) + 1) = n := by
      have hmonth : monthOf n - 9 + 9 = monthOf n := by omega
      rw [hnumber, dayOfEra, if_neg (by omega), hmonth]
      change startOfMonth (monthOf n) + _ - 1 = n
      omega
    rw [Date.toDays, hday, if_pos (by simp only [hnumber]; omega),
      if_pos (by simp only [hnumber]; omega)]
    dsimp only
    omega

theorem isLeap_of_long {n year : Nat} (era : Int)
    (hlong : n = 365 → (year + 1) % 4 = 0 ∧ ((year + 1) % 100 ≠ 0 ∨ year = 399)) (hn : n = 365) :
    isLeap ((year : Int) + era * 400 + 1) = true := by
  obtain ⟨hfour, hhundred⟩ := hlong hn
  simp only [isLeap, Bool.and_eq_true, Bool.or_eq_true, decide_eq_true_eq, bne_iff_ne]
  refine ⟨by omega, ?_⟩
  rcases hhundred with h | h
  · exact .inl (by omega)
  · exact .inr (by omega)

/-- A month has the days up to the start of the next one, and February those of its year. -/
theorem day_le_daysInMonth {n year : Nat} (era : Int) (hn : n ≤ 365)
    (hlong : n = 365 → (year + 1) % 4 = 0 ∧ ((year + 1) % 100 ≠ 0 ∨ year = 399)) :
    n - startOfMonth (monthOf n) + 1 ≤
      daysInMonth ((year : Int) + era * 400 + if monthNumber (monthOf n) ≤ 2 then 1 else 0)
        (monthNumber (monthOf n)) := by
  have hlt := lt_startOfMonth n
  have hleap := isLeap_of_long era hlong
  have hmonth := monthOf_le hn
  generalize monthOf n = month at *
  interval_cases month <;> simp [monthNumber, daysInMonth, startOfMonth] at hlt ⊢
  case «11» =>
    split
    · omega
    next h =>
      have hshort : n ≠ 365 := fun h365 => h (hleap h365)
      omega
  all_goals omega

/-- The date of a day is one of the calendar when its year is. -/
theorem Date.isValid_ofDays {days : Int} (hfirst : -262143 ≤ (Date.ofDays days).year)
    (hlast : (Date.ofDays days).year ≤ 262142) : (Date.ofDays days).isValid = true := by
  obtain ⟨era, year, n, -, -, hn, hlong, hdate⟩ := Date.ofDays_spec days
  have hday := day_le_daysInMonth era hn hlong
  have hmonth := monthOf_le hn
  have hnumber : 1 ≤ monthNumber (monthOf n) ∧ monthNumber (monthOf n) ≤ 12 := by
    rcases monthNumber_cases hmonth with ⟨hm, h⟩ | ⟨hm, h⟩ <;> omega
  rw [hdate] at hfirst hlast ⊢
  simp only [Date.isValid, Bool.and_eq_true, decide_eq_true_eq]
  exact ⟨⟨⟨⟨⟨hfirst, hlast⟩, hnumber.1⟩, hnumber.2⟩, by omega⟩, hday⟩

/-- The years of the calendar are those of the days between its first and its last one. -/
theorem Date.year_ofDays {days : Int} (hfirst : (Date.mk (-262143) 1 1).toDays ≤ days)
    (hlast : days ≤ (Date.mk 262142 12 31).toDays) :
    -262143 ≤ (Date.ofDays days).year ∧ (Date.ofDays days).year ≤ 262142 := by
  obtain ⟨era, year, n, hdays, hyear, hn, hlong, hdate⟩ := Date.ofDays_spec days
  have hearly : -96465292 ≤ days := hfirst
  have hlate : days ≤ 95026236 := hlast
  have hbefore := startOfMonth_le n
  have hafter := lt_startOfMonth n
  rw [hdate]
  unfold startOfYear at hdays
  unfold startOfMonth at hbefore hafter
  rcases monthNumber_cases (monthOf_le hn) with ⟨hm, hnumber⟩ | ⟨hm, hnumber⟩
  · rw [hnumber, if_neg (by omega)]
    constructor <;> dsimp only <;> omega
  · have hmonth := monthOf_le hn
    rw [hnumber, if_pos (by omega)]
    dsimp only
    refine ⟨by omega, ?_⟩
    by_contra hyear
    have hera : era = 655 ∨ 656 ≤ era := by omega
    rcases hera with rfl | hera <;> omega

end AgentGovernance.Instant
