import Mathlib.Algebra.Order.Group.Nat
import Mathlib.Data.Nat.Init
import Mathlib.Tactic.IntervalCases
import Mathlib.Tactic.Tauto
import Conform.Calendar

/-!
# The order of days and moments

Days are numbered, and a moment is a number of microseconds. Both numberings go along with
the calendar: a day comes before another, by the first of year, month and day that differ,
exactly if its number is smaller. For that the months of a year are seen to follow one
another, and the years, with their leap days.

So clocks that show one offset can be compared field by field, and clocks with different
offsets by subtraction: either way the earlier instant comes first.

## Main results

* `Date.ordinal_lt_iff` — days are numbered in the order of the calendar.
* `Moment.precedes_iff` — a moment precedes another exactly if its instant is smaller.
-/

namespace Conform

/-! ## The days of the calendar -/

namespace Date

/-- How many days a month has. -/
def daysIn (year : Nat) : Nat → Nat
  | 2 => if isLeap year then 29 else 28
  | 4 => 30
  | 6 => 30
  | 9 => 30
  | 11 => 30
  | _ => 31

/-- A day that stands in the calendar. -/
structure Valid (d : Date) : Prop where
  year : 1 ≤ d.year
  month : 1 ≤ d.month ∧ d.month ≤ 12
  day : 1 ≤ d.day ∧ d.day ≤ daysIn d.year d.month

/-- How many days there are before a year. -/
def yearStart (year : Nat) : Nat :=
  (year - 1) * 365 + (year - 1) / 4 - (year - 1) / 100 + (year - 1) / 400

/-- How many days of a year there are before a month. -/
def monthStart (year month : Nat) : Nat :=
  daysBeforeMonth month + if 2 < month ∧ isLeap year then 1 else 0

theorem ordinal_eq (d : Date) :
    d.ordinal = yearStart d.year + monthStart d.year d.month + d.day := by
  simp only [ordinal, yearStart, monthStart, Nat.add_assoc]

variable (year : Nat) {month month' : Nat}

/-- The months of a year follow one another. -/
theorem monthStart_succ (hfirst : 1 ≤ month) (hlast : month < 12) :
    monthStart year (month + 1) = monthStart year month + daysIn year month := by
  unfold monthStart
  cases hleap : isLeap year <;> interval_cases month <;> simp [daysBeforeMonth, daysIn, hleap]

/-- How many days a year has. -/
theorem monthEnd_december :
    monthStart year 12 + daysIn year 12 = 365 + if isLeap year then 1 else 0 := by
  cases hleap : isLeap year <;> simp [monthStart, daysBeforeMonth, daysIn, hleap]

/-- The years follow one another. -/
theorem yearStart_succ {year : Nat} (hyear : 1 ≤ year) :
    yearStart (year + 1) = yearStart year + (monthStart year 12 + daysIn year 12) := by
  obtain ⟨y, rfl⟩ := Nat.exists_eq_add_of_le' hyear
  rw [monthEnd_december]
  -- one day more in every fourth year, but not in a hundredth that is no four hundredth
  have hleap : isLeap (y + 1) = true ↔ 4 ∣ y + 1 ∧ (¬ 100 ∣ y + 1 ∨ 400 ∣ y + 1) := by
    simp [isLeap, Nat.dvd_iff_mod_eq_zero]
  have hfourth : 100 ∣ y + 1 → 4 ∣ y + 1 := fun h => Nat.dvd_trans (by decide) h
  have hhundredth : 400 ∣ y + 1 → 100 ∣ y + 1 := fun h => Nat.dvd_trans (by decide) h
  have hfewer : y / 100 ≤ y / 4 := Nat.div_le_div_left (by decide) (by decide)
  simp only [yearStart, Nat.add_sub_cancel, Nat.succ_div, hleap]
  by_cases h4 : 4 ∣ y + 1 <;> by_cases h100 : 100 ∣ y + 1 <;> by_cases h400 : 400 ∣ y + 1 <;>
    simp_all <;> omega

/-- A later month starts when the earlier one is over. -/
theorem monthStart_le (hfirst : 1 ≤ month) (hlt : month < month') (hlast : month' ≤ 12) :
    monthStart year month + daysIn year month ≤ monthStart year month' := by
  induction month', hlt using Nat.le_induction with
  | base => exact (monthStart_succ year hfirst (by omega)).ge
  | succ month' hlt ih =>
      have hnext := monthStart_succ year (hfirst.trans (Nat.le_of_succ_le hlt)) hlast
      have hbefore := ih (by omega)
      omega

/-- A month is over when its year is. -/
theorem monthEnd_le (hfirst : 1 ≤ month) (hlast : month ≤ 12) :
    monthStart year month + daysIn year month ≤ monthStart year 12 + daysIn year 12 := by
  rcases hlast.eq_or_lt with rfl | hlt
  · exact le_rfl
  · have hle := monthStart_le year hfirst hlt le_rfl
    omega

/-- A later year starts when the earlier one is over. -/
theorem yearStart_le {year year' : Nat} (hfirst : 1 ≤ year) (hlt : year < year') :
    yearStart year + (monthStart year 12 + daysIn year 12) ≤ yearStart year' := by
  induction year', hlt using Nat.le_induction with
  | base => exact (yearStart_succ hfirst).ge
  | succ year' hlt ih =>
      have hnext := yearStart_succ (hfirst.trans (Nat.le_of_succ_le hlt))
      omega

/-- One day comes before another in the calendar: the first of year, month and day that
differ decides. -/
def Before (a b : Date) : Prop :=
  a.year < b.year ∨ a.year = b.year ∧
    (a.month < b.month ∨ a.month = b.month ∧ a.day < b.day)

theorem eq_iff (a b : Date) :
    a = b ↔ a.year = b.year ∧ a.month = b.month ∧ a.day = b.day := by
  cases a
  cases b
  simp

theorem eq_or_before (a b : Date) : a = b ∨ a.Before b ∨ b.Before a := by
  rw [eq_iff]
  unfold Before
  omega

/-- A day that comes before another has the smaller number. -/
theorem ordinal_lt_of_before {a b : Date} (ha : a.Valid) (hb : b.Valid) (h : a.Before b) :
    a.ordinal < b.ordinal := by
  rw [ordinal_eq, ordinal_eq]
  obtain ⟨hayear, hamonth, haday⟩ := ha
  obtain ⟨hbyear, hbmonth, hbday⟩ := hb
  rcases h with hyear | ⟨hyear, hmonth | ⟨hmonth, hday⟩⟩
  · have hstart := yearStart_le hayear hyear
    have hend := monthEnd_le a.year hamonth.1 hamonth.2
    omega
  · have hstart := monthStart_le a.year hamonth.1 hmonth hbmonth.2
    rw [hyear] at haday hstart ⊢
    omega
  · rw [hyear, hmonth]
    omega

/-- Days are numbered in the order of the calendar. -/
theorem ordinal_lt_iff {a b : Date} (ha : a.Valid) (hb : b.Valid) :
    a.ordinal < b.ordinal ↔ a.Before b := by
  refine ⟨fun hlt => ?_, ordinal_lt_of_before ha hb⟩
  rcases eq_or_before a b with rfl | hbefore | hafter
  · omega
  · exact hbefore
  · have hgt := ordinal_lt_of_before hb ha hafter
    omega

end Date

/-! ## The order of moments -/

namespace Moment

/-- A moment that stands in the calendar, at any offset. -/
structure Valid (m : Moment) : Prop where
  date : m.date.Valid
  hour : m.hour < 24
  minute : m.minute < 60
  second : m.second < 60
  micro : m.micro < 1000000

variable {a b : Moment}

/-- The first fields of two clocks that differ: those of the dates, or else those of the
times of day. -/
theorem clock_lt_iff (a b : Moment) :
    a.clock < b.clock ↔ a.date.Before b.date ∨ a.date = b.date ∧
      (a.hour < b.hour ∨ a.hour = b.hour ∧ (a.minute < b.minute ∨ a.minute = b.minute ∧
        (a.second < b.second ∨ a.second = b.second ∧ a.micro < b.micro))) := by
  simp only [clock, List.cons_lt_cons_iff, Date.Before, Date.eq_iff, List.lt_irrefl, and_false,
    or_false]
  tauto

/-- The fields of two clocks are in the order of the microseconds that they show. -/
theorem clock_lt_iff_shown (ha : a.Valid) (hb : b.Valid) :
    a.clock < b.clock ↔
      a.localSeconds * 1000000 + a.micro < b.localSeconds * 1000000 + b.micro := by
  obtain ⟨hadate, hahour, haminute, hasecond, hamicro⟩ := ha
  obtain ⟨hbdate, hbhour, hbminute, hbsecond, hbmicro⟩ := hb
  rw [clock_lt_iff]
  simp only [localSeconds]
  rcases Date.eq_or_before a.date b.date with hdate | hbefore | hafter
  · have hnot : ¬ b.date.Before b.date := by
      unfold Date.Before
      omega
    simp only [hdate, hnot, false_or, true_and]
    omega
  · have hlt := Date.ordinal_lt_of_before hadate hbdate hbefore
    simp only [hbefore, true_or, true_iff]
    omega
  · have hlt := Date.ordinal_lt_of_before hbdate hadate hafter
    have hnot : ¬ a.date.Before b.date := by
      rw [← Date.ordinal_lt_iff hadate hbdate]
      omega
    have hne : a.date ≠ b.date := fun heq => by
      rw [heq] at hlt
      omega
    simp only [hnot, hne, false_and, or_false, false_iff]
    omega

/-- Clocks with one offset show the order of instants. -/
theorem clock_lt_iff_instant_lt (ha : a.Valid) (hb : b.Valid) (hoffset : a.offset = b.offset) :
    a.clock < b.clock ↔ a.instant < b.instant := by
  rw [clock_lt_iff_shown ha hb, instant, instant, hoffset]
  omega

/-- What lies between two moments lies between their instants. -/
theorem since_eq (a b : Moment) : a.since b = a.instant - b.instant := by
  simp only [since, instant]
  omega

@[simp] theorem instant_located (m : Moment) : m.located.instant = m.instant := rfl

theorem Valid.located (ha : a.Valid) : a.located.Valid := ⟨ha.1, ha.2, ha.3, ha.4, ha.5⟩

/-- One moment comes before another exactly if its instant does. -/
theorem precedes_iff (ha : a.Valid) (hb : b.Valid) :
    a.precedes b = true ↔ a.instant < b.instant := by
  have hcompared : ∀ {x y : Moment}, x.Valid → y.Valid →
      ((if x.offset = y.offset then decide (x.clock < y.clock) else decide (x.since y < 0)) = true ↔
        x.instant < y.instant) := by
    intro x y hx hy
    by_cases hoffset : x.offset = y.offset
    · rw [if_pos hoffset, decide_eq_true_iff, clock_lt_iff_instant_lt hx hy hoffset]
    · rw [if_neg hoffset, decide_eq_true_iff, since_eq]
      omega
  rw [← instant_located a, ← instant_located b, precedes, aligned]
  by_cases hsome : a.offset.isSome = b.offset.isSome
  · rw [if_pos hsome]
    exact hcompared ha hb
  · rw [if_neg hsome]
    exact hcompared ha.located hb.located

/-- A midnight east of universal time comes before the midnight there, also on the first
day of the calendar. -/
example : (Moment.mk ⟨1, 1, 1⟩ 0 0 0 0 (some 1)).precedes ⟨⟨1, 1, 1⟩, 0, 0, 0, 0, none⟩ = true := by
  decide

end Moment

end Conform
