import Conform.Number.Decimal

/-!
# Dates and moments

A `Date` is a day of the proleptic Gregorian calendar. A `Moment` is a date
with a time of day, and perhaps an offset from universal time. Both have
one written form with fixed fields, which `text` writes and `read?` reads.

Two moments are equal if their **instants** are, the microseconds since the
first day of the calendar in universal time. A moment without an offset is
taken in universal time, and a date at its midnight.

Which of two moments comes first is read off their clocks, as long as both
have one offset or none. Only clocks with different offsets are subtracted.
-/

namespace Conform

/-- A day of the calendar. -/
structure Date where
  year : Nat
  month : Nat
  day : Nat
  deriving DecidableEq, Repr, Inhabited

/-- A time on a day; the offset is in microseconds east of universal time. -/
structure Moment where
  date : Date
  hour : Nat
  minute : Nat
  second : Nat
  micro : Nat
  offset : Option Int
  deriving DecidableEq, Repr, Inhabited

/-- The last `width` digits of a number. -/
def fixedDigits : Nat → Nat → List Char
  | 0, _ => []
  | width + 1, n => fixedDigits width (n / 10) ++ [Decimal.digitChar (n % 10)]

/-- Reads exactly `width` ASCII digits. -/
def readFixed? (width : Nat) (cs : List Char) : Option (Nat × List Char) :=
  let ds := cs.take width
  if ds.length = width ∧ ds.all Char.isDigit then some (Decimal.value ds, cs.drop width)
  else none

/-- Reads one given character. -/
def readMark? (c : Char) : List Char → Option (List Char)
  | d :: cs => if d = c then some cs else none
  | [] => none

namespace Date

/-- Whether a year has a leap day. -/
def isLeap (year : Nat) : Bool := year % 4 = 0 && (year % 100 != 0 || year % 400 = 0)

/-- The days of the months before a month, in a year without a leap day. -/
def daysBeforeMonth : Nat → Nat
  | 1 => 0 | 2 => 31 | 3 => 59 | 4 => 90 | 5 => 120 | 6 => 151
  | 7 => 181 | 8 => 212 | 9 => 243 | 10 => 273 | 11 => 304 | _ => 334

/-- The number of the day, counted from the first day of year one. -/
def ordinal (d : Date) : Nat :=
  let y := d.year - 1
  y * 365 + y / 4 - y / 100 + y / 400 + daysBeforeMonth d.month +
    (if 2 < d.month ∧ isLeap d.year then 1 else 0) + d.day

/-- The characters of the written form, `YYYY-MM-DD`. -/
def chars (d : Date) : List Char :=
  fixedDigits 4 d.year ++ '-' :: fixedDigits 2 d.month ++ '-' :: fixedDigits 2 d.day

/-- The written form. -/
def text (d : Date) : String := String.ofList d.chars

/-- Reads the written form from the head of a text. -/
def readFrom? (cs : List Char) : Option (Date × List Char) := do
  let (year, cs) ← readFixed? 4 cs
  let cs ← readMark? '-' cs
  let (month, cs) ← readFixed? 2 cs
  let cs ← readMark? '-' cs
  let (day, cs) ← readFixed? 2 cs
  return (⟨year, month, day⟩, cs)

/-- Reads a date that stands alone. -/
def read? (s : String) : Option Date :=
  match readFrom? s.toList with
  | some (d, []) => some d
  | _ => none

/-- The midnight that starts a date. -/
def midnight (d : Date) : Moment := ⟨d, 0, 0, 0, 0, none⟩

end Date

namespace Moment

/-- The seconds since the first day of the calendar, by the local clock. -/
def localSeconds (m : Moment) : Nat :=
  m.date.ordinal * 86400 + m.hour * 3600 + m.minute * 60 + m.second

/-- The instant of a moment, in microseconds of universal time. -/
def instant (m : Moment) : Int :=
  (m.localSeconds : Int) * 1000000 + m.micro - m.offset.getD 0

/-- The fields of the local clock, the year first. -/
def clock (m : Moment) : List Nat :=
  [m.date.year, m.date.month, m.date.day, m.hour, m.minute, m.second, m.micro]

/-- The microseconds from one moment to another: the clocks are subtracted,
and then the offsets. -/
def since (a b : Moment) : Int :=
  ((a.localSeconds : Int) - b.localSeconds) * 1000000 + ((a.micro : Int) - b.micro) +
    (b.offset.getD 0 - a.offset.getD 0)

/-- A moment in universal time, unless it has an offset of its own. -/
def located (m : Moment) : Moment := { m with offset := some (m.offset.getD 0) }

/-- Two moments of which both have an offset or neither has. -/
def aligned (a b : Moment) : Moment × Moment :=
  if a.offset.isSome = b.offset.isSome then (a, b) else (a.located, b.located)

/-- Whether one moment comes before another. Where the offsets are the same,
the first fields of the clocks that differ decide. -/
def precedes (a b : Moment) : Bool :=
  let (a, b) := a.aligned b
  if a.offset = b.offset then a.clock < b.clock else a.since b < 0

/-- The characters of an offset, `+HH:MM`, `+HH:MM:SS` or `+HH:MM:SS.ffffff`. -/
def offsetChars (offset : Int) : List Char :=
  let n := offset.natAbs / 1000000
  let micro := offset.natAbs % 1000000
  let fraction := if micro = 0 then [] else '.' :: fixedDigits 6 micro
  let seconds := if n % 60 = 0 ∧ micro = 0 then [] else ':' :: fixedDigits 2 (n % 60) ++ fraction
  (if offset < 0 then '-' else '+') ::
    fixedDigits 2 (n / 3600) ++ ':' :: fixedDigits 2 (n / 60 % 60) ++ seconds

/-- The written form with a given mark between date and time. The
microseconds are written only if there are any. -/
def textWith (mark : Char) (m : Moment) : String :=
  let micro := if m.micro = 0 then [] else '.' :: fixedDigits 6 m.micro
  let offset := (m.offset.map offsetChars).getD []
  String.ofList (m.date.chars ++ mark :: fixedDigits 2 m.hour ++ ':' :: fixedDigits 2 m.minute ++
    ':' :: fixedDigits 2 m.second ++ micro ++ offset)

/-- The written form with a `T` between date and time. -/
def isoText (m : Moment) : String := m.textWith 'T'

/-- Reads the microseconds behind a point, if there is one. -/
def readFraction? : List Char → Option (Nat × List Char)
  | '.' :: cs => readFixed? 6 cs
  | cs => some (0, cs)

/-- Reads an offset that stands alone, or nothing. -/
def readOffset? : List Char → Option (Option Int)
  | [] => some none
  | sign :: cs => do
    guard (sign = '+' ∨ sign = '-')
    let (hours, cs) ← readFixed? 2 cs
    let cs ← readMark? ':' cs
    let (minutes, cs) ← readFixed? 2 cs
    let (seconds, cs) ← match cs with
      | ':' :: cs => readFixed? 2 cs
      | cs => some (0, cs)
    let (micro, cs) ← readFraction? cs
    guard (cs = [])
    let n : Int := (hours * 3600 + minutes * 60 + seconds) * 1000000 + micro
    return some (if sign = '-' then -n else n)

/-- Reads a moment that stands alone. -/
def read? (s : String) : Option Moment := do
  let (date, cs) ← Date.readFrom? s.toList
  let (hour, cs) ← readFixed? 2 (cs.drop 1)
  let cs ← readMark? ':' cs
  let (minute, cs) ← readFixed? 2 cs
  let cs ← readMark? ':' cs
  let (second, cs) ← readFixed? 2 cs
  let (micro, cs) ← readFraction? cs
  let offset ← readOffset? cs
  return ⟨date, hour, minute, second, micro, offset⟩

/-- Whether two moments are equal values: both have an offset or neither has,
and their instants agree. -/
def same (a b : Moment) : Bool := a.offset.isSome == b.offset.isSome && a.instant = b.instant

@[simp] theorem same_self (a : Moment) : a.same a = true := by simp [same]

theorem same_comm (a b : Moment) : a.same b = b.same a := by
  simp only [same, eq_comm (a := a.instant)]
  cases a.offset.isSome <;> cases b.offset.isSome <;> rfl

end Moment

/-- The instant of a plain date is its midnight in universal time. -/
theorem Date.instant_midnight (d : Date) :
    d.midnight.instant = (d.ordinal : Int) * 86400 * 1000000 := by
  simp [Date.midnight, Moment.instant, Moment.localSeconds]

end Conform
