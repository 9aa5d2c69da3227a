import Conform.Number.Binary64

/-!
# Comparing numbers of both kinds

A `Number` is an integer of any size or a binary64 number. Numbers are
compared by their `Measure`, an exact place on the line of whole units or
one of its two ends, so an integer is never rounded for the comparison.
What is not a number has no measure and compares with nothing.
-/

namespace Conform

/-- A place on the number line, in units of binary64 numbers. -/
inductive Measure where
  | below
  | at (units : Int)
  | above
  deriving DecidableEq, Repr

/-- Whether one place lies before another. -/
def Measure.lt : Measure → Measure → Bool
  | below, below => false
  | below, _ => true
  | .at _, below => false
  | .at a, .at b => a < b
  | .at _, above => true
  | above, _ => false

/-- An integer or a binary64 number. -/
inductive Number where
  | int (n : Int)
  | float (x : Binary64)
  deriving DecidableEq, Repr

/-- The two ways to compare numbers strictly. -/
inductive Comparison where
  | less
  | greater
  deriving DecidableEq, Repr

namespace Number

/-- Where a number lies. -/
def measure? : Number → Option Measure
  | int n => some (.at (n * Binary64.unitsPerOne))
  | float .nan => none
  | float (.infinite negative) => some (if negative then .below else .above)
  | float (.finite negative units) => some (.at (Binary64.signed negative units))

/-- Whether one number is less than another. -/
def lt (a b : Number) : Bool :=
  match a.measure?, b.measure? with
  | some x, some y => x.lt y
  | _, _ => false

/-- Whether two numbers are equal. -/
def equal (a b : Number) : Bool :=
  match a.measure?, b.measure? with
  | some x, some y => x = y
  | _, _ => false

/-- Whether a number is finite. -/
def isFinite : Number → Bool
  | int _ => true
  | float x => x.isFinite

/-- Whether a number is whole. -/
def isWhole : Number → Bool
  | int _ => true
  | float x => x.isWhole

/-- Whether a number is what is not a number. -/
def isNaN : Number → Bool
  | int _ => false
  | float x => x.isNaN

theorem equal_comm (a b : Number) : a.equal b = b.equal a := by
  unfold equal
  cases a.measure? <;> cases b.measure? <;> simp [eq_comm]

theorem equal_trans {a b c : Number} (hab : a.equal b = true) (hbc : b.equal c = true) :
    a.equal c = true := by
  unfold equal at *
  cases ha : a.measure? <;> cases hb : b.measure? <;> cases hc : c.measure? <;>
    simp_all

/-- A number equals itself unless it is not a number. -/
theorem equal_self (a : Number) : a.equal a = !a.isNaN := by
  rcases a with n | x
  · simp [equal, measure?, isNaN]
  · cases x <;> simp [equal, measure?, isNaN, Binary64.isNaN]

theorem measure?_eq_none_iff (a : Number) : a.measure? = none ↔ a.isNaN = true := by
  rcases a with n | x
  · simp [measure?, isNaN]
  · cases x <;> simp [measure?, isNaN, Binary64.isNaN]

end Number

namespace Comparison

/-- The sign of a comparison. -/
def sign : Comparison → String
  | less => "<"
  | greater => ">"

/-- Whether a comparison holds of two numbers. -/
def holds : Comparison → Number → Number → Bool
  | less, a, b => a.lt b
  | greater, a, b => b.lt a

end Comparison

end Conform
