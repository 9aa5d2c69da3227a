/-!
# Binary64 numbers, exactly

A finite binary64 number is a whole number of **units**, one unit being
`2 ^ (-1074)`, the least positive subnormal. Keeping that whole number
instead of an encoded word makes every comparison a comparison of
integers, with nothing rounded on the way.

The sign stands beside the units, so that the two zeros differ in text
and agree in every comparison.

## Rounding

`Binary64.round` takes an exact quotient of units to the nearest number
whose units have at most 53 significant binary digits, a tie going to the
even neighbour, and to an infinity past the largest finite number.
Addition and multiplication are the exact result, rounded once.
-/

namespace Conform

/-- A binary64 number: not a number, an infinity, or a signed whole number
of units of `2 ^ (-1074)`. -/
inductive Binary64 where
  | nan
  | infinite (negative : Bool)
  | finite (negative : Bool) (units : Nat)
  deriving DecidableEq, Repr, Inhabited

namespace Binary64

/-- How many units make one. Simplification does not unfold it, for it would
write the number out. -/
@[irreducible] def unitsPerOne : Nat := Nat.pow 2 1074

/-- The units past which a finite number cannot lie: `2 ^ 1024`. -/
@[irreducible] def overflow : Nat := Nat.pow 2 (1024 + 1074)

theorem unitsPerOne_pos : 0 < unitsPerOne := by
  unfold unitsPerOne
  generalize 1074 = n
  exact Nat.two_pow_pos n

/-- The step between neighbours at `units`: a power of two that leaves 53
significant binary digits. -/
def step (units : Nat) : Nat := Nat.pow 2 (units.log2 - 52)

/-- The quotient `num / den`, rounded to the nearest whole number, a tie to
the even one. -/
def roundDiv (num den : Nat) : Nat :=
  let q := num / den
  let twice := 2 * (num % den)
  if twice < den then q
  else if den < twice then q + 1
  else if q % 2 = 0 then q else q + 1

/-- The finite number or infinity nearest to `num / den` units. -/
def round (negative : Bool) (num den : Nat) : Binary64 :=
  let s := step (num / den)
  let units := roundDiv num (den * s) * s
  if units < overflow then .finite negative units else .infinite negative

/-- Positive zero. -/
def zero : Binary64 := .finite false 0

/-- Whether the number is not a number. -/
def isNaN : Binary64 → Bool
  | nan => true
  | _ => false

/-- Whether the number is neither infinite nor not a number. -/
def isFinite : Binary64 → Bool
  | finite _ _ => true
  | _ => false

/-- Whether the number is finite and whole. -/
def isWhole : Binary64 → Bool
  | finite _ units => units % unitsPerOne = 0
  | _ => false

/-- The signed units of a finite number. -/
def signed (negative : Bool) (units : Nat) : Int :=
  if negative then -(units : Int) else units

/-- The number nearest to a whole number of units; zero is positive. -/
def ofSigned (k : Int) : Binary64 := round (k < 0) k.natAbs 1

/-- The binary64 number nearest to an integer, unless it is out of range. -/
def ofInt? (n : Int) : Option Binary64 :=
  match round (n < 0) (n.natAbs * unitsPerOne) 1 with
  | infinite _ => none
  | x => some x

/-- The sum, rounded once. Two zeros of one sign keep it. -/
def add : Binary64 → Binary64 → Binary64
  | nan, _ => nan
  | _, nan => nan
  | infinite a, infinite b => if a = b then infinite a else nan
  | infinite a, finite _ _ => infinite a
  | finite _ _, infinite b => infinite b
  | finite a m, finite b n =>
    if m = 0 ∧ n = 0 then finite (a && b) 0
    else ofSigned (signed a m + signed b n)

/-- The product, rounded once. An infinity times zero is not a number. -/
def mul : Binary64 → Binary64 → Binary64
  | nan, _ => nan
  | _, nan => nan
  | infinite a, infinite b => infinite (a != b)
  | infinite a, finite b n => if n = 0 then nan else infinite (a != b)
  | finite a m, infinite b => if m = 0 then nan else infinite (a != b)
  | finite a m, finite b n => round (a != b) (m * n) unitsPerOne

@[simp] theorem isFinite_nan : nan.isFinite = false := rfl

@[simp] theorem isFinite_infinite (b : Bool) : (infinite b).isFinite = false := rfl

@[simp] theorem isFinite_finite (b : Bool) (k : Nat) :
    (finite b k).isFinite = true := rfl

/-- Rounding never yields what is not a number. -/
theorem isNaN_round (b : Bool) (num den : Nat) : (round b num den).isNaN = false := by
  unfold round
  dsimp only
  split <;> rfl

end Binary64

end Conform
