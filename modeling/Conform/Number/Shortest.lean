import Conform.Number.Decimal

/-!
# Shortest decimal text of a binary64 number

Of the decimal numbers that read back as a given binary64 number, those
with the fewest digits are found, and of these the nearest; an exact tie
goes to the even last digit.

The search tries one digit, two digits, and so on up to seventeen. At each
length only the two neighbours on that decimal grid can lie in the interval
of reals that read back, so only they are looked at. All arithmetic is on
natural numbers, in quarters of a unit.

How the digits are laid out (where positional writing ends, how wide an
exponent is) is a `Layout`, chosen by who writes the text.
-/

namespace Conform

namespace Binary64

/-- The reals that read back as a number of `units`, in quarters of a unit:
from `low` to `high`, the ends included if `closed`. -/
structure Basin where
  low : Nat
  high : Nat
  closed : Bool

/-- The basin of a positive number of units. Below a power of two the
neighbour is only half as far. -/
def basin (units : Nat) : Basin :=
  let s := step units
  let below := if s = 1 ∨ units ≠ Nat.pow 2 units.log2 then 2 * s else s
  ⟨4 * units - below, 4 * units + 2 * s, (units / s) % 2 = 0⟩

/-- Whether the basin holds `num / den` quarters of a unit. -/
def Basin.holds (b : Basin) (num den : Nat) : Bool :=
  if b.closed then b.low * den ≤ num && num ≤ b.high * den
  else b.low * den < num && num < b.high * den

/-- The decimal exponent of the first digit of a positive number of units. -/
def leadingExponent (units : Nat) : Int :=
  if unitsPerOne ≤ units then ((Decimal.digits (units / unitsPerOne)).length : Int) - 1
  else -((Decimal.digits (unitsPerOne / units)).length : Int)

/-- The number of `places` digits, `d * 10 ^ k`, that reads back as `units`
and is nearest to it, if there is one. -/
def nearestOfLength? (units places : Nat) : Option (Nat × Int) :=
  let k := leadingExponent units - places + 1
  -- One grid step is `num / den` quarters of a unit.
  let num := if 0 ≤ k then 4 * unitsPerOne * Nat.pow 10 k.toNat else 4 * unitsPerOne
  let den := if 0 ≤ k then 1 else Nat.pow 10 (-k).toNat
  let exact := 4 * units * den
  let d := exact / num
  let rest := exact % num
  let b := basin units
  match b.holds (d * num) den, b.holds ((d + 1) * num) den with
  | true, true =>
    if 2 * rest < num ∨ (2 * rest = num ∧ d % 2 = 0) then some (d, k) else some (d + 1, k)
  | true, false => some (d, k)
  | false, true => some (d + 1, k)
  | false, false => none

/-- The shortest decimal `d * 10 ^ k` that reads back as a positive number of
units. -/
def shortest (units : Nat) : Nat × Int :=
  ((List.range 17).findSome? fun i => nearestOfLength? units (i + 1)).getD (units, -1074)

/-- How decimal digits are written out. -/
structure Layout where
  /-- The least decimal exponent that is written positionally. -/
  positionalFrom : Int
  /-- The first decimal exponent that is no longer written positionally. -/
  positionalUpTo : Int
  /-- The least number of digits of a written exponent. -/
  exponentWidth : Nat

/-- Pads a run of digits with zeros on the left. -/
def padLeft (width : Nat) (ds : List Char) : List Char :=
  List.replicate (width - ds.length) '0' ++ ds

/-- Drops the zeros at the end of a run of digits, keeping one digit. -/
def dropTrailingZeros (ds : List Char) : List Char :=
  match (ds.reverse.dropWhile (· = '0')).reverse with
  | [] => ['0']
  | ds => ds

/-- Writes digits whose first has decimal exponent `e`. -/
def Layout.write (l : Layout) (ds : List Char) (e : Int) : List Char :=
  if l.positionalFrom ≤ e ∧ e < l.positionalUpTo then
    if e < 0 then
      '0' :: '.' :: List.replicate (-e - 1).toNat '0' ++ ds
    else
      let whole := e.toNat + 1
      let fraction := ds.drop whole
      ds.take whole ++ List.replicate (whole - ds.length) '0' ++
        '.' :: (if fraction.isEmpty then ['0'] else fraction)
  else
    let mark := if e < 0 then '-' else '+'
    let power := padLeft l.exponentWidth (Decimal.digits e.natAbs)
    ds.take 1 ++ (if ds.length ≤ 1 then [] else '.' :: ds.drop 1) ++ 'e' :: mark :: power

/-- The text of a number: the shortest decimal that reads back, laid out. -/
def textWith (l : Layout) : Binary64 → String
  | nan => "nan"
  | infinite negative => if negative then "-inf" else "inf"
  | finite negative units =>
    let sign := if negative then ['-'] else []
    if units = 0 then String.ofList (sign ++ ['0', '.', '0'])
    else
      let (d, k) := shortest units
      let all := Decimal.digits d
      String.ofList (sign ++ l.write (dropTrailingZeros all) (k + all.length - 1))

/-- Numbers from `0.0001` up to `10 ^ 16` are written positionally with at
least one place; an exponent has a sign and at least two digits. -/
def plainLayout : Layout := ⟨-4, 16, 2⟩

/-- The plain text of a number. -/
def text (x : Binary64) : String := x.textWith plainLayout

end Binary64

end Conform
