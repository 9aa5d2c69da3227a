import Conform.Number.Binary64

/-!
# Decimal text

Whole numbers and decimal numbers as plain text: an optional sign, ASCII
digits, at most one point, an optional exponent. No digit separators, no
words for infinities.

* `Decimal.digits` writes a natural number, `Decimal.value` reads digits
  back; `value_digits` says that they agree.
* `Decimal.integer?` reads a whole number that stands alone.
* `Decimal.read?` reads a decimal number that stands alone, without loss.
* `Decimal.isWritable` says which integers are written at all: there is a limit
  on their digits, in writing as in reading.
* `Binary64.ofDecimal` is the binary64 number nearest to a decimal number.
-/

namespace Conform

/-- The most digits of an integer that is read or written. Zeros at the front
count. -/
def integerDigitLimit : Nat := 4300

/-- A signed decimal number, `± coefficient * 10 ^ exponent`. -/
structure Decimal where
  negative : Bool
  coefficient : Nat
  exponent : Int
  deriving DecidableEq, Repr, Inhabited

namespace Decimal

/-- The ASCII digit of a number below ten. -/
def digitChar (d : Nat) : Char := Char.ofNat (48 + d)

/-- The number a run of digits denotes, most significant digit first. -/
def value (cs : List Char) : Nat :=
  cs.foldl (fun n c => 10 * n + (c.toNat - 48)) 0

/-- The decimal digits of a number, most significant first, without leading
zeros; zero is one digit. -/
def digits (n : Nat) : List Char :=
  if n < 10 then [digitChar n] else digits (n / 10) ++ [digitChar (n % 10)]

/-- The text of an integer, however long. -/
def text (n : Int) : String :=
  match n with
  | .ofNat k => String.ofList (digits k)
  | .negSucc k => String.ofList ('-' :: digits (k + 1))

/-- Whether a number has so many digits at most. -/
def fits : Nat → Nat → Bool
  | 0, _ => false
  | limit + 1, n => n < 10 || fits limit (n / 10)

/-- Whether an integer is written: not if it has too many digits. -/
def isWritable (n : Int) : Bool := fits integerDigitLimit n.natAbs

/-- Removes a sign; says whether it was a minus. -/
def splitSign : List Char → Bool × List Char
  | '-' :: cs => (true, cs)
  | '+' :: cs => (false, cs)
  | cs => (false, cs)

/-- Reads a whole number that stands alone: an optional sign and one or more
ASCII digits. -/
def integer? (cs : List Char) : Option Int :=
  let (negative, ds) := splitSign cs
  if !ds.isEmpty && ds.all Char.isDigit then
    some (if negative then -(value ds : Int) else value ds)
  else none

/-- Reads what may follow the digits of a decimal number: nothing, or an
exponent. -/
def exponent? : List Char → Option Int
  | [] => some 0
  | c :: cs => if c = 'e' ∨ c = 'E' then integer? cs else none

/-- Reads a decimal number that stands alone: an optional sign, digits with an
optional point among or after them or a point with digits after it, and an
optional exponent. -/
def read? (cs : List Char) : Option Decimal :=
  let (negative, body) := splitSign cs
  let whole := body.takeWhile Char.isDigit
  let rest := body.dropWhile Char.isDigit
  match rest with
  | '.' :: more =>
    let fraction := more.takeWhile Char.isDigit
    if whole.isEmpty && fraction.isEmpty then none
    else (exponent? (more.dropWhile Char.isDigit)).map fun e =>
      ⟨negative, value (whole ++ fraction), e - fraction.length⟩
  | _ =>
    if whole.isEmpty then none
    else (exponent? rest).map fun e => ⟨negative, value whole, e⟩

theorem digitChar_toNat {d : Nat} (h : d < 10) : (digitChar d).toNat - 48 = d := by
  have : ∀ d : Fin 10, (digitChar d.val).toNat - 48 = d.val := by decide
  exact this ⟨d, h⟩

theorem digitChar_isDigit {d : Nat} (h : d < 10) : (digitChar d).isDigit = true := by
  have : ∀ d : Fin 10, (digitChar d.val).isDigit = true := by decide
  exact this ⟨d, h⟩

@[simp] theorem value_nil : value [] = 0 := rfl

@[simp] theorem value_append_singleton (cs : List Char) (c : Char) :
    value (cs ++ [c]) = 10 * value cs + (c.toNat - 48) := by
  simp [value]

/-- Reading the digits of a number gives the number back. -/
@[simp] theorem value_digits (n : Nat) : value (digits n) = n := by
  induction n using digits.induct with
  | case1 n h =>
    rw [digits, if_pos h]
    simpa [value] using digitChar_toNat h
  | case2 n h ih =>
    rw [digits, if_neg h, value_append_singleton, ih,
      digitChar_toNat (Nat.mod_lt n (by decide))]
    omega

theorem digits_ne_nil (n : Nat) : digits n ≠ [] := by
  rw [digits]; split <;> simp

theorem all_isDigit_digits (n : Nat) : (digits n).all Char.isDigit = true := by
  induction n using digits.induct with
  | case1 n h => rw [digits, if_pos h]; simp [digitChar_isDigit h]
  | case2 n h ih =>
    rw [digits, if_neg h]
    simp [ih, digitChar_isDigit (Nat.mod_lt n (by decide : 0 < 10))]

end Decimal

namespace Binary64

/-- The binary64 number nearest to a decimal number. Exponents far outside the
range are settled by the count of digits, so that no huge power is formed. -/
def ofDecimal (d : Decimal) : Binary64 :=
  if d.coefficient = 0 then .finite d.negative 0
  else
    let magnitude := (Decimal.digits d.coefficient).length + d.exponent
    if 310 < magnitude then .infinite d.negative
    else if magnitude < -330 then .finite d.negative 0
    else if 0 ≤ d.exponent then
      round d.negative (d.coefficient * Nat.pow 10 d.exponent.toNat * unitsPerOne) 1
    else round d.negative (d.coefficient * unitsPerOne) (Nat.pow 10 (-d.exponent).toNat)

/-- No decimal number denotes what is not a number. -/
theorem isNaN_ofDecimal (d : Decimal) : (ofDecimal d).isNaN = false := by
  unfold ofDecimal
  dsimp only
  split
  · rfl
  split
  · rfl
  split
  · rfl
  split <;> exact isNaN_round ..

end Binary64

end Conform
