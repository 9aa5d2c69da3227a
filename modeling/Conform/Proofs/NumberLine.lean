import Mathlib.Data.EReal.Basic
import Conform.Number.Measure

/-!
# Numbers on the extended real line

An integer denotes itself, a binary64 number the real number or the infinity that it stands for,
and what is not a number denotes nothing. The measures by which numbers are compared are places
on this line, the unit being `2 ^ (-1074)`. So comparisons are those of what is denoted, and
neither kind of number is rounded to the other.

## Main results

* `Number.equal_iff`, `Number.lt_iff` — comparing numbers is comparing what they denote.
* `Number.isFinite_iff`, `Number.isWhole_iff` — the same for being finite and whole.
* `Quantity` — the numbers that stand for something.
-/

namespace Conform

/-- The place that a binary64 number stands for. -/
noncomputable def Binary64.value? : Binary64 → Option EReal
  | nan => none
  | infinite true => some ⊥
  | infinite false => some ⊤
  | finite negative units => some (((signed negative units : ℝ) / 2 ^ 1074 : ℝ) : EReal)

/-- The place that a number stands for. -/
noncomputable def Number.value? : Number → Option EReal
  | int n => some ((n : ℝ) : EReal)
  | float x => x.value?

namespace Binary64

theorem cast_unitsPerOne : (unitsPerOne : ℝ) = 2 ^ 1074 := by
  unfold unitsPerOne
  generalize 1074 = n
  exact Nat.cast_pow 2 n

theorem cast_unitsPerOne_pos : (0 : ℝ) < unitsPerOne := by
  exact_mod_cast unitsPerOne_pos

theorem dvd_signed_iff (negative : Bool) (units : Nat) {k : Nat} :
    (k : Int) ∣ signed negative units ↔ k ∣ units := by
  cases negative <;> simp [signed, Int.natCast_dvd_natCast]

theorem isWhole_finite_iff (negative : Bool) (units : Nat) :
    (finite negative units).isWhole = true ↔
      ∃ k : Int, (signed negative units : ℝ) / 2 ^ 1074 = k := by
  have hunits := cast_unitsPerOne_pos.ne'
  simp only [isWhole, decide_eq_true_eq, ← cast_unitsPerOne, div_eq_iff hunits]
  rw [← Nat.dvd_iff_mod_eq_zero, ← dvd_signed_iff negative]
  constructor
  · rintro ⟨k, hk⟩
    refine ⟨k, ?_⟩
    rw [hk]
    push_cast
    ring
  · rintro ⟨k, hk⟩
    exact ⟨k, by exact_mod_cast hk.trans (mul_comm _ _)⟩

/-- So many times the units of one. -/
theorem value?_whole (n : Nat) :
    (finite false (n * unitsPerOne)).value? = some ((n : ℝ) : EReal) := by
  have hunits := cast_unitsPerOne_pos.ne'
  simp only [value?, signed, Bool.false_eq_true, if_false, ← cast_unitsPerOne, Nat.cast_mul,
    Int.cast_mul, Int.cast_natCast, mul_div_cancel_right₀ _ hunits]

end Binary64

namespace Measure

/-- The place of a measure. -/
noncomputable def value : Measure → EReal
  | below => ⊥
  | .at units => ((units : ℝ) / Binary64.unitsPerOne : ℝ)
  | above => ⊤

/-- The order of measures is the order of their places. -/
theorem lt_iff (x y : Measure) : x.lt y = true ↔ x.value < y.value := by
  cases x <;> cases y <;> simp only [lt, value, decide_eq_true_eq, EReal.coe_lt_coe_iff,
    EReal.bot_lt_coe, EReal.coe_lt_top, bot_lt_top, lt_self_iff_false, not_lt_bot,
    not_top_lt, Bool.false_eq_true]
  rw [div_lt_div_iff_of_pos_right Binary64.cast_unitsPerOne_pos, Int.cast_lt]

theorem value_injective : Function.Injective value := by
  intro x y h
  have hxy : x.lt y ≠ true := fun hlt => ((lt_iff x y).mp hlt).ne h
  have hyx : y.lt x ≠ true := fun hlt => ((lt_iff y x).mp hlt).ne h.symm
  cases x <;> cases y <;> simp_all [lt]
  omega

end Measure

namespace Number

theorem value?_eq_map_measure? (n : Number) : n.value? = n.measure?.map Measure.value := by
  rcases n with n | x
  · have hunits := Binary64.cast_unitsPerOne_pos.ne'
    simp only [value?, measure?, Option.map_some, Measure.value, Int.cast_mul, Int.cast_natCast,
      mul_div_cancel_right₀ _ hunits]
  · cases x with
    | nan => rfl
    | infinite negative => cases negative <;> rfl
    | finite negative units =>
        simp only [value?, Binary64.value?, measure?, Option.map_some, Measure.value,
          Binary64.cast_unitsPerOne]

/-- Numbers are equal if they denote the same. -/
theorem equal_iff (m n : Number) :
    m.equal n = true ↔ ∃ r, m.value? = some r ∧ n.value? = some r := by
  rw [value?_eq_map_measure?, value?_eq_map_measure?]
  unfold equal
  cases m.measure? <;> cases n.measure? <;>
    simp [Measure.value_injective.eq_iff, eq_comm]

/-- A number is less than another one if what it denotes is. -/
theorem lt_iff (m n : Number) :
    m.lt n = true ↔ ∃ x y, m.value? = some x ∧ n.value? = some y ∧ x < y := by
  rw [value?_eq_map_measure?, value?_eq_map_measure?]
  unfold lt
  cases m.measure? <;> cases n.measure? <;> simp [Measure.lt_iff]

/-- Only what is not a number denotes nothing. -/
theorem lt_int_iff (m n : Int) : (int m).lt (int n) = true ↔ m < n := by
  simp [lt_iff, value?]

theorem isSome_value? (n : Number) : n.value?.isSome = !n.isNaN := by
  rcases n with n | x
  · rfl
  · cases x with
    | infinite negative => cases negative <;> rfl
    | _ => rfl

/-- A number is finite if it denotes a real number. -/
theorem isFinite_iff (n : Number) : n.isFinite = true ↔ ∃ r : ℝ, n.value? = some (r : EReal) := by
  rcases n with n | x
  · simp [isFinite, value?]
  · cases x with
    | nan => simp [isFinite, value?, Binary64.value?]
    | infinite negative => cases negative <;> simp [isFinite, value?, Binary64.value?]
    | finite negative units => simp [isFinite, value?, Binary64.value?]

/-- A number is whole if it denotes an integer. -/
theorem isWhole_iff (n : Number) :
    n.isWhole = true ↔ ∃ k : Int, n.value? = some ((k : ℝ) : EReal) := by
  rcases n with n | x
  · simp [isWhole, value?]
  · cases x with
    | nan => simp [isWhole, Binary64.isWhole, value?, Binary64.value?]
    | infinite negative =>
        cases negative <;> simp [isWhole, Binary64.isWhole, value?, Binary64.value?]
    | finite negative units =>
        simp only [isWhole, value?, Binary64.value?, Option.some.injEq, EReal.coe_eq_coe_iff]
        exact Binary64.isWhole_finite_iff negative units

end Number

/-- A number that stands for something. -/
structure Quantity where
  number : Number
  denotes : number.isNaN = false

namespace Quantity

/-- The place that it stands for. -/
noncomputable def value (q : Quantity) : EReal :=
  q.number.value?.get (by rw [Number.isSome_value?, q.denotes]; rfl)

theorem value?_number (q : Quantity) : q.number.value? = some q.value :=
  (Option.some_get _).symm

theorem lt_iff (p q : Quantity) : p.number.lt q.number = true ↔ p.value < q.value := by
  simp [Number.lt_iff, value?_number]

theorem isFinite_iff (q : Quantity) : q.number.isFinite = true ↔ ∃ r : ℝ, q.value = r := by
  simp [Number.isFinite_iff, value?_number]

theorem isWhole_iff (q : Quantity) : q.number.isWhole = true ↔ ∃ k : Int, q.value = (k : ℝ) := by
  simp [Number.isWhole_iff, value?_number]

/-- Zero, as an integer. -/
def zero : Quantity := ⟨.int 0, rfl⟩

theorem value_zero : zero.value = 0 := by
  have hcast : ((((0 : Int) : ℝ) : EReal)) = 0 := by simp
  exact hcast

end Quantity

end Conform
