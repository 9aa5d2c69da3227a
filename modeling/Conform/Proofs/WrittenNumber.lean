import Conform.Proofs.Numeral
import Conform.Proofs.Ruling

/-!
# Texts that write numbers

Two schemas take texts and give the numbers that they write. A text of an integer may have
so many digits and no more, zeros at the front included; a text of a decimal number is never
too long. Neither takes anything but the notation, between blanks.

## Main results

* `integer_text_is_read_by_notation` — what the schema of integers takes, which is what its
  exported pattern is found in, and how an integer comes back from its text.
* `decimal_text_is_plain_notation` — what the schema of decimal numbers takes.
-/

namespace Conform

/-! ## Texts of integers -/

namespace Decimal

open Text

/-- The decimal text of an integer, with zeros before its digits and perhaps a plus, if there
is no minus. -/
def padded (n : Int) (plus : Bool) (zeros : Nat) : List Char :=
  (if n < 0 then ['-'] else if plus then ['+'] else []) ++
    (List.replicate zeros '0' ++ digits n.natAbs)

theorem magnitude_digits (n : Nat) : magnitude (digits n) = n := by
  rw [← value_eq_magnitude, value_digits]

/-- Zeros at the front count for nothing. -/
theorem magnitude_zeros_append (zeros : Nat) (ds : List Char) :
    magnitude (List.replicate zeros '0' ++ ds) = magnitude ds := by
  simp [magnitude, Nat.ofDigits_append_replicate_zero]

theorem isDigits_zeros_append {ds : List Char} (zeros : Nat) (h : IsDigits ds) :
    IsDigits (List.replicate zeros '0' ++ ds) := by
  refine ⟨by simp [h.1], List.forall_mem_append.mpr ⟨fun c hc => ?_, h.2⟩⟩
  rw [List.eq_of_mem_replicate hc]
  rfl

theorem isDigits_digits (n : Nat) : IsDigits (digits n) :=
  ⟨digits_ne_nil n, List.all_eq_true.mp (all_isDigit_digits n)⟩

theorem isSign_padded (n : Int) (plus : Bool) :
    IsSign (if n < 0 then ['-'] else if plus then ['+'] else []) := by
  split
  · exact .inr (.inr rfl)
  · split
    · exact .inr (.inl rfl)
    · exact .inl rfl

/-- The zeros are digits too. -/
theorem digitCount_padded (n : Int) (plus : Bool) (zeros : Nat) :
    digitCount (padded n plus zeros) = zeros + (digits n.natAbs).length := by
  have hdigits := isDigits_zeros_append zeros (isDigits_digits n.natAbs)
  have hcount := digitCount_eq isBlanks_nil (isSign_padded n plus) hdigits isBlanks_nil
  rwa [List.nil_append, List.append_nil, List.length_append, List.length_replicate] at hcount

/-- An integer is written by its text between blanks, with zeros and a plus or without. -/
theorem writesInteger_padded {before after : List Char} (n : Int) (plus : Bool) (zeros : Nat)
    (hbefore : IsBlanks before) (hafter : IsBlanks after) :
    WritesInteger (before ++ padded n plus zeros ++ after) n := by
  have hdigits := isDigits_zeros_append zeros (isDigits_digits n.natAbs)
  refine ⟨before, _, _, after, rfl, hbefore, isSign_padded n plus, hdigits, hafter, ?_⟩
  rw [magnitude_zeros_append, magnitude_digits]
  split
  · rw [signed, if_pos rfl]
    omega
  · have hplus : (if plus = true then ['+'] else []) ≠ ['-'] := by cases plus <;> decide
    rw [signed, if_neg hplus]
    omega

end Decimal

open Traverse Validate Text Decimal

section Integers

variable {read : String → Option Value} {code : BuiltinCode} {what : String} {st : Store}
  {s : String} {u : Value}

/-- A text is accepted as what is read from it. -/
theorem judgeWritten_eq_accepted_iff :
    judgeWritten read code what st (.text s) = .accepted u ↔ read s = some u := by
  simp only [judgeWritten]
  cases read s <;> simp

/-- A text is accepted as an integer exactly if it writes one, and has not too many
digits. -/
theorem judge_integer_iff :
    judgeWritten (fun s => (readInteger? s).map .int) .numberParseInt "integer" st (.text s) =
        .accepted u ↔
      ∃ n, WritesInteger s.toList n ∧ digitCount s.toList ≤ integerDigitLimit ∧ u = .int n := by
  rw [judgeWritten_eq_accepted_iff, Option.map_eq_some_iff]
  simp only [readInteger?_eq_some_iff, and_assoc, eq_comm]

variable {σ : Type} {env : Setting σ} {mode : Mode} {depth : Nat} {entry : Entry} {w w' : World σ}

/-- Without rules, a text of an integer is accepted as the integer. -/
theorem validate_integerText_iff :
    (validate { env with rules := [] } mode (depth + 1) entry .integerText (.text s)).runIn w =
        (.ok (.accepted u), w') ↔
      (∃ n, WritesInteger s.toList n ∧ digitCount s.toList ≤ integerDigitLimit ∧ u = .int n) ∧
        w' = w := by
  rw [validate_accepted_iff entry rfl rfl, judge_integer_iff]
  intro r hr
  obtain ⟨n, -, -, rfl⟩ := judge_integer_iff.mp hr
  rfl

end Integers

/-- A text with no more digits than the limit is taken exactly if it is blanks, a sign or
none, digits, and blanks, and the result is the integer that it writes. The pattern that is
exported is found in just these texts. So the text of an integer is taken as the integer,
also with a plus, zeros and blanks. -/
theorem integer_text_is_read_by_notation {σ : Type} (env : Setting σ) (mode : Mode) (depth : Nat)
    (w : World σ) (s : String) (hdigits : digitCount s.toList ≤ integerDigitLimit) :
    (∀ u w' c c', (check env mode (depth + 1) .integerText (.text s)).runIn c w = (.ok u, c', w') ∧
      c'.errors = c.errors ↔ ∃ n, WritesInteger s.toList n ∧ u = .int n ∧ c' = c ∧ w' = w) ∧
    (∀ entry u w', (validate { env with rules := [] } mode (depth + 1) entry .integerText
      (.text s)).runIn w = (.ok (.accepted u), w') ↔
        ∃ n, WritesInteger s.toList n ∧ u = .int n ∧ w' = w) ∧
    (∃ source pattern, (env.exportSchema (depth + 1) .integerText).runIn w =
        (.ok [.type "string", .pattern (.text source)], w) ∧ Pattern.read source {} = .ok pattern ∧
      (pattern.search s = true ↔ ∃ n, WritesInteger s.toList n)) ∧
    ∀ n plus zeros before after, IsBlanks before → IsBlanks after →
      s.toList = before ++ padded n plus zeros ++ after → ∀ entry,
        (validate { env with rules := [] } mode (depth + 1) entry .integerText (.text s)).runIn w =
          (.ok (.accepted (.int n)), w) := by
  refine ⟨fun u w' c c' => ?_, fun entry u w' => ?_, ?_, ?_⟩
  · rw [check_clean_iff rfl, judge_integer_iff]
    simp only [hdigits, true_and, ← and_assoc, exists_and_right]
  · rw [validate_integerText_iff]
    simp only [hdigits, true_and, ← and_assoc, exists_and_right]
  · exact ⟨_, _, rfl, Pattern.read_integerTextPattern, Pattern.search_integerText_iff s⟩
  · intro n plus zeros before after hbefore hafter hs entry
    rw [validate_integerText_iff]
    exact ⟨⟨n, hs ▸ writesInteger_padded n plus zeros hbefore hafter, hdigits, rfl⟩, rfl⟩

/-- The text of seven with a plus, zeros and blanks of two kinds. -/
theorem integer_text_is_read_by_notation_paddedSeven :
    digitCount "\u2003+007\n".toList ≤ integerDigitLimit ∧
      (validate idleHost .immediate 1 .safeParse .integerText (.text "\u2003+007\n")).runIn
        { host := () } = (.ok (.accepted (.int 7)), { host := () }) := by
  have hdigits : digitCount "\u2003+007\n".toList ≤ integerDigitLimit := by decide
  have hseven : "\u2003+007\n".toList = ['\u2003'] ++ padded 7 true 2 ++ ['\n'] := by
    simp [padded, digits, digitChar]
  have hread := integer_text_is_read_by_notation idleHost .immediate 0 { host := () } _ hdigits
  exact ⟨hdigits, hread.2.2.2 7 true 2 _ _ (List.forall_mem_singleton.mpr (by decide))
    (List.forall_mem_singleton.mpr (by decide)) hseven _⟩

/-- Zeros at the front count as digits, so that with too many of them not even nought is
taken, the text of which is one digit. -/
theorem nought_behind_zeros_refused :
    (text 0).toList = ['0'] ∧ ¬ ∃ u w',
      (validate idleHost .immediate 1 .safeParse .integerText
        (.text (String.ofList (padded 0 false 4300)))).runIn { host := () } =
          (.ok (.accepted u), w') := by
  have hnought : digits 0 = ['0'] := by simp [digits, digitChar]
  refine ⟨by simp [text, hnought], ?_⟩
  rintro ⟨u, w', h⟩
  have hruleless : idleHost = { idleHost with rules := [] } := rfl
  rw [hruleless] at h
  obtain ⟨⟨n, -, hshort, -⟩, -⟩ := validate_integerText_iff.mp h
  rw [String.toList_ofList, digitCount_padded, Int.natAbs_zero, hnought] at hshort
  exact absurd hshort (by decide)

/-! ## Texts of decimal numbers -/

/-- Blanks, a decimal number in plain notation, and blanks. -/
def WritesDecimal (cs : List Char) : Prop :=
  ∃ before number after, cs = before ++ number ++ after ∧ IsBlanks before ∧ IsDecimal number ∧
    IsBlanks after

/-- What writes an integer writes a decimal number. -/
theorem WritesInteger.writesDecimal {cs : List Char} {n : Int} (h : WritesInteger cs n) :
    WritesDecimal cs := by
  obtain ⟨before, sign, ds, after, hcs, hbefore, hsign, hds, hafter, -⟩ := h
  exact ⟨before, _, after, hcs, hbefore, IsInteger.isDecimal ⟨sign, ds, rfl, hsign, hds⟩, hafter⟩

section Decimals

variable {st : Store} {s : String} {u : Value} {σ : Type} {env : Setting σ} {mode : Mode}
  {depth : Nat} {entry : Entry} {w w' : World σ}

/-- A text is accepted as the number that is read from it. -/
theorem judge_decimal_iff :
    judgeWritten (fun s => (readDecimal? s).map fun x => .atom (.float x)) .numberParseFloat "float"
        st (.text s) = .accepted u ↔
      ∃ x, readDecimal? s = some x ∧ u = .atom (.float x) := by
  rw [judgeWritten_eq_accepted_iff, Option.map_eq_some_iff]
  simp only [eq_comm]

/-- Without rules, a text of a decimal number is accepted as the number. -/
theorem validate_decimalText_iff :
    (validate { env with rules := [] } mode (depth + 1) entry .decimalText (.text s)).runIn w =
        (.ok (.accepted u), w') ↔
      (∃ x, readDecimal? s = some x ∧ u = .atom (.float x)) ∧ w' = w := by
  rw [validate_accepted_iff entry rfl rfl, judge_decimal_iff]
  intro r hr
  obtain ⟨x, -, rfl⟩ := judge_decimal_iff.mp hr
  rfl

/-- What is read is a number. -/
theorem isNaN_of_readDecimal? {x : Binary64} (h : readDecimal? s = some x) : x.isNaN = false := by
  rw [readDecimal?] at h
  split at h
  · obtain ⟨d, -, rfl⟩ := Option.map_eq_some_iff.mp h
    exact Binary64.isNaN_ofDecimal d
  · cases h

theorem exists_readDecimal?_iff (s : String) :
    (∃ x, readDecimal? s = some x) ↔ WritesDecimal s.toList := by
  rw [← Option.isSome_iff_exists, isSome_readDecimal?_iff, WritesDecimal]

end Decimals

/-- A text is taken exactly if it is a decimal number in plain notation between blanks, and
what is taken becomes a number. Among these texts are all that are taken as integers. -/
theorem decimal_text_is_plain_notation {σ : Type} (env : Setting σ) (mode : Mode) (depth : Nat)
    (w : World σ) (s : String) :
    (∀ c, (∃ u c' w', (check env mode (depth + 1) .decimalText (.text s)).runIn c w =
      (.ok u, c', w') ∧ c'.errors = c.errors) ↔ WritesDecimal s.toList) ∧
    (∀ entry, (∃ u w', (validate { env with rules := [] } mode (depth + 1) entry .decimalText
      (.text s)).runIn w = (.ok (.accepted u), w')) ↔ WritesDecimal s.toList) ∧
    (∀ entry u w', (validate { env with rules := [] } mode (depth + 1) entry .decimalText
      (.text s)).runIn w = (.ok (.accepted u), w') →
        w' = w ∧ ∃ x, u = .atom (.float x) ∧ x.isNaN = false) ∧
    ∀ entry u w', (validate { env with rules := [] } mode (depth + 1) entry .integerText
      (.text s)).runIn w = (.ok (.accepted u), w') →
        ∃ x, (validate { env with rules := [] } mode (depth + 1) entry .decimalText
          (.text s)).runIn w = (.ok (.accepted (.atom (.float x))), w) := by
  refine ⟨fun c => ?_, fun entry => ?_, fun entry u w' h => ?_, fun entry u w' h => ?_⟩
  · rw [← exists_readDecimal?_iff]
    constructor
    · rintro ⟨u, c', w', h⟩
      obtain ⟨x, hx, -⟩ := judge_decimal_iff.mp ((check_clean_iff rfl).mp h).1
      exact ⟨x, hx⟩
    · rintro ⟨x, hx⟩
      exact ⟨_, c, w, (check_clean_iff rfl).mpr ⟨judge_decimal_iff.mpr ⟨x, hx, rfl⟩, rfl, rfl⟩⟩
  · rw [← exists_readDecimal?_iff]
    constructor
    · rintro ⟨u, w', h⟩
      obtain ⟨⟨x, hx, -⟩, -⟩ := validate_decimalText_iff.mp h
      exact ⟨x, hx⟩
    · rintro ⟨x, hx⟩
      exact ⟨_, w, validate_decimalText_iff.mpr ⟨⟨x, hx, rfl⟩, rfl⟩⟩
  · obtain ⟨⟨x, hx, rfl⟩, rfl⟩ := validate_decimalText_iff.mp h
    exact ⟨rfl, x, rfl, isNaN_of_readDecimal? hx⟩
  · obtain ⟨⟨n, hn, -⟩, -⟩ := validate_integerText_iff.mp h
    obtain ⟨x, hx⟩ := (exists_readDecimal?_iff s).mpr hn.writesDecimal
    exact ⟨x, validate_decimalText_iff.mpr ⟨⟨x, hx, rfl⟩, rfl⟩⟩

end Conform
