import Mathlib.Data.List.Induction
import Mathlib.Data.Nat.Digits.Defs
import Conform.Export
import Conform.Schema.Scalar
import Conform.Proofs.Matching

/-!
# The notation of numbers

An integer is written with a sign or none and ASCII digits, a decimal number also with a
point and an exponent. Two things read this notation: a pattern, which a whole text must
match, and the reader that takes the number from the text. Both are seen here to know the
same texts, so that the reader never fails on what the pattern lets through.

The pattern that is exported for texts of integers has blanks at its ends, where the reader
trims them off. It is found in the texts that are read, and in those that would be read if
they had fewer digits.

## Main definitions

* `Decimal.IsInteger`, `Decimal.IsDecimal` — the notation of integers and of decimal
  numbers.
* `WritesInteger` — the notation of an integer between blanks, with the integer.

## Main results

* `fullMatch_integerLiteral_iff`, `fullMatch_decimalLiteral_iff` — what the patterns match.
* `readInteger?_eq_some_iff` — how texts are read as integers.
* `isSome_readDecimal?_iff` — which texts are read as decimal numbers.
* `search_integerText_iff` — in which texts the exported pattern is found.
-/

namespace Conform

/-- What a test accepts is dropped up to where something else stands. -/
theorem dropWhile_append_of_head {p : Char → Bool} {cs rest : List Char}
    (hcs : ∀ c ∈ cs, p c = true) (hrest : ∀ c ∈ rest.head?, p c = false) :
    (cs ++ rest).dropWhile p = rest := by
  rw [List.dropWhile_append_of_pos hcs]
  cases rest with
  | nil => rfl
  | cons c rest => simp [hrest c rfl]

/-! ## Notation -/

namespace Decimal

/-- A sign or none. -/
def IsSign (cs : List Char) : Prop := cs = [] ∨ cs = ['+'] ∨ cs = ['-']

/-- ASCII digits. -/
def IsDigits (cs : List Char) : Prop := cs ≠ [] ∧ ∀ c ∈ cs, c.isDigit = true

/-- A sign or none, and digits. -/
def IsInteger (cs : List Char) : Prop := ∃ sign ds, cs = sign ++ ds ∧ IsSign sign ∧ IsDigits ds

/-- Digits, with a point behind or among them or without one, or a point with digits behind
it. -/
def IsMantissa (cs : List Char) : Prop :=
  IsDigits cs ∨
    (∃ whole fraction, cs = whole ++ '.' :: fraction ∧ IsDigits whole ∧
      ∀ c ∈ fraction, c.isDigit = true) ∨
    ∃ fraction, cs = '.' :: fraction ∧ IsDigits fraction

/-- The letter of an exponent, and an integer. -/
def IsExponent (cs : List Char) : Prop :=
  ∃ e power, cs = e :: power ∧ (e = 'e' ∨ e = 'E') ∧ IsInteger power

/-- A sign or none, a mantissa, and an exponent or none. -/
def IsDecimal (cs : List Char) : Prop :=
  ∃ sign mantissa exponent, cs = sign ++ mantissa ++ exponent ∧ IsSign sign ∧
    IsMantissa mantissa ∧ (exponent = [] ∨ IsExponent exponent)

/-- The number that digits denote, by the places where they stand. -/
def magnitude (ds : List Char) : Nat := Nat.ofDigits 10 (ds.reverse.map fun c => c.toNat - 48)

/-- A number with a sign. -/
def signed (sign : List Char) (n : Nat) : Int := if sign = ['-'] then -(n : Int) else n

/-- Digits are read by the places where they stand. -/
theorem value_eq_magnitude (ds : List Char) : value ds = magnitude ds := by
  induction ds using List.reverseRecOn with
  | nil => rfl
  | append_singleton ds c ih =>
      rw [value_append_singleton, ih, magnitude, magnitude, List.reverse_append]
      simp [Nat.ofDigits_cons, Nat.add_comm]

variable {cs ds sign : List Char}

theorem isSign_iff (cs : List Char) :
    IsSign cs ↔ cs.length ≤ 1 ∧ ∀ c ∈ cs, c = '+' ∨ c = '-' := by
  rcases cs with _ | ⟨c, _ | ⟨d, cs⟩⟩ <;> simp [IsSign]

theorem IsSign.forall {P : Char → Prop} (h : IsSign sign) (hplus : P '+') (hminus : P '-') :
    ∀ c ∈ sign, P c := by
  rcases h with rfl | rfl | rfl
  · nofun
  · exact List.forall_mem_singleton.mpr hplus
  · exact List.forall_mem_singleton.mpr hminus

/-- A sign is split off what does not start with one. -/
theorem splitSign_append (hsign : IsSign sign) (hrest : ∀ c ∈ cs.head?, c ≠ '+' ∧ c ≠ '-') :
    splitSign (sign ++ cs) = (decide (sign = ['-']), cs) := by
  rcases hsign with rfl | rfl | rfl
  · rcases cs with _ | ⟨c, cs⟩
    · rfl
    · have hc := hrest c rfl
      simp [splitSign, hc]
  · rfl
  · rfl

/-- What is split off is a sign. -/
theorem exists_splitSign (cs : List Char) : ∃ sign, cs = sign ++ (splitSign cs).2 ∧ IsSign sign ∧
    (splitSign cs).1 = decide (sign = ['-']) := by
  unfold splitSign
  split
  · exact ⟨['-'], rfl, .inr (.inr rfl), rfl⟩
  · exact ⟨['+'], rfl, .inr (.inl rfl), rfl⟩
  · exact ⟨[], rfl, .inl rfl, rfl⟩

theorem IsDigits.head_ne (h : IsDigits ds) (rest : List Char) :
    ∀ c ∈ (ds ++ rest).head?, c ≠ '+' ∧ c ≠ '-' := by
  obtain ⟨d, ds, rfl⟩ := List.exists_cons_of_ne_nil h.1
  rintro c ⟨rfl⟩
  have hd := h.2 d List.mem_cons_self
  constructor <;> rintro rfl <;> exact absurd hd (by decide)

theorem splitSign_digits (hsign : IsSign sign) (hds : IsDigits ds) :
    splitSign (sign ++ ds) = (decide (sign = ['-']), ds) :=
  splitSign_append hsign (by simpa using hds.head_ne [])

/-- An integer is read from its notation only. -/
theorem integer?_eq_some_iff {n : Int} :
    integer? cs = some n ↔
      ∃ sign ds, cs = sign ++ ds ∧ IsSign sign ∧ IsDigits ds ∧ n = signed sign (magnitude ds) := by
  constructor
  · intro h
    obtain ⟨sign, hcs, hsign, hminus⟩ := exists_splitSign cs
    simp only [integer?, hminus, value_eq_magnitude] at h
    split at h
    · rename_i hdigits
      rw [Bool.and_eq_true, Bool.not_eq_true', List.isEmpty_eq_false_iff, List.all_eq_true]
        at hdigits
      refine ⟨sign, _, hcs, hsign, hdigits, ?_⟩
      simpa [signed] using (Option.some.inj h).symm
    · cases h
  · rintro ⟨sign, ds, rfl, hsign, hdigits, rfl⟩
    have hall : (!ds.isEmpty && ds.all Char.isDigit) = true := by
      simpa [IsDigits, List.isEmpty_eq_false_iff] using hdigits
    simp [integer?, splitSign_digits hsign hdigits, hall, signed, value_eq_magnitude]

theorem isSome_integer?_iff : (integer? cs).isSome = true ↔ IsInteger cs := by
  rw [Option.isSome_iff_exists]
  simp only [integer?_eq_some_iff, IsInteger]
  constructor
  · rintro ⟨n, sign, ds, hcs, hsign, hds, -⟩
    exact ⟨sign, ds, hcs, hsign, hds⟩
  · rintro ⟨sign, ds, hcs, hsign, hds⟩
    exact ⟨_, sign, ds, hcs, hsign, hds, rfl⟩

theorem isSome_exponent?_iff : (exponent? cs).isSome = true ↔ cs = [] ∨ IsExponent cs := by
  cases cs with
  | nil => simp [exponent?]
  | cons e power =>
      simp only [exponent?, IsExponent, List.cons.injEq]
      by_cases he : e = 'e' ∨ e = 'E'
      · rw [if_pos he, isSome_integer?_iff]
        simp [he]
      · rw [if_neg he]
        simp [he]

/-- Digits end where something else stands. -/
theorem span_digits {rest : List Char} (hds : ∀ c ∈ ds, c.isDigit = true)
    (hrest : ∀ c ∈ rest.head?, c.isDigit = false) :
    (ds ++ rest).takeWhile Char.isDigit = ds ∧ (ds ++ rest).dropWhile Char.isDigit = rest := by
  refine ⟨?_, dropWhile_append_of_head hds hrest⟩
  rw [List.takeWhile_append_of_pos hds]
  cases rest with
  | nil => simp
  | cons c rest => simp [hrest c rfl]

theorem head_of_exponent {exponent : List Char} (h : exponent = [] ∨ IsExponent exponent) :
    ∀ c ∈ exponent.head?, c.isDigit = false ∧ c ≠ '.' := by
  rcases h with rfl | ⟨e, power, rfl, rfl | rfl, -⟩ <;> rintro c ⟨rfl⟩ <;> decide

theorem IsMantissa.head_ne {mantissa : List Char} (h : IsMantissa mantissa) (rest : List Char) :
    ∀ c ∈ (mantissa ++ rest).head?, c ≠ '+' ∧ c ≠ '-' := by
  rcases h with h | ⟨whole, fraction, rfl, h, -⟩ | ⟨fraction, rfl, -⟩
  · exact h.head_ne rest
  · rw [List.append_assoc]
    exact h.head_ne _
  · rintro c ⟨rfl⟩
    decide

/-- A decimal number is read from its notation. -/
theorem isSome_read?_of_isDecimal (h : IsDecimal cs) : (read? cs).isSome = true := by
  obtain ⟨sign, mantissa, exponent, rfl, hsign, hmantissa, hexponent⟩ := h
  have hread := isSome_exponent?_iff.mpr hexponent
  have hhead := head_of_exponent hexponent
  have hsplit := splitSign_append hsign (hmantissa.head_ne exponent)
  rw [List.append_assoc]
  simp only [read?, hsplit]
  rcases hmantissa with hdigits | ⟨whole, fraction, rfl, hwhole, hfraction⟩ |
    ⟨fraction, rfl, hfraction⟩
  · obtain ⟨htake, hdrop⟩ := span_digits hdigits.2 fun c hc => (hhead c hc).1
    rw [htake, hdrop]
    split
    · exact absurd rfl (hhead '.' rfl).2
    · simp [hdigits.1, hread]
  · have hpoint : ∀ c ∈ ('.' :: (fraction ++ exponent)).head?, c.isDigit = false := by
      rintro c ⟨rfl⟩
      decide
    obtain ⟨htake, hdrop⟩ := span_digits hwhole.2 hpoint
    obtain ⟨htake', hdrop'⟩ := span_digits hfraction fun c hc => (hhead c hc).1
    simp [htake, hdrop, htake', hdrop', hwhole.1, hread]
  · obtain ⟨htake', hdrop'⟩ := span_digits hfraction.2 fun c hc => (hhead c hc).1
    simp [htake', hdrop', hfraction.1, hread]

/-- And from nothing else. -/
theorem isDecimal_of_isSome_read? (h : (read? cs).isSome = true) : IsDecimal cs := by
  obtain ⟨sign, hcs, hsign, -⟩ := exists_splitSign cs
  have hspan : ∀ ds : List Char, ds = ds.takeWhile Char.isDigit ++ ds.dropWhile Char.isDigit :=
    fun ds => List.takeWhile_append_dropWhile.symm
  have hdigits : ∀ ds : List Char, ∀ c ∈ ds.takeWhile Char.isDigit, c.isDigit = true :=
    fun ds c hc => List.mem_takeWhile_imp hc
  simp only [read?] at h
  generalize (splitSign cs).2 = body at h hcs
  have hbody := hspan body
  split at h
  · rename_i more hmore
    rw [hmore] at hbody
    split at h
    · cases h
    · rename_i hsome
      rw [Option.isSome_map, isSome_exponent?_iff] at h
      by_cases hwhole : body.takeWhile Char.isDigit = []
      · rw [hwhole, List.nil_append] at hbody
        refine ⟨sign, '.' :: more.takeWhile Char.isDigit, _, ?_, hsign, .inr (.inr ⟨_, rfl, ?_⟩), h⟩
        · rw [hcs, hbody, List.append_assoc, List.cons_append, ← hspan]
        · exact ⟨by simpa [hwhole] using hsome, hdigits more⟩
      · refine ⟨sign, body.takeWhile Char.isDigit ++ '.' :: more.takeWhile Char.isDigit, _, ?_,
          hsign, .inr (.inl ⟨_, _, rfl, ⟨hwhole, hdigits body⟩, hdigits more⟩), h⟩
        rw [hcs, List.append_assoc, List.append_assoc, List.cons_append, ← hspan, ← hbody]
  · split at h
    · cases h
    · rename_i hsome
      rw [Option.isSome_map, isSome_exponent?_iff] at h
      refine ⟨sign, body.takeWhile Char.isDigit, _, ?_, hsign, .inl ⟨?_, hdigits body⟩, h⟩
      · rw [hcs, List.append_assoc, ← hbody]
      · simpa using hsome

theorem isSome_read?_iff (cs : List Char) : (read? cs).isSome = true ↔ IsDecimal cs :=
  ⟨isDecimal_of_isSome_read?, isSome_read?_of_isDecimal⟩

/-- The notation of integers is notation of decimal numbers. -/
theorem IsInteger.isDecimal (h : IsInteger cs) : IsDecimal cs := by
  obtain ⟨sign, ds, rfl, hsign, hds⟩ := h
  exact ⟨sign, ds, [], (List.append_nil _).symm, hsign, .inl hds, .inl rfl⟩

end Decimal

/-! ## Patterns -/

namespace Pattern

open Decimal

theorem matchesSet_digits (c : Char) : matchesSet {} false [.range '0' '9'] c = c.isDigit := by
  simp [matchesSet, SetItem.holds, Char.isDigit, Char.le_def]

theorem takes_sign : sign.Takes {} IsSign := by
  refine takes_repeated_set.congr fun cs => ?_
  rw [isSign_iff]
  simp [matchesSet, SetItem.holds]

theorem takes_digits (least : Nat) :
    (digits least).Takes {} fun cs => least ≤ cs.length ∧ ∀ c ∈ cs, c.isDigit = true := by
  refine takes_repeated_set.congr fun cs => ?_
  simp [matchesSet_digits]

theorem takes_someDigits : (digits 1).Takes {} IsDigits := by
  refine (takes_digits 1).congr fun cs => ?_
  rw [IsDigits, Nat.one_le_iff_ne_zero, ne_eq, ne_eq, List.length_eq_zero_iff]

theorem takes_integer : (Node.seq sign (digits 1)).Takes {} IsInteger :=
  takes_sign.seq takes_someDigits

/-- Digits with a point or without one, or a point with digits. -/
theorem takes_mantissa :
    (Node.alt (.seq (digits 1) (.seq (.times (.char '.') 0 (some 1)) (digits 0)))
      (.seq (.char '.') (digits 1))).Takes {} IsMantissa := by
  refine ((takes_someDigits.seq (takes_char.optional.seq (takes_digits 0))).alt
    (takes_char.seq takes_someDigits)).congr fun cs => ?_
  constructor
  · rintro (⟨whole, _, rfl, hwhole, point, fraction, rfl, rfl | rfl, -, hfraction⟩ |
      ⟨_, fraction, rfl, rfl, hfraction⟩)
    · refine .inl ⟨by simp [hwhole.1], fun c hc => ?_⟩
      exact (List.mem_append.mp hc).elim (hwhole.2 c) (hfraction c)
    · exact .inr (.inl ⟨whole, fraction, rfl, hwhole, hfraction⟩)
    · exact .inr (.inr ⟨fraction, rfl, hfraction⟩)
  · rintro (hdigits | ⟨whole, fraction, rfl, hwhole, hfraction⟩ | ⟨fraction, rfl, hfraction⟩)
    · exact .inl ⟨cs, [], (List.append_nil _).symm, hdigits, [], [], rfl, .inl rfl, Nat.zero_le _,
        nofun⟩
    · exact .inl ⟨whole, _, rfl, hwhole, ['.'], fraction, rfl, .inr rfl, Nat.zero_le _, hfraction⟩
    · exact .inr ⟨['.'], fraction, rfl, rfl, hfraction⟩

theorem takes_exponent :
    (Node.seq (.oneOf false [.char 'e', .char 'E']) (.seq sign (digits 1))).Takes {}
      IsExponent := by
  refine (takes_set.seq takes_integer).congr fun cs => ?_
  constructor
  · rintro ⟨_, power, rfl, ⟨e, rfl, he⟩, hpower⟩
    exact ⟨e, power, rfl, by simpa [matchesSet, SetItem.holds] using he, hpower⟩
  · rintro ⟨e, power, rfl, he, hpower⟩
    exact ⟨[e], power, rfl, ⟨e, rfl, by simpa [matchesSet, SetItem.holds] using he⟩, hpower⟩

theorem takes_decimal : decimalLiteral.node.Takes {} IsDecimal := by
  refine (takes_sign.seq (takes_mantissa.seq takes_exponent.optional)).congr fun cs => ?_
  constructor
  · rintro ⟨sign, _, rfl, hsign, mantissa, exponent, rfl, hmantissa, hexponent⟩
    exact ⟨sign, mantissa, exponent, (List.append_assoc ..).symm, hsign, hmantissa, hexponent⟩
  · rintro ⟨sign, mantissa, exponent, rfl, hsign, hmantissa, hexponent⟩
    exact ⟨sign, _, List.append_assoc .., hsign, mantissa, exponent, rfl, hmantissa, hexponent⟩

end Pattern

/-- The pattern of integers matches their notation. -/
theorem fullMatch_integerLiteral_iff (s : String) :
    integerLiteral.fullMatch s = true ↔ Decimal.IsInteger s.toList :=
  Pattern.fullMatch_iff Pattern.takes_integer s

/-- The pattern of decimal numbers matches their notation. -/
theorem fullMatch_decimalLiteral_iff (s : String) :
    decimalLiteral.fullMatch s = true ↔ Decimal.IsDecimal s.toList :=
  Pattern.fullMatch_iff Pattern.takes_decimal s

/-- The patterns are what their sources are read as. -/
example : Pattern.read integerLiteral.source {} = .ok integerLiteral ∧
    Pattern.read decimalLiteral.source {} = .ok decimalLiteral :=
  ⟨rfl, rfl⟩

/-! ## Blanks around a number -/

namespace Text

/-- Nothing but blanks. -/
def IsBlanks (cs : List Char) : Prop := ∀ c ∈ cs, isBlank c = true

theorem isBlanks_nil : IsBlanks [] := nofun

/-- What is trimmed from a text is blank. -/
theorem exists_blanks (s : String) : ∃ before after,
    s.toList = before ++ (trim s).toList ++ after ∧ IsBlanks before ∧ IsBlanks after := by
  have hfront := List.takeWhile_append_dropWhile (p := isBlank) (l := s.toList)
  have hback := List.takeWhile_append_dropWhile (p := isBlank)
    (l := (s.toList.dropWhile isBlank).reverse)
  refine ⟨s.toList.takeWhile isBlank,
    ((s.toList.dropWhile isBlank).reverse.takeWhile isBlank).reverse, ?_, ?_, ?_⟩
  · have hrest := congrArg List.reverse hback
    rw [List.reverse_append, List.reverse_reverse] at hrest
    rw [trim, String.toList_ofList, List.append_assoc, hrest, hfront]
  · exact fun c hc => List.mem_takeWhile_imp hc
  · exact fun c hc => List.mem_takeWhile_imp (List.mem_reverse.mp hc)

/-- Blanks are trimmed off what has none. -/
theorem trim_eq {s : String} {before cs after : List Char} (hs : s.toList = before ++ cs ++ after)
    (hbefore : IsBlanks before) (hcs : ∀ c ∈ cs, isBlank c = false) (hafter : IsBlanks after) :
    (trim s).toList = cs := by
  rw [trim, String.toList_ofList, hs, List.append_assoc]
  by_cases hnone : cs = []
  · have hall : IsBlanks (before ++ after) := fun c hc =>
      (List.mem_append.mp hc).elim (hbefore c) (hafter c)
    rw [hnone, List.nil_append, List.dropWhile_eq_nil_iff.mpr hall]
    rfl
  · have hhead : ∀ c ∈ (cs ++ after).head?, isBlank c = false := by
      obtain ⟨first, rest, rfl⟩ := List.exists_cons_of_ne_nil hnone
      rintro c ⟨rfl⟩
      exact hcs first List.mem_cons_self
    rw [dropWhile_append_of_head hbefore hhead, List.reverse_append, dropWhile_append_of_head,
      List.reverse_reverse]
    · exact fun c hc => hafter c (List.mem_reverse.mp hc)
    · exact fun c hc => hcs c (List.mem_reverse.mp (List.mem_of_mem_head? hc))

/-- What is left of a text is in a language of texts without blanks exactly if the text is a
member of it between blanks. -/
theorem trim_of_blankless {L : List Char → Prop} (hL : ∀ cs, L cs → ∀ c ∈ cs, isBlank c = false)
    (s : String) : L (trim s).toList ↔ ∃ before cs after, s.toList = before ++ cs ++ after ∧
      IsBlanks before ∧ L cs ∧ IsBlanks after := by
  constructor
  · intro h
    obtain ⟨before, after, hs, hbefore, hafter⟩ := exists_blanks s
    exact ⟨before, _, after, hs, hbefore, h, hafter⟩
  · rintro ⟨before, cs, after, hs, hbefore, hcs, hafter⟩
    rwa [trim_eq hs hbefore (hL cs hcs) hafter]

end Text

/-! ## Texts that are read as numbers -/

theorem Text.isBlank_eq_false_of_isDigit {c : Char} (h : c.isDigit = true) : isBlank c = false := by
  by_contra hblank
  obtain ⟨r, hr, hlow, hhigh⟩ := exists_of_inRanges (Bool.not_eq_false _ ▸ hblank)
  obtain ⟨hzero, hnine⟩ : 48 ≤ c.toNat ∧ c.toNat ≤ 57 := by
    simpa [Char.isDigit, UInt32.le_iff_toNat_le] using h
  simp only [blankRanges, List.mem_cons, List.not_mem_nil, or_false] at hr
  rcases hr with rfl | rfl | rfl | rfl | rfl | rfl | rfl | rfl | rfl | rfl <;> omega

namespace Decimal

open Text

theorem IsSign.blankless {cs : List Char} (h : IsSign cs) : ∀ c ∈ cs, isBlank c = false :=
  h.forall (by decide) (by decide)

theorem IsDigits.blankless {cs : List Char} (h : IsDigits cs) : ∀ c ∈ cs, isBlank c = false :=
  fun c hc => isBlank_eq_false_of_isDigit (h.2 c hc)

theorem IsInteger.blankless {cs : List Char} (h : IsInteger cs) : ∀ c ∈ cs, isBlank c = false := by
  obtain ⟨sign, ds, rfl, hsign, hds⟩ := h
  exact List.forall_mem_append.mpr ⟨hsign.blankless, hds.blankless⟩

theorem IsMantissa.blankless {cs : List Char} (h : IsMantissa cs) :
    ∀ c ∈ cs, isBlank c = false := by
  have hdigits : ∀ {ds : List Char}, (∀ c ∈ ds, c.isDigit = true) → ∀ c ∈ ds, isBlank c = false :=
    fun hds c hc => isBlank_eq_false_of_isDigit (hds c hc)
  rcases h with h | ⟨whole, fraction, rfl, hwhole, hfraction⟩ | ⟨fraction, rfl, hfraction⟩
  · exact h.blankless
  · exact List.forall_mem_append.mpr
      ⟨hwhole.blankless, List.forall_mem_cons.mpr ⟨by decide, hdigits hfraction⟩⟩
  · exact List.forall_mem_cons.mpr ⟨by decide, hfraction.blankless⟩

theorem IsDecimal.blankless {cs : List Char} (h : IsDecimal cs) : ∀ c ∈ cs, isBlank c = false := by
  obtain ⟨sign, mantissa, exponent, rfl, hsign, hmantissa, hexponent⟩ := h
  refine List.forall_mem_append.mpr
    ⟨List.forall_mem_append.mpr ⟨hsign.blankless, hmantissa.blankless⟩, ?_⟩
  rcases hexponent with rfl | ⟨e, power, rfl, he, hpower⟩
  · nofun
  · refine List.forall_mem_cons.mpr ⟨?_, hpower.blankless⟩
    rcases he with rfl | rfl <;> decide

end Decimal

open Text Decimal

/-- Blanks, a sign or none, digits, and blanks; and the integer that is written so. -/
def WritesInteger (cs : List Char) (n : Int) : Prop :=
  ∃ before sign ds after, cs = before ++ (sign ++ ds) ++ after ∧ IsBlanks before ∧ IsSign sign ∧
    IsDigits ds ∧ IsBlanks after ∧ n = signed sign (magnitude ds)

/-- How many digits there are in a text. -/
def digitCount (cs : List Char) : Nat := cs.countP Char.isDigit

/-- The digits of a written integer are all digits there are. -/
theorem digitCount_eq {before sign ds after : List Char} (hbefore : IsBlanks before)
    (hsign : IsSign sign) (hds : IsDigits ds) (hafter : IsBlanks after) :
    digitCount (before ++ (sign ++ ds) ++ after) = ds.length := by
  have hnone : ∀ {cs : List Char}, IsBlanks cs → cs.countP Char.isDigit = 0 := by
    refine fun hcs => List.countP_eq_zero.mpr fun c hc hdigit => ?_
    have hblank := hcs c hc
    rw [isBlank_eq_false_of_isDigit hdigit] at hblank
    cases hblank
  have hunsigned : sign.countP Char.isDigit = 0 :=
    List.countP_eq_zero.mpr (hsign.forall (by decide) (by decide))
  rw [digitCount, List.countP_append, List.countP_append, List.countP_append, hnone hbefore,
    hnone hafter, hunsigned, List.countP_eq_length.mpr hds.2]
  omega

theorem toInteger?_eq_some_iff {cs : List Char} {n : Int} :
    toInteger? cs = some n ↔ ∃ sign ds, cs = sign ++ ds ∧ IsSign sign ∧ IsDigits ds ∧
      ds.length ≤ integerDigitLimit ∧ n = signed sign (magnitude ds) := by
  rw [toInteger?]
  constructor
  · intro h
    split at h
    · cases h
    · rename_i hshort
      obtain ⟨sign, ds, rfl, hsign, hds, hn⟩ := integer?_eq_some_iff.mp h
      rw [splitSign_digits hsign hds] at hshort
      exact ⟨sign, ds, rfl, hsign, hds, Nat.le_of_not_lt hshort, hn⟩
  · rintro ⟨sign, ds, rfl, hsign, hds, hshort, hn⟩
    rw [splitSign_digits hsign hds, if_neg (Nat.not_lt_of_le hshort)]
    exact integer?_eq_some_iff.mpr ⟨sign, ds, rfl, hsign, hds, hn⟩

/-- The pattern lets through what can be read. -/
theorem readInteger?_eq (s : String) : readInteger? s = toInteger? (trim s).toList := by
  rw [readInteger?]
  split
  · rfl
  · rename_i hfull
    rw [fullMatch_integerLiteral_iff] at hfull
    cases hread : toInteger? (trim s).toList with
    | none => rfl
    | some n =>
        obtain ⟨sign, ds, hs, hsign, hds, -⟩ := toInteger?_eq_some_iff.mp hread
        exact absurd ⟨sign, ds, hs, hsign, hds⟩ hfull

/-- A text is read as the integer that it writes, unless it has too many digits. -/
theorem readInteger?_eq_some_iff (s : String) (n : Int) :
    readInteger? s = some n ↔
      WritesInteger s.toList n ∧ digitCount s.toList ≤ integerDigitLimit := by
  rw [readInteger?_eq, toInteger?_eq_some_iff]
  constructor
  · rintro ⟨sign, ds, hs, hsign, hds, hshort, hn⟩
    obtain ⟨before, after, htext, hbefore, hafter⟩ := exists_blanks s
    rw [hs] at htext
    rw [htext, digitCount_eq hbefore hsign hds hafter]
    exact ⟨⟨before, sign, ds, after, rfl, hbefore, hsign, hds, hafter, hn⟩, hshort⟩
  · rintro ⟨⟨before, sign, ds, after, htext, hbefore, hsign, hds, hafter, hn⟩, hshort⟩
    rw [htext, digitCount_eq hbefore hsign hds hafter] at hshort
    have hblankless := IsInteger.blankless ⟨sign, ds, rfl, hsign, hds⟩
    exact ⟨sign, ds, trim_eq htext hbefore hblankless hafter, hsign, hds, hshort, hn⟩

/-- A text is read as a decimal number exactly if it is one between blanks. -/
theorem isSome_readDecimal?_iff (s : String) :
    (readDecimal? s).isSome = true ↔ ∃ before cs after, s.toList = before ++ cs ++ after ∧
      IsBlanks before ∧ IsDecimal cs ∧ IsBlanks after := by
  have hread : (readDecimal? s).isSome = true ↔ IsDecimal (trim s).toList := by
    rw [readDecimal?, ← fullMatch_decimalLiteral_iff]
    split
    · rename_i hfull
      rw [Option.isSome_map, isSome_read?_iff, ← fullMatch_decimalLiteral_iff]
    · rename_i hfull
      simpa using hfull
  rw [hread]
  exact trim_of_blankless (fun _ => IsDecimal.blankless) s

/-! ## The exported pattern -/

namespace Pattern

/-- The structure of the exported pattern. -/
def integerTextNode : Node :=
  let blanks : Node := .times (.oneOf false [.named false .space]) 0 none
  .seq (.anchor .lineStart) (.seq blanks
    (.seq sign (.seq (digits 1) (.seq blanks (.anchor .lineEnd)))))

theorem read_integerTextPattern :
    read integerTextPattern {} = .ok ⟨integerTextPattern, {}, integerTextNode⟩ :=
  rfl

theorem takes_blanks :
    (Node.times (.oneOf false [.named false .space]) 0 none).Takes {} IsBlanks := by
  refine takes_repeated_set.congr fun cs => ?_
  simp [matchesSet, SetItem.holds, CharClass.holds, IsBlanks]

/-- The exported pattern is found in the texts that write an integer. -/
theorem search_integerText_iff (s : String) :
    (⟨integerTextPattern, {}, integerTextNode⟩ : Pattern).search s = true ↔
      ∃ n, WritesInteger s.toList n := by
  rw [integerTextNode, search_lineStart_iff]
  have htext : s.toList.toArray.toList = [] ++ s.toList := rfl
  generalize s.toList.toArray = text at htext
  constructor
  · rintro ⟨q, h⟩
    obtain ⟨before, r, hs, hbefore, h⟩ := (takes_blanks.spans_seq_iff htext).mp h
    have htext := htext.trans (hs ▸ (List.append_assoc _ _ _).symm)
    obtain ⟨sign, r, rfl, hsign, h⟩ := (takes_sign.spans_seq_iff htext).mp h
    have htext := htext.trans (List.append_assoc _ _ _).symm
    obtain ⟨ds, r, rfl, hds, h⟩ := (takes_someDigits.spans_seq_iff htext).mp h
    have htext := htext.trans (List.append_assoc _ _ _).symm
    obtain ⟨after, r, rfl, hafter, hend, -⟩ := (takes_blanks.spans_seq_iff htext).mp h
    have htext := htext.trans (List.append_assoc _ _ _).symm
    -- a line break that the anchor leaves over is one blank more
    have hlast : IsBlanks r := by
      rcases (lineEnd_holds_iff htext).mp hend with rfl | rfl
      · nofun
      · exact List.forall_mem_singleton.mpr (by decide)
    refine ⟨_, before, sign, ds, after ++ r, ?_, hbefore, hsign, hds,
      List.forall_mem_append.mpr ⟨hafter, hlast⟩, rfl⟩
    rw [hs]
    simp
  · rintro ⟨n, before, sign, ds, after, hs, hbefore, hsign, hds, hafter, -⟩
    have hpieces : s.toList = before ++ (sign ++ (ds ++ after)) := by
      rw [hs]
      simp
    rw [hpieces] at htext
    refine ⟨([] ++ before ++ sign ++ ds ++ after).length,
      (takes_blanks.spans_seq_iff htext).mpr ⟨before, _, rfl, hbefore, ?_⟩⟩
    have htext := htext.trans (List.append_assoc _ _ _).symm
    refine (takes_sign.spans_seq_iff htext).mpr ⟨sign, _, rfl, hsign, ?_⟩
    have htext := htext.trans (List.append_assoc _ _ _).symm
    refine (takes_someDigits.spans_seq_iff htext).mpr ⟨ds, _, rfl, hds, ?_⟩
    have htext := htext.trans (List.append_assoc _ _ _).symm
    refine (takes_blanks.spans_seq_iff htext).mpr
      ⟨after, [], (List.append_nil _).symm, hafter, ?_, rfl⟩
    exact (lineEnd_holds_iff (htext.trans (List.append_nil _).symm)).mpr (.inl rfl)

end Pattern

end Conform
