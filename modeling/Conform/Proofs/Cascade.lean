import Mathlib.Data.List.Induction
import Conform.Proofs.Admission
import Conform.Proofs.Chaining
import Conform.Proofs.NumberLine

/-!
# Checks made in a fixed order

Calls put checks on the schemas of texts and of numbers, in any order and as often as one likes.
A check is kept by its code, so that the last call for it counts. The checks are made in an
order of their own, and the first that does not hold is the only one that is reported.

What the calls of the two kinds have in common is a `Cascade`: the codes in their order, what a
call is and says, and what its check asks of a value. That a kind of calls is lawful is shown of
one call, of one clause and of the record of the last calls. How a row of calls judges follows
for both.

## Main definitions

* `lastCall` — the last call for a check.
* `Cascade`, `texts`, `numbers` — the two kinds of calls.
* `Cascade.broken` — the first check that does not hold.

## Main results

* `Cascade.Lawful.chain_eq` — what a row of calls gives.
* `Cascade.Lawful.runIn_check` — how it checks a value.
* `chains_report_first_violation` — so it is for texts and for numbers.
-/

namespace Conform

open Traverse

/-! ## The last calls -/

section LastCalls

variable {κ : Type} (code : κ → BuiltinCode)

/-- The last call for a check, which is the one that counts. -/
def lastCall (calls : List κ) (k : BuiltinCode) : Option κ := calls.reverse.find? (code · = k)

variable {code}

theorem lastCall_concat (calls : List κ) (call : κ) (k : BuiltinCode) :
    lastCall code (calls ++ [call]) k =
      if code call = k then some call else lastCall code calls k := by
  rw [lastCall, List.reverse_append, List.reverse_singleton, List.singleton_append, List.find?_cons]
  by_cases h : code call = k <;> simp [h, lastCall]

theorem code_of_lastCall {calls : List κ} {k : BuiltinCode} {call : κ}
    (h : lastCall code calls k = some call) : code call = k := by
  simpa using List.find?_some h

end LastCalls

/-! ## Cascades -/

/-- The calls that put checks on a schema of one kind, and what their checks say of the values of
that kind. There is one check for each code, and they are made in a fixed order. -/
structure Cascade (κ ν : Type) where
  /-- What the calls are put on. -/
  base : Base
  call : κ → Constraint
  /-- The schema that a row of calls is to give. -/
  schema : List κ → Schema
  /-- The codes of the checks, in the order in which they are made. -/
  order : List BuiltinCode
  code : κ → BuiltinCode
  /-- The words that a call gives, which may be empty. -/
  words : κ → Option String
  /-- The words of the error if a call gives none and no template is in force; there are none if
  the bound of the call is too long to be written. -/
  defaultWords : κ → Except Fault String
  details : κ → ν → Option Details
  value : ν → Value
  /-- What the check of a call asks of a value. -/
  Holds : κ → ν → Prop

namespace Cascade

variable {κ ν : Type} (f : Cascade κ ν) (calls : List κ) (v : ν)

/-- The error of a call whose check does not hold. Empty words count as none. -/
def violation (call : κ) (v : ν) : Violation where
  code := f.code call
  own := (f.words call).filter (!·.isEmpty)
  words := f.defaultWords call
  details := f.details call v

/-- The calls that count, in the order of their checks. -/
def inForce : List κ := f.order.filterMap (lastCall f.code calls)

open Classical in
/-- The first of them whose check does not hold. -/
noncomputable def broken : Option κ := (f.inForce calls).find? fun call => ¬ f.Holds call v

theorem broken_eq_none_iff :
    f.broken calls v = none ↔ ∀ call ∈ f.inForce calls, f.Holds call v := by
  simp [broken]

open Classical in
/-- What a check finds. -/
noncomputable def found (call : κ) : Option Violation :=
  if f.Holds call v then none else some (f.violation call v)

/-- The checks in their order find what is broken first. -/
theorem firstViolation_eq :
    firstViolation (f.order.map fun k => .ok ((lastCall f.code calls k).bind (f.found v))) =
      .ok ((f.broken calls v).map (f.violation · v)) := by
  unfold broken inForce
  induction f.order with
  | nil => rfl
  | cons k order ih =>
      rw [List.map_cons]
      cases hlast : lastCall f.code calls k with
      | none => simpa [firstViolation, List.filterMap_cons, hlast] using ih
      | some call =>
          by_cases h : f.Holds call v
          · simpa [firstViolation, hlast, found, h] using ih
          · simp [firstViolation, hlast, found, h]

/-- What the calls give is what they are to give, and judges values by their checks. -/
structure Lawful : Prop where
  start : f.base.schema = f.schema []
  /-- One more call. -/
  added (st : Store) (calls : List κ) (call : κ) :
    (f.call call).addTo st (f.schema calls) = .ok (f.schema (calls ++ [call]))
  /-- Only the last calls count. -/
  last (calls calls' : List κ)
      (h : ∀ k ∈ f.order, lastCall f.code calls k = lastCall f.code calls' k) :
    f.schema calls = f.schema calls'
  judged (st : Store) (calls : List κ) (v : ν) :
    (f.schema calls).judge? st (f.value v) = some (Judgement.ofClauses (f.value v)
      (f.order.map fun k => .ok ((lastCall f.code calls k).bind (f.found v))))
  present (v : ν) : f.value v ≠ .invalid

/-- A row of calls gives a schema that accepts a value as it is if all checks hold, and else
leaves one error, that of the first check that does not. The error has the words of its call,
if these are not empty, or else those of the template in force; a template that gives none
faults. Only the last call for each check counts, and not in which order they are made. -/
structure ReportsFirst : Prop where
  outcome (st : Store) (calls : List κ) :
    ∃ s, f.base.chain st (calls.map f.call) = .ok s ∧
      ∀ {σ : Type} (env : Setting σ) (mode : Mode) (depth : Nat) (v : ν) (c : Context)
        (w : World σ),
        ((check env mode (depth + 1) s (f.value v)).runIn c w = (.ok (f.value v), c, w) ↔
          ∀ call ∈ f.inForce calls, f.Holds call v) ∧
        (check env mode (depth + 1) s (f.value v)).runIn c w =
          match f.broken calls v with
          | none => (.ok (f.value v), c, w)
          | some call =>
            match (f.violation call v).message env w.store with
            | .ok words =>
              (.ok .invalid,
                c.addError ⟨c.path, words, .builtin (f.code call), f.details call v⟩, w)
            | .error fault => (.error fault, c, w)
  same (st st' : Store) (calls calls' : List κ)
      (h : ∀ k ∈ f.order, lastCall f.code calls k = lastCall f.code calls' k) :
    ∃ s, f.base.chain st (calls.map f.call) = .ok s ∧ f.base.chain st' (calls'.map f.call) = .ok s

namespace Lawful

variable {f} (hf : f.Lawful)

include hf

/-- A row of calls, by induction from its end. -/
theorem chain_eq (st : Store) : f.base.chain st (calls.map f.call) = .ok (f.schema calls) := by
  induction calls using List.reverseRecOn with
  | nil => exact congrArg Except.ok hf.start
  | append_singleton calls call ih =>
      rw [Base.chain] at ih ⊢
      rw [List.map_append, List.foldlM_append, ih]
      show ((f.call call).addTo st (f.schema calls) >>= pure) = _
      rw [hf.added]
      rfl

theorem judge?_eq (st : Store) :
    (f.schema calls).judge? st (f.value v) = some (.ok (match f.broken calls v with
      | none => .accepted (f.value v)
      | some call => .violated (f.violation call v))) := by
  rw [hf.judged, Judgement.ofClauses, firstViolation_eq]
  cases f.broken calls v <;> rfl

theorem runIn_check {σ : Type} (env : Setting σ) (mode : Mode) (depth : Nat) (c : Context)
    (w : World σ) :
    (check env mode (depth + 1) (f.schema calls) (f.value v)).runIn c w =
      match f.broken calls v with
      | none => (.ok (f.value v), c, w)
      | some call =>
        match (f.violation call v).message env w.store with
        | .ok words =>
          (.ok .invalid, c.addError ⟨c.path, words, .builtin (f.code call), f.details call v⟩, w)
        | .error fault => (.error fault, c, w) := by
  refine (runIn_checkLayer_of_judge? (hf.judge?_eq calls v w.store)).trans ?_
  cases f.broken calls v with
  | none => rfl
  | some call => exact Engine.runIn_refuse env _ c w

theorem reportsFirst : f.ReportsFirst where
  outcome st calls := by
    refine ⟨_, hf.chain_eq calls st, fun env mode depth v c w => ⟨?_, hf.runIn_check ..⟩⟩
    rw [hf.runIn_check, ← broken_eq_none_iff]
    cases f.broken calls v with
    | none => simp
    | some call =>
        simp only [reduceCtorEq, iff_false]
        cases (f.violation call v).message env w.store with
        | error fault => simp
        | ok words => exact fun h => hf.present v (Except.ok.inj (congrArg Prod.fst h)).symm
  same st st' calls calls' h :=
    ⟨_, hf.chain_eq calls st, hf.last calls calls' h ▸ hf.chain_eq calls' st'⟩

end Lawful

variable {f} in
/-- The clause of a check, made of the last call for it. -/
theorem clause_lastCall {α : Type} {check : κ → Option (Check α)}
    {violated : α → Except Fault Bool} {report : Check α → Violation} {k : BuiltinCode}
    (h : ∀ call, f.code call = k → ∃ x b, check call = some x ∧ violated x.value = .ok b ∧
      (b = false ↔ f.Holds call v) ∧ report x = f.violation call v) :
    clause ((lastCall f.code calls k).bind check) violated report =
      .ok ((lastCall f.code calls k).bind (f.found v)) := by
  cases hlast : lastCall f.code calls k with
  | none => rfl
  | some call =>
      obtain ⟨x, b, hx, hviolated, hb, hreport⟩ := h call (code_of_lastCall hlast)
      simp only [Option.bind_some, hx, clause, hviolated, found, ← hb, hreport]
      cases b <;> rfl

end Cascade

/-! ## Texts -/

/-- A call on the schema of texts. -/
inductive TextCall where
  | min (least : Int) (words : Option String)
  | max (most : Int) (words : Option String)
  | length (exact : Int) (words : Option String)
  | pattern (p : Pattern) (words : Option String)
  | email (words : Option String)
  | url (words : Option String)

namespace TextCall

/-- The call itself. -/
def constraint : TextCall → Constraint
  | min n words => .min (.int n) words
  | max n words => .max (.int n) words
  | length n words => .length (.int n) words
  | pattern p words => .pattern (.ok (.text p)) words
  | email words => .email words
  | url words => .url words

/-- The code of its check. -/
def code : TextCall → BuiltinCode
  | min _ _ => .stringMin
  | max _ _ => .stringMax
  | length _ _ => .stringLength
  | pattern _ _ => .stringPattern
  | email _ => .stringEmail
  | url _ => .stringUrl

/-- The words that it gives, which may be empty. -/
def words : TextCall → Option String
  | min _ words | max _ words | length _ words | pattern _ words | email words | url words => words

/-- What its check asks of a text. -/
def Holds : TextCall → String → Prop
  | min n _, s => n ≤ s.length
  | max n _, s => s.length ≤ n
  | length n _, s => s.length = n
  | pattern p _, s => p.search s = true
  | email _, s => isEmail s = true
  | url _, s => Locator.isLocator s = true

/-- The words for a bound of the length. -/
def lengthWords (relation : String) (n : Int) : Except Fault String :=
  written (Decimal.isWritable n)
    ("String must be " ++ relation ++ " " ++ Decimal.text n ++ " characters")

/-- The words of its error if it gives none and no template is in force. -/
def defaultWords : TextCall → Except Fault String
  | min n _ => lengthWords "at least" n
  | max n _ => lengthWords "at most" n
  | length n _ => lengthWords "exactly" n
  | pattern _ _ => .ok "String does not match pattern"
  | email _ => .ok "Invalid email format"
  | url _ => .ok "Invalid URL format"

/-- The details of its error. -/
def details : TextCall → String → Option Details
  | min n _, s => some (.ofValues [("min", .int n), ("actual", .int s.length)])
  | max n _, s => some (.ofValues [("max", .int n), ("actual", .int s.length)])
  | length n _, s => some (.ofValues [("length", .int n), ("actual", .int s.length)])
  | pattern p _, _ => some (.ofValues [("pattern", .text p.source)])
  | email _, _ | url _, _ => none

/-- The check of a length. -/
def lengthCheck : TextCall → Option (Check Value)
  | min n words | max n words | length n words => some ⟨.int n, words⟩
  | _ => none

/-- The check of a pattern. -/
def patternCheck : TextCall → Option (Check Sought)
  | pattern p words => some ⟨.text p, words⟩
  | _ => none

/-- The check of a form. -/
def formCheck : TextCall → Option (Check Unit)
  | email words | url words => some ⟨(), words⟩
  | _ => none

/-- The checks that a row of calls puts on: of each the last one. -/
def checks (calls : List TextCall) : StringChecks where
  min := (lastCall code calls .stringMin).bind lengthCheck
  max := (lastCall code calls .stringMax).bind lengthCheck
  length := (lastCall code calls .stringLength).bind lengthCheck
  pattern := (lastCall code calls .stringPattern).bind patternCheck
  email := (lastCall code calls .stringEmail).bind formCheck
  url := (lastCall code calls .stringUrl).bind formCheck

/-- One more call. -/
theorem addTo_checks (st : Store) (calls : List TextCall) (call : TextCall) :
    call.constraint.addTo st (.string (checks calls)) =
      .ok (.string (checks (calls ++ [call]))) := by
  simp only [checks, lastCall_concat]
  cases call <;> rfl

end TextCall

/-- The calls on the schema of texts. -/
def texts : Cascade TextCall String where
  base := .text
  call := TextCall.constraint
  schema calls := .string (TextCall.checks calls)
  order := [.stringMin, .stringMax, .stringLength, .stringPattern, .stringEmail, .stringUrl]
  code := TextCall.code
  words := TextCall.words
  defaultWords := TextCall.defaultWords
  details := TextCall.details
  value := .text
  Holds := TextCall.Holds

open TextCall in
theorem judge_texts (st : Store) (calls : List TextCall) (s : String) :
    (checks calls).judge st (.text s) = Judgement.ofClauses (.text s)
      (texts.order.map fun k => .ok ((lastCall texts.code calls k).bind (texts.found s))) := by
  have hsize : ∀ n : Int, Number.lt (.int s.length) (.int n) = false ↔ n ≤ s.length := by
    simp [Number.lt_int]
  have hsize' : ∀ n : Int, Number.lt (.int n) (.int s.length) = false ↔ s.length ≤ n := by
    simp [Number.lt_int]
  have hsize'' : ∀ n : Int, (!Number.equal (.int s.length) (.int n)) = false ↔ s.length = n := by
    simp [Number.equal_int]
  have hflag : ∀ b : Bool, (!b) = false ↔ b = true := by decide
  refine congrArg (Judgement.ofClauses _) ?_
  simp only [texts, List.map_cons, List.map_nil, List.cons.injEq, and_true]
  refine ⟨texts.clause_lastCall calls s ?min, texts.clause_lastCall calls s ?max,
    texts.clause_lastCall calls s ?length, texts.clause_lastCall calls s ?pattern,
    texts.clause_lastCall calls s ?email, texts.clause_lastCall calls s ?url⟩ <;>
    rintro ⟨⟩ h <;> cases h
  case min => exact ⟨_, _, rfl, rfl, hsize _, rfl⟩
  case max => exact ⟨_, _, rfl, rfl, hsize' _, rfl⟩
  case length => exact ⟨_, _, rfl, rfl, hsize'' _, rfl⟩
  case pattern => exact ⟨_, _, rfl, rfl, hflag _, rfl⟩
  case email => exact ⟨_, _, rfl, rfl, hflag _, rfl⟩
  case url => exact ⟨_, _, rfl, rfl, hflag _, rfl⟩

/-! ## Numbers -/

/-- A call on the schema of numbers. -/
inductive NumberCall where
  | finite (words : Option String)
  | min (least : Quantity) (words : Option String)
  | max (most : Quantity) (words : Option String)
  | int (words : Option String)
  | positive (words : Option String)
  | negative (words : Option String)

namespace NumberCall

/-- The call itself. -/
def constraint : NumberCall → Constraint
  | finite words => .finite words
  | min m words => .min (.atom m.number.atom) words
  | max m words => .max (.atom m.number.atom) words
  | int words => .int words
  | positive words => .positive words
  | negative words => .negative words

/-- The code of its check. -/
def code : NumberCall → BuiltinCode
  | finite _ => .numberFinite
  | min _ _ => .numberMin
  | max _ _ => .numberMax
  | int _ => .numberInt
  | positive _ => .numberPositive
  | negative _ => .numberNegative

/-- The words that it gives, which may be empty. -/
def words : NumberCall → Option String
  | finite words | min _ words | max _ words | int words | positive words | negative words => words

/-- What its check asks of a number. -/
def Holds : NumberCall → Quantity → Prop
  | finite _, n => ∃ r : ℝ, n.value = r
  | min m _, n => m.value ≤ n.value
  | max m _, n => n.value ≤ m.value
  | int _, n => ∃ k : Int, n.value = (k : ℝ)
  | positive _, n => 0 < n.value
  | negative _, n => n.value < 0

/-- The words for a bound. -/
def boundWords (relation : String) (m : Quantity) : Except Fault String :=
  written m.number.atom.isWritable ("Number must be " ++ relation ++ " " ++ m.number.atom.plain)

/-- The words of its error if it gives none and no template is in force. -/
def defaultWords : NumberCall → Except Fault String
  | finite _ => .ok "Number must be finite"
  | min m _ => boundWords "at least" m
  | max m _ => boundWords "at most" m
  | int _ => .ok "Number must be an integer"
  | positive _ => .ok "Number must be positive"
  | negative _ => .ok "Number must be negative"

/-- The details of its error. -/
def details : NumberCall → Quantity → Option Details
  | finite _, _ => none
  | min m _, n =>
    some (.ofValues [("min", .atom m.number.atom), ("actual", .atom n.number.atom)])
  | max m _, n =>
    some (.ofValues [("max", .atom m.number.atom), ("actual", .atom n.number.atom)])
  | int _, n | positive _, n | negative _, n =>
    some (.ofValues [("actual", .atom n.number.atom)])

/-- The check of a bound. -/
def boundCheck : NumberCall → Option (Check (Option Number))
  | min m words | max m words => some ⟨some m.number, words⟩
  | _ => none

/-- The check of a trait. -/
def traitCheck : NumberCall → Option (Check Unit)
  | finite words | int words | positive words | negative words => some ⟨(), words⟩
  | _ => none

/-- The checks that a row of calls puts on: of each the last one. -/
def checks (calls : List NumberCall) : NumberChecks where
  finite := (lastCall code calls .numberFinite).bind traitCheck
  min := (lastCall code calls .numberMin).bind boundCheck
  max := (lastCall code calls .numberMax).bind boundCheck
  int := (lastCall code calls .numberInt).bind traitCheck
  positive := (lastCall code calls .numberPositive).bind traitCheck
  negative := (lastCall code calls .numberNegative).bind traitCheck

theorem numberBound_quantity (st : Store) (name : String) (m : Quantity) :
    Schema.numberBound st name (.atom m.number.atom) = .ok (some m.number) := by
  rcases m with ⟨n | x, h⟩ <;> rfl

/-- One more call. -/
theorem addTo_checks (st : Store) (calls : List NumberCall) (call : NumberCall) :
    call.constraint.addTo st (.number (checks calls)) =
      .ok (.number (checks (calls ++ [call]))) := by
  simp only [checks, lastCall_concat]
  cases call with
  | min m words | max m words =>
      simp only [constraint, Constraint.addTo, Schema.min, Schema.max, numberBound_quantity]
      rfl
  | _ => rfl

end NumberCall

/-- The calls on the schema of numbers. -/
def numbers : Cascade NumberCall Quantity where
  base := .number
  call := NumberCall.constraint
  schema calls := .number (NumberCall.checks calls)
  order := [.numberFinite, .numberMin, .numberMax, .numberInt, .numberPositive, .numberNegative]
  code := NumberCall.code
  words := NumberCall.words
  defaultWords := NumberCall.defaultWords
  details := NumberCall.details
  value n := .atom n.number.atom
  Holds := NumberCall.Holds

open NumberCall in
theorem judge_numbers (st : Store) (calls : List NumberCall) (n : Quantity) :
    (checks calls).judge st (.atom n.number.atom) =
      Judgement.ofClauses (.atom n.number.atom) (numbers.order.map fun k =>
        .ok ((lastCall numbers.code calls k).bind (numbers.found n))) := by
  have hjudge : (checks calls).judge st (.atom n.number.atom) =
      (checks calls).judgeNumber n.number := by
    rcases n with ⟨n | x, h⟩ <;> rfl
  have hless : ∀ p q : Quantity, p.number.lt q.number = false ↔ q.value ≤ p.value := by
    intro p q
    rw [← not_lt, ← Quantity.lt_iff, Bool.not_eq_true]
  have hflag : ∀ b : Bool, (!b) = false ↔ b = true := by decide
  have habove : (Number.int 0).lt n.number = true ↔ 0 < n.value :=
    Quantity.value_zero ▸ Quantity.zero.lt_iff n
  have hbelow : n.number.lt (.int 0) = true ↔ n.value < 0 :=
    Quantity.value_zero ▸ n.lt_iff .zero
  rw [hjudge, NumberChecks.judgeNumber, n.denotes, if_neg Bool.false_ne_true]
  refine congrArg (Judgement.ofClauses _) ?_
  simp only [numbers, List.map_cons, List.map_nil, List.cons.injEq, and_true]
  refine ⟨numbers.clause_lastCall calls n ?finite, numbers.clause_lastCall calls n ?min,
    numbers.clause_lastCall calls n ?max, numbers.clause_lastCall calls n ?whole,
    numbers.clause_lastCall calls n ?positive, numbers.clause_lastCall calls n ?negative⟩ <;>
    rintro ⟨⟩ h <;> cases h
  case finite => exact ⟨_, _, rfl, rfl, (hflag _).trans n.isFinite_iff, rfl⟩
  case min => exact ⟨_, _, rfl, rfl, hless _ _, rfl⟩
  case max => exact ⟨_, _, rfl, rfl, hless _ _, rfl⟩
  case whole => exact ⟨_, _, rfl, rfl, (hflag _).trans n.isWhole_iff, rfl⟩
  case positive => exact ⟨_, _, rfl, rfl, (hflag _).trans habove, rfl⟩
  case negative => exact ⟨_, _, rfl, rfl, (hflag _).trans hbelow, rfl⟩

theorem lawful_texts : texts.Lawful where
  start := rfl
  added := TextCall.addTo_checks
  last calls calls' h := by
    simp only [texts, List.forall_mem_cons, List.not_mem_nil, false_imp_iff, implies_true,
      and_true] at h ⊢
    simp only [TextCall.checks, h]
  judged st calls s := congrArg some (judge_texts st calls s)
  present _ := nofun

theorem lawful_numbers : numbers.Lawful where
  start := rfl
  added := NumberCall.addTo_checks
  last calls calls' h := by
    simp only [numbers, List.forall_mem_cons, List.not_mem_nil, false_imp_iff, implies_true,
      and_true] at h ⊢
    simp only [NumberCall.checks, h]
  judged st calls n := congrArg some (judge_numbers st calls n)
  present n := by
    rcases n with ⟨n | x, h⟩ <;> exact nofun

/-- **Chains of checks report what is violated first.** It is so for the calls on the schema of
texts, with the checks min, max, length, pattern, email and url, and for those on the schema of
numbers, with finite, min, max, int, positive and negative, made in these orders. -/
theorem chains_report_first_violation : texts.ReportsFirst ∧ numbers.ReportsFirst :=
  ⟨lawful_texts.reportsFirst, lawful_numbers.reportsFirst⟩

/-- A bound that is given again, and the form of an address, in two orders. A text that has neither
the length nor the form gives the one error of its length, in the words of the last call for it. -/
theorem chains_report_first_violation_short :
    ∃ s, Base.text.chain {} [.min (.int 3) none, .email none, .min (.int 5) (some "too short")] =
        .ok s ∧
      Base.text.chain {} [.min (.int 5) (some "too short"), .email none] = .ok s ∧
      (check idleHost .immediate 1 s (.text "ab")).runIn {} { host := () } =
        (.ok .invalid, { errors := [⟨[], "too short", .builtin .stringMin,
          some (Details.ofValues [("min", .int 5), ("actual", .int 2)])⟩] }, { host := () }) := by
  obtain ⟨htexts, -⟩ := chains_report_first_violation
  have hbroken : texts.broken [.min 3 none, .email none, .min 5 (some "too short")] "ab" =
      some (.min 5 (some "too short")) := by
    have hlength : "ab".length = 2 := rfl
    simp [Cascade.broken, Cascade.inForce, texts, lastCall, TextCall.code, TextCall.Holds, hlength]
  have hlast : ∀ k ∈ texts.order,
      lastCall texts.code [.min 3 none, .email none, .min 5 (some "too short")] k =
        lastCall texts.code [.min 5 (some "too short"), .email none] k := by
    intro k hk
    simp only [texts, List.mem_cons, List.not_mem_nil, or_false] at hk
    rcases hk with rfl | rfl | rfl | rfl | rfl | rfl <;> rfl
  obtain ⟨s, hs, hs'⟩ := htexts.same {} {} _ _ hlast
  obtain ⟨t, ht, hrun⟩ := htexts.outcome {} [.min 3 none, .email none, .min 5 (some "too short")]
  obtain rfl : s = t := Except.ok.inj (hs.symm.trans ht)
  refine ⟨s, hs, hs', ((hrun idleHost .immediate 0 "ab" {} { host := () }).2).trans ?_⟩
  rw [hbroken]
  rfl

/-- A host whose template for numbers that are not positive fails instead of giving words. -/
def speechlessHost : Setting Unit := mutedHost "number.positive"

/-- Zero, which is not positive, leaves no error where the template fails. Where the call gives the
empty text for its words, there is an error, but not with these. -/
theorem violation_without_words :
    (∃ s, Base.number.chain {} [.positive none] = .ok s ∧
      (check speechlessHost .immediate 1 s (.int 0)).runIn {} { host := () } =
        (.error (.raised "ValueError" "no words"), {}, { host := () })) ∧
    ∃ s, Base.number.chain {} [.positive (some "")] = .ok s ∧
      (check idleHost .immediate 1 s (.int 0)).runIn {} { host := () } =
        (.ok .invalid, { errors := [⟨[], "Number must be positive", .builtin .numberPositive,
          some (Details.ofValues [("actual", .int 0)])⟩] }, { host := () }) := by
  have hbroken : ∀ words, numbers.broken [.positive words] .zero = some (.positive words) := by
    simp [Cascade.broken, Cascade.inForce, numbers, lastCall, NumberCall.code, NumberCall.Holds,
      Quantity.value_zero]
  have hcheck := fun words (env : Setting Unit) =>
    lawful_numbers.runIn_check [.positive words] .zero env .immediate 0 {} { host := () }
  simp only [hbroken] at hcheck
  exact ⟨⟨_, rfl, hcheck none speechlessHost⟩, _, rfl, hcheck (some "") idleHost⟩

end Conform
