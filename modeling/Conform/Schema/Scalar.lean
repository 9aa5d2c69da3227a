import Conform.Locator.Url
import Conform.Schema.Basic

/-!
# Checks of single values

The schemas without parts judge a value on their own: they accept it, as it
is or converted, or name the first of their checks that it violates. The
order of the checks is fixed and does not depend on how the schema was put
together.

A judgement is a pure function of the schema and the value; only a bound
that cannot be compared with, or a pattern of bytes, ends it by a fault. The words
for what is violated are put together before it is asked whether they are
needed; where that fails, it fails whoever reports the violation.

## Main definitions

* `Violation`: what is violated, with the words used when no template is in
  force.
* `Schema.judge?`: the judgement of a schema without parts.
-/

namespace Conform

/-- A violated check: its code, its own words, the words used when it has none and
no template is in force, and the details. -/
structure Violation where
  code : BuiltinCode
  own : Option String := none
  words : Except Fault String
  details : Option Details := none

/-- The outcome of a judgement. -/
inductive Judgement where
  | accepted (v : Value)
  | violated (x : Violation)

/-- Details with values under names. -/
def Details.ofValues (ds : List (String × Value)) : Details :=
  ds.map fun (k, v) => (Key.text k, .value v)

/-- A value is of the wrong kind. -/
def Violation.wrongKind (expected received : String) (words : String) : Violation where
  code := .invalidType
  words := .ok words
  details := some (.ofValues [("expected", .text expected), ("received", .text received)])

/-- The first violation in a row of clauses; a clause before it that faults
ends the search. -/
def firstViolation : List (Except Fault (Option Violation)) → Except Fault (Option Violation)
  | [] => .ok none
  | .error f :: _ => .error f
  | .ok (some x) :: _ => .ok (some x)
  | .ok none :: rest => firstViolation rest

/-- The clause of a check that may not be set. -/
def clause {α : Type} (check : Option (Check α)) (violated : α → Except Fault Bool)
    (report : Check α → Violation) : Except Fault (Option Violation) :=
  match check with
  | none => .ok none
  | some c =>
    match violated c.value with
    | .error f => .error f
    | .ok b => .ok (if b then some (report c) else none)

/-- Accepts a value unless a violation was found. -/
def Judgement.ofClauses (v : Value) (clauses : List (Except Fault (Option Violation))) :
    Except Fault Judgement :=
  match firstViolation clauses with
  | .error f => .error f
  | .ok (some x) => .ok (.violated x)
  | .ok none => .ok (.accepted v)

/-! ## Texts -/

/-- The number a bound counts as. -/
def boundNumber? (bound : Value) : Option Number :=
  match bound with
  | .atom a => a.count?
  | _ => none

/-- Compares a number with a bound, if the bound is a number; `left` names the
class of the number and `right` that of the bound. -/
def compareBound (c : Comparison) (left right : String) (n : Number) (bound : Option Number) :
    Except Fault Bool :=
  match bound with
  | some m => .ok (c.holds n m)
  | none => .error (.incomparable c left right)

/-- Compares a length with a bound. -/
def compareSize (c : Comparison) (st : Store) (size : Nat) (bound : Value) : Except Fault Bool :=
  compareBound c "int" (st.fullClassName bound) (.int size) (boundNumber? bound)

/-- Whether a length differs from a value. -/
def differsFrom (size : Nat) (bound : Value) : Bool :=
  match boundNumber? bound with
  | some n => !(Number.int size).equal n
  | none => true

/-- The form of an e-mail address: something without blanks, an at sign,
something with a point inside it. -/
def emailPattern : Pattern :=
  let part : Pattern.Node := .times (.oneOf true [.named false .space, .char '@']) 1 none
  ⟨"^[^\\s@]+@[^\\s@]+\\.[^\\s@]+$", {},
    .seq (.anchor .lineStart) (.seq part (.seq (.char '@') (.seq part (.seq (.char '.')
      (.seq part (.anchor .lineEnd))))))⟩

/-- Whether a text has the form of an e-mail address. -/
def isEmail (s : String) : Bool := emailPattern.matchStart s

/-- The violation of a bound on the length of a text. -/
def lengthViolation (st : Store) (code : BuiltinCode) (name relation : String) (size : Nat)
    (c : Check Value) : Violation where
  code := code
  own := c.own
  words := written (st.isWritable c.value)
    ("String must be " ++ relation ++ " " ++ st.plain c.value ++ " characters")
  details := some (.ofValues [(name, c.value), ("actual", .int size)])

/-- Whether there is nothing in a text of what is searched for. -/
def Sought.missingIn (s : String) : Sought → Except Fault Bool
  | text p => .ok (!p.search s)
  | bytes _ => .error .bytesPattern

/-- The judgement of a text. -/
def StringChecks.judge (c : StringChecks) (st : Store) (v : Value) : Except Fault Judgement :=
  match v with
  | .text s =>
    let size := s.length
    Judgement.ofClauses v [
      clause c.min (compareSize .less st size)
        (lengthViolation st .stringMin "min" "at least" size),
      clause c.max (compareSize .greater st size)
        (lengthViolation st .stringMax "max" "at most" size),
      clause c.length (fun b => .ok (differsFrom size b))
        (lengthViolation st .stringLength "length" "exactly" size),
      clause c.pattern (Sought.missingIn s) fun k =>
        { code := .stringPattern, own := k.own, words := .ok "String does not match pattern"
          details := some (.ofValues [("pattern", k.value.source)]) },
      clause c.email (fun _ => .ok (!isEmail s)) fun k =>
        { code := .stringEmail, own := k.own, words := .ok "Invalid email format" },
      clause c.url (fun _ => .ok (!Locator.isLocator s)) fun k =>
        { code := .stringUrl, own := k.own, words := .ok "Invalid URL format" }]
  | v => .ok (.violated (.wrongKind "string" (st.kindName v) "Expected string"))

/-! ## Numbers -/

/-- The atom of a number. -/
def Number.atom : Number → Atom
  | int n => .int n
  | float x => .float x

/-- Compares a number with a bound; one that is left open cannot be compared
with. -/
def compareNumber (c : Comparison) (n : Number) (bound : Option Number) : Except Fault Bool :=
  compareBound c n.atom.className Atom.null.className n bound

/-- The violation of a bound of a number. -/
def boundViolation (code : BuiltinCode) (name relation : String) (n : Number)
    (c : Check (Option Number)) : Violation :=
  let bound : Atom := (c.value.map Number.atom).getD .null
  { code := code
    own := c.own
    words := written bound.isWritable ("Number must be " ++ relation ++ " " ++ bound.plain)
    details := some (.ofValues [(name, .atom bound), ("actual", .atom n.atom)]) }

/-- The violation of a check of a number that has no parameter. -/
def traitViolation (code : BuiltinCode) (words : String) (n : Number) (c : Check Unit) :
    Violation where
  code := code
  own := c.own
  words := .ok words
  details := some (.ofValues [("actual", .atom n.atom)])

/-- The judgement of a number. -/
def NumberChecks.judgeNumber (c : NumberChecks) (n : Number) : Except Fault Judgement :=
  if n.isNaN then
    .ok (.violated (.wrongKind "number" "NaN" "Expected number, received NaN"))
  else
    Judgement.ofClauses (.atom n.atom) [
      clause c.finite (fun _ => .ok (!n.isFinite)) fun k =>
        { code := .numberFinite, own := k.own, words := .ok "Number must be finite" },
      clause c.min (compareNumber .less n)
        (boundViolation .numberMin "min" "at least" n),
      clause c.max (compareNumber .greater n)
        (boundViolation .numberMax "max" "at most" n),
      clause c.int (fun _ => .ok (!n.isWhole))
        (traitViolation .numberInt "Number must be an integer" n),
      clause c.positive (fun _ => .ok (!(Number.int 0).lt n))
        (traitViolation .numberPositive "Number must be positive" n),
      clause c.negative (fun _ => .ok (!n.lt (.int 0)))
        (traitViolation .numberNegative "Number must be negative" n)]

/-- The judgement of a value by the checks of a number. -/
def NumberChecks.judge (c : NumberChecks) (st : Store) (v : Value) : Except Fault Judgement :=
  match v with
  | .atom a =>
    match a.number? with
    | some n => c.judgeNumber n
    | none => .ok (.violated (.wrongKind "number" (st.kindName v) "Expected number"))
  | v => .ok (.violated (.wrongKind "number" (st.kindName v) "Expected number"))

/-! ## Truth values and dates -/

/-- The judgement of a value that must be a truth value. -/
def judgeBoolean (st : Store) (v : Value) : Judgement :=
  match v with
  | .bool _ => .accepted v
  | v => .violated (.wrongKind "boolean" (st.kindName v) "Expected boolean")

/-- The moment a date or a moment stands for. -/
def Atom.moment? : Atom → Option Moment
  | date d => some d.midnight
  | moment m => some m
  | _ => none

/-- The violation of a bound of a date. -/
def momentViolation (code : BuiltinCode) (name relation : String) (m : Moment)
    (c : Check Moment) : Violation where
  code := code
  own := c.own
  words := .ok ("Date must be at or " ++ relation ++ " " ++ c.value.isoText)
  details := some (.ofValues [(name, .text c.value.isoText), ("actual", .text m.isoText)])

/-- The judgement of a value by the checks of a date. -/
def DateChecks.judge (c : DateChecks) (st : Store) (v : Value) : Except Fault Judgement :=
  let refuse := Except.ok (.violated (.wrongKind "date" (st.kindName v) "Expected date"))
  match v with
  | .atom a =>
    match a.moment? with
    | some m =>
      Judgement.ofClauses v [
        clause c.min (fun b => .ok (m.precedes b))
          (momentViolation .dateMin "min" "after" m),
        clause c.max (fun b => .ok (b.precedes m))
          (momentViolation .dateMax "max" "before" m)]
    | none => refuse
  | _ => refuse

/-! ## Texts that write numbers -/

namespace Pattern

/-- A sign or none. -/
def sign : Node := .times (.oneOf false [.char '+', .char '-']) 0 (some 1)

/-- ASCII digits, at least so many. -/
def digits (least : Nat) : Node := .times (.oneOf false [.range '0' '9']) least none

end Pattern

/-- The form of an integer. -/
def integerLiteral : Pattern := ⟨"[+-]?[0-9]+", {}, .seq Pattern.sign (Pattern.digits 1)⟩

/-- The form of a decimal number: plain notation, with no marks between
digits and no words. -/
def decimalLiteral : Pattern :=
  let mantissa : Pattern.Node :=
    .alt (.seq (Pattern.digits 1) (.seq (.times (.char '.') 0 (some 1)) (Pattern.digits 0)))
      (.seq (.char '.') (Pattern.digits 1))
  let exponent : Pattern.Node :=
    .seq (.oneOf false [.char 'e', .char 'E']) (.seq Pattern.sign (Pattern.digits 1))
  ⟨"[+-]?(?:[0-9]+\\.?[0-9]*|\\.[0-9]+)(?:[eE][+-]?[0-9]+)?", {},
    .seq Pattern.sign (.seq mantissa (.times exponent 0 (some 1)))⟩

/-- Reads an integer that stands alone, unless it has too many digits. -/
def toInteger? (cs : List Char) : Option Int :=
  if integerDigitLimit < (Decimal.splitSign cs).2.length then none else Decimal.integer? cs

/-- Reads an integer between blanks. -/
def readInteger? (s : String) : Option Int :=
  let t := Text.trim s
  if integerLiteral.fullMatch t then toInteger? t.toList else none

/-- Reads a decimal number between blanks. -/
def readDecimal? (s : String) : Option Binary64 :=
  let t := Text.trim s
  if decimalLiteral.fullMatch t then (Decimal.read? t.toList).map Binary64.ofDecimal else none

/-- The judgement of a value that must be a text that writes something. -/
def judgeWritten (read : String → Option Value) (code : BuiltinCode) (what : String)
    (st : Store) (v : Value) : Judgement :=
  match v with
  | .text s =>
    match read s with
    | some w => .accepted w
    | none =>
      .violated { code := code, words := .ok ("Failed to parse string as " ++ what)
                  details := some (.ofValues [("actual", v)]) }
  | v =>
    let words := "Expected string for " ++ what ++ " parsing"
    .violated { Violation.wrongKind "string" (st.kindName v) words with own := some words }

/-! ## Enumerations -/

/-- The judgement of a value that must be one of some atoms. -/
def judgeMember (members : List Atom) (v : Value) : Judgement :=
  let found := match v with
    | .atom a => members.any (·.sameKind a)
    | _ => false
  if found then .accepted v
  else
    .violated {
      code := .enumInvalid
      words := written (members.all Atom.isWritable)
        ("Invalid enum value. Expected one of: " ++ joinWith ", " (members.map Atom.plain))
      details := some (.ofValues
        [("allowed_values", .list (members.map Value.atom)), ("received", v)]) }

/-- The judgement of a schema without parts; `none` for the others. -/
def Schema.judge? (st : Store) (v : Value) : Schema → Option (Except Fault Judgement)
  | any => some (.ok (.accepted v))
  | string c => some (c.judge st v)
  | number c => some (c.judge st v)
  | boolean => some (.ok (judgeBoolean st v))
  | date c => some (c.judge st v)
  | integerText =>
    some (.ok (judgeWritten (fun s => (readInteger? s).map .int) .numberParseInt "integer" st v))
  | decimalText =>
    some (.ok (judgeWritten (fun s => (readDecimal? s).map fun x => .atom (.float x))
      .numberParseFloat "float" st v))
  | enumeration first rest => some (.ok (judgeMember (first :: rest) v))
  | _ => none

end Conform
