import Conform.Pattern.Reader
import Conform.Schema.Describe

/-!
# Putting schemas together

Schemas are put together from operands that may turn out to be no schemas
at all, and from bounds that may be any values. Each builder either gives a
schema or says by a fault what is wrong with its arguments. None of them
changes what it is given: a schema with one more check is a new schema.

A bound is refused when it is given, not when it is used, with two
exceptions: the bound of a text's length may be any value, and the bound of
a number may be left open.
-/

namespace Conform

/-- What is given where a schema is asked for. -/
inductive Operand where
  | schema (s : Schema)
  | value (v : Value)
  deriving Repr, Inhabited

/-- The name of the class of an operand. -/
def Operand.className (st : Store) : Operand → String
  | schema s => s.className
  | value v => st.className v

/-- The schema that an operand must be. -/
def Operand.toSchema (st : Store) (role : SchemaRole) : Operand → Except Fault Schema
  | schema s => .ok s
  | value v =>
    if role.isWritable then .error (.notSchema role (st.className v)) else .error .tooManyDigits

/-- How the words and the code of a further check are given. -/
inductive RefineWords where
  | plain (words : Option String)
  /-- By a mapping, which may lack either and hold null. -/
  | mapping (words : Option (Option String)) (code : Option String)

/-- The fault for a text that is no pattern. -/
def Pattern.Refusal.fault : Pattern.Refusal → Fault
  | malformed => .patternMalformed
  | countTooLarge => .patternCount

namespace Store

/-- The values that a value runs through: the characters of a text, the items
of a container, the keys of a mapping. -/
def runThrough (st : Store) (v : Value) : Except Fault (List Value) :=
  match v with
  | .text s => .ok (s.toList.map fun c => .text c.toString)
  | .atom (.bytes bs) => .ok (bs.map fun b => .int b.toNat)
  | v =>
    match st.contents? v with
    | some (.list items) => .ok items
    | some (.tuple items) => .ok items
    | some (.mapping _ entries) => .ok (entries.map fun e => .ofKey e.1)
    | none => .error (.notIterable (st.className v))

/-- The key that a value is: an atom, or a tuple of keys. -/
def keyWithin (st : Store) : Nat → Value → Except Fault Key
  | 0, _ => .error .exhausted
  | depth + 1, v =>
    match v, st.contents? v with
    | .atom a, _ => .ok (.atom a)
    | _, some (.tuple items) => do return .tuple (← items.mapM (st.keyWithin depth))
    | v, _ => .error (.notKey (st.className v))

/-- The key that a value is. -/
def key (st : Store) (v : Value) : Except Fault Key := st.keyWithin shownDepth v

/-- What a value asks to search for. Bytes are taken too, if they write a
pattern. -/
def pattern (st : Store) (v : Value) : Except Fault Sought :=
  match v with
  | .text s => ((Pattern.read s {}).mapError Pattern.Refusal.fault).map .text
  | .atom (.bytes bs) =>
    ((Pattern.readBytes bs).mapError Pattern.Refusal.fault).map fun _ => .bytes bs
  | v => do
    let _ ← st.key v
    .error .notPattern

end Store

namespace Schema

/-! ## Compound schemas -/

/-- The fields of an object schema, each of which must be a schema. -/
def fieldsOf (st : Store) (shape : Entries Operand) : Except Fault (Entries Schema) :=
  shape.mapM fun (k, o) => do return (k, ← o.toSchema st (.field k))

/-- An object schema with given fields. -/
def ofShape (st : Store) (shape : Entries Operand) (unknown : UnknownKeys) :
    Except Fault Schema := do
  return .object (← fieldsOf st shape) unknown

/-- An array schema with a given element. -/
def ofElement (st : Store) (element : Operand) : Except Fault Schema := do
  return .array (← element.toSchema st .element) {}

/-- A union of options, of which there must be one. -/
def ofOptions (st : Store) (options : List Operand) : Except Fault Schema :=
  match options with
  | [] => .error (.empty .union)
  | o :: os => do
    return .union (← o.toSchema st .option) (← os.mapM (·.toSchema st .option))

/-- An intersection of members, of which there must be one. -/
def ofMembers (st : Store) (members : List Operand) : Except Fault Schema :=
  match members with
  | [] => .error (.empty .intersection)
  | o :: os => do
    return .intersection (← o.toSchema st .member) (← os.mapM (·.toSchema st .member))

/-- The atom that a member of an enumeration must be: a text or a number. -/
def memberAtom (st : Store) (v : Value) : Except Fault Atom :=
  match v with
  | .atom (.text s) => .ok (.text s)
  | .atom (.int n) => .ok (.int n)
  | .atom (.float x) => .ok (.float x)
  | v => .error (.notMember (st.className v))

/-- An enumeration of the values that a value runs through. One text is
refused, for its characters are hardly meant. -/
def ofValues (st : Store) (v : Value) : Except Fault Schema :=
  match v with
  | .text _ => .error .enumerationOfText
  | .atom (.bytes _) => .error .enumerationOfText
  | v => do
    match ← st.runThrough v with
    | [] => .error (.empty .enumeration)
    | first :: rest => return .enumeration (← memberAtom st first) (← rest.mapM (memberAtom st))

/-- The options of a union, or the schema as the only one, and one more. -/
def orElse (st : Store) (s : Schema) (other : Operand) : Except Fault Schema :=
  ofOptions st (((s.options?).getD [s]).map .schema ++ [other])

/-- The members of an intersection, or the schema as the only one, and one
more. -/
def andAlso (st : Store) (s : Schema) (other : Operand) : Except Fault Schema :=
  ofMembers st (((s.members?).getD [s]).map .schema ++ [other])

/-! ## Wrappers -/

/-- A schema that also accepts an absent value. -/
def ofOptional (st : Store) (inner : Operand) : Except Fault Schema := do
  return .optional (← inner.toSchema st .inner)

/-- A schema that also accepts null. -/
def ofNullable (st : Store) (inner : Operand) : Except Fault Schema := do
  return .nullable (← inner.toSchema st .inner)

/-- A schema with a value that stands in for an absent one. -/
def ofDefault (st : Store) (inner : Operand) (default : Value) : Except Fault Schema := do
  return .withDefault (← inner.toSchema st .inner) default

/-- A schema with a step applied to its results; `none` stands for something
that is no callback. -/
def transformBy (s : Schema) (step : Option Step) : Except Fault Schema :=
  match step with
  | some step => .ok (.transform s step)
  | none => .error (.notCallable .transform)

/-- A schema with a further check; `none` stands for something that is no
callback. -/
def refineBy (s : Schema) (check : Option Nat) (words : RefineWords) : Except Fault Schema :=
  match check with
  | none => .error (.notCallable .refine)
  | some id =>
    match words with
    | .plain w => .ok (.refine s id w (.builtin .custom))
    | .mapping none _ => .error .messageMissing
    | .mapping (some w) code => .ok (.refine s id w (Code.ofText? .custom code))

/-! ## Checks -/

/-- The schema has no such builder. -/
def lacks {α : Type} (s : Schema) (member : String) : Except Fault α :=
  .error (.noMember s.className member)

/-- The number that a bound must be, unless it is left open. -/
def numberBound (st : Store) (name : String) (bound : Value) : Except Fault (Option Number) :=
  match bound with
  | .null => .ok none
  | .atom a =>
    match a.number? with
    | some n => .ok (some n)
    | none => .error (.numberBound name (st.className bound))
  | bound => .error (.numberBound name (st.className bound))

/-- The moment that a bound must stand for. -/
def momentBound (st : Store) (name : String) (bound : Value) : Except Fault Moment :=
  match bound with
  | .atom (.date d) => .ok d.midnight
  | .atom (.moment m) => .ok m
  | bound => .error (.dateBound name (st.className bound))

/-- The natural number that a bound must be. -/
def countBound (st : Store) (name : String) (bound : Value) : Except Fault Nat :=
  match bound with
  | .int (.ofNat n) => .ok n
  | bound => do throw (.arrayBound name (← written (st.isWritable bound) (st.literal bound)))

/-- Sets the lower bound. -/
def min (st : Store) (s : Schema) (bound : Value) (words : Option String) : Except Fault Schema :=
  match s with
  | string c => .ok (.string { c with min := some ⟨bound, words⟩ })
  | number c => do return .number { c with min := some ⟨← numberBound st "min" bound, words⟩ }
  | date c => do return .date { c with min := some ⟨← momentBound st "min" bound, words⟩ }
  | array e b => do return .array e { b with min := some ⟨← countBound st "min" bound, words⟩ }
  | s => s.lacks "min"

/-- Sets the upper bound. -/
def max (st : Store) (s : Schema) (bound : Value) (words : Option String) : Except Fault Schema :=
  match s with
  | string c => .ok (.string { c with max := some ⟨bound, words⟩ })
  | number c => do return .number { c with max := some ⟨← numberBound st "max" bound, words⟩ }
  | date c => do return .date { c with max := some ⟨← momentBound st "max" bound, words⟩ }
  | array e b => do return .array e { b with max := some ⟨← countBound st "max" bound, words⟩ }
  | s => s.lacks "max"

/-- Sets the exact length. -/
def length (st : Store) (s : Schema) (bound : Value) (words : Option String) :
    Except Fault Schema :=
  match s with
  | string c => .ok (.string { c with length := some ⟨bound, words⟩ })
  | array e b => do
    return .array e { b with length := some ⟨← countBound st "length" bound, words⟩ }
  | s => s.lacks "length"

/-- Asks for at least one element. -/
def nonempty (s : Schema) (words : Option String) : Except Fault Schema :=
  match s with
  | array e b =>
    let words := (words.filter (!·.isEmpty)).getD "Array must not be empty"
    .ok (.array e { b with min := some ⟨1, some words⟩ })
  | s => s.lacks "nonempty"

/-- Asks for a match of a pattern. -/
def pattern (s : Schema) (p : Except Fault Sought) (words : Option String) :
    Except Fault Schema :=
  match s with
  | string c => do return .string { c with pattern := some ⟨← p, words⟩ }
  | s => s.lacks "pattern"

/-- Asks for the form of an e-mail address. -/
def email (s : Schema) (words : Option String) : Except Fault Schema :=
  match s with
  | string c => .ok (.string { c with email := some ⟨(), words⟩ })
  | s => s.lacks "email"

/-- Asks for the form of a locator. -/
def url (s : Schema) (words : Option String) : Except Fault Schema :=
  match s with
  | string c => .ok (.string { c with url := some ⟨(), words⟩ })
  | s => s.lacks "url"

/-- Asks for a whole number. -/
def int (s : Schema) (words : Option String) : Except Fault Schema :=
  match s with
  | number c => .ok (.number { c with int := some ⟨(), words⟩ })
  | s => s.lacks "int"

/-- Asks for a number above zero. -/
def positive (s : Schema) (words : Option String) : Except Fault Schema :=
  match s with
  | number c => .ok (.number { c with positive := some ⟨(), words⟩ })
  | s => s.lacks "positive"

/-- Asks for a number below zero. -/
def negative (s : Schema) (words : Option String) : Except Fault Schema :=
  match s with
  | number c => .ok (.number { c with negative := some ⟨(), words⟩ })
  | s => s.lacks "negative"

/-- Asks for a finite number. -/
def finite (s : Schema) (words : Option String) : Except Fault Schema :=
  match s with
  | number c => .ok (.number { c with finite := some ⟨(), words⟩ })
  | s => s.lacks "finite"

/-- Removes blanks at both ends of the result. -/
def trim (s : Schema) : Except Fault Schema :=
  match s with
  | string _ => .ok (.transform s .trim)
  | s => s.lacks "trim"

/-- Turns the result into lower case. -/
def toLower (s : Schema) : Except Fault Schema :=
  match s with
  | string _ => .ok (.transform s .lower)
  | s => s.lacks "to_lower"

/-- Turns the result into upper case. -/
def toUpper (s : Schema) : Except Fault Schema :=
  match s with
  | string _ => .ok (.transform s .upper)
  | s => s.lacks "to_upper"

/-! ## Object schemas from object schemas -/

/-- Sets the treatment of unknown keys. -/
def withUnknown (s : Schema) (unknown : UnknownKeys) : Except Fault Schema :=
  match s with
  | object fields _ => .ok (.object fields unknown)
  | s => s.lacks unknown.name

/-- The fields at some keys only. -/
def pickKeys (fields : Entries Schema) (keys : List Key) : Entries Schema :=
  fields.filter fun f => keys.any (·.same f.1)

/-- The fields at all but some keys. -/
def omitKeys (fields : Entries Schema) (keys : List Key) : Entries Schema :=
  fields.filter fun f => !keys.any (·.same f.1)

/-- Keeps the fields at the keys that a value runs through. -/
def pick (st : Store) (s : Schema) (keys : Value) : Except Fault Schema :=
  match s with
  | object fields unknown => do
    let ks ← (← st.runThrough keys).mapM st.key
    return .object (pickKeys fields ks) unknown
  | s => s.lacks "pick"

/-- Drops the fields at the keys that a value runs through. -/
def dropKeys (st : Store) (s : Schema) (keys : Value) : Except Fault Schema :=
  match s with
  | object fields unknown => do
    let ks ← (← st.runThrough keys).mapM st.key
    return .object (omitKeys fields ks) unknown
  | s => s.lacks "omit"

/-- Adds fields, replacing those at the same keys. -/
def extend (st : Store) (s : Schema) (extension : Entries Operand) : Except Fault Schema :=
  match s with
  | object fields unknown => do
    let known : Entries Operand := fields.map fun (k, f) => (k, .schema f)
    return .object (← fieldsOf st (known.putAll extension)) unknown
  | s => s.lacks "extend"

/-- Adds the fields of another object schema. -/
def merge (st : Store) (s : Schema) (other : Operand) : Except Fault Schema :=
  match s with
  | object fields unknown =>
    match other with
    | .schema (.object others _) => .ok (.object (Entries.putAll fields others) unknown)
    | other => .error (.noMember (other.className st) "_shape")
  | s => s.lacks "merge"

end Schema

end Conform
