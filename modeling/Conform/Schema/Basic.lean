import Conform.Message.Catalog
import Conform.Pattern.Basic

/-!
# Schemas

A schema says which values are acceptable and what they become. Schemas are
plain data: a callback of the host is named by a number, and a schema that
is only built when it is first used is named by a number too, so recursive
schemas are finite.

Checks are kept by name, one of a kind. A check has a parameter and may
have words of its own, which go before every template.
-/

namespace Conform

/-- A configured check: its parameter, and its own words if they are not
empty. -/
structure Check (α : Type) where
  value : α
  words : Option String
  deriving Repr

/-- The own words of a check, the empty text counting as none. -/
def Check.own {α : Type} (c : Check α) : Option String := c.words.filter (!·.isEmpty)

/-- What is searched for in a text. -/
inductive Sought where
  | text (p : Pattern)
  /-- A pattern of bytes: it is taken, but no text can be searched for it. -/
  | bytes (bs : List UInt8)
  deriving Repr, Inhabited

/-- The pattern as it was written. -/
def Sought.source : Sought → Value
  | text p => .text p.source
  | bytes bs => .atom (.bytes bs)

/-- The checks of a text. A bound of the length may be any value. -/
structure StringChecks where
  min : Option (Check Value) := none
  max : Option (Check Value) := none
  length : Option (Check Value) := none
  pattern : Option (Check Sought) := none
  email : Option (Check Unit) := none
  url : Option (Check Unit) := none
  deriving Repr, Inhabited

/-- The checks of a number. A bound may be left open, which cannot be
compared with. -/
structure NumberChecks where
  finite : Option (Check Unit) := none
  min : Option (Check (Option Number)) := none
  max : Option (Check (Option Number)) := none
  int : Option (Check Unit) := none
  positive : Option (Check Unit) := none
  negative : Option (Check Unit) := none
  deriving Repr, Inhabited

/-- The checks of a date: the first and the last moment. -/
structure DateChecks where
  min : Option (Check Moment) := none
  max : Option (Check Moment) := none
  deriving Repr, Inhabited

/-- The bounds on how many elements an array has. -/
structure ArrayBounds where
  min : Option (Check Nat) := none
  max : Option (Check Nat) := none
  length : Option (Check Nat) := none
  deriving Repr, Inhabited

/-- What happens to keys that an object schema does not declare. -/
inductive UnknownKeys where
  /-- They are dropped from the result. -/
  | strip
  /-- They are an error. -/
  | strict
  /-- They are copied into the result. -/
  | passthrough
  deriving DecidableEq, Repr, Inhabited

/-- A step that turns one value into another. -/
inductive Step where
  /-- A callback of the host. -/
  | callback (id : Nat)
  | trim
  | lower
  | upper
  /-- Steps one after another. -/
  | pipeline (steps : List Step)
  deriving Repr, Inhabited

/-- Which values are acceptable, and what they become. -/
inductive Schema where
  /-- Any value, as it is. -/
  | any
  | string (checks : StringChecks)
  | number (checks : NumberChecks)
  | boolean
  | date (checks : DateChecks)
  /-- A text that writes an integer, which it becomes. -/
  | integerText
  /-- A text that writes a decimal number, which it becomes. -/
  | decimalText
  | enumeration (first : Atom) (rest : List Atom)
  | object (fields : List (Key × Schema)) (unknown : UnknownKeys)
  | array (element : Schema) (bounds : ArrayBounds)
  /-- The first of the options that accepts. -/
  | union (first : Schema) (rest : List Schema)
  /-- All of the members, their results merged. -/
  | intersection (first : Schema) (rest : List Schema)
  /-- A value that may be absent. -/
  | optional (inner : Schema)
  /-- A value that may be null. -/
  | nullable (inner : Schema)
  /-- A value that stands in when there is none. -/
  | withDefault (inner : Schema) (default : Value)
  | transform (inner : Schema) (step : Step)
  /-- A further check by the host, with its words and code. -/
  | refine (inner : Schema) (check : Nat) (words : Option String) (code : Code)
  /-- A schema that is built when it is first used. -/
  | deferred (id : Nat)
  deriving Repr, Inhabited

namespace Schema

/-- The options of a union. -/
def options? : Schema → Option (List Schema)
  | union first rest => some (first :: rest)
  | _ => none

/-- The members of an intersection. -/
def members? : Schema → Option (List Schema)
  | intersection first rest => some (first :: rest)
  | _ => none

/-- The schema inside a wrapper. -/
def inner? : Schema → Option Schema
  | optional inner => some inner
  | nullable inner => some inner
  | withDefault inner _ => some inner
  | transform inner _ => some inner
  | refine inner _ _ _ => some inner
  | _ => none

end Schema

end Conform
