import Conform.World

/-!
# Export as JSON Schema

The export of a schema is a `Document`, a row of keywords with their
arguments, each keyword at most once. It says of a value no more than the
schema does: what a predicate asks or a step makes is left out.

A deferred schema that is reached again while it is being exported is
exported as the empty document. Which deferred schemas are being exported
is kept in the world, and restored however the export ends.
-/

namespace Conform

/-- A keyword with its argument. -/
inductive Keyword where
  | type (name : String)
  | format (name : String)
  | enum (members : List Atom)
  | minLength (bound : Value)
  | maxLength (bound : Value)
  | pattern (source : Value)
  | minimum (bound : Option Number)
  | maximum (bound : Option Number)
  | formatMinimum (bound : Moment)
  | formatMaximum (bound : Moment)
  | items (document : List Keyword)
  | minItems (bound : Nat)
  | maxItems (bound : Nat)
  | properties (documents : List (Key × List Keyword))
  | required (keys : List Key)
  | additionalProperties (allowed : Bool)
  | anyOf (documents : List (List Keyword))
  | allOf (documents : List (List Keyword))
  | default (v : Value)
  deriving Repr, Inhabited

/-- A row of keywords, each at most once. -/
abbrev Document := List Keyword

namespace Keyword

/-- The name of a keyword. -/
def name : Keyword → String
  | type _ => "type"
  | format _ => "format"
  | enum _ => "enum"
  | minLength _ => "minLength"
  | maxLength _ => "maxLength"
  | pattern _ => "pattern"
  | minimum _ => "minimum"
  | maximum _ => "maximum"
  | formatMinimum _ => "formatMinimum"
  | formatMaximum _ => "formatMaximum"
  | items _ => "items"
  | minItems _ => "minItems"
  | maxItems _ => "maxItems"
  | properties _ => "properties"
  | required _ => "required"
  | additionalProperties _ => "additionalProperties"
  | anyOf _ => "anyOf"
  | allOf _ => "allOf"
  | default _ => "default"

/-- The value of an open or closed bound. -/
def boundValue (bound : Option Number) : Value :=
  match bound with
  | some (.int n) => .int n
  | some (.float x) => .atom (.float x)
  | none => .null

mutual

/-- The argument of a keyword as a value. -/
def argument : Keyword → Value
  | type name => .text name
  | format name => .text name
  | enum members => .list (members.map .atom)
  | minLength bound => bound
  | maxLength bound => bound
  | pattern source => source
  | minimum bound => boundValue bound
  | maximum bound => boundValue bound
  | formatMinimum bound => .text bound.isoText
  | formatMaximum bound => .text bound.isoText
  | items document => .mapping false (entriesOf document)
  | minItems bound => .int bound
  | maxItems bound => .int bound
  | properties documents => .mapping false (propertiesOf documents)
  | required keys => .list (keys.map .ofKey)
  | additionalProperties allowed => .bool allowed
  | anyOf documents => .list (documentsOf documents)
  | allOf documents => .list (documentsOf documents)
  | default v => v

/-- The keywords of a document with their arguments. -/
def entriesOf : List Keyword → List (Key × Value)
  | [] => []
  | k :: ks => (.text k.name, k.argument) :: entriesOf ks

/-- Documents as values. -/
def documentsOf : List (List Keyword) → List Value
  | [] => []
  | d :: ds => .mapping false (entriesOf d) :: documentsOf ds

/-- Documents under keys as values under keys. -/
def propertiesOf : List (Key × List Keyword) → List (Key × Value)
  | [] => []
  | (k, d) :: ds => (k, .mapping false (entriesOf d)) :: propertiesOf ds

end

end Keyword

namespace Document

/-- A document as a value. -/
def toValue (d : Document) : Value := .mapping false (Keyword.entriesOf d)

/-- Sets a keyword: in place if it is there, else at the end. -/
def put (d : Document) (k : Keyword) : Document :=
  match d with
  | [] => [k]
  | l :: rest => if l.name = k.name then k :: rest else l :: put rest k

/-- Sets a keyword if there is one to set. -/
def putOption (d : Document) (k : Option Keyword) : Document :=
  match k with
  | some k => d.put k
  | none => d

end Document

/-! ## Schemas without parts -/

/-- The export of the checks of a text. The exact length replaces both bounds
of the length. -/
def StringChecks.document (c : StringChecks) : Document :=
  let d := Document.putOption [.type "string"] (c.min.map fun k => .minLength k.value)
  let d := d.putOption (c.max.map fun k => .maxLength k.value)
  let d := d.putOption (c.length.map fun k => .minLength k.value)
  let d := d.putOption (c.length.map fun k => .maxLength k.value)
  let d := d.putOption (c.pattern.map fun k => .pattern k.value.source)
  let d := d.putOption (c.email.map fun _ => .format "email")
  d.putOption (c.url.map fun _ => .format "uri")

/-- The export of the checks of a number. -/
def NumberChecks.document (c : NumberChecks) : Document :=
  let d := Document.putOption [.type (if c.int.isSome then "integer" else "number")]
    (c.min.map fun k => .minimum k.value)
  d.putOption (c.max.map fun k => .maximum k.value)

/-- The export of the checks of a date. -/
def DateChecks.document (c : DateChecks) : Document :=
  let d := Document.putOption [.type "string", .format "date-time"]
    (c.min.map fun k => .formatMinimum k.value)
  d.putOption (c.max.map fun k => .formatMaximum k.value)

/-- The export of an enumeration, with the type that all members share. -/
def enumDocument (members : List Atom) : Document :=
  let type? :=
    if members.all (fun a => match a with | .text _ => true | _ => false) then some "string"
    else if members.all (fun a => match a with | .int _ => true | _ => false) then
      some "integer"
    else if members.all (·.number?.isSome) then some "number"
    else none
  Document.putOption [.enum members] (type?.map .type)

/-- The export of the bounds of an array, after its elements. The exact
length replaces both bounds. -/
def ArrayBounds.document (b : ArrayBounds) (element : Document) : Document :=
  let d := Document.putOption [.type "array", .items element]
    (b.min.map fun k => .minItems k.value)
  let d := d.putOption (b.max.map fun k => .maxItems k.value)
  let d := d.putOption (b.length.map fun k => .minItems k.value)
  d.putOption (b.length.map fun k => .maxItems k.value)

/-- The text that writes an integer between blanks, as a pattern. -/
def integerTextPattern : String := "^\\s*[+-]?[0-9]+\\s*$"

/-! ## All schemas -/

namespace Setting

variable {σ : Type}

/-- Exports schemas in order. -/
def exportAll (child : Schema → Act σ Document) : List Schema → Act σ (List Document)
  | [] => return []
  | s :: ss => do return (← child s) :: (← exportAll child ss)

/-- Exports fields in order. -/
def exportFields (child : Schema → Act σ Document) :
    Entries Schema → Act σ (List (Key × Document))
  | [] => return []
  | (k, s) :: rest => do return (k, ← child s) :: (← exportFields child rest)

/-- The keys of the fields that do not accept an absent value. -/
def requiredKeys (accepts : Schema → Act σ Bool) : Entries Schema → Act σ (List Key)
  | [] => return []
  | (k, s) :: rest => do
    let accepted ← accepts s
    let keys ← requiredKeys accepts rest
    return if accepted then keys else k :: keys

/-- Runs an act while a deferred schema is being exported. -/
def whileExporting {α : Type} (id : Nat) (act : Act σ α) : Act σ α :=
  ExceptT.mk fun w =>
    let (r, after) := act.runIn { w with exporting := id :: w.exporting }
    (r, { after with exporting := w.exporting })

/-- The export of a schema, followed to a depth. -/
def exportSchema (env : Setting σ) : Nat → Schema → Act σ Document
  | 0, _ => throw .exhausted
  | depth + 1, s =>
    match s with
    | .any => return []
    | .string c => return c.document
    | .number c => return c.document
    | .boolean => return [.type "boolean"]
    | .date c => return c.document
    | .integerText => return [.type "string", .pattern (.text integerTextPattern)]
    | .decimalText => return [.type "string"]
    | .enumeration first rest => return enumDocument (first :: rest)
    | .object fields unknown => do
      let documents ← exportFields (env.exportSchema depth) fields
      let keys ← requiredKeys (env.acceptsMissing depth) fields
      let d : Document := [.type "object", .properties documents]
      let d := if keys.isEmpty then d else d ++ [.required keys]
      return d ++ [.additionalProperties (unknown != .strict)]
    | .array element bounds => return bounds.document (← env.exportSchema depth element)
    | .union first rest => return [.anyOf (← exportAll (env.exportSchema depth) (first :: rest))]
    | .intersection first rest =>
      return [.allOf (← exportAll (env.exportSchema depth) (first :: rest))]
    | .optional inner => env.exportSchema depth inner
    | .nullable inner => return [.anyOf [← env.exportSchema depth inner, [.type "null"]]]
    | .withDefault inner default =>
      return (← env.exportSchema depth inner).put (.default default)
    | .transform inner _ => env.exportSchema depth inner
    | .refine inner _ _ _ => env.exportSchema depth inner
    | .deferred id => do
      if (← get).exporting.contains id then return []
      else whileExporting id do env.exportSchema depth (← env.resolve id)

end Setting

end Conform
