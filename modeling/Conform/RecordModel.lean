import Conform.World

/-!
# Record models

An object schema has a record model: a named row of typed fields, each of
them required or with a default. The type of a field covers what the
field's schema lets through; where that cannot be told, it is `anything`.

Fields are named by texts: a schema with any other key has no record model.
Which of these names are fields of the model, and which are private to it, is up to
the library that makes models, and is part of the `Setting`.

A union type is kept in normal form: its members are no unions, no two of
them are the same, and there are at least two. The order of members does
not matter for sameness, and neither does that of the members of a literal
type. Two models are never the same, even if they look alike.
-/

namespace Conform

/-- The type of a field. -/
inductive FieldType where
  | text
  | integer
  | decimal
  | boolean
  | moment
  | anything
  | nothing
  /-- A mapping from texts to anything. -/
  | dictionary
  /-- One of some atoms. -/
  | literal (members : List Atom)
  | list (item : FieldType)
  | union (members : List FieldType)
  /-- A record model: its name, and for each field its name, its type, and
  its default unless it is required. -/
  | model (name : String) (fields : List (String × FieldType × Option Value))
  deriving Repr, Inhabited

/-- A named row of typed fields. -/
structure RecordModel where
  name : String
  fields : List (String × FieldType × Option Value)
  deriving Repr

/-- Whether two atoms are the same member of a literal type: equal, and of
one class. -/
def Atom.sameLiteral (a b : Atom) : Bool := a.className = b.className && a.equal b

namespace FieldType

/-- Whether each of some atoms is the same as one of others. -/
def literalsWithin (as bs : List Atom) : Bool := as.all fun a => bs.any a.sameLiteral

mutual

/-- Whether two types are the same. -/
def same : FieldType → FieldType → Bool
  | text, text => true
  | integer, integer => true
  | decimal, decimal => true
  | boolean, boolean => true
  | moment, moment => true
  | anything, anything => true
  | nothing, nothing => true
  | dictionary, dictionary => true
  | literal as, literal bs => literalsWithin as bs && literalsWithin bs as
  | list a, list b => a.same b
  | union as, union bs => as.length = bs.length && allWithin as bs
  | _, _ => false

/-- Whether each of some types is the same as one of others. -/
def allWithin : List FieldType → List FieldType → Bool
  | [], _ => true
  | a :: as, bs => sameAsSome a bs && allWithin as bs

/-- Whether a type is the same as one of others. -/
def sameAsSome : FieldType → List FieldType → Bool
  | _, [] => false
  | a, b :: bs => a.same b || sameAsSome a bs

end

/-- The members of a type taken as a union. -/
def members : FieldType → List FieldType
  | union ms => ms
  | t => [t]

/-- The types with repetitions left out. -/
def distinct (ts : List FieldType) : List FieldType :=
  ts.foldl (fun acc t => if sameAsSome t acc then acc else acc ++ [t]) []

/-- The union of types in normal form. -/
def unionOf (ts : List FieldType) : FieldType :=
  match distinct (ts.flatMap members) with
  | [t] => t
  | ts => union ts

/-- A type or nothing. -/
def orNothing (t : FieldType) : FieldType := unionOf [t, nothing]

/-- The literal type of atoms, with repetitions left out. -/
def literalOf (as : List Atom) : FieldType :=
  literal (as.foldl (fun acc a => if acc.any a.sameLiteral then acc else acc ++ [a]) [])

end FieldType

namespace Setting

variable {σ : Type}

/-- Applies an act to each of a row of schemas. -/
def typeEach (child : Schema → Act σ FieldType) : List Schema → Act σ (List FieldType)
  | [] => return []
  | s :: ss => do return (← child s) :: (← typeEach child ss)

/-- The name of the model inside a model. -/
def nestedName (name : String) (k : Key) : Except Fault String :=
  written k.isWritable (name ++ "_" ++ k.plain)

/-- The names that keys must be. -/
def namedFields {β : Type} (fields : List (Key × β)) : Except Fault (List (String × β)) :=
  fields.mapM fun (k, b) =>
    match k with
    | .text name => .ok (name, b)
    | _ => .error .fieldUnnamed

/-- The fields of a model, given what there is at each key. -/
def fieldsOfModel {β : Type} (env : Setting σ) (fields : List (Key × β)) :
    Act σ (List (String × β)) :=
  match namedFields fields with
  | .ok named => return named.filter fun f => env.isFieldName f.1
  | .error f => throw f

mutual

/-- The type of a schema's results, under a name for models in it. -/
def fieldType (env : Setting σ) : Nat → String → Schema → Act σ FieldType
  | 0, _, _ => throw .exhausted
  | depth + 1, name, s =>
    match s with
    | .string _ => return .text
    | .number c => return if c.int.isSome then .integer else .decimal
    | .integerText => return .integer
    | .decimalText => return .decimal
    | .boolean => return .boolean
    | .date _ => return .moment
    | .enumeration first rest => return .literalOf (first :: rest)
    | .array element _ => return .list (← env.fieldType depth (name ++ "_item") element)
    | .object fields _ =>
      return .model name (← env.fieldsOfModel (← env.modelFields depth name fields))
    | .union first rest =>
      return .unionOf (← typeEach (env.fieldType depth name) (first :: rest))
    | .nullable inner => return (← env.fieldType depth name inner).orNothing
    | .optional inner => return (← env.fieldType depth name inner).orNothing
    | .withDefault inner _ => env.fieldType depth name inner
    | .refine inner _ _ _ => env.fieldType depth name inner
    | .intersection _ _ => return .dictionary
    | _ => return .anything

/-- The type and the default of a field, under a name for models in it. -/
def fieldEntry (env : Setting σ) : Nat → String → Schema → Act σ (FieldType × Option Value)
  | 0, _, _ => throw .exhausted
  | depth + 1, name, s =>
    match s with
    | .optional inner => return ((← env.fieldType depth name inner).orNothing, some .null)
    | .withDefault inner default => return (← env.fieldType depth name inner, some default)
    | .nullable inner => do
      if ← env.acceptsMissing depth inner then
        let (type, _) ← env.fieldEntry depth name inner
        return (type.orNothing, some .null)
      else return (← env.fieldType depth name s, none)
    | s => return (← env.fieldType depth name s, none)

/-- The type and the default at each key of an object schema. -/
def modelFields (env : Setting σ) :
    Nat → String → List (Key × Schema) → Act σ (List (Key × FieldType × Option Value))
  | 0, _, _ => throw .exhausted
  | _, _, [] => return []
  | depth + 1, name, (k, s) :: rest => do
    let nested ← Act.ofExcept (nestedName name k)
    let field ← env.fieldEntry depth nested s
    return (k, field) :: (← env.modelFields depth name rest)

end

/-- The record model of an object schema, followed to a depth. -/
def recordModel (env : Setting σ) (depth : Nat) (name : String) (o : Operand) :
    Act σ RecordModel := do
  match o with
  | .schema (.object fields _) =>
    return ⟨name, ← env.fieldsOfModel (← env.modelFields depth name fields)⟩
  | _ => throw .notObjectSchema

end Setting

end Conform
