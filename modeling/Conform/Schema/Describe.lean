import Conform.Schema.Basic

/-!
# Schemas as text

The name of a schema's class and the one-line description of a schema,
which shows what is inside it and which checks it has, in alphabetical
order. A deferred schema is not built to be described.
-/

namespace Conform

/-- The names of the checks that are set, in the given order. -/
def namesSet (names : List (String × Bool)) : List String :=
  (names.filter (·.2)).map fun n => Text.quoted n.1

/-- The names of the checks of a text that are set. -/
def StringChecks.names (c : StringChecks) : List String :=
  namesSet [("email", c.email.isSome), ("length", c.length.isSome), ("max", c.max.isSome),
    ("min", c.min.isSome), ("pattern", c.pattern.isSome), ("url", c.url.isSome)]

/-- The names of the checks of a number that are set. -/
def NumberChecks.names (c : NumberChecks) : List String :=
  namesSet [("finite", c.finite.isSome), ("int", c.int.isSome), ("max", c.max.isSome),
    ("min", c.min.isSome), ("negative", c.negative.isSome), ("positive", c.positive.isSome)]

/-- The names of the checks of a date that are set. -/
def DateChecks.names (c : DateChecks) : List String :=
  namesSet [("max", c.max.isSome), ("min", c.min.isSome)]

/-- The name of a treatment of unknown keys. -/
def UnknownKeys.name : UnknownKeys → String
  | strip => "strip"
  | strict => "strict"
  | passthrough => "passthrough"

namespace Schema

/-- The name of the class of a schema. -/
def className : Schema → String
  | any => "AnySchema"
  | string _ => "StringSchema"
  | number _ => "NumberSchema"
  | boolean => "BooleanSchema"
  | date _ => "DateSchema"
  | integerText => "StringToIntSchema"
  | decimalText => "StringToFloatSchema"
  | enumeration _ _ => "EnumSchema"
  | object _ _ => "ObjectSchema"
  | array _ _ => "ArraySchema"
  | union _ _ => "UnionSchema"
  | intersection _ _ => "IntersectionSchema"
  | optional _ => "OptionalSchema"
  | nullable _ => "NullableSchema"
  | withDefault _ _ => "DefaultSchema"
  | transform _ _ => "TransformSchema"
  | refine _ _ _ _ => "RefineSchema"
  | deferred _ => "LazySchema"

mutual

/-- The one-line description of a schema. -/
def describe : Schema → Except Fault String
  | string c => return "StringSchema(" ++ listLiteral c.names ++ ")"
  | number c => return "NumberSchema(" ++ listLiteral c.names ++ ")"
  | date c => return "DateSchema(" ++ listLiteral c.names ++ ")"
  | integerText => return "<wenfit.core.primitives.number.StringToIntSchema object>"
  | decimalText => return "<wenfit.core.primitives.number.StringToFloatSchema object>"
  | enumeration first rest =>
    written ((first :: rest).all Atom.isWritable)
      ("EnumSchema(" ++ listLiteral ((first :: rest).map Atom.literal) ++ ")")
  | object fields unknown =>
    written (Key.allWritable (fields.map (·.1)))
      ("ObjectSchema(" ++ listLiteral (fields.map fun f => f.1.literal) ++ ", unknown_keys=" ++
        unknown.name ++ ")")
  | array element _ => return "ArraySchema(" ++ (← element.describe) ++ ")"
  | union first rest => do
    let options := (← first.describe) :: (← describeAll rest)
    return "UnionSchema(" ++ listLiteral options ++ ")"
  | intersection first rest => do
    let members := (← first.describe) :: (← describeAll rest)
    return "IntersectionSchema(" ++ listLiteral members ++ ")"
  | optional inner => return "OptionalSchema(" ++ (← inner.describe) ++ ")"
  | nullable inner => return "NullableSchema(" ++ (← inner.describe) ++ ")"
  | withDefault inner _ => return "DefaultSchema(" ++ (← inner.describe) ++ ")"
  | transform inner _ => return "TransformSchema(" ++ (← inner.describe) ++ ")"
  | refine inner _ _ _ => return "RefineSchema(" ++ (← inner.describe) ++ ")"
  | deferred _ => return "<wenfit.core.schema.LazySchema object>"
  | any => return "AnySchema()"
  | boolean => return "BooleanSchema()"

/-- The descriptions of a run of schemas. -/
def describeAll : List Schema → Except Fault (List String)
  | [] => return []
  | s :: ss => return (← s.describe) :: (← describeAll ss)

end

end Schema

end Conform
