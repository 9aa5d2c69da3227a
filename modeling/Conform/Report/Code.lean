/-!
# Codes of errors

Every error carries a code that names what was violated. The codes of the
library's own checks are fixed; a check of the host may use any text.
-/

namespace Conform

/-- The codes of the library's own checks. -/
inductive BuiltinCode where
  | invalidType
  | stringMin
  | stringMax
  | stringLength
  | stringPattern
  | stringEmail
  | stringUrl
  | numberMin
  | numberMax
  | numberInt
  | numberPositive
  | numberNegative
  | numberFinite
  | numberParseInt
  | numberParseFloat
  | dateMin
  | dateMax
  | arrayMin
  | arrayMax
  | arrayLength
  | required
  | unknownKeys
  | circularReference
  | enumInvalid
  | unionInvalid
  | intersectionInvalid
  | custom
  | transformError
  | asyncError
  | pluginError
  deriving DecidableEq, Repr, Inhabited

namespace BuiltinCode

/-- All codes, by the domain they belong to. -/
def all : List BuiltinCode :=
  [invalidType, stringMin, stringMax, stringLength, stringPattern, stringEmail, stringUrl,
   numberMin, numberMax, numberInt, numberPositive, numberNegative, numberFinite,
   numberParseInt, numberParseFloat, dateMin, dateMax, arrayMin, arrayMax, arrayLength,
   required, unknownKeys, circularReference, enumInvalid, unionInvalid,
   intersectionInvalid, custom, transformError, asyncError, pluginError]

/-- The text of a code. -/
def text : BuiltinCode → String
  | invalidType => "invalid_type"
  | stringMin => "string.min"
  | stringMax => "string.max"
  | stringLength => "string.length"
  | stringPattern => "string.pattern"
  | stringEmail => "string.email"
  | stringUrl => "string.url"
  | numberMin => "number.min"
  | numberMax => "number.max"
  | numberInt => "number.int"
  | numberPositive => "number.positive"
  | numberNegative => "number.negative"
  | numberFinite => "number.finite"
  | numberParseInt => "number.parse_int"
  | numberParseFloat => "number.parse_float"
  | dateMin => "date.min"
  | dateMax => "date.max"
  | arrayMin => "array.min"
  | arrayMax => "array.max"
  | arrayLength => "array.length"
  | required => "required"
  | unknownKeys => "unknown_keys"
  | circularReference => "circular_reference"
  | enumInvalid => "enum.invalid"
  | unionInvalid => "union.invalid"
  | intersectionInvalid => "intersection.invalid"
  | custom => "custom"
  | transformError => "transform.error"
  | asyncError => "async.error"
  | pluginError => "plugin.error"

/-- The constant that stands for a code. -/
def constant : BuiltinCode → String
  | invalidType => "INVALID_TYPE"
  | stringMin => "STRING_MIN"
  | stringMax => "STRING_MAX"
  | stringLength => "STRING_LENGTH"
  | stringPattern => "STRING_PATTERN"
  | stringEmail => "STRING_EMAIL"
  | stringUrl => "STRING_URL"
  | numberMin => "NUMBER_MIN"
  | numberMax => "NUMBER_MAX"
  | numberInt => "NUMBER_INT"
  | numberPositive => "NUMBER_POSITIVE"
  | numberNegative => "NUMBER_NEGATIVE"
  | numberFinite => "NUMBER_FINITE"
  | numberParseInt => "NUMBER_PARSE_INT"
  | numberParseFloat => "NUMBER_PARSE_FLOAT"
  | dateMin => "DATE_MIN"
  | dateMax => "DATE_MAX"
  | arrayMin => "ARRAY_MIN"
  | arrayMax => "ARRAY_MAX"
  | arrayLength => "ARRAY_LENGTH"
  | required => "REQUIRED"
  | unknownKeys => "UNKNOWN_KEYS"
  | circularReference => "CIRCULAR_REFERENCE"
  | enumInvalid => "ENUM_INVALID"
  | unionInvalid => "UNION_INVALID"
  | intersectionInvalid => "INTERSECTION_INVALID"
  | custom => "CUSTOM"
  | transformError => "TRANSFORM_ERROR"
  | asyncError => "ASYNC_ERROR"
  | pluginError => "PLUGIN_ERROR"

/-- Different codes have different texts. -/
theorem text_injective {c d : BuiltinCode} (h : c.text = d.text) : c = d := by
  cases c <;> cases d <;> first | rfl | simp [text] at h

end BuiltinCode

/-- The code of an error. -/
inductive Code where
  | builtin (c : BuiltinCode)
  | custom (s : String)
  deriving DecidableEq, Repr, Inhabited

namespace Code

/-- The text of a code. -/
def text : Code → String
  | builtin c => c.text
  | custom s => s

/-- The code of a text that may be left out or empty. -/
def ofText? (default : BuiltinCode) : Option String → Code
  | none => builtin default
  | some "" => builtin default
  | some s => custom s

end Code

end Conform
