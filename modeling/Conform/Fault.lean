import Conform.Report.Record

/-!
# Faults

A fault ends an operation, unlike an error record, which a check leaves
behind and goes on. Faults come from a schema that is put together wrongly,
from a bound that cannot be compared with a value, from a text that cannot be
written, from callbacks of the host, and from the entry points that answer with
a value alone.

`Fault.kind` sorts faults, `Fault.text` words them.
-/

namespace Conform

/-- The entry points that do not wait for pending checks. -/
inductive Entry where
  | parse
  | safeParse
  deriving DecidableEq, Repr

/-- Where a schema was asked for. -/
inductive SchemaRole where
  | inner
  | field (key : Key)
  | element
  | option
  | member
  | deferred
  deriving Repr

/-- Whether the words for where a schema was asked for are written: they hold the
key of a field. -/
def SchemaRole.isWritable : SchemaRole → Bool
  | field key => key.isWritable
  | _ => true

/-- Where a callback was asked for. -/
inductive CallbackRole where
  | transform
  | refine
  | deferred
  deriving DecidableEq, Repr

/-- What cannot be empty. -/
inductive NonEmpty where
  | union
  | intersection
  | enumeration
  deriving DecidableEq, Repr

/-- Why an operation ended without an answer. -/
inductive Fault where
  /-- A callback of the host raised an exception of some kind, with some text. -/
  | raised (kind : String) (message : String)
  /-- A value stands where a schema is asked for. -/
  | notSchema (role : SchemaRole) (found : String)
  /-- A value stands where a callback is asked for. -/
  | notCallable (role : CallbackRole)
  /-- A value is no step of a pipeline. -/
  | notStep (found : String)
  /-- A list that cannot be empty is. -/
  | empty (what : NonEmpty)
  /-- An enumeration was given one text instead of a run of values. -/
  | enumerationOfText
  /-- A value cannot be a member of an enumeration. -/
  | notMember (found : String)
  /-- A bound of a number check is no number. -/
  | numberBound (name found : String)
  /-- A bound of a date check is no date. -/
  | dateBound (name found : String)
  /-- A bound of an array check is no natural number. -/
  | arrayBound (name literal : String)
  /-- Values of two classes cannot be ordered. -/
  | incomparable (c : Comparison) (left right : String)
  /-- A check was configured by a mapping without a message. -/
  | messageMissing
  /-- A value has no items to go through. -/
  | notIterable (found : String)
  /-- A value cannot be a key. -/
  | notKey (found : String)
  /-- A value that is no text cannot be a pattern. -/
  | notPattern
  /-- A text is no pattern. -/
  | patternMalformed
  /-- A repetition count in a pattern is too large. -/
  | patternCount
  /-- A schema or value has no such member. -/
  | noMember (owner member : String)
  /-- A text operation was applied to something else. -/
  | textRequired (operation found : String)
  /-- Only an object schema has a record model. -/
  | notObjectSchema
  /-- The name of a field of a record model is no text. -/
  | fieldUnnamed
  /-- A plugin of that name is registered. -/
  | pluginTaken (name : String)
  /-- The path of a context is empty. -/
  | pathEmpty
  /-- Pending checks were met by an entry point that does not wait. -/
  | awaitRequired (entry : Entry)
  /-- A value was rejected. -/
  | rejected (errors : List ErrorRecord)
  /-- An integer has too many digits to be written. -/
  | tooManyDigits
  /-- A value of some class has no copy. -/
  | uncopyable (found : String)
  /-- A text was searched for a pattern of bytes. -/
  | bytesPattern
  /-- The depth of recursion was used up. -/
  | exhausted

/-- The kinds of faults. -/
inductive FaultKind where
  | wrongType
  | wrongValue
  | wrongKey
  | wrongIndex
  | wrongMember
  | overflow
  | recursion
  | pattern
  | awaiting
  | rejection
  | host (kind : String)
  deriving DecidableEq, Repr

namespace Entry

/-- The name of an entry point. -/
def name : Entry → String
  | parse => "parse"
  | safeParse => "safe_parse"

end Entry

namespace Fault

/-- The kind of a fault. -/
def kind : Fault → FaultKind
  | raised kind _ => .host kind
  | notSchema _ _ => .wrongType
  | notCallable _ => .wrongType
  | notStep _ => .wrongType
  | empty _ => .wrongValue
  | enumerationOfText => .wrongType
  | notMember _ => .wrongType
  | numberBound _ _ => .wrongType
  | dateBound _ _ => .wrongType
  | arrayBound _ _ => .wrongValue
  | incomparable _ _ _ => .wrongType
  | messageMissing => .wrongKey
  | notIterable _ => .wrongType
  | notKey _ => .wrongType
  | notPattern => .wrongType
  | patternMalformed => .pattern
  | patternCount => .overflow
  | noMember _ _ => .wrongMember
  | textRequired _ _ => .wrongType
  | notObjectSchema => .wrongType
  | fieldUnnamed => .wrongType
  | pluginTaken _ => .wrongValue
  | pathEmpty => .wrongIndex
  | awaitRequired _ => .awaiting
  | rejected _ => .rejection
  | tooManyDigits => .wrongValue
  | uncopyable _ => .wrongType
  | bytesPattern => .wrongType
  | exhausted => .recursion

/-- The words of a fault. -/
def text : Fault → String
  | raised _ message => message
  | notSchema role found =>
    match role with
    | .inner => "Expected a Schema, got " ++ found
    | .field key => "Field " ++ key.literal ++ " must be a Schema, got " ++ found
    | .element => "Element must be a Schema, got " ++ found
    | .option => "Union options must be Schemas, got " ++ found
    | .member => "Intersection members must be Schemas, got " ++ found
    | .deferred => "lazy() factory must return a Schema, got " ++ found
  | notCallable role =>
    match role with
    | .transform => "transform() requires a callable"
    | .refine => "refine() requires a callable predicate"
    | .deferred => "lazy() requires a zero-argument callable"
  | notStep found => "Pipeline steps must be callables or transformers, got " ++ found
  | empty what =>
    match what with
    | .union => "Union must have at least one schema option"
    | .intersection => "Intersection must have at least one schema"
    | .enumeration => "Enum must have at least one value"
  | enumerationOfText => "Enum values must be a sequence of literals, not a string"
  | notMember found => "Enum values must be strings or numbers, got " ++ found
  | numberBound name found => "Number " ++ name ++ " must be a number, got " ++ found
  | dateBound name found => "Date " ++ name ++ " must be a date, got " ++ found
  | arrayBound name literal =>
    "Array " ++ name ++ " must be a non-negative integer, got " ++ literal
  | incomparable c left right =>
    Text.quoted c.sign ++ " not supported between instances of " ++ Text.quoted left ++
      " and " ++ Text.quoted right
  | messageMissing => "'message'"
  | notIterable found => Text.quoted found ++ " object is not iterable"
  | notKey found => "unhashable type: " ++ Text.quoted found
  | notPattern => "first argument must be string or compiled pattern"
  | patternMalformed => "malformed pattern"
  | patternCount => "the repetition number is too large"
  | noMember owner member =>
    Text.quoted owner ++ " object has no attribute " ++ Text.quoted member
  | textRequired operation found =>
    "descriptor " ++ Text.quoted operation ++ " for 'str' objects doesn't apply to a " ++
      Text.quoted found ++ " object"
  | notObjectSchema => "Schema must be an ObjectSchema"
  | fieldUnnamed => "keywords must be strings"
  | pluginTaken name => "Plugin \"" ++ name ++ "\" is already registered"
  | pathEmpty => "pop from empty list"
  | awaitRequired entry =>
    "Schema requires asynchronous validation; use parse_async() instead of " ++ entry.name ++ "()"
  | rejected errors => ErrorRecord.summary errors
  | tooManyDigits =>
    "Exceeds the limit (" ++ Decimal.text integerDigitLimit ++ " digits) for integer string " ++
      "conversion; use sys.set_int_max_str_digits() to increase the limit"
  | uncopyable found => "cannot pickle " ++ Text.quoted found ++ " object"
  | bytesPattern => "cannot use a bytes pattern on a string-like object"
  | exhausted => "maximum recursion depth exceeded"

end Fault

/-- A text that is written, unless something in it is not. -/
def written (writable : Bool) (text : String) : Except Fault String :=
  if writable then .ok text else .error .tooManyDigits

@[simp] theorem written_true (text : String) : written true text = .ok text := rfl

@[simp] theorem written_false (text : String) : written false text = .error .tooManyDigits := rfl

/-- Writing fails in one way only. -/
theorem eq_tooManyDigits_of_written {writable : Bool} {text : String} {f : Fault}
    (h : written writable text = .error f) : f = .tooManyDigits := by
  cases writable with
  | true => cases h
  | false =>
      cases h
      rfl

end Conform
