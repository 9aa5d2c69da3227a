import Conform.Report.Code
import Conform.Value.Display

/-!
# Error records

A check that fails leaves an `ErrorRecord`: the path of the place, a
message, a code, and details under names. A detail is a value of the
checked data, or the error records of alternatives that failed, one group
for each.

`summary` and `flatten` are the two views of a list of records: a text with
one line for each error, and the messages grouped by the dotted path. Both
write the paths, so they are views of records whose paths can be written.
-/

namespace Conform

/-- One failure at one place; `δ` is the type of its details. -/
structure RecordOf (δ : Type) where
  path : Path
  message : Option String
  code : Code
  details : Option (List (Key × δ))

/-- What an error record tells beside its message. -/
inductive Detail where
  | value (v : Value)
  | failures (groups : List (List (RecordOf Detail)))

/-- One failure at one place. -/
abbrev ErrorRecord := RecordOf Detail

/-- The details of an error record. -/
abbrev Details := Entries Detail

instance : Inhabited ErrorRecord := ⟨⟨[], none, .custom "", none⟩⟩

/-- A path as one text, its keys joined by points. -/
def Path.dotted (p : Path) : String :=
  match p with
  | [] => "root"
  | p => joinWith "." (p.map Key.plain)

namespace ErrorRecord

/-- The message as text. -/
def messageText (e : ErrorRecord) : String := e.message.getD "None"

/-- Whether two records tell of the same failure; details do not count. -/
def same (a b : ErrorRecord) : Bool :=
  Key.sameAll a.path b.path && a.message = b.message && a.code.text = b.code.text

/-- The line of a record. -/
def line (e : ErrorRecord) : String := Path.dotted e.path ++ ": " ++ e.messageText

/-- Whether the paths of records are written. -/
def areWritable (es : List ErrorRecord) : Bool := es.all fun e => Key.allWritable e.path

/-- One line for each record. -/
def lines (es : List ErrorRecord) : String := joinWith "\n" (es.map line)

/-- The text of a list of records: how many there are, then one line each. -/
def summary (es : List ErrorRecord) : String :=
  match es with
  | [] => "Validation failed"
  | es =>
    "Validation failed with " ++ Decimal.text es.length ++
      (if es.length = 1 then " error" else " errors") ++ ":\n" ++ lines es

/-- Adds a message to the group of a dotted path. -/
def addMessage (groups : List (String × List (Option String))) (path : String)
    (message : Option String) : List (String × List (Option String)) :=
  match groups with
  | [] => [(path, [message])]
  | (p, ms) :: rest =>
    if p = path then (p, ms ++ [message]) :: rest else (p, ms) :: addMessage rest path message

/-- The messages grouped by dotted path, in the order in which paths and
messages were met. -/
def flatten (es : List ErrorRecord) : List (String × List (Option String)) :=
  es.foldl (fun groups e => addMessage groups (Path.dotted e.path) e.message) []

end ErrorRecord

namespace Code

/-- The literal of a code. -/
def literal : Code → String
  | builtin c => "<ErrorCodes." ++ c.constant ++ ": " ++ Text.quoted c.text ++ ">"
  | custom s => Text.quoted s

end Code

mutual

/-- The literal of a detail. -/
def Detail.literal (s : Store) : Detail → String
  | .value v => s.literal v
  | .failures groups => listLiteral (groupsLiterals s groups)

/-- The literals of groups of records. -/
def Detail.groupsLiterals (s : Store) : List (List (RecordOf Detail)) → List String
  | [] => []
  | g :: gs => listLiteral (recordsLiterals s g) :: groupsLiterals s gs

/-- The literals of records. -/
def Detail.recordsLiterals (s : Store) : List (RecordOf Detail) → List String
  | [] => []
  | e :: es => recordLiteral s e :: recordsLiterals s es

/-- The literal of a record. -/
def Detail.recordLiteral (s : Store) : RecordOf Detail → String
  | ⟨path, message, code, details⟩ =>
    "ValidationErrorData(path=" ++ tupleLiteral (Key.literals path) ++
      ", message=" ++ (message.map Text.quoted).getD "None" ++
      ", code=" ++ code.literal ++ ", meta=" ++ detailsLiteral s details ++ ")"

/-- The literal of the details of a record. -/
def Detail.detailsLiteral (s : Store) : Option (List (Key × Detail)) → String
  | none => "None"
  | some ds => mappingLiteral (entriesLiterals s ds)

/-- The literals of details with their names. -/
def Detail.entriesLiterals (s : Store) : List (Key × Detail) → List (String × String)
  | [] => []
  | (k, d) :: ds => (k.literal, Detail.literal s d) :: entriesLiterals s ds

end

/-- The plain text of a detail. -/
def Detail.plain (s : Store) : Detail → String
  | .value v => s.plain v
  | d => d.literal s

mutual

/-- Whether a detail is written. -/
def Detail.isWritable (s : Store) : Detail → Bool
  | .value v => s.isWritable v
  | .failures groups => groupsWritable s groups

/-- Whether groups of records are written. -/
def Detail.groupsWritable (s : Store) : List (List (RecordOf Detail)) → Bool
  | [] => true
  | g :: gs => recordsWritable s g && groupsWritable s gs

/-- Whether records are written. -/
def Detail.recordsWritable (s : Store) : List (RecordOf Detail) → Bool
  | [] => true
  | e :: es => recordWritable s e && recordsWritable s es

/-- Whether a record is written, with its path and its details. -/
def Detail.recordWritable (s : Store) : RecordOf Detail → Bool
  | ⟨path, _, _, details⟩ => Key.allWritable path && detailsWritable s details

/-- Whether the details of a record are written. -/
def Detail.detailsWritable (s : Store) : Option (List (Key × Detail)) → Bool
  | none => true
  | some ds => entriesWritable s ds

/-- Whether details are written with their names. -/
def Detail.entriesWritable (s : Store) : List (Key × Detail) → Bool
  | [] => true
  | (k, d) :: ds => k.isWritable && Detail.isWritable s d && entriesWritable s ds

end

/-- Whether a detail is null. -/
def Detail.isNull : Detail → Bool
  | .value .null => true
  | _ => false

end Conform
