import Conform.Number.Shortest
import Conform.Text.Quoted
import Conform.Value.Basic

/-!
# Values as text

Two texts of a value are used in messages. The **literal** shows what a
value is: texts are quoted, containers show their items in brackets, and a
container inside itself is shown as dots. The **plain text** of a text is
the text, that of a date or moment its written form; everything else is
shown by its literal.

These texts are those of any value. Whether a text is put together at all is
another question: an integer of too many digits is not written, and neither is
anything that would show one. `isWritable` says so of atoms, keys and values.
-/

namespace Conform

/-- Joins texts with a separator. -/
def joinWith (separator : String) (parts : List String) : String :=
  String.intercalate separator parts

/-- The literal of an offset from universal time. Whole days are counted
downwards, so that the seconds and the microseconds are never negative. -/
def offsetLiteral (offset : Int) : String :=
  if offset = 0 then "datetime.timezone.utc"
  else
    let parts := [("days=", offset.fdiv 86400000000),
      ("seconds=", (offset.fdiv 1000000).fmod 86400), ("microseconds=", offset.fmod 1000000)]
    let shown := (parts.filter (·.2 != 0)).map fun (name, n) => name ++ Decimal.text n
    "datetime.timezone(datetime.timedelta(" ++ joinWith ", " shown ++ "))"

/-- The literal of a moment; seconds and microseconds are left out from the
end while they are zero. -/
def Moment.literal (m : Moment) : String :=
  let fields := [m.date.year, m.date.month, m.date.day, m.hour, m.minute] ++
    (if m.micro != 0 then [m.second, m.micro] else if m.second != 0 then [m.second] else [])
  let offset := match m.offset with
    | some o => ["tzinfo=" ++ offsetLiteral o]
    | none => []
  "datetime.datetime(" ++
    joinWith ", " (fields.map (fun n => Decimal.text (n : Nat)) ++ offset) ++ ")"

/-- The literal of a date. -/
def Date.literal (d : Date) : String :=
  "datetime.date(" ++
    joinWith ", " ([d.year, d.month, d.day].map fun n => Decimal.text (n : Nat)) ++ ")"

/-- The literal of an atom. -/
def Atom.literal : Atom → String
  | null => "None"
  | bool true => "True"
  | bool false => "False"
  | int n => Decimal.text n
  | float x => x.text
  | text s => Text.quoted s
  | date d => d.literal
  | moment m => m.literal
  | bytes bs => Text.quotedBytes bs
  | token kind _ _ => "<__main__." ++ kind ++ " object>"
  | missing => "MISSING"
  | invalid => "INVALID"

/-- The plain text of an atom. -/
def Atom.plain : Atom → String
  | text s => s
  | date d => d.text
  | moment m => m.textWith ' '
  | missing => "_Marker.MISSING"
  | invalid => "_Marker.INVALID"
  | a => a.literal

/-- Whether an atom is written. -/
def Atom.isWritable : Atom → Bool
  | int n => Decimal.isWritable n
  | _ => true

/-- Items in the brackets of a tuple; a single item keeps its comma. -/
def tupleLiteral : List String → String
  | [item] => "(" ++ item ++ ",)"
  | items => "(" ++ joinWith ", " items ++ ")"

/-- Items in the brackets of a list. -/
def listLiteral (items : List String) : String := "[" ++ joinWith ", " items ++ "]"

/-- Entries in the braces of a mapping. -/
def mappingLiteral (entries : List (String × String)) : String :=
  "\x7b" ++ joinWith ", " (entries.map fun (k, v) => k ++ ": " ++ v) ++ "\x7d"

namespace Key

mutual

/-- The literal of a key. -/
def literal : Key → String
  | atom a => a.literal
  | tuple ks => tupleLiteral (literals ks)

/-- The literals of a run of keys. -/
def literals : List Key → List String
  | [] => []
  | k :: ks => k.literal :: literals ks

end

/-- The plain text of a key. -/
def plain : Key → String
  | atom a => a.plain
  | k => k.literal

mutual

/-- Whether a key is written. -/
def isWritable : Key → Bool
  | atom a => a.isWritable
  | tuple ks => allWritable ks

/-- Whether all keys of a run are written. -/
def allWritable : List Key → Bool
  | [] => true
  | k :: ks => k.isWritable && allWritable ks

end

end Key

namespace Store

/-- How deep a value is followed when it is shown. -/
def shownDepth : Nat := 10000

/-- The literal of a value, inside the shared containers of `enclosing`. -/
def literalWithin (s : Store) : Nat → List Identity → Value → String
  | 0, _, _ => "..."
  | depth + 1, enclosing, v =>
    match v, s.contents? v with
    | .atom a, _ => a.literal
    | _, none => ""
    | _, some c =>
      let again := v.identity?.any enclosing.contains
      let inside := v.identity?.toList ++ enclosing
      match c with
      | .list items =>
        if again then "[...]" else listLiteral (items.map (s.literalWithin depth inside))
      | .tuple items =>
        if again then "(...)" else tupleLiteral (items.map (s.literalWithin depth inside))
      | .mapping readOnly entries =>
        if again then "\x7b...\x7d"
        else
          let body := mappingLiteral
            (entries.map fun (k, item) => (k.literal, s.literalWithin depth inside item))
          if readOnly then "mappingproxy(" ++ body ++ ")" else body

/-- The literal of a value. -/
def literal (s : Store) (v : Value) : String := s.literalWithin shownDepth [] v

/-- The plain text of a value. -/
def plain (s : Store) (v : Value) : String :=
  match v with
  | .atom a => a.plain
  | v => s.literal v

/-- Whether a value is written, inside the shared containers of `enclosing`:
whether everything is that its literal shows. -/
def isWritableWithin (s : Store) : Nat → List Identity → Value → Bool
  | 0, _, _ => true
  | depth + 1, enclosing, v =>
    match v, s.contents? v with
    | .atom a, _ => a.isWritable
    | _, none => true
    | _, some c =>
      let again := v.identity?.any enclosing.contains
      let inside := v.identity?.toList ++ enclosing
      match c with
      | .list items => again || items.all (s.isWritableWithin depth inside)
      | .tuple items => again || items.all (s.isWritableWithin depth inside)
      | .mapping _ entries =>
        again || entries.all fun (k, item) =>
          k.isWritable && s.isWritableWithin depth inside item

/-- Whether a value is written. -/
def isWritable (s : Store) (v : Value) : Bool := s.isWritableWithin shownDepth [] v

end Store

end Conform
