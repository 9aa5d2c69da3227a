import Conform.Pattern.Basic

/-!
# Reading patterns

The written form of a pattern: literals, `.`, sets in brackets, groups,
alternatives with `|`, the repetitions `* + ? {m} {m,} {m,n}`, anchors, and
escapes after a backslash. A repetition may be followed by `?`, which only
states a preference.

This is less than patterns can be elsewhere. There is no flag under which blanks
and comments in a pattern are skipped, or under which the named classes hold
ASCII only; and flags inside a pattern, looking ahead or behind, references back
to groups, conditions, and groups or repetitions that give nothing back are
refused. What is said of patterns is said of those that are read here.

A pattern that breaks the rules is refused. `Pattern.read` says no more
about why, with one exception: a repetition count that is too large to be
counted is a refusal of its own.

The readers are recursive over the text that is left. As each of them
passes at least one character before the next is called, the length of the
pattern bounds their depth, and that is the fuel they are given.
-/

namespace Conform.Pattern

/-- Why a text is no pattern. -/
inductive Refusal where
  /-- The text breaks the rules for writing patterns. -/
  | malformed
  /-- A repetition count is too large. -/
  | countTooLarge
  deriving DecidableEq, Repr

/-- Counts from here on are too large. -/
def countLimit : Nat := Nat.pow 2 32 - 1

/-- What an escape stands for. -/
inductive Escape where
  | char (c : Char)
  | named (negated : Bool) (k : CharClass)
  | anchor (a : Anchor)

/-- A sequence element, with what decides whether it may be repeated. -/
structure Piece where
  node : Node
  isAnchor : Bool := false
  isRepeated : Bool := false

/-- The names of the groups that have been opened. -/
abbrev Names := List String

/-- The value of a hexadecimal digit. -/
def hexValue? (c : Char) : Option Nat :=
  if '0' ≤ c ∧ c ≤ '9' then some (c.toNat - 48)
  else if 'a' ≤ c ∧ c ≤ 'f' then some (c.toNat - 87)
  else if 'A' ≤ c ∧ c ≤ 'F' then some (c.toNat - 55)
  else none

/-- Whether a character is an octal digit. -/
def isOctal (c : Char) : Bool := '0' ≤ c && c ≤ '7'

/-- Whether a character is an ASCII letter. -/
def isLetter (c : Char) : Bool := ('a' ≤ c && c ≤ 'z') || ('A' ≤ c && c ≤ 'Z')

/-- Takes at most `n` characters that a test accepts. -/
def takeUpTo (n : Nat) (p : Char → Bool) (cs : List Char) : List Char :=
  (cs.take n).takeWhile p

/-- A character by its code, unless there is none. -/
def charOfCode (n : Nat) : Except Refusal Char :=
  if n.isValidChar then .ok (Char.ofNat n) else .error .malformed

/-- A character written with exactly `n` hexadecimal digits. -/
def hexEscape (n : Nat) (cs : List Char) : Except Refusal (Escape × List Char) :=
  let ds := takeUpTo n (hexValue? · |>.isSome) cs
  if ds.length = n then do
    let c ← charOfCode (ds.foldl (fun k d => 16 * k + (hexValue? d).getD 0) 0)
    return (.char c, cs.drop n)
  else .error .malformed

/-- The value of a run of octal digits. -/
def octalValue (ds : List Char) : Nat := ds.foldl (fun k d => 8 * k + (d.toNat - 48)) 0

/-- A character written with octal digits, at most `0o377`. -/
def octalEscape (ds rest : List Char) : Except Refusal (Escape × List Char) :=
  let n := octalValue ds
  if 0o377 < n then .error .malformed else .ok (.char (Char.ofNat n), rest)

/-- The escapes that mean the same inside and outside a set. -/
def sharedEscape? : Char → Option Escape
  | 'a' => some (.char '\x07')
  | 'f' => some (.char '\x0c')
  | 'n' => some (.char '\n')
  | 'r' => some (.char '\r')
  | 't' => some (.char '\t')
  | 'v' => some (.char '\x0b')
  | '\\' => some (.char '\\')
  | 'd' => some (.named false .digit)
  | 'D' => some (.named true .digit)
  | 's' => some (.named false .space)
  | 'S' => some (.named true .space)
  | 'w' => some (.named false .word)
  | 'W' => some (.named true .word)
  | _ => none

/-- Reads what follows a backslash outside a set. -/
def readEscape : List Char → Except Refusal (Escape × List Char)
  | [] => .error .malformed
  | c :: cs =>
    match sharedEscape? c with
    | some e => .ok (e, cs)
    | none =>
      match c with
      | 'A' => .ok (.anchor .textStart, cs)
      | 'Z' => .ok (.anchor .textEnd, cs)
      | 'b' => .ok (.anchor .wordEdge, cs)
      | 'B' => .ok (.anchor .notWordEdge, cs)
      | 'x' => hexEscape 2 cs
      | 'u' => hexEscape 4 cs
      | 'U' => hexEscape 8 cs
      | '0' =>
        let ds := takeUpTo 2 isOctal cs
        octalEscape ds (cs.drop ds.length)
      | c =>
        if isOctal c then
          let ds := takeUpTo 2 isOctal cs
          if ds.length = 2 then octalEscape (c :: ds) (cs.drop 2) else .error .malformed
        else if c.isDigit || isLetter c then .error .malformed
        else .ok (.char c, cs)

/-- Reads what follows a backslash inside a set. -/
def readSetEscape : List Char → Except Refusal (SetItem × List Char)
  | [] => .error .malformed
  | c :: cs =>
    let item : Escape × List Char → Except Refusal (SetItem × List Char)
      | (.char a, rest) => .ok (.char a, rest)
      | (.named negated k, rest) => .ok (.named negated k, rest)
      | (.anchor _, _) => .error .malformed
    match sharedEscape? c with
    | some e => item (e, cs)
    | none =>
      match c with
      | 'b' => .ok (.char '\x08', cs)
      | 'x' => hexEscape 2 cs >>= item
      | 'u' => hexEscape 4 cs >>= item
      | 'U' => hexEscape 8 cs >>= item
      | c =>
        if isOctal c then
          let ds := takeUpTo 2 isOctal cs
          octalEscape (c :: ds) (cs.drop ds.length) >>= item
        else if c.isDigit || isLetter c then .error .malformed
        else .ok (.char c, cs)

/-- Reads one end of a range, or a lone item. -/
def readSetItem : List Char → Except Refusal (SetItem × List Char)
  | [] => .error .malformed
  | '\\' :: cs => readSetEscape cs
  | c :: cs => .ok (.char c, cs)

/-- Reads the items of a set up to the closing bracket. A bracket that comes
first is an item. -/
def readSet : Nat → List SetItem → List Char → Except Refusal (List SetItem × List Char)
  | 0, _, _ => .error .malformed
  | fuel + 1, items, cs =>
    if !items.isEmpty && cs.head? = some ']' then .ok (items.reverse, cs.tail)
    else do
      let (low, rest) ← readSetItem cs
      match rest with
      | '-' :: ']' :: rest => return ((SetItem.char '-' :: low :: items).reverse, rest)
      | '-' :: rest =>
        let (high, rest) ← readSetItem rest
        match low, high with
        | .char a, .char b =>
          if b < a then .error .malformed else readSet fuel (.range a b :: items) rest
        | _, _ => .error .malformed
      | rest => readSet fuel (low :: items) rest

/-- Reads the inside of a counted repetition, after the opening brace. `none`
means that the brace stands for itself. -/
def readCounts (cs : List Char) :
    Except Refusal (Option (Nat × Option Nat × List Char)) :=
  let low := cs.takeWhile Char.isDigit
  let afterLow := cs.dropWhile Char.isDigit
  let (high, rest) :=
    match afterLow with
    | ',' :: more => (more.takeWhile Char.isDigit, more.dropWhile Char.isDigit)
    | rest => (low, rest)
  let count (ds : List Char) : Nat := ds.foldl (fun k d => 10 * k + (d.toNat - 48)) 0
  match cs.head?, rest with
  | some '}', _ => .ok none
  | _, '}' :: rest =>
    let least := count low
    if countLimit ≤ least then .error .countTooLarge
    else if high.isEmpty then .ok (some (least, none, rest))
    else if countLimit ≤ count high then .error .countTooLarge
    else if count high < least then .error .malformed
    else .ok (some (least, some (count high), rest))
  | _, _ => .ok none

/-- The repetition that stands at the head of a text, if one does. -/
def readRepetition : List Char → Except Refusal (Option (Nat × Option Nat × List Char))
  | '*' :: cs => .ok (some (0, none, cs))
  | '+' :: cs => .ok (some (1, none, cs))
  | '?' :: cs => .ok (some (0, some 1, cs))
  | '{' :: cs => readCounts cs
  | _ => .ok none

/-- Repeats the last piece, if it may be repeated. Pieces are in reverse. -/
def repeatLast (pieces : List Piece) (least : Nat) (most : Option Nat) :
    Except Refusal (List Piece) :=
  match pieces with
  | [] => .error .malformed
  | p :: rest =>
    if p.isAnchor || p.isRepeated then .error .malformed
    else .ok ({ node := .times p.node least most, isRepeated := true } :: rest)

/-- The sequence of pieces given in reverse. -/
def joinPieces (pieces : List Piece) : Node :=
  match pieces.map Piece.node with
  | [] => .empty
  | n :: ns => ns.foldl (fun acc m => .seq m acc) n

/-- Whether a text may name a group. -/
def isGroupName (cs : List Char) : Bool :=
  match cs with
  | [] => false
  | c :: _ => cs.all Text.isWordChar && !Text.isDecimalDigit c

/-- Reads what opens a group, after the parenthesis: nothing, the mark of a
group that is not kept, or a name. -/
def readGroupOpening (names : Names) : List Char → Except Refusal (Names × List Char)
  | '?' :: ':' :: cs => .ok (names, cs)
  | '?' :: 'P' :: '<' :: cs =>
    let name := cs.takeWhile (· != '>')
    let text := String.ofList name
    match cs.dropWhile (· != '>') with
    | _ :: rest =>
      if isGroupName name && !names.contains text then .ok (text :: names, rest)
      else .error .malformed
    | [] => .error .malformed
  | '?' :: _ => .error .malformed
  | cs => .ok (names, cs)

/-- The piece an escape stands for. -/
def Escape.piece : Escape → Piece
  | char c => { node := .char c }
  | named negated k => { node := .oneOf false [.named negated k] }
  | anchor a => { node := .anchor a, isAnchor := true }

mutual

/-- Reads alternatives up to a closing parenthesis or the end. -/
def readAlternatives : Nat → Names → List Char → Except Refusal (Node × Names × List Char)
  | 0, _, _ => .error .malformed
  | fuel + 1, names, cs => do
    let (first, names, rest) ← readSequence fuel names [] cs
    match rest with
    | '|' :: rest =>
      let (others, names, rest) ← readAlternatives fuel names rest
      return (.alt first others, names, rest)
    | rest => return (first, names, rest)

/-- Reads a sequence up to a bar, a closing parenthesis or the end, with the
pieces read so far in reverse. -/
def readSequence : Nat → Names → List Piece → List Char →
    Except Refusal (Node × Names × List Char)
  | 0, _, _, _ => .error .malformed
  | fuel + 1, names, pieces, cs => do
    match ← readRepetition cs with
    | some (least, most, rest) =>
      let pieces ← repeatLast pieces least most
      match rest with
      | '?' :: rest => readSequence fuel names pieces rest
      | rest => readSequence fuel names pieces rest
    | none =>
      match cs with
      | [] => return (joinPieces pieces, names, [])
      | '|' :: _ => return (joinPieces pieces, names, cs)
      | ')' :: _ => return (joinPieces pieces, names, cs)
      | '\\' :: cs =>
        let (e, rest) ← readEscape cs
        readSequence fuel names (e.piece :: pieces) rest
      | '.' :: rest => readSequence fuel names ({ node := .anyChar } :: pieces) rest
      | '^' :: rest =>
        readSequence fuel names ({ node := .anchor .lineStart, isAnchor := true } :: pieces) rest
      | '$' :: rest =>
        readSequence fuel names ({ node := .anchor .lineEnd, isAnchor := true } :: pieces) rest
      | '[' :: '^' :: rest =>
        let (items, rest) ← readSet (rest.length + 1) [] rest
        readSequence fuel names ({ node := .oneOf true items } :: pieces) rest
      | '[' :: rest =>
        let (items, rest) ← readSet (rest.length + 1) [] rest
        readSequence fuel names ({ node := .oneOf false items } :: pieces) rest
      | '(' :: '?' :: '#' :: rest =>
        match rest.dropWhile (· != ')') with
        | _ :: rest => readSequence fuel names pieces rest
        | [] => .error .malformed
      | '(' :: rest =>
        let (names, rest) ← readGroupOpening names rest
        let (body, names, rest) ← readAlternatives fuel names rest
        match rest with
        | ')' :: rest => readSequence fuel names ({ node := body } :: pieces) rest
        | _ => .error .malformed
      | c :: rest => readSequence fuel names ({ node := .char c } :: pieces) rest

end

/-- Whether a pattern uses an escape that only patterns of texts have. -/
def hasWideEscape : List Char → Bool
  | '\\' :: c :: cs => c = 'u' || c = 'U' || hasWideEscape cs
  | _ :: cs => hasWideEscape cs
  | [] => false

/-- Reads a whole pattern. -/
def read (source : String) (flags : Flags) : Except Refusal Pattern := do
  let cs := source.toList
  let (node, _, rest) ← readAlternatives (2 * cs.length + 2) [] cs
  if rest.isEmpty then return ⟨source, flags, node⟩ else .error .malformed

/-- Reads a pattern of bytes, a character for each byte. -/
def readBytes (bs : List UInt8) : Except Refusal Pattern :=
  let cs := bs.map fun b => Char.ofNat b.toNat
  if hasWideEscape cs then .error .malformed else read (String.ofList cs) {}

end Conform.Pattern
