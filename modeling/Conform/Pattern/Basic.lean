import Conform.Text.Blank
import Conform.Text.Word
import Conform.Text.Case

/-!
# Text patterns

A pattern describes a set of texts: literal characters, sets of
characters, anchors, sequences, alternatives and counted repetitions.

## Matching

A place in a text is the number of characters before it. `Node.reach` takes
a set of places to the set of places where a match that starts at one of
them may end. Whether a repetition prefers many rounds or few makes no
difference to that set, so a node does not say.

Sets of places are ascending lists. No repetition runs more rounds than
there are places, and each round looks only at places that are new, so the
search takes polynomial time.

* `Pattern.search` asks for a match anywhere in a text.
* `Pattern.matchStart` asks for a match at the start of a text.
* `Pattern.fullMatch` asks for a match of a whole text.
-/

namespace Conform

namespace Pattern

/-- What modifies the meaning of a whole pattern. None of it changes how the pattern
is read, so the source of a pattern can be read again on its own. -/
structure Flags where
  /-- Letters match without regard to case. -/
  ignoreCase : Bool := false
  /-- Line anchors match at every line, not only at the ends of the text. -/
  multiline : Bool := false
  /-- The wild card matches line breaks too. -/
  dotAll : Bool := false
  deriving DecidableEq, Repr, Inhabited

/-- The named classes of characters. -/
inductive CharClass where
  | digit
  | space
  | word
  deriving DecidableEq, Repr

/-- Whether a character belongs to a named class. -/
def CharClass.holds : CharClass → Char → Bool
  | digit, c => Text.isDecimalDigit c
  | space, c => Text.isBlank c
  | word, c => Text.isWordChar c

/-- A member of a set of characters. -/
inductive SetItem where
  | char (c : Char)
  | range (low high : Char)
  | named (negated : Bool) (k : CharClass)
  deriving DecidableEq, Repr

/-- Conditions on a place in a text. -/
inductive Anchor where
  | lineStart
  | lineEnd
  | textStart
  | textEnd
  | wordEdge
  | notWordEdge
  deriving DecidableEq, Repr

/-- The structure of a pattern. -/
inductive Node where
  | empty
  | char (c : Char)
  | anyChar
  | oneOf (negated : Bool) (items : List SetItem)
  | anchor (a : Anchor)
  | seq (first second : Node)
  | alt (first second : Node)
  | times (body : Node) (least : Nat) (most : Option Nat)
  deriving Repr, Inhabited

/-- Whether a single item holds a character. -/
def SetItem.holds : SetItem → Char → Bool
  | char a, c => c = a
  | range low high, c => low ≤ c && c ≤ high
  | named negated k, c => k.holds c != negated

/-- The characters of a range, from `low` on. -/
def rangeChars (low high : Char) : List Char :=
  (List.range (high.toNat + 1 - low.toNat)).map fun i => Char.ofNat (low.toNat + i)

/-- Whether a single item holds a folded character when case is ignored. -/
def SetItem.holdsFolded : SetItem → Char → Bool
  | char a, c => (Text.foldClass a).contains c
  | range low high, c => (rangeChars low high).any fun a => (Text.foldClass a).contains c
  | named negated k, c => k.holds c != negated

/-- Whether an item holds a letter that has case. -/
def SetItem.hasCase : SetItem → Bool
  | char a => Text.hasCase a
  | range low high => (rangeChars low high).any Text.hasCase
  | named _ _ => false

/-- Whether a literal matches a character. -/
def matchesChar (f : Flags) (a c : Char) : Bool :=
  if f.ignoreCase && Text.hasCase a then (Text.foldClass a).contains (Text.foldChar c)
  else c = a

/-- Whether a set matches a character. -/
def matchesSet (f : Flags) (negated : Bool) (items : List SetItem) (c : Char) : Bool :=
  if f.ignoreCase && items.any SetItem.hasCase then
    items.any (·.holdsFolded (Text.foldChar c)) != negated
  else items.any (·.holds c) != negated

/-- The character before a place. -/
def charBefore (text : Array Char) (p : Nat) : Option Char :=
  if p = 0 then none else text[p - 1]?

/-- Whether exactly one side of a place is a word character. -/
def isWordEdge (text : Array Char) (p : Nat) : Bool :=
  (charBefore text p).any Text.isWordChar != text[p]?.any Text.isWordChar

/-- Whether an anchor holds at a place. In an empty text there is neither a
word edge nor its opposite. -/
def Anchor.holds (f : Flags) (text : Array Char) (p : Nat) : Anchor → Bool
  | lineStart => p = 0 || (f.multiline && charBefore text p = some '\n')
  | lineEnd =>
    p = text.size || (p + 1 = text.size && text[p]? = some '\n') ||
      (f.multiline && text[p]? = some '\n')
  | textStart => p = 0
  | textEnd => p = text.size
  | wordEdge => isWordEdge text p
  | notWordEdge => !text.isEmpty && !isWordEdge text p

/-- The places after a character that a test accepts. -/
def passIf (text : Array Char) (accepts : Char → Bool) (ps : List Nat) : List Nat :=
  ps.filterMap fun p => if text[p]?.any accepts then some (p + 1) else none

/-- The union of two ascending lists. -/
def union : List Nat → List Nat → List Nat
  | [], qs => qs
  | p :: ps, qs =>
    let rest := qs.dropWhile (· < p)
    qs.takeWhile (· < p) ++ p :: union ps (if rest.head? = some p then rest.tail else rest)

/-- The members of an ascending list that are not in another. -/
def without : List Nat → List Nat → List Nat
  | [], _ => []
  | p :: ps, qs =>
    let rest := qs.dropWhile (· < p)
    if rest.head? = some p then without ps rest.tail else p :: without ps rest

/-- Exactly `k` rounds of a step. -/
def rounds (step : List Nat → List Nat) : Nat → List Nat → List Nat
  | 0, ps => ps
  | k + 1, ps => if ps.isEmpty then [] else rounds step k (step ps)

/-- At most `k` more rounds of a step, keeping what was seen; `fresh` is what
the last round added. -/
def closure (step : List Nat → List Nat) : Nat → List Nat → List Nat → List Nat
  | 0, seen, _ => seen
  | k + 1, seen, fresh =>
    let new := without (step fresh) seen
    if new.isEmpty then seen else closure step k (union seen new) new

/-- The places where a match that starts at one of the given places may
end. -/
def Node.reach (f : Flags) (text : Array Char) : Node → List Nat → List Nat
  | empty, ps => ps
  | char a, ps => passIf text (matchesChar f a) ps
  | anyChar, ps => passIf text (fun c => f.dotAll || c != '\n') ps
  | oneOf negated items, ps => passIf text (matchesSet f negated items) ps
  | anchor a, ps => ps.filter fun p => a.holds f text p
  | seq r s, ps => s.reach f text (r.reach f text ps)
  | alt r s, ps => union (r.reach f text ps) (s.reach f text ps)
  | times r least most, ps =>
    let places := text.size + 1
    let base := rounds (r.reach f text) (min least places) ps
    match most with
    | none => closure (r.reach f text) places base base
    | some m => closure (r.reach f text) (min (m - least) places) base base

end Pattern

/-- A pattern that has been read: its text, its flags and its structure. -/
structure Pattern where
  source : String
  flags : Pattern.Flags
  node : Pattern.Node
  deriving Repr, Inhabited

namespace Pattern

/-- Whether the pattern matches anywhere in a text. -/
def search (p : Pattern) (s : String) : Bool :=
  let text := s.toList.toArray
  !(p.node.reach p.flags text (List.range (text.size + 1))).isEmpty

/-- Whether the pattern matches at the start of a text. -/
def matchStart (p : Pattern) (s : String) : Bool :=
  !(p.node.reach p.flags s.toList.toArray [0]).isEmpty

/-- Whether the pattern matches a whole text. -/
def fullMatch (p : Pattern) (s : String) : Bool :=
  let text := s.toList.toArray
  (p.node.reach p.flags text [0]).contains text.size

end Pattern

end Conform
