import Conform.Locator.Ip
import Conform.Text.Ranges

/-!
# Locators of network resources

A text is a locator if it has a scheme before a colon and, after two
slashes, an authority that is not empty. What follows the authority is not
looked at.

Three things make an authority unusable: a lone bracket, brackets that do
not enclose the whole host or do not hold a numeric address, and a
character outside ASCII that would turn into a delimiter when the text is
normalised.
-/

namespace Conform.Locator

/-- Code points whose compatibility form holds one of the delimiters. -/
def delimiterLikeRanges : List (Nat × Nat) :=
  [(0x2047, 0x2049), (0x2100, 0x2101), (0x2105, 0x2106), (0x2a74, 0x2a74),
   (0xfe13, 0xfe13), (0xfe16, 0xfe16), (0xfe55, 0xfe56), (0xfe5f, 0xfe5f),
   (0xfe6b, 0xfe6b), (0xff03, 0xff03), (0xff0f, 0xff0f), (0xff1a, 0xff1a),
   (0xff1f, 0xff20)]

/-- Drops leading controls and spaces, and every tab and line break. -/
def clean (cs : List Char) : List Char :=
  (cs.dropWhile (·.toNat ≤ 0x20)).filter fun c => !(c = '\t' || c = '\n' || c = '\r')

/-- Whether a character is an ASCII letter. -/
def isAsciiLetter (c : Char) : Bool := ('a' ≤ c && c ≤ 'z') || ('A' ≤ c && c ≤ 'Z')

/-- Whether a character may stand in a scheme. -/
def isSchemeChar (c : Char) : Bool :=
  isAsciiLetter c || c.isDigit || c = '+' || c = '-' || c = '.'

/-- Whether a text is a scheme. -/
def isScheme (cs : List Char) : Bool := cs.head?.any isAsciiLetter && cs.all isSchemeChar

/-- The text after the scheme and its colon, if there is a scheme. -/
def afterScheme? (cs : List Char) : Option (List Char) :=
  match cs.dropWhile (· != ':') with
  | ':' :: rest => if isScheme (cs.takeWhile (· != ':')) then some rest else none
  | _ => none

/-- The authority: what stands after two slashes, up to the path, the query
or the fragment. -/
def authority : List Char → List Char
  | '/' :: '/' :: rest => rest.takeWhile fun c => !(c = '/' || c = '?' || c = '#')
  | _ => []

/-- What follows the last occurrence of a character, or all. -/
def afterLast (mark : Char) (cs : List Char) : List Char :=
  (cs.reverse.takeWhile (· != mark)).reverse

/-- Whether a text is an address of a future version, `vHEX.anything`. -/
def isFutureAddress : List Char → Bool
  | 'v' :: cs =>
    !(cs.takeWhile isHexDigit).isEmpty &&
      match cs.dropWhile isHexDigit with
      | '.' :: rest => !rest.isEmpty
      | _ => false
  | _ => false

/-- Whether a text may stand between brackets. -/
def isBracketedHost (cs : List Char) : Bool :=
  if cs.head? = some 'v' then isFutureAddress cs else isZonedGroupAddress cs

/-- Whether the brackets of an authority enclose a host. -/
def bracketsHold (auth : List Char) : Bool :=
  let host := afterLast '@' auth
  match host.dropWhile (· != '[') with
  | '[' :: inside =>
    let after := (inside.dropWhile (· != ']')).drop 1
    host.head? = some '[' && (after.isEmpty || after.head? = some ':') &&
      isBracketedHost (inside.takeWhile (· != ']'))
  | _ => isBracketedHost (host.takeWhile (· != ':'))

/-- Whether an authority can be used. -/
def isUsable (auth : List Char) : Bool :=
  (match auth.contains '[', auth.contains ']' with
    | true, true => bracketsHold auth
    | false, false => true
    | _, _ => false) &&
    auth.all fun c => !Text.inRanges delimiterLikeRanges c.toNat

/-- Whether a text is a locator: a scheme and an authority that can be used. -/
def isLocator (s : String) : Bool :=
  match afterScheme? (clean s.toList) with
  | none => false
  | some rest => !(authority rest).isEmpty && isUsable (authority rest)

end Conform.Locator
