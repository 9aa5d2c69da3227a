import Conform.Number.Decimal

/-!
# Numeric host addresses

The written forms of the two kinds of numeric host address: four decimal
octets between points, and up to eight hexadecimal groups between colons,
where one run of zero groups may be left out and the last two groups may be
written as octets.
-/

namespace Conform.Locator

/-- Cuts a text at every occurrence of a character; the pieces are never
fewer than one. -/
def splitAtEach (mark : Char) : List Char → List (List Char)
  | [] => [[]]
  | c :: cs =>
    match splitAtEach mark cs with
    | piece :: pieces => if c = mark then [] :: piece :: pieces else (c :: piece) :: pieces
    | [] => [[c]]

/-- Whether a character is a hexadecimal digit. -/
def isHexDigit (c : Char) : Bool :=
  c.isDigit || ('a' ≤ c && c ≤ 'f') || ('A' ≤ c && c ≤ 'F')

/-- One to three decimal digits without a leading zero, at most 255. -/
def isOctet (cs : List Char) : Bool :=
  !cs.isEmpty && cs.all Char.isDigit && cs.length ≤ 3 && (cs = ['0'] || cs.head? != some '0') &&
    Decimal.value cs ≤ 255

/-- Four octets between points. -/
def isOctetAddress (cs : List Char) : Bool :=
  let octets := splitAtEach '.' cs
  octets.length = 4 && octets.all isOctet

/-- One to four hexadecimal digits. -/
def isGroup (cs : List Char) : Bool := !cs.isEmpty && cs.all isHexDigit && cs.length ≤ 4

/-- The groups of an address, with octets at the end counted as two groups;
`none` if the octets are no address. -/
def groups? (cs : List Char) : Option (List (List Char)) :=
  let parts := splitAtEach ':' cs
  if parts.length < 3 then none
  else
    match parts.getLast? with
    | some final =>
      if final.contains '.' then
        if isOctetAddress final then some (parts.dropLast ++ [['0'], ['0']]) else none
      else some parts
    | none => none

/-- Whether groups, split at the place of the run that is left out, are a
whole address. The ends may be empty only next to that run. -/
def isElided (front back : List (List Char)) : Bool :=
  let high := if front.head? = some [] then [] else front
  let low := if back.getLast? = some [] then [] else back
  (front.head? != some [] || front.length = 1) &&
    (back.getLast? != some [] || back.length = 1) &&
    high.length + low.length < 8 && high.all isGroup && low.all isGroup

/-- Whether a text is an address of groups, apart from a zone. -/
def isGroupAddress (cs : List Char) : Bool :=
  match groups? cs with
  | none => false
  | some parts =>
    let inner := (parts.drop 1).dropLast
    if 9 < parts.length then false
    else
      match inner.findIdx? (·.isEmpty) with
      | some i =>
        (inner.drop (i + 1)).all (!·.isEmpty) && isElided (parts.take (i + 1)) (parts.drop (i + 2))
      | none => parts.length = 8 && parts.all isGroup

/-- Whether a text is an address of groups, perhaps with a zone after a
percent sign. -/
def isZonedGroupAddress (cs : List Char) : Bool :=
  match cs.dropWhile (· != '%') with
  | [] => isGroupAddress cs
  | _ :: zone => isGroupAddress (cs.takeWhile (· != '%')) && !zone.isEmpty && !zone.contains '%'

end Conform.Locator
