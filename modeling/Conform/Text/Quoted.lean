import Conform.Text.Printable

/-!
# Quoted text

A text inside a list or a mapping is shown in quotes: single ones, unless
the text has a single quote and no double one. Inside, the backslash and
the quote are escaped, and so is every character that is not printable.
-/

namespace Conform.Text

/-- The hexadecimal digit of a number below sixteen. -/
def hexDigit (d : Nat) : Char :=
  if d < 10 then Char.ofNat (48 + d) else Char.ofNat (87 + d)

/-- The lowest `width` hexadecimal digits of a number. -/
def hexDigits : Nat → Nat → List Char
  | 0, _ => []
  | width + 1, n => hexDigits width (n / 16) ++ [hexDigit (n % 16)]

/-- The escape of a character that is not printable, in the least of the
three widths that holds it. -/
def escapeCode (n : Nat) : List Char :=
  if n < 0x100 then '\\' :: 'x' :: hexDigits 2 n
  else if n < 0x10000 then '\\' :: 'u' :: hexDigits 4 n
  else '\\' :: 'U' :: hexDigits 8 n

/-- How a character stands inside quotes. -/
def quoteChar (quote c : Char) : List Char :=
  if c = quote ∨ c = '\\' then ['\\', c]
  else if c = '\n' then ['\\', 'n']
  else if c = '\r' then ['\\', 'r']
  else if c = '\t' then ['\\', 't']
  else if isPrintable c then [c]
  else escapeCode c.toNat

/-- The quote to put around a text: a single one, unless only single quotes
stand in it. -/
def quoteFor (cs : List Char) : Char :=
  if cs.contains '\'' && !cs.contains '"' then '"' else '\''

/-- A text in quotes. -/
def quoted (s : String) : String :=
  let cs := s.toList
  let q := quoteFor cs
  String.ofList (q :: cs.flatMap (quoteChar q) ++ [q])

/-- How a byte stands inside quotes: only printable ASCII is shown as
itself. -/
def quoteByte (quote : Char) (b : UInt8) : List Char :=
  let c := Char.ofNat b.toNat
  if c = quote ∨ c = '\\' then ['\\', c]
  else if c = '\n' then ['\\', 'n']
  else if c = '\r' then ['\\', 'r']
  else if c = '\t' then ['\\', 't']
  else if 32 ≤ b.toNat ∧ b.toNat < 127 then [c]
  else '\\' :: 'x' :: hexDigits 2 b.toNat

/-- A run of bytes in quotes, marked with a leading `b`. -/
def quotedBytes (bs : List UInt8) : String :=
  let q := quoteFor (bs.map fun b => Char.ofNat b.toNat)
  String.ofList ('b' :: q :: bs.flatMap (quoteByte q) ++ [q])

end Conform.Text
