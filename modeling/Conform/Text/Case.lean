import Conform.Text.CaseTable

/-!
# Letter case

The full case mappings of a text. Upper case maps each letter on its own,
sometimes to several letters. Lower case does too, with one exception: a
capital sigma at the end of a word becomes a final sigma.

* `lower`, `upper` map a text.
* `foldChar` is the single lower-case letter that a search which ignores
  case compares.
-/

namespace Conform.Text

/-- The characters of a list of code points. -/
def charsOf (cs : List Nat) : List Char := cs.map Char.ofNat

/-- The upper case of a letter. -/
def upperChar (c : Char) : List Char :=
  match upperSpecial.lookup c.toNat with
  | some cs => charsOf cs
  | none => [Char.ofNat ((mapByRuns upperRuns c.toNat).getD c.toNat)]

/-- The lower case of a letter that stands alone. -/
def lowerChar (c : Char) : List Char :=
  match lowerSpecial.lookup c.toNat with
  | some cs => charsOf cs
  | none => [Char.ofNat ((mapByRuns lowerRuns c.toNat).getD c.toNat)]

/-- Whether a letter has case and is not skipped at the end of a word. -/
def isCasedLetter (c : Char) : Bool := inRanges casedRanges c.toNat

/-- Whether a character is skipped when the end of a word is looked for. -/
def isCaseIgnorable (c : Char) : Bool := inRanges caseIgnorableRanges c.toNat

/-- Whether the first character that is not skipped has case. -/
def startsCased (cs : List Char) : Bool :=
  match cs.dropWhile isCaseIgnorable with
  | [] => false
  | c :: _ => isCasedLetter c

/-- The lower case of a run of letters, given the letters before it in
reverse. -/
def lowerFrom (before : List Char) : List Char → List Char
  | [] => []
  | c :: after =>
    let image :=
      if c = 'Σ' then
        if startsCased before && !startsCased after then ['ς'] else ['σ']
      else lowerChar c
    image ++ lowerFrom (c :: before) after

/-- The lower case of a text. -/
def lower (s : String) : String := String.ofList (lowerFrom [] s.toList)

/-- The upper case of a text. -/
def upper (s : String) : String := String.ofList (s.toList.flatMap upperChar)

/-- The one letter that stands for a letter when case is ignored. -/
def foldChar (c : Char) : Char := (lowerChar c).headD c

/-- Whether either case mapping moves a character. -/
def hasCase (c : Char) : Bool := foldChar c != c || (upperChar c).headD c != c

/-- The letters that match a letter when case is ignored, folded. -/
def foldClass (c : Char) : List Char :=
  let f := foldChar c
  f :: charsOf ((caseVariants.lookup f.toNat).getD [])

end Conform.Text
