import Conform.Value.Basic

/-!
# Equality of values

Two values are equal if they have the same shape and equal atoms; the order
of the entries of a mapping does not matter. The very same shared container
equals itself without being looked into.

As shared containers may hold each other, the comparison is given a depth.
It answers `none` only when two values are still alike at that depth.
-/

namespace Conform

namespace Store

/-- Compares two runs of values one by one, stopping at the first
difference. -/
def allEqual? (p : Value → Value → Option Bool) : List Value → List Value → Option Bool
  | [], [] => some true
  | v :: vs, w :: ws =>
    match p v w with
    | some true => allEqual? p vs ws
    | r => r
  | _, _ => some false

/-- Whether each entry has an equal value at its key in other entries. -/
def allFound? (p : Value → Value → Option Bool) (others : Entries Value) :
    Entries Value → Option Bool
  | [] => some true
  | (k, v) :: es =>
    match others.find? k with
    | none => some false
    | some w =>
      match p v w with
      | some true => allFound? p others es
      | r => r

/-- Loose equality of values, followed to a depth. -/
def equal? (s : Store) : Nat → Value → Value → Option Bool
  | 0, _, _ => none
  | depth + 1, v, w =>
    match v, w with
    | .atom a, .atom b => some (a.equal b)
    | .shared a c, .shared b d =>
      if a = b ∧ c = d then some true
      else contentsEqual? (s.equal? depth) (s.contents? v) (s.contents? w)
    | v, w => contentsEqual? (s.equal? depth) (s.contents? v) (s.contents? w)
where
  /-- Equality of contents, given the equality of what they hold. -/
  contentsEqual? (p : Value → Value → Option Bool) :
      Option Contents → Option Contents → Option Bool
    | some (.list vs), some (.list ws) =>
      if vs.length = ws.length then allEqual? p vs ws else some false
    | some (.tuple vs), some (.tuple ws) =>
      if vs.length = ws.length then allEqual? p vs ws else some false
    | some (.mapping _ es), some (.mapping _ fs) =>
      if es.length = fs.length then allFound? p fs es else some false
    | _, _ => some false

/-- Equality within a kind, followed to a depth: containers must be of one
class, truth values equal only truth values at the top. -/
def sameKind? (s : Store) (depth : Nat) (v w : Value) : Option Bool :=
  match v, w with
  | .atom a, .atom b => some (a.sameKind b)
  | v, w => if s.className v = s.className w then s.equal? depth v w else some false

end Store

end Conform
