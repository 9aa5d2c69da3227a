import Conform.Number.Measure
import Conform.Calendar

/-!
# Atoms: values without parts

An atom is null, a truth value, a number, a text, a date or moment, a run
of bytes, a token, or one of two markers.

* A **token** is an object of the host of which nothing is known but the
  name of its kind; it equals only itself, and a copy of it is another
  token.
* The marker `missing` stands for a value that is not there, `invalid` for
  the result of a failed check. Neither occurs in ordinary data.

Two equalities are used. `Atom.equal` is the loose one, under which a truth
value equals its number; keys of mappings are compared by it. `sameKind`
keeps truth values apart from numbers; merging and membership use it.
-/

namespace Conform

/-- A value without parts. -/
inductive Atom where
  | null
  | bool (b : Bool)
  | int (n : Int)
  | float (x : Binary64)
  | text (s : String)
  | date (d : Date)
  | moment (m : Moment)
  | bytes (bs : List UInt8)
  | token (kind : String) (serial : Nat) (copied : Bool)
  | missing
  | invalid
  deriving DecidableEq, Repr, Inhabited

namespace Atom

/-- The number an atom is, truth values left out. -/
def number? : Atom → Option Number
  | int n => some (.int n)
  | float x => some (.float x)
  | _ => none

/-- The number an atom counts as, truth values being zero and one. -/
def count? : Atom → Option Number
  | bool b => some (.int (if b then 1 else 0))
  | int n => some (.int n)
  | float x => some (.float x)
  | _ => none

/-- Whether an atom is a truth value. -/
def isBool : Atom → Bool
  | bool _ => true
  | _ => false

/-- Whether an atom is what is not a number. -/
def isNaN : Atom → Bool
  | float x => x.isNaN
  | _ => false

/-- Loose equality: numbers by their measure, truth values among them. -/
def equal (a b : Atom) : Bool :=
  match a.count?, b.count? with
  | some x, some y => x.equal y
  | none, none =>
    match a, b with
    | moment x, moment y => x.same y
    | a, b => a = b
  | _, _ => false

/-- Equality within a kind: truth values equal only truth values. -/
def sameKind (a b : Atom) : Bool := a.isBool == b.isBool && a.equal b

/-- Whether an atom counts as true. -/
def truthy : Atom → Bool
  | null => false
  | bool b => b
  | int n => n != 0
  | float (.finite _ units) => units != 0
  | float _ => true
  | text s => !s.isEmpty
  | bytes bs => !bs.isEmpty
  | date _ => true
  | moment _ => true
  | token _ _ _ => true
  | missing => false
  | invalid => false

/-- A copy of an atom: the copy of a token is another token. -/
def detach : Atom → Atom
  | token kind serial _ => token kind serial true
  | a => a

/-- The name of an atom's kind as error reports give it. -/
def kindName : Atom → String
  | missing => "undefined"
  | null => "null"
  | bool _ => "boolean"
  | int _ => "number"
  | float .nan => "NaN"
  | float _ => "number"
  | text _ => "string"
  | date _ => "date"
  | moment _ => "date"
  | bytes _ => "bytes"
  | token kind _ _ => kind
  | invalid => "_Marker"

/-- The name of an atom's class as refusals of an argument give it. -/
def className : Atom → String
  | null => "NoneType"
  | bool _ => "bool"
  | int _ => "int"
  | float _ => "float"
  | text _ => "str"
  | date _ => "date"
  | moment _ => "datetime"
  | bytes _ => "bytes"
  | token kind _ _ => kind
  | missing => "_Marker"
  | invalid => "_Marker"

/-- The name of an atom's class as refusals of a comparison give it, where
the classes of the calendar have their full names. -/
def fullClassName : Atom → String
  | date _ => "datetime.date"
  | moment _ => "datetime.datetime"
  | a => a.className

theorem equal_comm (a b : Atom) : a.equal b = b.equal a := by
  unfold equal
  cases a.count? <;> cases b.count? <;> simp only [Number.equal_comm]
  cases a <;> cases b <;> simp [Moment.same_comm, eq_comm]

/-- Equality within a kind is symmetric. -/
theorem sameKind_comm (a b : Atom) : a.sameKind b = b.sameKind a := by
  unfold sameKind
  rw [equal_comm]
  cases a.isBool <;> cases b.isBool <;> rfl

theorem equal_trans {a b c : Atom} (hab : a.equal b = true) (hbc : b.equal c = true) :
    a.equal c = true := by
  unfold equal at hab hbc ⊢
  cases ha : a.count? <;> cases hb : b.count? <;> cases hc : c.count? <;> simp_all only
  · cases a <;> cases b <;> cases c <;> simp_all [Moment.same]
  all_goals first | contradiction | exact Number.equal_trans hab hbc

/-- Equality within a kind is transitive. -/
theorem sameKind_trans {a b c : Atom} (hab : a.sameKind b = true) (hbc : b.sameKind c = true) :
    a.sameKind c = true := by
  simp only [sameKind, Bool.and_eq_true, beq_iff_eq] at hab hbc ⊢
  exact ⟨hab.1.trans hbc.1, equal_trans hab.2 hbc.2⟩

/-- What equals something within its kind equals itself: only what is not a number
does not. -/
theorem sameKind_self_of_left {a b : Atom} (h : a.sameKind b = true) : a.sameKind a = true :=
  sameKind_trans h (sameKind_comm a b ▸ h)

theorem eq_missing_of_sameKind {a : Atom} (h : a.sameKind .missing = true) : a = .missing := by
  cases a <;> simp [sameKind, equal, count?, isBool] at h ⊢

end Atom

end Conform
