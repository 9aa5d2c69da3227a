import Conform.Value.Key

/-!
# Values and the store of shared containers

A value is an atom, a container with its contents, or a reference to a
**shared** container in a `Store`. References are what makes two places
hold the very same container, and what makes a container hold itself.
Containers that the host hands in are shared; containers that a check
builds are not, for nothing else refers to them.

A copied value is the value with all its references marked as copied: a
copy has the contents of what it copies, and is another container. A value in
which a read-only mapping stands, at any depth, has no copy; `Store.isCopyable`
goes through the addresses that can be reached to tell.

`Store.contents?` looks through a reference, so that everything else sees a
container as its contents, however it is held.
-/

namespace Conform

/-- A value: an atom, a container, or a reference to a shared container. -/
inductive Value where
  | atom (a : Atom)
  | list (items : List Value)
  | tuple (items : List Value)
  | mapping (readOnly : Bool) (entries : List (Key × Value))
  | shared (address : Nat) (copied : Bool)
  deriving Repr, Inhabited

/-- The contents of a container. -/
inductive Contents where
  | list (items : List Value)
  | tuple (items : List Value)
  | mapping (readOnly : Bool) (entries : Entries Value)
  deriving Repr, Inhabited

/-- The shared containers, by address. -/
structure Store where
  cells : Array Contents := #[]
  deriving Repr, Inhabited

/-- What decides whether two values are the very same object. -/
inductive Identity where
  | shared (address : Nat) (copied : Bool)
  | atom (a : Atom)
  deriving DecidableEq, Repr

namespace Value

@[match_pattern] abbrev null : Value := .atom .null
@[match_pattern] abbrev missing : Value := .atom .missing
@[match_pattern] abbrev invalid : Value := .atom .invalid
@[match_pattern] abbrev bool (b : Bool) : Value := .atom (.bool b)
@[match_pattern] abbrev int (n : Int) : Value := .atom (.int n)
@[match_pattern] abbrev text (s : String) : Value := .atom (.text s)

mutual

/-- The value of a key. -/
def ofKey : Key → Value
  | .atom a => .atom a
  | .tuple ks => .tuple (ofKeys ks)

/-- The values of a run of keys. -/
def ofKeys : List Key → List Value
  | [] => []
  | k :: ks => ofKey k :: ofKeys ks

end

mutual

/-- A copy of a value. -/
def detach : Value → Value
  | .atom a => .atom a.detach
  | .list items => .list (detachItems items)
  | .tuple items => .tuple (detachItems items)
  | .mapping readOnly entries => .mapping readOnly (detachEntries entries)
  | .shared address _ => .shared address true

/-- Copies of a run of values. -/
def detachItems : List Value → List Value
  | [] => []
  | v :: vs => detach v :: detachItems vs

/-- Copies of the values of entries. -/
def detachEntries : List (Key × Value) → List (Key × Value)
  | [] => []
  | (k, v) :: es => (k, detach v) :: detachEntries es

end

mutual

/-- The addresses of the references in a value. -/
def addresses : Value → List Nat
  | .atom _ => []
  | .list items => addressesOfItems items
  | .tuple items => addressesOfItems items
  | .mapping _ entries => addressesOfEntries entries
  | .shared address _ => [address]

/-- The addresses of the references in a run of values. -/
def addressesOfItems : List Value → List Nat
  | [] => []
  | v :: vs => addresses v ++ addressesOfItems vs

/-- The addresses of the references in the values of entries. -/
def addressesOfEntries : List (Key × Value) → List Nat
  | [] => []
  | (_, v) :: es => addresses v ++ addressesOfEntries es

end

mutual

/-- Whether a read-only mapping stands in a value, references left aside. -/
def hasReadOnly : Value → Bool
  | .atom _ => false
  | .list items => itemsHaveReadOnly items
  | .tuple items => itemsHaveReadOnly items
  | .mapping readOnly entries => readOnly || entriesHaveReadOnly entries
  | .shared _ _ => false

/-- Whether a read-only mapping stands in one of a run of values. -/
def itemsHaveReadOnly : List Value → Bool
  | [] => false
  | v :: vs => hasReadOnly v || itemsHaveReadOnly vs

/-- Whether a read-only mapping stands in one of the values of entries. -/
def entriesHaveReadOnly : List (Key × Value) → Bool
  | [] => false
  | (_, v) :: es => hasReadOnly v || entriesHaveReadOnly es

end

/-- What identifies a value as an object: the reference to a shared
container, or an atom. A container that is not shared is met only once. -/
def identity? : Value → Option Identity
  | .atom a => some (.atom a)
  | .shared address copied => some (.shared address copied)
  | _ => none

end Value

namespace Contents

/-- A copy of the contents of a container. -/
def detach : Contents → Contents
  | list items => list (Value.detachItems items)
  | tuple items => tuple (Value.detachItems items)
  | mapping readOnly entries => mapping readOnly (Value.detachEntries entries)

/-- The container with these contents that is not shared. -/
def toValue : Contents → Value
  | list items => .list items
  | tuple items => .tuple items
  | mapping readOnly entries => .mapping readOnly entries

/-- How many items or entries there are. -/
def size : Contents → Nat
  | list items => items.length
  | tuple items => items.length
  | mapping _ entries => entries.length

/-- The name of the kind of a container as error reports give it. -/
def kindName : Contents → String
  | list _ => "array"
  | tuple _ => "array"
  | mapping _ _ => "object"

/-- The name of the class of a container as refusals of an argument give
it. -/
def className : Contents → String
  | list _ => "list"
  | tuple _ => "tuple"
  | mapping readOnly _ => if readOnly then "mappingproxy" else "dict"

end Contents

namespace Store

/-- The contents at an address; an address that was never given out is an
empty list. -/
def read (s : Store) (address : Nat) : Contents := (s.cells[address]?).getD (.list [])

/-- The contents of a container, shared or not; an atom has none. -/
def contents? (s : Store) : Value → Option Contents
  | .atom _ => none
  | .list items => some (.list items)
  | .tuple items => some (.tuple items)
  | .mapping readOnly entries => some (.mapping readOnly entries)
  | .shared address false => some (s.read address)
  | .shared address true => some (s.read address).detach

/-- The items of a list or a tuple. -/
def items? (s : Store) (v : Value) : Option (List Value) :=
  match s.contents? v with
  | some (.list items) => some items
  | some (.tuple items) => some items
  | _ => none

/-- The entries of a mapping. -/
def entries? (s : Store) (v : Value) : Option (Entries Value) :=
  match s.contents? v with
  | some (.mapping _ entries) => some entries
  | _ => none

/-- The items of a list or a tuple; there are none of anything else. -/
def itemsOf (s : Store) (v : Value) : List Value := (s.items? v).getD []

/-- The entries of a mapping; there are none of anything else. -/
def entriesOf (s : Store) (v : Value) : Entries Value := (s.entries? v).getD []

/-- Addresses and those that the containers at them refer to. -/
def spread (s : Store) (addresses : List Nat) : List Nat :=
  (addresses ++ addresses.flatMap fun a => (s.read a).toValue.addresses).eraseDups

/-- Addresses spread so many times. -/
def spreadTimes (s : Store) : Nat → List Nat → List Nat
  | 0, addresses => addresses
  | k + 1, addresses => s.spread (s.spreadTimes k addresses)

/-- The addresses that can be reached from a value: no way to one passes more
containers than there are. -/
def addressesFrom (s : Store) (v : Value) : List Nat := s.spreadTimes s.cells.size v.addresses

/-- Whether a value has a copy: not if a read-only mapping can be reached. -/
def isCopyable (s : Store) (v : Value) : Bool :=
  !v.hasReadOnly && (s.addressesFrom v).all fun a => !(s.read a).toValue.hasReadOnly

/-- Gives out a new address with some contents. -/
def allocate (s : Store) (c : Contents) : Nat × Store := (s.cells.size, ⟨s.cells.push c⟩)

/-- Replaces the contents at an address. -/
def write (s : Store) (address : Nat) (c : Contents) : Store := ⟨s.cells.setIfInBounds address c⟩

/-- The name of a value's kind as error reports give it. -/
def kindName (s : Store) (v : Value) : String :=
  match v, s.contents? v with
  | .atom a, _ => a.kindName
  | _, some c => c.kindName
  | _, none => ""

/-- The name of a value's class as refusals of an argument give it. -/
def className (s : Store) (v : Value) : String :=
  match v, s.contents? v with
  | .atom a, _ => a.className
  | _, some c => c.className
  | _, none => ""

/-- The name of a value's class as refusals of a comparison give it. -/
def fullClassName (s : Store) (v : Value) : String :=
  match v with
  | .atom a => a.fullClassName
  | v => s.className v

/-- Whether a value counts as true: containers do unless they are empty. -/
def truthy (s : Store) (v : Value) : Bool :=
  match v, s.contents? v with
  | .atom a, _ => a.truthy
  | _, some c => c.size != 0
  | _, none => false

@[simp] theorem contents?_atom (s : Store) (a : Atom) : s.contents? (.atom a) = none := rfl

@[simp] theorem contents?_list (s : Store) (items : List Value) :
    s.contents? (.list items) = some (.list items) := rfl

@[simp] theorem contents?_tuple (s : Store) (items : List Value) :
    s.contents? (.tuple items) = some (.tuple items) := rfl

@[simp] theorem contents?_mapping (s : Store) (readOnly : Bool) (es : Entries Value) :
    s.contents? (.mapping readOnly es) = some (.mapping readOnly es) := rfl

@[simp] theorem itemsOf_list (s : Store) (items : List Value) :
    s.itemsOf (.list items) = items := rfl

@[simp] theorem itemsOf_tuple (s : Store) (items : List Value) :
    s.itemsOf (.tuple items) = items := rfl

@[simp] theorem entriesOf_mapping (s : Store) (readOnly : Bool) (es : Entries Value) :
    s.entriesOf (.mapping readOnly es) = es := rfl

theorem entriesOf_of_entries? {s : Store} {v : Value} {es : Entries Value}
    (h : s.entries? v = some es) : s.entriesOf v = es := by
  rw [entriesOf, h, Option.getD_some]

theorem itemsOf_of_items? {s : Store} {v : Value} {items : List Value}
    (h : s.items? v = some items) : s.itemsOf v = items := by
  rw [itemsOf, h, Option.getD_some]

theorem entries?_of_isNone {s : Store} {v : Value} (h : (s.entries? v).isNone = false) :
    s.entries? v = some (s.entriesOf v) := by
  cases hentries : s.entries? v with
  | none => simp [hentries] at h
  | some es => rw [entriesOf_of_entries? hentries]

theorem items?_of_isNone {s : Store} {v : Value} (h : (s.items? v).isNone = false) :
    s.items? v = some (s.itemsOf v) := by
  cases hitems : s.items? v with
  | none => simp [hitems] at h
  | some items => rw [itemsOf_of_items? hitems]

/-- Every value that is no atom has contents. -/
theorem isSome_contents? (s : Store) (v : Value) (h : ∀ a, v ≠ .atom a) :
    (s.contents? v).isSome = true := by
  cases v with
  | atom a => exact absurd rfl (h a)
  | shared address copied => cases copied <;> rfl
  | _ => rfl

end Store

end Conform
