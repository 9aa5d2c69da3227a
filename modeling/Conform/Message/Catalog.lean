import Conform.Message.Template

/-!
# Catalogs of templates

A catalog holds templates by the text of their code. An entry may be
present and hold no template; then the default words are used, and nothing
outside is asked.

Templates are in force in two layers: the catalog that holds for all, and
the `Scope` of the blocks that are open. The scope is asked first. Opening
a block lays its templates over the scope, those given by name over the
others; closing it restores the scope as it was.
-/

namespace Conform

/-- Templates by the text of their code; the latest entry of a code counts. -/
structure Catalog where
  entries : List (String × Option Template) := []

/-- The templates of the open blocks. -/
abbrev Scope := Catalog

namespace Catalog

/-- No templates. -/
def empty : Catalog := ⟨[]⟩

/-- The entry of a code. -/
def lookup? (c : Catalog) (code : String) : Option (Option Template) := c.entries.lookup code

/-- Sets the entry of a code. -/
def set (c : Catalog) (code : String) (t : Option Template) : Catalog :=
  ⟨(code, t) :: c.entries.filter (·.1 != code)⟩

/-- Sets several entries, in order. -/
def setAll (c : Catalog) (ts : List (String × Option Template)) : Catalog :=
  ts.foldl (fun acc t => acc.set t.1 t.2) c

/-- Removes the entry of a code. -/
def remove (c : Catalog) (code : String) : Catalog := ⟨c.entries.filter (·.1 != code)⟩

/-- The scope inside a block that gives templates in a list and by name. -/
def openBlock (scope : Scope) (templates named : List (String × Option Template)) : Scope :=
  (scope.setAll templates).setAll named

/-- The template in force for a code. -/
def find? (c : Catalog) (scope : Scope) (code : String) : Option Template :=
  match scope.lookup? code with
  | some t => t
  | none => (c.lookup? code).join

/-- The words for an error: those of the template in force, or the default. -/
def format (c : Catalog) (scope : Scope) (s : Store) (code default : String)
    (details : Option Details) : Except Fault String :=
  match c.find? scope code with
  | none => .ok default
  | some t => t.render s details

@[simp] theorem lookup?_empty (code : String) : empty.lookup? code = none := rfl

@[simp] theorem lookup?_set_self (c : Catalog) (code : String) (t : Option Template) :
    (c.set code t).lookup? code = some t := by
  simp [set, lookup?]

/-- What is looked up is not among the entries that are left out. -/
theorem lookup_filter_ne {κ α : Type} [BEq κ] [LawfulBEq κ] {a b : κ} (h : b ≠ a)
    (l : List (κ × α)) : (l.filter (·.1 != a)).lookup b = l.lookup b := by
  induction l with
  | nil => rfl
  | cons e l ih =>
    obtain ⟨k, v⟩ := e
    by_cases hk : k = a
    · subst hk
      simp [List.lookup_cons, ih, beq_eq_false_iff_ne.mpr h]
    · simp [List.lookup_cons, ih, hk]

/-- Setting one code leaves the entries of the others. -/
theorem lookup?_set_of_ne (c : Catalog) {code other : String} (t : Option Template)
    (h : other ≠ code) : (c.set code t).lookup? other = c.lookup? other := by
  simp only [set, lookup?, List.lookup_cons, beq_eq_false_iff_ne.mpr h]
  exact lookup_filter_ne h c.entries

@[simp] theorem lookup?_remove_self (c : Catalog) (code : String) :
    (c.remove code).lookup? code = none := by
  simp only [remove, lookup?, List.lookup_eq_none_iff]
  intro e he
  simp only [List.mem_filter, bne_iff_ne, ne_eq] at he
  simpa [beq_eq_false_iff_ne] using fun h => he.2 h.symm

/-- Removing one code leaves the entries of the others. -/
theorem lookup?_remove_of_ne (c : Catalog) {code other : String} (h : other ≠ code) :
    (c.remove code).lookup? other = c.lookup? other :=
  lookup_filter_ne h c.entries

/-- The entry of a code is the last one that was set for it. -/
theorem lookup?_setAll (c : Catalog) (ts : List (String × Option Template)) (code : String) :
    (c.setAll ts).lookup? code = (ts.reverse.lookup code).or (c.lookup? code) := by
  induction ts generalizing c with
  | nil => rfl
  | cons t ts ih =>
    obtain ⟨k, t⟩ := t
    show ((c.set k t).setAll ts).lookup? code = _
    rw [ih, List.reverse_cons, List.lookup_append, Option.or_assoc]
    by_cases h : code = k
    · subst h
      simp
    · simp [lookup?_set_of_ne c t h, List.lookup_cons, beq_eq_false_iff_ne.mpr h]

/-- Inside a block, what is given by name comes first, then what is given in the
list, then what is outside. -/
theorem lookup?_openBlock (scope : Scope) (templates named : List (String × Option Template))
    (code : String) :
    (scope.openBlock templates named).lookup? code =
      (named.reverse.lookup code).or
        ((templates.reverse.lookup code).or (scope.lookup? code)) := by
  rw [openBlock, lookup?_setAll, lookup?_setAll]

end Catalog

/-- What a block gives: templates in a list, and templates by name. -/
structure Block where
  templates : List (String × Option Template) := []
  named : List (String × Option Template) := []

/-- The two layers of templates. -/
structure Layers where
  /-- The templates that hold for all. -/
  catalog : Catalog := Catalog.empty
  scope : Scope := Catalog.empty

namespace Layers

/-- The template in force for a code. -/
def find? (l : Layers) (code : String) : Option Template := l.catalog.find? l.scope code

/-- The words for an error: those of the template in force, or the default. -/
def format (l : Layers) (s : Store) (code default : String) (details : Option Details) :
    Except Fault String :=
  l.catalog.format l.scope s code default details

/-- Opens a block. -/
def enter (l : Layers) (b : Block) : Layers :=
  { l with scope := l.scope.openBlock b.templates b.named }

/-- Closes a block, given the scope that was in force when it was opened. -/
def leave (l : Layers) (outer : Scope) : Layers := { l with scope := outer }

end Layers

end Conform
