import Conform.Schema.Build

/-!
# Combining schemas in order

Schemas are combined in order by an operator, two at a time, or by a list, any number of
them at once. The operator takes the parts of its left operand out, if this is of the kind
that it makes, and those of its right operand never. So the same schemas in the same order
are combined into different ones.

A `Grouping` is one way of combining schemas, and its leaves are the schemas that are
combined. To show that all groupings of the same leaves have something in common it is
enough to look at one compound and its parts.

## Main results

* `Grouping.exists_schema` — a grouping builds a schema.
* `Grouping.related_of_build` — if compounds are related to their parts, the schema is
  related to the leaves.
-/

namespace Conform

/-- A kind of schema that is made of others, and the two ways of making it. -/
structure Compound where
  parts? : Schema → Option (List Schema)
  join (first : Schema) (rest : List Schema) : Schema
  operator (st : Store) (left : Schema) (right : Operand) : Except Fault Schema
  list (st : Store) (operands : List Operand) : Except Fault Schema
  parts?_join (first : Schema) (rest : List Schema) :
    parts? (join first rest) = some (first :: rest)
  join_of_parts? {s : Schema} {parts : List Schema} (h : parts? s = some parts) :
    ∃ first rest, parts = first :: rest ∧ s = join first rest
  list_schemas (st : Store) (first : Schema) (rest : List Schema) :
    list st (.schema first :: rest.map .schema) = .ok (join first rest)
  operator_schema (st : Store) (left right : Schema) :
    operator st left (.schema right) =
      list st (((parts? left).getD [left] ++ [right]).map .schema)

theorem Operand.mapM_toSchema (st : Store) (role : SchemaRole) (ss : List Schema) :
    (ss.map Operand.schema).mapM (·.toSchema st role) = .ok ss := by
  induction ss with
  | nil => rfl
  | cons s ss ih =>
      rw [List.map_cons, List.mapM_cons, ih]
      rfl

namespace Compound

/-- Unions of options. -/
def union : Compound where
  parts? := Schema.options?
  join := .union
  operator := Schema.orElse
  list := Schema.ofOptions
  parts?_join _ _ := rfl
  join_of_parts? {s parts} h := by
    cases s with
    | union first rest => exact ⟨first, rest, (Option.some.inj h).symm, rfl⟩
    | _ => cases h
  list_schemas st first rest := by
    rw [Schema.ofOptions, Operand.mapM_toSchema]
    rfl
  operator_schema st left right := by
    rw [Schema.orElse, List.map_append]
    rfl

/-- Intersections of members. -/
def intersection : Compound where
  parts? := Schema.members?
  join := .intersection
  operator := Schema.andAlso
  list := Schema.ofMembers
  parts?_join _ _ := rfl
  join_of_parts? {s parts} h := by
    cases s with
    | intersection first rest => exact ⟨first, rest, (Option.some.inj h).symm, rfl⟩
    | _ => cases h
  list_schemas st first rest := by
    rw [Schema.ofMembers, Operand.mapM_toSchema]
    rfl
  operator_schema st left right := by
    rw [Schema.andAlso, List.map_append]
    rfl

/-- The parts of a compound; any other schema is its own part. -/
def parts (kind : Compound) (s : Schema) : List Schema := (kind.parts? s).getD [s]

/-- A schema is its own part or the join of its parts. -/
theorem parts_cases (kind : Compound) (s : Schema) :
    kind.parts s = [s] ∨ ∃ first rest, kind.parts s = first :: rest ∧ s = kind.join first rest := by
  unfold parts
  cases h : kind.parts? s with
  | none => exact .inl rfl
  | some parts =>
      obtain ⟨first, rest, rfl, hs⟩ := kind.join_of_parts? h
      exact .inr ⟨first, rest, rfl, hs⟩

theorem parts_join (kind : Compound) (first : Schema) (rest : List Schema) :
    kind.parts (kind.join first rest) = first :: rest := by
  rw [parts, kind.parts?_join]
  rfl

/-- The operator joins the parts of the left operand and the right one. -/
theorem operator_eq (kind : Compound) (left right : Schema) :
    ∃ first rest, kind.parts left ++ [right] = first :: rest ∧
      ∀ st, kind.operator st left (.schema right) = .ok (kind.join first rest) := by
  obtain ⟨first, rest, hparts⟩ := List.exists_cons_of_ne_nil
    (List.append_ne_nil_of_right_ne_nil (kind.parts left) (List.cons_ne_nil right []))
  refine ⟨first, rest, hparts, fun st => ?_⟩
  rw [kind.operator_schema, ← parts, hparts]
  exact kind.list_schemas st first rest

/-- Schemas in order are related to others. Lists that are put one after another are if
the lists are, and a compound is if its parts are. -/
structure Relates (kind : Compound) (E : List Schema → List Schema → Prop) : Prop where
  nil : E [] []
  append {xs xs' ys ys' : List Schema} (h : E xs xs') (h' : E ys ys') : E (xs ++ ys) (xs' ++ ys')
  join {first : Schema} {rest ys : List Schema} (h : E (first :: rest) ys) :
    E [kind.join first rest] ys

/-- A schema is related to what its parts are related to. -/
theorem Relates.whole {kind : Compound} {E : List Schema → List Schema → Prop}
    (hE : kind.Relates E) {s : Schema} {ys : List Schema} (h : E (kind.parts s) ys) : E [s] ys := by
  rcases kind.parts_cases s with hparts | ⟨first, rest, hparts, rfl⟩
  · rwa [hparts] at h
  · exact hE.join (hparts ▸ h)

end Compound

/-- A way of combining schemas in order: one by itself, two with the operator, or some
with a list. -/
inductive Grouping where
  | one (s : Schema)
  | pair (left right : Grouping)
  | all (first : Grouping) (rest : List Grouping)

namespace Grouping

mutual

/-- The schemas that are combined, in order. -/
def leaves : Grouping → List Schema
  | one s => [s]
  | pair left right => left.leaves ++ right.leaves
  | all first rest => first.leaves ++ leavesOfAll rest

/-- The schemas that are combined in groupings one after another. -/
def leavesOfAll : List Grouping → List Schema
  | [] => []
  | g :: rest => g.leaves ++ leavesOfAll rest

end

mutual

/-- The schema that is built. -/
def build (kind : Compound) (st : Store) : Grouping → Except Fault Schema
  | one s => return s
  | pair left right => do
    let left ← left.build kind st
    let right ← right.build kind st
    kind.operator st left (.schema right)
  | all first rest => do
    let first ← first.build kind st
    let rest ← buildAll kind st rest
    kind.list st (.schema first :: rest.map .schema)

/-- The schemas that are built by groupings one after another. -/
def buildAll (kind : Compound) (st : Store) : List Grouping → Except Fault (List Schema)
  | [] => return []
  | g :: rest => do
    let s ← g.build kind st
    let ss ← buildAll kind st rest
    return s :: ss

end

/-! ## What groupings have in common -/

section Common

variable {kind : Compound} {E : List Schema → List Schema → Prop}

mutual

/-- A grouping builds a schema. If its leaves are related to themselves, the schema is
related to them; in both cases it is the parts that count. -/
theorem exists_build (hE : kind.Relates E) (g : Grouping)
    (hleaves : ∀ s ∈ g.leaves, E (kind.parts s) (kind.parts s)) :
    ∃ s, (∀ st, g.build kind st = .ok s) ∧ E (kind.parts s) (g.leaves.flatMap kind.parts) := by
  cases g with
  | one s => exact ⟨s, fun st => rfl, by simpa [leaves] using hleaves s⟩
  | pair left right =>
      simp only [leaves, List.mem_append] at hleaves
      obtain ⟨l, hl, hleft⟩ := left.exists_build hE fun s hs => hleaves s (.inl hs)
      obtain ⟨r, hr, hright⟩ := right.exists_build hE fun s hs => hleaves s (.inr hs)
      obtain ⟨first, rest, hparts, hoperator⟩ := kind.operator_eq l r
      refine ⟨kind.join first rest, fun st => ?_, ?_⟩
      · rw [build, hl, hr]
        exact hoperator st
      · rw [kind.parts_join, leaves, List.flatMap_append, ← hparts]
        exact hE.append hleft (hE.whole hright)
  | all first rest =>
      simp only [leaves, List.mem_append] at hleaves
      obtain ⟨s, hs, hfirst⟩ := first.exists_build hE fun s hs => hleaves s (.inl hs)
      obtain ⟨ss, hss, hrest⟩ := exists_buildAll hE rest fun s hs => hleaves s (.inr hs)
      refine ⟨kind.join s ss, fun st => ?_, ?_⟩
      · rw [build, hs, hss]
        exact kind.list_schemas st s ss
      · rw [kind.parts_join, leaves, List.flatMap_append]
        exact hE.append (hE.whole hfirst) hrest

theorem exists_buildAll (hE : kind.Relates E) (gs : List Grouping)
    (hleaves : ∀ s ∈ leavesOfAll gs, E (kind.parts s) (kind.parts s)) :
    ∃ ss, (∀ st, buildAll kind st gs = .ok ss) ∧
      E ss ((leavesOfAll gs).flatMap kind.parts) := by
  cases gs with
  | nil => exact ⟨[], fun st => rfl, hE.nil⟩
  | cons g gs =>
      simp only [leavesOfAll, List.mem_append] at hleaves
      obtain ⟨s, hs, hfirst⟩ := g.exists_build hE fun s hs => hleaves s (.inl hs)
      obtain ⟨ss, hss, hrest⟩ := exists_buildAll hE gs fun s hs => hleaves s (.inr hs)
      refine ⟨s :: ss, fun st => ?_, ?_⟩
      · rw [buildAll, hs, hss]
        rfl
      · rw [leavesOfAll, List.flatMap_append]
        exact hE.append (hE.whole hfirst) hrest

end

/-- A grouping always builds a schema. -/
theorem exists_schema (kind : Compound) (g : Grouping) : ∃ s, ∀ st, g.build kind st = .ok s := by
  have hall : kind.Relates fun _ _ => True := ⟨trivial, fun _ _ => trivial, fun _ => trivial⟩
  obtain ⟨s, hs, -⟩ := g.exists_build hall fun _ _ => trivial
  exact ⟨s, hs⟩

/-- The schema that is built is related to the parts of the leaves. -/
theorem related_of_build (hE : kind.Relates E) {g : Grouping} {st : Store} {s : Schema}
    (hleaves : ∀ s ∈ g.leaves, E (kind.parts s) (kind.parts s)) (h : g.build kind st = .ok s) :
    E [s] (g.leaves.flatMap kind.parts) := by
  obtain ⟨s', hs', hrelated⟩ := g.exists_build hE hleaves
  obtain rfl : s' = s := Except.ok.inj ((hs' st).symm.trans h)
  exact hE.whole hrelated

end Common

end Grouping

end Conform
