import Mathlib.Algebra.GroupWithZero.Nat
import Mathlib.Data.Finset.Card
import Mathlib.Data.Finset.Lattice.Fold
import Mathlib.Logic.Relation
import Mathlib.Order.Lattice.Nat
import Conform.Schema.Basic

/-!
# Graphs of schemas

A deferred schema stands for another one, in which it may stand itself. So
schemas are a graph, and a descent need not get to smaller schemas.

In a `SchemaGraph` there are finitely many deferred schemas, and each way round
through them passes through a field of an object or the elements of an array.
Then `SchemaGraph.distance` bounds how many schemas are met before the next
field or element: it goes down with every schema that hands its value on
unchanged, and with every deferred schema that is resolved.

## Main results

* `SchemaGraph.rank_lt` — the deferred schemas have a rank that goes down from
  each to those that it exposes.
* `SchemaGraph.distance_lt_of_passes`, `SchemaGraph.distance_schemas_lt` — the
  distance goes down.
-/

namespace Conform

namespace Schema

/-- A schema hands its value on to another: an option, a member, or the schema
inside a wrapper. -/
inductive Passes : Schema → Schema → Prop
  | option {first : Schema} {rest : List Schema} {s : Schema} (h : s ∈ first :: rest) :
      Passes (.union first rest) s
  | member {first : Schema} {rest : List Schema} {s : Schema} (h : s ∈ first :: rest) :
      Passes (.intersection first rest) s
  | optional {inner : Schema} : Passes (.optional inner) inner
  | nullable {inner : Schema} : Passes (.nullable inner) inner
  | withDefault {inner : Schema} {default : Value} : Passes (.withDefault inner default) inner
  | transform {inner : Schema} {step : Step} : Passes (.transform inner step) inner
  | refine {inner : Schema} {id : Nat} {words : Option String} {code : Code} :
      Passes (.refine inner id words code) inner

/-- A schema is that of a field or of the elements of another. -/
inductive Guards : Schema → Schema → Prop
  | field {fields : List (Key × Schema)} {unknown : UnknownKeys} {k : Key} {s : Schema}
      (h : (k, s) ∈ fields) : Guards (.object fields unknown) s
  | element {element : Schema} {bounds : ArrayBounds} : Guards (.array element bounds) element

/-- A schema stands in another, or is it. -/
def Part : Schema → Schema → Prop := Relation.ReflTransGen fun s t => Passes s t ∨ Guards s t

/-- A deferred schema stands in a schema. -/
def Mentions (s : Schema) (id : Nat) : Prop := s.Part (.deferred id)

/-- A deferred schema stands in a schema outside of all fields and
elements. -/
def Exposes (s : Schema) (id : Nat) : Prop := Relation.ReflTransGen Passes s (.deferred id)

/-- The deferred schemas that stand in a schema are among some, and the
defaults that stand in it are no containers. -/
structure Fits (ids : Finset Nat) (s : Schema) : Prop where
  mentions (id : Nat) (h : s.Mentions id) : id ∈ ids
  plain (inner : Schema) (default : Value) (h : s.Part (.withDefault inner default)) :
    ∃ a, default = .atom a

variable {ids : Finset Nat} {s t : Schema}

theorem Fits.of_step (hs : s.Fits ids) (h : Passes s t ∨ Guards s t) : t.Fits ids where
  mentions id ht := hs.mentions id (.head h ht)
  plain inner default ht := hs.plain inner default (.head h ht)

theorem Fits.of_passes (hs : s.Fits ids) (h : Passes s t) : t.Fits ids := hs.of_step (.inl h)

theorem Fits.of_guards (hs : s.Fits ids) (h : Guards s t) : t.Fits ids := hs.of_step (.inr h)

theorem mentions_of_exposes {id : Nat} (h : s.Exposes id) : s.Mentions id :=
  Relation.ReflTransGen.mono (fun _ _ h => .inl h) _ _ h

theorem sizeOf_lt_of_passes (h : Passes s t) : sizeOf t < sizeOf s := by
  have hlist : ∀ {first : Schema} {rest : List Schema}, t ∈ first :: rest →
      sizeOf t < 1 + sizeOf first + sizeOf rest := by
    intro first rest ht
    have hlt := List.sizeOf_lt_of_mem ht
    simp only [List.cons.sizeOf_spec] at hlt
    exact hlt
  cases h with
  | option h => simpa using hlist h
  | member h => simpa using hlist h
  | optional => simp
  | nullable => simp
  | withDefault =>
      simp only [withDefault.sizeOf_spec]
      omega
  | transform =>
      simp only [transform.sizeOf_spec]
      omega
  | refine =>
      simp only [refine.sizeOf_spec]
      omega

/-- Wherever the field stands. -/
theorem guards_of_split {fields earlier later : List (Key × Schema)} {unknown : UnknownKeys}
    {k : Key} (h : fields = earlier ++ (k, t) :: later) : Guards (.object fields unknown) t :=
  .field (h ▸ List.mem_append_right _ List.mem_cons_self)

theorem sizeOf_lt_of_guards (h : Guards s t) : sizeOf t < sizeOf s := by
  cases h with
  | field h =>
      have hlt := List.sizeOf_lt_of_mem h
      simp only [Prod.mk.sizeOf_spec] at hlt
      simp only [object.sizeOf_spec]
      omega
  | element =>
      simp only [array.sizeOf_spec]
      omega

end Schema

open Schema

/-- Finitely many deferred schemas, with what they stand for. No deferred
schema comes back to itself but through a field or an element. -/
structure SchemaGraph where
  ids : Finset Nat
  schemas : Nat → Schema
  fits (id : Nat) (h : id ∈ ids) : (schemas id).Fits ids
  guarded (id : Nat) (h : id ∈ ids) :
    ¬ Relation.TransGen (fun i j => (schemas i).Exposes j) id id

namespace SchemaGraph

variable (G : SchemaGraph) {s t : Schema} {id : Nat}

/-- A deferred schema leads to another outside of all fields and elements. -/
def Leads : Nat → Nat → Prop := Relation.TransGen fun i j => (G.schemas i).Exposes j

open Classical in
/-- The deferred schemas that one leads to. -/
noncomputable def led (id : Nat) : Finset Nat := {j ∈ G.ids | G.Leads id j}

open Classical in
/-- The deferred schemas that a schema exposes. -/
noncomputable def exposed (s : Schema) : Finset Nat := {j ∈ G.ids | s.Exposes j}

/-- How many deferred schemas one leads to. -/
noncomputable def rank (id : Nat) : Nat := (G.led id).card

/-- A rank that is above that of each deferred schema that a schema
exposes. -/
noncomputable def level (s : Schema) : Nat := (G.exposed s).sup fun id => G.rank id + 1

/-- The size of the largest schema that a deferred one stands for. -/
noncomputable def largest : Nat := G.ids.sup fun id => sizeOf (G.schemas id)

/-- A bound on how many schemas are met before the next field or element. -/
noncomputable def distance (s : Schema) : Nat := G.level s * (G.largest + 1) + sizeOf s

variable {G}

theorem mem_led {i j : Nat} : j ∈ G.led i ↔ j ∈ G.ids ∧ G.Leads i j := by
  classical exact Finset.mem_filter

theorem mem_exposed : id ∈ G.exposed s ↔ id ∈ G.ids ∧ s.Exposes id := by
  classical exact Finset.mem_filter

variable (G)

theorem rank_lt {i j : Nat} (hi : i ∈ G.ids) (h : (G.schemas i).Exposes j) :
    G.rank j < G.rank i := by
  have hj : j ∈ G.ids := (G.fits i hi).mentions j (mentions_of_exposes h)
  refine Finset.card_lt_card (Finset.ssubset_iff_subset_ne.mpr ⟨fun k hk => ?_, fun heq => ?_⟩)
  · obtain ⟨hk, hled⟩ := mem_led.mp hk
    exact mem_led.mpr ⟨hk, .head h hled⟩
  · -- what is exposed leads to less, as it does not lead to itself
    have hmem : j ∈ G.led i := mem_led.mpr ⟨hj, .single h⟩
    rw [← heq] at hmem
    exact G.guarded j hj (mem_led.mp hmem).2

theorem rank_le (id : Nat) : G.rank id ≤ G.ids.card :=
  Finset.card_le_card fun _ hj => (mem_led.mp hj).1

theorem level_le (s : Schema) : G.level s ≤ G.ids.card + 1 :=
  Finset.sup_le fun id _ => Nat.succ_le_succ (G.rank_le id)

theorem level_le_of_passes (h : Passes s t) : G.level t ≤ G.level s := by
  refine Finset.sup_mono fun id hid => ?_
  obtain ⟨hid, hexposes⟩ := mem_exposed.mp hid
  exact mem_exposed.mpr ⟨hid, .head h hexposes⟩

theorem distance_lt_of_passes (h : Passes s t) : G.distance t < G.distance s := by
  have hlevel := Nat.mul_le_mul_right (G.largest + 1) (G.level_le_of_passes h)
  have hsize := sizeOf_lt_of_passes h
  unfold distance
  omega

/-- What a deferred schema stands for is on a lower level. -/
theorem level_schemas_lt (h : id ∈ G.ids) : G.level (G.schemas id) < G.level (.deferred id) := by
  have hself : G.rank id + 1 ≤ G.level (.deferred id) :=
    Finset.le_sup (f := fun id => G.rank id + 1) (mem_exposed.mpr ⟨h, .refl⟩)
  have hbelow : G.level (G.schemas id) ≤ G.rank id := by
    refine Finset.sup_le fun j hj => ?_
    exact G.rank_lt h (mem_exposed.mp hj).2
  omega

theorem sizeOf_schemas_le (h : id ∈ G.ids) : sizeOf (G.schemas id) ≤ G.largest :=
  Finset.le_sup (f := fun id => sizeOf (G.schemas id)) h

theorem distance_schemas_lt (h : id ∈ G.ids) :
    G.distance (G.schemas id) < G.distance (.deferred id) := by
  have hlevel := Nat.mul_le_mul_right (G.largest + 1) (G.level_schemas_lt h)
  have hsize := G.sizeOf_schemas_le h
  rw [Nat.succ_mul] at hlevel
  unfold distance
  omega

/-- The schemas up to a size are within one distance. -/
theorem distance_le {size : Nat} (h : sizeOf s ≤ size) :
    G.distance s ≤ (G.ids.card + 1) * (G.largest + 1) + size := by
  have hlevel := Nat.mul_le_mul_right (G.largest + 1) (G.level_le s)
  unfold distance
  omega

end SchemaGraph

end Conform
