import Mathlib.Algebra.GroupWithZero.Nat
import Mathlib.Algebra.Order.BigOperators.Group.Finset
import Mathlib.Data.Finset.Prod
import Mathlib.Data.Fintype.Basic
import Mathlib.Logic.Relation
import Mathlib.Order.Lattice.Nat
import Conform.Context

/-!
# The containers that can be reached from a value

A value with shared containers is a graph: containers may hold the same
container, and may hold each other. From a value only finitely many containers
can be reached, for a store is finite.

`Store.containerCount` counts them: a shared container once, however often it
is met, and with it the containers that stand in it and are not shared; these
have no other place. `Store.potential` counts only what is left once the
shared containers that are being looked into are taken out. Looking into one
more container brings it down, whatever is then taken out of the container.

## Main results

* `Store.mem_references` — the shared containers that can be reached are
  finitely many.
* `Store.potential_mark_lt` — looking into a container uses up some of the
  potential.
* `Store.Acyclic.grounded` — from a value without cycles every way down through
  containers ends.
-/

namespace Conform

/-- A reference to a shared container: the address, and whether it is a
copy. -/
abbrev Reference := Nat × Bool

/-- The values in a container, in order. -/
def Contents.values : Contents → List Value
  | list items => items
  | tuple items => items
  | mapping _ entries => entries.map Prod.snd

/-! ## Containers that are not shared -/

mutual

/-- How many containers that are not shared a value is built of, itself
included. -/
def Value.unshared : Value → Nat
  | .atom _ => 0
  | .list items => 1 + unsharedItems items
  | .tuple items => 1 + unsharedItems items
  | .mapping _ entries => 1 + unsharedEntries entries
  | .shared _ _ => 0

/-- The same for a run of values. -/
def Value.unsharedItems : List Value → Nat
  | [] => 0
  | v :: vs => unshared v + unsharedItems vs

/-- The same for the values of entries. -/
def Value.unsharedEntries : List (Key × Value) → Nat
  | [] => 0
  | (_, v) :: es => unshared v + unsharedEntries es

end

/-- How many containers that are not shared stand in a container. -/
def Contents.unshared : Contents → Nat
  | list items => Value.unsharedItems items
  | tuple items => Value.unsharedItems items
  | mapping _ entries => Value.unsharedEntries entries

theorem Value.unshared_le_unsharedItems {u : Value} {items : List Value} (h : u ∈ items) :
    u.unshared ≤ unsharedItems items := by
  induction items with
  | nil => cases h
  | cons v items ih =>
      rw [unsharedItems]
      rcases List.mem_cons.mp h with rfl | h
      · omega
      · have hle := ih h
        omega

theorem Value.unshared_le_unsharedEntries {k : Key} {u : Value} {entries : List (Key × Value)}
    (h : (k, u) ∈ entries) : u.unshared ≤ unsharedEntries entries := by
  induction entries with
  | nil => cases h
  | cons e entries ih =>
      obtain ⟨l, v⟩ := e
      rw [unsharedEntries]
      rcases List.mem_cons.mp h with h | h
      · cases h
        omega
      · have hle := ih h
        omega

theorem Contents.unshared_le {c : Contents} {u : Value} (h : u ∈ c.values) :
    u.unshared ≤ c.unshared := by
  cases c with
  | list items => exact Value.unshared_le_unsharedItems h
  | tuple items => exact Value.unshared_le_unsharedItems h
  | mapping readOnly entries =>
      obtain ⟨⟨k, _⟩, hentry, rfl⟩ := List.mem_map.mp h
      exact Value.unshared_le_unsharedEntries hentry

/-- What stands in a container is smaller. -/
theorem Contents.sizeOf_lt {c : Contents} {u : Value} (h : u ∈ c.values) :
    sizeOf u < sizeOf c := by
  cases c with
  | list items =>
      have hlt : sizeOf u < sizeOf items := List.sizeOf_lt_of_mem h
      simp only [Contents.list.sizeOf_spec]
      omega
  | tuple items =>
      have hlt : sizeOf u < sizeOf items := List.sizeOf_lt_of_mem h
      simp only [Contents.tuple.sizeOf_spec]
      omega
  | mapping readOnly entries =>
      obtain ⟨⟨k, _⟩, hentry, rfl⟩ := List.mem_map.mp h
      have hlt := List.sizeOf_lt_of_mem hentry
      simp only [Prod.mk.sizeOf_spec] at hlt
      simp only [Contents.mapping.sizeOf_spec]
      omega

namespace Store

variable {st : Store} {v u : Value}

/-! ## Reaching -/

/-- A value stands in a container. -/
def Holds (st : Store) (v u : Value) : Prop := ∃ c, st.contents? v = some c ∧ u ∈ c.values

/-- A value can be reached from a value. -/
def Reaches (st : Store) : Value → Value → Prop := Relation.ReflTransGen st.Holds

theorem holds_of_items? {items : List Value} (h : st.items? v = some items) (hu : u ∈ items) :
    st.Holds v u := by
  unfold items? at h
  split at h
  · rename_i hc
    cases h
    exact ⟨_, hc, hu⟩
  · rename_i hc
    cases h
    exact ⟨_, hc, hu⟩
  · cases h

theorem holds_of_mem_entries {entries : Entries Value} {e : Key × Value}
    (h : st.entries? v = some entries) (he : e ∈ entries) : st.Holds v e.2 := by
  unfold entries? at h
  split at h
  · rename_i hc
    cases h
    exact ⟨_, hc, List.mem_map_of_mem he⟩
  · cases h

theorem holds_of_entries? {entries : Entries Value} {k : Key} (h : st.entries? v = some entries)
    (hu : entries.find? k = some u) : st.Holds v u := by
  obtain ⟨l, hl⟩ := Entries.exists_mem_of_find? hu
  exact holds_of_mem_entries h hl

theorem contents?_of_items? {items : List Value} (h : st.items? v = some items) :
    ∃ c, st.contents? v = some c := by
  unfold items? at h
  split at h
  · exact ⟨_, by assumption⟩
  · exact ⟨_, by assumption⟩
  · cases h

theorem contents?_of_entries? {entries : Entries Value} (h : st.entries? v = some entries) :
    ∃ c, st.contents? v = some c := by
  unfold entries? at h
  split at h
  · exact ⟨_, by assumption⟩
  · cases h

/-- A sequence is no mapping. -/
theorem entries?_eq_none_of_items? {items : List Value} (h : st.items? v = some items) :
    st.entries? v = none := by
  unfold items? at h
  unfold entries?
  split at h
  · rename_i hc
    rw [hc]
  · rename_i hc
    rw [hc]
  · cases h

theorem entries?_eq_entriesOf (h : (st.entries? v).isNone = false) :
    st.entries? v = some (st.entriesOf v) := by
  unfold entriesOf
  cases hentries : st.entries? v with
  | none => cases hentries ▸ h
  | some entries => rfl

theorem items?_eq_itemsOf (h : (st.items? v).isNone = false) :
    st.items? v = some (st.itemsOf v) := by
  unfold itemsOf
  cases hitems : st.items? v with
  | none => cases hitems ▸ h
  | some items => rfl

/-- A bound on the sizes of what stands in the shared containers and in their
copies. -/
noncomputable def extent (st : Store) : Nat :=
  (st.cells.toList.map fun c => sizeOf c + sizeOf c.detach).sum

/-- An address that was never given out holds nothing. -/
theorem sizeOf_lt_extent {a : Nat} (h : u ∈ (st.read a).values ∨ u ∈ (st.read a).detach.values) :
    sizeOf u < st.extent := by
  unfold read at h
  cases hcell : st.cells[a]? with
  | none =>
      rw [hcell] at h
      rcases h with h | h <;> cases h
  | some c =>
      rw [hcell, Option.getD_some] at h
      have hmem : c ∈ st.cells.toList := Array.mem_toList_iff.mpr (Array.mem_of_getElem? hcell)
      have hle : sizeOf c + sizeOf c.detach ≤ st.extent :=
        List.single_le_sum (by simp) _ (List.mem_map_of_mem hmem)
      rcases h with h | h
      · have hlt := Contents.sizeOf_lt h
        omega
      · have hlt := Contents.sizeOf_lt h
        omega

theorem sizeOf_lt_of_holds (h : st.Holds v u) : sizeOf u < max (sizeOf v) st.extent := by
  obtain ⟨c, hc, hu⟩ := h
  rw [lt_max_iff]
  cases v with
  | atom a => cases hc
  | list items =>
      cases hc
      exact .inl (by simpa using Contents.sizeOf_lt hu)
  | tuple items =>
      cases hc
      exact .inl (by simpa using Contents.sizeOf_lt hu)
  | mapping readOnly entries =>
      cases hc
      exact .inl (by simpa using Contents.sizeOf_lt hu)
  | shared a copied =>
      cases copied <;> cases hc
      · exact .inr (sizeOf_lt_extent (.inl hu))
      · exact .inr (sizeOf_lt_extent (.inr hu))

theorem sizeOf_le_of_reaches (h : st.Reaches v u) : sizeOf u ≤ max (sizeOf v) st.extent := by
  induction h with
  | refl => exact le_max_left ..
  | tail _ h ih =>
      have hlt := sizeOf_lt_of_holds h
      omega

open Classical in
/-- The shared containers that can be reached from a value. -/
noncomputable def references (st : Store) (v : Value) : Finset Reference :=
  (Finset.range (max (sizeOf v) st.extent) ×ˢ Finset.univ).filter fun r =>
    st.Reaches v (.shared r.1 r.2)

theorem mem_references {r : Reference} :
    r ∈ st.references v ↔ st.Reaches v (.shared r.1 r.2) := by
  classical
  unfold references
  rw [Finset.mem_filter, Finset.mem_product, Finset.mem_range]
  refine ⟨fun h => h.2, fun h => ⟨⟨?_, Finset.mem_univ _⟩, h⟩⟩
  have hle := sizeOf_le_of_reaches h
  simp only [Value.shared.sizeOf_spec] at hle
  have haddress : sizeOf r.1 = r.1 := rfl
  omega

theorem references_subset (h : st.Holds v u) : st.references u ⊆ st.references v := by
  intro r hr
  exact mem_references.mpr (.head h (mem_references.mp hr))

@[simp] theorem references_atom (a : Atom) : st.references (.atom a) = ∅ := by
  refine Finset.eq_empty_of_forall_notMem fun r hr => ?_
  rcases (mem_references.mp hr).cases_head with h | ⟨u, ⟨c, hc, -⟩, -⟩
  · cases h
  · cases hc

/-! ## Counting -/

/-- A shared container, together with the containers that stand in it and are
not shared. -/
def weight (st : Store) (r : Reference) : Nat :=
  1 + ((st.contents? (.shared r.1 r.2)).map Contents.unshared).getD 0

/-- The number of containers that can be reached from a value. -/
noncomputable def containerCount (st : Store) (v : Value) : Nat :=
  v.unshared + ∑ r ∈ st.references v, st.weight r

/-- The shared containers that can be reached from a value and are not being
looked into. -/
noncomputable def unvisited (st : Store) (visited : List Identity) (v : Value) :
    Finset Reference :=
  {r ∈ st.references v | .shared r.1 r.2 ∉ visited}

/-- The number of containers that can be reached from a value, without the
shared ones that are being looked into and what stands in them. -/
noncomputable def potential (st : Store) (visited : List Identity) (v : Value) : Nat :=
  v.unshared + ∑ r ∈ st.unvisited visited v, st.weight r

theorem potential_le_containerCount (visited : List Identity) (v : Value) :
    st.potential visited v ≤ st.containerCount v :=
  Nat.add_le_add_left (Finset.sum_le_sum_of_subset (Finset.filter_subset ..)) _

@[simp] theorem potential_atom (visited : List Identity) (a : Atom) :
    st.potential visited (.atom a) = 0 := by
  simp [potential, unvisited, Value.unshared]

theorem mem_unvisited_self (st : Store) {c : Context} {a : Nat} {copied : Bool}
    (hfresh : c.hasVisited (.shared a copied) = false) :
    (a, copied) ∈ st.unvisited c.visited (.shared a copied) := by
  have hnew : .shared a copied ∉ c.visited := by
    simpa [Context.hasVisited, Value.identity?] using hfresh
  exact Finset.mem_filter.mpr ⟨mem_references.mpr .refl, hnew⟩

/-- A container that is not being looked into has a potential of its own. -/
theorem potential_pos {c : Context} {contents : Contents} (hfresh : c.hasVisited v = false)
    (h : st.contents? v = some contents) : 0 < st.potential c.visited v := by
  unfold potential
  cases v with
  | atom a => cases h
  | list items => simp only [Value.unshared]; omega
  | tuple items => simp only [Value.unshared]; omega
  | mapping readOnly entries => simp only [Value.unshared]; omega
  | shared a copied =>
      have hle := Finset.single_le_sum (f := st.weight) (fun _ _ => Nat.zero_le _)
        (st.mem_unvisited_self hfresh)
      simp only [weight] at hle ⊢
      omega

/-- What can be reached from what stands in a shared container does without
the container once that is being looked into. -/
theorem unvisited_mark_subset {c : Context} {a : Nat} {copied : Bool}
    (h : st.Holds (.shared a copied) u) :
    st.unvisited (c.mark (.shared a copied)).visited u ⊆
      (st.unvisited c.visited (.shared a copied)).erase (a, copied) := by
  intro r hr
  obtain ⟨hr, hout⟩ := Finset.mem_filter.mp hr
  have hmarked : .shared a copied ∈ (c.mark (.shared a copied)).visited ∧
      ∀ i ∈ c.visited, i ∈ (c.mark (.shared a copied)).visited := by
    simp only [Context.mark, Value.identity?]
    split <;> simp_all
  refine Finset.mem_erase.mpr ⟨?_, Finset.mem_filter.mpr ⟨references_subset h hr, ?_⟩⟩
  · rintro rfl
    exact hout hmarked.1
  · exact fun hin => hout (hmarked.2 _ hin)

/-- Looking into a container that is not being looked into uses up some of the
potential. -/
theorem potential_mark_lt {c : Context} (hfresh : c.hasVisited v = false) (h : st.Holds v u) :
    st.potential (c.mark v).visited u < st.potential c.visited v := by
  obtain ⟨contents, hc, hu⟩ := h
  have hle := Contents.unshared_le hu
  -- a container that is not shared is not marked, but it is taken off
  have hloose : v.identity? = none → v.unshared = 1 + contents.unshared →
      st.potential (c.mark v).visited u < st.potential c.visited v := by
    intro hid hcount
    have hsum : ∑ r ∈ st.unvisited c.visited u, st.weight r ≤
        ∑ r ∈ st.unvisited c.visited v, st.weight r :=
      Finset.sum_le_sum_of_subset (Finset.filter_subset_filter _ (references_subset ⟨_, hc, hu⟩))
    simp only [potential, Context.mark, hid]
    omega
  cases v with
  | atom a => cases hc
  | list items =>
      cases hc
      exact hloose rfl rfl
  | tuple items =>
      cases hc
      exact hloose rfl rfl
  | mapping readOnly entries =>
      cases hc
      exact hloose rfl rfl
  | shared a copied =>
      have hrest := Finset.sum_le_sum_of_subset (f := st.weight)
        (unvisited_mark_subset (c := c) ⟨contents, hc, hu⟩)
      have hsplit := Finset.add_sum_erase _ st.weight (st.mem_unvisited_self hfresh)
      have hweight : st.weight (a, copied) = 1 + contents.unshared := by simp [weight, hc]
      simp only [potential, Value.unshared]
      omega

/-! ## Worlds that leave a value alone -/

/-- The containers that can be reached from a value are in a world as they were
in a store. -/
def Unchanged {σ : Type} (st : Store) (v : Value) (w : World σ) : Prop :=
  ∀ r ∈ st.references v, w.store.read r.1 = st.read r.1

section Unchanged

variable {σ : Type} {w : World σ}

theorem unchanged_self (v : Value) (w : World σ) : w.store.Unchanged v w := fun _ _ => rfl

theorem Unchanged.contents?_eq (hw : st.Unchanged v w) (hu : st.references u ⊆ st.references v) :
    w.store.contents? u = st.contents? u := by
  cases u with
  | shared a copied =>
      have hread := hw (a, copied) (hu (mem_references.mpr .refl))
      cases copied with
      | false => exact congrArg some hread
      | true => exact congrArg (fun c => some c.detach) hread
  | _ => rfl

theorem Unchanged.entries?_eq (hw : st.Unchanged v w) (hu : st.references u ⊆ st.references v) :
    w.store.entries? u = st.entries? u := by
  unfold entries?
  rw [hw.contents?_eq hu]

theorem Unchanged.items?_eq (hw : st.Unchanged v w) (hu : st.references u ⊆ st.references v) :
    w.store.items? u = st.items? u := by
  unfold items?
  rw [hw.contents?_eq hu]

theorem Unchanged.entriesOf_eq (hw : st.Unchanged v w) (hu : st.references u ⊆ st.references v) :
    w.store.entriesOf u = st.entriesOf u := congrArg (·.getD []) (hw.entries?_eq hu)

theorem Unchanged.itemsOf_eq (hw : st.Unchanged v w) (hu : st.references u ⊆ st.references v) :
    w.store.itemsOf u = st.itemsOf u := congrArg (·.getD []) (hw.items?_eq hu)

end Unchanged

/-! ## Values without cycles -/

/-- No container that can be reached from a value holds itself, at once or
through others. -/
def Acyclic (st : Store) (v : Value) : Prop :=
  ∀ u, st.Reaches v u → ¬ Relation.TransGen st.Holds u u

/-- Every way down through the containers of a value ends. -/
def Grounded (st : Store) : Value → Prop := Acc (Function.swap st.Holds)

theorem Grounded.of_holds (h : st.Grounded v) (hu : st.Holds v u) : st.Grounded u := Acc.inv h hu

theorem Acyclic.of_holds (h : st.Acyclic v) (hu : st.Holds v u) : st.Acyclic u :=
  fun x hx => h x (.head hu hx)

theorem acyclic_of_holds_nothing (h : ∀ u, ¬ st.Holds v u) : st.Acyclic v := by
  intro u hu hcycle
  rcases hu.cases_head with rfl | ⟨x, hx, -⟩
  · obtain ⟨x, hx, -⟩ := Relation.TransGen.head'_iff.mp hcycle
    exact h x hx
  · exact h x hx

/-- What stands in a container that is not shared is smaller. -/
theorem sizeOf_lt_of_holds_unshared (h : st.Holds v u) (hv : v.identity? = none) :
    sizeOf u < sizeOf v := by
  obtain ⟨c, hc, hu⟩ := h
  have hlt := Contents.sizeOf_lt hu
  cases v with
  | atom a => cases hc
  | shared a copied => cases hv
  | _ =>
      cases hc
      simpa using hlt

/-- A shared container that is left behind is not reached again. -/
theorem Acyclic.card_references_lt {a : Nat} {copied : Bool} (h : st.Acyclic (.shared a copied))
    (hu : st.Holds (.shared a copied) u) :
    (st.references u).card < (st.references (.shared a copied)).card := by
  refine Finset.card_lt_card ⟨references_subset hu, fun hback => ?_⟩
  have hself : (a, copied) ∈ st.references (.shared a copied) := mem_references.mpr .refl
  exact h _ .refl (.head' hu (mem_references.mp (hback hself)))

/-- One step down leaves a shared container behind, or leads to something
smaller. -/
theorem Acyclic.lex_lt (h : st.Acyclic v) (hu : st.Holds v u) :
    Prod.Lex (· < ·) (· < ·) ((st.references u).card, sizeOf u)
      ((st.references v).card, sizeOf v) := by
  cases hv : v.identity? with
  | none =>
      rcases (Finset.card_le_card (references_subset hu)).lt_or_eq with hlt | heq
      · exact .left _ _ hlt
      · rw [heq]
        exact .right _ (sizeOf_lt_of_holds_unshared hu hv)
  | some i =>
      cases v with
      | shared a copied => exact .left _ _ (h.card_references_lt hu)
      | atom a =>
          obtain ⟨c, hc, -⟩ := hu
          cases hc
      | _ => cases hv

theorem Acyclic.grounded {v : Value} (h : st.Acyclic v) : st.Grounded v :=
  .intro v fun _ hu => (h.of_holds hu).grounded
termination_by ((st.references v).card, sizeOf v)
decreasing_by exact h.lex_lt hu

end Store

end Conform
