import Conform.Proofs.Report
import Conform.Proofs.Restoration
import Conform.Proofs.Termination

/-!
# Where a descent goes

A call hands on its value, or one of the values that stand in it; it goes down by
the key of that value and by nothing else. `Step` says what a call has to do with
a call that it makes, whatever the schema is. With it goes what holds of all calls
of a run: they keep the invariants of the world that the host keeps, and a host
that leaves the containers of a value alone lets the path of a call lead to its
value.

## Main results

* `Call.Makes.step` — all that a call can do to the value and the context that it
  hands on.
* `Call.schema_of_reaches` — what goes from schemas to the schemas in them, all
  schemas of a run have.
* `Call.at?_of_reaches` — from the value of a run, the path of a call leads to the
  value of the call.
-/

namespace Conform

open Traverse

/-! ## Places in a value -/

namespace Store

variable {st : Store} {v u : Value}

/-- What stands under a key in a mapping, or at a place in a sequence. -/
def child? (st : Store) (v : Value) (k : Key) : Option Value :=
  match st.entries? v with
  | some entries => entries.find? k
  | none =>
    match st.items? v, k with
    | some items, .atom (.int (.ofNat i)) => items[i]?
    | _, _ => none

/-- What stands at the end of a path. -/
def at? (st : Store) (v : Value) : Path → Option Value
  | [] => some v
  | k :: ks => (st.child? v k).bind (st.at? · ks)

theorem child?_of_entries? {entries : Entries Value} (h : st.entries? v = some entries) (k : Key) :
    st.child? v k = entries.find? k := by
  simp [child?, h]

theorem child?_of_items? {items : List Value} (h : st.items? v = some items) (i : Nat) :
    st.child? v (.index i) = items[i]? := by
  have hentries := entries?_eq_none_of_items? h
  simp only [child?, hentries, h]

theorem child?_of_find? {k : Key} (h : (st.entriesOf v).find? k = some u) :
    st.child? v k = some u := by
  cases hentries : st.entries? v with
  | none => simp [entriesOf, hentries] at h
  | some entries => rw [child?_of_entries? hentries, ← entriesOf_of_entries? hentries, h]

theorem child?_of_getElem? {i : Nat} (h : (st.itemsOf v)[i]? = some u) :
    st.child? v (.index i) = some u := by
  cases hitems : st.items? v with
  | none => simp [itemsOf, hitems] at h
  | some items => rw [child?_of_items? hitems, ← itemsOf_of_items? hitems, h]

theorem holds_of_child? {k : Key} (h : st.child? v k = some u) : st.Holds v u := by
  unfold child? at h
  split at h
  · rename_i hentries
    exact holds_of_entries? hentries h
  · split at h
    · rename_i hitems
      exact holds_of_items? hitems (List.mem_of_getElem? h)
    · cases h

@[simp] theorem child?_atom (st : Store) (a : Atom) (k : Key) : st.child? (.atom a) k = none := rfl

theorem at?_append (st : Store) (v : Value) (p q : Path) :
    st.at? v (p ++ q) = (st.at? v p).bind (st.at? · q) := by
  induction p generalizing v with
  | nil => rfl
  | cons k p ih =>
      simp only [List.cons_append, at?]
      cases st.child? v k with
      | none => rfl
      | some u => exact ih u

theorem at?_concat (st : Store) (v : Value) (p : Path) (k : Key) :
    st.at? v (p ++ [k]) = (st.at? v p).bind (st.child? · k) := by
  rw [at?_append]
  refine congrArg _ (funext fun u => ?_)
  simp only [at?]
  cases st.child? u k <;> rfl

theorem reaches_of_at? {p : Path} (h : st.at? v p = some u) : st.Reaches v u := by
  induction p generalizing v with
  | nil =>
      cases h
      exact .refl
  | cons k p ih =>
      obtain ⟨x, hx, hu⟩ := Option.bind_eq_some_iff.mp h
      exact .head (holds_of_child? hx) (ih hu)

/-- What stands further down is held. -/
theorem transGen_of_at? {p : Path} (hp : p ≠ []) (h : st.at? v p = some u) :
    Relation.TransGen st.Holds v u := by
  cases p with
  | nil => exact absurd rfl hp
  | cons k p =>
      obtain ⟨x, hx, hu⟩ := Option.bind_eq_some_iff.mp h
      exact .head' (holds_of_child? hx) (reaches_of_at? hu)

theorem references_subset_of_reaches (h : st.Reaches v u) : st.references u ⊆ st.references v :=
  fun _ hr => mem_references.mpr (h.trans (mem_references.mp hr))

theorem Unchanged.child?_eq {σ : Type} {w : World σ} (hw : st.Unchanged v w)
    (hu : st.references u ⊆ st.references v) (k : Key) : w.store.child? u k = st.child? u k := by
  simp only [child?, hw.entries?_eq hu, hw.items?_eq hu]

end Store

/-! ## One step down -/

namespace Call

variable {σ : Type} {env : Setting σ} {mode : Mode} {f g h : Call σ}

theorem enters_eq (f : Call σ) : f.enters = (f.meets && !f.context.hasVisited f.value) := by
  obtain ⟨depth, s, v, c, w⟩ := f
  cases s <;> rfl

/-- A call that is made starts in a world that keeps the invariants that the host
keeps. -/
theorem Makes.keeps {I : World σ → Prop} (hkeeps : env.Keeps I) (hmakes : Makes env mode f g)
    (hworld : I f.world) : I g.world := by
  have hset := Carry.keeping_settings hkeeps mode
  cases hmakes with
  | field hobject hfresh hfields hearlier hhanded =>
      have hearlier := (Carry.of_checkFields hset _ hearlier).2 hworld
      cases hhanded with
      | present hfind => exact hearlier
      | absent hfind haccepts => exact (keeps_acceptsMissing hkeeps _ _).of_run haccepts hearlier
  | element harray hfresh hmore hearlier hitem =>
      exact (Carry.of_firstItems hset _ hearlier).2 hworld
  | option hoptions hearlier => exact (Carry.of_tryMembers hset _ hearlier).2 hworld
  | member hmembers hearlier => exact (Carry.of_tryMembers hset _ hearlier).2 hworld
  | deferred hresolve => exact (hkeeps.resolve _).of_run hresolve hworld
  | _ => exact hworld

theorem Makes.after (hmakes : Makes env mode f g) : env.After f.world g.world :=
  fun _ hkeeps => hmakes.keeps hkeeps

/-- What a call has to do with a call that it makes. What stands in a container is read off
it when its turn comes, in a world that comes after that of the call. -/
inductive Step (env : Setting σ) (f g : Call σ) : Prop
  /-- It looks into a container and goes down by a key. -/
  | down {k : Key} (henters : f.enters = true)
      (hpath : g.context.path = f.context.path ++ [k])
      (hvisited : g.context.visited = (f.context.mark f.value).visited)
      (hvalue : (∃ w, env.After f.world w ∧ w.store.child? f.value k = some g.value) ∨
        (f.world.store.entries? f.value).isNone = false ∧
          (g.world.store.entriesOf f.value).find? k = none ∧ g.value = .missing)
  /-- It hands on its value. -/
  | level (hmeets : f.meets = false) (hcopies : f.copies = false)
      (hpath : g.context.path = f.context.path)
      (hvisited : g.context.visited = f.context.visited) (hvalue : g.value = f.value)
  /-- It hands on a copy of a default, into which nothing looks yet. -/
  | copy (hmeets : f.meets = false) (hcopies : f.copies = true)
      (hcontext : g.context = f.context.afresh)

theorem Makes.step (hmakes : Makes env mode f g) : Step env f g := by
  have hafter := hmakes.after
  cases hmakes with
  | @field _ _ _ v _ _ _ k _ _ _ _ _ _ w₂ hobject hfresh hfields hearlier hhanded =>
      have hback := restored_of_checkFields hearlier
      refine .down (k := k) (by simpa [enters, hfresh] using hobject) ?_ hback.visited ?_
      · rw [Context.push_path, hback.path, Context.path_mark]
      · cases hhanded with
        | present hfind => exact .inl ⟨_, hafter, Store.child?_of_find? hfind⟩
        | absent hfind haccepts =>
            cases hagain : (w₂.store.entriesOf v).find? k with
            | none => exact .inr ⟨hobject, rfl, rfl⟩
            | some u => exact .inl ⟨w₂, hafter, Store.child?_of_find? hagain⟩
  | element harray hfresh hmore hearlier hitem =>
      have hback := restored_of_firstItems hearlier
      refine .down (by simpa [enters, hfresh] using harray) ?_ hback.visited
        (.inl ⟨_, hafter, Store.child?_of_getElem? hitem⟩)
      rw [Context.push_path, hback.path, Context.path_mark]
  | option hoptions hearlier =>
      have hback := restored_of_tryMembers hearlier
      exact .level rfl rfl hback.path hback.visited rfl
  | member hmembers hearlier =>
      have hback := restored_of_tryMembers hearlier
      exact .level rfl rfl hback.path hback.visited rfl
  | copy h => exact .copy rfl h rfl
  | withDefault h => exact .level rfl h rfl rfl rfl
  | _ => exact .level rfl rfl rfl rfl rfl

/-- The schema of a call that is made stands in that of the call, or this is deferred and
stands for it. -/
theorem Makes.schema_cases (hmakes : Makes env mode f g) :
    (f.schema.Passes g.schema ∨ f.schema.Guards g.schema) ∨
      ∃ id, f.schema = .deferred id ∧
        (env.resolve id).runIn f.world = (.ok g.schema, g.world) := by
  cases hmakes with
  | field hobject hfresh hfields hearlier hhanded =>
      exact .inl (.inr (Schema.guards_of_split hfields))
  | element harray hfresh hmore hearlier hitem => exact .inl (.inr .element)
  | option hoptions hearlier => exact .inl (.inl (.option (by simp [hoptions])))
  | member hmembers hearlier => exact .inl (.inl (.member (by simp [hmembers])))
  | optional h => exact .inl (.inl .optional)
  | nullable h => exact .inl (.inl .nullable)
  | copy h => exact .inl (.inl .withDefault)
  | withDefault h => exact .inl (.inl .withDefault)
  | transform => exact .inl (.inl .transform)
  | refine => exact .inl (.inl .refine)
  | deferred hresolve => exact .inr ⟨_, rfl, hresolve⟩

/-- The schema of a call that is made stands in that of the call, or is what a
deferred schema stands for. -/
theorem Makes.schema (hmakes : Makes env mode f g) :
    (f.schema.Passes g.schema ∨ f.schema.Guards g.schema) ∨
      ∃ id, (env.resolve id).runIn f.world = (.ok g.schema, g.world) :=
  hmakes.schema_cases.imp_right fun ⟨id, _, hresolve⟩ => ⟨id, hresolve⟩

/-! ## Whole runs -/

theorem keeps_of_reaches {I : World σ → Prop} (hkeeps : env.Keeps I)
    (hreaches : Reaches env mode f g) (hworld : I f.world) : I g.world := by
  induction hreaches with
  | refl => exact hworld
  | tail _ hmakes ih => exact hmakes.keeps hkeeps ih

/-- What is handed on to the schemas that stand in a schema, and is had by those
that deferred ones stand for, all schemas of a run have. -/
theorem schema_of_reaches {I : World σ → Prop} {P : Schema → Prop} (hkeeps : env.Keeps I)
    (hworld : I f.world) (hparts : ∀ s t, P s → s.Passes t ∨ s.Guards t → P t)
    (hresolve : ∀ id w t w', I w → (env.resolve id).runIn w = (.ok t, w') → P t)
    (hschema : P f.schema) (hreaches : Reaches env mode f g) : P g.schema := by
  induction hreaches with
  | refl => exact hschema
  | tail hreaches hmakes ih =>
      rcases hmakes.schema with hpart | ⟨id, hid⟩
      · exact hparts _ _ ih hpart
      · exact hresolve id _ _ _ (keeps_of_reaches hkeeps hreaches hworld) hid

/-- The host that does nothing builds no schemas either. -/
theorem schema_of_reaches_idle {P : Schema → Prop} {f g : Call Unit}
    (hbuilt : f.world.built = []) (hparts : ∀ s t, P s → s.Passes t ∨ s.Guards t → P t)
    (hschema : P f.schema) (hreaches : Reaches idleHost mode f g) : P g.schema := by
  refine schema_of_reaches (I := fun w => w.built = []) (keeps_idleHost _) hbuilt hparts ?_ hschema
    hreaches
  intro id w t w' hbuilt hrun
  rw [Setting.runIn_resolve, hbuilt] at hrun
  cases hrun

/-- No default stands in for a value anywhere in the run of a call. -/
def DefaultFree (env : Setting σ) (mode : Mode) (f : Call σ) : Prop :=
  ∀ g, Reaches env mode f g → ∀ inner default, g.schema ≠ .withDefault inner default

theorem DefaultFree.copies_eq (hfree : DefaultFree env mode f) (hreaches : Reaches env mode f g) :
    g.copies = false := by
  obtain ⟨depth, s, v, c, w⟩ := g
  cases s with
  | withDefault inner default => exact absurd rfl (hfree _ hreaches inner default)
  | _ => rfl

/-- From the value of a run, the path of a call leads to the value of the call; a
call with the marker of an absent value may be for a key that is not there. -/
theorem at?_of_reaches {st : Store} {v : Value} (hkeeps : env.Keeps (st.Unchanged v))
    (hworld : st.Unchanged v f.world) (hvalue : f.value = v) (hpath : f.context.path = [])
    (hfree : DefaultFree env mode f) (hreaches : Reaches env mode f g) :
    st.at? v g.context.path = some g.value ∨
      st.at? v g.context.path = none ∧ g.value = .missing := by
  induction hreaches with
  | refl =>
      rw [hpath, ← hvalue]
      exact .inl rfl
  | @tail g h hreaches hmakes ih =>
      have hworld := keeps_of_reaches hkeeps hreaches hworld
      cases hmakes.step with
      | down henters hstep _ hchild =>
          rw [hstep, Store.at?_concat]
          rcases ih with hat | ⟨hat, hmissing⟩
          · have hsubset := Store.references_subset_of_reaches (Store.reaches_of_at? hat)
            rw [hat, Option.bind_some]
            rcases hchild with ⟨w, hafter, hchild⟩ | ⟨hobject, habsent, hmissing⟩
            · exact .inl ((hafter _ hkeeps hworld).child?_eq hsubset _ ▸ hchild)
            · have hafter := hmakes.keeps hkeeps hworld
              rw [hworld.entries?_eq hsubset] at hobject
              have hentries := Store.entries?_of_isNone hobject
              rw [Store.entriesOf, hafter.entries?_eq hsubset, ← Store.entriesOf] at habsent
              exact .inr ⟨(Store.child?_of_entries? hentries _).trans habsent, hmissing⟩
          · rw [hmissing] at hchild
            rcases hchild with ⟨w, -, hchild⟩ | ⟨-, -, hmissing⟩
            · cases hchild
            · exact .inr ⟨by rw [hat]; rfl, hmissing⟩
      | level _ _ hstep _ hsame => rwa [hstep, hsame]
      | copy _ hcopies _ => simp [hfree.copies_eq hreaches] at hcopies

end Call

end Conform
