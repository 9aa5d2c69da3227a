import Conform.Proofs.Call
import Conform.Proofs.Carry
import Conform.Proofs.Container
import Conform.Proofs.SchemaGraph

/-!
# Every descent ends

Neither the schemas nor the values of a descent get smaller: deferred schemas
come back, and so do containers that hold themselves. But a container that is
being looked into is not looked into again, and between two containers only so
many schemas are met. So a descent uses up a potential of containers and, while
that stays, the distance to the next field or element.

The check is given a depth. That it ends without help from the depth is said
by `checkFrom`, the check with anything at the bottom of the depth: once the
depth is large enough, it does not matter what stands there.

Merging the results of members is no part of the descent. It is given the depth
that is left where it is done, and is the same whatever stands at the bottom.

## Main results

* `SchemaGraph.descends` — the step: a call that is made has less potential, or
  less distance and no more potential.
* `checkFrom_eq_check` — a check that has depth enough does not get to the
  bottom.
* `check_terminates` — there is such a depth, and no descent looks into more
  containers than can be reached from the value.
-/

namespace Conform

open Traverse

variable {σ : Type}

/-! ## Checks from the bottom up -/

/-- Whether a schema accepts an absent value, with something else at the bottom
of the depth. -/
def Setting.acceptsFrom (env : Setting σ) (bottom : MissingTest σ) : Nat → MissingTest σ
  | 0 => bottom
  | depth + 1 => env.acceptsLayer (env.acceptsFrom bottom depth)

/-- Checks a value against a schema, with something else at the bottom of the
depth. -/
def checkFrom (env : Setting σ) (mode : Mode) (accepts : MissingTest σ) (child : Checker σ) :
    Nat → Checker σ
  | 0 => child
  | depth + 1 =>
    checkLayer env mode depth (env.acceptsFrom accepts depth)
      (checkFrom env mode accepts child depth)

/-- Whether a call looks into a container. -/
def Call.enters (f : Call σ) : Bool :=
  match f.schema with
  | .object _ _ => (f.world.store.entries? f.value).isSome && !f.context.hasVisited f.value
  | .array _ _ => (f.world.store.items? f.value).isSome && !f.context.hasVisited f.value
  | _ => false

/-- A list that is checked has in the end more items than are followed. -/
def Call.Outgrows (env : Setting σ) (mode : Mode) (f : Call σ) : Prop :=
  ∃ depth element bounds done c₁ w₁, f.depth = depth + 1 ∧ f.schema = .array element bounds ∧
    (firstItems (check env mode depth element) f.value
      ((f.world.store.itemsOf f.value).length + depth)).runIn (f.context.mark f.value) f.world =
        (.ok done, c₁, w₁) ∧
    (f.world.store.itemsOf f.value).length + depth < (w₁.store.itemsOf f.value).length

namespace SchemaGraph

/-! ## What is asked of the host -/

/-- The deferred schemas that have been built are those of the graph. -/
def Agrees (G : SchemaGraph) (w : World σ) : Prop :=
  ∀ id ∈ G.ids, ∀ s, w.built.lookup id = some s → s = G.schemas id

/-- The containers that can be reached from a value are as they were, and so
are the deferred schemas. -/
structure Undisturbed (G : SchemaGraph) (st : Store) (v : Value) (w : World σ) : Prop where
  cells (r : Reference) (h : r ∈ st.references v) : w.store.read r.1 = st.read r.1
  built : G.Agrees w

/-- The callbacks of the host do not change the containers that can be reached
from a value, and its factories give the schemas of the graph, if they give
any. -/
structure Hosts (G : SchemaGraph) (env : Setting σ) (st : Store) (v : Value) : Prop where
  apply (id : Nat) (u : Value) : (env.apply id u).Keeps (G.Undisturbed st v)
  test (id : Nat) (u : Value) : (env.test id u).Keeps (G.Undisturbed st v)
  later (id : Nat) (u : Value) {w w' : World σ} {later : Act σ Value}
    (hw : G.Undisturbed st v w) (h : (env.test id u).runIn w = (.ok (.pending later), w')) :
    G.Undisturbed st v (later.runIn w').2
  produce (id : Nat) : (env.produce id).Keeps (G.Undisturbed st v)
  gives {id : Nat} (hid : id ∈ G.ids) {w w' : World σ} {s : Schema}
    (hw : G.Undisturbed st v w) (h : (env.produce id).runIn w = (.ok (.schema s), w')) :
    s = G.schemas id

variable {G : SchemaGraph} {env : Setting σ} {mode : Mode} {st : Store} {v : Value}

theorem Undisturbed.unchanged {w : World σ} (hw : G.Undisturbed st v w) : st.Unchanged v w :=
  hw.cells

theorem Undisturbed.entriesOf_eq {w : World σ} {u : Value} (hw : G.Undisturbed st v w)
    (hu : st.references u ⊆ st.references v) : w.store.entriesOf u = st.entriesOf u := by
  rw [Store.entriesOf, hw.unchanged.entries?_eq hu, Store.entriesOf]

theorem Undisturbed.itemsOf_eq {w : World σ} {u : Value} (hw : G.Undisturbed st v w)
    (hu : st.references u ⊆ st.references v) : w.store.itemsOf u = st.itemsOf u := by
  rw [Store.itemsOf, hw.unchanged.items?_eq hu, Store.itemsOf]

/-- A deferred schema of the graph is resolved to what it stands for there, and
the graph goes on agreeing. -/
theorem Hosts.resolve (h : G.Hosts env st v) (id : Nat) {w w' : World σ}
    {r : Except Fault Schema} (hw : G.Undisturbed st v w)
    (hrun : (env.resolve id).runIn w = (r, w')) :
    G.Undisturbed st v w' ∧ ∀ s, r = .ok s → id ∈ G.ids → s = G.schemas id := by
  rw [Setting.runIn_resolve] at hrun
  cases hbuilt : w.built.lookup id with
  | some s =>
      rw [hbuilt] at hrun
      cases hrun
      refine ⟨hw, fun t ht hid => ?_⟩
      cases ht
      exact hw.built id hid s hbuilt
  | none =>
      rw [hbuilt] at hrun
      have hkept := h.produce id w hw
      rcases hproduce : (env.produce id).runIn w with ⟨f | s | u, w₁⟩
      · simp only [hproduce] at hrun hkept
        cases hrun
        exact ⟨hkept, fun t ht => by cases ht⟩
      · simp only [hproduce] at hrun hkept
        cases hrun
        have hgives := fun hid => h.gives hid hw hproduce
        refine ⟨⟨hkept.cells, fun j hj t ht => ?_⟩, fun t ht hid => ?_⟩
        · rw [List.lookup_cons] at ht
          split at ht
          · rename_i hsame
            cases ht
            rw [beq_iff_eq] at hsame
            subst hsame
            exact hgives hj
          · exact hkept.built j hj t ht
        · cases ht
          exact hgives hid
      · simp only [hproduce] at hrun hkept
        cases hrun
        exact ⟨hkept, fun t ht => by cases ht⟩

theorem Hosts.keeps (h : G.Hosts env st v) : env.Keeps (G.Undisturbed st v) where
  apply := h.apply
  test := h.test
  later := h.later
  resolve id _ hw := (h.resolve id hw rfl).1

/-! ## One step down -/

/-- A bound on the distances of all schemas of a descent. -/
noncomputable def span (G : SchemaGraph) (root : Schema) : Nat :=
  (G.ids.card + 1) * (G.largest + 1) + max (sizeOf root) G.largest + 1

/-- A call is one of a descent from a schema and a value: its schema is of the
graph and no larger than those of it, from its value no more can be reached,
and what can be reached is as it was. -/
structure Within (G : SchemaGraph) (root : Schema) (st : Store) (v : Value) (f : Call σ) :
    Prop where
  fits : f.schema.Fits G.ids
  size : sizeOf f.schema ≤ max (sizeOf root) G.largest
  reaches : st.references f.value ⊆ st.references v
  world : G.Undisturbed st v f.world

/-- The potential that is left to a call. -/
noncomputable def left (st : Store) (f : Call σ) : Nat := st.potential f.context.visited f.value

theorem Within.distance_lt {root : Schema} {f : Call σ} (hf : G.Within root st v f) :
    G.distance f.schema < G.span root :=
  Nat.lt_succ_of_le (G.distance_le hf.size)

section Step

variable {root s t : Schema} {u : Value} {c c₁ : Context} {w w₁ : World σ} {depth depth₁ : Nat}

/-- A call for a schema that the value, or an atom in its place, is handed on
to. -/
theorem passing {f : Call σ} (hf : G.Within root st v f) (h : f.schema.Passes t)
    (hworld : G.Undisturbed st v w₁) (henters : f.enters = false) {x : Value}
    (hx : x = f.value ∧ c₁.visited = f.context.visited ∨ ∃ a, x = .atom a) :
    G.Within root st v ⟨depth₁, t, x, c₁, w₁⟩ ∧
      (left st (⟨depth₁, t, x, c₁, w₁⟩ : Call σ) < left st f ∨
        f.enters = false ∧ left st (⟨depth₁, t, x, c₁, w₁⟩ : Call σ) ≤ left st f ∧
          G.distance t < G.distance f.schema) := by
  refine ⟨⟨hf.fits.of_passes h, (Schema.sizeOf_lt_of_passes h).le.trans hf.size, ?_, hworld⟩,
    .inr ⟨henters, ?_, G.distance_lt_of_passes h⟩⟩
  · rcases hx with ⟨rfl, -⟩ | ⟨a, rfl⟩
    · exact hf.reaches
    · simp
  · rcases hx with ⟨rfl, hvisited⟩ | ⟨a, rfl⟩
    · simp only [left, hvisited, le_refl]
    · simp [left]

/-- A call for the schema of a field or of the elements, with an atom or with
something that stands in the container. -/
theorem Within.guards (hf : G.Within root st v ⟨depth, s, u, c, w⟩) (h : s.Guards t)
    {x : Value} (hx : st.Holds u x ∨ ∃ a, x = .atom a) (hworld : G.Undisturbed st v w₁) :
    G.Within root st v ⟨depth₁, t, x, c₁, w₁⟩ where
  fits := hf.fits.of_guards h
  size := (Schema.sizeOf_lt_of_guards h).le.trans hf.size
  reaches := by
    rcases hx with hx | ⟨a, rfl⟩
    · exact (Store.references_subset hx).trans hf.reaches
    · simp
  world := hworld

/-- What is taken out of a container that was not being looked into has less
potential. -/
theorem left_lt {x : Value} {k : Key} (hfresh : c.hasVisited u = false)
    (hu : ∃ contents, st.contents? u = some contents) (hx : st.Holds u x ∨ ∃ a, x = .atom a)
    (hvisited : c₁.visited = (c.mark u).visited) :
    left st (⟨depth₁, t, x, c₁.push k, w₁⟩ : Call σ) < left st ⟨depth, s, u, c, w⟩ := by
  show st.potential c₁.visited x < st.potential c.visited u
  rw [hvisited]
  rcases hx with hx | ⟨a, rfl⟩
  · exact Store.potential_mark_lt hfresh hx
  · obtain ⟨contents, hu⟩ := hu
    rw [Store.potential_atom]
    exact Store.potential_pos hfresh hu

/-- A call that is made is one of the descent again. It has less potential, or
no more potential and less distance; in the second case no container was
looked into. -/
theorem descends (hhost : G.Hosts env st v) {f g : Call σ} (hf : G.Within root st v f)
    (h : Call.Makes env mode f g) :
    G.Within root st v g ∧ (left st g < left st f ∨
      f.enters = false ∧ left st g ≤ left st f ∧ G.distance g.schema < G.distance f.schema) := by
  have hset := Carry.keeping_settings hhost.keeps mode
  cases h with
  | field hobject hfresh hfields hearlier hhanded =>
      obtain ⟨hvisited, hkept⟩ := Carry.of_checkFields hset _ hearlier
      have hworld := hkept hf.world
      rw [hf.world.unchanged.entries?_eq hf.reaches] at hobject
      have hentries := Store.entries?_of_isNone hobject
      have hkeep := keeps_acceptsMissing hhost.keeps
      rcases hhanded.cases_of_same fun h => by
        rw [((hkeep _ _).of_run h hworld).entriesOf_eq hf.reaches, hworld.entriesOf_eq hf.reaches]
        with ⟨hfind, rfl⟩ | ⟨-, rfl, haccepts⟩
      · rw [hworld.entriesOf_eq hf.reaches] at hfind
        have hholds := Store.holds_of_entries? hentries hfind
        exact ⟨hf.guards (Schema.guards_of_split hfields) (.inl hholds) hworld,
          .inl (left_lt hfresh (Store.contents?_of_entries? hentries) (.inl hholds) hvisited)⟩
      · have hasked := (hkeep _ _).of_run haccepts hworld
        exact ⟨hf.guards (Schema.guards_of_split hfields) (.inr ⟨_, rfl⟩) hasked,
          .inl (left_lt hfresh (Store.contents?_of_entries? hentries) (.inr ⟨_, rfl⟩) hvisited)⟩
  | element harray hfresh hmore hearlier hitem =>
      obtain ⟨hvisited, hkept⟩ := Carry.of_firstItems hset _ hearlier
      have hworld := hkept hf.world
      rw [hf.world.unchanged.items?_eq hf.reaches] at harray
      rw [hworld.itemsOf_eq hf.reaches] at hitem
      have hitems := Store.items?_of_isNone harray
      have hholds := Store.holds_of_items? hitems (List.mem_of_getElem? hitem)
      exact ⟨hf.guards .element (.inl hholds) hworld,
        .inl (left_lt hfresh (Store.contents?_of_items? hitems) (.inl hholds) hvisited)⟩
  | option hoptions hearlier =>
      obtain ⟨hvisited, hkept⟩ := Carry.of_tryMembers hset _ hearlier
      exact passing hf (.option (by simp [hoptions])) (hkept hf.world) rfl (.inl ⟨rfl, hvisited⟩)
  | member hmembers hearlier =>
      obtain ⟨hvisited, hkept⟩ := Carry.of_tryMembers hset _ hearlier
      exact passing hf (.member (by simp [hmembers])) (hkept hf.world) rfl (.inl ⟨rfl, hvisited⟩)
  | optional => exact passing hf .optional hf.world rfl (.inl ⟨rfl, rfl⟩)
  | nullable => exact passing hf .nullable hf.world rfl (.inl ⟨rfl, rfl⟩)
  | copy =>
      obtain ⟨a, rfl⟩ := hf.fits.plain _ _ .refl
      exact passing hf .withDefault hf.world rfl (.inr ⟨_, rfl⟩)
  | withDefault => exact passing hf .withDefault hf.world rfl (.inl ⟨rfl, rfl⟩)
  | transform => exact passing hf .transform hf.world rfl (.inl ⟨rfl, rfl⟩)
  | refine => exact passing hf .refine hf.world rfl (.inl ⟨rfl, rfl⟩)
  | deferred hresolve =>
      obtain ⟨hworld, hschema⟩ := hhost.resolve _ hf.world hresolve
      have hid := hf.fits.mentions _ .refl
      obtain rfl := hschema _ rfl hid
      refine ⟨⟨G.fits _ hid, ?_, hf.reaches, hworld⟩, .inr ⟨rfl, le_rfl, G.distance_schemas_lt hid⟩⟩
      exact (G.sizeOf_schemas_le hid).trans (le_max_right ..)

end Step

/-! ## Whole descents -/

/-- What is left of a descent at a call: no more calls follow. -/
noncomputable def measure (G : SchemaGraph) (root : Schema) (st : Store) (f : Call σ) : Nat :=
  left st f * G.span root + G.distance f.schema

theorem measure_lt (hhost : G.Hosts env st v) {root : Schema} {f g : Call σ}
    (hf : G.Within root st v f) (h : Call.Makes env mode f g) :
    G.measure root st g < G.measure root st f := by
  obtain ⟨hg, hless⟩ := descends hhost hf h
  unfold measure
  rcases hless with hless | ⟨-, hleft, hdistance⟩
  · have hspan := Nat.mul_le_mul_right (G.span root) hless
    rw [Nat.succ_mul] at hspan
    have hbelow := hg.distance_lt
    omega
  · have hspan := Nat.mul_le_mul_right (G.span root) hleft
    omega

/-- A call that looks into a container has something left. -/
theorem left_pos {root : Schema} {f : Call σ} (hf : G.Within root st v f)
    (h : f.enters = true) : 0 < left st f := by
  obtain ⟨depth, s, u, c, w⟩ := f
  unfold Call.enters at h
  split at h
  · simp only [Bool.and_eq_true, Option.isSome_iff_exists, Bool.not_eq_true'] at h
    obtain ⟨⟨entries, hentries⟩, hfresh⟩ := h
    rw [hf.world.unchanged.entries?_eq hf.reaches] at hentries
    obtain ⟨contents, hcontents⟩ := Store.contents?_of_entries? hentries
    exact Store.potential_pos hfresh hcontents
  · simp only [Bool.and_eq_true, Option.isSome_iff_exists, Bool.not_eq_true'] at h
    obtain ⟨⟨items, hitems⟩, hfresh⟩ := h
    rw [hf.world.unchanged.items?_eq hf.reaches] at hitems
    obtain ⟨contents, hcontents⟩ := Store.contents?_of_items? hitems
    exact Store.potential_pos hfresh hcontents
  · cases h

/-- A descent from a call has no more calls than its measure allows, and looks
into no more containers than its potential allows. -/
theorem descent_le (hhost : G.Hosts env st v) {root : Schema} {f : Call σ}
    (hf : G.Within root st v f) {calls : List (Call σ)} (h : Call.Descent env mode (f :: calls)) :
    calls.length ≤ G.measure root st f ∧ (f :: calls).countP Call.enters ≤ left st f := by
  induction calls generalizing f with
  | nil =>
      refine ⟨Nat.zero_le _, ?_⟩
      cases henters : f.enters with
      | true => simpa [henters] using Nat.succ_le_of_lt (left_pos hf henters)
      | false => simp [henters]
  | cons g calls ih =>
      obtain ⟨hmakes, hrest⟩ := List.isChain_cons_cons.mp h
      obtain ⟨hg, hless⟩ := descends hhost hf hmakes
      obtain ⟨hlength, hcount⟩ := ih hg hrest
      have hmeasure := measure_lt hhost hf hmakes
      refine ⟨by simp only [List.length_cons]; omega, ?_⟩
      rw [List.countP_cons]
      rcases hless with hless | ⟨henters, hleft, -⟩
      · split <;> omega
      · simp only [henters, Bool.false_eq_true, if_false]
        omega

/-- What a descent reaches is of it. -/
theorem within_of_reaches (hhost : G.Hosts env st v) {root : Schema} {f g : Call σ}
    (hf : G.Within root st v f) (h : Call.Reaches env mode f g) : G.Within root st v g := by
  induction h with
  | refl => exact hf
  | tail _ hmakes ih => exact (descends hhost ih hmakes).1

/-- A list that the host leaves alone keeps its items. -/
theorem not_outgrows (hhost : G.Hosts env st v) {root : Schema} {f : Call σ}
    (hf : G.Within root st v f) : ¬ f.Outgrows env mode := by
  rintro ⟨depth, element, bounds, done, c₁, w₁, -, -, hitems, hmore⟩
  have hset := Carry.keeping_settings hhost.keeps mode
  have hworld := (Carry.of_firstItems hset depth hitems).2 hf.world
  rw [hworld.itemsOf_eq hf.reaches, hf.world.itemsOf_eq hf.reaches] at hmore
  omega

/-! ## The bottom is not reached -/

theorem runIn_anyOf_congr {I : World σ → Prop} {p p' : Schema → Act σ Bool} {ss : List Schema}
    (hkeep : ∀ s ∈ ss, (p s).Keeps I)
    (h : ∀ s ∈ ss, ∀ w, I w → (p' s).runIn w = (p s).runIn w) {w : World σ} (hw : I w) :
    (Setting.anyOf p' ss).runIn w = (Setting.anyOf p ss).runIn w := by
  induction ss generalizing w with
  | nil => rfl
  | cons s ss ih =>
      simp only [Setting.anyOf]
      rw [Act.runIn_bind, Act.runIn_bind, h s List.mem_cons_self w hw]
      rcases hrun : (p s).runIn w with ⟨f | accepted, w₁⟩
      · rfl
      · have hw₁ := (hkeep s List.mem_cons_self).of_run hrun hw
        cases accepted with
        | true => rfl
        | false =>
            exact ih (fun t ht => hkeep t (List.mem_cons_of_mem _ ht))
              (fun t ht => h t (List.mem_cons_of_mem _ ht)) hw₁

theorem runIn_allOf_congr {I : World σ → Prop} {p p' : Schema → Act σ Bool} {ss : List Schema}
    (hkeep : ∀ s ∈ ss, (p s).Keeps I)
    (h : ∀ s ∈ ss, ∀ w, I w → (p' s).runIn w = (p s).runIn w) {w : World σ} (hw : I w) :
    (Setting.allOf p' ss).runIn w = (Setting.allOf p ss).runIn w := by
  induction ss generalizing w with
  | nil => rfl
  | cons s ss ih =>
      simp only [Setting.allOf]
      rw [Act.runIn_bind, Act.runIn_bind, h s List.mem_cons_self w hw]
      rcases hrun : (p s).runIn w with ⟨f | accepted, w₁⟩
      · rfl
      · have hw₁ := (hkeep s List.mem_cons_self).of_run hrun hw
        cases accepted with
        | false => rfl
        | true =>
            exact ih (fun t ht => hkeep t (List.mem_cons_of_mem _ ht))
              (fun t ht => h t (List.mem_cons_of_mem _ ht)) hw₁

/-- Whether a schema accepts an absent value is settled before the next field
or element. -/
theorem acceptsFrom_eq (hhost : G.Hosts env st v) (bottom : MissingTest σ) {depth : Nat}
    {s : Schema} {w : World σ} (hs : s.Fits G.ids) (hw : G.Undisturbed st v w)
    (hdepth : G.distance s < depth) :
    (env.acceptsFrom bottom depth s).runIn w = (env.acceptsMissing depth s).runIn w := by
  induction depth generalizing s w with
  | zero => omega
  | succ depth ih =>
      have hinner : ∀ t, s.Passes t → ∀ w, G.Undisturbed st v w →
          (env.acceptsFrom bottom depth t).runIn w = (env.acceptsMissing depth t).runIn w := by
        intro t ht w hw
        have hless := G.distance_lt_of_passes ht
        exact ih (hs.of_passes ht) hw (by omega)
      have hkeep : ∀ t, (env.acceptsMissing depth t).Keeps (G.Undisturbed st v) :=
        keeps_acceptsMissing hhost.keeps depth
      simp only [Setting.acceptsFrom, Setting.acceptsMissing]
      cases s with
      | nullable inner => exact hinner inner .nullable w hw
      | transform inner step => exact hinner inner .transform w hw
      | refine inner id words code => exact hinner inner .refine w hw
      | union first rest =>
          exact runIn_anyOf_congr (fun t _ => hkeep t) (fun t ht => hinner t (.option ht)) hw
      | intersection first rest =>
          exact runIn_allOf_congr (fun t _ => hkeep t) (fun t ht => hinner t (.member ht)) hw
      | deferred id =>
          simp only [Setting.acceptsLayer]
          rw [Act.runIn_bind, Act.runIn_bind]
          rcases hrun : (env.resolve id).runIn w with ⟨f | t, w₁⟩
          · rfl
          · obtain ⟨hw₁, hschema⟩ := hhost.resolve id hw hrun
            have hid := hs.mentions id .refl
            obtain rfl := hschema t rfl hid
            have hless := G.distance_schemas_lt hid
            exact ih (G.fits id hid) hw₁ (by omega)
      | _ => rfl

/-- A call that asks about a field looks into a container, so there is much
left of its descent. -/
theorem span_le_measure_of_asks {root field : Schema} {f : Call σ} {w₁ : World σ}
    (hf : G.Within root st v f) (h : Call.Asks env mode f field w₁) :
    G.span root ≤ G.measure root st f := by
  have henters : f.enters = true := by
    cases h with
    | field hobject hfresh => simpa [Call.enters, hfresh] using hobject
  have hle := Nat.mul_le_mul_right (G.span root) (Nat.succ_le_of_lt (left_pos hf henters))
  unfold measure
  omega

/-- A field that is asked about is of the descent. -/
theorem asks_within (hhost : G.Hosts env st v) {root field : Schema} {f : Call σ} {w₁ : World σ}
    (hf : G.Within root st v f) (h : Call.Asks env mode f field w₁) :
    field.Fits G.ids ∧ G.Undisturbed st v w₁ ∧ G.distance field < G.span root := by
  cases h with
  | field hobject hfresh hfields hearlier habsent =>
      have hset := Carry.keeping_settings hhost.keeps mode
      have hworld := (Carry.of_checkFields hset _ hearlier).2 hf.world
      have hg : G.Within root st v ⟨0, field, .missing, {}, w₁⟩ :=
        hf.guards (Schema.guards_of_split hfields) (.inr ⟨_, rfl⟩) hworld
      exact ⟨hg.fits, hworld, hg.distance_lt⟩

/-- A check that has depth enough is the same whatever stands at the bottom of
the depth. -/
theorem checkFrom_eq_check (hhost : G.Hosts env st v) (accepts : MissingTest σ)
    (child : Checker σ) {root : Schema} {f : Call σ} (hf : G.Within root st v f)
    (hdepth : G.measure root st f < f.depth) :
    (checkFrom env mode accepts child f.depth f.schema f.value).runIn f.context f.world =
      f.run env mode := by
  induction f using Call.induct env mode with
  | h f ih =>
      obtain ⟨depth, s, u, c, w⟩ := f
      cases depth with
      | zero => simp at hdepth
      | succ depth =>
          refine Call.runIn_checkLayer_congr ?_ ?_
          · intro field w₁ hasks
            have hspan := span_le_measure_of_asks hf hasks
            obtain ⟨hfield, hw₁, hless⟩ := asks_within hhost hf hasks
            simp only at hdepth
            exact acceptsFrom_eq hhost accepts hfield hw₁ (by omega)
          · intro g hg
            have hless := measure_lt hhost hf hg
            have hused := hg.depth_eq
            simp only at hdepth hused
            have hg' := ih g hg (descends hhost hf hg).1 (by omega)
            have hsame : depth = g.depth := by omega
            exact hsame ▸ hg'

end SchemaGraph

/-! ## Termination -/

/-- In a finite graph of schemas where each way round passes through a field or
an element, and with a host that leaves the value alone, there is a depth from
which on a check does not get to the bottom, on any context and in both modes.
No descent has more calls than that, none looks into more containers than
can be reached from the value, and all items of every list are followed. -/
theorem check_terminates (G : SchemaGraph) (env : Setting σ) (root : Schema) (v : Value)
    (w : World σ) (hroot : root.Fits G.ids) (hbuilt : G.Agrees w)
    (hhost : G.Hosts env w.store v) :
    ∃ bound, ∀ mode c depth,
      (bound ≤ depth → ∀ accepts child,
        (checkFrom env mode accepts child depth root v).runIn c w =
          (check env mode depth root v).runIn c w) ∧
      (∀ calls, Call.Descent env mode (⟨depth, root, v, c, w⟩ :: calls) →
        calls.length < bound ∧
          List.countP Call.enters (⟨depth, root, v, c, w⟩ :: calls) ≤
            w.store.containerCount v) ∧
      (∀ f, Call.Reaches env mode ⟨depth, root, v, c, w⟩ f → ¬ f.Outgrows env mode) := by
  refine ⟨w.store.containerCount v * G.span root + G.span root, fun mode c depth => ?_⟩
  have hf : G.Within root w.store v ⟨depth, root, v, c, w⟩ :=
    ⟨hroot, le_max_left .., subset_rfl, fun _ _ => rfl, hbuilt⟩
  have hleft : SchemaGraph.left w.store (⟨depth, root, v, c, w⟩ : Call σ) ≤
      w.store.containerCount v := Store.potential_le_containerCount ..
  have hmeasure : G.measure root w.store (⟨depth, root, v, c, w⟩ : Call σ) <
      w.store.containerCount v * G.span root + G.span root :=
    Nat.add_lt_add_of_le_of_lt (Nat.mul_le_mul_right _ hleft) hf.distance_lt
  refine ⟨fun hdepth accepts child => ?_, fun calls hcalls => ?_, fun f hreaches => ?_⟩
  · exact SchemaGraph.checkFrom_eq_check hhost accepts child hf (hmeasure.trans_le hdepth)
  · obtain ⟨hlength, hcount⟩ := SchemaGraph.descent_le hhost hf hcalls
    exact ⟨hlength.trans_lt hmeasure, hcount.trans hleft⟩
  · exact SchemaGraph.not_outgrows hhost (SchemaGraph.within_of_reaches hhost hf hreaches)

/-- A list of such lists. -/
def nestedList : Schema := .array (.deferred 0) {}

theorem part_nestedList {t : Schema} (h : nestedList.Part t) :
    t = nestedList ∨ t = .deferred 0 := by
  induction h with
  | refl => exact .inl rfl
  | tail _ hstep ih =>
      rcases ih with rfl | rfl
      · rcases hstep with hstep | hstep <;> cases hstep
        exact .inr rfl
      · rcases hstep with hstep | hstep <;> cases hstep

/-- Its graph: the deferred schema stands for it, and comes back to itself only
through the elements. -/
def nestedListGraph : SchemaGraph where
  ids := {0}
  schemas _ := nestedList
  fits _ _ :=
    { mentions := fun id h => by
        rcases part_nestedList h with h | h <;> cases h
        exact Finset.mem_singleton_self 0
      plain := fun inner default h => by rcases part_nestedList h with h | h <;> cases h }
  guarded id _ := by
    have hnone : ∀ j, ¬ nestedList.Exposes j := by
      intro j hj
      rcases hj.cases_head with h | ⟨t, h, -⟩ <;> cases h
    intro h
    obtain ⟨j, hj, -⟩ := Relation.TransGen.head'_iff.mp h
    exact hnone j hj

/-- A host that can build it. -/
def nestedListHost : Setting Unit where
  apply _ v := return v
  test _ _ := return .settled (.bool true)
  testRule _ _ _ := return .settled (.bool true)
  produce _ := return .schema nestedList

/-- A list that holds nothing but itself. -/
def selfHolding : World Unit where
  store := ⟨#[.list [.shared 0 false]]⟩
  host := ()

theorem containerCount_selfHolding :
    selfHolding.store.containerCount (.shared 0 false) = 1 := by
  have hreaches : ∀ u, selfHolding.store.Reaches (.shared 0 false) u → u = .shared 0 false := by
    intro u hu
    induction hu with
    | refl => rfl
    | tail _ h ih =>
        subst ih
        obtain ⟨c, hc, hu⟩ := h
        cases hc
        exact List.mem_singleton.mp hu
  have hreferences : selfHolding.store.references (.shared 0 false) = {(0, false)} := by
    ext ⟨a, copied⟩
    rw [Store.mem_references, Finset.mem_singleton]
    constructor
    · intro h
      cases hreaches _ h
      rfl
    · intro h
      cases h
      exact .refl
  unfold Store.containerCount
  rw [hreferences, Finset.sum_singleton]
  rfl

/-- A list that holds itself is looked into once. -/
theorem check_terminates_selfHolding :
    ∃ bound, ∀ mode c depth,
      (bound ≤ depth → ∀ accepts child,
        (checkFrom nestedListHost mode accepts child depth nestedList (.shared 0 false)).runIn c
            selfHolding =
          (check nestedListHost mode depth nestedList (.shared 0 false)).runIn c selfHolding) ∧
      (∀ calls, Call.Descent nestedListHost mode
          (⟨depth, nestedList, .shared 0 false, c, selfHolding⟩ :: calls) →
        calls.length < bound ∧
          List.countP Call.enters
            (⟨depth, nestedList, .shared 0 false, c, selfHolding⟩ :: calls) ≤ 1) ∧
      (∀ f,
        Call.Reaches nestedListHost mode ⟨depth, nestedList, .shared 0 false, c, selfHolding⟩ f →
        ¬ f.Outgrows nestedListHost mode) := by
  rw [← containerCount_selfHolding]
  refine check_terminates nestedListGraph nestedListHost nestedList (.shared 0 false) selfHolding
    (nestedListGraph.fits 0 (Finset.mem_singleton_self 0)) (fun _ _ s h => by cases h) ?_
  exact
    { apply := fun _ _ _ hw => hw
      test := fun _ _ _ hw => hw
      later := fun _ _ _ _ _ _ h => by cases h
      produce := fun _ _ hw => hw
      gives := fun _ _ _ _ _ h => by
        cases h
        rfl }

end Conform
