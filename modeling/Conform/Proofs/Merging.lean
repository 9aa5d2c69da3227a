import Conform.Proofs.Carry
import Conform.Proofs.Container

/-!
# When merging ends

The results of the members of an intersection are merged by going down both
sides at once. Nothing stops this at a container that was met before. A result
may be the value that was handed in, so it may hold itself although the checks
that gave it ended; where two such results are merged, no depth is enough.

Where one of the two sides has no cycle, the way down ends with that side.
And what two sides without cycles are merged into has none either. So the
results of all members are merged if at most one of them has a cycle.

## Main results

* `Store.mergeStep` — all that one step of merging can do.
* `settles_mergeAll` — results of which at most one has a cycle are merged at
  some depth, and alike at every greater one.
* `intersection_terminates` — the same for the check of an intersection whose
  members have ended.
* `intersection_exhausts_selfNamed` — two members whose checks end, and an
  intersection of them that uses up every depth.
-/

namespace Conform

/-! ## Settling -/

/-- Something that is given a depth comes to an end: from some depth on it gives
the same, and does not give up for want of depth. -/
def Settles {α : Type} (merge : Nat → Except MergeFailure α) : Prop :=
  ∃ bound, merge bound ≠ .error .tooDeep ∧ ∀ depth, bound ≤ depth → merge depth = merge bound

theorem bind_eq_ok_iff {α β : Type} {merge : Except MergeFailure α}
    {next : α → Except MergeFailure β} {b : β} :
    merge >>= next = .ok b ↔ ∃ a, merge = .ok a ∧ next a = .ok b := by
  cases merge with
  | error f =>
      constructor
      · intro h
        cases h
      · rintro ⟨_, h, -⟩
        cases h
  | ok a =>
      constructor
      · intro h
        exact ⟨a, rfl, h⟩
      · rintro ⟨_, ha, h⟩
        cases ha
        exact h

theorem map_eq_ok_iff {α β : Type} {merge : Except MergeFailure α} {f : α → β} {b : β} :
    merge.map f = .ok b ↔ ∃ a, merge = .ok a ∧ f a = b := by
  cases merge <;> simp [Except.map]

namespace Settles

variable {α β : Type} {merge : Nat → Except MergeFailure α}

theorem const {r : Except MergeFailure α} (h : r ≠ .error .tooDeep) : Settles fun _ => r :=
  ⟨0, h, fun _ _ => rfl⟩

theorem of_succ (h : Settles fun depth => merge (depth + 1)) : Settles merge := by
  obtain ⟨bound, hends, hsame⟩ := h
  refine ⟨bound + 1, hends, fun depth hdepth => ?_⟩
  obtain ⟨depth, rfl⟩ : ∃ d, depth = d + 1 := ⟨depth - 1, by omega⟩
  exact hsame depth (by omega)

theorem bind {next : Nat → α → Except MergeFailure β} (h : Settles merge)
    (hnext : ∀ a depth, merge depth = .ok a → Settles (next · a)) :
    Settles fun depth => merge depth >>= next depth := by
  obtain ⟨bound, hends, hsame⟩ := h
  cases hmerge : merge bound with
  | error f =>
      have hall : ∀ depth, bound ≤ depth → (merge depth >>= next depth) = .error f := by
        intro depth hdepth
        rw [hsame depth hdepth, hmerge]
        rfl
      refine ⟨bound, ?_, fun depth hdepth => (hall depth hdepth).trans (hall _ le_rfl).symm⟩
      simp only [hall _ le_rfl, ne_eq, Except.error.injEq]
      rintro rfl
      exact hends hmerge
  | ok a =>
      obtain ⟨more, hends', hsame'⟩ := hnext a bound hmerge
      have hall : ∀ depth, max bound more ≤ depth → (merge depth >>= next depth) = next more a := by
        intro depth hdepth
        rw [hsame depth (by omega), hmerge]
        exact hsame' depth (by omega)
      refine ⟨max bound more, ?_, fun depth hdepth => ?_⟩
      · simpa only [hall _ le_rfl] using hends'
      · exact (hall depth hdepth).trans (hall _ le_rfl).symm

theorem map (f : α → β) (h : Settles merge) : Settles fun depth => (merge depth).map f := by
  have hbind : (fun depth => (merge depth).map f) =
      fun depth => merge depth >>= fun a => .ok (f a) := by
    funext depth
    cases merge depth <;> rfl
  rw [hbind]
  exact h.bind fun a _ _ => .const (by simp)

end Settles

/-! ## One step of merging -/

namespace Store

variable {st : Store} {u v : Value} {path : Path} {depth : Nat}

/-- What merging two values comes to, whatever the depth: one of them, a
conflict, or merging what stands in them. -/
inductive MergeStep (st : Store) (path : Path) (u v : Value) : Prop
  | left (h : ∀ depth, mergeValues st (depth + 1) path u v = .ok u)
  | right (h : ∀ depth, mergeValues st (depth + 1) path u v = .ok v)
  | conflict (h : ∀ depth, mergeValues st (depth + 1) path u v = .error (.conflict path u v))
  | entries {es fs : Entries Value} (hu : st.entries? u = some es) (hv : st.entries? v = some fs)
      (h : ∀ depth, mergeValues st (depth + 1) path u v =
        (mergeEntries (fun k => mergeValues st depth (path ++ [k])) es es fs).map (.mapping false))
  | items {us vs : List Value} (hu : st.items? u = some us) (hv : st.items? v = some vs)
      (h : ∀ depth, mergeValues st (depth + 1) path u v =
        (mergeItems (fun i => mergeValues st depth (path ++ [.index i])) 0 us vs).map .list)

theorem mergeValues_of_entries? {es fs : Entries Value} (hu : st.entries? u = some es)
    (hv : st.entries? v = some fs) :
    mergeValues st (depth + 1) path u v =
      (mergeEntries (fun k => mergeValues st depth (path ++ [k])) es es fs).map
        (.mapping false) := by
  unfold mergeValues
  split
  · cases hu
  · cases hv
  · cases hu
  · simp only [hu, hv]

theorem mergeValues_of_items? {us vs : List Value} (hu : st.items? u = some us)
    (hv : st.items? v = some vs) (hlength : us.length = vs.length) :
    mergeValues st (depth + 1) path u v =
      (mergeItems (fun i => mergeValues st depth (path ++ [.index i])) 0 us vs).map .list := by
  have hentries := entries?_eq_none_of_items? hu
  unfold mergeValues
  split
  · cases hu
  · cases hv
  · cases hu
  · simp only [hentries, hu, hv, hlength, if_true]

/-- What is not missing, not two atoms, and neither two mappings nor two
sequences of one length cannot be merged. -/
theorem mergeValues_of_unlike (hu : u ≠ .missing) (hv : v ≠ .missing)
    (hatoms : ¬ ∃ a b, u = .atom a ∧ v = .atom b)
    (hentries : ¬ ∃ es fs, st.entries? u = some es ∧ st.entries? v = some fs)
    (hitems : ¬ ∃ us vs, st.items? u = some us ∧ st.items? v = some vs ∧
      us.length = vs.length) :
    mergeValues st (depth + 1) path u v = .error (.conflict path u v) := by
  unfold mergeValues
  split
  · exact absurd rfl hu
  · exact absurd rfl hv
  · exact absurd ⟨_, _, rfl, rfl⟩ hatoms
  · split
    · rename_i hes hfs
      exact absurd ⟨_, _, hes, hfs⟩ hentries
    · split
      · rename_i hus hvs
        split
        · rename_i hlength
          exact absurd ⟨_, _, hus, hvs, hlength⟩ hitems
        · rfl
      · rfl

theorem mergeStep (st : Store) (path : Path) (u v : Value) : MergeStep st path u v := by
  by_cases hu : u = .missing
  · exact .right fun depth => by simp [hu]
  by_cases hv : v = .missing
  · exact .left fun depth => by simp [hv]
  by_cases hatoms : ∃ a b, u = .atom a ∧ v = .atom b
  · obtain ⟨a, b, rfl, rfl⟩ := hatoms
    by_cases hsame : a.sameKind b = true
    · exact .left fun depth => by simp_all [mergeValues]
    · exact .conflict fun depth => by simp_all [mergeValues]
  by_cases hentries : ∃ es fs, st.entries? u = some es ∧ st.entries? v = some fs
  · obtain ⟨es, fs, hes, hfs⟩ := hentries
    exact .entries hes hfs fun depth => mergeValues_of_entries? hes hfs
  by_cases hitems : ∃ us vs, st.items? u = some us ∧ st.items? v = some vs ∧
      us.length = vs.length
  · obtain ⟨us, vs, hus, hvs, hlength⟩ := hitems
    exact .items hus hvs fun depth => mergeValues_of_items? hus hvs hlength
  · exact .conflict fun depth => mergeValues_of_unlike hu hv hatoms hentries hitems

/-! ## Loops -/

theorem mergeEntries_cons {merge : Key → Value → Value → Except MergeFailure Value}
    {left merged : Entries Value} {k : Key} {x y : Value} (h : left.find? k = some x)
    (rest : Entries Value) :
    mergeEntries merge left merged ((k, y) :: rest) =
      merge k x y >>= fun m => mergeEntries merge left (merged.put k m) rest := by
  simp only [mergeEntries, h]
  cases merge k x y <;> rfl

theorem mergeItems_cons (merge : Nat → Value → Value → Except MergeFailure Value) (i : Nat)
    (x y : Value) (us vs : List Value) :
    mergeItems merge i (x :: us) (y :: vs) =
      merge i x y >>= fun m => (mergeItems merge (i + 1) us vs).map (m :: ·) := by
  simp only [mergeItems]
  cases merge i x y with
  | error f => rfl
  | ok m =>
      show _ = (mergeItems merge (i + 1) us vs).map (m :: ·)
      cases mergeItems merge (i + 1) us vs <;> rfl

theorem settles_mergeEntries {merge : Nat → Key → Value → Value → Except MergeFailure Value}
    {left merged right : Entries Value}
    (h : ∀ k x y, left.find? k = some x → (k, y) ∈ right → Settles (merge · k x y)) :
    Settles fun depth => mergeEntries (merge depth) left merged right := by
  induction right generalizing merged with
  | nil => exact .const (by simp)
  | cons e right ih =>
      obtain ⟨k, y⟩ := e
      have hrest : ∀ merged, Settles fun depth => mergeEntries (merge depth) left merged right :=
        fun merged => ih fun l x z hx hz => h l x z hx (List.mem_cons_of_mem _ hz)
      cases hfind : left.find? k with
      | none => simpa only [mergeEntries, hfind] using hrest (merged.put k y)
      | some x =>
          simp only [mergeEntries_cons hfind]
          exact (h k x y hfind List.mem_cons_self).bind fun m _ _ => hrest (merged.put k m)

theorem settles_mergeItems {merge : Nat → Nat → Value → Value → Except MergeFailure Value}
    {us vs : List Value} (h : ∀ i, ∀ x ∈ us, ∀ y ∈ vs, Settles (merge · i x y)) (i : Nat) :
    Settles fun depth => mergeItems (merge depth) i us vs := by
  induction us generalizing i vs with
  | nil => exact .const (by simp)
  | cons x us ih =>
      cases vs with
      | nil => exact .const (by simp)
      | cons y vs =>
          simp only [mergeItems_cons]
          refine (h i x List.mem_cons_self y List.mem_cons_self).bind fun m _ _ => .map _ (ih ?_ _)
          exact fun j x' hx' y' hy' =>
            h j x' (List.mem_cons_of_mem _ hx') y' (List.mem_cons_of_mem _ hy')

/-! ## Sides without cycles -/

/-- Merging two values ends if merging what stands in them does. -/
theorem settles_of_holds
    (h : ∀ path x y, st.Holds u x → st.Holds v y →
      Settles fun depth => mergeValues st depth path x y)
    (path : Path) : Settles fun depth => mergeValues st depth path u v := by
  refine .of_succ ?_
  rcases mergeStep st path u v with hstep | hstep | hstep | ⟨hu, hv, hstep⟩ | ⟨hu, hv, hstep⟩ <;>
    simp only [hstep]
  · exact .const (by simp)
  · exact .const (by simp)
  · exact .const (by simp)
  · refine .map _ (settles_mergeEntries fun k x y hx hy => ?_)
    exact h _ x y (holds_of_entries? hu hx) (holds_of_mem_entries hv hy)
  · refine .map _ (settles_mergeItems (fun i x hx y hy => ?_) 0)
    exact h _ x y (holds_of_items? hu hx) (holds_of_items? hv hy)

theorem settles_of_grounded_left (hu : st.Grounded u) (v : Value) (path : Path) :
    Settles fun depth => mergeValues st depth path u v := by
  induction hu generalizing v path with
  | intro u _ ih => exact settles_of_holds (fun path x y hx _ => ih x hx y path) path

theorem settles_of_grounded_right (hv : st.Grounded v) (u : Value) (path : Path) :
    Settles fun depth => mergeValues st depth path u v := by
  induction hv generalizing u path with
  | intro v _ ih => exact settles_of_holds (fun path x y _ hy => ih y hy x path) path

theorem grounded_mapping {readOnly : Bool} {es : Entries Value}
    (h : ∀ e ∈ es, st.Grounded e.2) : st.Grounded (.mapping readOnly es) := by
  refine .intro _ fun x hx => ?_
  obtain ⟨_, hc, hx⟩ := hx
  cases hc
  obtain ⟨e, he, rfl⟩ := List.mem_map.mp hx
  exact h e he

theorem grounded_list {items : List Value} (h : ∀ x ∈ items, st.Grounded x) :
    st.Grounded (.list items) := by
  refine .intro _ fun x hx => ?_
  obtain ⟨_, hc, hx⟩ := hx
  cases hc
  exact h x hx

/-! ## What merging builds -/

/-- A property of values that goes down into containers, and that mappings and lists have
which are built of values with it. A mapping is built with the keys of two others. -/
structure Builds (st : Store) (P : Value → Prop) : Prop where
  holds {u x : Value} (hu : P u) (hx : st.Holds u x) : P x
  mapping {u v : Value} {es fs done : Entries Value} (hu : P u) (hv : P v)
    (hes : st.entries? u = some es) (hfs : st.entries? v = some fs) (hdone : ∀ e ∈ done, P e.2)
    (hkeys : ∀ k ∈ done.keys, k ∈ es.keys ∨ k ∈ fs.keys) : P (.mapping false done)
  list {items : List Value} (hitems : ∀ x ∈ items, P x) : P (.list items)

variable {P : Value → Prop}

theorem builds_mergeEntries {merge : Key → Value → Value → Except MergeFailure Value}
    {left merged right done : Entries Value} (hmerged : ∀ e ∈ merged, P e.2)
    (hright : ∀ e ∈ right, P e.2)
    (hmerge : ∀ k x y m, left.find? k = some x → (k, y) ∈ right → merge k x y = .ok m → P m)
    (h : mergeEntries merge left merged right = .ok done) :
    (∀ e ∈ done, P e.2) ∧ ∀ k ∈ done.keys, k ∈ merged.keys ∨ k ∈ right.keys := by
  induction right generalizing merged with
  | nil =>
      cases h
      exact ⟨hmerged, fun k hk => .inl hk⟩
  | cons e right ih =>
      obtain ⟨k, y⟩ := e
      have hrest : ∀ m, P m → mergeEntries merge left (merged.put k m) right = .ok done →
          (∀ e ∈ done, P e.2) ∧ ∀ l ∈ done.keys, l ∈ merged.keys ∨ l ∈ k :: Entries.keys right := by
        intro m hm hdone
        have hput : ∀ e ∈ merged.put k m, P e.2 := by
          intro e he
          rcases Entries.mem_put he with he | he
          · exact hmerged e he
          · exact he ▸ hm
        obtain ⟨hvalues, hkeys⟩ := ih hput (fun e he => hright e (List.mem_cons_of_mem _ he))
          (fun l x z m hx hz => hmerge l x z m hx (List.mem_cons_of_mem _ hz)) hdone
        refine ⟨hvalues, fun l hl => ?_⟩
        rcases hkeys l hl with hl | hl
        · rw [Entries.keys_put] at hl
          split at hl
          · exact .inl hl
          · rcases List.mem_append.mp hl with hl | hl
            · exact .inl hl
            · obtain rfl := List.mem_singleton.mp hl
              exact .inr List.mem_cons_self
        · exact .inr (List.mem_cons_of_mem _ hl)
      cases hfind : left.find? k with
      | none =>
          simp only [mergeEntries, hfind] at h
          exact hrest y (hright _ List.mem_cons_self) h
      | some x =>
          rw [mergeEntries_cons hfind] at h
          obtain ⟨m, hm, h⟩ := bind_eq_ok_iff.mp h
          exact hrest m (hmerge k x y m hfind List.mem_cons_self hm) h

theorem builds_mergeItems {merge : Nat → Value → Value → Except MergeFailure Value} {i : Nat}
    {us vs done : List Value}
    (hmerge : ∀ i, ∀ x ∈ us, ∀ y ∈ vs, ∀ m, merge i x y = .ok m → P m)
    (h : mergeItems merge i us vs = .ok done) : ∀ x ∈ done, P x := by
  induction us generalizing i vs done with
  | nil =>
      cases h
      simp
  | cons x us ih =>
      cases vs with
      | nil =>
          cases h
          simp
      | cons y vs =>
          rw [mergeItems_cons] at h
          obtain ⟨m, hm, h⟩ := bind_eq_ok_iff.mp h
          obtain ⟨ms, hms, rfl⟩ := map_eq_ok_iff.mp h
          have hrest := ih (fun j x' hx' y' hy' => hmerge j x' (List.mem_cons_of_mem _ hx') y'
            (List.mem_cons_of_mem _ hy')) hms
          exact List.forall_mem_cons.mpr
            ⟨hmerge i x List.mem_cons_self y List.mem_cons_self m hm, hrest⟩

/-- What two sides are merged into is built of what stands in them. -/
theorem Builds.mergeValues {m : Value} (hbuilds : st.Builds P) (hu : P u) (hv : P v)
    (h : mergeValues st depth path u v = .ok m) : P m := by
  induction depth generalizing path u v m with
  | zero => cases h
  | succ depth ih =>
      rcases mergeStep st path u v with
        hstep | hstep | hstep | ⟨hes, hfs, hstep⟩ | ⟨hus, hvs, hstep⟩ <;> rw [hstep] at h
      · cases h
        exact hu
      · cases h
        exact hv
      · cases h
      · obtain ⟨done, hdone, rfl⟩ := map_eq_ok_iff.mp h
        obtain ⟨hvalues, hkeys⟩ := builds_mergeEntries
          (fun e he => hbuilds.holds hu (holds_of_mem_entries hes he))
          (fun e he => hbuilds.holds hv (holds_of_mem_entries hfs he))
          (fun k x y m hx hy => ih (hbuilds.holds hu (holds_of_entries? hes hx))
            (hbuilds.holds hv (holds_of_mem_entries hfs hy))) hdone
        exact hbuilds.mapping hu hv hes hfs hvalues hkeys
      · obtain ⟨done, hdone, rfl⟩ := map_eq_ok_iff.mp h
        refine hbuilds.list (builds_mergeItems ?_ hdone)
        exact fun i x hx y hy m => ih (hbuilds.holds hu (holds_of_items? hus hx))
          (hbuilds.holds hv (holds_of_items? hvs hy))

theorem builds_grounded (st : Store) : st.Builds st.Grounded where
  holds hu hx := hu.of_holds hx
  mapping _ _ _ _ hdone _ := grounded_mapping hdone
  list hitems := grounded_list hitems

end Store

/-! ## Intersections -/

open Traverse

theorem mergeAll_cons (st : Store) (depth : Nat) (first v : Value) (rest : List Value) :
    mergeAll st depth first (v :: rest) =
      mergeValues st depth [] first v >>= fun m => mergeAll st depth m rest := by
  simp only [mergeAll]
  cases mergeValues st depth [] first v <;> rfl

/-- Results of which at most one has a cycle are merged. -/
theorem settles_mergeAll {st : Store} {first : Value} {rest : List Value}
    (h : (first :: rest).Pairwise fun u v => st.Grounded u ∨ st.Grounded v) :
    Settles fun depth => mergeAll st depth first rest := by
  induction rest generalizing first with
  | nil => exact .const (by simp)
  | cons v rest ih =>
      obtain ⟨hfirst, hv, hrest⟩ : (∀ u ∈ v :: rest, st.Grounded first ∨ st.Grounded u) ∧
          (∀ u ∈ rest, st.Grounded v ∨ st.Grounded u) ∧
          rest.Pairwise fun u v => st.Grounded u ∨ st.Grounded v := by
        simpa only [List.pairwise_cons] using h
      simp only [mergeAll_cons]
      refine .bind ?_ fun m depth hm => ih ?_
      · rcases hfirst v List.mem_cons_self with hleft | hright
        · exact Store.settles_of_grounded_left hleft v []
        · exact Store.settles_of_grounded_right hright first []
      · -- one that is left has a cycle only if neither of the merged ones has
        refine List.pairwise_cons.mpr ⟨fun u hu => ?_, hrest⟩
        by_cases hcycle : st.Grounded u
        · exact .inr hcycle
        · have hleft := (hfirst u (List.mem_cons_of_mem _ hu)).resolve_right hcycle
          exact .inl
            ((Store.builds_grounded st).mergeValues hleft ((hv u hu).resolve_right hcycle) hm)

theorem runIn_combine {σ : Type} (env : Setting σ) (depth : Nat) (first : Value)
    (rest : List Value) (c : Context) (w : World σ) :
    (combine env depth (first :: rest) []).runIn c w =
      match mergeAll w.store depth first rest with
      | .ok merged => (.ok merged, c, w)
      | .error (.conflict path left right) =>
        (Engine.refuse env (conflictFound path left right)).runIn c w
      | .error .tooDeep => (.error .exhausted, c, w) := by
  show (Engine.store >>= _ : Engine σ Value).runIn c w = _
  rw [Engine.runIn_bind_of_ok _ (Engine.runIn_store c w)]
  rcases mergeAll w.store depth first rest with ⟨path, left, right⟩ | merged <;> rfl

/-- Where the members of an intersection have ended, and of any two of their
results one has no cycle, the results are merged at some depth, and the check
of the intersection is the same at every greater one. -/
theorem intersection_terminates {σ : Type} (env : Setting σ) (mode : Mode) (first : Schema)
    (rest : List Schema) (v : Value) (c c₁ : Context) (w w₁ : World σ) (results : List Value)
    (groups : List (List ErrorRecord)) (enough : Nat)
    (hmembers : ∀ depth, enough ≤ depth →
      (tryMembers (check env mode depth) v (first :: rest)).runIn c w =
        (.ok (results, groups), c₁, w₁))
    (hacyclic : results.Pairwise fun u u' => w₁.store.Acyclic u ∨ w₁.store.Acyclic u') :
    ∃ bound, ∀ depth, bound ≤ depth →
      (∀ r rs, results = r :: rs → mergeAll w₁.store depth r rs ≠ .error .tooDeep) ∧
      (check env mode (depth + 1) (.intersection first rest) v).runIn c w =
        (check env mode (bound + 1) (.intersection first rest) v).runIn c w := by
  have hcheck : ∀ depth, enough ≤ depth →
      (check env mode (depth + 1) (.intersection first rest) v).runIn c w =
        (combine env depth results groups).runIn c₁ w₁ :=
    fun depth hdepth => Engine.runIn_bind_of_ok _ (hmembers depth hdepth)
  cases results with
  | nil =>
      refine ⟨enough, fun depth hdepth => ⟨fun r rs h => (by cases h), ?_⟩⟩
      rw [hcheck depth hdepth, hcheck enough le_rfl]
      rfl
  | cons r rs =>
      obtain ⟨bound, hends, hsame⟩ :=
        settles_mergeAll (hacyclic.imp (Or.imp Store.Acyclic.grounded Store.Acyclic.grounded))
      have hmerged : ∀ depth, max enough bound ≤ depth →
          mergeAll w₁.store depth r rs = mergeAll w₁.store bound r rs :=
        fun depth hdepth => hsame depth (by omega)
      refine ⟨max enough bound, fun depth hdepth => ⟨fun r' rs' h => ?_, ?_⟩⟩
      · cases h
        rw [hmerged depth hdepth]
        exact hends
      · rw [hcheck depth (by omega), hcheck _ (by omega)]
        cases groups with
        | cons group groups => rfl
        | nil => rw [runIn_combine, runIn_combine, hmerged depth hdepth, hmerged _ le_rfl]

/-- A mapping that holds itself under a name. -/
def selfNamed : World Unit where
  store := ⟨#[.mapping false [(.text "self", .shared 0 false)]]⟩
  host := ()

/-- What an object schema that lets every key through makes of it. -/
def passedSelfNamed : Value := .mapping false [(.text "self", .shared 0 false)]

/-- An object schema that lets every key through and one that drops every key:
only the result of the first has a cycle. -/
theorem intersection_terminates_selfNamed :
    ∃ bound, ∀ depth, bound ≤ depth →
      (∀ r rs, [passedSelfNamed, .mapping false []] = r :: rs →
        mergeAll selfNamed.store depth r rs ≠ .error .tooDeep) ∧
      (check idleHost .immediate (depth + 1)
          (.intersection (.object [] .passthrough) [.object [] .strip]) (.shared 0 false)).runIn {}
          selfNamed =
        (check idleHost .immediate (bound + 1)
          (.intersection (.object [] .passthrough) [.object [] .strip]) (.shared 0 false)).runIn {}
          selfNamed := by
  refine intersection_terminates idleHost .immediate (.object [] .passthrough) [.object [] .strip]
    (.shared 0 false) {} {} selfNamed selfNamed _ [] 1 (fun depth hdepth => ?_) ?_
  · obtain ⟨depth, rfl⟩ : ∃ d, depth = d + 1 := ⟨depth - 1, by omega⟩
    rfl
  · have hempty : selfNamed.store.Acyclic (.mapping false []) := by
      refine Store.acyclic_of_holds_nothing fun u hu => ?_
      obtain ⟨_, hc, hu⟩ := hu
      cases hc
      cases hu
    simpa using Or.inr hempty

/-- Merging what holds a mapping that holds itself with the same goes round in
it. -/
theorem mergeAll_selfNamed (depth : Nat) :
    mergeAll selfNamed.store depth passedSelfNamed [passedSelfNamed] = .error .tooDeep := by
  have hkey : Entries.find? [(Key.text "self", Value.shared 0 false)] (.text "self") =
      some (.shared 0 false) := rfl
  have hshared : selfNamed.store.entries? (.shared 0 false) =
      some [(.text "self", .shared 0 false)] := rfl
  have hround : ∀ depth path, mergeValues selfNamed.store depth path (.shared 0 false)
      (.shared 0 false) = .error .tooDeep := by
    intro depth
    induction depth with
    | zero => exact fun _ => rfl
    | succ depth ih =>
        intro path
        simp only [mergeValues, hshared, Store.mergeEntries_cons hkey, ih]
        rfl
  have hpassed : selfNamed.store.entries? (.mapping false [(.text "self", .shared 0 false)]) =
      some [(.text "self", .shared 0 false)] := rfl
  cases depth with
  | zero => rfl
  | succ depth =>
      simp only [passedSelfNamed, mergeAll, mergeValues, hpassed, Store.mergeEntries_cons hkey,
        hround]
      rfl

/-- Two object schemas that let every key through. Each of them alone ends on a
mapping that holds itself. Their results are merged by going round in the
mapping without end, so that every depth is used up. -/
theorem intersection_exhausts_selfNamed :
    (∀ depth, (check idleHost .immediate (depth + 1) (.object [] .passthrough)
        (.shared 0 false)).runIn {} selfNamed = (.ok passedSelfNamed, {}, selfNamed)) ∧
    ∀ depth, ((check idleHost .immediate depth
        (.intersection (.object [] .passthrough) [.object [] .passthrough])
        (.shared 0 false)).runIn {} selfNamed).1 = .error .exhausted := by
  refine ⟨fun depth => rfl, fun depth => ?_⟩
  cases depth with
  | zero => rfl
  | succ depth =>
      cases depth with
      | zero => rfl
      | succ depth =>
          have hmembers : (tryMembers (check idleHost .immediate (depth + 1)) (.shared 0 false)
              [.object [] .passthrough, .object [] .passthrough]).runIn {} selfNamed =
                (.ok ([passedSelfNamed, passedSelfNamed], []), {}, selfNamed) := rfl
          have hcheck := Engine.runIn_bind_of_ok (fun done =>
            combine idleHost (depth + 1) done.1 done.2) hmembers
          rw [runIn_combine, mergeAll_selfNamed] at hcheck
          exact congrArg Prod.fst hcheck

end Conform
