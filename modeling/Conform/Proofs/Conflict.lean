import Conform.Proofs.Descent
import Conform.Proofs.Parts
import Conform.Value.Equality

/-!
# Where merging conflicts

Two values are merged position by position, the right one giving the order: under
every key of a mapping and at every index of a sequence what stands on both sides is
merged before the next is looked at. So a merged value has the positions of the two
sides and no other, and the first two values that cannot be reconciled end the
merging, with the path that leads to them.

Paths are taken from the right side, which names its keys as it holds them. That a
merge ends well does not depend on the path where it is done, and a conflict further
down is the conflict of what stands there, with the path put before it.

## Main results

* `Store.meeting` — all that two values can be to each other.
* `Store.mergeValues_append` — the path at which values are merged stands before the
  path of their conflict, and makes no other difference.
* `Store.mergedAt_of_mergeValues` — a merged value, at every path.
* `Store.conflict_of_mergeValues` — a conflict, and what was merged before it.
* `merged_or_first_conflict` — what merging comes to.
-/

namespace Conform

/-- The place that a key of a path names in a container. -/
def Mold.place? : Mold → Key → Option Place
  | .mapping, k => some (.key k)
  | .sequence _, .atom (.int (.ofNat i)) => some (.index i)
  | _, _ => none

theorem map_eq_error_iff {α β : Type} {merge : Except MergeFailure α} {f : α → β}
    {e : MergeFailure} : merge.map f = .error e ↔ merge = .error e := by
  cases merge <;> simp [Except.map]

/-! ## Failures further up -/

namespace MergeFailure

/-- The failure as it is reported from the end of a path. -/
def under (p : Path) : MergeFailure → MergeFailure
  | conflict q u v => conflict (p ++ q) u v
  | tooDeep => tooDeep

end MergeFailure

namespace Store

variable {st : Store} {u v m x y : Value} {path p q : Path} {depth : Nat}

/-! ## What two values are to each other -/

/-- Two values that cannot be reconciled. -/
structure Irreconcilable (st : Store) (u v : Value) : Prop where
  left : u ≠ .missing
  right : v ≠ .missing
  mappings : ¬ ∃ es fs, st.entries? u = some es ∧ st.entries? v = some fs
  sequences : ¬ ∃ us vs, st.items? u = some us ∧ st.items? v = some vs ∧ us.length = vs.length
  kinds (depth : Nat) : st.sameKind? depth u v ≠ some true

/-- All that two values can be to each other when they are merged. -/
inductive Meeting (st : Store) : Value → Value → Prop
  | missingLeft (v : Value) : Meeting st .missing v
  | missingRight (u : Value) : Meeting st u .missing
  | atoms {a b : Atom} (ha : (.atom a : Value) ≠ .missing) (hb : (.atom b : Value) ≠ .missing)
      (h : a.sameKind b = true) : Meeting st (.atom a) (.atom b)
  | entries {u v : Value} {es fs : Entries Value} (hes : st.entries? u = some es)
      (hfs : st.entries? v = some fs) : Meeting st u v
  | items {u v : Value} {us vs : List Value} (hus : st.items? u = some us)
      (hvs : st.items? v = some vs) (hlength : us.length = vs.length) : Meeting st u v
  | unlike {u v : Value} (h : st.Irreconcilable u v) : Meeting st u v

/-- A container is a mapping or a sequence. -/
theorem entries?_or_items? (hu : ∀ a, u ≠ .atom a) :
    (∃ es, st.entries? u = some es) ∨ ∃ us, st.items? u = some us := by
  cases h : st.mold u with
  | atom =>
      obtain ⟨a, rfl⟩ := mold_eq_atom_iff.mp h
      exact absurd rfl (hu a)
  | mapping => exact .inl (mold_eq_mapping_iff.mp h)
  | sequence n =>
      obtain ⟨us, hus, -⟩ := mold_eq_sequence_iff.mp h
      exact .inr ⟨us, hus⟩

theorem contentsEqual?_ne_of_unlike {equal : Value → Value → Option Bool}
    (hentries : ¬ ∃ es fs, st.entries? u = some es ∧ st.entries? v = some fs)
    (hitems : ¬ ∃ us vs, st.items? u = some us ∧ st.items? v = some vs ∧
      us.length = vs.length) :
    equal?.contentsEqual? equal (st.contents? u) (st.contents? v) ≠ some true := by
  unfold entries? at hentries
  unfold items? at hitems
  generalize st.contents? u = c, st.contents? v = d at hentries hitems ⊢
  rcases c with _ | _ | _ | _ <;> rcases d with _ | _ | _ | _ <;>
    simp_all [equal?.contentsEqual?]

theorem sameKind?_ne_of_unlike (hatoms : ¬ ∃ a b, u = .atom a ∧ v = .atom b)
    (hentries : ¬ ∃ es fs, st.entries? u = some es ∧ st.entries? v = some fs)
    (hitems : ¬ ∃ us vs, st.items? u = some us ∧ st.items? v = some vs ∧
      us.length = vs.length) (depth : Nat) : st.sameKind? depth u v ≠ some true := by
  have hcontents : ∀ equal : Value → Value → Option Bool,
      equal?.contentsEqual? equal (st.contents? u) (st.contents? v) ≠ some true :=
    fun _ => contentsEqual?_ne_of_unlike hentries hitems
  unfold sameKind?
  split
  · exact absurd ⟨_, _, rfl, rfl⟩ hatoms
  split
  swap
  · simp
  cases depth with
  | zero => simp [equal?]
  | succ depth =>
      unfold equal?
      split
      · exact absurd ⟨_, _, rfl, rfl⟩ hatoms
      · split
        · rename_i hsame
          obtain ⟨rfl, rfl⟩ := hsame
          rcases @entries?_or_items? st (.shared _ _) nofun with ⟨es, hes⟩ | ⟨us, hus⟩
          · exact absurd ⟨es, es, hes, hes⟩ hentries
          · exact absurd ⟨us, us, hus, hus, rfl⟩ hitems
        · exact hcontents _
      · exact hcontents _

theorem meeting (st : Store) (u v : Value) : st.Meeting u v := by
  by_cases hu : u = .missing
  · exact hu ▸ .missingLeft v
  by_cases hv : v = .missing
  · exact hv ▸ .missingRight u
  by_cases hatoms : ∃ a b, u = .atom a ∧ v = .atom b
  · obtain ⟨a, b, rfl, rfl⟩ := hatoms
    by_cases hsame : a.sameKind b = true
    · exact .atoms hu hv hsame
    · exact .unlike ⟨hu, hv, nofun, nofun, fun _ h => hsame (Option.some.inj h)⟩
  by_cases hentries : ∃ es fs, st.entries? u = some es ∧ st.entries? v = some fs
  · obtain ⟨es, fs, hes, hfs⟩ := hentries
    exact .entries hes hfs
  by_cases hitems : ∃ us vs, st.items? u = some us ∧ st.items? v = some vs ∧
      us.length = vs.length
  · obtain ⟨us, vs, hus, hvs, hlength⟩ := hitems
    exact .items hus hvs hlength
  · exact .unlike ⟨hu, hv, hentries, hitems, sameKind?_ne_of_unlike hatoms hentries hitems⟩

/-- What cannot be reconciled is a conflict where it is met. -/
theorem Irreconcilable.mergeValues (h : st.Irreconcilable u v) (depth : Nat) (path : Path) :
    mergeValues st (depth + 1) path u v = .error (.conflict path u v) := by
  by_cases hatoms : ∃ a b, u = .atom a ∧ v = .atom b
  · obtain ⟨a, b, rfl, rfl⟩ := hatoms
    have hkinds : a.sameKind b ≠ true := fun hsame => h.kinds 0 (congrArg some hsame)
    rw [mergeValues_atoms h.left h.right, if_neg hkinds]
  · exact mergeValues_of_unlike h.left h.right hatoms h.mappings h.sequences

/-! ## Paths -/

section Loops

variable {merge merge' : Key → Value → Value → Except MergeFailure Value}
  {left merged right done : Entries Value}

theorem mergeEntries_mapError {f : MergeFailure → MergeFailure}
    (h : ∀ k x y, merge' k x y = (merge k x y).mapError f) (left merged right : Entries Value) :
    mergeEntries merge' left merged right = (mergeEntries merge left merged right).mapError f := by
  induction right generalizing merged with
  | nil => rfl
  | cons e right ih =>
      obtain ⟨k, y⟩ := e
      cases hfind : left.find? k with
      | none =>
          simp only [mergeEntries, hfind]
          exact ih _
      | some x =>
          rw [mergeEntries_cons hfind, mergeEntries_cons hfind, h]
          cases merge k x y with
          | error f => rfl
          | ok m => exact ih _

theorem mergeItems_mapError {merge merge' : Nat → Value → Value → Except MergeFailure Value}
    {f : MergeFailure → MergeFailure} (h : ∀ i x y, merge' i x y = (merge i x y).mapError f)
    (i : Nat) (us vs : List Value) :
    mergeItems merge' i us vs = (mergeItems merge i us vs).mapError f := by
  induction us generalizing i vs with
  | nil => rfl
  | cons x us ih =>
      cases vs with
      | nil => rfl
      | cons y vs =>
          rw [mergeItems_cons, mergeItems_cons, h, ih]
          cases merge i x y with
          | error f => rfl
          | ok m =>
              show Except.map _ (Except.mapError f _) = Except.mapError f (Except.map _ _)
              cases mergeItems merge (i + 1) us vs <;> rfl

end Loops

theorem map_mapError {α β : Type} (f : α → β) (g : MergeFailure → MergeFailure)
    (merge : Except MergeFailure α) :
    (merge.mapError g).map f = (merge.map f).mapError g := by
  cases merge <;> rfl

/-- The path at which values are merged stands before the path of their conflict, and
makes no other difference. -/
theorem mergeValues_append (p q : Path) :
    mergeValues st depth (p ++ q) u v = (mergeValues st depth q u v).mapError (.under p) := by
  induction depth generalizing q u v with
  | zero => rfl
  | succ depth ih =>
      cases st.meeting u v with
      | missingLeft => simp [Except.mapError]
      | missingRight => simp [Except.mapError]
      | atoms ha hb h => simp [mergeValues_atoms ha hb, h, Except.mapError]
      | entries hes hfs =>
          rw [mergeValues_of_entries? hes hfs, mergeValues_of_entries? hes hfs, ← map_mapError]
          refine congrArg _ (mergeEntries_mapError (fun k x y => ?_) ..)
          rw [List.append_assoc]
          exact ih _
      | items hus hvs hlength =>
          rw [mergeValues_of_items? hus hvs hlength, mergeValues_of_items? hus hvs hlength,
            ← map_mapError]
          refine congrArg _ (mergeItems_mapError (fun i x y => ?_) ..)
          rw [List.append_assoc]
          exact ih _
      | unlike h => simp [h.mergeValues, Except.mapError, MergeFailure.under]

theorem mapError_eq_ok_iff {α : Type} {merge : Except MergeFailure α}
    {f : MergeFailure → MergeFailure} {a : α} : merge.mapError f = .ok a ↔ merge = .ok a := by
  cases merge <;> simp [Except.mapError]

/-- Values that are merged at one path are merged at every other. -/
theorem mergeValues_ok_anywhere (h : mergeValues st depth p u v = .ok m) (q : Path) :
    mergeValues st depth q u v = .ok m := by
  have hroot : mergeValues st depth [] u v = .ok m := by
    rw [← List.append_nil p, mergeValues_append] at h
    exact mapError_eq_ok_iff.mp h
  rw [← List.append_nil q, mergeValues_append]
  exact mapError_eq_ok_iff.mpr hroot

/-! ## Every path of a merged value -/

theorem child?_eq_part? (st : Store) (v : Value) (k : Key) :
    st.child? v k = ((st.mold v).place? k).bind (st.part? · v) := by
  cases h : st.mold v with
  | atom =>
      obtain ⟨a, rfl⟩ := mold_eq_atom_iff.mp h
      rfl
  | mapping =>
      obtain ⟨es, hes⟩ := mold_eq_mapping_iff.mp h
      rw [child?_of_entries? hes]
      exact (part?_key hes k).symm
  | sequence n =>
      obtain ⟨us, hus, -⟩ := mold_eq_sequence_iff.mp h
      have hentries := entries?_eq_none_of_items? hus
      unfold child? Mold.place?
      simp only [hentries, hus]
      split
      · rename_i i _ heq
        cases heq
        exact (part?_index hus _).symm
      · rename_i hnot
        split
        · contradiction
        · exact absurd rfl (hnot _ _ rfl)
        · rfl

theorem keyed_list {items : List Value} (h : ∀ x ∈ items, st.Keyed x) :
    st.Keyed (.list items) := by
  intro u hu fs hfs
  rcases hu.cases_head with rfl | ⟨x, ⟨c, hc, hx⟩, hu⟩
  · cases hfs
  · cases hc
    exact h x hx u hu fs hfs

theorem Keyed.of_child? {k : Key} (h : st.Keyed v) (hu : st.child? v k = some u) :
    st.Keyed u := fun x hx => h x (.head (holds_of_child? hu) hx)

theorem MergedAt.only_right (merge : Value → Value → Value → Prop) (y : Option Value) :
    MergedAt merge none y y := by
  cases y with
  | none => exact .left none
  | some y => exact .right y

/-- One step down in a merged value. -/
theorem mergedAt_child? (hdistinct : ∀ es, st.entries? v = some es → es.Distinct)
    (h : mergeValues st (depth + 1) path u v = .ok m) (k : Key) :
    MergedAt (fun x y z => mergeValues st depth (path ++ [k]) x y = .ok z) (st.child? u k)
      (st.child? v k) (st.child? m k) := by
  by_cases hu : u = .missing
  · subst hu
    obtain rfl : v = m := by simpa using h
    exact .only_right _ _
  by_cases hv : v = .missing
  · subst hv
    obtain rfl : u = m := by simpa using h
    exact .left _
  cases mergedFrom_of_mergeValues hu hv hdistinct h with
  | atoms hsame => exact .left none
  | parts hmold hmerged hcontainer hparts =>
      simp only [child?_eq_part?, ← hmold, hmerged]
      cases (st.mold u).place? k with
      | none => exact .left none
      | some p => exact (hparts p).mono fun x y z ⟨q, hz⟩ => mergeValues_ok_anywhere hz _

/-- What stands at the end of a path in a merged value: what is merged there, if
something stands there on both sides, and else what stands on the one side. -/
theorem mergedAt_of_mergeValues (hkeyed : st.Keyed v)
    (h : mergeValues st depth path u v = .ok m) (s : Path) :
    MergedAt (fun x y z => mergeValues st (depth - s.length) (path ++ s) x y = .ok z)
      (st.at? u s) (st.at? v s) (st.at? m s) := by
  induction s generalizing depth path u v m with
  | nil =>
      have hroot : MergedAt (fun x y z => mergeValues st depth path x y = .ok z) (some u) (some v)
        (some m) := .both h
      simpa [at?] using hroot
  | cons k s ih =>
      cases depth with
      | zero => cases h
      | succ depth =>
          have hchild := mergedAt_child? (fun es hes => hkeyed.distinct hes) h k
          simp only [at?]
          generalize hx : st.child? u k = x, hy : st.child? v k = y, st.child? m k = z at hchild
          cases hchild with
          | left => exact .left _
          | right y => exact .only_right _ _
          | both hz => simpa using ih (hkeyed.of_child? hy) hz

/-! ## The first conflict -/

/-- The keys that name what stands in a container, in the order in which it is
visited. -/
def steps (st : Store) (v : Value) : List Key :=
  match st.entries? v with
  | some es => es.keys
  | none =>
    match st.items? v with
    | some items => (List.range items.length).map .index
    | none => []

/-- A path is visited before another: where they part, its key comes first. -/
inductive Precedes (st : Store) : Value → Path → Path → Prop
  | aside {v : Value} {k l : Key} {s t : Path} {earlier later : List Key}
      (h : st.steps v = earlier ++ l :: later) (hk : k ∈ earlier) :
      Precedes st v (k :: s) (l :: t)
  | within {v x : Value} {k : Key} {s t : Path} (h : st.child? v k = some x)
      (hx : Precedes st x s t) : Precedes st v (k :: s) (k :: t)

/-- Two values conflict at the end of a path, and nowhere before it. -/
structure ConflictAt (st : Store) (depth : Nat) (path : Path) (u v : Value) (s : Path)
    (x y : Value) : Prop where
  left : st.at? u s = some x
  right : st.at? v s = some y
  irreconcilable : st.Irreconcilable x y
  earlier (t : Path) (ht : st.Precedes v t s) {x' y' : Value} (hx : st.at? u t = some x')
    (hy : st.at? v t = some y') :
    ∃ z, mergeValues st (depth - t.length) (path ++ t) x' y' = .ok z

theorem nodup_steps (h : st.Keyed v) : (st.steps v).Nodup := by
  unfold steps
  split
  · rename_i es hes
    refine List.pairwise_map.mpr ((h.distinct hes).imp ?_)
    intro e f hdiffers heq
    simp [heq] at hdiffers
  · split
    · refine List.Nodup.map ?_ List.nodup_range
      intro i j hij
      exact Int.ofNat.inj (by simpa [Key.index] using hij)
    · exact .nil

variable {k : Key} {s : Path} {u' v' : Value}

/-- The first conflict in a container is the first one of the first pair of values that
are not merged. -/
theorem ConflictAt.of_child? (hkeyed : st.Keyed v) {earlier later : List Key}
    (hsteps : st.steps v = earlier ++ k :: later) (hu : st.child? u k = some u')
    (hv : st.child? v k = some v')
    (hearlier : ∀ l ∈ earlier, ∀ x y, st.child? u l = some x → st.child? v l = some y →
      ∃ z, mergeValues st depth (path ++ [l]) x y = .ok z)
    (h : st.ConflictAt depth (path ++ [k]) u' v' s x y) :
    st.ConflictAt (depth + 1) path u v (k :: s) x y where
  left := by simpa [at?, hu] using h.left
  right := by simpa [at?, hv] using h.right
  irreconcilable := h.irreconcilable
  earlier t ht x' y' hx hy := by
    cases ht with
    | @aside _ l _ s' _ earlier' later' hsteps' hl =>
        have hnodup := nodup_steps hkeyed
        obtain rfl : earlier = earlier' := by
          rw [hsteps] at hsteps' hnodup
          have hout := (List.nodup_cons.mp (List.nodup_middle.mp hnodup)).1
          rw [List.mem_append, not_or] at hout
          exact ((List.append_cons_inj_of_notMem hout.1 hout.2).mp hsteps').1
        obtain ⟨a, ha, hx⟩ := Option.bind_eq_some_iff.mp hx
        obtain ⟨b, hb, hy⟩ := Option.bind_eq_some_iff.mp hy
        obtain ⟨z, hz⟩ := hearlier l hl a b ha hb
        have hat := mergedAt_of_mergeValues (hkeyed.of_child? hb) hz s'
        rw [hx, hy] at hat
        generalize st.at? z s' = z' at hat
        cases hat with
        | both hz' => exact ⟨_, by simpa using hz'⟩
    | within hchild hbelow =>
        cases hv.symm.trans hchild
        simp only [at?, hu, hv, Option.bind_some] at hx hy
        simpa using h.earlier _ hbelow hx hy

section Loops

variable {f : MergeFailure}

theorem failure_of_mergeEntries {merge : Key → Value → Value → Except MergeFailure Value}
    {left merged right : Entries Value} (h : mergeEntries merge left merged right = .error f) :
    ∃ earlier k x y later, right = earlier ++ (k, y) :: later ∧ left.find? k = some x ∧
      merge k x y = .error f ∧
      ∀ l y', (l, y') ∈ earlier → ∀ x', left.find? l = some x' → ∃ z, merge l x' y' = .ok z := by
  induction right generalizing merged with
  | nil => cases h
  | cons e right ih =>
      obtain ⟨l, y'⟩ := e
      -- an entry that is done with comes before the one that fails
      have hlater : ∀ z, mergeEntries merge left (merged.put l z) right = .error f →
          (∀ x', left.find? l = some x' → ∃ z, merge l x' y' = .ok z) →
          ∃ earlier k x y later, (l, y') :: right = earlier ++ (k, y) :: later ∧
            left.find? k = some x ∧ merge k x y = .error f ∧ ∀ l y', (l, y') ∈ earlier →
              ∀ x', left.find? l = some x' → ∃ z, merge l x' y' = .ok z := by
        intro z hz hdone
        obtain ⟨earlier, k, x, y, later, rfl, hx, hf, hearlier⟩ := ih hz
        refine ⟨(l, y') :: earlier, k, x, y, later, rfl, hx, hf, fun l' y'' hmem => ?_⟩
        rcases List.mem_cons.mp hmem with hmem | hmem
        · cases hmem
          exact hdone
        · exact hearlier l' y'' hmem
      cases hfind : left.find? l with
      | none =>
          simp only [mergeEntries, hfind] at h
          exact hlater y' h fun x' hx' => by simp [hfind] at hx'
      | some x =>
          rw [mergeEntries_cons hfind] at h
          cases hmerge : merge l x y' with
          | error g =>
              rw [hmerge] at h
              cases h
              exact ⟨[], l, x, y', right, rfl, hfind, hmerge, by simp⟩
          | ok z =>
              rw [hmerge] at h
              exact hlater z h fun x' hx' => ⟨z, by rw [hfind] at hx'; cases hx'; exact hmerge⟩

theorem failure_of_mergeItems {merge : Nat → Value → Value → Except MergeFailure Value} {i : Nat}
    {us vs : List Value} (h : mergeItems merge i us vs = .error f) :
    ∃ (j : Nat) (x y : Value), us[j]? = some x ∧ vs[j]? = some y ∧ merge (i + j) x y = .error f ∧
      ∀ l < j, ∀ x' y', us[l]? = some x' → vs[l]? = some y' → ∃ z, merge (i + l) x' y' = .ok z := by
  induction us generalizing i vs with
  | nil => cases h
  | cons x us ih =>
      cases vs with
      | nil => cases h
      | cons y vs =>
          rw [mergeItems_cons] at h
          cases hmerge : merge i x y with
          | error g =>
              rw [hmerge] at h
              cases h
              exact ⟨0, x, y, rfl, rfl, hmerge, by simp⟩
          | ok z =>
              rw [hmerge] at h
              obtain ⟨j, x', y', hx, hy, hf, hearlier⟩ := ih (map_eq_error_iff.mp h)
              refine ⟨j + 1, x', y', by simpa using hx, by simpa using hy, ?_, fun l hl => ?_⟩
              · rwa [show i + (j + 1) = i + 1 + j by omega]
              · intro x'' y'' hx'' hy''
                cases l with
                | zero =>
                    simp only [List.getElem?_cons_zero, Option.some.injEq] at hx'' hy''
                    subst hx'' hy''
                    exact ⟨z, hmerge⟩
                | succ l =>
                    rw [show i + (l + 1) = i + 1 + l by omega]
                    exact hearlier l (by omega) x'' y'' (by simpa using hx'') (by simpa using hy'')

end Loops

theorem steps_of_entries? {es : Entries Value} (h : st.entries? v = some es) :
    st.steps v = es.keys := by
  simp [steps, h]

theorem steps_of_items? {items : List Value} (h : st.items? v = some items) :
    st.steps v = (List.range items.length).map .index := by
  simp [steps, h, entries?_eq_none_of_items? h]

/-- A conflict is the first one, and it is reported with the path that leads to it. -/
theorem conflict_of_mergeValues (hkeyed : st.Keyed v)
    (h : mergeValues st depth path u v = .error (.conflict q x y)) :
    ∃ s, q = path ++ s ∧ st.ConflictAt depth path u v s x y := by
  induction depth generalizing path u v with
  | zero => cases h
  | succ depth ih =>
      cases st.meeting u v with
      | missingLeft => simp at h
      | missingRight => simp at h
      | atoms ha hb hsame => simp [mergeValues_atoms ha hb, hsame] at h
      | unlike hunlike =>
          rw [hunlike.mergeValues] at h
          cases h
          exact ⟨[], (List.append_nil _).symm, rfl, rfl, hunlike, nofun⟩
      | @entries _ _ es fs hes hfs =>
          rw [mergeValues_of_entries? hes hfs] at h
          replace h := map_eq_error_iff.mp h
          obtain ⟨earlier, k, a, b, later, hright, ha, hf, hearlier⟩ := failure_of_mergeEntries h
          have hmem : (k, b) ∈ fs := by simp [hright]
          have hb := (child?_of_entries? hfs k).trans
            (Entries.find?_of_mem (hkeyed.distinct hfs) hmem)
          obtain ⟨s, rfl, hat⟩ := ih (hkeyed.of_child? hb) hf
          have hsteps : st.steps v = Entries.keys earlier ++ k :: Entries.keys later := by
            rw [steps_of_entries? hfs, hright]
            simp [Entries.keys]
          refine ⟨k :: s, by simp, hat.of_child? hkeyed hsteps
            ((child?_of_entries? hes k).trans ha) hb fun l hl a' b' ha' hb' => ?_⟩
          obtain ⟨⟨l, b''⟩, hentry, rfl⟩ := List.mem_map.mp hl
          have hmem' : (l, b'') ∈ fs := by simp [hright, hentry]
          rw [child?_of_entries? hes] at ha'
          rw [child?_of_entries? hfs, Entries.find?_of_mem (hkeyed.distinct hfs) hmem'] at hb'
          cases hb'
          exact hearlier l _ hentry a' ha'
      | @items _ _ us vs hus hvs hlength =>
          rw [mergeValues_of_items? hus hvs hlength] at h
          replace h := map_eq_error_iff.mp h
          obtain ⟨j, a, b, ha, hb, hf, hearlier⟩ := failure_of_mergeItems h
          simp only [Nat.zero_add] at hf hearlier
          have hj : j < vs.length := (List.getElem?_eq_some_iff.mp hb).1
          replace ha := (child?_of_items? hus j).trans ha
          replace hb := (child?_of_items? hvs j).trans hb
          obtain ⟨s, rfl, hat⟩ := ih (hkeyed.of_child? hb) hf
          obtain ⟨earlier, later, hrange⟩ := List.append_of_mem (List.mem_range.mpr hj)
          have hsteps : st.steps v = earlier.map .index ++ .index j :: later.map .index := by
            rw [steps_of_items? hvs, hrange]
            simp
          refine ⟨.index j :: s, by simp, hat.of_child? hkeyed hsteps ha hb
            fun l hl a' b' ha' hb' => ?_⟩
          obtain ⟨i, hi, rfl⟩ := List.mem_map.mp hl
          rw [child?_of_items? hus] at ha'
          rw [child?_of_items? hvs] at hb'
          have hsorted := List.pairwise_append.mp (hrange ▸ List.pairwise_lt_range)
          exact hearlier i (hsorted.2.2 i hi j List.mem_cons_self) a' b' ha' hb'

theorem grounded_atom (st : Store) (a : Atom) : st.Grounded (.atom a) := by
  refine .intro _ fun x hx => ?_
  obtain ⟨_, hc, -⟩ := hx
  cases hc

/-- Where every way down ends, none comes back. -/
theorem Grounded.acyclic (h : st.Grounded v) : st.Acyclic v := by
  have hself : ∀ {u}, st.Grounded u → ¬ Relation.TransGen st.Holds u u := by
    intro u hu
    induction hu with
    | intro u _ ih =>
        intro hcycle
        obtain ⟨x, hx, hback⟩ := Relation.TransGen.head'_iff.mp hcycle
        exact ih x hx (.tail' hback hx)
  intro u hu
  refine hself ?_
  induction hu with
  | refl => exact h
  | tail _ hx ih => exact ih.of_holds hx

end Store

/-- What merging two values comes to. If it gives a value, then at every path that value
has what is merged there, where something stands there on both sides, what stands there
on the one side otherwise, and nothing where neither side has anything. If it ends with a
conflict, then this is reported at the path of the merge followed by a path that leads
to the two values that it reports; they cannot be reconciled, and whatever is visited
before them is merged. Where one of the sides has no cycle, it comes to one of the two
from some depth on. On the right no mapping has a key twice. -/
theorem merged_or_first_conflict (st : Store) (path : Path) (l r : Value) (hkeyed : st.Keyed r) :
    (∀ depth m, mergeValues st depth path l r = .ok m → ∀ s,
      Store.MergedAt (fun x y z => mergeValues st (depth - s.length) (path ++ s) x y = .ok z)
        (st.at? l s) (st.at? r s) (st.at? m s)) ∧
    (∀ depth q x y, mergeValues st depth path l r = .error (.conflict q x y) →
      ∃ s, q = path ++ s ∧ st.ConflictAt depth path l r s x y) ∧
    (st.Acyclic l ∨ st.Acyclic r → Settles fun depth => mergeValues st depth path l r) := by
  refine ⟨fun depth m h => Store.mergedAt_of_mergeValues hkeyed h,
    fun depth q x y h => Store.conflict_of_mergeValues hkeyed h, ?_⟩
  rintro (hl | hr)
  · exact Store.settles_of_grounded_left hl.grounded r path
  · exact Store.settles_of_grounded_right hr.grounded l path

/-- A mapping that holds a list. -/
def tagged : Value :=
  .mapping false [(.text "name", .text "x"), (.text "tags", .list [.text "a", .text "b"])]

/-- A mapping with another list at the same key. -/
def retagged : Value :=
  .mapping false [(.text "tags", .list [.text "a", .text "c"]), (.text "id", .int 7)]

/-- The lists differ at their second index, and what stands at the first is merged before
that is seen. -/
theorem merged_or_first_conflict_tagged :
    Store.ConflictAt {} 3 [] tagged retagged [.text "tags", .index 1] (.text "b")
      (.text "c") ∧ Settles fun depth => mergeValues {} depth [] tagged retagged := by
  have hlist : Store.Grounded {} (.list [.text "a", .text "c"]) :=
    Store.grounded_list (by simp [Store.grounded_atom])
  have hgrounded : Store.Grounded {} retagged :=
    Store.grounded_mapping (by simp [Store.grounded_atom, hlist])
  have hkeyed : Store.Keyed {} retagged :=
    Store.keyed_mapping (by decide) (by simp [Store.keyed_atom, Store.keyed_list])
  obtain ⟨-, hconflict, hsettles⟩ := merged_or_first_conflict {} [] tagged retagged hkeyed
  obtain ⟨s, hs, hat⟩ := hconflict 3 [.text "tags", .index 1] (.text "b") (.text "c") rfl
  obtain rfl : [.text "tags", .index 1] = s := hs
  exact ⟨hat, hsettles (.inr hgrounded.acyclic)⟩

end Conform
