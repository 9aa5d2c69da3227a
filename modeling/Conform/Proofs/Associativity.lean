import Conform.Proofs.Conflict

/-!
# Merging three values

Merging is partial, prefers the left side, and builds new containers, so that what two
values are merged into is neither of them. Still it makes no difference which two of
three values are merged first: either way there is a result or there is none, and the
result is the same, down to the order of its keys.

What two containers are merged into is told by `Store.Joined`: a container of the same
mold that is built anew, with the keys of the left one and then those of the right one
that are new, and with what is merged under each of them. This determines it. Place by
place, the law for three containers is the law for what stands in them.

## Main results

* `Store.joined_of_merges`, `Store.exists_joined` — what two containers are merged into.
* `Store.Joined.unique` — it is determined.
* `Store.merges_assoc` — three values, in either grouping.
* `Store.keyed_of_merges` — no key is there twice in what is merged.
-/

namespace Conform

/-! ## Keys -/

namespace Entries

variable {α : Type} {es fs : Entries α} {k : Key} {a : α}

theorem distinct_iff_keys : es.Distinct ↔ es.keys.Pairwise fun k l => k.same l = false := by
  rw [Distinct, keys, List.pairwise_map]

theorem not_same_of_not_has (h : es.has k = false) : ∀ l ∈ es.keys, l.same k = false := by
  intro l hl
  obtain ⟨e, he, rfl⟩ := List.mem_map.mp hl
  exact Bool.eq_false_iff.mpr (List.any_eq_false.mp h e he)

theorem Distinct.put (h : es.Distinct) (k : Key) (a : α) : (es.put k a).Distinct := by
  rw [distinct_iff_keys] at h ⊢
  rw [keys_put]
  split
  · exact h
  · rename_i hnew
    refine List.pairwise_append.mpr ⟨h, List.pairwise_singleton .., fun l hl m hm => ?_⟩
    rw [List.mem_singleton.mp hm]
    exact not_same_of_not_has (Bool.eq_false_iff.mpr hnew) l hl

/-- Entries are determined by their keys, in order, and by what is found at them. -/
theorem eq_of_find? (hes : es.Distinct) (hfs : fs.Distinct) (hkeys : es.keys = fs.keys)
    (hfind : ∀ k, es.find? k = fs.find? k) : es = fs := by
  induction es generalizing fs with
  | nil =>
      cases fs with
      | nil => rfl
      | cons f fs => cases hkeys
  | cons e es ih =>
      cases fs with
      | nil => cases hkeys
      | cons f fs =>
          obtain ⟨k, a⟩ := e
          obtain ⟨l, b⟩ := f
          obtain ⟨rfl, hrest⟩ : k = l ∧ keys es = keys fs := List.cons.inj hkeys
          have hhead := hfind k
          simp only [find?, Key.same_self, if_true, Option.some.injEq] at hhead
          subst hhead
          refine congrArg _ (ih (List.pairwise_cons.mp hes).2 (List.pairwise_cons.mp hfs).2 hrest
            fun m => ?_)
          by_cases hm : k.same m = true
          · rw [← find?_congr hm, ← find?_congr hm, find?_eq_none_of_distinct hes,
              find?_eq_none_of_distinct hfs]
          · simpa [find?, hm] using hfind m

end Entries

section Loops

variable {merge : Key → Value → Value → Except MergeFailure Value}
  {left merged right done : Entries Value} {k : Key} {y : Value}

/-- Whatever is merged under a key is put there. -/
theorem exists_put_of_mergeEntries
    (h : mergeEntries merge left merged ((k, y) :: right) = .ok done) :
    ∃ z, mergeEntries merge left (merged.put k z) right = .ok done := by
  cases hfind : left.find? k with
  | none =>
      simp only [mergeEntries, hfind] at h
      exact ⟨y, h⟩
  | some x =>
      rw [Store.mergeEntries_cons hfind] at h
      obtain ⟨z, -, h⟩ := bind_eq_ok_iff.mp h
      exact ⟨z, h⟩

theorem distinct_mergeEntries (hmerged : merged.Distinct)
    (h : mergeEntries merge left merged right = .ok done) : done.Distinct := by
  induction right generalizing merged with
  | nil =>
      cases h
      exact hmerged
  | cons e right ih =>
      obtain ⟨z, hz⟩ := exists_put_of_mergeEntries h
      exact ih (hmerged.put _ z) hz

/-- The merged entries have the keys of the left side, and then the new ones. -/
theorem keys_mergeEntries (hright : right.Distinct)
    (h : mergeEntries merge left merged right = .ok done) :
    done.keys = merged.keys ++ right.keys.filter fun k => !merged.has k := by
  induction right generalizing merged with
  | nil =>
      cases h
      simp
  | cons e right ih =>
      obtain ⟨k, y⟩ := e
      obtain ⟨z, hz⟩ := exists_put_of_mergeEntries h
      have hdiffers := (List.pairwise_cons.mp (Entries.distinct_iff_keys.mp hright)).1
      have hlater : (Entries.keys right).filter (fun l => !(merged.put k z).has l) =
          (Entries.keys right).filter fun l => !merged.has l := by
        refine List.filter_congr fun l hl => ?_
        rw [← Entries.isSome_find?, ← Entries.isSome_find?,
          Entries.find?_put_of_not_same _ _ (hdiffers l hl)]
      rw [ih (List.pairwise_cons.mp hright).2 hz, hlater, Entries.keys_put]
      cases hhas : merged.has k <;> simp [hhas]

end Loops

/-! ## Places -/

/-- The key of a path that names a place. -/
def Place.name : Place → Key
  | .key k => k
  | .index i => .index i

namespace Store

namespace MergedAt

variable {merge : Value → Value → Value → Prop} {x y z w : Option Value}

@[simp] theorem none_left : MergedAt merge none y z ↔ z = y := by
  constructor
  · rintro ⟨⟩ <;> rfl
  · rintro rfl
    exact only_right ..

@[simp] theorem none_right : MergedAt merge x none z ↔ z = x := by
  constructor
  · rintro ⟨⟩
    rfl
  · rintro rfl
    exact .left _

@[simp] theorem some_some {a b : Value} :
    MergedAt merge (some a) (some b) z ↔ ∃ m, merge a b m ∧ z = some m := by
  constructor
  · rintro ⟨⟩
    exact ⟨_, ‹_›, rfl⟩
  · rintro ⟨m, hm, rfl⟩
    exact .both hm

theorem isNone_eq (h : MergedAt merge x y z) : z.isNone = (x.isNone && y.isNone) := by
  cases h with
  | left => simp
  | right => rfl
  | both => rfl

theorem unique (hmerge : ∀ a b m m', merge a b m → merge a b m' → m = m')
    (h : MergedAt merge x y z) (h' : MergedAt merge x y w) : z = w := by
  cases h with
  | left => exact (none_right.mp h').symm
  | right => exact (none_left.mp h').symm
  | both h =>
      obtain ⟨m, hm, rfl⟩ := some_some.mp h'
      rw [hmerge _ _ _ _ h hm]

/-- Three places are merged in either grouping if what stands in them is. -/
theorem assoc (h : ∀ a b c m, x = some a → y = some b → z = some c →
      ((∃ ab, merge a b ab ∧ merge ab c m) ↔ ∃ bc, merge b c bc ∧ merge a bc m)) :
    (∃ xy, MergedAt merge x y xy ∧ MergedAt merge xy z w) ↔
      ∃ yz, MergedAt merge y z yz ∧ MergedAt merge x yz w := by
  rcases x with _ | a
  · simp
  rcases y with _ | b
  · simp
  rcases z with _ | c
  · simp
  have habc := fun m => h a b c m rfl rfl rfl
  constructor
  · rintro ⟨_, hxy, hw⟩
    obtain ⟨ab, hab, rfl⟩ := some_some.mp hxy
    obtain ⟨m, hm, rfl⟩ := some_some.mp hw
    obtain ⟨bc, hbc, hm⟩ := (habc m).mp ⟨ab, hab, hm⟩
    exact ⟨some bc, .both hbc, .both hm⟩
  · rintro ⟨_, hyz, hw⟩
    obtain ⟨bc, hbc, rfl⟩ := some_some.mp hyz
    obtain ⟨m, hm, rfl⟩ := some_some.mp hw
    obtain ⟨ab, hab, hm⟩ := (habc m).mpr ⟨bc, hbc, hm⟩
    exact ⟨some ab, .both hab, .both hm⟩

end MergedAt

/-! ## Containers -/

variable {st : Store} {u v m m' x y a b c ab bc : Value} {depth : Nat}

/-- What two values are merged into, followed to a depth. -/
def Merges (st : Store) (depth : Nat) (u v m : Value) : Prop :=
  mergeValues st depth [] u v = .ok m

theorem merges_unique (u v m m' : Value) (h : st.Merges depth u v m)
    (h' : st.Merges depth u v m') : m = m' := Except.ok.inj (h.symm.trans h')

/-- No key of a mapping is there twice. -/
def KeyedHere (st : Store) (v : Value) : Prop := ∀ es, st.entries? v = some es → es.Distinct

/-- A container as merging builds it. -/
inductive Built : Value → Prop
  | mapping {es : Entries Value} (h : es.Distinct) : Built (.mapping false es)
  | list (items : List Value) : Built (.list items)

theorem Built.keyedHere (h : Built v) : st.KeyedHere v := by
  intro es hes
  cases h with
  | mapping h =>
      cases hes
      exact h
  | list => cases hes

theorem Built.ne_missing (h : Built v) : v ≠ .missing := by
  rintro rfl
  cases h

/-- A container that was built is determined by its mold, its keys in order, and what
stands under them. -/
theorem Built.eq_of_child? (h : Built m) (h' : Built m') (hmold : st.mold m = st.mold m')
    (hsteps : st.steps m = st.steps m') (hchild : ∀ k, st.child? m k = st.child? m' k) :
    m = m' := by
  cases h with
  | mapping h =>
      cases h' with
      | mapping h' => exact congrArg _ (Entries.eq_of_find? h h' hsteps hchild)
      | list => cases hmold
  | list items =>
      cases h' with
      | mapping => cases hmold
      | list items' => exact congrArg _ (List.ext_getElem? fun i => hchild (.index i))

/-- What two containers are merged into: a container of their mold, with the keys of the
left one and then the new ones of the right one, and with what is merged under each. -/
structure Joined (st : Store) (merge : Value → Value → Value → Prop) (u v m : Value) : Prop where
  mold : st.mold v = st.mold u
  merged : st.mold m = st.mold u
  built : Built m
  steps : st.steps m = st.steps u ++ (st.steps v).filter fun k => (st.child? u k).isNone
  parts (k : Key) : MergedAt merge (st.child? u k) (st.child? v k) (st.child? m k)

theorem Joined.unique {merge : Value → Value → Value → Prop}
    (hmerge : ∀ a b m m', merge a b m → merge a b m' → m = m') (h : st.Joined merge u v m)
    (h' : st.Joined merge u v m') : m = m' :=
  h.built.eq_of_child? h'.built (h.merged.trans h'.merged.symm) (h.steps.trans h'.steps.symm)
    fun k => (h.parts k).unique hmerge (h'.parts k)

theorem joined_of_entries? {es fs : Entries Value} (hes : st.entries? u = some es)
    (hfs : st.entries? v = some fs) (hu : es.Distinct) (hv : fs.Distinct)
    (h : st.Merges (depth + 1) u v m) : st.Joined (st.Merges depth) u v m := by
  have hparts := mergedAt_child? (fun gs hgs => by cases hfs.symm.trans hgs; exact hv) h
  rw [Merges, mergeValues_of_entries? hes hfs] at h
  obtain ⟨done, hdone, rfl⟩ := map_eq_ok_iff.mp h
  refine ⟨?_, ?_, .mapping (distinct_mergeEntries hu hdone), ?_, fun k => ?_⟩
  · rw [mold_of_entries? hes, mold_of_entries? hfs]
  · rw [mold_of_entries? hes]
    rfl
  · rw [steps_of_entries? hes, steps_of_entries? hfs]
    show done.keys = _
    rw [keys_mergeEntries hv hdone]
    simp only [child?_of_entries? hes, ← Entries.isSome_find?, Option.not_isSome]
  · exact (hparts k).mono fun x y z hz => mergeValues_ok_anywhere hz []

theorem joined_of_items? {us vs : List Value} (hus : st.items? u = some us)
    (hvs : st.items? v = some vs) (hlength : us.length = vs.length)
    (h : st.Merges (depth + 1) u v m) : st.Joined (st.Merges depth) u v m := by
  have hnone : st.entries? v = none := entries?_eq_none_of_items? hvs
  have hparts := mergedAt_child? (fun gs hgs => by simp [hnone] at hgs) h
  rw [Merges, mergeValues_of_items? hus hvs hlength] at h
  obtain ⟨done, hdone, rfl⟩ := map_eq_ok_iff.mp h
  have hsize := (mergedAt_of_mergeItems hlength hdone).1
  refine ⟨?_, ?_, .list done, ?_, fun k => ?_⟩
  · rw [mold_of_items? hus, mold_of_items? hvs, hlength]
  · rw [mold_of_items? hus, ← hsize]
    rfl
  · have hnew : (st.steps v).filter (fun k => (st.child? u k).isNone) = [] := by
      refine List.filter_eq_nil_iff.mpr fun k hk => ?_
      rw [steps_of_items? hvs] at hk
      obtain ⟨i, hi, rfl⟩ := List.mem_map.mp hk
      simpa [child?_of_items? hus, hlength] using hi
    rw [hnew, List.append_nil, steps_of_items? hus, ← hsize]
    rfl
  · exact (hparts k).mono fun x y z hz => mergeValues_ok_anywhere hz []

/-- What two values that are not missing are merged into. -/
theorem joined_of_merges (hu : u ≠ .missing) (hv : v ≠ .missing) (hku : st.KeyedHere u)
    (hkv : st.KeyedHere v) (h : st.Merges (depth + 1) u v m) :
    (∃ a b, u = .atom a ∧ v = .atom b ∧ a.sameKind b = true ∧ m = .atom a) ∨
      st.mold u ≠ .atom ∧ st.Joined (st.Merges depth) u v m := by
  cases st.meeting u v with
  | missingLeft => contradiction
  | missingRight => contradiction
  | @atoms a b ha hb hsame =>
      simp only [Merges, mergeValues_atoms ha hb, hsame, if_true, Except.ok.injEq] at h
      exact .inl ⟨a, b, rfl, rfl, hsame, h.symm⟩
  | entries hes hfs =>
      exact .inr ⟨by simp [mold_of_entries? hes],
        joined_of_entries? hes hfs (hku _ hes) (hkv _ hfs) h⟩
  | items hus hvs hlength =>
      exact .inr ⟨by simp [mold_of_items? hus], joined_of_items? hus hvs hlength h⟩
  | unlike hunlike => simp [Merges, hunlike.mergeValues] at h

/-- What stands at a place stands under the key that names it. -/
theorem child?_of_part? {p : Place} (h : st.part? p u = some x) :
    st.child? u p.name = some x := by
  cases p with
  | key k =>
      obtain ⟨es, hes, hx⟩ := Option.bind_eq_some_iff.mp h
      exact (child?_of_entries? hes k).trans hx
  | index i =>
      obtain ⟨us, hus, hx⟩ := Option.bind_eq_some_iff.mp h
      exact (child?_of_items? hus i).trans hx

theorem ne_missing_of_mold (h : st.mold v ≠ .atom) : v ≠ .missing := by
  rintro rfl
  exact h rfl

section Containers

variable (hcontainer : st.mold u ≠ .atom) (hu : st.KeyedHere u) (hv : st.KeyedHere v)

include hcontainer hu hv

/-- Containers of one mold are merged if what stands under each key is. -/
theorem exists_joined (hmold : st.mold v = st.mold u)
    (h : ∀ k, ∃ z, MergedAt (st.Merges depth) (st.child? u k) (st.child? v k) z) :
    ∃ m, st.Merges (depth + 1) u v m ∧ st.Joined (st.Merges depth) u v m := by
  have hparts : ∀ p x y, st.part? p u = some x → st.part? p v = some y →
      ∀ path, ∃ z, mergeValues st depth path x y = .ok z := by
    intro p x y hx hy path
    obtain ⟨z, hz⟩ := h p.name
    rw [child?_of_part? hx, child?_of_part? hy] at hz
    obtain ⟨z, hz, -⟩ := MergedAt.some_some.mp hz
    exact ⟨z, mergeValues_ok_anywhere hz path⟩
  obtain ⟨m, hm⟩ := exists_mergeValues hmold.symm hcontainer hv hparts []
  rcases joined_of_merges (ne_missing_of_mold hcontainer)
    (ne_missing_of_mold (hmold ▸ hcontainer)) hu hv hm with ⟨a, _, rfl, -⟩ | ⟨-, hjoined⟩
  · exact absurd rfl hcontainer
  · exact ⟨m, hm, hjoined⟩

theorem Joined.merges (h : st.Joined (st.Merges depth) u v m) : st.Merges (depth + 1) u v m := by
  obtain ⟨m', hm', hjoined⟩ := exists_joined hcontainer hu hv h.mold fun k => ⟨_, h.parts k⟩
  rwa [h.unique merges_unique hjoined]

end Containers

/-! ## Three values -/

section Three

variable {merge : Value → Value → Value → Prop}

/-- The keys of three containers, in either grouping. -/
theorem Joined.steps_assoc (hab : st.Joined merge a b ab) (hbc : st.Joined merge b c bc) :
    st.steps ab ++ (st.steps c).filter (fun k => (st.child? ab k).isNone) =
      st.steps a ++ (st.steps bc).filter fun k => (st.child? a k).isNone := by
  have hnew : (fun k => (st.child? ab k).isNone) =
      fun k => (st.child? a k).isNone && (st.child? b k).isNone :=
    funext fun k => (hab.parts k).isNone_eq
  rw [hab.steps, hbc.steps, hnew, List.append_assoc, List.filter_append, List.filter_filter]

/-- Three containers that are merged in one grouping, and of which the other two are
merged, are merged in the other. -/
theorem Joined.to_right (hab : st.Joined merge a b ab) (hbc : st.Joined merge b c bc)
    (h : st.Joined merge ab c m)
    (hparts : ∀ k, MergedAt merge (st.child? a k) (st.child? bc k) (st.child? m k)) :
    st.Joined merge a bc m where
  mold := hbc.merged.trans hab.mold
  merged := h.merged.trans hab.merged
  built := h.built
  steps := h.steps.trans (hab.steps_assoc hbc)
  parts := hparts

theorem Joined.to_left (hab : st.Joined merge a b ab) (hbc : st.Joined merge b c bc)
    (h : st.Joined merge a bc m)
    (hparts : ∀ k, MergedAt merge (st.child? ab k) (st.child? c k) (st.child? m k)) :
    st.Joined merge ab c m where
  mold := (hbc.mold.trans hab.mold).trans hab.merged.symm
  merged := h.merged.trans hab.merged.symm
  built := h.built
  steps := h.steps.trans (hab.steps_assoc hbc).symm
  parts := hparts

end Three

theorem Keyed.here (h : st.Keyed v) : st.KeyedHere v := fun _ hes => h.distinct hes

theorem merges_atoms {a b : Atom} (ha : (.atom a : Value) ≠ .missing)
    (hb : (.atom b : Value) ≠ .missing) (h : a.sameKind b = true) :
    st.Merges (depth + 1) (.atom a) (.atom b) (.atom a) := by
  rw [Merges, mergeValues_atoms ha hb, if_pos h]

/-- What stands under a key of three containers is merged in either grouping. -/
theorem parts_assoc (ha : st.Keyed a) (hb : st.Keyed b) (hc : st.Keyed c)
    (hassoc : ∀ {a b c m}, st.Keyed a → st.Keyed b → st.Keyed c →
      ((∃ ab, st.Merges depth a b ab ∧ st.Merges depth ab c m) ↔
        ∃ bc, st.Merges depth b c bc ∧ st.Merges depth a bc m)) (k : Key) (w : Option Value) :
    (∃ xy, MergedAt (st.Merges depth) (st.child? a k) (st.child? b k) xy ∧
        MergedAt (st.Merges depth) xy (st.child? c k) w) ↔
      ∃ yz, MergedAt (st.Merges depth) (st.child? b k) (st.child? c k) yz ∧
        MergedAt (st.Merges depth) (st.child? a k) yz w :=
  MergedAt.assoc fun _ _ _ _ hx hy hz =>
    hassoc (ha.of_child? hx) (hb.of_child? hy) (hc.of_child? hz)

section Containers

variable (hcontainer : st.mold a ≠ .atom) (ha : st.Keyed a) (hb : st.Keyed b) (hc : st.Keyed c)

include hcontainer ha hb hc

/-- Three containers of which the first two are merged first, if what stands in them may
be merged the other way. -/
theorem exists_right (hab : st.Joined (st.Merges depth) a b ab)
    (habc : st.Joined (st.Merges depth) ab c m)
    (h : ∀ k, ∃ yz, MergedAt (st.Merges depth) (st.child? b k) (st.child? c k) yz ∧
      MergedAt (st.Merges depth) (st.child? a k) yz (st.child? m k)) :
    ∃ bc, st.Merges (depth + 1) b c bc ∧ st.Merges (depth + 1) a bc m := by
  have hmold : st.mold c = st.mold b := habc.mold.trans (hab.merged.trans hab.mold.symm)
  obtain ⟨bc, hbc, hjoined⟩ := exists_joined (hab.mold ▸ hcontainer) hb.here hc.here hmold
    fun k => (h k).imp fun _ hyz => hyz.1
  refine ⟨bc, hbc, (hab.to_right hjoined habc fun k => ?_).merges hcontainer ha.here
    hjoined.built.keyedHere⟩
  obtain ⟨yz, hyz, hm⟩ := h k
  exact (hjoined.parts k).unique merges_unique hyz ▸ hm

/-- Three containers of which the last two are merged first, if what stands in them may
be merged the other way. -/
theorem exists_left (hbc : st.Joined (st.Merges depth) b c bc)
    (habc : st.Joined (st.Merges depth) a bc m)
    (h : ∀ k, ∃ xy, MergedAt (st.Merges depth) (st.child? a k) (st.child? b k) xy ∧
      MergedAt (st.Merges depth) xy (st.child? c k) (st.child? m k)) :
    ∃ ab, st.Merges (depth + 1) a b ab ∧ st.Merges (depth + 1) ab c m := by
  have hmold : st.mold b = st.mold a := hbc.merged.symm.trans habc.mold
  obtain ⟨ab, hab, hjoined⟩ := exists_joined hcontainer ha.here hb.here hmold
    fun k => (h k).imp fun _ hxy => hxy.1
  refine ⟨ab, hab, (hjoined.to_left hbc habc fun k => ?_).merges (hjoined.merged ▸ hcontainer)
    hjoined.built.keyedHere hc.here⟩
  obtain ⟨xy, hxy, hm⟩ := h k
  exact (hjoined.parts k).unique merges_unique hxy ▸ hm

end Containers

/-- Of three values it makes no difference which two are merged first. -/
theorem merges_assoc (ha : st.Keyed a) (hb : st.Keyed b) (hc : st.Keyed c) :
    (∃ ab, st.Merges depth a b ab ∧ st.Merges depth ab c m) ↔
      ∃ bc, st.Merges depth b c bc ∧ st.Merges depth a bc m := by
  induction depth generalizing a b c m with
  | zero => simp [Merges, mergeValues]
  | succ depth ih =>
      by_cases hamissing : a = .missing
      · simp [hamissing, Merges]
      by_cases hbmissing : b = .missing
      · simp [hbmissing, Merges]
      by_cases hcmissing : c = .missing
      · simp [hcmissing, Merges]
      have hplaces := fun k w => parts_assoc ha hb hc ih k w
      constructor
      · rintro ⟨ab, hab, habc⟩
        rcases joined_of_merges hamissing hbmissing ha.here hb.here hab with
          ⟨x, y, rfl, rfl, hxy, rfl⟩ | ⟨hcontainer, hjab⟩
        · rcases joined_of_merges hamissing hcmissing ha.here hc.here habc with
            ⟨_, z, hx, rfl, hxz, rfl⟩ | ⟨hcontainer, -⟩
          · cases hx
            have hyz := Atom.sameKind_trans (Atom.sameKind_comm x y ▸ hxy) hxz
            exact ⟨.atom y, merges_atoms hbmissing hcmissing hyz,
              merges_atoms hamissing hbmissing hxy⟩
          · exact absurd rfl hcontainer
        · rcases joined_of_merges hjab.built.ne_missing hcmissing hjab.built.keyedHere hc.here
            habc with ⟨x, _, rfl, -⟩ | ⟨-, hjabc⟩
          · cases hjab.built
          · exact exists_right hcontainer ha hb hc hjab hjabc
              fun k => (hplaces k _).mp ⟨_, hjab.parts k, hjabc.parts k⟩
      · rintro ⟨bc, hbc, habc⟩
        rcases joined_of_merges hbmissing hcmissing hb.here hc.here hbc with
          ⟨y, z, rfl, rfl, hyz, rfl⟩ | ⟨-, hjbc⟩
        · rcases joined_of_merges hamissing hbmissing ha.here hb.here habc with
            ⟨x, _, rfl, hy, hxy, rfl⟩ | ⟨hcontainer, hjoined⟩
          · cases hy
            exact ⟨.atom x, merges_atoms hamissing hbmissing hxy,
              merges_atoms hamissing hcmissing (Atom.sameKind_trans hxy hyz)⟩
          · exact absurd hjoined.mold.symm hcontainer
        · rcases joined_of_merges hamissing hjbc.built.ne_missing ha.here hjbc.built.keyedHere
            habc with ⟨_, y, -, rfl, -⟩ | ⟨hcontainer, hjabc⟩
          · cases hjbc.built
          · exact exists_left hcontainer ha hb hc hjbc hjabc
              fun k => (hplaces k _).mpr ⟨_, hjbc.parts k, hjabc.parts k⟩

/-! ## Keys of what is merged -/

theorem Built.keyed (h : Built m) (hchild : ∀ k x, st.child? m k = some x → st.Keyed x) :
    st.Keyed m := by
  cases h with
  | mapping h =>
      exact keyed_mapping h fun e he => hchild e.1 e.2 (Entries.find?_of_mem h he)
  | list items =>
      refine keyed_list fun x hx => ?_
      obtain ⟨i, hi⟩ := List.getElem?_of_mem hx
      exact hchild (.index i) x hi

/-- In what is merged no mapping has a key twice, if none has on either side. -/
theorem keyed_of_merges (hu : st.Keyed u) (hv : st.Keyed v) (h : st.Merges depth u v m) :
    st.Keyed m := by
  induction depth generalizing u v m with
  | zero => cases h
  | succ depth ih =>
      by_cases humissing : u = .missing
      · obtain rfl : v = m := by simpa [humissing, Merges] using h
        exact hv
      by_cases hvmissing : v = .missing
      · obtain rfl : u = m := by simpa [hvmissing, Merges] using h
        exact hu
      rcases joined_of_merges humissing hvmissing hu.here hv.here h with
        ⟨x, y, rfl, rfl, hxy, rfl⟩ | ⟨-, hjoined⟩
      · exact keyed_atom st x
      · refine hjoined.built.keyed fun k z hz => ?_
        have hpart := hjoined.parts k
        rw [hz] at hpart
        generalize hx : st.child? u k = x, hy : st.child? v k = y at hpart
        cases hpart with
        | left => exact hu.of_child? hx
        | right => exact hv.of_child? hy
        | both hmerge => exact ih (hu.of_child? hx) (hv.of_child? hy) hmerge

end Store

end Conform
