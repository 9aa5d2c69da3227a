import Conform.Proofs.Merging

/-!
# Merging place by place

A mapping has a place for every key, a sequence one for every index. A step of
merging goes from place to place: what stands at a place of one side only is
taken over, and what stands there on both sides is merged. Told this way, a step
says nothing of the order of entries, of the loops, or of how the two sides were
held.

A mapping is taken to have no key twice. The host cannot make one that has, but
entries are only a list, and nothing in merging looks for a second entry.

## Main results

* `Store.mergedFrom_of_mergeValues` — what one step of merging gives.
* `Store.exists_mergeValues` — when it gives something.
-/

namespace Conform

/-! ## Keys that are there once -/

namespace Entries

variable {α : Type} {es : Entries α} {k l : Key} {a : α}

/-- No key is there twice. -/
def Distinct (es : Entries α) : Prop := es.Pairwise fun e f => e.1.same f.1 = false

instance (es : Entries α) : Decidable es.Distinct :=
  inferInstanceAs (Decidable (List.Pairwise _ es))

theorem find?_congr (h : k.same l = true) (es : Entries α) : es.find? k = es.find? l := by
  induction es with
  | nil => rfl
  | cons e es ih =>
      obtain ⟨m, a⟩ := e
      simp only [find?, Key.same_congr_right h, ih]

/-- What is found at a key is the value of an entry with that key. -/
theorem exists_same_of_find? (h : es.find? k = some a) :
    ∃ l, l.same k = true ∧ (l, a) ∈ es := by
  induction es with
  | nil => cases h
  | cons e es ih =>
      obtain ⟨m, b⟩ := e
      rw [find?] at h
      split at h
      · rename_i hsame
        cases h
        exact ⟨m, hsame, List.mem_cons_self⟩
      · obtain ⟨l, hsame, hl⟩ := ih h
        exact ⟨l, hsame, List.mem_cons_of_mem _ hl⟩

theorem find?_eq_none_of_distinct (h : Distinct ((k, a) :: es)) : es.find? k = none := by
  cases hfind : es.find? k with
  | none => rfl
  | some b =>
      obtain ⟨l, hsame, hl⟩ := exists_same_of_find? hfind
      have hother := (List.pairwise_cons.mp h).1 (l, b) hl
      rw [Key.same_comm] at hsame
      exact absurd hsame (by simp [hother])

/-- Where no key is there twice, the value of an entry is found at its key. -/
theorem find?_of_mem (hdistinct : es.Distinct) (h : (k, a) ∈ es) : es.find? k = some a := by
  induction es with
  | nil => cases h
  | cons e es ih =>
      obtain ⟨m, b⟩ := e
      rcases List.mem_cons.mp h with h | h
      · cases h
        simp [find?]
      · have hother : m.same k = false := (List.pairwise_cons.mp hdistinct).1 (k, a) h
        simp only [find?, hother, Bool.false_eq_true, if_false]
        exact ih (List.pairwise_cons.mp hdistinct).2 h

end Entries

/-! ## Places -/

/-- A place in a container. -/
inductive Place where
  | key (k : Key)
  | index (i : Nat)

/-- What two values must have in common to be merged. -/
inductive Mold where
  | atom
  | mapping
  | sequence (size : Nat)
  deriving DecidableEq

namespace Store

variable {st : Store} {u v m : Value}

/-- What kind of value a value is, with the length of a sequence. -/
def mold (st : Store) (v : Value) : Mold :=
  match st.contents? v with
  | none => .atom
  | some (.mapping _ _) => .mapping
  | some (.list items) => .sequence items.length
  | some (.tuple items) => .sequence items.length

/-- What stands at a place of a container. -/
def part? (st : Store) : Place → Value → Option Value
  | .key k, v => (st.entries? v).bind (·.find? k)
  | .index i, v => (st.items? v).bind (·[i]?)

theorem mold_eq_atom_iff : st.mold v = .atom ↔ ∃ a, v = .atom a := by
  constructor
  · intro h
    by_contra hatom
    have hsome := st.isSome_contents? v fun a ha => hatom ⟨a, ha⟩
    obtain ⟨c, hc⟩ := Option.isSome_iff_exists.mp hsome
    rw [mold, hc] at h
    cases c <;> cases h
  · rintro ⟨a, rfl⟩
    rfl

theorem mold_eq_mapping_iff : st.mold v = .mapping ↔ ∃ es, st.entries? v = some es := by
  unfold mold entries?
  rcases st.contents? v with _ | _ | _ | _ <;> simp

theorem mold_eq_sequence_iff {n : Nat} :
    st.mold v = .sequence n ↔ ∃ items, st.items? v = some items ∧ items.length = n := by
  unfold mold items?
  rcases st.contents? v with _ | _ | _ | _ <;> simp

theorem mold_of_entries? {es : Entries Value} (h : st.entries? v = some es) :
    st.mold v = .mapping := mold_eq_mapping_iff.mpr ⟨es, h⟩

theorem mold_of_items? {items : List Value} (h : st.items? v = some items) :
    st.mold v = .sequence items.length := mold_eq_sequence_iff.mpr ⟨items, h, rfl⟩

theorem part?_key {es : Entries Value} (h : st.entries? v = some es) (k : Key) :
    st.part? (.key k) v = es.find? k := by
  simp [part?, h]

theorem part?_index {items : List Value} (h : st.items? v = some items) (i : Nat) :
    st.part? (.index i) v = items[i]? := by
  simp [part?, h]

/-- A mapping has no place for an index. -/
theorem part?_index_of_entries? {es : Entries Value} (h : st.entries? v = some es) (i : Nat) :
    st.part? (.index i) v = none := by
  cases hitems : st.items? v with
  | none => simp [part?, hitems]
  | some items => simp [entries?_eq_none_of_items? hitems] at h

/-- A sequence has no place for a key. -/
theorem part?_key_of_items? {items : List Value} (h : st.items? v = some items) (k : Key) :
    st.part? (.key k) v = none := by
  simp [part?, entries?_eq_none_of_items? h]

theorem holds_of_part? {p : Place} (h : st.part? p v = some u) : st.Holds v u := by
  cases p with
  | key k =>
      obtain ⟨es, hes, hu⟩ := Option.bind_eq_some_iff.mp h
      exact holds_of_entries? hes hu
  | index i =>
      obtain ⟨items, hitems, hu⟩ := Option.bind_eq_some_iff.mp h
      exact holds_of_items? hitems (List.mem_of_getElem? hu)

/-- No mapping that can be reached from a value has a key twice. -/
def Keyed (st : Store) (v : Value) : Prop :=
  ∀ u, st.Reaches v u → ∀ es, st.entries? u = some es → es.Distinct

theorem Keyed.distinct {es : Entries Value} (h : st.Keyed v) (hes : st.entries? v = some es) :
    es.Distinct := h v .refl es hes

theorem Keyed.of_part? {p : Place} (h : st.Keyed v) (hu : st.part? p v = some u) :
    st.Keyed u := fun x hx => h x (.head (holds_of_part? hu) hx)

theorem keyed_atom (st : Store) (a : Atom) : st.Keyed (.atom a) := by
  intro u hu es hes
  rcases hu.cases_head with rfl | ⟨x, ⟨c, hc, -⟩, -⟩
  · cases hes
  · cases hc

theorem keyed_mapping {readOnly : Bool} {es : Entries Value} (hdistinct : es.Distinct)
    (h : ∀ e ∈ es, st.Keyed e.2) : st.Keyed (.mapping readOnly es) := by
  intro u hu fs hfs
  rcases hu.cases_head with rfl | ⟨x, ⟨c, hc, hx⟩, hu⟩
  · cases hfs
    exact hdistinct
  · cases hc
    obtain ⟨e, he, rfl⟩ := List.mem_map.mp hx
    exact h e he u hu fs hfs

/-! ## The loops, place by place -/

/-- What stands at a place of the merged side, given what stands there on the two
others. -/
inductive MergedAt (merge : Value → Value → Value → Prop) :
    Option Value → Option Value → Option Value → Prop
  | left (x : Option Value) : MergedAt merge x none x
  | right (y : Value) : MergedAt merge none (some y) (some y)
  | both {x y z : Value} (h : merge x y z) : MergedAt merge (some x) (some y) (some z)

theorem MergedAt.mono {merge merge' : Value → Value → Value → Prop} {x y z : Option Value}
    (hmono : ∀ x y z, merge x y z → merge' x y z) (h : MergedAt merge x y z) :
    MergedAt merge' x y z := by
  cases h with
  | left => exact .left _
  | right => exact .right _
  | both h => exact .both (hmono _ _ _ h)

section Loops

variable {merge : Key → Value → Value → Except MergeFailure Value}
  {left merged right done : Entries Value} {k : Key}

theorem find?_mergeEntries_of_none (h : mergeEntries merge left merged right = .ok done)
    (hnone : right.find? k = none) : done.find? k = merged.find? k := by
  induction right generalizing merged with
  | nil =>
      cases h
      rfl
  | cons e right ih =>
      obtain ⟨l, y⟩ := e
      rw [Entries.find?] at hnone
      split at hnone
      · cases hnone
      rename_i hother
      have hput : ∀ z, mergeEntries merge left (merged.put l z) right = .ok done →
          done.find? k = merged.find? k := by
        intro z hz
        rw [ih hz hnone, Entries.find?_put_of_not_same _ _ (Bool.eq_false_iff.mpr hother)]
      cases hfind : left.find? l with
      | none =>
          simp only [mergeEntries, hfind] at h
          exact hput y h
      | some x =>
          rw [mergeEntries_cons hfind] at h
          obtain ⟨z, -, h⟩ := bind_eq_ok_iff.mp h
          exact hput z h

theorem mergedAt_of_some {y : Value} (hdistinct : right.Distinct)
    (h : mergeEntries merge left merged right = .ok done) (hsome : right.find? k = some y) :
    MergedAt (fun x y z => ∃ l, merge l x y = .ok z) (left.find? k) (some y) (done.find? k) := by
  induction right generalizing merged with
  | nil => cases hsome
  | cons e right ih =>
      obtain ⟨l, y'⟩ := e
      have hrest := (List.pairwise_cons.mp hdistinct).2
      by_cases hsame : l.same k = true
      · obtain rfl : y' = y := by simpa [Entries.find?, hsame] using hsome
        -- no later entry has this key, so what is put now is what is found in the end
        have hlast : Entries.find? right k = none := by
          rw [← Entries.find?_congr hsame]
          exact Entries.find?_eq_none_of_distinct hdistinct
        have hput : ∀ z, mergeEntries merge left (merged.put l z) right = .ok done →
            done.find? k = some z := by
          intro z hz
          rw [find?_mergeEntries_of_none hz hlast, Entries.find?_put_of_same _ _ hsame]
        rw [← Entries.find?_congr hsame left]
        cases hfind : left.find? l with
        | none =>
            simp only [mergeEntries, hfind] at h
            rw [hput y' h]
            exact .right y'
        | some x =>
            rw [mergeEntries_cons hfind] at h
            obtain ⟨z, hz, h⟩ := bind_eq_ok_iff.mp h
            rw [hput z h]
            exact .both ⟨l, hz⟩
      · have hlater : Entries.find? right k = some y := by
          simpa only [Entries.find?, hsame, Bool.false_eq_true, if_false] using hsome
        cases hfind : left.find? l with
        | none =>
            simp only [mergeEntries, hfind] at h
            exact ih hrest h hlater
        | some x =>
            rw [mergeEntries_cons hfind] at h
            obtain ⟨z, -, h⟩ := bind_eq_ok_iff.mp h
            exact ih hrest h hlater

/-- Entries are merged key by key. -/
theorem mergedAt_of_mergeEntries (hdistinct : right.Distinct)
    (h : mergeEntries merge left left right = .ok done) (k : Key) :
    MergedAt (fun x y z => ∃ l, merge l x y = .ok z) (left.find? k) (right.find? k)
      (done.find? k) := by
  cases hfind : right.find? k with
  | none => exact find?_mergeEntries_of_none h hfind ▸ .left _
  | some y => exact mergedAt_of_some hdistinct h hfind

theorem exists_mergeEntries
    (h : ∀ l x y, left.find? l = some x → (l, y) ∈ right → ∃ z, merge l x y = .ok z)
    (merged : Entries Value) : ∃ done, mergeEntries merge left merged right = .ok done := by
  induction right generalizing merged with
  | nil => exact ⟨merged, rfl⟩
  | cons e right ih =>
      obtain ⟨l, y⟩ := e
      have hrest := ih fun l x y hx hy => h l x y hx (List.mem_cons_of_mem _ hy)
      cases hfind : left.find? l with
      | none =>
          simp only [mergeEntries, hfind]
          exact hrest (merged.put l y)
      | some x =>
          obtain ⟨z, hz⟩ := h l x y hfind List.mem_cons_self
          obtain ⟨done, hdone⟩ := hrest (merged.put l z)
          exact ⟨done, (mergeEntries_cons hfind right).trans (bind_eq_ok_iff.mpr ⟨z, hz, hdone⟩)⟩

end Loops

section Items

variable {merge : Nat → Value → Value → Except MergeFailure Value} {i : Nat}
  {us vs ms : List Value}

/-- Items are merged index by index. -/
theorem mergedAt_of_mergeItems (hlength : us.length = vs.length)
    (h : mergeItems merge i us vs = .ok ms) :
    ms.length = us.length ∧ ∀ j : Nat, MergedAt (fun x y z => ∃ i, merge i x y = .ok z)
      us[j]? vs[j]? ms[j]? := by
  induction us generalizing i vs ms with
  | nil =>
      cases vs with
      | nil =>
          cases h
          exact ⟨rfl, fun j => .left _⟩
      | cons y vs => cases hlength
  | cons x us ih =>
      cases vs with
      | nil => cases hlength
      | cons y vs =>
          rw [mergeItems_cons] at h
          obtain ⟨z, hz, h⟩ := bind_eq_ok_iff.mp h
          obtain ⟨rest, hrest, rfl⟩ := map_eq_ok_iff.mp h
          obtain ⟨hsize, hparts⟩ := ih (by simpa using hlength) hrest
          refine ⟨by simpa using hsize, fun j => ?_⟩
          cases j with
          | zero => exact .both ⟨i, hz⟩
          | succ j => simpa using hparts j

theorem exists_mergeItems
    (h : ∀ i (j : Nat) x y, us[j]? = some x → vs[j]? = some y → ∃ z, merge i x y = .ok z)
    (i : Nat) : ∃ ms, mergeItems merge i us vs = .ok ms := by
  induction us generalizing i vs with
  | nil => exact ⟨[], by simp [mergeItems]⟩
  | cons x us ih =>
      cases vs with
      | nil => exact ⟨[], by simp [mergeItems]⟩
      | cons y vs =>
          obtain ⟨z, hz⟩ := h i 0 x y rfl rfl
          obtain ⟨rest, hrest⟩ := ih (fun i j x y hx hy => h i (j + 1) x y hx hy) (i + 1)
          refine ⟨z :: rest, (mergeItems_cons ..).trans (bind_eq_ok_iff.mpr ⟨z, hz, ?_⟩)⟩
          exact map_eq_ok_iff.mpr ⟨rest, hrest, rfl⟩

end Items

/-! ## One step -/

variable {depth : Nat} {path : Path}

/-- What two values that are not missing are merged into by one step: atoms of one
kind into the left one, containers of one mold into one of that mold, place by
place. -/
inductive MergedFrom (st : Store) (merge : Value → Value → Value → Prop) :
    Value → Value → Value → Prop
  | atoms {a b : Atom} (h : a.sameKind b = true) :
      MergedFrom st merge (.atom a) (.atom b) (.atom a)
  | parts {u v m : Value} (hmold : st.mold u = st.mold v) (hmerged : st.mold m = st.mold u)
      (hcontainer : st.mold u ≠ .atom)
      (h : ∀ p, MergedAt merge (st.part? p u) (st.part? p v) (st.part? p m)) :
      MergedFrom st merge u v m

theorem mergeValues_atoms {a b : Atom} (ha : (.atom a : Value) ≠ .missing)
    (hb : (.atom b : Value) ≠ .missing) :
    mergeValues st (depth + 1) path (.atom a) (.atom b) =
      if a.sameKind b then .ok (.atom a) else .error (.conflict path (.atom a) (.atom b)) := by
  unfold mergeValues
  split
  · contradiction
  · contradiction
  · rename_i a' b' ha' hb'
    cases ha'
    cases hb'
    rfl
  · rename_i hnot
    exact absurd rfl (hnot a b rfl)

theorem mergedFrom_of_entries? {es fs done : Entries Value} (hes : st.entries? u = some es)
    (hfs : st.entries? v = some fs) (hdistinct : fs.Distinct)
    (h : mergeEntries (fun k => mergeValues st depth (path ++ [k])) es es fs = .ok done) :
    st.MergedFrom (fun x y z => ∃ path, mergeValues st depth path x y = .ok z) u v
      (.mapping false done) := by
  have hmapping : st.entries? (.mapping false done) = some done := rfl
  refine .parts ?_ ?_ ?_ fun p => ?_
  · rw [mold_of_entries? hes, mold_of_entries? hfs]
  · rw [mold_of_entries? hes, mold_of_entries? hmapping]
  · simp [mold_of_entries? hes]
  · cases p with
    | key k =>
        rw [part?_key hes, part?_key hfs, part?_key hmapping]
        refine (mergedAt_of_mergeEntries hdistinct h k).mono ?_
        exact fun x y z ⟨l, hl⟩ => ⟨path ++ [l], hl⟩
    | index i =>
        rw [part?_index_of_entries? hes, part?_index_of_entries? hfs,
          part?_index_of_entries? hmapping]
        exact .left none

theorem mergedFrom_of_items? {us vs ms : List Value} (hus : st.items? u = some us)
    (hvs : st.items? v = some vs) (hlength : us.length = vs.length)
    (h : mergeItems (fun i => mergeValues st depth (path ++ [.index i])) 0 us vs = .ok ms) :
    st.MergedFrom (fun x y z => ∃ path, mergeValues st depth path x y = .ok z) u v
      (.list ms) := by
  have hlist : st.items? (.list ms) = some ms := rfl
  obtain ⟨hsize, hparts⟩ := mergedAt_of_mergeItems hlength h
  refine .parts ?_ ?_ ?_ fun p => ?_
  · rw [mold_of_items? hus, mold_of_items? hvs, hlength]
  · rw [mold_of_items? hus, mold_of_items? hlist, hsize]
  · simp [mold_of_items? hus]
  · cases p with
    | key k =>
        rw [part?_key_of_items? hus, part?_key_of_items? hvs, part?_key_of_items? hlist]
        exact .left none
    | index i =>
        rw [part?_index hus, part?_index hvs, part?_index hlist]
        refine (hparts i).mono ?_
        exact fun x y z ⟨j, hj⟩ => ⟨path ++ [.index j], hj⟩

theorem mergedFrom_of_mergeValues (hu : u ≠ .missing) (hv : v ≠ .missing)
    (hdistinct : ∀ es, st.entries? v = some es → es.Distinct)
    (h : mergeValues st (depth + 1) path u v = .ok m) :
    st.MergedFrom (fun x y z => ∃ path, mergeValues st depth path x y = .ok z) u v m := by
  by_cases hatoms : ∃ a b, u = .atom a ∧ v = .atom b
  · obtain ⟨a, b, rfl, rfl⟩ := hatoms
    rw [mergeValues_atoms hu hv] at h
    split at h
    · rename_i hsame
      cases h
      exact .atoms hsame
    · cases h
  by_cases hentries : ∃ es fs, st.entries? u = some es ∧ st.entries? v = some fs
  · obtain ⟨es, fs, hes, hfs⟩ := hentries
    rw [mergeValues_of_entries? hes hfs] at h
    obtain ⟨done, hdone, rfl⟩ := map_eq_ok_iff.mp h
    exact mergedFrom_of_entries? hes hfs (hdistinct fs hfs) hdone
  by_cases hitems : ∃ us vs, st.items? u = some us ∧ st.items? v = some vs ∧
      us.length = vs.length
  · obtain ⟨us, vs, hus, hvs, hlength⟩ := hitems
    rw [mergeValues_of_items? hus hvs hlength] at h
    obtain ⟨ms, hms, rfl⟩ := map_eq_ok_iff.mp h
    exact mergedFrom_of_items? hus hvs hlength hms
  · rw [mergeValues_of_unlike hu hv hatoms hentries hitems] at h
    cases h

/-- Containers of one mold are merged if what stands at the same places is. -/
theorem exists_mergeValues (hmold : st.mold u = st.mold v) (hcontainer : st.mold u ≠ .atom)
    (hdistinct : ∀ es, st.entries? v = some es → es.Distinct)
    (h : ∀ p x y, st.part? p u = some x → st.part? p v = some y →
      ∀ path, ∃ z, mergeValues st depth path x y = .ok z) (path : Path) :
    ∃ m, mergeValues st (depth + 1) path u v = .ok m := by
  cases hu : st.mold u with
  | atom => exact absurd hu hcontainer
  | mapping =>
      obtain ⟨es, hes⟩ := mold_eq_mapping_iff.mp hu
      obtain ⟨fs, hfs⟩ := mold_eq_mapping_iff.mp (hmold ▸ hu)
      rw [mergeValues_of_entries? hes hfs]
      have hparts : ∀ k x y, es.find? k = some x → (k, y) ∈ fs →
          ∃ z, mergeValues st depth (path ++ [k]) x y = .ok z := by
        intro k x y hx hy
        have hx' : st.part? (.key k) u = some x := (part?_key hes k).trans hx
        have hy' : st.part? (.key k) v = some y :=
          (part?_key hfs k).trans (Entries.find?_of_mem (hdistinct fs hfs) hy)
        exact h (.key k) x y hx' hy' _
      obtain ⟨done, hdone⟩ := exists_mergeEntries hparts es
      exact ⟨_, map_eq_ok_iff.mpr ⟨done, hdone, rfl⟩⟩
  | sequence n =>
      obtain ⟨us, hus, hsize⟩ := mold_eq_sequence_iff.mp hu
      obtain ⟨vs, hvs, hsize'⟩ := mold_eq_sequence_iff.mp (hmold ▸ hu)
      rw [mergeValues_of_items? hus hvs (hsize.trans hsize'.symm)]
      have hparts : ∀ i (j : Nat) x y, us[j]? = some x → vs[j]? = some y →
          ∃ z, mergeValues st depth (path ++ [.index i]) x y = .ok z := by
        intro i j x y hx hy
        have hx' : st.part? (.index j) u = some x := (part?_index hus j).trans hx
        have hy' : st.part? (.index j) v = some y := (part?_index hvs j).trans hy
        exact h (.index j) x y hx' hy' _
      obtain ⟨ms, hms⟩ := exists_mergeItems hparts 0
      exact ⟨_, map_eq_ok_iff.mpr ⟨ms, hms, rfl⟩⟩

end Store

end Conform
