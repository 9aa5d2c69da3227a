import Conform.Proofs.Associativity
import Conform.Proofs.Deepening

/-!
# Merging many values

A list of values can be merged from either end, and wherever it is cut, with one result or
with none. What is merged depends on a store only in what can be reached from the values,
so the values of a list can be merged in another store in which this is the same.

## Main results

* `Store.fuses_assoc` — three values, at whatever depth.
* `Store.folds_append_iff` — a list that is cut.
* `Store.exists_mergeAll_iff_folds` — merging from the left.
* `Store.AgreesOn.folds_iff` — two stores.
-/

namespace Conform

open Traverse

namespace Store

variable {σ : Type} {st st' : Store} {u v m m' a b c : Value} {us vs : List Value} {depth : Nat}

/-! ## Two values -/

/-- What two values are merged into. -/
def Fuses (st : Store) (u v m : Value) : Prop := ∃ depth, st.Merges depth u v m

theorem Merges.deeper (h : st.Merges depth u v m) {more : Nat} (hmore : depth ≤ more) :
    st.Merges more u v m := by
  induction more, hmore using Nat.le_induction with
  | base => exact h
  | succ more _ ih =>
      rw [Merges] at ih ⊢
      rw [mergeValues_deeper (by simp [ih]), ih]

theorem fuses_missing_left : st.Fuses .missing v m ↔ m = v := by
  constructor
  · rintro ⟨depth, h⟩
    cases depth with
    | zero => cases h
    | succ depth => simpa [Merges, eq_comm] using h
  · rintro rfl
    exact ⟨1, mergeValues_missing_left ..⟩

theorem fuses_missing_right : st.Fuses v .missing m ↔ m = v := by
  constructor
  · rintro ⟨depth, h⟩
    cases depth with
    | zero => cases h
    | succ depth => simpa [Merges, eq_comm] using h
  · rintro rfl
    exact ⟨1, mergeValues_missing_right ..⟩

theorem Fuses.unique (h : st.Fuses u v m) (h' : st.Fuses u v m') : m = m' := by
  obtain ⟨d, h⟩ := h
  obtain ⟨d', h'⟩ := h'
  exact merges_unique u v m m' (h.deeper (le_max_left d d')) (h'.deeper (le_max_right d d'))

theorem Fuses.keyed (h : st.Fuses u v m) (hu : st.Keyed u) (hv : st.Keyed v) : st.Keyed m :=
  h.elim fun _ h => keyed_of_merges hu hv h

/-- Of three values it makes no difference which two are merged first. -/
theorem fuses_assoc (ha : st.Keyed a) (hb : st.Keyed b) (hc : st.Keyed c) :
    (∃ ab, st.Fuses a b ab ∧ st.Fuses ab c m) ↔ ∃ bc, st.Fuses b c bc ∧ st.Fuses a bc m := by
  constructor
  · rintro ⟨ab, ⟨d, hab⟩, ⟨d', habc⟩⟩
    obtain ⟨bc, hbc, h⟩ := (merges_assoc ha hb hc).mp
      ⟨ab, hab.deeper (le_max_left d d'), habc.deeper (le_max_right d d')⟩
    exact ⟨bc, ⟨_, hbc⟩, ⟨_, h⟩⟩
  · rintro ⟨bc, ⟨d, hbc⟩, ⟨d', habc⟩⟩
    obtain ⟨ab, hab, h⟩ := (merges_assoc ha hb hc).mpr
      ⟨bc, hbc.deeper (le_max_left d d'), habc.deeper (le_max_right d d')⟩
    exact ⟨ab, ⟨_, hab⟩, ⟨_, h⟩⟩

/-! ## Lists of values -/

/-- What the values of a list are merged into, from the right. -/
inductive Folds (st : Store) : List Value → Value → Prop
  | nil : Folds st [] .missing
  | cons {x n m : Value} {xs : List Value} (hrest : Folds st xs n) (h : st.Fuses x n m) :
      Folds st (x :: xs) m

theorem folds_cons_iff {x : Value} {xs : List Value} :
    st.Folds (x :: xs) m ↔ ∃ n, st.Folds xs n ∧ st.Fuses x n m :=
  ⟨fun h => by cases h with | cons hrest h => exact ⟨_, hrest, h⟩,
    fun ⟨_, hrest, h⟩ => .cons hrest h⟩

theorem folds_nil_iff : st.Folds [] m ↔ m = .missing :=
  ⟨fun h => by cases h; rfl, fun h => h ▸ .nil⟩

theorem folds_singleton_iff : st.Folds [v] m ↔ m = v := by
  simp [folds_cons_iff, folds_nil_iff, fuses_missing_right]

theorem Folds.keyed (h : st.Folds us m) (hus : ∀ u ∈ us, st.Keyed u) : st.Keyed m := by
  induction h with
  | nil => exact keyed_atom st _
  | cons _ h ih =>
      obtain ⟨hx, hxs⟩ := List.forall_mem_cons.mp hus
      exact h.keyed hx (ih hxs)

/-- A list is merged as the two parts are that it is cut into. -/
theorem folds_append_iff (hus : ∀ u ∈ us, st.Keyed u) (hvs : ∀ v ∈ vs, st.Keyed v) :
    st.Folds (us ++ vs) m ↔ ∃ k l, st.Folds us k ∧ st.Folds vs l ∧ st.Fuses k l m := by
  induction us generalizing m with
  | nil => simp [folds_nil_iff, fuses_missing_left]
  | cons x us ih =>
      obtain ⟨hx, hus⟩ := List.forall_mem_cons.mp hus
      rw [List.cons_append, folds_cons_iff]
      constructor
      · rintro ⟨n, hn, hm⟩
        obtain ⟨k, l, hk, hl, hkl⟩ := (ih hus).mp hn
        obtain ⟨xk, hxk, hxkl⟩ :=
          (fuses_assoc hx (hk.keyed hus) (hl.keyed hvs)).mpr ⟨n, hkl, hm⟩
        exact ⟨xk, l, .cons hk hxk, hl, hxkl⟩
      · rintro ⟨xk, l, hxk, hl, hm⟩
        obtain ⟨k, hk, hxk⟩ := folds_cons_iff.mp hxk
        obtain ⟨n, hkl, hxn⟩ :=
          (fuses_assoc hx (hk.keyed hus) (hl.keyed hvs)).mp ⟨xk, hxk, hm⟩
        exact ⟨n, (ih hus).mpr ⟨k, l, hk, hl, hkl⟩, hxn⟩

/-! ## Merging from the left -/

theorem mergeAll_deeper_le (h : mergeAll st depth u us = .ok m) {more : Nat}
    (hmore : depth ≤ more) : mergeAll st more u us = .ok m := by
  induction more, hmore using Nat.le_induction with
  | base => exact h
  | succ more _ ih => rw [mergeAll_deeper (by simp [ih]), ih]

theorem exists_mergeAll_cons_iff {x : Value} {xs : List Value} :
    (∃ depth, mergeAll st depth u (x :: xs) = .ok m) ↔
      ∃ k, st.Fuses u x k ∧ ∃ depth, mergeAll st depth k xs = .ok m := by
  simp only [mergeAll_cons, bind_eq_ok_iff]
  constructor
  · rintro ⟨depth, k, hk, hm⟩
    exact ⟨k, ⟨depth, hk⟩, depth, hm⟩
  · rintro ⟨k, ⟨d, hk⟩, d', hm⟩
    exact ⟨max d d', k, Merges.deeper hk (le_max_left ..), mergeAll_deeper_le hm (le_max_right ..)⟩

/-- Values are merged from the left as they are from the right. -/
theorem exists_mergeAll_iff (hu : st.Keyed u) (hus : ∀ x ∈ us, st.Keyed x) :
    (∃ depth, mergeAll st depth u us = .ok m) ↔ ∃ n, st.Folds us n ∧ st.Fuses u n m := by
  induction us generalizing u with
  | nil => simp [mergeAll, folds_nil_iff, fuses_missing_right, eq_comm]
  | cons x us ih =>
      obtain ⟨hx, hus⟩ := List.forall_mem_cons.mp hus
      rw [exists_mergeAll_cons_iff]
      constructor
      · rintro ⟨k, hk, hm⟩
        obtain ⟨n, hn, hkn⟩ := (ih (hk.keyed hu hx) hus).mp hm
        obtain ⟨xn, hxn, huxn⟩ := (fuses_assoc hu hx (hn.keyed hus)).mp ⟨k, hk, hkn⟩
        exact ⟨xn, .cons hn hxn, huxn⟩
      · rintro ⟨xn, hxn, hm⟩
        obtain ⟨n, hn, hxn⟩ := folds_cons_iff.mp hxn
        obtain ⟨k, hk, hkn⟩ := (fuses_assoc hu hx (hn.keyed hus)).mpr ⟨xn, hxn, hm⟩
        exact ⟨k, hk, (ih (hk.keyed hu hx) hus).mpr ⟨n, hn, hkn⟩⟩

theorem exists_mergeAll_iff_folds (hu : st.Keyed u) (hus : ∀ x ∈ us, st.Keyed x) :
    (∃ depth, mergeAll st depth u us = .ok m) ↔ st.Folds (u :: us) m := by
  rw [exists_mergeAll_iff hu hus, folds_cons_iff]

/-! ## Other stores -/

/-- Two stores agree on all that can be reached from a value. -/
def AgreesOn (st st' : Store) (v : Value) : Prop :=
  ∀ u, st.Reaches v u → st'.contents? u = st.contents? u

theorem Unchanged.agreesOn {w : World σ} (h : st.Unchanged v w) : st.AgreesOn w.store v :=
  fun _ hu => h.contents?_eq (references_subset_of_reaches hu)

namespace AgreesOn

theorem of_holds (h : st.AgreesOn st' u) (hv : st.Holds u v) : st.AgreesOn st' v :=
  fun x hx => h x (.head hv hx)

theorem of_reaches (h : st.AgreesOn st' u) (hv : st.Reaches u v) : st.AgreesOn st' v :=
  fun x hx => h x (hv.trans hx)

theorem entries?_eq (h : st.AgreesOn st' v) : st'.entries? v = st.entries? v := by
  rw [entries?, h v .refl]
  rfl

theorem items?_eq (h : st.AgreesOn st' v) : st'.items? v = st.items? v := by
  rw [items?, h v .refl]
  rfl

theorem reaches (h : st.AgreesOn st' v) (hu : st'.Reaches v u) : st.Reaches v u := by
  induction hu with
  | refl => exact .refl
  | tail _ hholds ih =>
      obtain ⟨c, hc, hmem⟩ := hholds
      exact ih.tail ⟨c, (h _ ih) ▸ hc, hmem⟩

theorem symm (h : st.AgreesOn st' v) : st'.AgreesOn st v :=
  fun u hu => (h u (h.reaches hu)).symm

theorem trans {st'' : Store} (h : st.AgreesOn st' v) (h' : st'.AgreesOn st'' v) :
    st.AgreesOn st'' v :=
  fun u hu => (h' u (h.symm.reaches hu)).trans (h u hu)

theorem keyed (h : st.AgreesOn st' v) (hv : st.Keyed v) : st'.Keyed v := by
  intro u hu es hes
  have hreaches := h.reaches hu
  exact hv u hreaches es ((h.of_reaches hreaches).entries?_eq ▸ hes)

/-- To agree on a value is to agree on its contents and on what stands in it. -/
theorem of_contents? (hself : st'.contents? v = st.contents? v)
    (hholds : ∀ u, st.Holds v u → st.AgreesOn st' u) : st.AgreesOn st' v := by
  intro x hx
  rcases hx.cases_head with rfl | ⟨u, hu, hx⟩
  · exact hself
  · exact hholds u hu x hx

end AgreesOn

/-- Stores that agree on two values agree on what is built of them. -/
theorem builds_agreesOn (st st' : Store) : st.Builds (st.AgreesOn st') where
  holds := AgreesOn.of_holds
  mapping _ _ _ _ hdone _ := by
    refine .of_contents? rfl fun u hu => ?_
    obtain ⟨_, hc, hu⟩ := hu
    cases hc
    obtain ⟨e, he, rfl⟩ := List.mem_map.mp hu
    exact hdone e he
  list hitems := by
    refine .of_contents? rfl fun u hu => ?_
    obtain ⟨_, hc, hu⟩ := hu
    cases hc
    exact hitems u hu

theorem mergeEntries_congr {merge merge' : Key → Value → Value → Except MergeFailure Value}
    {left merged right : Entries Value}
    (h : ∀ k x y, left.find? k = some x → (k, y) ∈ right → merge' k x y = merge k x y) :
    mergeEntries merge' left merged right = mergeEntries merge left merged right := by
  induction right generalizing merged with
  | nil => rfl
  | cons e right ih =>
      obtain ⟨k, y⟩ := e
      have hrest : ∀ merged, mergeEntries merge' left merged right =
          mergeEntries merge left merged right :=
        fun _ => ih fun l x y hx hy => h l x y hx (List.mem_cons_of_mem _ hy)
      cases hfind : left.find? k with
      | none => simp only [mergeEntries, hfind, hrest]
      | some x => simp only [mergeEntries, hfind, hrest, h k x y hfind List.mem_cons_self]

theorem mergeItems_congr {merge merge' : Nat → Value → Value → Except MergeFailure Value}
    {i : Nat} {xs ys : List Value}
    (h : ∀ i x y, x ∈ xs → y ∈ ys → merge' i x y = merge i x y) :
    mergeItems merge' i xs ys = mergeItems merge i xs ys := by
  induction xs generalizing i ys with
  | nil => rfl
  | cons x xs ih =>
      cases ys with
      | nil => rfl
      | cons y ys =>
          have hrest := ih (i := i + 1) fun j a b ha hb =>
            h j a b (List.mem_cons_of_mem _ ha) (List.mem_cons_of_mem _ hb)
          simp only [mergeItems, hrest, h i x y List.mem_cons_self List.mem_cons_self]

namespace AgreesOn

theorem mergeValues_eq {path : Path} (hu : st.AgreesOn st' u) (hv : st.AgreesOn st' v) :
    mergeValues st' depth path u v = mergeValues st depth path u v := by
  induction depth generalizing path u v with
  | zero => rfl
  | succ depth ih =>
      cases st.meeting u v with
      | missingLeft => simp
      | missingRight => simp
      | atoms ha hb => rw [mergeValues_atoms ha hb, mergeValues_atoms ha hb]
      | entries hes hfs =>
          rw [mergeValues_of_entries? hes hfs,
            mergeValues_of_entries? (hu.entries?_eq.trans hes) (hv.entries?_eq.trans hfs)]
          refine congrArg _ (mergeEntries_congr fun k x y hx hy => ih ?_ ?_)
          · exact hu.of_holds (holds_of_entries? hes hx)
          · exact hv.of_holds (holds_of_mem_entries hfs hy)
      | items hus hvs hlength =>
          rw [mergeValues_of_items? hus hvs hlength, mergeValues_of_items?
            (hu.items?_eq.trans hus) (hv.items?_eq.trans hvs) hlength]
          refine congrArg _ (mergeItems_congr fun i x y hx hy => ih ?_ ?_)
          · exact hu.of_holds (holds_of_items? hus hx)
          · exact hv.of_holds (holds_of_items? hvs hy)
      | unlike hunlike =>
          rw [hunlike.mergeValues]
          by_cases hatoms : ∃ a b, u = .atom a ∧ v = .atom b
          · obtain ⟨a, b, rfl, rfl⟩ := hatoms
            have hkinds : a.sameKind b ≠ true := fun hsame => hunlike.kinds 0 (congrArg some hsame)
            rw [mergeValues_atoms hunlike.left hunlike.right, if_neg hkinds]
          · refine mergeValues_of_unlike hunlike.left hunlike.right hatoms ?_ ?_
            · rw [hu.entries?_eq, hv.entries?_eq]
              exact hunlike.mappings
            · rw [hu.items?_eq, hv.items?_eq]
              exact hunlike.sequences

theorem fuses_iff (hu : st.AgreesOn st' u) (hv : st.AgreesOn st' v) :
    st'.Fuses u v m ↔ st.Fuses u v m := by
  simp only [Fuses, Merges, hu.mergeValues_eq hv]

theorem of_fuses (hu : st.AgreesOn st' u) (hv : st.AgreesOn st' v) (h : st.Fuses u v m) :
    st.AgreesOn st' m :=
  h.elim fun _ h => (builds_agreesOn st st').mergeValues hu hv h

theorem of_folds (hus : ∀ u ∈ us, st.AgreesOn st' u) (h : st.Folds us m) : st.AgreesOn st' m := by
  induction h with
  | nil => exact .of_contents? rfl fun u ⟨_, hc, _⟩ => by cases hc
  | cons _ h ih =>
      obtain ⟨hx, hxs⟩ := List.forall_mem_cons.mp hus
      exact hx.of_fuses (ih hxs) h

/-- A list is merged alike in stores that agree on its values. -/
theorem folds_iff (hus : ∀ u ∈ us, st.AgreesOn st' u) : st'.Folds us m ↔ st.Folds us m := by
  induction us generalizing m with
  | nil => rw [folds_nil_iff, folds_nil_iff]
  | cons x us ih =>
      obtain ⟨hx, hus⟩ := List.forall_mem_cons.mp hus
      rw [folds_cons_iff, folds_cons_iff]
      constructor
      · rintro ⟨n, hn, hm⟩
        have hn := (ih hus).mp hn
        exact ⟨n, hn, (hx.fuses_iff (of_folds hus hn)).mp hm⟩
      · rintro ⟨n, hn, hm⟩
        exact ⟨n, (ih hus).mpr hn, (hx.fuses_iff (of_folds hus hn)).mpr hm⟩

end AgreesOn

end Store

end Conform
