import Mathlib.Data.Finset.Card
import Mathlib.Data.Finset.Range
import Conform.Proofs.Container

/-!
# What has a copy

A value has no copy if a read-only mapping can be reached from it. Whether one can is told
by a search: the addresses in the value, those in the containers at them, and so on, as many
times as there are shared containers.

That is often enough. As long as something new is found, it was found in a container that
was new itself, so that there is one more container for every round.

## Main results

* `Store.closed_addressesFrom` — the search has found everything that can be found.
* `Store.isCopyable_iff` — a value has a copy if no read-only mapping can be reached from it.
-/

namespace Conform

/-! ## Values by their containers -/

/-- Whether a container is a read-only mapping. -/
def Contents.isReadOnly : Contents → Bool
  | mapping readOnly _ => readOnly
  | _ => false

theorem Contents.sizeOf_toValue (c : Contents) : sizeOf c.toValue = sizeOf c := by
  cases c <;> simp [toValue]

/-- What holds of atoms and references, and of a container if it holds of what stands in it,
holds of every value. -/
theorem Value.of_contents {P : Value → Prop} (hatom : ∀ a, P (.atom a))
    (hshared : ∀ address copied, P (.shared address copied))
    (hcontents : ∀ c : Contents, (∀ u ∈ c.values, P u) → P c.toValue) (v : Value) : P v := by
  have hinside (c : Contents) (hv : v = c.toValue) : P c.toValue :=
    hcontents c fun u hu =>
      have : sizeOf u < sizeOf v := hv ▸ c.sizeOf_toValue ▸ c.sizeOf_lt hu
      Value.of_contents hatom hshared hcontents u
  cases v with
  | atom a => exact hatom a
  | shared address copied => exact hshared address copied
  | list items => exact hinside (.list items) rfl
  | tuple items => exact hinside (.tuple items) rfl
  | mapping readOnly entries => exact hinside (.mapping readOnly entries) rfl
termination_by sizeOf v

theorem Value.addressesOfItems_eq (items : List Value) :
    addressesOfItems items = items.flatMap addresses := by
  induction items with
  | nil => rfl
  | cons v items ih => rw [addressesOfItems, ih, List.flatMap_cons]

theorem Value.itemsHaveReadOnly_eq (items : List Value) :
    itemsHaveReadOnly items = items.any hasReadOnly := by
  induction items with
  | nil => rfl
  | cons v items ih => rw [itemsHaveReadOnly, ih, List.any_cons]

theorem Value.detachItems_eq (items : List Value) : detachItems items = items.map detach := by
  induction items with
  | nil => rfl
  | cons v items ih => rw [detachItems, ih, List.map_cons]

namespace Contents

/-- The addresses in a container are those in what stands in it. -/
theorem addresses_toValue (c : Contents) :
    c.toValue.addresses = c.values.flatMap Value.addresses := by
  cases c with
  | list items => exact Value.addressesOfItems_eq items
  | tuple items => exact Value.addressesOfItems_eq items
  | mapping readOnly entries =>
      show Value.addressesOfEntries entries = _
      induction entries with
      | nil => rfl
      | cons e entries ih => rw [Value.addressesOfEntries, ih]; rfl

/-- A read-only mapping stands in a container that is one, or in something that stands in it. -/
theorem hasReadOnly_toValue (c : Contents) :
    c.toValue.hasReadOnly = (c.isReadOnly || c.values.any Value.hasReadOnly) := by
  cases c with
  | list items => exact Value.itemsHaveReadOnly_eq items
  | tuple items => exact Value.itemsHaveReadOnly_eq items
  | mapping readOnly entries =>
      refine congrArg (readOnly || ·) ?_
      induction entries with
      | nil => rfl
      | cons e entries ih => rw [Value.entriesHaveReadOnly, ih]; rfl

/-- What stands in a copy are copies of what stands in the container. -/
theorem values_detach (c : Contents) : c.detach.values = c.values.map Value.detach := by
  cases c with
  | list items => exact Value.detachItems_eq items
  | tuple items => exact Value.detachItems_eq items
  | mapping readOnly entries =>
      show (Value.detachEntries entries).map Prod.snd = _
      induction entries with
      | nil => rfl
      | cons e entries ih => rw [Value.detachEntries, List.map_cons, ih]; rfl

theorem isReadOnly_detach (c : Contents) : c.detach.isReadOnly = c.isReadOnly := by
  cases c <;> rfl

theorem detach_toValue (c : Contents) : c.toValue.detach = c.detach.toValue := by
  cases c <;> rfl

end Contents

/-- A copy refers to the same addresses. -/
theorem Value.addresses_detach (v : Value) : v.detach.addresses = v.addresses := by
  induction v using Value.of_contents with
  | hatom a => rfl
  | hshared address copied => rfl
  | hcontents c ih =>
      rw [c.detach_toValue, Contents.addresses_toValue, Contents.addresses_toValue,
        c.values_detach, List.flatMap_map]
      exact List.flatMap_congr ih

/-- A read-only mapping stands in a copy if it stands in what was copied. -/
theorem Value.hasReadOnly_detach (v : Value) : v.detach.hasReadOnly = v.hasReadOnly := by
  induction v using Value.of_contents with
  | hatom a => rfl
  | hshared address copied => rfl
  | hcontents c ih =>
      rw [c.detach_toValue, Contents.hasReadOnly_toValue, Contents.hasReadOnly_toValue,
        c.values_detach, c.isReadOnly_detach, List.any_map]
      refine congrArg _ (Bool.eq_iff_iff.mpr ?_)
      simp only [List.any_eq_true, Function.comp_apply]
      exact exists_congr fun u => and_congr_right fun hu => by rw [ih u hu]

namespace Store

variable {st : Store} {v u : Value} {a b : Nat}

/-! ## The search finds everything -/

/-- A container refers to an address. -/
def Refers (st : Store) (a b : Nat) : Prop := b ∈ (st.read a).toValue.addresses

/-- An address that was never given out refers to nothing. -/
theorem lt_size_of_refers (h : st.Refers a b) : a < st.cells.size := by
  by_contra hout
  have hread : st.read a = .list [] := by
    unfold read
    rw [Array.getElem?_eq_none (Nat.not_lt.mp hout), Option.getD_none]
  rw [Refers, hread] at h
  cases h

theorem mem_spread_iff {as : List Nat} : b ∈ st.spread as ↔ b ∈ as ∨ ∃ a ∈ as, st.Refers a b := by
  rw [spread, List.mem_eraseDups, List.mem_append, List.mem_flatMap]
  rfl

/-- Nothing new is referred to. -/
def Closed (st : Store) (as : List Nat) : Prop := ∀ a ∈ as, ∀ b, st.Refers a b → b ∈ as

theorem Closed.spread {as : List Nat} (h : st.Closed as) : ∀ b ∈ st.spread as, b ∈ as := by
  intro b hb
  rcases mem_spread_iff.mp hb with hb | ⟨a, ha, hrefers⟩
  · exact hb
  · exact h a ha b hrefers

/-- Every round in which something new is referred to has found one more container. -/
theorem lt_card_of_not_closed (as : List Nat) (k : Nat) (h : ¬ st.Closed (st.spreadTimes k as)) :
    k < ((st.spreadTimes k as).toFinset ∩ Finset.range st.cells.size).card := by
  induction k with
  | zero =>
      simp only [Closed, not_forall] at h
      obtain ⟨a, ha, b, hrefers, -⟩ := h
      refine Finset.card_pos.mpr ⟨a, Finset.mem_inter.mpr ⟨List.mem_toFinset.mpr ha, ?_⟩⟩
      exact Finset.mem_range.mpr (lt_size_of_refers hrefers)
  | succ k ih =>
      simp only [Closed, not_forall] at h
      obtain ⟨a, ha, b, hrefers, hnew⟩ := h
      -- where the new address is referred to is new itself, or the round would have found it
      have hfresh : a ∉ st.spreadTimes k as := fun hold =>
        hnew (mem_spread_iff.mpr (.inr ⟨a, hold, hrefers⟩))
      have hbefore := ih fun hclosed => hfresh (hclosed.spread a ha)
      refine Nat.lt_of_le_of_lt (Nat.succ_le_of_lt hbefore) (Finset.card_lt_card ?_)
      refine Finset.ssubset_iff_of_subset ?_ |>.mpr ⟨a, ?_, ?_⟩
      · refine Finset.inter_subset_inter_right fun x hx => List.mem_toFinset.mpr ?_
        exact mem_spread_iff.mpr (.inl (List.mem_toFinset.mp hx))
      · exact Finset.mem_inter.mpr
          ⟨List.mem_toFinset.mpr ha, Finset.mem_range.mpr (lt_size_of_refers hrefers)⟩
      · exact fun hx => hfresh (List.mem_toFinset.mp (Finset.mem_inter.mp hx).1)

/-- The search has found everything that can be found. -/
theorem closed_addressesFrom (st : Store) (v : Value) : st.Closed (st.addressesFrom v) := by
  by_contra h
  have hlt := lt_card_of_not_closed v.addresses st.cells.size h
  have hle : ((st.addressesFrom v).toFinset ∩ Finset.range st.cells.size).card ≤
      st.cells.size :=
    (Finset.card_le_card Finset.inter_subset_right).trans_eq (Finset.card_range _)
  exact absurd hlt (Nat.not_lt.mpr hle)

theorem mem_spreadTimes {as : List Nat} (k : Nat) (h : a ∈ as) : a ∈ st.spreadTimes k as := by
  induction k with
  | zero => exact h
  | succ k ih => exact mem_spread_iff.mpr (.inl ih)

/-! ## What is found can be reached -/

theorem contents?_toValue (c : Contents) : st.contents? c.toValue = some c := by
  cases c <;> rfl

/-- The contents of a reference, which may be that of a copy. -/
theorem contents?_shared (st : Store) (a : Nat) (copied : Bool) :
    ∃ c, st.contents? (.shared a copied) = some c ∧
      c.toValue.addresses = (st.read a).toValue.addresses ∧
      c.toValue.hasReadOnly = (st.read a).toValue.hasReadOnly := by
  cases copied with
  | false => exact ⟨st.read a, rfl, rfl, rfl⟩
  | true =>
      refine ⟨(st.read a).detach, rfl, ?_, ?_⟩
      · rw [← Contents.detach_toValue, Value.addresses_detach]
      · rw [← Contents.detach_toValue, Value.hasReadOnly_detach]

/-- A value refers to an address by a reference that can be reached from it. -/
theorem exists_reaches_of_mem_addresses (st : Store) (h : a ∈ v.addresses) :
    ∃ copied, st.Reaches v (.shared a copied) := by
  induction v using Value.of_contents with
  | hatom b => cases h
  | hshared b copied =>
      obtain rfl := List.mem_singleton.mp h
      exact ⟨copied, .refl⟩
  | hcontents c ih =>
      rw [c.addresses_toValue] at h
      obtain ⟨u, hu, ha⟩ := List.mem_flatMap.mp h
      obtain ⟨copied, hreaches⟩ := ih u hu ha
      exact ⟨copied, .head ⟨c, contents?_toValue c, hu⟩ hreaches⟩

/-- A read-only mapping that stands in a value can be reached from it. -/
theorem exists_reaches_of_hasReadOnly (st : Store) (h : v.hasReadOnly = true) :
    ∃ u c, st.Reaches v u ∧ st.contents? u = some c ∧ c.isReadOnly = true := by
  induction v using Value.of_contents with
  | hatom b => cases h
  | hshared b copied => cases h
  | hcontents c ih =>
      rw [c.hasReadOnly_toValue, Bool.or_eq_true, List.any_eq_true] at h
      rcases h with hself | ⟨u, hu, hinside⟩
      · exact ⟨_, c, .refl, contents?_toValue c, hself⟩
      · obtain ⟨x, d, hreaches, hx⟩ := ih u hu hinside
        exact ⟨x, d, .head ⟨c, contents?_toValue c, hu⟩ hreaches, hx⟩

/-- From a reference can be reached what can be reached from its container as a value. -/
theorem exists_reaches_of_shared {copied : Bool} {c : Contents}
    (hc : st.contents? (.shared a copied) = some c) (h : st.Reaches c.toValue u) :
    u = c.toValue ∨ st.Reaches (.shared a copied) u := by
  rcases h.cases_head with rfl | ⟨x, ⟨d, hd, hx⟩, hrest⟩
  · exact .inl rfl
  · rw [contents?_toValue] at hd
    cases hd
    exact .inr (.head ⟨c, hc, hx⟩ hrest)

/-- Every address that is found belongs to a reference that can be reached. -/
theorem exists_reaches_of_mem_spreadTimes (k : Nat) (h : a ∈ st.spreadTimes k v.addresses) :
    ∃ copied, st.Reaches v (.shared a copied) := by
  induction k generalizing a with
  | zero => exact st.exists_reaches_of_mem_addresses h
  | succ k ih =>
      rcases mem_spread_iff.mp h with h | ⟨b, hb, hrefers⟩
      · exact ih h
      · obtain ⟨copied, hreaches⟩ := ih hb
        obtain ⟨c, hc, haddresses, -⟩ := st.contents?_shared b copied
        have hrefers : a ∈ c.toValue.addresses := by rw [haddresses]; exact hrefers
        obtain ⟨copied', hinside⟩ := st.exists_reaches_of_mem_addresses hrefers
        rcases exists_reaches_of_shared hc hinside with heq | hrest
        · cases c <;> cases heq
        · exact ⟨copied', hreaches.trans hrest⟩

/-! ## Copies -/

/-- No read-only mapping stands in a value, and all its references are among some. -/
def Spared (as : List Nat) (v : Value) : Prop :=
  v.hasReadOnly = false ∧ ∀ a ∈ v.addresses, a ∈ as

section Spared

variable {as : List Nat} {c : Contents} (hclosed : st.Closed as)
  (hfound : ∀ a ∈ as, (st.read a).toValue.hasReadOnly = false)
include hclosed hfound

theorem Spared.contents (hv : Spared as v) (hc : st.contents? v = some c) :
    Spared as c.toValue := by
  cases v with
  | atom b => cases hc
  | shared b copied =>
      obtain ⟨d, hd, haddresses, hreadOnly⟩ := st.contents?_shared b copied
      rw [hd] at hc
      cases hc
      have hb := hv.2 b (List.mem_singleton_self b)
      refine ⟨hreadOnly.trans (hfound b hb), fun a ha => hclosed b hb a ?_⟩
      rw [haddresses] at ha
      exact ha
  | _ =>
      cases hc
      exact hv

theorem Spared.of_holds (hv : Spared as v) (h : st.Holds v u) : Spared as u := by
  obtain ⟨c, hc, hu⟩ := h
  obtain ⟨hnone, hsome⟩ := hv.contents hclosed hfound hc
  rw [c.hasReadOnly_toValue, Bool.or_eq_false_iff, List.any_eq_false] at hnone
  rw [c.addresses_toValue] at hsome
  exact ⟨by simpa using hnone.2 u hu, fun a ha => hsome a (List.mem_flatMap.mpr ⟨u, hu, ha⟩)⟩

theorem Spared.of_reaches (hv : Spared as v) (h : st.Reaches v u) : Spared as u := by
  induction h with
  | refl => exact hv
  | tail _ hstep ih => exact ih.of_holds hclosed hfound hstep

end Spared

/-- A value has a copy if no read-only mapping can be reached from it, and only then. -/
theorem isCopyable_iff (st : Store) (v : Value) :
    st.isCopyable v = true ↔
      ∀ u c, st.Reaches v u → st.contents? u = some c → c.isReadOnly = false := by
  have hsearch : st.isCopyable v = true ↔ v.hasReadOnly = false ∧
      ∀ a ∈ st.addressesFrom v, (st.read a).toValue.hasReadOnly = false := by
    simp [isCopyable]
  rw [hsearch]
  constructor
  · rintro ⟨hnone, hfound⟩ u c hreaches hc
    have hv : Spared (st.addressesFrom v) v := ⟨hnone, fun a ha => mem_spreadTimes _ ha⟩
    have hclosed := closed_addressesFrom st v
    have hspared := (hv.of_reaches hclosed hfound hreaches).contents hclosed hfound hc
    have hnone := hspared.1
    rw [c.hasReadOnly_toValue, Bool.or_eq_false_iff] at hnone
    exact hnone.1
  · intro h
    have hnone : ∀ u, st.Reaches v u → u.hasReadOnly = false := fun u hu => by
      rw [← Bool.not_eq_true]
      intro hreadOnly
      obtain ⟨x, c, hx, hc, hself⟩ := st.exists_reaches_of_hasReadOnly hreadOnly
      rw [h x c (hu.trans hx) hc] at hself
      cases hself
    refine ⟨hnone v .refl, fun a ha => ?_⟩
    obtain ⟨copied, hreaches⟩ := exists_reaches_of_mem_spreadTimes _ ha
    obtain ⟨c, hc, -, hsame⟩ := st.contents?_shared a copied
    rw [← hsame, c.hasReadOnly_toValue, h _ c hreaches hc, Bool.false_or, List.any_eq_false]
    intro u hu
    rw [hnone u (hreaches.tail ⟨c, hc, hu⟩)]
    exact Bool.false_ne_true

end Store

end Conform
