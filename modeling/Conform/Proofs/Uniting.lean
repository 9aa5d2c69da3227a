import Conform.Proofs.Parts

/-!
# Merging in any order

Merging prefers the left side, and is done pair by pair from the left. Still the
values that are merged have no order of precedence. `Store.Unites` says without
one what a run of values is merged into: those that are not missing are atoms of
one kind, or containers of one mold with what stands at each place united in its
turn. It holds of a run of values if it holds of them in any other order.

Merging from the left computes such a value, at the same depth, and comes to an end
whenever there is one. Two values that unite the same values are alike: they differ in
the order of entries, in how a container is held, and in which of several atoms of
one kind stands at a place. So the order in which values are merged makes no other
difference.

## Main results

* `Store.Unites.perm` — uniting is not about an order.
* `Store.unites_of_mergeValues`, `Store.exists_mergeValues_of_unites` — one more value
  is merged exactly if it can be united with those before it.
* `Store.Unites.alike` — what values are united into is determined, up to likeness.
* `exists_mergeAll_of_perm` — values that are merged in one order are merged in any
  other, into a value that is alike.
-/

namespace Conform

open Traverse

namespace Store

variable {st : Store} {vs ws : List Value} {u v m : Value}

/-! ## Uniting -/

/-- The values that are not missing. -/
def present (vs : List Value) : List Value := vs.filter fun v => !isMissing v

/-- What stands at a place of the united value, given what stands there in the
values that have it. -/
inductive UnitedAt (unites : List Value → Value → Prop) : List Value → Option Value → Prop
  | nowhere : UnitedAt unites [] none
  | somewhere {vs : List Value} {m : Value} (hvs : vs ≠ []) (h : unites vs m) :
      UnitedAt unites vs (some m)

theorem unitedAt_some_iff {unites : List Value → Value → Prop} :
    UnitedAt unites vs (some m) ↔ vs ≠ [] ∧ unites vs m := by
  constructor
  · rintro ⟨⟩
    exact ⟨‹_›, ‹_›⟩
  · exact fun h => .somewhere h.1 h.2

/-- Something stands at a place of the united value exactly if something stands there in
one of the values. -/
theorem UnitedAt.isSome_eq {unites : List Value → Value → Prop} {x : Option Value}
    (h : UnitedAt unites vs x) : x.isSome = !vs.isEmpty := by
  cases h with
  | nowhere => rfl
  | somewhere hvs => simp [hvs]

theorem UnitedAt.exists_of_ne_nil {unites : List Value → Value → Prop} {x : Option Value}
    (h : UnitedAt unites vs x) (hvs : vs ≠ []) : ∃ m, unites vs m := by
  cases h with
  | nowhere => exact absurd rfl hvs
  | somewhere _ h => exact ⟨_, h⟩

/-- One layer of uniting values that are not missing. -/
inductive UnitesLayer (st : Store) (unites : List Value → Value → Prop) :
    List Value → Value → Prop
  | none : UnitesLayer st unites [] .missing
  | one (v : Value) : UnitesLayer st unites [v] v
  | atoms {vs : List Value} {c : Atom} (hmany : 2 ≤ vs.length)
      (h : ∀ v ∈ vs, ∃ a, v = .atom a ∧ a.sameKind c = true) : UnitesLayer st unites vs (.atom c)
  | parts {vs : List Value} {m : Value} (hmany : 2 ≤ vs.length)
      (hmold : ∀ v ∈ vs, st.mold v = st.mold m) (hcontainer : st.mold m ≠ .atom)
      (h : ∀ p, UnitedAt unites (vs.filterMap (st.part? p)) (st.part? p m)) :
      UnitesLayer st unites vs m

/-- A value that unites values, followed to a depth. -/
def Unites (st : Store) : Nat → List Value → Value → Prop
  | 0, vs, m => vs = [m]
  | depth + 1, vs, m => st.UnitesLayer (st.Unites depth) (present vs) m

@[simp] theorem present_append (vs ws : List Value) :
    present (vs ++ ws) = present vs ++ present ws := List.filter_append ..

theorem isMissing_eq_false (h : v ≠ .missing) : isMissing v = false := by
  unfold isMissing
  split
  · contradiction
  · rfl

theorem present_singleton (h : v ≠ .missing) : present [v] = [v] := by
  simp [present, isMissing_eq_false h]

theorem ne_missing_of_mem_present (h : v ∈ present vs) : v ≠ .missing := by
  rintro rfl
  simp [present, isMissing] at h

theorem unites_singleton (st : Store) (depth : Nat) (v : Value) : st.Unites depth [v] v := by
  cases depth with
  | zero => rfl
  | succ depth =>
      show st.UnitesLayer _ (present [v]) v
      by_cases hv : v = .missing
      · subst hv
        exact .none
      · rw [present_singleton hv]
        exact .one v

/-! ## No order -/

section Layer

variable {unites : List Value → Value → Prop}

theorem UnitesLayer.perm (hunites : ∀ {vs ws m}, vs.Perm ws → unites vs m → unites ws m)
    (hperm : vs.Perm ws) (h : st.UnitesLayer unites vs m) : st.UnitesLayer unites ws m := by
  cases h with
  | none => exact hperm.nil_eq ▸ .none
  | one => exact (List.perm_singleton.mp hperm.symm) ▸ .one m
  | atoms hmany h =>
      have hmany' := hperm.length_eq ▸ hmany
      exact .atoms hmany' fun v hv => h v (hperm.mem_iff.mpr hv)
  | parts hmany hmold hcontainer h =>
      have hmany' := hperm.length_eq ▸ hmany
      refine .parts hmany' (fun v hv => hmold v (hperm.mem_iff.mpr hv)) hcontainer fun p => ?_
      have hpart := hperm.filterMap (st.part? p)
      have hat := h p
      generalize vs.filterMap (st.part? p) = xs, st.part? p m = x at hat hpart
      cases hat with
      | nowhere => exact hpart.nil_eq ▸ .nowhere
      | somewhere hxs hx =>
          exact .somewhere (fun hnil => hxs (List.perm_nil.mp (hnil ▸ hpart))) (hunites hpart hx)

end Layer

/-- Values that are united are united in any other order. -/
theorem Unites.perm {depth : Nat} (hperm : vs.Perm ws) (h : st.Unites depth vs m) :
    st.Unites depth ws m := by
  induction depth generalizing vs ws m with
  | zero => exact List.perm_singleton.mp ((show vs = [m] from h) ▸ hperm.symm)
  | succ depth ih => exact UnitesLayer.perm ih (hperm.filter _) h

/-! ## What one layer says of the values -/

namespace UnitesLayer

variable {unites : List Value → Value → Prop}

/-- What is united with others has the mold of what they are united into. -/
theorem mold_eq (h : st.UnitesLayer unites vs m) (hv : v ∈ vs) : st.mold v = st.mold m := by
  cases h with
  | none => cases hv
  | one => rw [List.mem_singleton.mp hv]
  | atoms hmany h =>
      obtain ⟨a, rfl, -⟩ := h v hv
      rfl
  | parts hmany hmold hcontainer h => exact hmold v hv

theorem eq_missing (h : st.UnitesLayer unites [] m) : m = .missing := by
  cases h with
  | none => rfl
  | atoms hmany => simp at hmany
  | parts hmany => simp at hmany

theorem ne_missing (h : st.UnitesLayer unites vs m) (hvs : vs ≠ [])
    (hpresent : ∀ v ∈ vs, v ≠ .missing) : m ≠ .missing := by
  cases h with
  | none => exact absurd rfl hvs
  | one => exact hpresent m (List.mem_singleton_self m)
  | atoms hmany h =>
      rintro hmissing
      cases hmissing
      obtain ⟨v, hv⟩ := List.exists_mem_of_ne_nil _ hvs
      obtain ⟨a, rfl, hsame⟩ := h v hv
      exact hpresent _ hv (congrArg Value.atom (Atom.eq_missing_of_sameKind hsame))
  | parts hmany hmold hcontainer h =>
      rintro rfl
      exact hcontainer rfl

/-- Values that are united into an atom that equals itself are atoms of its kind. -/
theorem atoms_of {c : Atom} (h : st.UnitesLayer unites vs (.atom c))
    (hself : c.sameKind c = true) : ∀ v ∈ vs, ∃ a, v = .atom a ∧ a.sameKind c = true := by
  cases h with
  | none => simp
  | one => simpa using hself
  | atoms hmany h => exact h
  | parts hmany hmold hcontainer h => exact absurd rfl hcontainer

/-- An atom into which an atom of some kind is united is of that kind. -/
theorem sameKind_of_mem {a b c : Atom} (h : st.UnitesLayer unites vs (.atom a))
    (hb : .atom b ∈ vs) (hc : b.sameKind c = true) : a.sameKind c = true := by
  cases h with
  | none => cases hb
  | one =>
      cases List.mem_singleton.mp hb
      exact hc
  | atoms hmany h =>
      obtain ⟨b', hb', hsame⟩ := h _ hb
      cases hb'
      exact Atom.sameKind_trans (Atom.sameKind_comm b a ▸ hsame) hc
  | parts hmany hmold hcontainer h => exact absurd rfl hcontainer

/-- Values that are united into a container are united in it place by place. -/
theorem parts_of (h : st.UnitesLayer unites vs m) (hcontainer : st.mold m ≠ .atom)
    (hone : ∀ v, unites [v] v) (p : Place) :
    UnitedAt unites (vs.filterMap (st.part? p)) (st.part? p m) := by
  cases h with
  | none => exact absurd rfl hcontainer
  | one =>
      cases hpart : st.part? p m with
      | none => simpa [hpart] using UnitedAt.nowhere
      | some x => simpa [hpart] using UnitedAt.somewhere (List.cons_ne_nil x []) (hone x)
  | atoms => exact absurd rfl hcontainer
  | parts hmany hmold hcontainer h => exact h p

end UnitesLayer

/-! ## One more value -/

/-- At each place one more value is united with those before it, if merging unites what
stands there on both sides. -/
theorem UnitedAt.append {unites : List Value → Value → Prop}
    {merge : Value → Value → Value → Prop} {x y z : Option Value} (hone : ∀ v, unites [v] v)
    (h : UnitedAt unites vs x) (hmerged : MergedAt merge x y z)
    (hmerge : ∀ vs x y' z, vs ≠ [] → y = some y' → unites vs x → merge x y' z →
      unites (vs ++ [y']) z) : UnitedAt unites (vs ++ y.toList) z := by
  cases hmerged with
  | left => simpa using h
  | right y =>
      cases h
      exact .somewhere (List.cons_ne_nil y []) (hone y)
  | both hz =>
      cases h with
      | somewhere hvs hx => exact .somewhere (by simp) (hmerge _ _ _ _ hvs rfl hx hz)

/-- One layer of uniting one more value, given what one step of merging it gives. -/
theorem UnitesLayer.append {unites : List Value → Value → Prop}
    {merge : Value → Value → Value → Prop} (hlayer : st.UnitesLayer unites vs u)
    (hvs : vs ≠ []) (hone : ∀ v, unites [v] v) (hstep : st.MergedFrom merge u v m)
    (hmerge : ∀ p xs x y z, st.part? p v = some y → xs ≠ [] → unites xs x → merge x y z →
      unites (xs ++ [y]) z) : st.UnitesLayer unites (vs ++ [v]) m := by
  have hmany : 2 ≤ (vs ++ [v]).length := by
    have hpos := List.length_pos_iff.mpr hvs
    simp only [List.length_append, List.length_singleton]
    omega
  cases hstep with
  | @atoms a b hsame =>
      have hatoms := hlayer.atoms_of (Atom.sameKind_self_of_left hsame)
      refine .atoms hmany fun x hx => ?_
      rcases List.mem_append.mp hx with hx | hx
      · exact hatoms x hx
      · exact ⟨b, List.mem_singleton.mp hx, Atom.sameKind_comm a b ▸ hsame⟩
  | parts hmold hmerged hcontainer hparts =>
      refine .parts hmany (fun x hx => ?_) (hmerged ▸ hcontainer) fun p => ?_
      · rcases List.mem_append.mp hx with hx | hx
        · rw [hlayer.mold_eq hx, hmerged]
        · rw [List.mem_singleton.mp hx, ← hmold, hmerged]
      · have hat := hlayer.parts_of hcontainer hone p
        have hpart : [v].filterMap (st.part? p) = (st.part? p v).toList := by
          cases hp : st.part? p v <;> simp [hp]
        rw [List.filterMap_append, hpart]
        exact hat.append hone (hparts p) fun xs x y z hxs hy => hmerge p xs x y z hy hxs

/-- Merging unites one more value with those before it. -/
theorem unites_of_mergeValues {depth : Nat} {path : Path} (h : st.Unites depth vs u)
    (hvs : vs ≠ []) (hv : st.Keyed v) (hm : mergeValues st depth path u v = .ok m) :
    st.Unites depth (vs ++ [v]) m := by
  induction depth generalizing vs u v m path with
  | zero => cases hm
  | succ depth ih =>
      show st.UnitesLayer _ (present (vs ++ [v])) m
      rw [present_append]
      have hlayer : st.UnitesLayer (st.Unites depth) (present vs) u := h
      by_cases hmissing : v = .missing
      · subst hmissing
        rw [mergeValues_missing_right] at hm
        cases hm
        simpa [present, isMissing] using hlayer
      rw [present_singleton hmissing]
      by_cases hnone : present vs = []
      · rw [hnone] at hlayer ⊢
        obtain rfl : u = .missing := hlayer.eq_missing
        rw [mergeValues_missing_left] at hm
        cases hm
        exact .one v
      have hu : u ≠ .missing := hlayer.ne_missing hnone fun x => ne_missing_of_mem_present
      have hstep := mergedFrom_of_mergeValues hu hmissing (fun es => hv.distinct) hm
      refine hlayer.append hnone (st.unites_singleton depth) hstep ?_
      rintro p xs x y z hy hxs hx ⟨path, hz⟩
      exact ih hx hxs (hv.of_part? hy) hz

/-- One step of merging one more value, which can be united with those before it and
perhaps others: it ends if it does at the places of both sides. -/
theorem UnitesLayer.exists_mergeValues {unites : List Value → Value → Prop} {depth : Nat}
    {n : Value} (hall : st.UnitesLayer unites ws n) (hsub : (vs ++ [v]).Sublist ws)
    (hlayer : st.UnitesLayer unites vs u) (hvs : vs ≠ []) (hone : ∀ v, unites [v] v)
    (hu : u ≠ .missing) (hv : v ≠ .missing) (hkeyed : st.Keyed v)
    (hmerge : ∀ p xs zs x y z, st.part? p v = some y → xs ≠ [] → unites xs x →
      (xs ++ [y]).Sublist zs → unites zs z → ∀ path, ∃ m, mergeValues st depth path x y = .ok m)
    (path : Path) : ∃ m, mergeValues st (depth + 1) path u v = .ok m := by
  obtain ⟨x, hx⟩ := List.exists_mem_of_ne_nil _ hvs
  have hx' : x ∈ ws := hsub.subset (List.mem_append_left _ hx)
  have hv' : v ∈ ws := hsub.subset (List.mem_append_right _ (List.mem_singleton_self v))
  have hmold : st.mold u = st.mold v := by
    rw [← hlayer.mold_eq hx, hall.mold_eq hx', hall.mold_eq hv']
  have hmany : 2 ≤ ws.length := by
    have hlength := hsub.length_le
    have hpos := List.length_pos_iff.mpr hvs
    simp only [List.length_append, List.length_singleton] at hlength
    omega
  cases hall with
  | none => simp at hmany
  | one => simp at hmany
  | @atoms _ c _ hatoms =>
      obtain ⟨b, rfl, hb⟩ := hatoms v hv'
      obtain ⟨a, rfl⟩ := mold_eq_atom_iff.mp hmold
      obtain ⟨d, rfl, hd⟩ := hatoms x hx'
      have ha : a.sameKind c = true := hlayer.sameKind_of_mem hx hd
      have hsame := Atom.sameKind_trans ha (Atom.sameKind_comm b c ▸ hb)
      exact ⟨.atom a, (mergeValues_atoms hu hv).trans (if_pos hsame)⟩
  | parts _ hmolds hcontainer hparts =>
      have hcontainer' : st.mold u ≠ .atom := by
        rwa [hmold, hmolds v hv']
      refine Store.exists_mergeValues hmold hcontainer' (fun es => hkeyed.distinct) ?_ path
      intro p y z hy hz path'
      have hat := hlayer.parts_of hcontainer' hone p
      rw [hy] at hat
      obtain ⟨hys, hunited⟩ := unitedAt_some_iff.mp hat
      have hpart := hsub.filterMap (st.part? p)
      rw [List.filterMap_append, List.filterMap_cons_some hz] at hpart
      have hzs : ws.filterMap (st.part? p) ≠ [] := by
        intro hnil
        simp [hnil] at hpart
      obtain ⟨n', hunited'⟩ := (hparts p).exists_of_ne_nil hzs
      exact hmerge p _ _ y z n' hz hys hunited hpart hunited' path'

/-- One more value is merged with what those before it were united into if all of them
can be united, perhaps with others. -/
theorem exists_mergeValues_of_unites {depth : Nat} {n : Value} (hn : st.Unites depth ws n)
    (hsub : (vs ++ [v]).Sublist ws) (h : st.Unites depth vs u) (hvs : vs ≠ [])
    (hv : st.Keyed v) (path : Path) : ∃ m, mergeValues st depth path u v = .ok m := by
  induction depth generalizing vs ws u v n path with
  | zero =>
      have hlength := hsub.length_le
      have hpos := List.length_pos_iff.mpr hvs
      rw [show ws = [n] from hn, List.length_append, List.length_singleton,
        List.length_singleton] at hlength
      omega
  | succ depth ih =>
      have hlayer : st.UnitesLayer (st.Unites depth) (present vs) u := h
      have hall : st.UnitesLayer (st.Unites depth) (present ws) n := hn
      by_cases hmissing : v = .missing
      · exact ⟨u, by rw [hmissing, mergeValues_missing_right]⟩
      by_cases hu : u = .missing
      · exact ⟨v, by rw [hu, mergeValues_missing_left]⟩
      have hsub' : (present vs ++ [v]).Sublist (present ws) := by
        have hfilter : (present (vs ++ [v])).Sublist (present ws) := hsub.filter _
        rwa [present_append, present_singleton hmissing] at hfilter
      have hsome : present vs ≠ [] := by
        intro hnone
        rw [hnone] at hlayer
        exact hu hlayer.eq_missing
      refine hall.exists_mergeValues hsub' hlayer hsome (st.unites_singleton depth) hu hmissing hv
        ?_ path
      intro p xs zs x y z hy hxs hx hzs hz
      exact ih hz hzs hx hxs (hv.of_part? hy)

/-! ## Likeness -/

/-- Values that are equal up to the order of the entries of mappings, up to whether a
sequence is a list or a tuple, and up to the choice among atoms of one kind. -/
inductive Alike (st : Store) : Value → Value → Prop
  | same (u : Value) : Alike st u u
  | atoms {a b : Atom} (h : a.sameKind b = true) : Alike st (.atom a) (.atom b)
  | parts {u v : Value} (hmold : st.mold u = st.mold v) (hcontainer : st.mold u ≠ .atom)
      (hplaces : ∀ p, (st.part? p u).isSome = (st.part? p v).isSome)
      (h : ∀ p x y, st.part? p u = some x → st.part? p v = some y → Alike st x y) : Alike st u v

theorem Alike.eq_missing_iff (h : st.Alike u v) : u = .missing ↔ v = .missing := by
  cases h with
  | same => rfl
  | @atoms a b hsame =>
      constructor
      · rintro ⟨⟩
        rw [Atom.sameKind_comm] at hsame
        exact congrArg Value.atom (Atom.eq_missing_of_sameKind hsame)
      · rintro ⟨⟩
        exact congrArg Value.atom (Atom.eq_missing_of_sameKind hsame)
  | parts hmold hcontainer =>
      constructor
      · rintro rfl
        exact absurd rfl hcontainer
      · rintro rfl
        exact absurd hmold hcontainer

/-- Values that are alike are alike with null in place of what is missing. -/
theorem Alike.orNull (h : st.Alike u v) :
    st.Alike (if isMissing u then .null else u) (if isMissing v then .null else v) := by
  by_cases hu : u = .missing
  · have hv := h.eq_missing_iff.mp hu
    subst hu hv
    exact .same .null
  · have hv : v ≠ .missing := fun hv => hu (h.eq_missing_iff.mpr hv)
    simpa only [isMissing_eq_false hu, isMissing_eq_false hv, Bool.false_eq_true, if_false] using h

/-- Values that unite the same values are alike. -/
theorem Unites.alike {depth : Nat} {n : Value} (h : st.Unites depth vs m)
    (h' : st.Unites depth vs n) : st.Alike m n := by
  induction depth generalizing vs m n with
  | zero =>
      have hsame : [m] = [n] := (show vs = [m] from h).symm.trans h'
      cases hsame
      exact .same m
  | succ depth ih =>
      have hm : st.UnitesLayer (st.Unites depth) (present vs) m := h
      have hn : st.UnitesLayer (st.Unites depth) (present vs) n := h'
      generalize present vs = ws at hm hn
      cases hm with
      | none => exact hn.eq_missing ▸ .same _
      | one =>
          cases hn with
          | one => exact .same _
          | atoms hmany => simp at hmany
          | parts hmany => simp at hmany
      | @atoms _ c hmany hatoms =>
          obtain ⟨x, hx⟩ := List.exists_mem_of_length_pos (by omega : 0 < ws.length)
          obtain ⟨a, rfl, ha⟩ := hatoms x hx
          obtain ⟨d, rfl⟩ := mold_eq_atom_iff.mp (hn.mold_eq hx).symm
          exact .atoms (Atom.sameKind_comm d c ▸ hn.sameKind_of_mem hx ha)
      | parts hmany hmolds hcontainer hparts =>
          obtain ⟨x, hx⟩ := List.exists_mem_of_length_pos (by omega : 0 < ws.length)
          have hmold : st.mold m = st.mold n := (hmolds x hx).symm.trans (hn.mold_eq hx)
          have hparts' := hn.parts_of (hmold ▸ hcontainer) (st.unites_singleton depth)
          refine .parts hmold hcontainer (fun p => ?_) fun p y z hy hz => ?_
          · rw [(hparts p).isSome_eq, (hparts' p).isSome_eq]
          · have hp := hparts p
            have hp' := hparts' p
            rw [hy, unitedAt_some_iff] at hp
            rw [hz, unitedAt_some_iff] at hp'
            exact ih hp.2 hp'.2

end Store

/-! ## Runs of values -/

section Runs

variable {st : Store} {depth : Nat} {done rest : List Value} {acc m : Value}

/-- Merging from the left unites what is merged. -/
theorem unites_of_mergeAll (h : st.Unites depth done acc) (hdone : done ≠ [])
    (hrest : ∀ v ∈ rest, st.Keyed v) (hm : mergeAll st depth acc rest = .ok m) :
    st.Unites depth (done ++ rest) m := by
  induction rest generalizing done acc with
  | nil =>
      cases hm
      rwa [List.append_nil]
  | cons v rest ih =>
      rw [mergeAll_cons] at hm
      obtain ⟨next, hnext, hm⟩ := bind_eq_ok_iff.mp hm
      have hv := hrest v List.mem_cons_self
      have hunited := Store.unites_of_mergeValues h hdone hv hnext
      have hall := ih hunited (by simp) (fun x hx => hrest x (List.mem_cons_of_mem _ hx)) hm
      rwa [List.append_assoc] at hall

/-- Values that can be united, perhaps with others, are merged from the left. -/
theorem exists_mergeAll_of_unites {ws : List Value} {n : Value} (hn : st.Unites depth ws n)
    (hsub : (done ++ rest).Sublist ws) (h : st.Unites depth done acc) (hdone : done ≠ [])
    (hrest : ∀ v ∈ rest, st.Keyed v) : ∃ m, mergeAll st depth acc rest = .ok m := by
  induction rest generalizing done acc with
  | nil => exact ⟨acc, rfl⟩
  | cons v rest ih =>
      have hsub' : (done ++ [v] ++ rest).Sublist ws := by simpa using hsub
      have hv := hrest v List.mem_cons_self
      have hfirst : (done ++ [v]).Sublist ws := (List.sublist_append_left _ rest).trans hsub'
      obtain ⟨next, hnext⟩ := Store.exists_mergeValues_of_unites hn hfirst h hdone hv []
      have hunited := Store.unites_of_mergeValues h hdone hv hnext
      obtain ⟨m, hm⟩ := ih hsub' hunited (by simp) fun x hx => hrest x (List.mem_cons_of_mem _ hx)
      exact ⟨m, (mergeAll_cons ..).trans (bind_eq_ok_iff.mpr ⟨next, hnext, hm⟩)⟩

/-- Values that are merged in one order are merged in any other, at the same depth,
and into a value that is alike. -/
theorem exists_mergeAll_of_perm {first first' : Value} {rest rest' : List Value}
    (hperm : (first :: rest).Perm (first' :: rest')) (hkeyed : ∀ v ∈ first :: rest, st.Keyed v)
    (h : mergeAll st depth first rest = .ok m) :
    ∃ m', mergeAll st depth first' rest' = .ok m' ∧ st.Alike m m' := by
  have hrest : ∀ v ∈ rest, st.Keyed v := fun v hv => hkeyed v (List.mem_cons_of_mem _ hv)
  have hrest' : ∀ v ∈ rest', st.Keyed v :=
    fun v hv => hkeyed v (hperm.mem_iff.mpr (List.mem_cons_of_mem _ hv))
  have hone := st.unites_singleton depth first
  have hone' := st.unites_singleton depth first'
  have hunited : st.Unites depth (first' :: rest') m :=
    (unites_of_mergeAll hone (List.cons_ne_nil _ _) hrest h).perm hperm
  obtain ⟨m', hm'⟩ := exists_mergeAll_of_unites hunited (List.Sublist.refl _) hone'
    (List.cons_ne_nil _ _) hrest'
  have hunited' := unites_of_mergeAll hone' (List.cons_ne_nil _ _) hrest' hm'
  exact ⟨m', hm', hunited.alike hunited'⟩

end Runs

end Conform
