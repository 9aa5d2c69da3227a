import Mathlib.Data.List.Forall2
import Conform.Proofs.Conflict
import Conform.Proofs.NumberLine
import Conform.Proofs.Parts
import Conform.Proofs.Ruling
import Conform.Value.Equality

/-!
# Equality within a kind

Values are compared level by level. `Store.EqualStep` is one level of it: two atoms, the very
same shared container, or two containers whose parts are equal one by one. The comparison to a
depth is this step so many times, and what one step keeps, the comparison keeps.

At the top truth values are kept apart from numbers, and containers of one class from those of
another. Inside containers that is not so, and yet it is an equivalence: a step is reflexive,
symmetric and transitive if what is below it is. That it is symmetric for mappings hangs on
their keys being distinct, and on the number of entries: as many keys, all of them found in the
other mapping, are all the keys of that.

## Main results

* `Store.equal?_symm`, `Store.equal?_trans`, `Store.equal?_self` — the comparison to a depth.
* `Store.answers_equal?` — it comes to an answer if one side has no cycles.
* `same_kind_is_equivalence` — equality within a kind, and the enumerations that are made of it.
-/

namespace Conform

/-! ## Keys of one mapping in another -/

namespace Entries

variable {α β : Type}

/-- As many keys, all of them found in another mapping, are all the keys of that. -/
theorem exists_same_of_length_eq {es : Entries α} {fs : Entries β} (hdistinct : es.Distinct)
    (hlength : es.length = fs.length) (hfound : ∀ e ∈ es, ∃ f ∈ fs, f.1.same e.1 = true) :
    ∀ f ∈ fs, ∃ e ∈ es, e.1.same f.1 = true := by
  induction es generalizing fs with
  | nil =>
      intro f hf
      rw [List.length_eq_zero_iff.mp hlength.symm] at hf
      cases hf
  | cons e es ih =>
      obtain ⟨hother, hrest⟩ := List.pairwise_cons.mp hdistinct
      obtain ⟨g, hg, hsame⟩ := hfound e List.mem_cons_self
      obtain ⟨before, behind, rfl⟩ := List.append_of_mem hg
      -- the entry that is taken out of the other mapping is found for no further key
      have hleft : ∀ e' ∈ es, ∃ f ∈ before ++ behind, f.1.same e'.1 = true := by
        intro e' he'
        obtain ⟨f, hf, hfe⟩ := hfound e' (List.mem_cons_of_mem _ he')
        rcases List.mem_append.mp hf with hf | hf
        · exact ⟨f, List.mem_append_left _ hf, hfe⟩
        rcases List.mem_cons.mp hf with rfl | hf
        · rw [Key.same_congr hsame, hother e' he'] at hfe
          cases hfe
        · exact ⟨f, List.mem_append_right _ hf, hfe⟩
      have hlength' : es.length = (before ++ behind).length := by
        simp only [List.length_cons, List.length_append] at hlength ⊢
        omega
      intro f hf
      have hcases : f = g ∨ f ∈ before ++ behind := by
        simp only [List.mem_append, List.mem_cons] at hf ⊢
        tauto
      rcases hcases with rfl | hf
      · exact ⟨e, List.mem_cons_self, Key.same_comm e.1 f.1 ▸ hsame⟩
      · obtain ⟨e', he', hsame'⟩ := ih hrest hlength' hleft f hf
        exact ⟨e', List.mem_cons_of_mem _ he', hsame'⟩

/-- Two mappings of one size, the first of which has at each of its keys a value that is related
to the one of the second. -/
def Matches (R : α → β → Prop) (es : Entries α) (fs : Entries β) : Prop :=
  es.length = fs.length ∧ ∀ e ∈ es, ∃ b, fs.find? e.1 = some b ∧ R e.2 b

theorem Matches.symm {R : α → β → Prop} {S : β → α → Prop} {es : Entries α} {fs : Entries β}
    (hes : es.Distinct) (hfs : fs.Distinct) (h : es.Matches R fs)
    (hR : ∀ e ∈ es, ∀ f ∈ fs, R e.2 f.2 → S f.2 e.2) : fs.Matches S es := by
  obtain ⟨hlength, hfound⟩ := h
  refine ⟨hlength.symm, fun f hf => ?_⟩
  have hkeys : ∀ e ∈ es, ∃ f ∈ fs, f.1.same e.1 = true := by
    intro e he
    obtain ⟨b, hb, -⟩ := hfound e he
    obtain ⟨l, hl, hmem⟩ := exists_same_of_find? hb
    exact ⟨(l, b), hmem, hl⟩
  obtain ⟨e, he, hsame⟩ := exists_same_of_length_eq hes hlength hkeys f hf
  obtain ⟨b, hb, hRb⟩ := hfound e he
  have hvalue : b = f.2 := by
    rw [find?_congr hsame, find?_of_mem hfs hf] at hb
    exact (Option.some.inj hb).symm
  refine ⟨e.2, ?_, hR e he f hf (hvalue ▸ hRb)⟩
  rw [← find?_congr hsame, find?_of_mem hes he]

theorem Matches.trans {γ : Type} {R : α → β → Prop} {S : β → γ → Prop} {T : α → γ → Prop}
    {es : Entries α} {fs : Entries β} {gs : Entries γ} (h : es.Matches R fs)
    (h' : fs.Matches S gs) (hT : ∀ a b c, R a b → S b c → T a c) : es.Matches T gs := by
  refine ⟨h.1.trans h'.1, fun e he => ?_⟩
  obtain ⟨b, hb, hRb⟩ := h.2 e he
  obtain ⟨l, hsame, hl⟩ := exists_same_of_find? hb
  obtain ⟨c, hc, hSc⟩ := h'.2 (l, b) hl
  exact ⟨c, find?_congr hsame gs ▸ hc, hT _ _ _ hRb hSc⟩

theorem Matches.mono {R S : α → β → Prop} {es : Entries α} {fs : Entries β} (h : es.Matches R fs)
    (hS : ∀ a b, R a b → S a b) : es.Matches S fs := by
  refine ⟨h.1, fun e he => ?_⟩
  obtain ⟨b, hb, hR⟩ := h.2 e he
  exact ⟨b, hb, hS _ _ hR⟩

theorem matches_self {R : α → α → Prop} {es : Entries α} (hdistinct : es.Distinct)
    (h : ∀ e ∈ es, R e.2 e.2) : es.Matches R es :=
  ⟨rfl, fun e he => ⟨e.2, find?_of_mem hdistinct he, h e he⟩⟩

end Entries

/-! ## One level of the comparison -/

/-- Only what is not a number does not equal itself. -/
theorem Atom.equal_self (a : Atom) : a.equal a = !a.isNaN := by
  cases a <;> simp [equal, count?, isNaN, Number.equal_self, Number.isNaN, Moment.same]

theorem forall₂_symm_of_mem {α β : Type} {R : α → β → Prop} {S : β → α → Prop} {xs : List α}
    {ys : List β} (h : List.Forall₂ R xs ys) (hS : ∀ x ∈ xs, ∀ y ∈ ys, R x y → S y x) :
    List.Forall₂ S ys xs := by
  induction h with
  | nil => exact .nil
  | cons hxy _ ih =>
      refine .cons (hS _ List.mem_cons_self _ List.mem_cons_self hxy) (ih fun x hx y hy => ?_)
      exact hS x (List.mem_cons_of_mem _ hx) y (List.mem_cons_of_mem _ hy)

theorem forall₂_trans {α β γ : Type} {R : α → β → Prop} {S : β → γ → Prop} {T : α → γ → Prop}
    {xs : List α} {ys : List β} {zs : List γ} (h : List.Forall₂ R xs ys)
    (h' : List.Forall₂ S ys zs) (hT : ∀ x y z, R x y → S y z → T x z) : List.Forall₂ T xs zs := by
  induction h generalizing zs with
  | nil =>
      cases h'
      exact .nil
  | cons hxy _ ih =>
      cases h' with
      | cons hyz h' => exact .cons (hT _ _ _ hxy hyz) (ih h')

namespace Contents

variable {R S : Value → Value → Prop} {c d e : Contents}

/-- The parts of two containers are related one by one. -/
def Matches (R : Value → Value → Prop) : Contents → Contents → Prop
  | .list vs, .list ws => List.Forall₂ R vs ws
  | .tuple vs, .tuple ws => List.Forall₂ R vs ws
  | .mapping _ es, .mapping _ fs => es.Matches R fs
  | _, _ => False

/-- The keys of a mapping are distinct. -/
def Keyed : Contents → Prop
  | .mapping _ es => es.Distinct
  | _ => True

theorem Matches.mono (h : c.Matches R d) (hS : ∀ x y, R x y → S x y) : c.Matches S d := by
  cases c <;> cases d <;> simp only [Matches] at h ⊢
  · exact h.imp hS
  · exact h.imp hS
  · exact h.mono hS

theorem Matches.symm (hc : c.Keyed) (hd : d.Keyed) (h : c.Matches R d)
    (hS : ∀ x ∈ c.values, ∀ y ∈ d.values, R x y → S y x) : d.Matches S c := by
  cases c <;> cases d <;> simp only [Matches] at h ⊢
  · exact forall₂_symm_of_mem h hS
  · exact forall₂_symm_of_mem h hS
  · exact h.symm hc hd fun e he f hf => hS _ (List.mem_map_of_mem he) _ (List.mem_map_of_mem hf)

theorem Matches.trans (h : c.Matches R d) (h' : d.Matches R e)
    (hR : ∀ x y z, R x y → R y z → R x z) : c.Matches R e := by
  cases c <;> cases d <;> simp only [Matches] at h <;> cases e <;> simp only [Matches] at h' ⊢
  · exact forall₂_trans h h' hR
  · exact forall₂_trans h h' hR
  · exact h.trans h' hR

theorem matches_self (hc : c.Keyed) (h : ∀ x ∈ c.values, R x x) : c.Matches R c := by
  cases c with
  | list vs => exact List.forall₂_same.mpr h
  | tuple vs => exact List.forall₂_same.mpr h
  | mapping readOnly es => exact Entries.matches_self hc fun e he => h _ (List.mem_map_of_mem he)

end Contents

namespace Store

variable {st : Store} {R S : Value → Value → Prop} {u v w : Value} {depth : Nat}

theorem Keyed.of_holds (h : st.Keyed v) (hu : st.Holds v u) : st.Keyed u :=
  fun x hx => h x (.head hu hx)

theorem Keyed.contents {c : Contents} (h : st.Keyed v) (hc : st.contents? v = some c) :
    c.Keyed := by
  cases c with
  | mapping readOnly es => exact h.distinct (by rw [entries?, hc])
  | _ => trivial

/-- One level of the comparison, given the relation of what is below it. -/
inductive EqualStep (st : Store) (R : Value → Value → Prop) : Value → Value → Prop
  | atoms {a b : Atom} (h : a.equal b = true) : EqualStep st R (.atom a) (.atom b)
  | same (address : Nat) (copied : Bool) :
      EqualStep st R (.shared address copied) (.shared address copied)
  | contents {v w : Value} {c d : Contents} (hc : st.contents? v = some c)
      (hd : st.contents? w = some d) (h : c.Matches R d) : EqualStep st R v w

namespace EqualStep

theorem mono (h : st.EqualStep R v w) (hS : ∀ x y, R x y → S x y) : st.EqualStep S v w := by
  cases h with
  | atoms h => exact .atoms h
  | same a copied => exact .same a copied
  | contents hc hd h => exact .contents hc hd (h.mono hS)

theorem symm (hv : st.Keyed v) (hw : st.Keyed w) (h : st.EqualStep R v w)
    (hS : ∀ x y, st.Holds v x → st.Holds w y → R x y → S y x) : st.EqualStep S w v := by
  cases h with
  | atoms h => exact .atoms (Atom.equal_comm _ _ ▸ h)
  | same a copied => exact .same a copied
  | contents hc hd h =>
      refine .contents hd hc (h.symm (hv.contents hc) (hw.contents hd) fun x hx y hy => ?_)
      exact hS x y ⟨_, hc, hx⟩ ⟨_, hd, hy⟩

theorem trans (h : st.EqualStep R u v) (h' : st.EqualStep R v w)
    (hR : ∀ x y z, R x y → R y z → R x z) : st.EqualStep R u w := by
  cases h with
  | same => exact h'
  | atoms h =>
      cases h' with
      | atoms h' => exact .atoms (Atom.equal_trans h h')
      | contents hc => cases hc
  | contents hc hd h =>
      cases h' with
      | atoms => cases hd
      | same => exact .contents hc hd h
      | contents hd' he h' =>
          cases hd.symm.trans hd'
          exact .contents hc he (h.trans h' hR)

/-- A value equals itself if all that stands in it does, and it is not what is not a number. -/
theorem self (hv : st.Keyed v) (hnan : ∀ a, v = .atom a → a.isNaN = false)
    (h : v.identity? = none → ∀ x, st.Holds v x → R x x) : st.EqualStep R v v := by
  cases hidentity : v.identity? with
  | none =>
      cases hc : st.contents? v with
      | none => cases v <;> cases hidentity <;> cases hc
      | some c =>
          refine .contents hc hc (Contents.matches_self (hv.contents hc) fun x hx => ?_)
          exact h hidentity x ⟨c, hc, hx⟩
  | some i =>
      cases v with
      | atom a =>
          have hself : a.equal a = !a.isNaN := a.equal_self
          exact .atoms (by rw [hself, hnan a rfl]; rfl)
      | shared a copied => exact .same a copied
      | _ => cases hidentity

end EqualStep

/-! ## The comparison to a depth -/

section Loops

variable {p : Value → Value → Option Bool}

theorem allEqual?_eq_true_iff {vs ws : List Value} :
    allEqual? p vs ws = some true ↔ List.Forall₂ (fun x y => p x y = some true) vs ws := by
  induction vs generalizing ws with
  | nil => cases ws <;> simp [allEqual?]
  | cons v vs ih =>
      cases ws with
      | nil => simp [allEqual?]
      | cons w ws =>
          rw [allEqual?, List.forall₂_cons, ← ih]
          rcases p v w with _ | _ | _ <;> simp

theorem allFound?_eq_true_iff {es fs : Entries Value} :
    allFound? p fs es = some true ↔
      ∀ e ∈ es, ∃ b, fs.find? e.1 = some b ∧ p e.2 b = some true := by
  induction es with
  | nil => simp [allFound?]
  | cons e es ih =>
      obtain ⟨k, v⟩ := e
      rw [List.forall_mem_cons, ← ih, allFound?]
      rcases fs.find? k with _ | w
      · simp
      · rcases hp : p v w with _ | _ | _ <;> simp [hp]

theorem contentsEqual?_eq_true_iff {x y : Option Contents} :
    equal?.contentsEqual? p x y = some true ↔
      ∃ c d, x = some c ∧ y = some d ∧ c.Matches (fun x y => p x y = some true) d := by
  have hsized : ∀ vs ws : List Value,
      (if vs.length = ws.length then allEqual? p vs ws else some false) = some true ↔
        List.Forall₂ (fun x y => p x y = some true) vs ws := by
    intro vs ws
    rw [← allEqual?_eq_true_iff]
    split
    · rfl
    · rename_i hlength
      simp only [Option.some.injEq, Bool.false_eq_true, false_iff]
      exact fun h => hlength (allEqual?_eq_true_iff.mp h).length_eq
  rcases x with _ | c <;> rcases y with _ | d <;> simp [equal?.contentsEqual?]
  cases c <;> cases d <;> simp only [Contents.Matches, hsized, Option.some.injEq,
    Bool.false_eq_true]
  rw [Entries.Matches, ← allFound?_eq_true_iff]
  split <;> simp [*]

end Loops

/-- The comparison to a depth is one level of it above the comparison to the depth below. -/
theorem equal?_succ_iff :
    st.equal? (depth + 1) v w = some true ↔
      st.EqualStep (fun x y => st.equal? depth x y = some true) v w := by
  constructor
  · intro h
    unfold equal? at h
    split at h
    · exact .atoms (Option.some.inj h)
    · split at h
      · rename_i hsame
        obtain ⟨rfl, rfl⟩ := hsame
        exact .same _ _
      · obtain ⟨c, d, hc, hd, h⟩ := contentsEqual?_eq_true_iff.mp h
        exact .contents hc hd h
    · obtain ⟨c, d, hc, hd, h⟩ := contentsEqual?_eq_true_iff.mp h
      exact .contents hc hd h
  · intro h
    cases h with
    | atoms h => exact congrArg some h
    | same a copied => simp [equal?]
    | contents hc hd h =>
        have hparts := contentsEqual?_eq_true_iff.mpr ⟨_, _, hc, hd, h⟩
        unfold equal?
        split
        · cases hc
        · split
          · rfl
          · exact hparts
        · exact hparts

/-- An answer that values are equal stays. -/
theorem equal?_mono {more : Nat} (h : st.equal? depth v w = some true) (hle : depth ≤ more) :
    st.equal? more v w = some true := by
  induction depth generalizing v w more with
  | zero => cases h
  | succ depth ih =>
      obtain ⟨more, rfl⟩ : ∃ n, more = n + 1 := ⟨more - 1, by omega⟩
      rw [equal?_succ_iff] at h ⊢
      exact h.mono fun x y hxy => ih hxy (by omega)

theorem equal?_symm (hv : st.Keyed v) (hw : st.Keyed w) (h : st.equal? depth v w = some true) :
    st.equal? depth w v = some true := by
  induction depth generalizing v w with
  | zero => cases h
  | succ depth ih =>
      rw [equal?_succ_iff] at h ⊢
      exact h.symm hv hw fun x y hx hy hxy => ih (hv.of_holds hx) (hw.of_holds hy) hxy

theorem equal?_trans (h : st.equal? depth u v = some true) (h' : st.equal? depth v w = some true) :
    st.equal? depth u w = some true := by
  induction depth generalizing u v w with
  | zero => cases h
  | succ depth ih =>
      rw [equal?_succ_iff] at h h' ⊢
      exact h.trans h' fun x y z hxy hyz => ih hxy hyz

/-- No number in a value, at whatever depth, is what is not a number. -/
def NaNFree (st : Store) (v : Value) : Prop := ∀ a, st.Reaches v (.atom a) → a.isNaN = false

theorem NaNFree.of_holds (h : st.NaNFree v) (hu : st.Holds v u) : st.NaNFree u :=
  fun a ha => h a (.head hu ha)

theorem unshared_lt_of_holds (h : st.Holds v u) (hv : v.identity? = none) :
    u.unshared < v.unshared := by
  obtain ⟨c, hc, hu⟩ := h
  have hle := Contents.unshared_le hu
  cases v with
  | atom a => cases hc
  | shared a copied => cases hv
  | _ =>
      cases hc
      simp only [Value.unshared, Contents.unshared] at hle ⊢
      omega

/-- A shared container equals itself at once, and what stands in one that is not shared is
smaller. -/
theorem equal?_self (hv : st.Keyed v) (hnan : st.NaNFree v) (hdepth : v.unshared < depth) :
    st.equal? depth v v = some true := by
  induction depth generalizing v with
  | zero => omega
  | succ depth ih =>
      rw [equal?_succ_iff]
      refine .self hv (fun a ha => hnan a (ha ▸ .refl)) fun hidentity x hx => ?_
      have hlt := unshared_lt_of_holds hx hidentity
      exact ih (hv.of_holds hx) (hnan.of_holds hx) (by omega)

/-! ## Answers -/

/-- What is followed to a depth comes to an answer, and keeps to it. -/
def Answered (f : Nat → Option Bool) : Prop :=
  ∃ b enough, ∀ depth, enough ≤ depth → f depth = some b

namespace Answered

variable {f g : Nat → Option Bool}

theorem const (b : Bool) : Answered fun _ => some b := ⟨b, 0, fun _ _ => rfl⟩

theorem of_succ (h : Answered fun depth => f (depth + 1)) : Answered f := by
  obtain ⟨b, enough, h⟩ := h
  refine ⟨b, enough + 1, fun depth hdepth => ?_⟩
  obtain ⟨depth, rfl⟩ : ∃ n, depth = n + 1 := ⟨depth - 1, by omega⟩
  exact h depth (by omega)

/-- The second question is asked only if the answer to the first one is yes. -/
theorem andThen (hf : Answered f) (hg : Answered g) :
    Answered fun depth => match f depth with | some true => g depth | r => r := by
  obtain ⟨b, enough, hf⟩ := hf
  obtain ⟨b', enough', hg⟩ := hg
  cases b with
  | false => exact ⟨false, enough, fun depth hdepth => by simp only [hf depth hdepth]⟩
  | true =>
      refine ⟨b', max enough enough', fun depth hdepth => ?_⟩
      simp only [hf depth (by omega), hg depth (by omega)]

end Answered

section Loops

variable {p : Nat → Value → Value → Option Bool}

theorem answered_allEqual? {vs ws : List Value} (h : ∀ x ∈ vs, ∀ y ∈ ws, Answered (p · x y)) :
    Answered fun depth => allEqual? (p depth) vs ws := by
  induction vs generalizing ws with
  | nil => cases ws <;> exact .const _
  | cons v vs ih =>
      cases ws with
      | nil => exact .const _
      | cons w ws =>
          refine (h v List.mem_cons_self w List.mem_cons_self).andThen (ih fun x hx y hy => ?_)
          exact h x (List.mem_cons_of_mem _ hx) y (List.mem_cons_of_mem _ hy)

theorem answered_allFound? {es fs : Entries Value}
    (h : ∀ e ∈ es, ∀ y, fs.find? e.1 = some y → Answered (p · e.2 y)) :
    Answered fun depth => allFound? (p depth) fs es := by
  induction es with
  | nil => exact .const _
  | cons e es ih =>
      obtain ⟨k, v⟩ := e
      simp only [allFound?]
      cases hfind : fs.find? k with
      | none => exact .const _
      | some w =>
          refine (h (k, v) List.mem_cons_self w hfind).andThen (ih fun e he y hy => ?_)
          exact h e (List.mem_cons_of_mem _ he) y hy

theorem answered_contentsEqual? {c d : Contents}
    (h : ∀ x ∈ c.values, ∀ y ∈ d.values, Answered (p · x y)) :
    Answered fun depth => equal?.contentsEqual? (p depth) (some c) (some d) := by
  cases c <;> cases d <;> simp only [equal?.contentsEqual?]
  case list.list | tuple.tuple =>
    split
    · exact answered_allEqual? h
    · exact .const _
  case mapping.mapping =>
    split
    · refine answered_allFound? fun e he y hy => ?_
      obtain ⟨l, hl⟩ := Entries.exists_mem_of_find? hy
      exact h _ (List.mem_map_of_mem he) _ (List.mem_map_of_mem hl)
    · exact .const _
  all_goals exact .const _

end Loops

/-- The comparison comes to an answer if those of the parts do. -/
theorem answered_equal?_of_holds
    (h : ∀ x y, st.Holds v x → st.Holds w y → Answered (st.equal? · x y)) :
    Answered (st.equal? · v w) := by
  have hcontents : Answered fun depth =>
      equal?.contentsEqual? (st.equal? depth) (st.contents? v) (st.contents? w) := by
    cases hc : st.contents? v with
    | none => exact .const false
    | some c =>
        cases hd : st.contents? w with
        | none => cases c <;> exact .const false
        | some d =>
            exact answered_contentsEqual? fun x hx y hy => h x y ⟨c, hc, hx⟩ ⟨d, hd, hy⟩
  refine .of_succ ?_
  unfold equal?
  split
  · exact .const _
  · split
    · exact .const _
    · exact hcontents
  · exact hcontents

/-- The comparison goes down on both sides at once, so it is enough that one of them ends. -/
theorem answered_equal? (h : st.Grounded v ∨ st.Grounded w) : Answered (st.equal? · v w) := by
  rcases h with h | h
  · induction h generalizing w with
    | intro v _ ih => exact answered_equal?_of_holds fun x y hx _ => ih x hx
  · induction h generalizing v with
    | intro w _ ih => exact answered_equal?_of_holds fun x y _ hy => ih y hy

/-! ## Equality within a kind -/

/-- Two values are equal within their kind: there is a depth at which that is the answer. -/
def SameKind (st : Store) (v w : Value) : Prop := ∃ depth, st.sameKind? depth v w = some true

/-- Two values of which one is a container. -/
theorem sameKind?_of_container (h : (st.contents? v).isSome ∨ (st.contents? w).isSome) :
    st.sameKind? depth v w =
      if st.className v = st.className w then st.equal? depth v w else some false := by
  unfold sameKind?
  split
  · rcases h with h | h <;> cases h
  · rfl

/-- What equals a container is one. -/
theorem isSome_contents?_of_equal? (h : st.equal? depth v w = some true) :
    (st.contents? v).isSome = (st.contents? w).isSome := by
  cases depth with
  | zero => cases h
  | succ depth =>
      cases equal?_succ_iff.mp h with
      | atoms => rfl
      | same => rfl
      | contents hc hd => rw [hc, hd]; rfl

theorem sameKind_atom_iff {a : Atom} :
    st.SameKind (.atom a) w ↔ ∃ b, w = .atom b ∧ a.sameKind b = true := by
  constructor
  · rintro ⟨depth, h⟩
    by_cases hw : (st.contents? w).isSome
    · rw [sameKind?_of_container (.inr hw)] at h
      split at h
      · have hsome := isSome_contents?_of_equal? h
        rw [hw] at hsome
        cases hsome
      · cases h
    · obtain ⟨b, rfl⟩ : ∃ b, w = .atom b := by
        by_contra hcontainer
        exact hw (st.isSome_contents? w (not_exists.mp hcontainer))
      exact ⟨b, rfl, Option.some.inj h⟩
  · rintro ⟨b, rfl, h⟩
    exact ⟨0, congrArg some h⟩

theorem sameKind_container_iff (hv : (st.contents? v).isSome) :
    st.SameKind v w ↔ (st.contents? w).isSome ∧ st.className v = st.className w ∧
      ∃ depth, st.equal? depth v w = some true := by
  simp only [SameKind, sameKind?_of_container (.inl hv)]
  constructor
  · rintro ⟨depth, h⟩
    split at h
    · rename_i hclass
      exact ⟨isSome_contents?_of_equal? h ▸ hv, hclass, depth, h⟩
    · cases h
  · rintro ⟨-, hclass, depth, h⟩
    exact ⟨depth, by rw [if_pos hclass, h]⟩

/-- A value is an atom or has contents. -/
theorem atom_or_container (st : Store) (v : Value) :
    (∃ a, v = .atom a) ∨ (st.contents? v).isSome := by
  by_cases h : ∃ a, v = .atom a
  · exact .inl h
  · exact .inr (st.isSome_contents? v (not_exists.mp h))

theorem SameKind.symm (hv : st.Keyed v) (hw : st.Keyed w) (h : st.SameKind v w) :
    st.SameKind w v := by
  rcases st.atom_or_container v with ⟨a, rfl⟩ | hcontainer
  · obtain ⟨b, rfl, hab⟩ := sameKind_atom_iff.mp h
    exact sameKind_atom_iff.mpr ⟨a, rfl, Atom.sameKind_comm a b ▸ hab⟩
  · obtain ⟨hcontainer', hclass, depth, hequal⟩ := (sameKind_container_iff hcontainer).mp h
    exact (sameKind_container_iff hcontainer').mpr
      ⟨hcontainer, hclass.symm, depth, equal?_symm hv hw hequal⟩

/-- What is equal to an atom is one, on whichever side it stands. -/
theorem sameKind_atom_comm {a : Atom} : st.SameKind v (.atom a) ↔ st.SameKind (.atom a) v := by
  rcases st.atom_or_container v with ⟨b, rfl⟩ | hcontainer
  · exact ⟨.symm (st.keyed_atom b) (st.keyed_atom a), .symm (st.keyed_atom a) (st.keyed_atom b)⟩
  · constructor
    · intro h
      cases ((sameKind_container_iff hcontainer).mp h).1
    · intro h
      obtain ⟨b, rfl, -⟩ := sameKind_atom_iff.mp h
      cases hcontainer

theorem SameKind.trans (h : st.SameKind u v) (h' : st.SameKind v w) : st.SameKind u w := by
  rcases st.atom_or_container u with ⟨a, rfl⟩ | hcontainer
  · obtain ⟨b, rfl, hab⟩ := sameKind_atom_iff.mp h
    obtain ⟨c, rfl, hbc⟩ := sameKind_atom_iff.mp h'
    exact sameKind_atom_iff.mpr ⟨c, rfl, Atom.sameKind_trans hab hbc⟩
  · obtain ⟨hcontainer', hclass, depth, huv⟩ := (sameKind_container_iff hcontainer).mp h
    obtain ⟨hcontainer'', hclass', depth', hvw⟩ := (sameKind_container_iff hcontainer').mp h'
    refine (sameKind_container_iff hcontainer).mpr
      ⟨hcontainer'', hclass.trans hclass', max depth depth', ?_⟩
    exact equal?_trans (equal?_mono huv (le_max_left ..)) (equal?_mono hvw (le_max_right ..))

theorem sameKind_self (hv : st.Keyed v) (hnan : st.NaNFree v) : st.SameKind v v := by
  rcases st.atom_or_container v with ⟨a, rfl⟩ | hcontainer
  · have hself : a.equal a = true := by rw [a.equal_self, hnan a .refl]; rfl
    exact sameKind_atom_iff.mpr ⟨a, rfl, by simp [Atom.sameKind, hself]⟩
  · exact (sameKind_container_iff hcontainer).mpr
      ⟨hcontainer, rfl, _, equal?_self hv hnan (Nat.lt_succ_self _)⟩

theorem sameKind?_mono {more : Nat} (h : st.sameKind? depth v w = some true)
    (hle : depth ≤ more) : st.sameKind? more v w = some true := by
  rcases st.atom_or_container v with ⟨a, rfl⟩ | hcontainer
  · obtain ⟨b, rfl, hab⟩ := sameKind_atom_iff.mp ⟨depth, h⟩
    exact congrArg some hab
  · rw [sameKind?_of_container (.inl hcontainer)] at h ⊢
    split at h
    · rename_i hclass
      rw [if_pos hclass]
      exact equal?_mono h hle
    · cases h

/-- The comparison comes to the answer if one side has no cycles. -/
theorem answered_sameKind? (h : st.Grounded v ∨ st.Grounded w) :
    ∃ enough, ∀ depth, enough ≤ depth →
      ∃ b, st.sameKind? depth v w = some b ∧ (b = true ↔ st.SameKind v w) := by
  have hanswered : Answered (st.sameKind? · v w) := by
    unfold sameKind?
    split
    · exact .const _
    · split
      · exact answered_equal? h
      · exact .const _
  obtain ⟨b, enough, hb⟩ := hanswered
  refine ⟨enough, fun depth hdepth => ⟨b, hb depth hdepth, fun hyes => ?_, ?_⟩⟩
  · exact ⟨depth, hyes ▸ hb depth hdepth⟩
  · rintro ⟨depth', h'⟩
    have hmore := sameKind?_mono h' (le_max_right enough depth')
    exact Option.some.inj ((hb _ (le_max_left enough depth')).symm.trans hmore)

end Store

/-! ## Kinds of atoms -/

namespace Atom

theorem sameKind_bool_iff {b : Bool} {a : Atom} : (bool b).sameKind a = true ↔ a = .bool b := by
  have hunits := Binary64.unitsPerOne_pos.ne'
  cases a with
  | bool b' =>
      cases b <;> cases b' <;>
        simp [sameKind, isBool, equal, count?, Number.equal, Number.measure?, hunits, eq_comm]
  | _ => simp [sameKind, isBool]

theorem sameKind_text_iff {s : String} {a : Atom} : (text s).sameKind a = true ↔ a = .text s := by
  cases a <;> simp [sameKind, isBool, equal, count?, eq_comm]

/-- Numbers of either kind are equal if they denote the same. -/
theorem sameKind_number_iff {m n : Number} :
    m.atom.sameKind n.atom = true ↔ ∃ r, m.value? = some r ∧ n.value? = some r := by
  rw [← Number.equal_iff]
  cases m <;> cases n <;> simp [Number.atom, sameKind, isBool, equal, count?]

end Atom

/-! ## Enumerations -/

section Enumerations

variable {σ : Type} {env : Setting σ} {mode : Mode} {depth : Nat} {first : Atom} {rest : List Atom}
  {u v : Value} {c c' : Context} {w w' : World σ}

/-- An enumeration accepts what equals a member within its kind, as it is. -/
theorem check_enumeration_clean_iff :
    (check env mode (depth + 1) (.enumeration first rest) v).runIn c w = (.ok u, c', w') ∧
        c'.errors = c.errors ↔
      (∃ a ∈ first :: rest, w.store.SameKind (.atom a) v) ∧ u = v ∧ c' = c ∧ w' = w := by
  rw [Validate.check_finds_nothing_iff rfl]
  refine and_congr_left fun _ => ?_
  rcases w.store.atom_or_container v with ⟨a, rfl⟩ | hcontainer
  · simp [List.any_eq_true, Store.sameKind_atom_iff]
  · cases v with
    | atom a => cases hcontainer
    | _ => simp [Store.sameKind_atom_iff]

/-- An enumeration accepts a value in a context. -/
def Enumerated (env : Setting σ) (mode : Mode) (depth : Nat) (first : Atom) (rest : List Atom)
    (v : Value) (c : Context) (w : World σ) : Prop :=
  ∃ u c' w', (check env mode (depth + 1) (.enumeration first rest) v).runIn c w = (.ok u, c', w') ∧
    c'.errors = c.errors

theorem enumerated_iff :
    Enumerated env mode depth first rest v c w ↔
      ∃ a ∈ first :: rest, w.store.SameKind (.atom a) v := by
  simp only [Enumerated, check_enumeration_clean_iff]
  exact ⟨fun ⟨_, _, _, h, _⟩ => h, fun h => ⟨v, c, w, h, rfl, rfl, rfl⟩⟩

end Enumerations

/-- **Equality within a kind is an equivalence, and enumerations respect it.** It is reflexive
on values in which no number is what is not a number, symmetric on values whose mappings have
distinct keys, and transitive on all values; the comparison comes to its answer if one side has
no cycles. A truth value is equal only to itself, and so is a text. Numbers of either kind are
equal if they denote the same. So an enumeration accepts a value if it accepts another one
that is equal within its kind, and gives it back as it is, with nothing changed. -/
theorem same_kind_is_equivalence (st : Store) :
    (∀ v, st.Keyed v → st.NaNFree v → st.SameKind v v) ∧
    (∀ v w, st.Keyed v → st.Keyed w → st.SameKind v w → st.SameKind w v) ∧
    (∀ u v w, st.SameKind u v → st.SameKind v w → st.SameKind u w) ∧
    (∀ v w, st.Grounded v ∨ st.Grounded w → ∃ enough, ∀ depth, enough ≤ depth →
      ∃ b, st.sameKind? depth v w = some b ∧ (b = true ↔ st.SameKind v w)) ∧
    (∀ b v, (st.SameKind (.bool b) v ↔ v = .bool b) ∧ (st.SameKind v (.bool b) ↔ v = .bool b)) ∧
    (∀ s v, (st.SameKind (.text s) v ↔ v = .text s) ∧ (st.SameKind v (.text s) ↔ v = .text s)) ∧
    (∀ m n : Number, st.SameKind (.atom m.atom) (.atom n.atom) ↔
      ∃ r, m.value? = some r ∧ n.value? = some r) ∧
    ∀ {σ : Type} (env : Setting σ) mode depth first rest a b c w, w.store = st →
      st.SameKind a b →
      (Enumerated env mode depth first rest a c w ↔ Enumerated env mode depth first rest b c w) ∧
      ∀ u c' w', (check env mode (depth + 1) (.enumeration first rest) a).runIn c w =
        (.ok u, c', w') → c'.errors = c.errors → u = a ∧ c' = c ∧ w' = w := by
  refine ⟨fun v => Store.sameKind_self, fun v w => Store.SameKind.symm, fun u v w => .trans,
    fun v w => Store.answered_sameKind?, fun b v => ?_, fun s v => ?_, fun m n => ?_, ?_⟩
  · simp only [Store.sameKind_atom_comm, Store.sameKind_atom_iff, Atom.sameKind_bool_iff,
      exists_eq_right, and_self]
  · simp only [Store.sameKind_atom_comm, Store.sameKind_atom_iff, Atom.sameKind_text_iff,
      exists_eq_right, and_self]
  · rw [Store.sameKind_atom_iff, ← Atom.sameKind_number_iff]
    simp only [Value.atom.injEq, exists_eq_left']
  · rintro σ env mode depth first rest a b c w rfl hab
    refine ⟨?_, fun u c' w' hrun hclean => ?_⟩
    · rw [enumerated_iff, enumerated_iff]
      refine exists_congr fun m => and_congr_right fun _ => ?_
      refine ⟨fun h => h.trans hab, fun h => ?_⟩
      -- the member is an atom, so the second value is one too
      obtain ⟨y, rfl, -⟩ := Store.sameKind_atom_iff.mp h
      exact h.trans (Store.sameKind_atom_comm.mp hab)
    · exact (check_enumeration_clean_iff.mp ⟨hrun, hclean⟩).2

/-- Two lists of one mapping each, whose entries stand in another order, and in which a truth value
stands for a number. One as an integer and one as a binary64 number are one member of an
enumeration; an integer that would be rounded to a binary64 number is not equal to it. -/
theorem same_kind_is_equivalence_nested :
    let v : Value := .list [.mapping false [(.text "flag", .bool true), (.text "n", .int 2)]]
    let w : Value := .list [.mapping false [(.text "n", .int 2), (.text "flag", .int 1)]]
    ({} : Store).SameKind v w ∧ ({} : Store).SameKind w v ∧
      ¬ ({} : Store).SameKind (.bool true) (.int 1) ∧
      ¬ ({} : Store).SameKind (.int (2 ^ 53 + 1))
        (.atom (.float (.finite false (2 ^ 53 * Binary64.unitsPerOne)))) ∧
      (Enumerated idleHost .immediate 0 (.text "a") [.int 1] (.int 1) {} { host := () } ↔
        Enumerated idleHost .immediate 0 (.text "a") [.int 1]
          (.atom (.float (.finite false (1 * Binary64.unitsPerOne)))) {} { host := () }) := by
  obtain ⟨-, hsymm, -, -, hbool, -, hnumber, henum⟩ := same_kind_is_equivalence {}
  have hvw : ({} : Store).SameKind
      (.list [.mapping false [(.text "flag", .bool true), (.text "n", .int 2)]])
      (.list [.mapping false [(.text "n", .int 2), (.text "flag", .int 1)]]) :=
    ⟨4, by decide +kernel⟩
  have hkeyed : ∀ es : Entries Value, es.Distinct → (∀ e ∈ es, ({} : Store).Keyed e.2) →
      ({} : Store).Keyed (.list [.mapping false es]) :=
    fun es hes h => Store.keyed_list (by simpa using Store.keyed_mapping hes h)
  refine ⟨hvw, hsymm _ _ ?_ ?_ hvw, fun h => ?_, fun h => ?_, ?_⟩
  · exact hkeyed _ (by decide) (by simp [Store.keyed_atom])
  · exact hkeyed _ (by decide) (by simp [Store.keyed_atom])
  · cases (hbool true _).1.mp h
  · obtain ⟨r, hr, hr'⟩ := (hnumber (.int _) (.float _)).mp h
    have hvalues := (hr.trans hr'.symm).trans (Binary64.value?_whole _)
    simp only [Number.value?, Option.some.injEq, EReal.coe_eq_coe_iff] at hvalues
    norm_num at hvalues
  · refine (henum idleHost .immediate 0 _ _ _ _ {} { host := () } rfl ?_).1
    refine (hnumber (.int 1) (.float _)).mpr ⟨((1 : Int) : ℝ), rfl, ?_⟩
    exact (Binary64.value?_whole 1).trans (by norm_num)

end Conform
