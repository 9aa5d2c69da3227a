import Conform.Proofs.Conflict
import Conform.Proofs.Foretelling
import Conform.Proofs.Likeness

/-!
# More depth

A run that does not give up for want of depth ends in the same way if it is given more.
This holds of merging, of the flag for absent values and of checks: a run with one more
to go is like the run itself, but where that gives up. So it makes no difference whether
a run is told to end at some depth or from some depth on, and a run has one end at most.

## Main results

* `mergeValues_deeper`, `mergeAll_deeper` — for merging.
* `Deepened.acceptsMissing`, `Deepened.check` — for the flag and for checks.
* `ComesTo` — how a run ends for all that depth matters.
-/

namespace Conform

open Traverse

/-! ## Merging -/

section Merging

variable {st : Store} {u v : Value} {path : Path} {depth : Nat}

theorem bind_deeper {α β : Type} {merge merge' : Except MergeFailure α}
    {next next' : α → Except MergeFailure β} (h : merge ≠ .error .tooDeep → merge' = merge)
    (hnext : ∀ a, next a ≠ .error .tooDeep → next' a = next a)
    (hends : merge >>= next ≠ .error .tooDeep) : merge' >>= next' = merge >>= next := by
  cases merge with
  | error f =>
      rw [h fun htoo => hends (by rw [htoo]; rfl)]
      rfl
  | ok a =>
      rw [h nofun]
      exact hnext a hends

theorem mergeEntries_deeper {merge merge' : Key → Value → Value → Except MergeFailure Value}
    (h : ∀ k x y, merge k x y ≠ .error .tooDeep → merge' k x y = merge k x y)
    {left merged right : Entries Value}
    (hends : mergeEntries merge left merged right ≠ .error .tooDeep) :
    mergeEntries merge' left merged right = mergeEntries merge left merged right := by
  induction right generalizing merged with
  | nil => rfl
  | cons e right ih =>
      obtain ⟨k, y⟩ := e
      cases hfind : left.find? k with
      | none =>
          simp only [mergeEntries, hfind] at hends ⊢
          exact ih hends
      | some x =>
          rw [Store.mergeEntries_cons hfind] at hends
          rw [Store.mergeEntries_cons hfind, Store.mergeEntries_cons hfind]
          exact bind_deeper (h k x y) (fun m => ih) hends

theorem mergeItems_deeper {merge merge' : Nat → Value → Value → Except MergeFailure Value}
    (h : ∀ i x y, merge i x y ≠ .error .tooDeep → merge' i x y = merge i x y) {i : Nat}
    {us vs : List Value} (hends : mergeItems merge i us vs ≠ .error .tooDeep) :
    mergeItems merge' i us vs = mergeItems merge i us vs := by
  induction us generalizing i vs with
  | nil => rfl
  | cons x us ih =>
      cases vs with
      | nil => rfl
      | cons y vs =>
          rw [Store.mergeItems_cons] at hends
          rw [Store.mergeItems_cons, Store.mergeItems_cons]
          refine bind_deeper (h i x y) (fun m hm => congrArg _ (ih fun htoo => ?_)) hends
          exact hm (map_eq_error_iff.mpr htoo)

theorem mergeValues_deeper (h : mergeValues st depth path u v ≠ .error .tooDeep) :
    mergeValues st (depth + 1) path u v = mergeValues st depth path u v := by
  induction depth generalizing path u v with
  | zero => exact absurd rfl h
  | succ depth ih =>
      cases st.meeting u v with
      | missingLeft => simp
      | missingRight => simp
      | atoms ha hb hsame => rw [Store.mergeValues_atoms ha hb, Store.mergeValues_atoms ha hb]
      | entries hes hfs =>
          rw [Store.mergeValues_of_entries? hes hfs] at h
          rw [Store.mergeValues_of_entries? hes hfs, Store.mergeValues_of_entries? hes hfs]
          refine congrArg _ (mergeEntries_deeper (fun k x y => ih) fun htoo => ?_)
          exact h (map_eq_error_iff.mpr htoo)
      | items hus hvs hlength =>
          rw [Store.mergeValues_of_items? hus hvs hlength] at h
          rw [Store.mergeValues_of_items? hus hvs hlength,
            Store.mergeValues_of_items? hus hvs hlength]
          refine congrArg _ (mergeItems_deeper (fun i x y => ih) fun htoo => ?_)
          exact h (map_eq_error_iff.mpr htoo)
      | unlike hunlike => rw [hunlike.mergeValues, hunlike.mergeValues]

theorem mergeAll_deeper {rest : List Value} (h : mergeAll st depth u rest ≠ .error .tooDeep) :
    mergeAll st (depth + 1) u rest = mergeAll st depth u rest := by
  induction rest generalizing u with
  | nil => rfl
  | cons v rest ih =>
      rw [mergeAll_cons] at h
      rw [mergeAll_cons, mergeAll_cons]
      exact bind_deeper mergeValues_deeper (fun m => ih) h

end Merging

/-! ## Checks -/

namespace Deepened

variable {σ : Type}

/-- A run and one with more depth end alike, unless the first gives up for want of it. -/
inductive EndAlike {α β : Type} (R : α → β → Prop) :
    Except Fault α × Context × World σ → Except Fault β × Context × World σ → Prop
  | value {a : α} {b : β} (h : R a b) (c : Context) (w : World σ) :
      EndAlike R (.ok a, c, w) (.ok b, c, w)
  | fault (f : Fault) (c : Context) (w : World σ) : EndAlike R (.error f, c, w) (.error f, c, w)
  | exhausted (c : Context) (w : World σ) (out : Except Fault β × Context × World σ) :
      EndAlike R (.error .exhausted, c, w) out

/-- Work and the same work with more depth. -/
def Alike {α β : Type} (R : α → β → Prop) (e : Engine σ α) (e' : Engine σ β) : Prop :=
  ∀ c w, EndAlike R (e.runIn c w) (e'.runIn c w)

theorem Alike.self {α : Type} (e : Engine σ α) : Alike (· = ·) e e := by
  intro c w
  rcases e.runIn c w with ⟨f | a, c₁, w₁⟩
  · exact .fault f c₁ w₁
  · exact .value rfl c₁ w₁

theorem Alike.bind {α β γ δ : Type} {R : α → β → Prop} {S : γ → δ → Prop} {e : Engine σ α}
    {e' : Engine σ β} {k : α → Engine σ γ} {k' : β → Engine σ δ} (h : Alike R e e')
    (hk : ∀ a b, R a b → Alike S (k a) (k' b)) : Alike S (e >>= k) (e' >>= k') := by
  intro c w
  have hrun := h c w
  rw [Engine.runIn_bind, Engine.runIn_bind]
  generalize e.runIn c w = out, e'.runIn c w = out' at hrun ⊢
  cases hrun with
  | value hab c₁ w₁ => exact hk _ _ hab c₁ w₁
  | fault f c₁ w₁ => exact .fault f c₁ w₁
  | exhausted c₁ w₁ => exact .exhausted c₁ w₁ _

theorem Alike.bracket {α β : Type} {R : α → β → Prop} {e : Engine σ α} {e' : Engine σ β}
    {enter leave : Context → Context} (h : Alike R e e') :
    Alike R (Engine.bracket enter leave e) (Engine.bracket enter leave e') := by
  intro c w
  have hrun := h (enter c) w
  rw [Engine.runIn_bracket, Engine.runIn_bracket]
  generalize e.runIn (enter c) w = out, e'.runIn (enter c) w = out' at hrun ⊢
  cases hrun with
  | value hab c₁ w₁ => exact .value hab (leave c₁) w₁
  | fault f c₁ w₁ => exact .fault f (leave c₁) w₁
  | exhausted c₁ w₁ => exact .exhausted (leave c₁) w₁ _

theorem Alike.speculate {α β : Type} {R : α → β → Prop} {e : Engine σ α} {e' : Engine σ β}
    (h : Alike R e e') :
    Alike (fun p q => R p.1 q.1 ∧ List.Forall₂ (· = ·) p.2 q.2) (Engine.speculate e)
      (Engine.speculate e') := by
  intro c w
  have hrun := h c.fork w
  rw [Engine.runIn_speculate, Engine.runIn_speculate]
  generalize e.runIn c.fork w = out, e'.runIn c.fork w = out' at hrun ⊢
  cases hrun with
  | value hab fork w₁ => exact .value ⟨hab, List.forall₂_same.mpr fun _ _ => rfl⟩ _ w₁
  | fault f fork w₁ => exact .fault f c w₁
  | exhausted fork w₁ => exact .exhausted c w₁ _

theorem Alike.branch {α β : Type} {R : α → β → Prop} {test : Context → Bool} {e k : Engine σ α}
    {e' k' : Engine σ β} (h : Alike R e e') (hk : Alike R k k') :
    Alike R (Engine.context >>= fun c => if test c then e else k)
      (Engine.context >>= fun c => if test c then e' else k') := by
  intro c w
  rw [Engine.runIn_bind_of_ok _ (Engine.runIn_context c w),
    Engine.runIn_bind_of_ok _ (Engine.runIn_context c w)]
  cases test c with
  | true => exact h c w
  | false => exact hk c w

/-- Having more depth as a likeness. -/
def likeness (σ : Type) : Likeness σ σ where
  record := (· = ·)
  work := Alike
  pure h c w := .value h c w
  bind := Alike.bind
  throw _ f c w := .fault f c w
  store := .self _
  addWorded _ _ _ := .self _
  within _ := .bracket
  onCopy h c := Alike.bracket h c
  speculate := Alike.speculate
  enter _ _ _ _ _ _ _ hrefused h hk := .branch hrefused (.bind (.bracket h) hk)
  clean := .branch

theorem settings (env : Setting σ) (mode : Mode) :
    (likeness σ).Settings env mode env mode where
  resolve _ := .self _
  applyStep _ _ := .self _
  ask _ _ := .self _
  addViolation _ := .self _
  addFailures x name groups groups' h := by
    have hgroups : groups = groups' := by simpa [likeness] using h
    exact hgroups ▸ .self _

variable (env : Setting σ) (mode : Mode)

theorem acceptsMissing (depth : Nat) (s : Schema) :
    Alike (· = ·) (Engine.ofAct (env.acceptsMissing depth s))
      (Engine.ofAct (env.acceptsMissing (depth + 1) s)) := by
  induction depth generalizing s with
  | zero => exact fun c w => .exhausted c w _
  | succ depth ih => exact Likeness.acceptsLayer (settings env .immediate) ih s

/-- Combining looks at the depth only where it merges results. -/
theorem combine (depth : Nat) (results : List Value) (groups : List (List ErrorRecord)) :
    Alike (· = ·) (combine env depth results groups) (combine env (depth + 1) results groups) := by
  unfold Traverse.combine
  split
  · exact .self _
  · cases results with
    | nil => exact .self _
    | cons first rest =>
        refine Alike.bind (.self _) fun st _ hst => ?_
        subst hst
        by_cases htoo : mergeAll st depth first rest = .error .tooDeep
        · rw [htoo]
          exact fun c w => .exhausted c w _
        · rw [mergeAll_deeper htoo]
          exact .self _

omit mode in
/-- With more depth, more items may be added to a list while it is checked. -/
theorem checkItems {one one' : Value → Engine σ Value} (hone : ∀ v, Alike (· = ·) (one v) (one' v))
    (v : Value) (more i : Nat) :
    Alike (· = ·) (checkItems one v more i) (checkItems one' v (more + 1) i) := by
  induction more generalizing i with
  | zero =>
      intro c w
      rw [Traverse.checkItems, Traverse.checkItems,
        Engine.runIn_bind_of_ok _ (Engine.runIn_store c w),
        Engine.runIn_bind_of_ok _ (Engine.runIn_store c w)]
      cases hitem : (w.store.itemsOf v)[i]? with
      | none =>
          rw [if_neg (by simpa using hitem)]
          exact .value rfl c w
      | some u =>
          rw [if_pos (List.getElem?_eq_some_iff.mp hitem).1]
          exact .exhausted c w _
  | succ more ih =>
      refine Alike.bind (.self _) fun st _ hst => ?_
      subst hst
      cases (st.itemsOf v)[i]? with
      | none => exact .self _
      | some u =>
          refine Alike.bind (.bracket (hone u)) fun result _ hresult => ?_
          subst hresult
          refine Alike.bind (ih (i + 1)) fun done _ hdone => ?_
          subst hdone
          exact .self _

theorem check (depth : Nat) (s : Schema) (v : Value) :
    Alike (· = ·) (check env mode depth s v) (check env mode (depth + 1) s v) := by
  induction depth generalizing s v with
  | zero => exact fun c w => .exhausted c w _
  | succ depth ih =>
      have hset := settings env mode
      cases s with
      | intersection first rest =>
          refine Alike.bind (Likeness.tryMembers (L := likeness σ) ih v (first :: rest))
            fun done done' hdone => ?_
          obtain ⟨hresults, hgroups⟩ := hdone
          have hgroups : done.2 = done'.2 := by simpa [likeness] using hgroups
          obtain rfl : done = done' := Prod.ext hresults hgroups
          exact combine env depth done.1 done.2
      | array element bounds =>
          exact Likeness.checkArray_of_items hset bounds fun n =>
            checkItems (ih element) v (n + depth) 0
      | _ => exact Likeness.checkLayer hset depth (acceptsMissing env depth) ih _ v

end Deepened

/-! ## Ends -/

/-- A run ends in one way from some depth on, and not for want of depth. -/
def ComesTo {α β : Type} (run : Nat → Except Fault α × β) (out : Except Fault α × β) : Prop :=
  EndsBy run out ∧ out.1 ≠ .error .exhausted

/-- The end of a check. -/
abbrev Concludes {σ : Type} (env : Setting σ) (mode : Mode) (s : Schema) (v : Value) (c : Context)
    (w : World σ) (out : Except Fault Value × Context × World σ) : Prop :=
  ComesTo (fun depth => (check env mode depth s v).runIn c w) out

/-- The end of asking for the flag. -/
abbrev Flags {σ : Type} (env : Setting σ) (s : Schema) (w : World σ)
    (out : Except Fault Bool × World σ) : Prop :=
  ComesTo (fun depth => (env.acceptsMissing depth s).runIn w) out

section Ends

variable {σ α β : Type} {run : Nat → Except Fault α × β} {out out' : Except Fault α × β}

theorem ok_ne_exhausted (a : α) : (.ok a : Except Fault α) ≠ .error .exhausted := by
  simp

theorem ComesTo.unique (h : ComesTo run out) (h' : ComesTo run out') : out = out' := by
  obtain ⟨⟨enough, h⟩, -⟩ := h
  obtain ⟨⟨enough', h'⟩, -⟩ := h'
  exact (h _ (le_max_left enough enough')).symm.trans (h' _ (le_max_right enough enough'))

/-- To end at some depth is to end from it on, if more depth changes nothing. -/
theorem comesTo_iff (hdeeper : ∀ depth, (run depth).1 ≠ .error .exhausted →
      run (depth + 1) = run depth) :
    ComesTo run out ↔ ∃ depth, run depth = out ∧ out.1 ≠ .error .exhausted := by
  constructor
  · rintro ⟨h, hends⟩
    obtain ⟨depth, hdepth⟩ := h.exists_eq
    exact ⟨depth, hdepth, hends⟩
  · rintro ⟨depth, rfl, hends⟩
    refine ⟨⟨depth, fun more hmore => ?_⟩, hends⟩
    induction more, hmore using Nat.le_induction with
    | base => rfl
    | succ more _ ih => rw [hdeeper more (ih ▸ hends), ih]

theorem concludes_iff {env : Setting σ} {mode : Mode} {s : Schema} {v : Value} {c : Context}
    {w : World σ} {out : Except Fault Value × Context × World σ} :
    Concludes env mode s v c w out ↔
      ∃ depth, (check env mode depth s v).runIn c w = out ∧ out.1 ≠ .error .exhausted := by
  refine comesTo_iff fun depth hends => ?_
  have hrun := Deepened.check env mode depth s v c w
  generalize (check env mode depth s v).runIn c w = out,
    (check env mode (depth + 1) s v).runIn c w = out' at hrun hends ⊢
  cases hrun with
  | value h c₁ w₁ => rw [h]
  | fault => rfl
  | exhausted => exact absurd rfl hends

theorem concludes_of_run {env : Setting σ} {mode : Mode} {depth : Nat} {s : Schema} {v r : Value}
    {c c' : Context} {w w' : World σ}
    (h : (check env mode depth s v).runIn c w = (.ok r, c', w')) :
    Concludes env mode s v c w (.ok r, c', w') :=
  concludes_iff.mpr ⟨depth, h, ok_ne_exhausted r⟩

theorem flags_iff {env : Setting σ} {s : Schema} {w : World σ}
    {out : Except Fault Bool × World σ} :
    Flags env s w out ↔
      ∃ depth, (env.acceptsMissing depth s).runIn w = out ∧ out.1 ≠ .error .exhausted := by
  refine comesTo_iff fun depth hends => ?_
  have hrun := Deepened.acceptsMissing env depth s {} w
  rw [Engine.runIn_ofAct, Engine.runIn_ofAct] at hrun
  generalize (env.acceptsMissing depth s).runIn w = out,
    (env.acceptsMissing (depth + 1) s).runIn w = out' at hrun hends ⊢
  obtain ⟨r, w₁⟩ := out
  obtain ⟨r', w₂⟩ := out'
  cases hrun with
  | value h => rw [h]
  | fault => rfl
  | exhausted => exact absurd rfl hends

theorem flags_of_run {env : Setting σ} {depth : Nat} {s : Schema} {b : Bool} {w w' : World σ}
    (h : (env.acceptsMissing depth s).runIn w = (.ok b, w')) : Flags env s w (.ok b, w') :=
  flags_iff.mpr ⟨depth, h, ok_ne_exhausted b⟩

end Ends

end Conform
