import Conform.Proofs.Folding
import Conform.Proofs.Trial

/-!
# Groupings of members

An intersection passes if all of its members do and their results can be merged. An
intersection inside another one merges the results of its members before the others are
checked, and merging makes no difference where it is cut. So it makes no difference to what
is accepted how members are grouped.

It would, if a member changed in place what one before it has given. A result that has been
merged is a copy that does not change; one that is still to be merged is not.

## Main results

* `attempts_intersection_iff` — an attempt of an intersection that is won.
* `Cut.joint_iff` — schemas that stand for the members that they are made of.
* `member_grouping_is_irrelevant` — groupings of the same members accept alike.
* `grouping_of_changed_result` — not so if a result is changed in place.
-/

namespace Conform

open Traverse

variable {σ : Type} {env : Setting σ} {mode : Mode} {depth : Nat} {v : Value} {c : Context}
  {w w₁ w₂ w' : World σ}

/-! ## Members that pass -/

/-- Members pass one after another, each on a fork of the context. -/
inductive Passed (env : Setting σ) (mode : Mode) (v : Value) (c : Context) :
    List Schema → World σ → List Value → Bool → World σ → Prop
  | nil (w : World σ) : Passed env mode v c [] w [] false w
  | cons {s : Schema} {rest : List Schema} {w w₁ w₂ : World σ} {r : Value} {rs : List Value}
      {b b' : Bool} (h : Attempts env mode v c s w (.won r b w₁))
      (hrest : Passed env mode v c rest w₁ rs b' w₂) :
      Passed env mode v c (s :: rest) w (r :: rs) (b || b') w₂

/-- Members pass and their results are merged. -/
def Joint (env : Setting σ) (mode : Mode) (v : Value) (c : Context) (members : List Schema)
    (w : World σ) (m : Value) (b : Bool) (w' : World σ) : Prop :=
  ∃ rs, Passed env mode v c members w rs b w' ∧ w'.store.Folds rs m

/-- In the results of members no mapping has a key twice, and no container that can be
reached from them is changed by the members that pass after them. -/
def Steady (env : Setting σ) (mode : Mode) (v : Value) (c : Context) (members : List Schema)
    (w : World σ) : Prop :=
  ∀ earlier later rest, members = earlier ++ later ++ rest → ∀ rs b w₁ rs' b' w₂,
    Passed env mode v c earlier w rs b w₁ → Passed env mode v c later w₁ rs' b' w₂ →
    ∀ r ∈ rs, w₁.store.Keyed r ∧ w₁.store.Unchanged r w₂

section Passed

variable {xs ys : List Schema} {rs rs' : List Value} {b b' : Bool} {m : Value}

theorem passed_append_iff : Passed env mode v c (xs ++ ys) w rs b w' ↔
    ∃ rs₁ rs₂ b₁ b₂ w₁, Passed env mode v c xs w rs₁ b₁ w₁ ∧ Passed env mode v c ys w₁ rs₂ b₂ w' ∧
      rs = rs₁ ++ rs₂ ∧ b = (b₁ || b₂) := by
  constructor
  · intro h
    induction xs generalizing w rs b with
    | nil => exact ⟨[], rs, false, b, w, .nil w, h, rfl, (Bool.false_or b).symm⟩
    | cons s xs ih =>
        cases h with
        | @cons _ _ _ _ _ r _ b₀ _ h hrest =>
            obtain ⟨rs₁, rs₂, b₁, b₂, w₁, hxs, hys, rfl, rfl⟩ := ih hrest
            exact ⟨r :: rs₁, rs₂, b₀ || b₁, b₂, w₁, .cons h hxs, hys, rfl,
              (Bool.or_assoc b₀ b₁ b₂).symm⟩
  · rintro ⟨rs₁, rs₂, b₁, b₂, w₁, hxs, hys, rfl, rfl⟩
    induction hxs with
    | nil => simpa using hys
    | cons h _ ih =>
        rw [Bool.or_assoc]
        exact .cons h (ih hys)

theorem Passed.append (h : Passed env mode v c xs w rs b w₁)
    (h' : Passed env mode v c ys w₁ rs' b' w') :
    Passed env mode v c (xs ++ ys) w (rs ++ rs') (b || b') w' :=
  passed_append_iff.mpr ⟨rs, rs', b, b', w₁, h, h', rfl, rfl⟩

/-- What one schema gives by itself is what it gives as the only member. -/
theorem joint_singleton_iff {s : Schema} :
    Joint env mode v c [s] w m b w' ↔ Attempts env mode v c s w (.won m b w') := by
  constructor
  · rintro ⟨rs, h, hm⟩
    cases h with
    | cons h hrest =>
        cases hrest
        rw [Store.folds_singleton_iff.mp hm, Bool.or_false]
        exact h
  · intro h
    refine ⟨[m], ?_, Store.folds_singleton_iff.mpr rfl⟩
    simpa using Passed.cons h (.nil w')

namespace Steady

theorem left (h : Steady env mode v c (xs ++ ys) w) : Steady env mode v c xs w :=
  fun earlier later rest hxs => h earlier later (rest ++ ys) (by simp [hxs])

theorem right (h : Steady env mode v c (xs ++ ys) w)
    (hxs : Passed env mode v c xs w rs b w₁) : Steady env mode v c ys w₁ := by
  intro earlier later rest hys rs₁ b₁ w₂ rs₂ b₂ w₃ hearlier hlater r hr
  exact h (xs ++ earlier) later rest (by simp [hys]) _ _ w₂ _ _ w₃ (hxs.append hearlier) hlater r
    (List.mem_append_right rs hr)

theorem keyed_later (h : Steady env mode v c (xs ++ ys) w)
    (hxs : Passed env mode v c xs w rs b w₁) (hys : Passed env mode v c ys w₁ rs' b' w') :
    ∀ r ∈ rs, w'.store.Keyed r := by
  intro r hr
  obtain ⟨hkeyed, hsame⟩ := h xs ys [] (List.append_nil _).symm rs b w₁ rs' b' w' hxs hys r hr
  exact hsame.agreesOn.keyed hkeyed

/-- What members have given is merged alike before and after those that come later. -/
theorem folds_later_iff (h : Steady env mode v c (xs ++ ys) w)
    (hxs : Passed env mode v c xs w rs b w₁) (hys : Passed env mode v c ys w₁ rs' b' w') :
    w'.store.Folds rs m ↔ w₁.store.Folds rs m :=
  Store.AgreesOn.folds_iff fun r hr =>
    (h xs ys [] (List.append_nil _).symm rs b w₁ rs' b' w' hxs hys r hr).2.agreesOn

theorem keyed (h : Steady env mode v c xs w) (hxs : Passed env mode v c xs w rs b w') :
    ∀ r ∈ rs, w'.store.Keyed r :=
  fun r hr => (h xs [] [] (by simp) rs b w' [] false w' hxs (.nil w') r hr).1

end Steady

end Passed

/-! ## Intersections -/

section Intersections

variable {members : List Schema} {rs : List Value} {b b' : Bool} {m : Value} {c' : Context}

/-- Members that leave no errors pass. -/
theorem passed_of_tryMembers
    (h : (tryMembers (check env mode depth) v members).runIn (c.fork.noting b) w =
      (.ok (rs, []), c', w')) :
    ∃ b', Passed env mode v c members w rs b' w' ∧ c' = c.fork.noting (b || b') := by
  induction members generalizing b w rs with
  | nil =>
      cases h
      exact ⟨false, .nil w', by rw [Bool.or_false]⟩
  | cons s members ih =>
      obtain ⟨⟨r, errors⟩, c₁, w₁, hattempt, hrest⟩ := Engine.runIn_bind_ok_iff.mp h
      obtain ⟨fork, hrun, rfl, rfl⟩ := Engine.runIn_speculate_ok_iff.mp hattempt
      obtain ⟨⟨results, groups⟩, c₂, w₂, hmembers, hend⟩ := Engine.runIn_bind_ok_iff.mp hrest
      by_cases hclean : fork.errors = []
      · simp only [hclean, List.isEmpty_nil, if_true] at hend
        cases hend
        obtain ⟨b', hpassed, rfl⟩ := ih (b := b || fork.awaiting) hmembers
        have hwon := attempts_won_iff.mpr ⟨fork, concludes_of_run hrun, hclean, rfl⟩
        exact ⟨_, .cons hwon hpassed, by rw [Bool.or_assoc]⟩
      · simp only [List.isEmpty_eq_false_iff.mpr hclean, Bool.false_eq_true, if_false] at hend
        cases hend

/-- Members that pass leave their results, if there is depth enough. -/
theorem tryMembers_of_passed (h : Passed env mode v c members w rs b' w') (b : Bool) :
    EndsBy (fun depth => (tryMembers (check env mode depth) v members).runIn (c.fork.noting b) w)
      (.ok (rs, []), c.fork.noting (b || b'), w') := by
  induction h generalizing b with
  | nil w =>
      rw [Bool.or_false]
      exact .const _
  | @cons _ _ _ _ _ r _ b₀ b₁ h _ ih =>
      obtain ⟨fork, ⟨hends, -⟩, hclean, rfl⟩ := attempts_won_iff.mp h
      have hattempt := EndsBy.speculate (c := c.fork.noting b) hends
      rw [← Bool.or_assoc]
      refine hattempt.engine ((ih (b || fork.awaiting)).engine ?_)
      simp only [hclean, List.isEmpty_nil, if_true]
      exact .const _

/-- An attempt of an intersection is won if its members pass and their results are merged
from the left. -/
theorem attempts_intersection_iff {first : Schema} {rest : List Schema} :
    Attempts env mode v c (.intersection first rest) w (.won m b w') ↔
      ∃ x xs, Passed env mode v c (first :: rest) w (x :: xs) b w' ∧
        ∃ depth, mergeAll w'.store depth x xs = .ok m := by
  rw [attempts_won_iff]
  constructor
  · rintro ⟨fork, hends, hclean, rfl⟩
    obtain ⟨depth, hrun, -⟩ := concludes_iff.mp hends
    cases depth with
    | zero => cases hrun
    | succ depth =>
        obtain ⟨⟨rs, groups⟩, c₁, w₁, hmembers, hcombine⟩ := Engine.runIn_bind_ok_iff.mp hrun
        obtain rfl := eq_nil_of_combine hcombine hclean
        rw [← c.fork.noting_false] at hmembers
        obtain ⟨b, hpassed, rfl⟩ := passed_of_tryMembers hmembers
        cases hpassed with
        | cons h hrest =>
            obtain ⟨hmerge, rfl, rfl⟩ := merged_of_combine hcombine hclean
            exact ⟨_, _, .cons h hrest, depth, hmerge⟩
  · rintro ⟨x, xs, hpassed, enough, hmerge⟩
    have hmembers := tryMembers_of_passed hpassed false
    rw [Context.noting_false, Bool.false_or] at hmembers
    refine ⟨c.fork.noting b, ⟨.of_succ (hmembers.engine ⟨enough, fun depth hdepth => ?_⟩),
      ok_ne_exhausted m⟩, rfl, rfl⟩
    simp only [runIn_combine, Store.mergeAll_deeper_le hmerge hdepth]

end Intersections

/-! ## Schemas made of members -/

/-- Members are cut into runs, and for each run there is a schema of which an attempt is won
as the members of the run are passed. -/
inductive Cut (env : Setting σ) (mode : Mode) (v : Value) (c : Context) :
    List Schema → List Schema → Prop
  | nil : Cut env mode v c [] []
  | cons {s : Schema} {rest members more : List Schema}
      (h : ∀ w, Steady env mode v c members w → ∀ m b w',
        Attempts env mode v c s w (.won m b w') ↔ Joint env mode v c members w m b w')
      (hrest : Cut env mode v c rest more) : Cut env mode v c (s :: rest) (members ++ more)

namespace Cut

variable {xs members : List Schema} {rs : List Value} {b : Bool} {m : Value}

/-- Members by themselves. -/
theorem self (members : List Schema) : Cut env mode v c members members := by
  induction members with
  | nil => exact .nil
  | cons s members ih =>
      show Cut env mode v c (s :: members) ([s] ++ members)
      exact .cons (fun _ _ _ _ _ => joint_singleton_iff.symm) ih

theorem append {ys more : List Schema} (h : Cut env mode v c xs members)
    (h' : Cut env mode v c ys more) : Cut env mode v c (xs ++ ys) (members ++ more) := by
  induction h with
  | nil => exact h'
  | cons hwon _ ih =>
      rw [List.append_assoc]
      exact .cons hwon ih

/-- If schemas pass, so do the members, whose results are merged into the same. -/
theorem members_of_passed (h : Cut env mode v c xs members)
    (hsteady : Steady env mode v c members w) (hpassed : Passed env mode v c xs w rs b w') :
    (∀ r ∈ rs, w'.store.Keyed r) ∧ ∃ results, Passed env mode v c members w results b w' ∧
      ∀ m, w'.store.Folds rs m → w'.store.Folds results m := by
  induction h generalizing w rs b with
  | nil =>
      cases hpassed
      exact ⟨by simp, [], .nil w', fun m hm => hm⟩
  | cons hwon _ ih =>
      cases hpassed with
      | cons hs hrest =>
          obtain ⟨firsts, hfirsts, hfold⟩ := (hwon _ hsteady.left _ _ _).mp hs
          obtain ⟨hkeyed, others, hothers, hfolds⟩ := ih (hsteady.right hfirsts) hrest
          have hfold := (hsteady.folds_later_iff hfirsts hothers).mpr hfold
          have hkeyed₁ := hsteady.keyed_later hfirsts hothers
          have hkeyed₂ := (hsteady.right hfirsts).keyed hothers
          refine ⟨List.forall_mem_cons.mpr ⟨hfold.keyed hkeyed₁, hkeyed⟩, firsts ++ others,
            hfirsts.append hothers, fun m hm => ?_⟩
          obtain ⟨n, hn, hm⟩ := Store.folds_cons_iff.mp hm
          exact (Store.folds_append_iff hkeyed₁ hkeyed₂).mpr ⟨_, n, hfold, hfolds n hn, hm⟩

/-- If members pass and their results are merged, so it is with the schemas. -/
theorem passed_of_members (h : Cut env mode v c xs members)
    (hsteady : Steady env mode v c members w) {results : List Value}
    (hpassed : Passed env mode v c members w results b w') (hm : w'.store.Folds results m) :
    ∃ rs, Passed env mode v c xs w rs b w' ∧ w'.store.Folds rs m := by
  induction h generalizing w results b m with
  | nil =>
      cases hpassed
      exact ⟨[], .nil w', hm⟩
  | cons hwon _ ih =>
      obtain ⟨firsts, others, b₁, b₂, w₁, hfirsts, hothers, rfl, rfl⟩ :=
        passed_append_iff.mp hpassed
      have hkeyed₁ := hsteady.keyed_later hfirsts hothers
      have hkeyed₂ := (hsteady.right hfirsts).keyed hothers
      obtain ⟨k, n, hk, hn, hm⟩ := (Store.folds_append_iff hkeyed₁ hkeyed₂).mp hm
      have hk := (hsteady.folds_later_iff hfirsts hothers).mp hk
      obtain ⟨rs, hrs, hn⟩ := ih (hsteady.right hfirsts) hothers hn
      exact ⟨k :: rs, .cons ((hwon _ hsteady.left _ _ _).mpr ⟨firsts, hfirsts, hk⟩) hrs,
        .cons hn hm⟩

/-- An intersection of schemas stands for all their members. -/
theorem intersection {first : Schema} {rest : List Schema}
    (h : Cut env mode v c (first :: rest) members) :
    Cut env mode v c [.intersection first rest] members := by
  rw [← List.append_nil members]
  refine .cons (fun w hsteady m b w' => ?_) .nil
  rw [attempts_intersection_iff]
  constructor
  · rintro ⟨x, xs, hpassed, hmerge⟩
    obtain ⟨hkeyed, results, hresults, hfolds⟩ := h.members_of_passed hsteady hpassed
    obtain ⟨hx, hxs⟩ := List.forall_mem_cons.mp hkeyed
    exact ⟨results, hresults, hfolds m ((Store.exists_mergeAll_iff_folds hx hxs).mp hmerge)⟩
  · rintro ⟨results, hresults, hm⟩
    obtain ⟨rs, hpassed, hm⟩ := h.passed_of_members hsteady hresults hm
    obtain ⟨hkeyed, -⟩ := h.members_of_passed hsteady hpassed
    cases hpassed with
    | cons hs hrest =>
        obtain ⟨hx, hxs⟩ := List.forall_mem_cons.mp hkeyed
        exact ⟨_, _, .cons hs hrest, (Store.exists_mergeAll_iff_folds hx hxs).mpr hm⟩

theorem attempts_iff {s : Schema} (h : Cut env mode v c [s] members)
    (hsteady : Steady env mode v c members w) {w' : World σ} :
    Attempts env mode v c s w (.won m b w') ↔ Joint env mode v c members w m b w' := by
  cases h with
  | cons h hrest =>
      cases hrest
      rw [List.append_nil] at hsteady ⊢
      exact h w hsteady m b w'

end Cut

theorem relates_cut : Compound.intersection.Relates (Cut env mode v c) where
  nil := .nil
  append := .append
  join := .intersection

section Groupings

variable {g g' : Grouping} {s s' : Schema}

/-- A schema that is built of members passes as they do. -/
theorem attempts_iff_joint {m : Value} {b : Bool} (hs : ∀ st, g.build .intersection st = .ok s)
    (hsteady : Steady env mode v c (g.leaves.flatMap Compound.intersection.parts) w) :
    Attempts env mode v c s w (.won m b w') ↔
      Joint env mode v c (g.leaves.flatMap Compound.intersection.parts) w m b w' :=
  (Grouping.related_of_build relates_cut (fun _ _ => .self _) (hs {})).attempts_iff hsteady

/-- Where a check on a context leaves no error, an attempt is won. -/
theorem concludes_clean_iff {r : Value} {c' : Context} (hclean : c'.errors = c.errors) :
    Concludes env mode s v c w (.ok r, c', w') ↔
      ∃ b, Attempts env mode v c s w (.won r b w') ∧ c' = c.noting b := by
  rw [concludes_iff_fork]
  constructor
  · rintro ⟨⟨q, fork, w₁⟩, htried, hout⟩
    cases hout
    have hfork : fork.errors = [] := by simpa using hclean
    exact ⟨fork.awaiting, attempts_won_iff.mpr ⟨fork, htried, hfork, rfl⟩, by
      simp [Context.noting, hfork]⟩
  · rintro ⟨b, hwon, rfl⟩
    obtain ⟨fork, htried, hfork, rfl⟩ := attempts_won_iff.mp hwon
    exact ⟨_, htried, by simp [Context.taking, Context.noting, hfork]⟩

theorem concludes_iff_of_build (hleaves : g.leaves = g'.leaves)
    (hs : ∀ st, g.build .intersection st = .ok s) (hs' : ∀ st, g'.build .intersection st = .ok s')
    (hsteady : Steady env mode v c (g.leaves.flatMap Compound.intersection.parts) w) {r : Value}
    {c' : Context} (hclean : c'.errors = c.errors) :
    Concludes env mode s v c w (.ok r, c', w') ↔ Concludes env mode s' v c w (.ok r, c', w') := by
  rw [concludes_clean_iff hclean, concludes_clean_iff hclean]
  simp only [attempts_iff_joint hs hsteady, attempts_iff_joint hs' (hleaves ▸ hsteady), hleaves]

end Groupings

open Store Validate in
/-- **Merging is associative**, down to the order of keys, and a missing value adds nothing on
either side. So the same members in the same order can be combined with the operator and
with lists in any way, and the schemas that are built accept the same on any context, with
the same result, the same context and the same world, if no member that passes changes in
place what those before it have given. The members of a leaf that is an intersection count
as members. So are the whole values that are accepted the same, if the rules do not tell
the schemas apart. -/
theorem member_grouping_is_irrelevant (env : Setting σ) {g g' : Grouping}
    (hleaves : g.leaves = g'.leaves) :
    (∀ (st : Store) (a b c m : Value), st.Keyed a → st.Keyed b → st.Keyed c →
      ((∃ ab, st.Fuses a b ab ∧ st.Fuses ab c m) ↔ ∃ bc, st.Fuses b c bc ∧ st.Fuses a bc m)) ∧
    (∀ (st : Store) (v m : Value),
      (st.Fuses .missing v m ↔ m = v) ∧ (st.Fuses v .missing m ↔ m = v)) ∧
    ∃ s s', (∀ st, g.build .intersection st = .ok s) ∧
      (∀ st, g'.build .intersection st = .ok s') ∧
      (∀ mode v c w, Steady env mode v c (g.leaves.flatMap Compound.intersection.parts) w →
        ∀ r c' w', c'.errors = c.errors →
          (Concludes env mode s v c w (.ok r, c', w') ↔
            Concludes env mode s' v c w (.ok r, c', w'))) ∧
      ∀ mode v w, Steady env mode v {} (g.leaves.flatMap Compound.intersection.parts) w →
        (∀ rule ∈ env.rules, env.testRule rule.check s' v = env.testRule rule.check s v) →
        ∀ u, (∃ depth, Gives env mode depth s v w (.accepted u)) ↔
          ∃ depth, Gives env mode depth s' v w (.accepted u) := by
  refine ⟨fun _ _ _ _ _ => fuses_assoc, fun _ _ _ => ⟨fuses_missing_left, fuses_missing_right⟩, ?_⟩
  obtain ⟨s, hs⟩ := g.exists_schema .intersection
  obtain ⟨s', hs'⟩ := g'.exists_schema .intersection
  refine ⟨s, s', hs, hs', fun mode v c w hsteady r c' w' hclean => ?_,
    fun mode v w hsteady hrules u => ?_⟩
  · exact concludes_iff_of_build hleaves hs hs' hsteady hclean
  · exact exists_gives_accepted_congr hrules fun r c' w' hclean =>
      concludes_iff_of_build hleaves hs hs' hsteady hclean

/-- Members are steady if the host leaves the store alone and no mapping that they give has a
key twice. -/
theorem steady_of_after {members : List Schema}
    (hstore : ∀ w', env.After w w' → w'.store = w.store)
    (hkeyed : ∀ s ∈ members, ∀ w₁ r b w₂, env.After w w₁ →
      Attempts env mode v c s w₁ (.won r b w₂) → w.store.Keyed r) :
    Steady env mode v c members w := by
  have hpassed : ∀ {xs w₁ rs b w₂}, xs ⊆ members → env.After w w₁ →
      Passed env mode v c xs w₁ rs b w₂ → env.After w w₂ ∧ ∀ r ∈ rs, w.store.Keyed r := by
    intro xs w₁ rs b w₂ hxs hafter h
    induction h with
    | nil => exact ⟨hafter, by simp⟩
    | cons h _ ih =>
        obtain ⟨hs, hrest⟩ := List.cons_subset.mp hxs
        obtain ⟨fork, hends, -⟩ := attempts_won_iff.mp h
        obtain ⟨depth, hrun, -⟩ := concludes_iff.mp hends
        have hnext := hafter.trans (Carry.after mode fun _ hset => Carry.of_check hset depth hrun)
        obtain ⟨hlast, hkeyed'⟩ := ih hrest hnext
        exact ⟨hlast, List.forall_mem_cons.mpr ⟨hkeyed _ hs _ _ _ _ hafter h, hkeyed'⟩⟩
  rintro earlier later rest rfl rs b w₁ rs' b' w₂ hearlier hlater r hr
  obtain ⟨hafter, hkeyed'⟩ := hpassed (by simp) (.refl env w) hearlier
  obtain ⟨hafter', -⟩ := hpassed (by simp) hafter hlater
  rw [hstore _ hafter]
  exact ⟨hkeyed' r hr, fun _ _ => by rw [hstore _ hafter']⟩

/-- An object schema that lets one key through. -/
def onlyCity : Schema := .object [(.text "city", .any)] .strip

/-- A mapping with two texts. -/
def resident : Value := .mapping false [(.text "city", .text "y"), (.text "name", .text "x")]

/-- The name, all keys, and the city, the first two combined first. -/
def nameFirst : Grouping := .all (.pair (.one onlyName) (.one anyObject)) [.one onlyCity]

/-- The name, all keys, and the city, the last two combined first. -/
def cityFirst : Grouping := .pair (.one onlyName) (.all (.one anyObject) [.one onlyCity])

open Validate in
/-- The name comes before the city in what both give. -/
theorem member_grouping_is_irrelevant_resident :
    ∃ s s', nameFirst.build .intersection {} = .ok s ∧ cityFirst.build .intersection {} = .ok s' ∧
      (∃ depth, Gives idleHost .immediate depth s resident { host := () } (.accepted
        (.mapping false [(.text "name", .text "x"), (.text "city", .text "y")]))) ∧
      ∃ depth, Gives idleHost .immediate depth s' resident { host := () } (.accepted
        (.mapping false [(.text "name", .text "x"), (.text "city", .text "y")])) := by
  have hleaves : nameFirst.leaves = cityFirst.leaves := rfl
  obtain ⟨-, -, s, s', hs, hs', -, hgives⟩ := member_grouping_is_irrelevant idleHost hleaves
  have hsteady : Steady idleHost .immediate resident {}
      (nameFirst.leaves.flatMap Compound.intersection.parts) { host := () } := by
    refine steady_of_after (fun w' h => ?_) fun member hmember w₁ r b w₂ h hwon => ?_
    · exact congrArg _ (h (· = { host := () }) (keeps_idleHost _) rfl)
    obtain rfl := h (· = { host := () }) (keeps_idleHost _) rfl
    obtain ⟨fork, hends, -⟩ := attempts_won_iff.mp hwon
    have htexts : ∀ e ∈ [(Key.text "city", Value.text "y"), (Key.text "name", Value.text "x")],
        Store.Keyed {} e.2 := by
      simp [Store.keyed_atom]
    have hmembers : member ∈ [onlyName, anyObject, onlyCity] := hmember
    simp only [List.mem_cons, List.not_mem_nil, or_false] at hmembers
    rcases hmembers with rfl | rfl | rfl
    · have hname := hends.unique (concludes_iff.mpr ⟨2, rfl, ok_ne_exhausted _⟩)
      obtain rfl : r = .mapping false [(.text "name", .text "x")] := by cases hname; rfl
      exact Store.keyed_mapping (List.pairwise_singleton ..) (by simp [Store.keyed_atom])
    · have hall := hends.unique (concludes_iff.mpr ⟨2, rfl, ok_ne_exhausted _⟩)
      obtain rfl : r = resident := by cases hall; rfl
      exact Store.keyed_mapping (by decide) htexts
    · have hcity := hends.unique (concludes_iff.mpr ⟨2, rfl, ok_ne_exhausted _⟩)
      obtain rfl : r = .mapping false [(.text "city", .text "y")] := by cases hcity; rfl
      exact Store.keyed_mapping (List.pairwise_singleton ..) (by simp [Store.keyed_atom])
  have haccepts : ∃ depth, Gives idleHost .immediate depth s resident { host := () } (.accepted
      (.mapping false [(.text "name", .text "x"), (.text "city", .text "y")])) := by
    cases hs {}
    exact ⟨4, .parse, _, rfl⟩
  exact ⟨s, s', hs {}, hs' {}, haccepts,
    (hgives .immediate resident _ hsteady (by simp [idleHost]) _).mp haccepts⟩

/-- Two members give the list as it is, and a third one adds an item to it. -/
def changedLater : Grouping :=
  .all (.one .any) [.one .any, .one (.transform .any (.callback 0))]

/-- The first two members combined first. -/
def changedAfterMerging : Grouping :=
  .all (.pair (.one .any) (.one .any)) [.one (.transform .any (.callback 0))]

/-- Where a member changes what those before it have given, all results are the changed list
in the first grouping, and two of them have been merged before the change in the second. -/
theorem grouping_of_changed_result :
    changedLater.leaves = changedAfterMerging.leaves ∧
    ∃ s s' w' c', changedLater.build .intersection {} = .ok s ∧
      changedAfterMerging.build .intersection {} = .ok s' ∧
      (check (changingHost (.list [.text "a", .text "b"])) .immediate 4 s
          (.shared 0 false)).runIn {} { store := ⟨#[.list [.text "a"]]⟩, host := () } =
        (.ok (.list [.text "a", .text "b"]), {}, w') ∧
      (check (changingHost (.list [.text "a", .text "b"])) .immediate 4 s'
          (.shared 0 false)).runIn {} { store := ⟨#[.list [.text "a"]]⟩, host := () } =
            (.ok .invalid, c', w') ∧
      c'.errors ≠ [] := by
  refine ⟨rfl, _, _, _, _, rfl, rfl, rfl, rfl, ?_⟩
  exact List.cons_ne_nil _ _

end Conform
