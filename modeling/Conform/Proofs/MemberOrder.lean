import Conform.Proofs.Capture
import Conform.Proofs.Purity
import Conform.Proofs.Uniting

/-!
# The order of members

With pure callbacks a member of an intersection is checked the same wherever it
stands among the members: its check is the one that it has by itself, from a fresh
context and in the world in which the intersection is entered. So an intersection is
a matter of what its members do by themselves. It accepts if all of them pass and
their results are merged, and if the rules agree; if some fail, there is one error
with the errors of those.

None of this depends on the order of the members but the merged value, and that only
up to likeness.

## Main results

* `Traverse.runIn_tryMembers_of_pure` — the members of an intersection, each by itself.
* `Validate.gives_accepted_iff`, `Validate.gives_iff_of_failed` — what an intersection
  comes to.
* `member_order_is_irrelevant` — the order of the members makes no difference.
-/

namespace Conform

open Traverse

variable {σ : Type} {env : Setting σ} {mode : Mode} {depth : Nat} {members : List Schema}
  {first : Schema} {rest : List Schema} {v : Value} {c c' : Context} {w w' : World σ}

/-- The template in force for the error of an intersection, if there is one, gives
words. -/
def Setting.IntersectionsWorded (env : Setting σ) : Prop :=
  ∀ st groups, ∃ message, env.catalog.format env.scope st "intersection.invalid"
    "Input did not satisfy all intersection members"
    (some [(.text "intersection_errors", .failures groups)]) = .ok message

/-! ## Members by themselves -/

namespace Traverse

/-- The check of a member by itself. -/
abbrev memberRun (env : Setting σ) (mode : Mode) (depth : Nat) (v : Value) (w : World σ)
    (member : Schema) : Except Fault Value × Context × World σ :=
  (check env mode depth member v).runIn {} w

/-- The result of a member that leaves no error. -/
def memberResult (env : Setting σ) (mode : Mode) (depth : Nat) (v : Value) (w : World σ)
    (member : Schema) : Option Value :=
  match memberRun env mode depth v w member with
  | (.ok r, c, _) => if c.errors.isEmpty then some r else none
  | (.error _, _, _) => none

/-- The errors of a member that leaves some. -/
def memberErrors (env : Setting σ) (mode : Mode) (depth : Nat) (v : Value) (w : World σ)
    (member : Schema) : Option (List ErrorRecord) :=
  match memberRun env mode depth v w member with
  | (.ok _, c, _) => if c.errors.isEmpty then none else some c.errors
  | (.error _, _, _) => none

/-- Whether an answer is promised to a member. -/
def memberAwaits (env : Setting σ) (mode : Mode) (depth : Nat) (v : Value) (w : World σ)
    (member : Schema) : Bool :=
  (memberRun env mode depth v w member).2.1.awaiting

/-- Every member ends by a value. -/
def MembersEnd (env : Setting σ) (mode : Mode) (depth : Nat) (v : Value) (w : World σ)
    (members : List Schema) : Prop :=
  ∀ member ∈ members, ∃ r, (memberRun env mode depth v w member).1 = .ok r

/-- An attempt at a member ends as the member does by itself, in any twin. -/
theorem runIn_speculate_of_pure (hpure : env.IsPure) (mode : Mode) (depth : Nat) (v : Value)
    (hfork : c.fork = {}) (htwins : env.Twins w w') (member : Schema) :
    (∃ f, (memberRun env mode depth v w member).1 = .error f ∧
      ((Engine.speculate (check env mode depth member v)).runIn c w').1 = .error f) ∨
    ∃ r d w₁ w₂, memberRun env mode depth v w member = (.ok r, d, w₁) ∧ env.Twins w w₂ ∧
      (Engine.speculate (check env mode depth member v)).runIn c w' =
        (.ok (r, d.errors), { c with awaiting := c.awaiting || d.awaiting }, w₂) := by
  have hrun : Purity.EndAlike env (· = ·) w ((check env mode depth member v).runIn {} w)
      ((check env mode depth member v).runIn {} w') := hpure.check htwins
  rw [Engine.runIn_speculate, hfork]
  unfold memberRun
  generalize (check env mode depth member v).runIn {} w = out,
    (check env mode depth member v).runIn {} w' = out' at hrun ⊢
  cases hrun with
  | value h d hw₁ hw₂ =>
      subst h
      exact .inr ⟨_, d, _, _, rfl, hw₂, rfl⟩
  | fault f d hw₁ hw₂ => exact .inl ⟨f, rfl, rfl⟩

/-- The members of an intersection are tried as each of them is checked by itself. -/
theorem runIn_tryMembers_of_pure (hpure : env.IsPure) (hfork : c.fork = {})
    (htwins : env.Twins w w') (hend : MembersEnd env mode depth v w members) :
    ∃ w₁, env.Twins w w₁ ∧ (tryMembers (check env mode depth) v members).runIn c w' =
      (.ok (members.filterMap (memberResult env mode depth v w),
          members.filterMap (memberErrors env mode depth v w)),
        { c with awaiting := c.awaiting || members.any (memberAwaits env mode depth v w) },
        w₁) := by
  induction members generalizing c w' with
  | nil => exact ⟨w', htwins, by simp [tryMembers]⟩
  | cons member members ih =>
      obtain ⟨r, hr⟩ := hend member List.mem_cons_self
      rcases runIn_speculate_of_pure hpure mode depth v hfork htwins member
        with ⟨f, hf, -⟩ | ⟨r', d, w₁, w₂, hmember, hw₂, hattempt⟩
      · rw [hr] at hf
        cases hf
      have hfork' : ({ c with awaiting := c.awaiting || d.awaiting } : Context).fork = {} := hfork
      obtain ⟨w₃, hw₃, hmembers⟩ := ih hfork' hw₂ fun m hm => hend m (List.mem_cons_of_mem _ hm)
      refine ⟨w₃, hw₃, ?_⟩
      unfold tryMembers
      rw [Engine.runIn_bind_of_ok _ hattempt]
      dsimp only
      rw [Engine.runIn_bind_of_ok _ hmembers]
      cases hclean : d.errors.isEmpty <;>
        simp [hclean, memberResult, memberErrors, memberAwaits, hmember, Bool.or_assoc]

/-- Members that are tried to the end end by themselves. -/
theorem membersEnd_of_tryMembers (hpure : env.IsPure) (hfork : c.fork = {})
    (htwins : env.Twins w w') {done : List Value × List (List ErrorRecord)} {w₁ : World σ}
    (hrun : (tryMembers (check env mode depth) v members).runIn c w' = (.ok done, c', w₁)) :
    MembersEnd env mode depth v w members := by
  induction members generalizing c c' w' w₁ done with
  | nil => exact fun m hm => by cases hm
  | cons member members ih =>
      unfold tryMembers at hrun
      obtain ⟨attempt, c₁, w₂, hattempt, hrest⟩ := Engine.runIn_bind_ok_iff.mp hrun
      obtain ⟨_, _, _, hmembers, -⟩ := Engine.runIn_bind_ok_iff.mp hrest
      rcases runIn_speculate_of_pure hpure mode depth v hfork htwins member
        with ⟨f, -, hf⟩ | ⟨r, d, w₃, w₄, hmember, hw₄, hattempt'⟩
      · rw [hattempt] at hf
        cases hf
      rw [hattempt] at hattempt'
      cases hattempt'
      have hfork' : ({ c with awaiting := c.awaiting || d.awaiting } : Context).fork = {} := hfork
      have hlater : MembersEnd env mode depth v w members := ih hfork' hw₄ hmembers
      intro m hm
      rcases List.mem_cons.mp hm with rfl | hm
      · exact ⟨r, by rw [hmember]⟩
      · exact hlater m hm

/-- The check of an intersection from a fresh context combines what its members do by
themselves. -/
theorem runIn_intersection_of_pure (hpure : env.IsPure)
    (hend : MembersEnd env mode depth v w (first :: rest)) :
    ∃ w₁, env.Twins w w₁ ∧
      (check env mode (depth + 1) (.intersection first rest) v).runIn {} w =
        (combine env depth ((first :: rest).filterMap (memberResult env mode depth v w))
          ((first :: rest).filterMap (memberErrors env mode depth v w))).runIn
            { awaiting := (first :: rest).any (memberAwaits env mode depth v w) } w₁ := by
  have hfork : ({} : Context).fork = {} := rfl
  obtain ⟨w₁, hw₁, hmembers⟩ := runIn_tryMembers_of_pure hpure hfork (.refl env w) hend
  exact ⟨w₁, hw₁, Engine.runIn_bind_of_ok _ hmembers⟩

theorem membersEnd_of_intersection (hpure : env.IsPure) {r : Value}
    (hrun : (check env mode (depth + 1) (.intersection first rest) v).runIn {} w =
      (.ok r, c', w')) : MembersEnd env mode depth v w (first :: rest) := by
  have hfork : ({} : Context).fork = {} := rfl
  obtain ⟨done, c₁, w₁, hmembers, -⟩ := Engine.runIn_bind_ok_iff.mp hrun
  exact membersEnd_of_tryMembers hpure hfork (.refl env w) hmembers

/-- If members have failed, combining leaves one error, with the errors of those. -/
theorem runIn_combine_of_failed {results : List Value} {groups : List (List ErrorRecord)}
    {r : Value} (hgroups : groups ≠ [])
    (hrun : (combine env depth results groups).runIn c w = (.ok r, c', w')) :
    ∃ message, c' = c.addError ⟨c.path, message, .builtin .intersectionInvalid,
      some [(.text "intersection_errors", .failures groups)]⟩ := by
  have hsome : groups.isEmpty = false := List.isEmpty_eq_false_iff.mpr hgroups
  unfold combine at hrun
  simp only [hsome, Bool.not_false, if_true] at hrun
  obtain ⟨-, message, hc, -⟩ := Engine.eq_addError_of_runIn_refuse hrun
  exact ⟨message, hc⟩

/-- There is that error if the template in force gives words. -/
theorem runIn_combine_of_groups (hwords : env.IntersectionsWorded) (depth : Nat)
    (results : List Value) {groups : List (List ErrorRecord)} (hgroups : groups ≠ [])
    (c : Context) (w : World σ) :
    ∃ message, (combine env depth results groups).runIn c w =
      (.ok .invalid, c.addError ⟨c.path, some message, .builtin .intersectionInvalid,
        some [(.text "intersection_errors", .failures groups)]⟩, w) := by
  obtain ⟨message, hmessage⟩ := hwords w.store groups
  have hsome : groups.isEmpty = false := List.isEmpty_eq_false_iff.mpr hgroups
  have hworded : Violation.message { membersFailed with
      details := some [(.text "intersection_errors", .failures groups)] } env w.store =
        .ok message := hmessage
  refine ⟨message, ?_⟩
  unfold combine
  simp only [hsome, Bool.not_false, if_true]
  show (Engine.refuse env { membersFailed with
    details := some [(.text "intersection_errors", .failures groups)] }).runIn c w = _
  rw [Engine.runIn_refuse, hworded]
  rfl

/-- Combining leaves no error only if no member has failed. -/
theorem eq_nil_of_combine {results : List Value} {groups : List (List ErrorRecord)} {r : Value}
    (hrun : (combine env depth results groups).runIn c w = (.ok r, c', w'))
    (hclean : c'.errors = []) : groups = [] := by
  by_contra hgroups
  obtain ⟨message, rfl⟩ := runIn_combine_of_failed hgroups hrun
  simp [Context.addError] at hclean

/-- Combining results leaves no error only if they are merged. -/
theorem merged_of_combine {x r : Value} {xs : List Value}
    (hrun : (combine env depth (x :: xs) []).runIn c w = (.ok r, c', w'))
    (hclean : c'.errors = []) :
    mergeAll w.store depth x xs = .ok r ∧ c' = c ∧ w' = w := by
  rw [runIn_combine] at hrun
  rcases hmerge : mergeAll w.store depth x xs with ⟨path, left, right⟩ | m
  · rw [hmerge] at hrun
    obtain ⟨-, message, rfl, -⟩ := Engine.eq_addError_of_runIn_refuse hrun
    simp [Context.addError] at hclean
  · simp [hmerge] at hrun
  · rw [hmerge] at hrun
    cases hrun
    exact ⟨rfl, rfl, rfl⟩

/-- A member that ends leaves a result or errors. -/
theorem memberErrors_eq_none_iff {member : Schema}
    (hend : ∃ r, (memberRun env mode depth v w member).1 = .ok r) :
    memberErrors env mode depth v w member = none ↔
      ∃ r, memberResult env mode depth v w member = some r := by
  obtain ⟨r, hr⟩ := hend
  unfold memberErrors memberResult
  rcases hrun : memberRun env mode depth v w member with ⟨_ | r', d, w₁⟩
  · rw [hrun] at hr
    cases hr
  · cases hclean : d.errors.isEmpty <;> simp [hclean]

theorem ended_of_memberResult {member : Schema} {r : Value}
    (h : memberResult env mode depth v w member = some r) :
    (memberRun env mode depth v w member).1 = .ok r := by
  unfold memberResult at h
  rcases hrun : memberRun env mode depth v w member with ⟨_ | r', d, w₁⟩
  · simp [hrun] at h
  · cases hclean : d.errors.isEmpty <;> simp_all

/-- Members that end have all passed exactly if none of them leaves errors. -/
theorem filterMap_memberErrors_eq_nil_iff (hend : MembersEnd env mode depth v w members) :
    members.filterMap (memberErrors env mode depth v w) = [] ↔
      ∀ member ∈ members, ∃ r, memberResult env mode depth v w member = some r := by
  rw [List.filterMap_eq_nil_iff]
  exact forall₂_congr fun member hmember => memberErrors_eq_none_iff (hend member hmember)

theorem exists_results_of_pass
    (hpass : ∀ member ∈ first :: rest, ∃ r, memberResult env mode depth v w member = some r) :
    ∃ x xs, (first :: rest).filterMap (memberResult env mode depth v w) = x :: xs := by
  obtain ⟨r, hr⟩ := hpass first List.mem_cons_self
  exact ⟨r, _, List.filterMap_cons_some hr⟩

end Traverse

/-! ## Whole values -/

namespace Validate

/-- An outcome is given by a run, in which nothing was promised if answers are not
waited for. -/
theorem gives_iff {s : Schema} {o : Outcome} :
    Gives env mode depth s v w o ↔
      ∃ r c w', (checkWhole env mode depth s v).runIn {} w = (.ok r, c, w') ∧
        (mode = .immediate → c.awaiting = false) ∧ finish r c.errors = .ok o := by
  cases mode with
  | immediate =>
      constructor
      · rintro ⟨entry, w', h⟩
        obtain ⟨r, c, hrun, hawaiting, ho⟩ := runIn_immediate_ok_iff.mp h
        exact ⟨r, c, w', hrun, fun _ => hawaiting, ho⟩
      · rintro ⟨r, c, w', hrun, hawaiting, ho⟩
        exact ⟨.parse, w', runIn_immediate_ok_iff.mpr ⟨r, c, hrun, hawaiting rfl, ho⟩⟩
  | awaited =>
      constructor
      · rintro ⟨w', h⟩
        obtain ⟨r, c, hrun, ho⟩ := runIn_awaited_ok_iff.mp h
        exact ⟨r, c, w', hrun, nofun, ho⟩
      · rintro ⟨r, c, w', hrun, -, ho⟩
        exact ⟨w', runIn_awaited_ok_iff.mpr ⟨r, c, hrun, ho⟩⟩

/-- What is accepted has been checked without an error, and the rules have found none. -/
theorem gives_accepted_iff_clean {s : Schema} {u : Value} :
    Gives env mode depth s v w (.accepted u) ↔
      ∃ r c₁ w₁ c' w', (check env mode depth s v).runIn {} w = (.ok r, c₁, w₁) ∧ c₁.errors = [] ∧
        (askRules env mode s v env.rules).runIn c₁ w₁ = (.ok (), c', w') ∧ c'.errors = [] ∧
        (mode = .immediate → c'.awaiting = false) ∧
        u = if Traverse.isMissing r then .null else r := by
  rw [gives_iff]
  constructor
  · rintro ⟨r, c', w', hrun, hawaiting, ho⟩
    obtain ⟨hclean, hu⟩ := finish_eq_accepted_iff.mp ho
    obtain ⟨c₁, w₁, hcheck, hnone, hrules⟩ := (runIn_checkWhole_clean_iff hclean).mp hrun
    exact ⟨r, c₁, w₁, c', w', hcheck, hnone, hrules, hclean, hawaiting, hu⟩
  · rintro ⟨r, c₁, w₁, c', w', hcheck, hnone, hrules, hclean, hawaiting, hu⟩
    exact ⟨r, c', w', (runIn_checkWhole_clean_iff hclean).mpr ⟨c₁, w₁, hcheck, hnone, hrules⟩,
      hawaiting, finish_eq_accepted_iff.mpr ⟨hclean, hu⟩⟩

/-- Schemas that the rules do not tell apart are asked about alike. -/
theorem askRules_congr {s s' : Schema} {rules : List Rule}
    (h : ∀ rule ∈ rules, env.testRule rule.check s' v = env.testRule rule.check s v) :
    askRules env mode s' v rules = askRules env mode s v rules := by
  induction rules with
  | nil => rfl
  | cons rule rules ih =>
      have hrest := ih fun other hother => h other (List.mem_cons_of_mem _ hother)
      simp only [askRules, askRule, h rule List.mem_cons_self, hrest]

theorem exists_askRules_of_twins (hpure : env.IsPure) {s : Schema} {rules : List Rule}
    {w₁ : World σ} (htwins : env.Twins w w₁)
    (hrun : (askRules env mode s v rules).runIn c w = (.ok (), c', w')) :
    ∃ w₂, (askRules env mode s v rules).runIn c w₁ = (.ok (), c', w₂) := by
  have halike : Purity.EndAlike env (· = ·) w ((askRules env mode s v rules).runIn c w)
      ((askRules env mode s v rules).runIn c w₁) := hpure.askRules rules htwins
  rw [hrun] at halike
  generalize (askRules env mode s v rules).runIn c w₁ = out at halike ⊢
  cases halike with
  | value _ c hw₁ hw₂ => exact ⟨_, rfl⟩

/-- What an intersection of members accepts: all of them pass, their results are
merged, and the rules agree. -/
structure Accepts (env : Setting σ) (mode : Mode) (depth : Nat) (s : Schema)
    (members : List Schema) (v : Value) (w : World σ) (u : Value) : Prop where
  pass (member : Schema) (h : member ∈ members) :
    ∃ r, memberResult env mode depth v w member = some r
  merged : ∃ x xs m, members.filterMap (memberResult env mode depth v w) = x :: xs ∧
    mergeAll w.store depth x xs = .ok m ∧ u = if isMissing m then .null else m
  agree : ∃ c w', (askRules env mode s v env.rules).runIn
      { awaiting := members.any (memberAwaits env mode depth v w) } w = (.ok (), c, w') ∧
    c.errors = [] ∧ (mode = .immediate → c.awaiting = false)

/-- What members accept is determined by them. -/
theorem Accepts.unique {s s' : Schema} {u u' : Value} (h : Accepts env mode depth s members v w u)
    (h' : Accepts env mode depth s' members v w u') : u = u' := by
  obtain ⟨x, xs, m, hresults, hmerge, rfl⟩ := h.merged
  obtain ⟨x', xs', m', hresults', hmerge', rfl⟩ := h'.merged
  rw [hresults] at hresults'
  cases hresults'
  rw [hmerge] at hmerge'
  cases hmerge'
  rfl

theorem gives_accepted_iff (hpure : env.IsPure) {u : Value} :
    Gives env mode (depth + 1) (.intersection first rest) v w (.accepted u) ↔
      Accepts env mode depth (.intersection first rest) (first :: rest) v w u := by
  rw [gives_accepted_iff_clean]
  constructor
  · rintro ⟨r, c₁, w₁, c, w', hcheck, hclean₁, hrules, hclean, hawaiting, hu⟩
    have hend := membersEnd_of_intersection hpure hcheck
    obtain ⟨w₂, hw₂, hcombine⟩ := runIn_intersection_of_pure hpure hend
    rw [hcheck] at hcombine
    have hnone := eq_nil_of_combine hcombine.symm hclean₁
    have hpass := (filterMap_memberErrors_eq_nil_iff hend).mp hnone
    obtain ⟨x, xs, hresults⟩ := exists_results_of_pass hpass
    rw [hnone, hresults] at hcombine
    obtain ⟨hmerge, rfl, rfl⟩ := merged_of_combine hcombine.symm hclean₁
    rw [hw₂.store] at hmerge
    refine ⟨hpass, ⟨x, xs, r, hresults, hmerge, hu⟩, ?_⟩
    obtain ⟨w₃, hrules'⟩ := exists_askRules_of_twins hpure hw₂.symm hrules
    exact ⟨c, w₃, hrules', hclean, hawaiting⟩
  · rintro ⟨hpass, ⟨x, xs, m, hresults, hmerge, hu⟩, c, w', hrules, hclean, hawaiting⟩
    have hend : MembersEnd env mode depth v w (first :: rest) := by
      intro member hmember
      obtain ⟨r, hr⟩ := hpass member hmember
      exact ⟨r, ended_of_memberResult hr⟩
    have hnone := (filterMap_memberErrors_eq_nil_iff hend).mpr hpass
    obtain ⟨w₁, hw₁, hcombine⟩ := runIn_intersection_of_pure hpure hend
    rw [hnone, hresults, runIn_combine, hw₁.store, hmerge] at hcombine
    obtain ⟨w₂, hrules'⟩ := exists_askRules_of_twins hpure hw₁ hrules
    exact ⟨m, _, w₁, c, w₂, hcombine, rfl, hrules', hclean, hawaiting, hu⟩

/-- With members that fail, the errors of a whole value are one, with the errors of
those. -/
theorem runIn_checkWhole_of_failed (hpure : env.IsPure) {r : Value}
    (hfailed : (first :: rest).filterMap (memberErrors env mode depth v w) ≠ [])
    (hrun : (checkWhole env mode (depth + 1) (.intersection first rest) v).runIn {} w =
      (.ok r, c', w')) :
    MembersEnd env mode depth v w (first :: rest) ∧ ∃ message,
      c' = ({ awaiting := (first :: rest).any (memberAwaits env mode depth v w) } :
        Context).addError ⟨[], message, .builtin .intersectionInvalid,
          some [(.text "intersection_errors", .failures
            ((first :: rest).filterMap (memberErrors env mode depth v w)))]⟩ := by
  obtain ⟨c₁, w₁, hcheck, hrules⟩ := runIn_checkWhole_ok_iff.mp hrun
  have hend := membersEnd_of_intersection hpure hcheck
  obtain ⟨w₂, -, hcombine⟩ := runIn_intersection_of_pure hpure hend
  rw [hcheck] at hcombine
  obtain ⟨message, hc₁⟩ := runIn_combine_of_failed hfailed hcombine.symm
  have hempty : c₁.errors.isEmpty = false := by simp [hc₁, Context.addError]
  simp only [hempty, Bool.false_eq_true, if_false] at hrules
  exact ⟨hend, message, hrules.1.trans hc₁⟩

/-- With members that fail a whole value is refused, with that error only. -/
theorem gives_refused_of_failed (hpure : env.IsPure) {o : Outcome}
    (hfailed : (first :: rest).filterMap (memberErrors env mode depth v w) ≠ [])
    (ho : Gives env mode (depth + 1) (.intersection first rest) v w o) :
    ∃ message, o = .refused [⟨[], message, .builtin .intersectionInvalid,
      some [(.text "intersection_errors", .failures
            ((first :: rest).filterMap (memberErrors env mode depth v w)))]⟩] := by
  obtain ⟨r, c, w', hrun, -, hfinish⟩ := gives_iff.mp ho
  obtain ⟨-, message, rfl⟩ := runIn_checkWhole_of_failed hpure hfailed hrun
  cases hfinish
  exact ⟨message, rfl⟩

/-- With members that fail a whole value is refused if all members end and no promise
is dropped. -/
theorem exists_gives_iff_of_failed (hpure : env.IsPure) (hwords : env.IntersectionsWorded)
    (hfailed : (first :: rest).filterMap (memberErrors env mode depth v w) ≠ []) :
    (∃ o, Gives env mode (depth + 1) (.intersection first rest) v w o) ↔
      MembersEnd env mode depth v w (first :: rest) ∧
        (mode = .immediate → (first :: rest).any (memberAwaits env mode depth v w) = false) := by
  constructor
  · rintro ⟨o, ho⟩
    obtain ⟨r, c, w', hrun, hawaiting, -⟩ := gives_iff.mp ho
    obtain ⟨hend, message, rfl⟩ := runIn_checkWhole_of_failed hpure hfailed hrun
    exact ⟨hend, hawaiting⟩
  · rintro ⟨hend, hawaiting⟩
    obtain ⟨w₁, -, hcheck⟩ := runIn_intersection_of_pure hpure hend
    obtain ⟨message, hcombine⟩ := runIn_combine_of_groups hwords depth
      ((first :: rest).filterMap (memberResult env mode depth v w)) hfailed
      { awaiting := (first :: rest).any (memberAwaits env mode depth v w) } w₁
    have hrun := runIn_checkWhole_ok_iff.mpr ⟨_, w₁, hcheck.trans hcombine, ⟨rfl, rfl⟩⟩
    exact ⟨_, gives_iff.mpr ⟨_, _, w₁, hrun, hawaiting, rfl⟩⟩

/-! ## Any order -/

section Order

variable {first' : Schema} {rest' : List Schema}

theorem membersEnd_of_perm {members' : List Schema} (hperm : members.Perm members')
    (h : MembersEnd env mode depth v w members) : MembersEnd env mode depth v w members' :=
  fun member hmember => h member (hperm.mem_iff.mpr hmember)

/-- What is accepted in one order is accepted in any other, up to likeness. -/
theorem exists_accepts_of_perm {s s' : Schema} {u : Value}
    (hperm : (first :: rest).Perm (first' :: rest'))
    (hrules : ∀ rule ∈ env.rules, env.testRule rule.check s' v = env.testRule rule.check s v)
    (hkeyed : ∀ member ∈ first :: rest, ∀ r,
      memberResult env mode depth v w member = some r → w.store.Keyed r)
    (h : Accepts env mode depth s (first :: rest) v w u) :
    ∃ u', Accepts env mode depth s' (first' :: rest') v w u' ∧ w.store.Alike u u' := by
  obtain ⟨hpass, ⟨x, xs, m, hresults, hmerge, rfl⟩, hagree⟩ := h
  have hpass' : ∀ member ∈ first' :: rest', ∃ r,
      memberResult env mode depth v w member = some r :=
    fun member hmember => hpass member (hperm.mem_iff.mpr hmember)
  obtain ⟨y, ys, hresults'⟩ := exists_results_of_pass hpass'
  have hresultsPerm : (x :: xs).Perm (y :: ys) := by
    rw [← hresults, ← hresults']
    exact hperm.filterMap _
  have hkeyed' : ∀ r ∈ x :: xs, w.store.Keyed r := by
    intro r hr
    rw [← hresults] at hr
    obtain ⟨member, hmember, hresult⟩ := List.mem_filterMap.mp hr
    exact hkeyed member hmember r hresult
  obtain ⟨m', hmerge', halike⟩ := exists_mergeAll_of_perm hresultsPerm hkeyed' hmerge
  have hagree' : (first :: rest).any (memberAwaits env mode depth v w) =
      (first' :: rest').any (memberAwaits env mode depth v w) := hperm.any_eq
  rw [← askRules_congr hrules, hagree'] at hagree
  refine ⟨_, ⟨hpass', ⟨y, ys, m', hresults', hmerge', rfl⟩, hagree⟩, ?_⟩
  exact halike.orNull

theorem exists_gives_of_perm (hpure : env.IsPure) {u : Value}
    (hperm : (first :: rest).Perm (first' :: rest'))
    (hrules : ∀ rule ∈ env.rules, env.testRule rule.check (.intersection first' rest') v =
      env.testRule rule.check (.intersection first rest) v)
    (hkeyed : ∀ member ∈ first :: rest, ∀ r,
      memberResult env mode depth v w member = some r → w.store.Keyed r)
    (h : Gives env mode (depth + 1) (.intersection first rest) v w (.accepted u)) :
    ∃ u', Gives env mode (depth + 1) (.intersection first' rest') v w (.accepted u') ∧
      w.store.Alike u u' := by
  have haccepts := (gives_accepted_iff hpure).mp h
  obtain ⟨u', haccepts', halike⟩ := exists_accepts_of_perm hperm hrules hkeyed haccepts
  exact ⟨u', (gives_accepted_iff hpure).mpr haccepts', halike⟩

end Order

end Validate

open Validate in
/-- With pure callbacks, the order of the members of an intersection makes no difference.
At every depth, and whether answers are waited for or not, what is accepted in one order
is accepted in any other, and the values accepted are alike. If a member fails by itself,
whatever outcome there is in either order is one error, with the errors of the members
that fail in the order of the members; and there is an outcome in both orders, if the
template for the error of an intersection gives words. The results of the members are mappings
as the host has them, with no key twice, and the rules for whole values do not look at the order
of members. -/
theorem member_order_is_irrelevant {σ : Type} (env : Setting σ) (hpure : env.IsPure) (mode : Mode)
    (depth : Nat) {first first' : Schema} {rest rest' : List Schema}
    (hperm : (first :: rest).Perm (first' :: rest')) (v : Value) (w : World σ)
    (hrules : ∀ rule ∈ env.rules, env.testRule rule.check (.intersection first' rest') v =
      env.testRule rule.check (.intersection first rest) v)
    (hkeyed : ∀ member ∈ first :: rest, ∀ r,
      memberResult env mode depth v w member = some r → w.store.Keyed r) :
    ((∃ u, Gives env mode (depth + 1) (.intersection first rest) v w (.accepted u)) ↔
      ∃ u, Gives env mode (depth + 1) (.intersection first' rest') v w (.accepted u)) ∧
    (∀ u u', Gives env mode (depth + 1) (.intersection first rest) v w (.accepted u) →
      Gives env mode (depth + 1) (.intersection first' rest') v w (.accepted u') →
      w.store.Alike u u') ∧
    ((∃ member ∈ first :: rest, ∃ es, memberErrors env mode depth v w member = some es) →
      (∀ o, Gives env mode (depth + 1) (.intersection first rest) v w o → ∃ message,
        o = .refused [⟨[], message, .builtin .intersectionInvalid,
          some [(.text "intersection_errors", .failures
            ((first :: rest).filterMap (memberErrors env mode depth v w)))]⟩]) ∧
      (∀ o, Gives env mode (depth + 1) (.intersection first' rest') v w o → ∃ message,
        o = .refused [⟨[], message, .builtin .intersectionInvalid,
          some [(.text "intersection_errors", .failures
            ((first' :: rest').filterMap (memberErrors env mode depth v w)))]⟩]) ∧
      ((first :: rest).filterMap (memberErrors env mode depth v w)).Perm
        ((first' :: rest').filterMap (memberErrors env mode depth v w)) ∧
      (env.IntersectionsWorded →
        ((∃ o, Gives env mode (depth + 1) (.intersection first rest) v w o) ↔
          ∃ o, Gives env mode (depth + 1) (.intersection first' rest') v w o))) := by
  have hkeyed' : ∀ member ∈ first' :: rest', ∀ r,
      memberResult env mode depth v w member = some r → w.store.Keyed r :=
    fun member hmember => hkeyed member (hperm.mem_iff.mpr hmember)
  have hrules' : ∀ rule ∈ env.rules, env.testRule rule.check (.intersection first rest) v =
      env.testRule rule.check (.intersection first' rest') v :=
    fun rule hrule => (hrules rule hrule).symm
  refine ⟨⟨?_, ?_⟩, ?_, ?_⟩
  · rintro ⟨u, hu⟩
    obtain ⟨u', hu', -⟩ := exists_gives_of_perm hpure hperm hrules hkeyed hu
    exact ⟨u', hu'⟩
  · rintro ⟨u, hu⟩
    obtain ⟨u', hu', -⟩ := exists_gives_of_perm hpure hperm.symm hrules' hkeyed' hu
    exact ⟨u', hu'⟩
  · intro u u' hu hu'
    obtain ⟨u'', hu'', halike⟩ := exists_gives_of_perm hpure hperm hrules hkeyed hu
    have haccepts' := (gives_accepted_iff hpure).mp hu'
    have hsame := haccepts'.unique ((gives_accepted_iff hpure).mp hu'')
    exact hsame ▸ halike
  · rintro ⟨member, hmember, es, hes⟩
    have hgroups := hperm.filterMap (memberErrors env mode depth v w)
    have hfailed : (first :: rest).filterMap (memberErrors env mode depth v w) ≠ [] :=
      List.ne_nil_of_mem (List.mem_filterMap.mpr ⟨member, hmember, hes⟩)
    have hfailed' : (first' :: rest').filterMap (memberErrors env mode depth v w) ≠ [] :=
      fun hnil => hfailed (List.perm_nil.mp (hnil ▸ hgroups))
    refine ⟨fun o => gives_refused_of_failed hpure hfailed,
      fun o => gives_refused_of_failed hpure hfailed', hgroups, fun hwords => ?_⟩
    rw [exists_gives_iff_of_failed hpure hwords hfailed,
      exists_gives_iff_of_failed hpure hwords hfailed']
    have hawaits : (first :: rest).any (memberAwaits env mode depth v w) =
        (first' :: rest').any (memberAwaits env mode depth v w) := hperm.any_eq
    rw [hawaits]
    have hend : MembersEnd env mode depth v w (first :: rest) ↔
        MembersEnd env mode depth v w (first' :: rest') :=
      ⟨membersEnd_of_perm hperm, membersEnd_of_perm hperm.symm⟩
    rw [hend]

/-- An object schema of one field that drops every other key. -/
def onlyName : Schema := .object [(.text "name", .any)] .strip

/-- An object schema that lets every key through. -/
def anyObject : Schema := .object [] .passthrough

/-- A mapping with two keys. -/
def named : Value := .mapping false [(.text "age", .int 7), (.text "name", .text "x")]

/-- The error for null in place of a mapping. -/
def nullNoObject : ErrorRecord where
  path := []
  message := some "Expected object"
  code := .builtin .invalidType
  details := some (Details.ofValues [("expected", .text "object"), ("received", .text "null")])

/-- What the first schema lets through of the mapping comes first in one order and last
in the other. What is no mapping fails in both members. -/
theorem member_order_is_irrelevant_named :
    (∃ u, Validate.Gives idleHost .immediate 3 (.intersection anyObject [onlyName]) named
        { host := () } (.accepted u) ∧
      Store.Alike {} (.mapping false [(.text "name", .text "x"), (.text "age", .int 7)]) u) ∧
    ∃ message, Validate.Gives idleHost .immediate 3 (.intersection anyObject [onlyName]) .null
      { host := () } (.refused [⟨[], message, .builtin .intersectionInvalid,
        some [(.text "intersection_errors", .failures [[nullNoObject], [nullNoObject]])]⟩]) := by
  have hperm : [onlyName, anyObject].Perm [anyObject, onlyName] := .swap ..
  have hwords : idleHost.IntersectionsWorded := fun st groups => ⟨_, rfl⟩
  have hatoms : ∀ e ∈ [(Key.text "age", Value.int 7), (Key.text "name", Value.text "x")],
      Store.Keyed {} e.2 := by
    simp [Store.keyed_atom]
  constructor
  · have hkeyed : ∀ member ∈ [onlyName, anyObject], ∀ r,
        memberResult idleHost .immediate 2 named { host := () } member = some r →
          Store.Keyed {} r := by
      intro member hmember r hr
      rcases List.mem_pair.mp hmember with rfl | rfl
      · obtain rfl : Value.mapping false [(.text "name", .text "x")] = r := Option.some.inj hr
        exact Store.keyed_mapping (List.pairwise_singleton ..) (by simp [Store.keyed_atom])
      · obtain rfl : named = r := Option.some.inj hr
        exact Store.keyed_mapping (by decide) hatoms
    have horder := member_order_is_irrelevant idleHost pure_idleHost .immediate 2 hperm named
      { host := () } nofun hkeyed
    have hgives : Validate.Gives idleHost .immediate 3 (.intersection onlyName [anyObject]) named
        { host := () } (.accepted (.mapping false
          [(.text "name", .text "x"), (.text "age", .int 7)])) := ⟨.parse, _, rfl⟩
    obtain ⟨u, hu⟩ := horder.1.mp ⟨_, hgives⟩
    exact ⟨u, hu, horder.2.1 _ _ hgives hu⟩
  · have hnone : ∀ member ∈ [onlyName, anyObject], ∀ r,
        memberResult idleHost .immediate 2 .null { host := () } member = some r →
          Store.Keyed {} r := by
      intro member hmember r hr
      rcases List.mem_pair.mp hmember with rfl | rfl <;> cases hr
    have horder := member_order_is_irrelevant idleHost pure_idleHost .immediate 2 hperm .null
      { host := () } nofun hnone
    obtain ⟨-, hrefused, -, hends⟩ := horder.2.2 ⟨onlyName, by simp, _, rfl⟩
    obtain ⟨o, ho⟩ := (hends hwords).mp ⟨_, .parse, _, rfl⟩
    obtain ⟨message, rfl⟩ := hrefused o ho
    exact ⟨message, ho⟩

end Conform
