import Conform.Proofs.Associativity
import Conform.Proofs.Fieldwise

/-!
# Objects with no field in common

Two objects that drop what they do not declare can be put together in two ways. Their
intersection checks the one and then the other, each on a fork, and merges the results.
The object with the fields of both checks all fields on one context. If no field is in
both, these come to the same: the same fields are checked in the same order, each finds
the same on its fork, and merging mappings with no key in common is putting one behind the
other.

Only the errors stand differently. The intersection has one error, in which those of
each object are a group; put together they are the errors of the object with all fields.

## Main results

* `mergeValues_of_apart` — merging mappings with no key in common.
* `FieldsApart.finds_both`, `FieldsApart.exists_whole` — what the intersection finds, and what
  the object with all fields does.
* `intersection_of_disjoint_objects` — the two ways come to the same.
-/

namespace Conform

open Traverse

variable {σ : Type}

/-! ## Mappings with no key in common -/

namespace Entries

variable {α β γ δ : Type} {es fs : Entries α} {k : Key} {a : α}

theorem has_eq_any_keys (es : Entries α) (k : Key) : es.has k = es.keys.any (·.same k) := by
  simp [has, keys, List.any_map, Function.comp_def]

/-- No key of the second mapping is in the first. -/
def Apart (es : Entries α) (fs : Entries β) : Prop := ∀ k ∈ fs.keys, es.has k = false

instance (es : Entries α) (fs : Entries β) : Decidable (es.Apart fs) :=
  inferInstanceAs (Decidable (∀ k ∈ fs.keys, es.has k = false))

/-- With fewer keys, mappings have none in common either. -/
theorem Apart.of_sublist {fs : Entries β} {es' : Entries γ} {fs' : Entries δ} (h : es.Apart fs)
    (hes : es'.keys.Sublist es.keys) (hfs : fs'.keys.Sublist fs.keys) : es'.Apart fs' := by
  intro k hk
  have hnone := h k (hfs.subset hk)
  rw [has_eq_any_keys, List.any_eq_false] at hnone ⊢
  exact fun l hl => hnone l (hes.subset hl)

theorem Distinct.of_sublist {es' : Entries γ} (h : es.Distinct) (hes : es'.keys.Sublist es.keys) :
    es'.Distinct :=
  distinct_iff_keys.mpr ((distinct_iff_keys.mp h).sublist hes)

theorem put_of_not_has (h : es.has k = false) : es.put k a = es ++ [(k, a)] := by
  induction es with
  | nil => rfl
  | cons e es ih =>
      obtain ⟨l, b⟩ := e
      obtain ⟨hl, hrest⟩ := Bool.or_eq_false_iff.mp h
      simp [put, hl, ih hrest]

/-- Keys that are not there are put behind. -/
theorem putAll_of_apart (h : es.Apart fs) (hdistinct : fs.Distinct) :
    es.putAll fs = es ++ fs := by
  induction fs generalizing es with
  | nil => simp [putAll]
  | cons f fs ih =>
      obtain ⟨k, a⟩ := f
      have hfirst := put_of_not_has (a := a) (h k List.mem_cons_self)
      have hlater : Apart (es ++ [(k, a)]) fs := by
        intro l hl
        obtain ⟨f, hf, rfl⟩ := List.mem_map.mp hl
        have hother : k.same f.1 = false := (List.pairwise_cons.mp hdistinct).1 f hf
        have hbefore : es.has f.1 = false := h f.1 (List.mem_cons_of_mem _ hl)
        rw [has, List.any_append]
        exact Bool.or_eq_false_iff.mpr ⟨hbefore, by simpa using hother⟩
      have hrest := ih hlater (List.pairwise_cons.mp hdistinct).2
      simp only [putAll, List.foldl_cons] at hrest ⊢
      rw [hfirst, hrest, List.append_assoc, List.singleton_append]

end Entries

/-- Entries at keys that are not there are put behind. -/
theorem mergeEntries_of_apart {merge : Key → Value → Value → Except MergeFailure Value}
    {left merged right : Entries Value} (h : left.Apart right) :
    mergeEntries merge left merged right = .ok (merged.putAll right) := by
  induction right generalizing merged with
  | nil => rfl
  | cons e right ih =>
      obtain ⟨k, u⟩ := e
      have hnone : left.find? k = none := by
        rw [← Option.isNone_iff_eq_none, ← Option.not_isSome, Entries.isSome_find?,
          h k List.mem_cons_self]
        rfl
      simp only [mergeEntries, hnone]
      exact ih fun l hl => h l (List.mem_cons_of_mem _ hl)

/-- Merging mappings with no key in common puts one behind the other. -/
theorem mergeValues_of_apart (st : Store) (depth : Nat) (path : Path) {es fs : Entries Value}
    (h : es.Apart fs) (hdistinct : fs.Distinct) :
    mergeValues st (depth + 1) path (.mapping false es) (.mapping false fs) =
      .ok (.mapping false (es ++ fs)) := by
  rw [Store.mergeValues_of_entries? rfl rfl, mergeEntries_of_apart h,
    Entries.putAll_of_apart h hdistinct]
  rfl

/-! ## The findings of fields -/

section Found

variable {env : Setting σ} {mode : Mode} {depth : Nat} {c : Context} {w w' : World σ}
  {fields : Entries Schema} {found : Entries Finding}

/-- The keys of the results are keys of the fields, in their order. -/
theorem keys_resultsOf_sublist (found : Entries Finding) :
    (resultsOf found).keys.Sublist found.keys := by
  induction found with
  | nil => exact .slnil
  | cons e found ih =>
      simp only [resultsOf, List.filterMap_cons]
      split
      · exact ih.cons _
      · rename_i heq
        split at heq <;> cases heq
        exact ih.cons_cons _

end Found

/-! ## Members that are objects -/

/-- The errors of an intersection whose members have failed. -/
def membersError (p : Path) (message : String) (groups : List (List ErrorRecord)) : ErrorRecord :=
  ⟨p, some message, .builtin .intersectionInvalid,
    some [(.text "intersection_errors", .failures groups)]⟩

section Members

variable {env : Setting σ} {mode : Mode} {depth : Nat} {s : Schema} {v : Value} {c c' : Context}
  {w w' w₁ : World σ} {f g : Finding}

/-- A finding is the marker of a failed check exactly if it has errors. -/
theorem Finds.invalid_iff
    (hfree : ∀ g, Call.Reaches env mode ⟨depth, s, v, c, w⟩ g → g.MarkerFree env)
    (h : Finds env mode depth s v c w f w') : f.result = .invalid ↔ f.errors ≠ [] := by
  obtain ⟨es, hes, hinvalid⟩ := Call.judged hfree f.result _ w' h
  have herrors : f.errors = es := by simpa [Context.adding] using hes
  rw [herrors, ← hinvalid, isInvalid_eq_true_iff]

/-- An attempt hands on what it finds on a fork. -/
theorem Finds.runIn_speculate (h : Finds env mode depth s v c.fork w f w') :
    (Engine.speculate (check env mode depth s v)).runIn c w =
      (.ok (f.result, f.errors), c.noting f.awaiting, w') := by
  refine Engine.runIn_speculate_ok_iff.mpr ⟨_, h, ?_, ?_⟩ <;>
    simp [Context.adding, Context.fork, Context.noting]

/-- The results of members without errors. -/
def passedOf (found : List Finding) : List Value :=
  found.filterMap fun f => if f.errors.isEmpty then some f.result else none

/-- The errors of the other members, a group for each. -/
def groupsOf (found : List Finding) : List (List ErrorRecord) :=
  found.filterMap fun f => if f.errors.isEmpty then none else some f.errors

theorem passedOf_cons_clean (h : f.errors = []) (found : List Finding) :
    passedOf (f :: found) = f.result :: passedOf found :=
  List.filterMap_cons_some (by simp [h])

theorem passedOf_cons_failed (h : f.errors ≠ []) (found : List Finding) :
    passedOf (f :: found) = passedOf found :=
  List.filterMap_cons_none (by simp [h])

theorem groupsOf_cons_clean (h : f.errors = []) (found : List Finding) :
    groupsOf (f :: found) = groupsOf found :=
  List.filterMap_cons_none (by simp [h])

theorem groupsOf_cons_failed (h : f.errors ≠ []) (found : List Finding) :
    groupsOf (f :: found) = f.errors :: groupsOf found :=
  List.filterMap_cons_some (by simp [h])

/-- The groups are the errors of all members. -/
theorem flatten_groupsOf (found : List Finding) :
    (groupsOf found).flatten = found.flatMap Finding.errors := by
  induction found with
  | nil => rfl
  | cons f found ih =>
      by_cases hclean : f.errors = []
      · rw [groupsOf_cons_clean hclean, List.flatMap_cons, hclean, List.nil_append, ih]
      · rw [groupsOf_cons_failed hclean, List.flatMap_cons, List.flatten_cons, ih]

theorem runIn_tryMembers_nil : (tryMembers (check env mode depth) v []).runIn c w =
    (.ok (passedOf [], groupsOf []), c, w) := rfl

/-- One member, and then the others. -/
theorem runIn_tryMembers_cons {member : Schema} {rest : List Schema} {found : List Finding}
    (h : Finds env mode depth member v c.fork w f w₁)
    (hrest : (tryMembers (check env mode depth) v rest).runIn (c.noting f.awaiting) w₁ =
      (.ok (passedOf found, groupsOf found), c', w')) :
    (tryMembers (check env mode depth) v (member :: rest)).runIn c w =
      (.ok (passedOf (f :: found), groupsOf (f :: found)), c', w') := by
  rw [tryMembers, Engine.runIn_bind_of_ok _ h.runIn_speculate]
  simp only
  rw [Engine.runIn_bind_of_ok _ hrest]
  by_cases hclean : f.errors = []
  · rw [passedOf_cons_clean hclean, groupsOf_cons_clean hclean, hclean]
    rfl
  · rw [passedOf_cons_failed hclean, groupsOf_cons_failed hclean]
    simp only [List.isEmpty_eq_false_iff.mpr hclean, Bool.false_eq_true, if_false]
    rfl

theorem exists_of_runIn_tryMembers_cons {member : Schema} {rest : List Schema}
    {done : List Value × List (List ErrorRecord)}
    (h : (tryMembers (check env mode depth) v (member :: rest)).runIn c w = (.ok done, c', w')) :
    ∃ f w₁ later, Finds env mode depth member v c.fork w f w₁ ∧
      (tryMembers (check env mode depth) v rest).runIn (c.noting f.awaiting) w₁ =
        (.ok later, c', w') := by
  rw [tryMembers] at h
  obtain ⟨⟨r, es⟩, c₁, w₁, hattempt, hlater⟩ := Engine.runIn_bind_ok_iff.mp h
  obtain ⟨⟨results, groups⟩, c₂, w₂, hrest, hdone⟩ := Engine.runIn_bind_ok_iff.mp hlater
  obtain ⟨fork, hrun, rfl, rfl⟩ := Engine.runIn_speculate_ok_iff.mp hattempt
  obtain ⟨f, hf, -, rfl⟩ := exists_finds_of_run hrun
  obtain ⟨rfl, rfl⟩ : c₂ = c' ∧ w₂ = w' := by
    simp only at hdone
    split at hdone <;> cases hdone <;> exact ⟨rfl, rfl⟩
  refine ⟨f, w₁, (results, groups), hf, ?_⟩
  simpa [Context.adding, Context.fork, Context.noting] using hrest

/-- Combining leaves the world alone. -/
theorem world_of_combine {results : List Value} {groups : List (List ErrorRecord)} {r : Value}
    (h : (combine env depth results groups).runIn c w = (.ok r, c', w')) : w' = w := by
  cases groups with
  | cons g groups =>
      obtain ⟨-, -, -, hworld⟩ := Engine.eq_addError_of_runIn_refuse h
      exact hworld
  | nil =>
      cases results with
      | nil =>
          cases h
          rfl
      | cons first rest =>
          rw [runIn_combine] at h
          split at h
          · cases h
            rfl
          · obtain ⟨-, -, -, hworld⟩ := Engine.eq_addError_of_runIn_refuse h
            exact hworld
          · cases h

end Members

/-! ## The two ways -/

/-- Objects with no field in common, and a mapping that they are given. -/
structure FieldsApart (env : Setting σ) (fields others : Entries Schema) (v : Value)
    (w : World σ) : Prop where
  distinct : fields.Distinct
  others_distinct : others.Distinct
  apart : fields.Apart others
  /-- A mapping stays a mapping, whatever the host does to its entries. -/
  stays (w₁ : World σ) (h : env.After w w₁) : (w₁.store.entries? v).isNone = false

namespace FieldsApart

variable {env : Setting σ} {mode : Mode} {depth : Nat} {fields others : Entries Schema} {v : Value}
  {c : Context} {w w' w₁ : World σ} {f : Finding} {found more : Entries Finding}

/-- The intersection of two objects that drop what they do not declare. -/
def both (fields others : Entries Schema) : Schema :=
  .intersection (.object fields .strip) [.object others .strip]

/-- The object with the fields of both. -/
def whole (fields others : Entries Schema) : Schema := .object (fields ++ others) .strip

theorem isObject (h : FieldsApart env fields others v w) : (w.store.entries? v).isNone = false :=
  h.stays w (.refl env w)

/-- What is found in the fields of the one, and then in those of the other. -/
theorem exists_of_whole (h : FieldsApart env fields others v w)
    (hfresh : c.hasVisited v = false)
    (hfinds : Finds env mode (depth + 1) (whole fields others) v c w f w') :
    ∃ found w₁ more,
      (fieldsOnFork env mode depth (c.mark v) v fields).runIn w = (.ok found, w₁) ∧
      (fieldsOnFork env mode depth (c.mark v) v others).runIn w₁ = (.ok more, w') ∧
      f.result = objectOf (found ++ more) ∧
      c.adding [f] = c.adding [objectFinding (found ++ more)] := by
  obtain ⟨all, hall, hresult, hadded⟩ := hfinds.exists_fields h.isObject hfresh
  rw [fieldsOnFork_append] at hall
  obtain ⟨found, w₁, hfound, hrest⟩ := Act.runIn_bind_ok_iff.mp hall
  obtain ⟨more, w₂, hmore, hdone⟩ := Act.runIn_bind_ok_iff.mp hrest
  cases hdone
  exact ⟨found, w₁, more, hfound, hmore, hresult, hadded⟩

/-- Each of the two objects finds on a fork what is found in its fields. -/
theorem finds_members (h : FieldsApart env fields others v w)
    (hfresh : c.hasVisited v = false)
    (hfound : (fieldsOnFork env mode depth (c.mark v) v fields).runIn w = (.ok found, w₁))
    (hmore : (fieldsOnFork env mode depth (c.mark v) v others).runIn w₁ = (.ok more, w')) :
    Finds env mode (depth + 1) (.object fields .strip) v c.fork w (objectFinding found) w₁ ∧
      Finds env mode (depth + 1) (.object others .strip) v c.fork w₁ (objectFinding more) w' := by
  have hlater := h.stays w₁ (after_of_fieldsOnFork hfound)
  rw [← fieldsOnFork_fork, Context.fork_mark] at hfound hmore
  exact ⟨finds_object_strip h.isObject hfresh hfound, finds_object_strip hlater hfresh hmore⟩

/-- Where the intersection ends by a value, so does the object with all fields. -/
theorem exists_whole (h : FieldsApart env fields others v w)
    (hfresh : c.hasVisited v = false)
    (hfinds : Finds env mode (depth + 2) (both fields others) v c w f w') :
    ∃ g, Finds env mode (depth + 1) (whole fields others) v c w g w' := by
  obtain ⟨done, c₁, w₃, hmembers, hcombine⟩ := Engine.runIn_bind_ok_iff.mp hfinds
  obtain rfl := world_of_combine hcombine
  obtain ⟨a, w₁, later, hfirst, hrest⟩ := exists_of_runIn_tryMembers_cons hmembers
  obtain ⟨b, w₂, none, hsecond, hnone⟩ := exists_of_runIn_tryMembers_cons hrest
  cases hnone
  have hfork : c.fork.hasVisited v = false := hfresh
  obtain ⟨found, hfound, -, -⟩ := hfirst.exists_fields h.isObject hfork
  have hlater := h.stays w₁ (after_of_fieldsOnFork hfound)
  obtain ⟨more, hmore, -, -⟩ := hsecond.exists_fields hlater hfork
  rw [← Context.fork_mark, fieldsOnFork_fork] at hfound hmore
  refine ⟨objectFinding (found ++ more), finds_object_strip h.isObject hfresh ?_⟩
  rw [fieldsOnFork_append]
  exact Act.runIn_bind_ok_iff.mpr
    ⟨found, w₁, hfound, Act.runIn_bind_ok_iff.mpr ⟨more, _, hmore, rfl⟩⟩

/-- The results of the one object have no key in common with those of the other. -/
theorem results_apart (h : FieldsApart env fields others v w)
    (hfound : (fieldsOnFork env mode depth c v fields).runIn w = (.ok found, w₁))
    (hmore : (fieldsOnFork env mode depth c v others).runIn w₁ = (.ok more, w')) :
    (resultsOf found).Apart (resultsOf more) ∧ (resultsOf more).Distinct := by
  have hkeys := keys_resultsOf_sublist found
  have hkeys' := keys_resultsOf_sublist more
  rw [keys_of_fieldsOnFork hfound] at hkeys
  rw [keys_of_fieldsOnFork hmore] at hkeys'
  exact ⟨h.apart.of_sublist hkeys hkeys', h.others_distinct.of_sublist hkeys'⟩

section Both

variable {a b : Finding}
  (hfirst : Finds env mode (depth + 1) (.object fields .strip) v c.fork w a w₁)
  (hsecond : Finds env mode (depth + 1) (.object others .strip) v c.fork w₁ b w')

include hfirst hsecond

/-- The intersection combines what its members have found. -/
theorem runIn_both :
    (check env mode (depth + 2) (both fields others) v).runIn c w =
      (combine env (depth + 1) (passedOf [a, b]) (groupsOf [a, b])).runIn
        ((c.noting a.awaiting).noting b.awaiting) w' := by
  have hmembers : (tryMembers (check env mode (depth + 1)) v
      [.object fields .strip, .object others .strip]).runIn c w =
        (.ok (passedOf [a, b], groupsOf [a, b]), (c.noting a.awaiting).noting b.awaiting, w') :=
    runIn_tryMembers_cons hfirst (runIn_tryMembers_cons hsecond runIn_tryMembers_nil)
  exact Engine.runIn_bind_of_ok _ hmembers

/-- Both members give the marker of a failed check exactly if they have errors. -/
theorem members_invalid_iff
    (hfree : ∀ g, Call.Reaches env mode ⟨depth + 2, both fields others, v, c, w⟩ g →
      g.MarkerFree env) :
    (a.result = .invalid ↔ a.errors ≠ []) ∧ (b.result = .invalid ↔ b.errors ≠ []) := by
  have hmakes : Call.Makes env mode ⟨depth + 2, both fields others, v, c, w⟩
      ⟨depth + 1, .object fields .strip, v, c.fork, w⟩ := .member (List.nil_append _).symm rfl
  have hmakes' : Call.Makes env mode ⟨depth + 2, both fields others, v, c, w⟩
      ⟨depth + 1, .object others .strip, v, (c.noting a.awaiting).fork, w₁⟩ :=
    .member (List.singleton_append ..).symm (runIn_tryMembers_cons hfirst runIn_tryMembers_nil)
  exact ⟨hfirst.invalid_iff fun g hg => hfree g (.head hmakes hg),
    hsecond.invalid_iff fun g hg => hfree g (.head hmakes' hg)⟩

/-- If neither member has errors, their mappings are put one behind the other. -/
theorem runIn_both_of_clean {es fs : Entries Value} (hclean : a.errors = [] ∧ b.errors = [])
    (hresult : a.result = .mapping false es) (hresult' : b.result = .mapping false fs)
    (hapart : es.Apart fs) (hdistinct : fs.Distinct) :
    (check env mode (depth + 2) (both fields others) v).runIn c w =
      (.ok (.mapping false (es ++ fs)), (c.noting a.awaiting).noting b.awaiting, w') := by
  have hmerge := mergeValues_of_apart w'.store depth [] hapart hdistinct
  have hpassed : passedOf [a, b] = [a.result, b.result] := by
    rw [passedOf_cons_clean hclean.1, passedOf_cons_clean hclean.2]
    rfl
  have hgroups : groupsOf [a, b] = [] := by
    rw [groupsOf_cons_clean hclean.1, groupsOf_cons_clean hclean.2]
    rfl
  rw [runIn_both hfirst hsecond, hpassed, hgroups, runIn_combine, mergeAll_cons, hresult, hresult',
    hmerge]
  rfl

/-- If one of them has errors, there is one error, with their errors in groups. -/
theorem runIn_both_of_failed (hwords : env.IntersectionsWorded)
    (hfailed : a.errors ++ b.errors ≠ []) :
    ∃ message groups, groups.flatten = a.errors ++ b.errors ∧
      (check env mode (depth + 2) (both fields others) v).runIn c w =
        (.ok .invalid, ((c.noting a.awaiting).noting b.awaiting).addError
          (membersError c.path message groups), w') := by
  have hflat : (groupsOf [a, b]).flatten = a.errors ++ b.errors := by
    rw [flatten_groupsOf]
    simp
  have hgroups : groupsOf [a, b] ≠ [] := by
    intro hnone
    rw [hnone] at hflat
    exact hfailed hflat.symm
  obtain ⟨message, hmessage⟩ := runIn_combine_of_groups hwords (depth + 1) (passedOf [a, b])
    hgroups ((c.noting a.awaiting).noting b.awaiting) w'
  exact ⟨message, groupsOf [a, b], hflat, (runIn_both hfirst hsecond).trans hmessage⟩

end Both

/-- What the intersection finds: what is found in the object with all fields, if that has
no errors, and else one error, in which they are groups. -/
theorem finds_both (h : FieldsApart env fields others v w) (hfresh : c.hasVisited v = false)
    (hwords : env.IntersectionsWorded)
    (hfree : ∀ g, Call.Reaches env mode ⟨depth + 2, both fields others, v, c, w⟩ g →
      g.MarkerFree env)
    (hfinds : Finds env mode (depth + 1) (whole fields others) v c w f w') :
    (f.errors = [] → Finds env mode (depth + 2) (both fields others) v c w f w') ∧
      (f.errors ≠ [] → f.result = .invalid ∧ ∃ message groups, groups.flatten = f.errors ∧
        Finds env mode (depth + 2) (both fields others) v c w
          ⟨.invalid, [membersError c.path message groups], f.awaiting⟩ w') := by
  obtain ⟨found, w₁, more, hfound, hmore, hresult, hadded⟩ := h.exists_of_whole hfresh hfinds
  obtain ⟨hfirst, hsecond⟩ := h.finds_members hfresh hfound hmore
  obtain ⟨hinvalid, hinvalid'⟩ := members_invalid_iff hfirst hsecond hfree
  set a := objectFinding found with ha
  set b := objectFinding more with hb
  have herrors : f.errors = a.errors ++ b.errors := by
    simpa [Context.adding, objectFinding, ha, hb] using congrArg Context.errors hadded
  have hawaiting : (c.noting a.awaiting).noting b.awaiting =
      c.adding [⟨.invalid, [], f.awaiting⟩] := by
    have hsame : (c.awaiting || f.awaiting) = (c.awaiting || (a.awaiting || b.awaiting)) := by
      simpa [Context.adding, objectFinding, ha, hb] using congrArg Context.awaiting hadded
    simp [Context.adding, Context.noting, hsame, Bool.or_assoc]
  constructor
  · intro hclean
    have hboth := List.append_eq_nil_iff.mp (herrors.symm.trans hclean)
    have hvalue : objectOf found ≠ .invalid := fun hr => hinvalid.mp hr hboth.1
    have hvalue' : objectOf more ≠ .invalid := fun hr => hinvalid'.mp hr hboth.2
    obtain ⟨hapart, hdistinct⟩ := h.results_apart hfound hmore
    have hrun := runIn_both_of_clean hfirst hsecond hboth (objectOf_eq_mapping hvalue)
      (objectOf_eq_mapping hvalue') hapart hdistinct
    have hadding : c.adding [⟨.invalid, [], f.awaiting⟩] = c.adding [f] := by
      simp [Context.adding, hclean]
    rw [Finds, hrun, hresult, objectOf_append hvalue hvalue', hawaiting, hadding]
  · intro hsome
    refine ⟨?_, ?_⟩
    · rw [herrors, Ne, List.append_eq_nil_iff, not_and_or] at hsome
      rw [hresult, objectOf_eq_invalid_iff, List.any_append, Bool.or_eq_true]
      exact hsome.imp (fun hA => objectOf_eq_invalid_iff.mp (hinvalid.mpr hA))
        fun hB => objectOf_eq_invalid_iff.mp (hinvalid'.mpr hB)
    · obtain ⟨message, groups, hflat, hrun⟩ :=
        runIn_both_of_failed hfirst hsecond hwords (herrors ▸ hsome)
      refine ⟨message, groups, hflat.trans herrors.symm, ?_⟩
      rw [Finds, hrun, hawaiting]
      simp [Context.adding, Context.addError]

/-- What the intersection finds on a fresh context comes from what is found in the object
with all fields. -/
theorem regrouped (h : FieldsApart env fields others v w) (hwords : env.IntersectionsWorded)
    (hfree : ∀ g, Call.Reaches env mode ⟨depth + 2, both fields others, v, {}, w⟩ g →
      g.MarkerFree env)
    (hfinds : Finds env mode (depth + 2) (both fields others) v {} w f w') :
    ∃ g, Finds env mode (depth + 1) (whole fields others) v {} w g w' ∧
      (g.errors = [] ∧ f = g ∨ g.errors ≠ [] ∧ ∃ message groups, groups.flatten = g.errors ∧
        f = ⟨.invalid, [membersError [] message groups], g.awaiting⟩) := by
  have hfresh := Context.hasVisited_at [] v
  obtain ⟨g, hg⟩ := h.exists_whole hfresh hfinds
  obtain ⟨hclean, hfailed⟩ := h.finds_both hfresh hwords hfree hg
  refine ⟨g, hg, ?_⟩
  by_cases hnone : g.errors = []
  · exact .inl ⟨hnone, (hfinds.unique (hclean hnone)).1⟩
  · obtain ⟨-, message, groups, hflat, hboth⟩ := hfailed hnone
    exact .inr ⟨hnone, message, groups, hflat, (hfinds.unique hboth).1⟩

theorem andAlso_eq (st : Store) (fields others : Entries Schema) :
    Schema.andAlso st (.object fields .strip) (.schema (.object others .strip)) =
      .ok (both fields others) := rfl

theorem merge_eq (h : FieldsApart env fields others v w) (st : Store) :
    Schema.merge st (.object fields .strip) (.schema (.object others .strip)) =
      .ok (whole fields others) := by
  rw [Schema.merge, Entries.putAll_of_apart h.apart h.others_distinct]
  rfl

end FieldsApart

open FieldsApart Validate in
/-- **Two objects with no field in common are checked alike by their intersection and by
the object with the fields of both.** Both drop what they do not declare. On every context
in which the mapping is not being looked into, both end by a value or neither does. If the
object with all fields finds no error, the intersection finds the same, with the keys of
the result in the same order; else it has one error at its place, whose groups are the
errors of that object, in order. So, if there are no rules for whole values, they accept
the same ones, as the same, and refuse the others with the same errors, grouped, as far as
these can be written: the error of the intersection stands at the root, theirs below it.

The mapping may hold itself, and the host may change its entries. The marker of a failed check
is nothing that a step makes. -/
theorem intersection_of_disjoint_objects {σ : Type} (env : Setting σ) (mode : Mode) (depth : Nat)
    {fields others : Entries Schema} {v : Value} {w : World σ}
    (h : FieldsApart env fields others v w) (hwords : env.IntersectionsWorded)
    (hfree : ∀ c g, Call.Reaches env mode ⟨depth + 2, both fields others, v, c, w⟩ g →
      g.MarkerFree env) (st : Store) :
    Schema.andAlso st (.object fields .strip) (.schema (.object others .strip)) =
        .ok (both fields others) ∧
      Schema.merge st (.object fields .strip) (.schema (.object others .strip)) =
        .ok (whole fields others) ∧
      (∀ c, c.hasVisited v = false →
        (∀ f w', Finds env mode (depth + 1) (whole fields others) v c w f w' →
          (f.errors = [] → Finds env mode (depth + 2) (both fields others) v c w f w') ∧
          (f.errors ≠ [] → f.result = .invalid ∧ ∃ message groups, groups.flatten = f.errors ∧
            Finds env mode (depth + 2) (both fields others) v c w
              ⟨.invalid, [membersError c.path message groups], f.awaiting⟩ w')) ∧
        (∀ f w', Finds env mode (depth + 2) (both fields others) v c w f w' →
          ∃ g, Finds env mode (depth + 1) (whole fields others) v c w g w')) ∧
      (env.rules = [] →
        (∀ u, Gives env mode (depth + 2) (both fields others) v w (.accepted u) ↔
          Gives env mode (depth + 1) (whole fields others) v w (.accepted u)) ∧
        (∀ es, Gives env mode (depth + 1) (whole fields others) v w (.refused es) →
          ∃ message groups, groups.flatten = es ∧
            Gives env mode (depth + 2) (both fields others) v w
              (.refused [membersError [] message groups])) ∧
        (∀ es, Gives env mode (depth + 2) (both fields others) v w (.refused es) →
          ∃ message groups, es = [membersError [] message groups] ∧
            (ErrorRecord.areWritable groups.flatten = true →
              Gives env mode (depth + 1) (whole fields others) v w
                (.refused groups.flatten)))) := by
  have hfinds := fun c (hfresh : c.hasVisited v = false) f w'
      (hf : Finds env mode (depth + 1) (whole fields others) v c w f w') =>
    h.finds_both hfresh hwords (hfree c) hf
  refine ⟨andAlso_eq st fields others, h.merge_eq st, fun c hfresh =>
    ⟨hfinds c hfresh, fun f w' => h.exists_whole hfresh⟩, fun hrules => ?_⟩
  simp only [gives_iff_finds hrules]
  refine ⟨fun u => ⟨?_, ?_⟩, ?_, ?_⟩
  · rintro ⟨f, w', hf, hawaiting, ho⟩
    obtain ⟨g, hg, ⟨-, rfl⟩ | ⟨-, message, groups, -, rfl⟩⟩ := h.regrouped hwords (hfree {}) hf
    · exact ⟨f, w', hg, hawaiting, ho⟩
    · cases ho
  · rintro ⟨g, w', hg, hawaiting, ho⟩
    have hclean := (finish_eq_accepted_iff.mp ho).1
    exact ⟨g, w', (hfinds {} (Context.hasVisited_at [] v) g w' hg).1 hclean, hawaiting, ho⟩
  · rintro es ⟨g, w', hg, hawaiting, ho⟩
    obtain ⟨hsome, -, rfl⟩ := finish_eq_refused_iff.mp ho
    obtain ⟨-, message, groups, hflat, hboth⟩ :=
      (hfinds {} (Context.hasVisited_at [] v) g w' hg).2 hsome
    exact ⟨message, groups, hflat, _, w', hboth, hawaiting, rfl⟩
  · rintro es ⟨f, w', hf, hawaiting, ho⟩
    obtain ⟨hfailed, -, rfl⟩ := finish_eq_refused_iff.mp ho
    obtain ⟨g, hg, ⟨hnone, rfl⟩ | ⟨hsome, message, groups, hflat, rfl⟩⟩ :=
      h.regrouped hwords (hfree {}) hf
    · exact absurd hnone hfailed
    · refine ⟨message, groups, rfl, fun hwritable => ⟨g, w', hg, hawaiting, ?_⟩⟩
      exact finish_eq_refused_iff.mpr ⟨hsome, hflat ▸ hwritable, hflat⟩

/-- A mapping that holds itself, with a number for a name. -/
def namedSelf : World Unit where
  store := ⟨#[.mapping false [(.text "name", .int 7), (.text "self", .shared 0 false)]]⟩
  host := ()

/-- One object has something against the name, the other one against the mapping in
itself, and the object with the fields of both has both. -/
theorem intersection_of_disjoint_objects_namedSelf :
    ∃ es message groups,
      Validate.Gives idleHost .immediate 3
        (FieldsApart.whole [(.text "name", .string {})] [(.text "self", .object [] .strip)])
        (.shared 0 false) namedSelf (.refused es) ∧
      es.map (fun e => (e.path, e.code)) =
        [([.text "name"], .builtin .invalidType),
          ([.text "self"], .builtin .circularReference)] ∧
      groups.flatten = es ∧
      Validate.Gives idleHost .immediate 4
        (FieldsApart.both [(.text "name", .string {})] [(.text "self", .object [] .strip)])
        (.shared 0 false) namedSelf (.refused [membersError [] message groups]) := by
  have hapart : FieldsApart idleHost [(.text "name", .string {})]
      [(.text "self", .object [] .strip)] (.shared 0 false) namedSelf := by
    refine ⟨by decide, by decide, by decide, fun w₁ hafter => ?_⟩
    exact hafter (fun w => (w.store.entries? (.shared 0 false)).isNone = false) (keeps_idleHost _)
      rfl
  have hwords : idleHost.IntersectionsWorded := fun st groups => ⟨_, rfl⟩
  have hfree : ∀ c g, Call.Reaches idleHost .immediate ⟨4, FieldsApart.both
      [(.text "name", .string {})] [(.text "self", .object [] .strip)], .shared 0 false, c,
      namedSelf⟩ g → g.MarkerFree idleHost := by
    intro c g hg
    have hmem : g.schema ∈ [FieldsApart.both [(.text "name", .string {})]
        [(.text "self", .object [] .strip)], .object [(.text "name", .string {})] .strip,
        .object [(.text "self", .object [] .strip)] .strip, .string {}, .object [] .strip] := by
      refine Call.schema_of_reaches_idle rfl (fun s t hs hpart => ?_) List.mem_cons_self hg
      simp only [List.mem_cons, List.not_mem_nil, or_false] at hs
      rcases hs with rfl | rfl | rfl | rfl | rfl <;> rcases hpart with hpart | hpart <;>
        cases hpart <;> simp_all
      tauto
    unfold Call.MarkerFree
    simp only [List.mem_cons, List.not_mem_nil, or_false] at hmem
    rcases hmem with h | h | h | h | h <;> rw [h] <;> trivial
  obtain ⟨-, -, -, hgives⟩ := intersection_of_disjoint_objects idleHost .immediate 2 hapart hwords
    hfree {}
  obtain ⟨message, groups, hflat, hboth⟩ := (hgives rfl).2.1 _ ⟨.parse, _, rfl⟩
  exact ⟨_, message, groups, ⟨.parse, _, rfl⟩, rfl, hflat, hboth⟩

/-- The error of a field that has a number for a text. -/
def numberForText (k : Key) : ErrorRecord :=
  ⟨[k], some "Expected string", .builtin .invalidType,
    some (Details.ofValues [("expected", .text "string"), ("received", .text "number")])⟩

/-- The object with that field has that error. -/
theorem finds_numberForText (k : Key) :
    Finds idleHost .immediate 2 (.object [(k, .string {})] .strip) (.mapping false [(k, .int 1)])
      {} { host := () } ⟨.invalid, [numberForText k], false⟩ { host := () } := by
  have hfind : (Store.entriesOf {} (.mapping false [(k, .int 1)])).find? k = some (.int 1) :=
    Entries.find?_of_mem (List.pairwise_singleton ..) List.mem_cons_self
  have hfield : (fieldOnFork idleHost .immediate 1 (Context.mark {} (.mapping false [(k, .int 1)]))
      (.mapping false [(k, .int 1)]) k (.string {})).runIn { host := () } =
        (.ok ⟨.invalid, [numberForText k], false⟩, { host := () }) := by
    rw [fieldOnFork, Act.runIn_bind, Act.runIn_store]
    simp only [hfind]
    rfl
  have hfields : (fieldsOnFork idleHost .immediate 1
      (Context.mark {} (.mapping false [(k, .int 1)])) (.mapping false [(k, .int 1)])
      [(k, .string {})]).runIn { host := () } =
        (.ok [(k, ⟨.invalid, [numberForText k], false⟩)], { host := () }) := by
    rw [fieldsOnFork, Act.runIn_bind, hfield]
    rfl
  exact finds_object_strip rfl (Context.hasVisited_at [] _) hfields

/-- The intersection of that object with one without fields refuses, whatever the key is. -/
theorem exists_refused_both (k : Key) :
    ∃ es, Validate.Gives idleHost .immediate 3 (FieldsApart.both [(k, .string {})] [])
      (.mapping false [(k, .int 1)]) { host := () } (.refused es) := by
  have hsecond : Finds idleHost .immediate 2 (.object [] .strip) (.mapping false [(k, .int 1)]) {}
      { host := () } (objectFinding []) { host := () } :=
    finds_object_strip rfl (Context.hasVisited_at [] _) rfl
  have hwords : idleHost.IntersectionsWorded := fun st groups => ⟨_, rfl⟩
  have hfailed : [numberForText k] ++ (objectFinding []).errors ≠ [] := List.cons_ne_nil _ _
  obtain ⟨message, groups, -, hrun⟩ := FieldsApart.runIn_both_of_failed (c := {})
    (finds_numberForText k) hsecond hwords hfailed
  exact ⟨_, Validate.gives_iff.mpr ⟨_, _, _,
    (Validate.runIn_checkWhole_of_no_rules rfl _ _).trans hrun, fun _ => rfl, rfl⟩⟩

/-- The object with the fields of both does not, if the key cannot be written. -/
theorem not_gives_whole {k : Key} (hlong : k.isWritable = false) (o : Outcome) :
    ¬ Validate.Gives idleHost .immediate 2 (FieldsApart.whole [(k, .string {})] [])
      (.mapping false [(k, .int 1)]) { host := () } o := by
  intro ho
  obtain ⟨f, w', hf, -, hfinish⟩ := (Validate.gives_iff_finds rfl).mp ho
  obtain ⟨rfl, -⟩ := hf.unique (finds_numberForText k)
  have hunwritten : ErrorRecord.areWritable [numberForText k] = false := by
    simp [ErrorRecord.areWritable, numberForText, Key.allWritable, hlong]
  rw [Validate.finish_eq_error_iff.mpr ⟨List.cons_ne_nil _ _, hunwritten, rfl⟩] at hfinish
  cases hfinish

/-- The two ways are told apart by a step that gives the marker of a failed check, which
the object with all fields passes on without an error and which cannot be merged, and by a
template that fails to give words for the error that only the intersection has. They are told
apart by a key of too many digits, too: it is written only where its error stands by itself. -/
theorem disjoint_objects_told_apart :
    ((∃ u, Validate.Gives markingHost .immediate 3
        (FieldsApart.whole [(.text "a", .any)] [(.text "b", .transform .any (.callback 0))])
        (.mapping false [(.text "a", .int 1), (.text "b", .int 2)]) { host := () }
        (.accepted u)) ∧
      ∀ u, ¬ Validate.Gives markingHost .immediate 4
        (FieldsApart.both [(.text "a", .any)] [(.text "b", .transform .any (.callback 0))])
        (.mapping false [(.text "a", .int 1), (.text "b", .int 2)]) { host := () }
        (.accepted u)) ∧
    ((∃ es, Validate.Gives (mutedHost "intersection.invalid") .immediate 3
        (FieldsApart.whole [(.text "a", .string {})] [(.text "b", .boolean)])
        (.mapping false [(.text "a", .int 1), (.text "b", .int 2)]) { host := () }
        (.refused es)) ∧
      ∀ o, ¬ Validate.Gives (mutedHost "intersection.invalid") .immediate 4
        (FieldsApart.both [(.text "a", .string {})] [(.text "b", .boolean)])
        (.mapping false [(.text "a", .int 1), (.text "b", .int 2)]) { host := () } o) ∧
    (∃ es, Validate.Gives idleHost .immediate 3
        (FieldsApart.both [(.atom (.int (10 ^ 5000)), .string {})] [])
        (.mapping false [(.atom (.int (10 ^ 5000)), .int 1)]) { host := () } (.refused es)) ∧
      ∀ o, ¬ Validate.Gives idleHost .immediate 2
        (FieldsApart.whole [(.atom (.int (10 ^ 5000)), .string {})] [])
        (.mapping false [(.atom (.int (10 ^ 5000)), .int 1)]) { host := () } o := by
  refine ⟨⟨⟨_, .parse, _, rfl⟩, ?_⟩, ⟨⟨_, .parse, _, rfl⟩, ?_⟩, ?_, ?_⟩
  · rintro u ⟨entry, w', h⟩
    cases h
  · rintro o ⟨entry, w', h⟩
    cases h
  · exact exists_refused_both _
  · exact not_gives_whole (by decide +kernel)

end Conform
