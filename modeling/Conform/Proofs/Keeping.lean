import Conform.Proofs.Provenance

/-!
# Errors that stay

What a call finds is not lost when it ends. On the same context its errors stay
where they are, and the errors of a fork are given as failures in an error of the
call that attempted it. Only a union drops them, when one of its options left no
error.

And no part of a call is left out because another one failed: every field, element
and member is checked, and every option until one leaves no error.

## Main results

* `Call.ends_of_makes` — a call ends by a value only if the calls it makes do, and
  keeps their errors.
* `Call.held_of_reaches` — so does a whole run.
* `Call.seesTo_of_part` — every part of a call is seen to.
-/

namespace Conform

open Traverse

namespace Traverse

variable {σ : Type} {env : Setting σ} {accepts : MissingTest σ} {child : Checker σ}
  {c c' : Context} {w w' : World σ}

/-! ## One turn of a loop -/

theorem exists_of_checkFields {v : Value} {earlier later : Entries Schema} {k : Key}
    {field : Schema} {done : Entries Value × Bool}
    (h : (checkFields env accepts child v (earlier ++ (k, field) :: later)).runIn c w =
      (.ok done, c', w')) :
    ∃ before c₁ w₁ out c₂ w₂ after,
      (checkFields env accepts child v earlier).runIn c w = (.ok before, c₁, w₁) ∧
      (checkField env accepts child v k field).runIn c₁ w₁ = (.ok out, c₂, w₂) ∧
      (checkFields env accepts child v later).runIn c₂ w₂ = (.ok after, c', w') := by
  rw [checkFields_append] at h
  obtain ⟨before, c₁, w₁, hbefore, h⟩ := Engine.runIn_bind_ok_iff.mp h
  obtain ⟨rest, c₃, w₃, hrest, h⟩ := Engine.runIn_bind_ok_iff.mp h
  cases h
  obtain ⟨out, c₂, w₂, hout, hrest⟩ := Engine.runIn_bind_ok_iff.mp hrest
  obtain ⟨after, c₃, w₃, hafter, hrest⟩ := Engine.runIn_bind_ok_iff.mp hrest
  cases hrest
  exact ⟨before, c₁, w₁, out, c₂, w₂, after, hbefore, hout, hafter⟩

/-- Turns that come before others end by a value too. -/
theorem exists_of_earlierItems {one : Value → Engine σ Value} {v : Value} {i n : Nat}
    {done : List Value × Bool} (hlt : i ≤ n)
    (h : (firstItems one v n).runIn c w = (.ok done, c', w')) :
    ∃ before c₁ w₁, (firstItems one v i).runIn c w = (.ok before, c₁, w₁) := by
  obtain ⟨more, rfl⟩ := Nat.exists_eq_add_of_le hlt
  rcases hearlier : (firstItems one v i).runIn c w with ⟨f | before, c₁, w₁⟩
  · cases (runIn_firstItems_of_error hearlier more).symm.trans h
  · exact ⟨before, c₁, w₁, rfl⟩

/-- An item that is there when its turn comes is checked. -/
theorem exists_of_firstItems {one : Value → Engine σ Value} {v u : Value} {i n : Nat}
    {before done : List Value × Bool} {c₁ : Context} {w₁ : World σ} (hlt : i < n)
    (hearlier : (firstItems one v i).runIn c w = (.ok before, c₁, w₁))
    (hitem : (w₁.store.itemsOf v)[i]? = some u)
    (h : (firstItems one v n).runIn c w = (.ok done, c', w')) :
    ∃ r d w₂, (one u).runIn (c₁.push (.index i)) w₁ = (.ok r, d, w₂) ∧
      (firstItems one v (i + 1)).runIn c w = (.ok (joinResult before r), d.pop, w₂) := by
  obtain ⟨next, c₂, w₂, hnext⟩ := exists_of_earlierItems hlt h
  have hturn : (nextItem one v before i).runIn c₁ w₁ = (.ok next, c₂, w₂) := by
    rw [← hnext, firstItems, Engine.runIn_bind_of_ok _ hearlier]
  rcases cases_of_runIn_nextItem hturn with ⟨hended, -⟩ | ⟨u', r, d, hitem', hone, rfl, rfl⟩
  · cases hended.symm.trans hitem
  · cases hitem'.symm.trans hitem
    exact ⟨r, d, w₂, hone, hnext⟩

/-- The errors of a member that failed are among those given. -/
theorem exists_of_tryMembers {v : Value} {earlier later : List Schema} {member : Schema}
    {done : List Value × List (List ErrorRecord)}
    (h : (tryMembers child v (earlier ++ member :: later)).runIn c w = (.ok done, c', w')) :
    ∃ before c₁ w₁ r es c₂ w₂ after,
      (tryMembers child v earlier).runIn c w = (.ok before, c₁, w₁) ∧
      (Engine.speculate (child member v)).runIn c₁ w₁ = (.ok (r, es), c₂, w₂) ∧
      (tryMembers child v later).runIn c₂ w₂ = (.ok after, c', w') ∧
      (es ≠ [] → es ∈ done.2) := by
  rw [tryMembers_append] at h
  obtain ⟨before, c₁, w₁, hbefore, h⟩ := Engine.runIn_bind_ok_iff.mp h
  obtain ⟨rest, c₃, w₃, hrest, h⟩ := Engine.runIn_bind_ok_iff.mp h
  cases h
  obtain ⟨⟨r, es⟩, c₂, w₂, hattempt, hrest⟩ := Engine.runIn_bind_ok_iff.mp hrest
  obtain ⟨after, c₃, w₃, hafter, hrest⟩ := Engine.runIn_bind_ok_iff.mp hrest
  cases es with
  | nil =>
      cases hrest
      exact ⟨before, c₁, w₁, r, [], c₂, w₂, after, hbefore, hattempt, hafter,
        fun hes => (hes rfl).elim⟩
  | cons e es =>
      cases hrest
      exact ⟨before, c₁, w₁, r, e :: es, c₂, w₂, after, hbefore, hattempt, hafter, fun _ => by simp⟩

end Traverse

/-! ## Errors that are held -/

/-- Every one of some error records is held by one of others. -/
def HeldBy (xs es : List ErrorRecord) : Prop := ∀ x ∈ xs, ∃ e ∈ es, e.Holds x

namespace HeldBy

variable {xs es fs : List ErrorRecord}

theorem of_subset (h : xs ⊆ es) : HeldBy xs es := fun x hx => ⟨x, h hx, .refl⟩

theorem trans (h : HeldBy xs es) (h' : HeldBy es fs) : HeldBy xs fs := by
  intro x hx
  obtain ⟨e, he, hex⟩ := h x hx
  obtain ⟨f, hf, hfe⟩ := h' e he
  exact ⟨f, hf, hfe.trans hex⟩

end HeldBy

/-- The failures that an error gives are held by it. -/
theorem heldBy_of_refuse {σ : Type} {env : Setting σ} {x : Violation} {name : String}
    {groups : List (List ErrorRecord)} {g : List ErrorRecord} {r : Value} {c c' : Context}
    {w w' : World σ} (hg : g ∈ groups)
    (h : (Engine.refuse env { x with details := failuresDetail name groups }).runIn c w =
      (.ok r, c', w')) : HeldBy g c'.errors := by
  obtain ⟨-, message, rfl, -⟩ := Engine.eq_addError_of_runIn_refuse h
  intro y hy
  refine ⟨_, List.mem_append_right _ (List.mem_singleton_self _), .single ?_⟩
  exact ErrorRecord.gives_failuresDetail_iff.mpr ⟨g, hg, hy⟩

namespace Call

variable {σ : Type} {env : Setting σ} {mode : Mode} {f g : Call σ} {r : Value} {c' : Context}
  {w' : World σ}

/-- A union finds an option that leaves no error. -/
def Drops (env : Setting σ) (mode : Mode) (f : Call σ) : Prop :=
  ∃ first rest, f.schema = .union first rest ∧
    ∃ g r d w', Makes env mode f g ∧ g.run env mode = (.ok r, d, w') ∧ d.errors = []

/-- A call that another one makes ends by a value. Its errors are held by those at the
end of the other, unless this is a union that drops them. -/
def Keeps (env : Setting σ) (mode : Mode) (f : Call σ) (c' : Context) (g : Call σ) : Prop :=
  ∃ r d w₁, g.run env mode = (.ok r, d, w₁) ∧ (HeldBy d.errors c'.errors ∨ f.Drops env mode)

/-- A call that another one makes ends by a value and is kept, in a world that the end of
the other comes after. -/
def Ends (env : Setting σ) (mode : Mode) (f : Call σ) (c' : Context) (w' : World σ)
    (g : Call σ) : Prop :=
  ∃ r d w₁, g.run env mode = (.ok r, d, w₁) ∧ env.After w₁ w' ∧
    (HeldBy d.errors c'.errors ∨ f.Drops env mode)

section Layer

variable {depth : Nat} {v : Value} {c c₁ : Context} {w w₁ : World σ}

/-- An object call that looks into its value checks its fields and only adds
errors. -/
theorem exists_of_run_object {fields : Entries Schema} {unknown : UnknownKeys}
    (hobject : (w.store.entries? v).isNone = false) (hfresh : c.hasVisited v = false)
    (h : (Call.mk (depth + 1) (.object fields unknown) v c w).run env mode = (.ok r, c', w')) :
    ∃ done c₁ w₁, (checkFields env (env.acceptsMissing depth) (check env mode depth) v
        fields).runIn (c.mark v) w = (.ok done, c₁, w₁) ∧ c₁.errors ⊆ c'.errors ∧
      env.After w₁ w' := by
  rcases cases_of_runIn_checkObject h with ⟨hnone, -⟩ | ⟨-, hvisited, -⟩ |
    ⟨-, -, done, c₁, w₁, hfields, hfinish⟩
  · cases hobject.symm.trans hnone
  · cases hfresh.symm.trans hvisited
  · have hback := Carry.of_finishObject (Carry.restoring_settings env mode) hfinish
    have hafter : env.After w₁ w' :=
      Carry.after mode fun _ hset => Carry.of_finishObject hset hfinish
    exact ⟨done, c₁, w₁, hfields, by simpa using hback.errors.subset, hafter⟩

/-- An array call that looks into its value checks its elements and only adds
errors. -/
theorem exists_of_run_array {element : Schema} {bounds : ArrayBounds}
    (harray : (w.store.items? v).isNone = false) (hfresh : c.hasVisited v = false)
    (h : (Call.mk (depth + 1) (.array element bounds) v c w).run env mode = (.ok r, c', w')) :
    ∃ done c₁ w₁, (firstItems (check env mode depth element) v
        ((w.store.itemsOf v).length + depth)).runIn (c.mark v) w = (.ok done, c₁, w₁) ∧
      c₁.errors ⊆ c'.errors ∧ env.After w₁ w' := by
  rcases cases_of_runIn_checkArray h with ⟨hnone, -⟩ | ⟨-, hvisited, -⟩ |
    ⟨-, -, done, c₁, w₁, hitems, -, hfinish⟩
  · cases harray.symm.trans hnone
  · cases hfresh.symm.trans hvisited
  · have hback := Carry.of_finishArray (Carry.restoring_settings env mode) hfinish
    have hafter : env.After w₁ w' :=
      Carry.after mode fun _ hset => Carry.of_finishArray hset hfinish
    exact ⟨done, c₁, w₁, hitems, by simpa using hback.errors.subset, hafter⟩

/-- A field is checked as it was handed its value. -/
theorem exists_of_checkField {k : Key} {field : Schema} {u : Value} {w₂ : World σ}
    {out : Option Value × Bool}
    (hhanded : Handed (env.acceptsMissing depth) v k field w u w₂)
    (h : (checkField env (env.acceptsMissing depth) (check env mode depth) v k field).runIn
      c w = (.ok out, c', w')) :
    ∃ r d, (Call.mk depth field u (c.push k) w₂).run env mode = (.ok r, d, w') ∧ c' = d.pop := by
  rcases cases_of_runIn_checkField h with
    ⟨u', w₃, r, d, hhanded', hrun, rfl, -⟩ | ⟨w₃, d, habsent, hrefused, -⟩
  · obtain ⟨rfl, rfl⟩ := hhanded.unique hhanded'
    exact ⟨r, d, hrun, rfl⟩
  · cases (hhanded.accepted_of_absent habsent).symm.trans hrefused

/-- A union that comes to an option that leaves no error drops those of the others. -/
theorem drops_of_speculate {first option : Schema} {rest earlier later : List Schema}
    {failed : List (List ErrorRecord)} {result : Value} {errors : List ErrorRecord} {c₂ : Context}
    {w₂ : World σ} (hall : first :: rest = earlier ++ option :: later)
    (hearlier : (tryMembers (check env mode depth) v earlier).runIn c w =
      (.ok ([], failed), c₁, w₁))
    (hattempt : (Engine.speculate (check env mode depth option v)).runIn c₁ w₁ =
      (.ok (result, errors), c₂, w₂)) (hempty : errors.isEmpty) :
    (Call.mk (depth + 1) (.union first rest) v c w).Drops env mode := by
  obtain ⟨fork, hfork, rfl, -⟩ := Engine.runIn_speculate_ok_iff.mp hattempt
  exact ⟨first, rest, rfl, ⟨depth, option, v, c₁.fork, w₁⟩, result, fork, w₂,
    .option hall hearlier, hfork, List.isEmpty_iff.mp hempty⟩

/-- The errors of options that failed are kept, unless a later one leaves no
error. -/
theorem kept_of_tryOptions {first : Schema} {rest options earlier : List Schema}
    {failed groups : List (List ErrorRecord)} {g : List ErrorRecord}
    (hall : first :: rest = earlier ++ options)
    (hearlier : (tryMembers (check env mode depth) v earlier).runIn c w =
      (.ok ([], failed), c₁, w₁))
    (h : (tryOptions env (check env mode depth) v groups options).runIn c₁ w₁ =
      (.ok r, c', w')) (hg : g ∈ groups) :
    HeldBy g c'.errors ∨ (Call.mk (depth + 1) (.union first rest) v c w).Drops env mode := by
  induction options generalizing earlier c₁ w₁ failed groups with
  | nil => exact .inl (heldBy_of_refuse (x := optionsFailed) hg h)
  | cons option options ih =>
      obtain ⟨⟨result, errors⟩, c₂, w₂, hattempt, hrest⟩ := Engine.runIn_bind_ok_iff.mp h
      by_cases hempty : errors.isEmpty
      · exact .inr (drops_of_speculate hall hearlier hattempt hempty)
      · simp only [hempty, Bool.false_eq_true, if_false] at hrest
        refine ih (by simpa using hall) (runIn_tryMembers_failed hearlier hattempt ?_) hrest
          (List.mem_append_left _ hg)
        simpa using hempty

/-- Options are tried up to any place, unless one before it leaves no error. -/
theorem tried_of_tryOptions {first : Schema} {rest earlier options later : List Schema}
    {failed groups : List (List ErrorRecord)}
    (hearlier : (tryMembers (check env mode depth) v earlier).runIn c w =
      (.ok ([], failed), c₁, w₁))
    (hall : first :: rest = earlier ++ (options ++ later))
    (h : (tryOptions env (check env mode depth) v groups (options ++ later)).runIn c₁ w₁ =
      (.ok r, c', w')) :
    (∃ failed c₂ w₂, (tryMembers (check env mode depth) v (earlier ++ options)).runIn c w =
        (.ok ([], failed), c₂, w₂)) ∨
      (Call.mk (depth + 1) (.union first rest) v c w).Drops env mode := by
  induction options generalizing earlier c₁ w₁ failed groups with
  | nil => exact .inl ⟨failed, c₁, w₁, by rwa [List.append_nil]⟩
  | cons option options ih =>
      obtain ⟨⟨result, errors⟩, c₂, w₂, hattempt, hrest⟩ := Engine.runIn_bind_ok_iff.mp h
      by_cases hempty : errors.isEmpty
      · exact .inr (drops_of_speculate hall hearlier hattempt hempty)
      · simp only [hempty, Bool.false_eq_true, if_false] at hrest
        have hfailed := runIn_tryMembers_failed hearlier hattempt (by simpa using hempty)
        have hon := ih hfailed (by simpa using hall) hrest
        rwa [List.append_assoc, List.singleton_append] at hon

/-- An option that is tried keeps its errors, unless an option leaves none. -/
theorem kept_of_option {first : Schema} {rest earlier later : List Schema} {option : Schema}
    {failed : List (List ErrorRecord)} (hall : first :: rest = earlier ++ option :: later)
    (hearlier : (tryMembers (check env mode depth) v earlier).runIn c w =
      (.ok ([], failed), c₁, w₁))
    (h : (Call.mk (depth + 1) (.union first rest) v c w).run env mode = (.ok r, c', w')) :
    Ends env mode ⟨depth + 1, .union first rest, v, c, w⟩ c' w'
      ⟨depth, option, v, c₁.fork, w₁⟩ := by
  change (tryOptions env (check env mode depth) v [] (first :: rest)).runIn c w = _ at h
  rw [hall, tryOptions_of_failed hearlier] at h
  obtain ⟨⟨result, errors⟩, c₂, w₂, hattempt, hrest⟩ := Engine.runIn_bind_ok_iff.mp h
  obtain ⟨fork, hfork, rfl, -⟩ := Engine.runIn_speculate_ok_iff.mp hattempt
  by_cases hempty : fork.errors.isEmpty
  · simp only [hempty, if_true] at hrest
    cases hrest
    refine ⟨r, fork, w', hfork, .refl _ _, ?_⟩
    rw [List.isEmpty_iff.mp hempty]
    exact .inl (.of_subset (List.nil_subset _))
  · simp only [hempty, Bool.false_eq_true, if_false] at hrest
    have hfailed := runIn_tryMembers_failed hearlier hattempt (by simpa using hempty)
    have hmem : fork.errors ∈ [] ++ failed ++ [fork.errors] := by simp
    refine ⟨result, fork, w₂, hfork, ?_,
      kept_of_tryOptions (by simpa using hall) hfailed hrest hmem⟩
    exact Carry.after mode fun _ hset => Carry.of_tryOptions hset depth hrest

/-- A member keeps its errors. -/
theorem keeps_member {first : Schema} {rest earlier later : List Schema} {member : Schema}
    {before : List Value × List (List ErrorRecord)}
    (hall : first :: rest = earlier ++ member :: later)
    (hearlier : (tryMembers (check env mode depth) v earlier).runIn c w = (.ok before, c₁, w₁))
    (h : (Call.mk (depth + 1) (.intersection first rest) v c w).run env mode =
      (.ok r, c', w')) :
    Ends env mode ⟨depth + 1, .intersection first rest, v, c, w⟩ c' w'
      ⟨depth, member, v, c₁.fork, w₁⟩ := by
  obtain ⟨done, c₃, w₃, hmembers, hcombine⟩ := Engine.runIn_bind_ok_iff.mp h
  rw [hall] at hmembers
  obtain ⟨before', c₂, w₂, result, es, c₄, w₄, others, hbefore, hattempt, hothers, hgiven⟩ :=
    exists_of_tryMembers hmembers
  rw [hearlier] at hbefore
  cases hbefore
  obtain ⟨fork, hfork, rfl, -⟩ := Engine.runIn_speculate_ok_iff.mp hattempt
  have hafter : env.After w₄ w' :=
    (Pairing.after_of_tryMembers hothers).trans
      (Carry.after mode fun _ hset => Carry.of_combine hset depth hcombine)
  refine ⟨result, fork, w₄, hfork, hafter, .inl ?_⟩
  by_cases hempty : fork.errors = []
  · rw [hempty]
    exact .of_subset (List.nil_subset _)
  · have hmem := hgiven hempty
    have hsome : done.2.isEmpty = false := by
      cases hdone : done.2 with
      | nil => simp [hdone] at hmem
      | cons group groups => rfl
    unfold combine at hcombine
    simp only [hsome, Bool.not_false, if_true] at hcombine
    exact heldBy_of_refuse (x := membersFailed) hmem hcombine

end Layer

/-- A call ends by a value only if the calls that it makes do. It keeps their errors,
unless it is a union and an option leaves none. -/
theorem ends_of_makes (hmakes : Makes env mode f g) (h : f.run env mode = (.ok r, c', w')) :
    Ends env mode f c' w' g := by
  have hset := Carry.restoring_settings env mode
  cases hmakes with
  | field hobject hfresh hfields hearlier hhanded =>
      obtain ⟨done, c₁, w₁, hinside, herrors, hfinish⟩ := exists_of_run_object hobject hfresh h
      rw [hfields] at hinside
      obtain ⟨before, c₂, w₂, out, c₃, w₃, after, hbefore, hout, hafter⟩ :=
        exists_of_checkFields hinside
      rw [hearlier] at hbefore
      cases hbefore
      obtain ⟨q, d, hrun, rfl⟩ := exists_of_checkField hhanded hout
      refine ⟨q, d, w₃, hrun, (Pairing.after_of_checkFields hafter).trans hfinish,
        .inl (.of_subset ?_)⟩
      exact List.Subset.trans (restored_of_checkFields hafter).errors.subset herrors
  | @element _ _ _ _ _ _ i _ _ _ _ harray hfresh hmore hearlier hitem =>
      obtain ⟨done, c₁, w₁, hinside, herrors, hfinish⟩ := exists_of_run_array harray hfresh h
      obtain ⟨q, d, w₂, hrun, hturn⟩ := exists_of_firstItems hmore hearlier hitem hinside
      obtain ⟨more, hmore⟩ := Nat.exists_eq_add_of_lt hmore
      rw [hmore, Nat.add_right_comm] at hinside
      have hlater := fun (K : Carry σ) (hset : K.Settings env mode) =>
        Carry.of_laterItems hset _ hturn hinside
      refine ⟨q, d, w₂, hrun, (Carry.after mode hlater).trans hfinish, .inl (.of_subset ?_)⟩
      exact List.Subset.trans (hlater _ hset).errors.subset herrors
  | option hoptions hearlier => exact kept_of_option hoptions hearlier h
  | member hmembers hearlier => exact keeps_member hmembers hearlier h
  | optional hmissing =>
      simp only [run, check, checkLayer, hmissing, Bool.false_eq_true, if_false] at h
      exact ⟨r, c', w', h, .refl _ _, .inl (.of_subset (List.Subset.refl _))⟩
  | nullable hnull =>
      simp only [run, check, checkLayer] at h
      exact ⟨r, c', w', h, .refl _ _, .inl (.of_subset (List.Subset.refl _))⟩
  | copy hmissing _ =>
      simp only [run, check, checkLayer, hmissing, if_true] at h
      obtain ⟨-, d, hcopy, rfl⟩ := runIn_copied_ok_iff.mp h
      exact ⟨r, d, w', hcopy, .refl _ _, .inl (.of_subset (List.Subset.refl _))⟩
  | withDefault hmissing =>
      simp only [run, check, checkLayer, hmissing, Bool.false_eq_true, if_false] at h
      exact ⟨r, c', w', h, .refl _ _, .inl (.of_subset (List.Subset.refl _))⟩
  | transform =>
      obtain ⟨q, c₁, w₁, hinner, hrest⟩ := Engine.runIn_bind_ok_iff.mp h
      split at hrest
      · cases hrest
        exact ⟨r, c', w', hinner, .refl _ _, .inl (.of_subset (List.Subset.refl _))⟩
      · exact ⟨q, c₁, w₁, hinner, Carry.after mode fun _ hset => Carry.of_applyStep hset hrest,
          .inl (.of_subset (Carry.of_applyStep hset hrest).errors.subset)⟩
  | refine =>
      obtain ⟨q, c₁, w₁, hinner, hrest⟩ := Engine.runIn_bind_ok_iff.mp h
      split at hrest
      · cases hrest
        exact ⟨r, c', w', hinner, .refl _ _, .inl (.of_subset (List.Subset.refl _))⟩
      · exact ⟨q, c₁, w₁, hinner, Carry.after mode fun _ hset => Carry.of_askAbout hset hrest,
          .inl (.of_subset (Carry.of_askAbout hset hrest).errors.subset)⟩
  | deferred hresolve =>
      obtain ⟨t, c₁, w₁, hact, hinner⟩ := Engine.runIn_bind_ok_iff.mp h
      obtain ⟨hresolved, rfl⟩ := Engine.runIn_ofAct_ok_iff.mp hact
      rw [hresolve] at hresolved
      cases hresolved
      exact ⟨r, c', w', hinner, .refl _ _, .inl (.of_subset (List.Subset.refl _))⟩

theorem kept_of_makes (hmakes : Makes env mode f g) (h : f.run env mode = (.ok r, c', w')) :
    Keeps env mode f c' g := by
  obtain ⟨q, d, w₁, hrun, -, hkept⟩ := ends_of_makes hmakes h
  exact ⟨q, d, w₁, hrun, hkept⟩

/-- The end of a run comes after all of its calls. -/
theorem after_of_reaches (hreaches : Reaches env mode f g)
    (h : f.run env mode = (.ok r, c', w')) : env.After g.world w' := by
  have hend : ∃ q d w₁, g.run env mode = (.ok q, d, w₁) ∧ env.After w₁ w' := by
    induction hreaches with
    | refl => exact ⟨r, c', w', h, .refl _ _⟩
    | tail _ hmakes ih =>
        obtain ⟨q, d, w₁, hrun, hafter⟩ := ih
        obtain ⟨q', d', w₂, hrun', hafter', -⟩ := ends_of_makes hmakes hrun
        exact ⟨q', d', w₂, hrun', hafter'.trans hafter⟩
  obtain ⟨q, d, w₁, hrun, hafter⟩ := hend
  have hinside : env.After g.world w₁ :=
    Carry.after mode fun _ hset => Carry.of_check hset g.depth hrun
  exact hinside.trans hafter

/-- On the way from a call to another, a union drops errors. -/
def Dropped (env : Setting σ) (mode : Mode) (f g : Call σ) : Prop :=
  ∃ k k', Reaches env mode f k ∧ Makes env mode k k' ∧ Reaches env mode k' g ∧ k.Drops env mode

/-- A run ends by a value only if all its calls do, and the errors of each are held at
its end, unless a union on the way to it drops them. -/
theorem held_of_reaches (hreaches : Reaches env mode f g) (h : f.run env mode = (.ok r, c', w')) :
    ∃ q d w₁, g.run env mode = (.ok q, d, w₁) ∧
      (HeldBy d.errors c'.errors ∨ Dropped env mode f g) := by
  induction hreaches with
  | refl => exact ⟨r, c', w', h, .inl (.of_subset (List.Subset.refl _))⟩
  | @tail k g hreaches hmakes ih =>
      obtain ⟨q, d, w₁, hrun, hheld⟩ := ih
      obtain ⟨q', d', w₂, hrun', hkept⟩ := kept_of_makes hmakes hrun
      refine ⟨q', d', w₂, hrun', ?_⟩
      rcases hheld with hheld | ⟨m, m', hm, hmm, hon, hdrops⟩
      · rcases hkept with hkept | hdrops
        · exact .inl (hkept.trans hheld)
        · exact .inr ⟨k, g, hreaches, hmakes, .refl, hdrops⟩
      · exact .inr ⟨m, m', hm, hmm, hon.tail hmakes, hdrops⟩

/-! ## Parts -/

/-- What a call has to see to: the fields of a mapping, the elements of a sequence, members
and options, each with what stands there in a world. -/
inductive Part : Call σ → World σ → Path → Schema → Option Value → Prop
  | field {depth fields unknown v c w w₁ k field}
      (hobject : (w.store.entries? v).isNone = false) (hfresh : c.hasVisited v = false)
      (hfield : (k, field) ∈ fields) :
      Part ⟨depth + 1, .object fields unknown, v, c, w⟩ w₁ [k] field
        ((w₁.store.entriesOf v).find? k)
  | element {depth element bounds v c w w₁ i} (harray : (w.store.items? v).isNone = false)
      (hfresh : c.hasVisited v = false) (hplace : i < (w.store.itemsOf v).length) :
      Part ⟨depth + 1, .array element bounds, v, c, w⟩ w₁ [.index i] element
        (w₁.store.itemsOf v)[i]?
  | option {depth first rest v c w w₁ option} (h : option ∈ first :: rest) :
      Part ⟨depth + 1, .union first rest, v, c, w⟩ w₁ [] option (some v)
  | member {depth first rest v c w w₁ member} (h : member ∈ first :: rest) :
      Part ⟨depth + 1, .intersection first rest, v, c, w⟩ w₁ [] member (some v)

/-- A call has seen to a part. -/
inductive SeesTo (env : Setting σ) (mode : Mode) (f : Call σ) (c' : Context) (p : Path)
    (s : Schema) : Prop
  /-- It has made a call for it, with what stood there at the time. -/
  | made {g u} (hmakes : Makes env mode f g) (hschema : g.schema = s)
      (hpath : g.context.path = f.context.path ++ p) (hpart : f.Part g.world p s u)
      (hvalue : g.value = u.getD .missing) (hkept : Keeps env mode f c' g)
  /-- A key was not there by then, and it has an error because of that. -/
  | required {w₁ e} (hafter : env.After f.world w₁) (hpart : f.Part w₁ p s none)
      (he : e ∈ c'.errors) (hpath : e.path = f.context.path ++ p)
      (hcode : e.code = .builtin .required)
  /-- A sequence had ended before the place by then. -/
  | ended {w₁ i} (hafter : env.After f.world w₁) (hpart : f.Part w₁ [.index i] s none)
      (hplace : p = [.index i]) (harray : ∃ bounds, f.schema = .array s bounds)

/-- A field is checked with the value at its key, or with an absent one if it accepts that;
else there is an error. -/
theorem seesTo_of_field {depth : Nat} {fields : Entries Schema} {unknown : UnknownKeys}
    {v : Value} {c : Context} {w : World σ} {k : Key} {s : Schema}
    (hobject : (w.store.entries? v).isNone = false) (hfresh : c.hasVisited v = false)
    (hfield : (k, s) ∈ fields)
    (h : run env mode ⟨depth + 1, .object fields unknown, v, c, w⟩ = (.ok r, c', w')) :
    SeesTo env mode ⟨depth + 1, .object fields unknown, v, c, w⟩ c' [k] s := by
  obtain ⟨earlier, later, hfields⟩ := List.append_of_mem hfield
  obtain ⟨done, c₁, w₁, hinside, herrors, -⟩ := exists_of_run_object hobject hfresh h
  rw [hfields] at hinside
  obtain ⟨before, c₂, w₂, out, c₃, w₃, after, hbefore, hout, hafter⟩ :=
    exists_of_checkFields hinside
  have hpath : c₂.path = c.path := (restored_of_checkFields hbefore).path.trans (c.path_mark v)
  rcases cases_of_runIn_checkField hout with
    ⟨u, w₄, q, d, hhanded, -, -, -⟩ | ⟨w₄, d, habsent, -, hadd, rfl, -⟩
  · have hmakes : Makes env mode ⟨depth + 1, .object fields unknown, v, c, w⟩
      ⟨depth, s, u, c₂.push k, w₄⟩ := .field hobject hfresh hfields hbefore hhanded
    refine .made hmakes rfl (by rw [Context.push_path, hpath]) (.field hobject hfresh hfield) ?_
      (kept_of_makes hmakes h)
    cases hhanded with
    | present hfind => simp [hfind]
    | absent hfind haccepts => rfl
  · obtain ⟨message, rfl, -⟩ := Engine.eq_addError_of_runIn_addViolation hadd
    have hkept := (restored_of_checkFields hafter).errors.subset
    refine .required (Pairing.after_of_checkFields hbefore)
      (habsent ▸ .field hobject hfresh hfield)
      (e := ⟨(c₂.push k).path, message, .builtin .required, (requiredMissing k).details⟩)
      (herrors (hkept ?_)) ?_ rfl
    · exact List.mem_append_right _ (List.mem_singleton_self _)
    · rw [Context.push_path, hpath]

/-- An element is checked with the item at its place, unless there is none by then. -/
theorem seesTo_of_element {depth : Nat} {element : Schema} {bounds : ArrayBounds} {v : Value}
    {c : Context} {w : World σ} {i : Nat} (harray : (w.store.items? v).isNone = false)
    (hfresh : c.hasVisited v = false) (hplace : i < (w.store.itemsOf v).length)
    (h : run env mode ⟨depth + 1, .array element bounds, v, c, w⟩ = (.ok r, c', w')) :
    SeesTo env mode ⟨depth + 1, .array element bounds, v, c, w⟩ c' [.index i] element := by
  obtain ⟨done, c₁, w₁, hinside, -⟩ := exists_of_run_array harray hfresh h
  obtain ⟨before, c₂, w₂, hbefore⟩ := exists_of_earlierItems (i := i) (by omega) hinside
  have hpath : c₂.path = c.path := (restored_of_firstItems hbefore).path.trans (c.path_mark v)
  cases hitem : (w₂.store.itemsOf v)[i]? with
  | none =>
      exact .ended (Pairing.after_of_firstItems hbefore)
        (hitem ▸ .element harray hfresh hplace) rfl ⟨bounds, rfl⟩
  | some u =>
      have hmakes : Makes env mode ⟨depth + 1, .array element bounds, v, c, w⟩
        ⟨depth, element, u, c₂.push (.index i), w₂⟩ :=
        .element harray hfresh (by omega) hbefore hitem
      exact .made hmakes rfl (by rw [Context.push_path, hpath]) (.element harray hfresh hplace)
        (by simp [hitem]) (kept_of_makes hmakes h)

/-- Every part of a call is seen to, whatever came of the others, but that a union
does not go on once an option has left no error. -/
theorem seesTo_of_part {p : Path} {s : Schema} {u : Option Value} (hpart : f.Part f.world p s u)
    (h : f.run env mode = (.ok r, c', w')) : f.SeesTo env mode c' p s ∨ f.Drops env mode := by
  cases hpart with
  | field hobject hfresh hfield => exact .inl (seesTo_of_field hobject hfresh hfield h)
  | element harray hfresh hplace => exact .inl (seesTo_of_element harray hfresh hplace h)
  | @option depth first rest v c w _ _ hoption =>
      obtain ⟨earlier, later, hoptions⟩ := List.append_of_mem hoption
      have hnone : (tryMembers (check env mode depth) v []).runIn c w = (.ok ([], []), c, w) := rfl
      have hrun : (tryOptions env (check env mode depth) v [] (first :: rest)).runIn c w =
        (.ok r, c', w') := h
      rw [hoptions] at hrun
      rcases tried_of_tryOptions hnone hoptions hrun with ⟨failed, c₁, w₁, htried⟩ | hdrops
      · have hmakes : Makes env mode ⟨depth + 1, .union first rest, v, c, w⟩
          ⟨depth, s, v, c₁.fork, w₁⟩ := .option hoptions htried
        refine .inl (.made hmakes rfl ?_ (.option hoption) rfl (kept_of_makes hmakes h))
        rw [List.append_nil]
        exact (restored_of_tryMembers htried).path
      · exact .inr hdrops
  | @member depth first rest v c w _ _ hmember =>
      obtain ⟨earlier, later, hmembers⟩ := List.append_of_mem hmember
      obtain ⟨done, c₃, w₃, hdone, -⟩ := Engine.runIn_bind_ok_iff.mp h
      rw [hmembers] at hdone
      obtain ⟨before, c₁, w₁, q, es, c₂, w₂, after, hbefore, -, -, -⟩ := exists_of_tryMembers hdone
      have hpath := (restored_of_tryMembers hbefore).path
      have hmakes : Makes env mode ⟨depth + 1, .intersection first rest, v, c, w⟩
        ⟨depth, s, v, c₁.fork, w₁⟩ := .member hmembers hbefore
      refine .inl (.made hmakes rfl ?_ (.member hmember) rfl (kept_of_makes hmakes h))
      rw [List.append_nil]
      exact hpath

end Call

end Conform
