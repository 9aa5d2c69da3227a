import Conform.Proofs.Appends

/-!
# The marker of a failed check

The checks above a failed one look at the marker `invalid` that it gave,
while the verdict on a whole value is read off the errors. The two must say
the same.

The marker can also get into a result without a failed check: a leaf that
takes any value may be handed it, and a step may make it. `MarkerFree` says
that a call does neither.

## Main results

* `Call.judged` — a run gives the marker exactly if it added an error, and
  keeps the errors before it.
* `invalid_iff_errors_appended` — the same, with what follows for the verdict
  on a whole value.
-/

namespace Conform

/-! ## All schemas -/

namespace Call

open Traverse

variable {σ : Type} {env : Setting σ} {mode : Mode}

/-- If the call ends by a value, it keeps the errors before it and adds some
exactly if the value is the marker. -/
def Judged (env : Setting σ) (mode : Mode) (f : Call σ) : Prop :=
  ∀ r c' w', f.run env mode = (.ok r, c', w') → Appends (isInvalid r) f.context c'

/-- The marker of a failed check gets into a result by nothing but a failed
check: neither a leaf that takes any value nor an enumeration that lists it is
handed it, and no step makes it. -/
def MarkerFree (env : Setting σ) (f : Call σ) : Prop :=
  match f.schema with
  | .any => f.value ≠ .invalid
  | .enumeration first rest => f.value = .invalid → .invalid ∉ first :: rest
  | .transform _ step =>
    ∀ v w w', isMarker v = false → (step.applyTo env v).runIn w ≠ (.ok .invalid, w')
  | _ => True

/-- One layer: a call is judged if the calls it makes are. -/
theorem judged_of_makes {f : Call σ} (hfree : f.MarkerFree env)
    (hmade : ∀ g, Makes env mode f g → g.Judged env mode) : f.Judged env mode := by
  intro r c' w' h
  obtain ⟨depth, s, v, c, w⟩ := f
  cases depth with
  | zero => cases h
  | succ depth =>
    change (checkLayer env mode depth (env.acceptsMissing depth) (check env mode depth) s v).runIn
      c w = (.ok r, c', w') at h
    have hleaf : ∀ j, s.judge? w.store v = some j → Appends (isInvalid r) c c' := by
      intro j hj
      rw [runIn_checkLayer_of_judge? hj] at h
      refine appends_of_settle (fun u hu => isInvalid_of_judge? ?_ ?_ (hu ▸ hj)) h
      · rintro rfl
        exact hfree
      · rintro first rest rfl
        exact hfree
    cases s with
    | object fields unknown =>
        rcases cases_of_runIn_checkObject h with ⟨-, hrefuse⟩ | ⟨-, -, hrefuse⟩ |
          ⟨hobject, hfresh, done, c₁, w₁, hfields, hfinish⟩
        · exact appends_of_refuse hrefuse
        · exact appends_of_refuse hrefuse
        · refine appends_of_finishObject (Appends.of_mark (appends_of_checkFields ?_ hfields))
            hfinish
          intro earlier k field later done c₁ w₁ u w₂ r c₂ w₃ hsplit hearlier hhanded hrun
          exact hmade _ (.field hobject hfresh hsplit hearlier hhanded) r c₂ w₃ hrun
    | array element bounds =>
        rcases cases_of_runIn_checkArray h with ⟨-, hrefuse⟩ | ⟨-, -, hrefuse⟩ |
          ⟨harray, hfresh, done, c₁, w₁, hitems, -, hfinish⟩
        · exact appends_of_refuse hrefuse
        · exact appends_of_refuse hrefuse
        · refine appends_of_finishArray (Appends.of_mark (appends_of_firstItems ?_ hitems)) hfinish
          intro i u done c₁ w₁ r c₂ w₂ hmore hearlier hitem hone
          exact hmade _ (.element harray hfresh hmore hearlier hitem) r c₂ w₂ hone
    | union first rest =>
        have hnone : (tryMembers (check env mode depth) v []).runIn c w = (.ok ([], []), c, w) :=
          rfl
        refine appends_of_tryOptions hnone ?_ h
        intro before option later failed c₂ w₂ r fork w₃ hoptions hbefore hrun
        exact hmade _ (.option hoptions hbefore) r fork w₃ hrun
    | intersection first rest =>
        obtain ⟨done, c₁, w₁, hmembers, hcombine⟩ := Engine.runIn_bind_ok_iff.mp h
        obtain ⟨hkept, hvalid⟩ := appends_of_tryMembers
          (fun earlier member later done c₁ w₁ r fork w₂ hsplit hearlier hrun =>
            hmade _ (.member hsplit hearlier) r fork w₂ hrun) hmembers
        simpa using hkept.trans (appends_of_combine hvalid hcombine)
    | optional inner =>
        simp only [checkLayer] at h
        cases hmissing : isMissing v with
        | true =>
            simp only [hmissing, if_true, Engine.runIn_pure, Prod.mk.injEq, Except.ok.injEq] at h
            obtain ⟨rfl, rfl, -⟩ := h
            have hvalid : isInvalid v = false := by
              by_contra hinvalid
              have hnot := isMissing_of_isInvalid (Bool.not_eq_false _ ▸ hinvalid)
              simp [hmissing] at hnot
            exact hvalid ▸ .refl _
        | false =>
            simp only [hmissing, Bool.false_eq_true, if_false] at h
            exact hmade _ (.optional hmissing) r c' w' h
    | nullable inner =>
        simp only [checkLayer] at h
        split at h
        · cases h
          exact .refl _
        · rename_i hnull
          exact hmade _ (.nullable hnull) r c' w' h
    | withDefault inner default =>
        simp only [checkLayer] at h
        cases hmissing : isMissing v with
        | true =>
            simp only [hmissing, if_true] at h
            obtain ⟨hcopyable, d, hcopy, rfl⟩ := runIn_copied_ok_iff.mp h
            exact hmade _ (.copy hmissing hcopyable) r d w' hcopy
        | false =>
            simp only [hmissing, Bool.false_eq_true, if_false] at h
            exact hmade _ (.withDefault hmissing) r c' w' h
    | transform inner step =>
        obtain ⟨result, c₁, w₁, hinner, hstep⟩ := Engine.runIn_bind_ok_iff.mp h
        have hbefore := hmade _ .transform result c₁ w₁ hinner
        cases hmarker : isMarker result with
        | true =>
            simp only [hmarker, if_true] at hstep
            cases hstep
            exact hbefore
        | false =>
            simp only [hmarker, Bool.false_eq_true, if_false] at hstep
            have hvalid : isInvalid result = false := (Bool.or_eq_false_iff.mp hmarker).1
            rw [hvalid] at hbefore
            have hafter := appends_of_applyStep (fun w₂ => hfree result w₁ w₂ hmarker) hstep
            simpa using hbefore.trans hafter
    | refine inner id words code =>
        obtain ⟨result, c₁, w₁, hinner, hask⟩ := Engine.runIn_bind_ok_iff.mp h
        have hbefore := hmade _ .refine result c₁ w₁ hinner
        cases hmarker : isMarker result with
        | true =>
            simp only [hmarker, if_true] at hask
            cases hask
            exact hbefore
        | false =>
            simp only [hmarker, Bool.false_eq_true, if_false] at hask
            have hvalid : isInvalid result = false := (Bool.or_eq_false_iff.mp hmarker).1
            have hafter := appends_of_askAbout hvalid hask
            rw [hvalid] at hbefore
            simpa using hbefore.trans hafter
    | deferred id =>
        obtain ⟨inner, c₁, w₁, hresolve, hinner⟩ := Engine.runIn_bind_ok_iff.mp h
        obtain ⟨hresolved, rfl⟩ := Engine.runIn_ofAct_ok_iff.mp hresolve
        exact hmade _ (.deferred hresolved) r c' w' hinner
    | _ => exact hleaf _ rfl

/-- Every call of a run in which the marker is neither handed to a leaf nor
made by a step is judged. -/
theorem judged {f : Call σ} (hfree : ∀ g, Reaches env mode f g → g.MarkerFree env) :
    f.Judged env mode := by
  induction f using induct env mode with
  | h f ih =>
      refine judged_of_makes (hfree f .refl) fun g hg => ih g hg fun h hh => ?_
      exact hfree h (.head hg hh)

end Call

/-! ## Rules and whole values -/

namespace Validate

open Traverse

variable {σ : Type} {env : Setting σ} {mode : Mode} {depth : Nat} {s : Schema} {v : Value}
  {c c' : Context} {w w' : World σ}

/-- Whether the answer of a rule is an error: it disagreed, or it faulted. An
answer that was promised and dropped is not. -/
def isRefusal : Option (Except Fault Bool) → Bool
  | none => false
  | some (.ok agreed) => !agreed
  | some (.error _) => true

/-- Some rule of a row is refused, the rules being asked in order, also after
one has been refused. -/
inductive RuleFails (env : Setting σ) (mode : Mode) (s : Schema) (v : Value) :
    List Rule → Context → World σ → Prop
  | here {rule rest c w answer c₁ w₁}
      (hask : (ask mode (env.testRule rule.check s v)).runIn c w = (.ok answer, c₁, w₁))
      (hrefusal : isRefusal answer = true) : RuleFails env mode s v (rule :: rest) c w
  | later {rule rest c w c₁ w₁} (hrule : (askRule env mode rule s v).runIn c w = (.ok (), c₁, w₁))
      (hrest : RuleFails env mode s v rest c₁ w₁) : RuleFails env mode s v (rule :: rest) c w

/-- A rule adds an error exactly if its answer is one. -/
theorem appends_of_askRule {rule : Rule} {u : Unit}
    (h : (askRule env mode rule s v).runIn c w = (.ok u, c', w')) :
    ∃ answer c₁ w₁, (ask mode (env.testRule rule.check s v)).runIn c w = (.ok answer, c₁, w₁) ∧
      Appends (isRefusal answer) c c' := by
  obtain ⟨answer, c₁, w₁, hask, hdone⟩ := Engine.runIn_bind_ok_iff.mp h
  refine ⟨answer, c₁, w₁, hask, ?_⟩
  have hasked := appends_of_ask hask
  split at hdone
  · cases hdone
    exact hasked
  · cases hdone
    exact hasked
  · cases hdone
    exact hasked.trans (.addError c₁ _)
  · cases hdone
    exact hasked.trans (.addError c₁ _)

/-- Rules add an error exactly if one of them is refused. -/
theorem appends_of_askRules {rules : List Rule} {u : Unit}
    (h : (askRules env mode s v rules).runIn c w = (.ok u, c', w')) :
    ∃ failed, Appends failed c c' ∧ (failed = true ↔ RuleFails env mode s v rules c w) := by
  induction rules generalizing c w with
  | nil =>
      cases h
      exact ⟨false, .refl _, by simp, fun hfails => by cases hfails⟩
  | cons rule rules ih =>
      obtain ⟨u₁, c₁, w₁, hrule, hrest⟩ := Engine.runIn_bind_ok_iff.mp h
      obtain ⟨answer, c₂, w₂, hask, hone⟩ := appends_of_askRule hrule
      obtain ⟨failed, hmore, hfailed⟩ := ih hrest
      refine ⟨_, hone.trans hmore, ?_⟩
      rw [Bool.or_eq_true, hfailed]
      constructor
      · rintro (hrefusal | hfails)
        · exact .here hask hrefusal
        · exact .later hrule hfails
      · intro hfails
        cases hfails with
        | here hask' hrefusal =>
            rw [hask] at hask'
            cases hask'
            exact .inl hrefusal
        | later hrule' hfails =>
            rw [hrule] at hrule'
            cases hrule'
            exact .inr hfails

/-- What the outcome for a whole value says: it is refused exactly if the
check gave the marker or a rule was refused, and the marker is never what is
accepted. -/
def Verdict (env : Setting σ) (mode : Mode) (depth : Nat) (s : Schema) (v : Value) (w : World σ)
    (o : Outcome) : Prop :=
  ∃ r c₁ w₁, (check env mode depth s v).runIn {} w = (.ok r, c₁, w₁) ∧
    (o.isAccepted = false ↔ r = .invalid ∨ RuleFails env mode s v env.rules c₁ w₁) ∧
    o ≠ .accepted .invalid

theorem verdict_of_checkWhole {r : Value}
    (hfree : ∀ g, Call.Reaches env mode ⟨depth, s, v, {}, w⟩ g → g.MarkerFree env)
    (h : (checkWhole env mode depth s v).runIn {} w = (.ok r, c', w')) {o : Outcome}
    (hfinish : finish r c'.errors = .ok o) : Verdict env mode depth s v w o := by
  obtain ⟨c₁, w₁, hcheck, hrest⟩ := runIn_checkWhole_ok_iff.mp h
  obtain ⟨es, hes, hmarker⟩ := Call.judged hfree r c₁ w₁ hcheck
  have hes : c₁.errors = es := hes
  rw [isInvalid_eq_true_iff, ← hes] at hmarker
  refine ⟨r, c₁, w₁, hcheck, ?_⟩
  cases hclean : c₁.errors with
  | nil =>
      simp only [hclean, List.isEmpty_nil, if_true] at hrest
      obtain ⟨failed, ⟨fs, hfs, hfailed⟩, hfails⟩ := appends_of_askRules hrest
      have hr : r ≠ .invalid := fun hr => hmarker.mp hr hclean
      have hfs : c'.errors = fs := by rw [hfs, hclean, List.nil_append]
      constructor
      · rw [← hfails, hfailed, isAccepted_eq_false_iff hfinish, hfs]
        simp [hr]
      · rintro rfl
        obtain ⟨-, hvalue⟩ := finish_eq_accepted_iff.mp hfinish
        split at hvalue
        · cases hvalue
        · exact hr hvalue.symm
  | cons e es =>
      simp only [hclean, List.isEmpty_cons, Bool.false_eq_true, if_false] at hrest
      obtain ⟨rfl, rfl⟩ := hrest
      have hr : r = .invalid := hmarker.mpr (by simp [hclean])
      have hrefused : o.isAccepted = false :=
        (isAccepted_eq_false_iff hfinish).mpr (by simp [hclean])
      refine ⟨by simp [hr, hrefused], ?_⟩
      rintro rfl
      cases hrefused

end Validate

open Validate in
/-- The marker of a failed check is given exactly by the runs that added an
error, on every context, and errors that were there stay in front. So a whole
value is refused exactly if its check gave the marker or a rule was refused,
and the marker is never what is accepted. -/
theorem invalid_iff_errors_appended {σ : Type} (env : Setting σ) (depth : Nat) (s : Schema)
    (v : Value) :
    (∀ mode c w r c' w',
      (∀ g, Call.Reaches env mode ⟨depth, s, v, c, w⟩ g → g.MarkerFree env) →
      (check env mode depth s v).runIn c w = (.ok r, c', w') →
      ∃ es, c'.errors = c.errors ++ es ∧ (r = .invalid ↔ es ≠ [])) ∧
    (∀ entry w o w',
      (∀ g, Call.Reaches env .immediate ⟨depth, s, v, {}, w⟩ g → g.MarkerFree env) →
      (immediate env depth entry s v).runIn w = (.ok o, w') →
      Verdict env .immediate depth s v w o) ∧
    (∀ w o w',
      (∀ g, Call.Reaches env .awaited ⟨depth, s, v, {}, w⟩ g → g.MarkerFree env) →
      (awaited env depth s v).runIn w = (.ok o, w') →
      Verdict env .awaited depth s v w o) := by
  refine ⟨?_, ?_, ?_⟩
  · intro mode c w r c' w' hfree h
    obtain ⟨es, hes, hmarker⟩ := Call.judged hfree r c' w' h
    exact ⟨es, hes, Traverse.isInvalid_eq_true_iff.symm.trans hmarker⟩
  · intro entry w o w' hfree h
    obtain ⟨r, c, hrun, -, hfinish⟩ := runIn_immediate_ok_iff.mp h
    exact verdict_of_checkWhole hfree hrun hfinish
  · intro w o w' hfree h
    obtain ⟨r, c, hrun, hfinish⟩ := runIn_awaited_ok_iff.mp h
    exact verdict_of_checkWhole hfree hrun hfinish

/-- A host whose steps fault and whose predicates agree. -/
def faultingHost : Setting Unit where
  apply _ _ := throw (.raised "ValueError" "no such unit")
  test _ _ := return .settled (.bool true)
  testRule _ _ _ := return .settled (.bool true)
  produce _ := throw (.raised "ValueError" "no such schema")

/-- A list of one value, to which a step is applied that faults. -/
def faultingCall (c : Context) : Call Unit where
  depth := 3
  schema := .array (.transform .any (.callback 0)) {}
  value := .list [.int 1]
  context := c
  world := { host := () }

private theorem markerFree_faultingCall {mode : Mode} {c : Context} {g : Call Unit}
    (h : Call.Reaches faultingHost mode (faultingCall c) g) : g.MarkerFree faultingHost := by
  rcases h.cases_head with rfl | ⟨element, hmakes, hrest⟩
  · trivial
  · cases hmakes with
    | element _ _ _ _ hitem =>
      have hu := List.mem_of_getElem? hitem
      rw [Store.itemsOf_list, List.mem_singleton] at hu
      subst hu
      rcases hrest.cases_head with rfl | ⟨leaf, hmakes, hrest⟩
      · intro v w w' hv h
        cases h
      · cases hmakes
        rcases hrest.cases_head with rfl | ⟨_, hmakes, -⟩
        · intro h
          cases h
        · cases hmakes

/-- The fault of the step is one error behind those that were there, and the
list is refused. -/
theorem invalid_iff_errors_appended_faultingCall :
    (∃ es c', (check faultingHost .awaited 3 (faultingCall {}).schema (.list [.int 1])).runIn
        { errors := [⟨[.text "earlier"], none, .custom "kept", none⟩] } { host := () } =
          (.ok .invalid, c', { host := () }) ∧
      c'.errors = ⟨[.text "earlier"], none, .custom "kept", none⟩ :: es ∧ es ≠ []) ∧
    Validate.Verdict faultingHost .immediate 3 (faultingCall {}).schema (.list [.int 1])
      { host := () }
      (.refused [⟨[.index 0], some "no such unit", .builtin .transformError, none⟩]) ∧
    Validate.Verdict faultingHost .awaited 3 (faultingCall {}).schema (.list [.int 1])
      { host := () }
      (.refused [⟨[.index 0], some "no such unit", .builtin .transformError, none⟩]) := by
  refine ⟨?_, ?_, ?_⟩
  · obtain ⟨es, hes, hmarker⟩ := (invalid_iff_errors_appended faultingHost 3
      (faultingCall {}).schema (.list [.int 1])).1 .awaited _ { host := () } .invalid _ _
      (fun g => markerFree_faultingCall) rfl
    exact ⟨es, _, rfl, hes, hmarker.mp rfl⟩
  · exact (invalid_iff_errors_appended faultingHost 3 (faultingCall {}).schema
      (.list [.int 1])).2.1 .safeParse { host := () } _ _ (fun g => markerFree_faultingCall) rfl
  · exact (invalid_iff_errors_appended faultingHost 3 (faultingCall {}).schema
      (.list [.int 1])).2.2 { host := () } _ _ (fun g => markerFree_faultingCall) rfl

end Conform
