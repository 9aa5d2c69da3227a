import Conform.Pipeline
import Conform.Proofs.MemberOrder
import Conform.Proofs.Ruling
import Conform.Proofs.Record

/-!
# Steps one after another

A row of steps is run from left to right, and a step that faults ends it. A pipeline in the
row is a row of its own, run in its place. So only the steps that are no pipelines count, its
*leaves*, in their order, and not how they are grouped.

Steps are applied to the result of a schema at once or in several goes. A fault is turned into
an error by the go in which it happens, and what is left after it is passed by. The goes come
to the same as one, unless what the first gives is a marker, which the second would not look
at.

## Main results

* `Step.applyAll_append` — a row and another one behind it.
* `Step.applyAll_leavesAll` — a row is run as its leaves are.
* `fuses` — two goes are one.
* `pipelines_fuse` — the same for the schemas that pipelines are put on, however the pipelines
  have been built.
-/

namespace Conform

open Traverse

/-! ## Rows of steps -/

mutual

/-- The steps in a step that are no pipelines, in the order in which they are run. -/
def Step.leaves : Step → List Step
  | .callback id => [.callback id]
  | .trim => [.trim]
  | .lower => [.lower]
  | .upper => [.upper]
  | .pipeline steps => Step.leavesAll steps

/-- The same for a row of steps. -/
def Step.leavesAll : List Step → List Step
  | [] => []
  | s :: ss => s.leaves ++ Step.leavesAll ss

end

namespace Step

variable {σ : Type} (env : Setting σ)

theorem applyAll_append (xs ys : List Step) (v : Value) :
    applyAll env (xs ++ ys) v = applyAll env xs v >>= applyAll env ys := by
  induction xs generalizing v with
  | nil => rw [List.nil_append, applyAll, pure_bind]
  | cons x xs ih => simp only [List.cons_append, applyAll, bind_assoc, ih]

theorem applyAll_singleton (s : Step) (v : Value) : applyAll env [s] v = s.applyTo env v := by
  simp only [applyAll, bind_pure]

mutual

theorem applyAll_leaves (s : Step) (v : Value) : applyAll env s.leaves v = s.applyTo env v := by
  cases s with
  | pipeline steps => rw [leaves, applyAll_leavesAll steps, applyTo]
  | _ => exact applyAll_singleton env _ v

/-- To run a row is to run its leaves. -/
theorem applyAll_leavesAll (ss : List Step) (v : Value) :
    applyAll env (leavesAll ss) v = applyAll env ss v := by
  cases ss with
  | nil => rfl
  | cons s ss =>
      have hrest : applyAll env (leavesAll ss) = applyAll env ss :=
        funext fun u => applyAll_leavesAll ss u
      rw [leavesAll, applyAll_append, applyAll_leaves s v, hrest, applyAll]

end

theorem leavesAll_append (xs ys : List Step) :
    leavesAll (xs ++ ys) = leavesAll xs ++ leavesAll ys := by
  induction xs with
  | nil => rfl
  | cons x xs ih => rw [List.cons_append, leavesAll, leavesAll, ih, List.append_assoc]

/-- A pipeline in a row has the leaves of its own steps. -/
theorem leavesAll_inlined (xs zs ys : List Step) :
    leavesAll (xs ++ .pipeline zs :: ys) = leavesAll (xs ++ zs ++ ys) := by
  simp only [leavesAll_append, leavesAll, leaves, List.append_assoc]

end Step

/-! ## Building pipelines -/

namespace Pipeline

theorem ofCandidates_cons (step : Step) (candidates : List (Except String Step)) :
    ofCandidates (.ok step :: candidates) =
      (ofCandidates candidates).map fun p => ⟨step :: p.steps⟩ := by
  unfold ofCandidates
  rw [List.mapM_cons]
  cases candidates.mapM fun c => c.mapError Fault.notStep <;> rfl

/-- Candidates that are steps make a pipeline. -/
theorem ofCandidates_ok (steps : List Step) : ofCandidates (steps.map .ok) = .ok ⟨steps⟩ := by
  induction steps with
  | nil => rfl
  | cons step steps ih =>
      rw [List.map_cons, ofCandidates_cons, ih]
      rfl

/-- To add candidates one after another comes to the same as to give all of them at once, also
where one of them is no step. -/
theorem foldlM_add (p : Pipeline) (candidates : List (Except String Step)) :
    candidates.foldlM add p = (ofCandidates candidates).map fun q => ⟨p.steps ++ q.steps⟩ := by
  induction candidates generalizing p with
  | nil => simp [ofCandidates, Except.map, pure, Except.pure, bind, Except.bind]
  | cons candidate candidates ih =>
      cases candidate with
      | error found => rfl
      | ok step =>
          show candidates.foldlM add ⟨p.steps ++ [step]⟩ = _
          rw [ih, ofCandidates_cons]
          cases ofCandidates candidates <;> simp [Except.map]

theorem eq_of_add {p q : Pipeline} {candidate : Except String Step}
    (h : p.add candidate = .ok q) : ∃ step, candidate = .ok step ∧ q = ⟨p.steps ++ [step]⟩ := by
  cases candidate with
  | error found => cases h
  | ok step => exact ⟨step, rfl, (Except.ok.inj h).symm⟩

end Pipeline

/-! ## Steps on a schema -/

section Goes

variable {σ : Type}

/-- What some steps make of the result of a schema is no marker, unless they fault. -/
def PassesOn (env : Setting σ) (mode : Mode) (depth : Nat) (s : Schema) (steps : List Step)
    (v : Value) (c : Context) (w : World σ) : Prop :=
  ∀ r c₁ w₁ u w₂, (check env mode depth s v).runIn c w = (.ok r, c₁, w₁) → isMarker r = false →
    (Step.applyAll env steps r).runIn w₁ = (.ok u, w₂) → isMarker u = false

variable {env : Setting σ} {mode : Mode} {depth : Nat} {s : Schema} {v : Value} {c : Context}
  {w : World σ}

section Transform

variable {r : Value} {c₁ : Context} {w₁ : World σ} (step : Step)

/-- A step on a schema is applied to its result. -/
theorem runIn_transform (hs : (check env mode depth s v).runIn c w = (.ok r, c₁, w₁))
    (hr : isMarker r = false) :
    (check env mode (depth + 1) (.transform s step) v).runIn c w =
      (applyStep env step r).runIn c₁ w₁ := by
  refine (Engine.runIn_bind_of_ok _ hs).trans ?_
  rw [hr]
  rfl

/-- A marker is passed by. -/
theorem runIn_transform_of_marker (hs : (check env mode depth s v).runIn c w = (.ok r, c₁, w₁))
    (hr : isMarker r = true) :
    (check env mode (depth + 1) (.transform s step) v).runIn c w = (.ok r, c₁, w₁) := by
  refine (Engine.runIn_bind_of_ok _ hs).trans ?_
  rw [hr]
  rfl

theorem runIn_transform_of_fault {f : Fault}
    (hs : (check env mode depth s v).runIn c w = (.error f, c₁, w₁)) :
    (check env mode (depth + 1) (.transform s step) v).runIn c w = (.error f, c₁, w₁) := by
  refine (Engine.runIn_bind _ _ _ _).trans ?_
  rw [hs]

end Transform

/-- Steps that make the same of every value make the same schema. -/
theorem check_transform_congr {step step' : Step} (h : step.applyTo env = step'.applyTo env) :
    check env mode (depth + 1) (.transform s step) v =
      check env mode (depth + 1) (.transform s step') v := by
  have hstep : applyStep env step = applyStep env step' := by
    funext r
    unfold applyStep
    rw [h]
  show (check env mode depth s v >>= fun r => if isMarker r then pure r else _) = _
  rw [hstep]
  rfl

/-- Steps on a schema that has given a result: what they make of it, or one error at the place
of the context with the words of their fault. -/
theorem runIn_transform_pipeline {r : Value} {c₁ : Context} {w₁ : World σ} (steps : List Step)
    (hs : (check env mode depth s v).runIn c w = (.ok r, c₁, w₁)) (hr : isMarker r = false) :
    (check env mode (depth + 1) (.transform s (.pipeline steps)) v).runIn c w =
      match (Step.applyAll env steps r).runIn w₁ with
      | (.ok u, w₂) => (.ok u, c₁, w₂)
      | (.error f, w₂) =>
        (.ok .invalid, c₁.addError ⟨c.path, orWords f.text (some "Transformation failed"),
          .builtin .transformError, none⟩, w₂) := by
  refine (runIn_transform _ hs hr).trans ?_
  rcases hsteps : (Step.applyAll env steps r).runIn w₁ with ⟨f | u, w₂⟩ <;>
    simp only [runIn_applyStep, Step.applyTo, hsteps, (restored_of_check hs).path]

/-- The second go takes up where the first one ended by a value, and passes by the marker that
stands for its fault. -/
theorem fuses {xs : List Step} (ys : List Step) (hpasses : PassesOn env mode depth s xs v c w) :
    (check env mode (depth + 2) (.transform (.transform s (.pipeline xs)) (.pipeline ys)) v).runIn
        c w =
      (check env mode (depth + 1) (.transform s (.pipeline (xs ++ ys))) v).runIn c w := by
  rcases hs : (check env mode depth s v).runIn c w with ⟨f | r, c₁, w₁⟩
  · rw [runIn_transform_of_fault _ (runIn_transform_of_fault _ hs), runIn_transform_of_fault _ hs]
  cases hr : isMarker r with
  | true =>
      have hfirst := runIn_transform_of_marker (.pipeline xs) hs hr
      rw [runIn_transform_of_marker _ hfirst hr, runIn_transform_of_marker _ hs hr]
  | false =>
      have hfirst := runIn_transform_pipeline xs hs hr
      rw [runIn_transform_pipeline (xs ++ ys) hs hr, Step.applyAll_append, Act.runIn_bind]
      rcases hxs : (Step.applyAll env xs r).runIn w₁ with ⟨f | u, w₂⟩
      · rw [hxs] at hfirst
        exact runIn_transform_of_marker _ hfirst rfl
      · rw [hxs] at hfirst
        exact runIn_transform_pipeline ys hfirst (hpasses r c₁ w₁ u w₂ hs hr hxs)

/-- A host that keeps a record gets the same values. -/
theorem PassesOn.recorded {xs : List Step} (h : PassesOn env mode depth s xs v c w) :
    PassesOn (env.recorded Event.mk) mode depth s xs v c w.recording := by
  intro r c₁ w₁ u w₂ hs hr hxs
  have halike : Recorded.Alike (· = ·) (check env mode depth s v)
      (check (env.recorded Event.mk) mode depth s v) :=
    Likeness.check (Recorded.settings env mode) depth s v
  have hend := halike c w.recording
  rw [hs] at hend
  obtain ⟨out, w₃, -, hplain, hplain', -⟩ := Recorded.plain_applyAll env xs r w₁
  rw [hxs] at hplain'
  cases hplain'
  generalize hrun : (check env mode depth s v).runIn c w.recording.unrecorded = plain at hend
  cases hend with
  | value heq => exact h _ _ _ _ _ (heq ▸ hrun) hr hplain

/-! ## Whole values -/

open Validate

/-- A whole value is validated alike by schemas that check it alike, if the rules do not tell
them apart. -/
theorem validate_congr {depth' : Nat} {s' : Schema} (entry : Entry)
    (hcheck : (check env mode depth' s' v).runIn {} w = (check env mode depth s v).runIn {} w)
    (hrules : ∀ rule ∈ env.rules, env.testRule rule.check s' v = env.testRule rule.check s v) :
    (validate env mode depth' entry s' v).runIn w =
      (validate env mode depth entry s v).runIn w := by
  simp only [runIn_validate, checkWhole, Engine.runIn_bind, hcheck, askRules_congr hrules]

/-- A schema that does in two goes what another one does in one, where what the first go
makes of a value is no marker: the checks are the same, the same callbacks are called in them,
and the same becomes of whole values, unless the rules tell the schemas apart. -/
structure FusesInto (env : Setting σ) (s : Schema) (xs : List Step) (two one : Schema) :
    Prop where
  run (mode : Mode) (depth : Nat) (v : Value) (c : Context) (w : World σ)
      (h : PassesOn env mode depth s xs v c w) :
    (check env mode (depth + 2) two v).runIn c w = (check env mode (depth + 1) one v).runIn c w
  calls (mode : Mode) (depth : Nat) (v : Value) (c : Context) (w : World σ)
      (h : PassesOn env mode depth s xs v c w) :
    ((check (env.recorded Event.mk) mode (depth + 2) two v).runIn c w.recording).2.2.record =
      ((check (env.recorded Event.mk) mode (depth + 1) one v).runIn c w.recording).2.2.record
  whole (mode : Mode) (depth : Nat) (entry : Entry) (v : Value) (w : World σ)
      (h : PassesOn env mode depth s xs v {} w)
      (hrules : ∀ rule ∈ env.rules,
        env.testRule rule.check two v = env.testRule rule.check one v) :
    (validate env mode (depth + 2) entry two v).runIn w =
      (validate env mode (depth + 1) entry one v).runIn w
  absence (depth : Nat) :
    env.acceptsMissing (depth + 2) two = env.acceptsMissing (depth + 1) one

theorem fusesInto (env : Setting σ) (s : Schema) (xs ys : List Step) :
    FusesInto env s xs (.transform (.transform s (.pipeline xs)) (.pipeline ys))
      (.transform s (.pipeline (xs ++ ys))) where
  run _ _ _ _ _ h := fuses ys h
  calls _ _ _ _ _ h := by rw [fuses ys h.recorded]
  whole _ _ entry _ _ h hrules := validate_congr entry (fuses ys h) hrules
  absence _ := rfl

/-- **Pipelines fuse.** Two pipelines that are put on a schema one after the other do what one
pipeline of all their steps does: the check ends alike, with the same data and the same
errors, and calls the same callbacks. It makes of a result of the schema what the steps make of
it one after another, or there is one error at the place of the value, with the words of the
fault by which the first step to fault ends.

Pipelines are interchangeable if the steps in them that are no pipelines are the same ones in
the same order, as they are for a pipeline and its steps in its place. It makes no difference
whether candidates are added one by one or given all at once. To add a step gives a pipeline
that does what the one before did and the step after it; that one stays what it was. -/
theorem pipelines_fuse (env : Setting σ) (s : Schema) (xs ys : List Step) :
    (∃ p q pq first two one,
      Pipeline.ofCandidates (xs.map .ok) = .ok p ∧ Pipeline.ofCandidates (ys.map .ok) = .ok q ∧
      Pipeline.ofCandidates ((xs ++ ys).map .ok) = .ok pq ∧
      s.transformBy (some p.toStep) = .ok first ∧ first.transformBy (some q.toStep) = .ok two ∧
      s.transformBy (some pq.toStep) = .ok one ∧ FusesInto env s xs two one ∧
      ∀ mode depth v c w r c₁ w₁, (check env mode depth s v).runIn c w = (.ok r, c₁, w₁) →
        isMarker r = false →
        (check env mode (depth + 1) one v).runIn c w =
          match (pq.execute env r).runIn w₁ with
          | (.ok u, w₂) => (.ok u, c₁, w₂)
          | (.error f, w₂) =>
            (.ok .invalid, c₁.addError ⟨c.path, orWords f.text (some "Transformation failed"),
              .builtin .transformError, none⟩, w₂)) ∧
    (∀ candidates, candidates.foldlM Pipeline.add {} = Pipeline.ofCandidates candidates) ∧
    (∀ p q : Pipeline, Step.leavesAll p.steps = Step.leavesAll q.steps →
      p.execute env = q.execute env ∧
      ∀ mode depth v, check env mode (depth + 1) (.transform s p.toStep) v =
        check env mode (depth + 1) (.transform s q.toStep) v) ∧
    (∀ p : Pipeline, Step.leavesAll (xs ++ p.toStep :: ys) = Step.leavesAll (xs ++ p.steps ++ ys)) ∧
    ∀ (p q : Pipeline) candidate, p.add candidate = .ok q → ∃ step, candidate = .ok step ∧
      q.steps = p.steps ++ [step] ∧
      ∀ v, q.execute env v = p.execute env v >>= step.applyTo env := by
  refine ⟨⟨_, _, _, _, _, _, Pipeline.ofCandidates_ok xs, Pipeline.ofCandidates_ok ys,
    Pipeline.ofCandidates_ok (xs ++ ys), rfl, rfl, rfl, fusesInto env s xs ys, ?_⟩, ?_, ?_, ?_, ?_⟩
  · intro mode depth v c w r c₁ w₁ hs hr
    exact runIn_transform_pipeline (xs ++ ys) hs hr
  · intro candidates
    rw [Pipeline.foldlM_add]
    cases Pipeline.ofCandidates candidates <;> rfl
  · intro p q hleaves
    have hsame : p.execute env = q.execute env := by
      funext v
      rw [Pipeline.execute, Pipeline.execute, ← Step.applyAll_leavesAll, hleaves,
        Step.applyAll_leavesAll]
    refine ⟨hsame, fun mode depth v => check_transform_congr ?_⟩
    exact hsame
  · exact fun p => Step.leavesAll_inlined xs p.steps ys
  · intro p q candidate hadd
    obtain ⟨step, rfl, rfl⟩ := Pipeline.eq_of_add hadd
    refine ⟨step, rfl, rfl, fun v => ?_⟩
    show Step.applyAll env (p.steps ++ [step]) v = _
    rw [Step.applyAll_append]
    exact bind_congr fun u => Step.applyAll_singleton env step u

/-- A host whose second callback raises. -/
def pickyHost : Setting Unit :=
  { idleHost with
    apply := fun id v => if id = 1 then throw (.raised "ValueError" "too late") else return v }

/-- The first go calls a callback in a pipeline of its own, and the second go ends by the fault of
the next one: one error, and two calls. -/
theorem pipelines_fuse_second_raises :
    ∃ two one, FusesInto pickyHost .boolean [.pipeline [.callback 0]] two one ∧
      (check pickyHost .immediate 3 two (.bool true)).runIn {} { host := () } =
        (check pickyHost .immediate 2 one (.bool true)).runIn {} { host := () } ∧
      (check pickyHost .immediate 2 one (.bool true)).runIn {} { host := () } =
        (.ok .invalid, { errors := [⟨[], "too late", .builtin .transformError, none⟩] },
          { host := () }) ∧
      ((check (pickyHost.recorded Event.mk) .immediate 3 two (.bool true)).runIn {}
        (World.recording { host := () })).2.2.record =
          [⟨.step 0 (.bool true), false⟩, ⟨.step 1 (.bool true), false⟩] := by
  obtain ⟨⟨p, q, pq, first, two, one, hp, hq, hpq, hfirst, htwo, hone, hfuses, herror⟩, -⟩ :=
    pipelines_fuse pickyHost .boolean [.pipeline [.callback 0]] [.callback 1, .callback 2]
  cases hp
  cases hq
  cases hpq
  cases hfirst
  cases htwo
  cases hone
  have hpasses : PassesOn pickyHost .immediate 1 .boolean [.pipeline [.callback 0]] (.bool true)
      {} { host := () } := by
    intro r c₁ w₁ u w₂ hs _ hxs
    cases hs
    cases hxs
    rfl
  refine ⟨_, _, hfuses, hfuses.run _ _ _ _ _ hpasses, ?_, ?_⟩
  · exact herror .immediate 1 (.bool true) {} { host := () } _ _ _ rfl rfl
  · rw [hfuses.calls _ _ _ _ _ hpasses]
    rfl

end Goes

end Conform
