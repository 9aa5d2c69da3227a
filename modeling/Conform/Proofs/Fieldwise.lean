import Conform.Proofs.Clearing
import Conform.Proofs.Summing
import Conform.Proofs.Trial

/-!
# Objects field by field, also inside of a descent

What was found before a check does not matter to it: it finds on a context what it
finds on a fork of it. The place does matter, and so do the containers that are being
looked into, of which a fork knows. So a field of an object finds on its own fork, with the
mapping marked as being looked into, what it finds in the object, and no condition on the
mapping is needed: it may hold itself.

An object that drops what it does not declare is then a matter of the findings of its
fields only. That is what lets objects be compared whose fields are the same but stand
together in other objects.

## Main results

* `actFrom_check_eq_onFork` — a check adds to a context what it finds on a fork of it.
* `actFrom_object_strip` — so does an object, with the findings of its fields.
* `Setting.IsPure.steady_fieldOnFork` — with pure callbacks a finding does not depend on the
  checks before it.
-/

namespace Conform

open Traverse

variable {σ : Type}

/-! ## Forks -/

namespace Context

theorem fork_mark (c : Context) (v : Value) : (c.mark v).fork = c.fork.mark v := by
  unfold mark
  cases v.identity? with
  | none => rfl
  | some i =>
      simp only
      split <;> simp_all [fork]

theorem pop_push_adding (c : Context) (k : Key) (fs : List Finding) :
    ((c.push k).adding fs).pop = c.adding fs := by
  simp [adding, push, pop]

end Context

section Checks

variable (env : Setting σ) (mode : Mode) (depth : Nat)

/-- What a check finds on a fork of a context. -/
def onFork (c : Context) (s : Schema) (v : Value) : Act σ Finding := do
  let (result, d) ← Engine.actFrom c.fork (check env mode depth s v)
  return ⟨result, d.errors, d.awaiting⟩

/-- What is found in a field on a fork, of a mapping as it is when the field is checked: one
error if its key is not there and it does not accept that, else what its check finds at the
key. -/
def fieldOnFork (c : Context) (v : Value) (k : Key) (field : Schema) : Act σ Finding := do
  match ((← Act.store).entriesOf v).find? k with
  | some u => onFork env mode depth (c.push k) field u
  | none =>
    if ← env.acceptsMissing depth field then
      let u := (((← Act.store).entriesOf v).find? k).getD .missing
      onFork env mode depth (c.push k) field u
    else
      return { result := .invalid, errors := [← (requiredMissing k).recordAt env (c.path ++ [k])] }

/-- What is found in each field on a fork of its own, in the order in which they are
declared. -/
def fieldsOnFork (c : Context) (v : Value) : Entries Schema → Act σ (Entries Finding)
  | [] => return []
  | (k, field) :: rest => do
    let f ← fieldOnFork env mode depth c v k field
    return (k, f) :: (← fieldsOnFork c v rest)

end Checks

variable {env : Setting σ} {mode : Mode} {depth : Nat} {c : Context} {w w' : World σ}

/-- A check adds to a context what it finds on a fork of it. -/
theorem actFrom_check_eq_onFork (c : Context) (s : Schema) (v : Value) :
    Engine.actFrom c (check env mode depth s v) =
      onFork env mode depth c s v >>= fun f => pure (f.result, c.adding [f]) := by
  funext w
  show (Engine.actFrom c (check env mode depth s v)).runIn w =
    (onFork env mode depth c s v >>= fun f => pure (f.result, c.adding [f])).runIn w
  unfold onFork
  rw [bind_assoc, Act.runIn_bind, Engine.runIn_actFrom, Engine.runIn_actFrom,
    runIn_check_eq_taking]
  rcases (check env mode depth s v).runIn c.fork w with ⟨f | r, d, w₁⟩
  · rfl
  · simp [Context.taking, Context.adding]

/-- A field adds to a context what is found in it on a fork. -/
theorem actFrom_checkField_eq_onFork (c : Context) (v : Value) (k : Key) (field : Schema) :
    Engine.actFrom c (checkField env (env.acceptsMissing depth) (check env mode depth) v k
        field) =
      fieldOnFork env mode depth c v k field >>= fun f =>
        pure (fieldOutcome f.result, c.adding [f]) := by
  have hdone : ∀ u, Engine.actFrom c (Engine.within k (check env mode depth field u) >>= fun r =>
        pure (fieldOutcome r)) =
      onFork env mode depth (c.push k) field u >>= fun f =>
        pure (fieldOutcome f.result, c.adding [f]) := by
    intro u
    rw [Engine.actFrom_bind, Engine.within, Engine.actFrom_bracket, actFrom_check_eq_onFork]
    simp only [bind_assoc, pure_bind, Engine.actFrom_pure, Context.pop_push_adding]
  unfold checkField fieldOnFork
  rw [Engine.actFrom_bind, Engine.actFrom_store, bind_assoc, bind_assoc]
  refine congrArg _ (funext fun st => ?_)
  simp only [pure_bind]
  cases (st.entriesOf v).find? k with
  | some u => exact hdone u
  | none =>
      simp only [Engine.actFrom_bind, Engine.actFrom_ofAct, bind_assoc, pure_bind]
      refine congrArg _ (funext fun accepted => ?_)
      cases accepted with
      | true =>
          simp only [if_true, Engine.actFrom_bind, Engine.actFrom_store, bind_assoc, pure_bind]
          refine congrArg _ (funext fun later => ?_)
          rw [← hdone, Engine.actFrom_bind]
      | false =>
          simp only [Bool.false_eq_true, if_false, Engine.actFrom_bind, Engine.within,
            Engine.actFrom_bracket, Engine.actFrom_addViolation, bind_assoc, pure_bind]
          refine congrArg _ (funext fun e => ?_)
          simp [Engine.actFrom_pure, Context.adding, Context.push, Context.pop, Context.addError,
            fieldOutcome, isInvalid]

theorem fieldOnFork_adding (c : Context) (fs : List Finding) (v : Value) (k : Key)
    (field : Schema) :
    fieldOnFork env mode depth (c.adding fs) v k field =
      fieldOnFork env mode depth c v k field := rfl

theorem fieldsOnFork_adding (c : Context) (fs : List Finding) (v : Value)
    (fields : Entries Schema) :
    fieldsOnFork env mode depth (c.adding fs) v fields =
      fieldsOnFork env mode depth c v fields := by
  induction fields with
  | nil => rfl
  | cons e fields ih => simp only [fieldsOnFork, ih, fieldOnFork_adding]

theorem fieldsOnFork_fork (c : Context) (v : Value) (fields : Entries Schema) :
    fieldsOnFork env mode depth c.fork v fields =
      fieldsOnFork env mode depth c v fields := by
  induction fields with
  | nil => rfl
  | cons e fields ih =>
      simp only [fieldsOnFork, ih]
      rfl

theorem fieldsOnFork_append (c : Context) (v : Value)
    (fields more : Entries Schema) :
    fieldsOnFork env mode depth c v (fields ++ more) = do
      let found ← fieldsOnFork env mode depth c v fields
      let rest ← fieldsOnFork env mode depth c v more
      return found ++ rest := by
  induction fields with
  | nil => simp [fieldsOnFork]
  | cons e fields ih => simp [fieldsOnFork, ih]

/-- Fields add to a context what is found in each of them on a fork. -/
theorem actFrom_checkFields_eq_onFork (c : Context) (v : Value)
    (fields : Entries Schema) :
    Engine.actFrom c (checkFields env (env.acceptsMissing depth) (check env mode depth) v
        fields) =
      fieldsOnFork env mode depth c v fields >>= fun found =>
        pure (joinFound found, c.adding (found.map Prod.snd)) := by
  induction fields generalizing c with
  | nil => simp [checkFields, fieldsOnFork, Engine.actFrom_pure, joinFound, resultsOf]
  | cons e fields ih =>
      obtain ⟨k, field⟩ := e
      simp only [checkFields, fieldsOnFork, Engine.actFrom_bind, actFrom_checkField_eq_onFork, ih,
        fieldsOnFork_adding, bind_assoc, pure_bind, Engine.actFrom_pure, Context.adding_adding,
        joinFound_cons]
      rfl

section After

variable {v : Value} {k : Key} {field : Schema} {fields : Entries Schema}
  {f : Finding} {found : Entries Finding}

/-- The world after a field comes after the one before. -/
theorem after_of_fieldOnFork
    (h : (fieldOnFork env mode depth c v k field).runIn w = (.ok f, w')) :
    env.After w w' := by
  have hfield : (Engine.actFrom c (checkField env (env.acceptsMissing depth)
      (check env mode depth) v k field)).runIn w =
        (.ok (fieldOutcome f.result, c.adding [f]), w') := by
    rw [actFrom_checkField_eq_onFork, Act.runIn_bind, h]
    rfl
  exact Pairing.after_of_checkField (Engine.runIn_actFrom_ok_iff.mp hfield)

/-- The world after the fields comes after the one before. -/
theorem after_of_fieldsOnFork
    (h : (fieldsOnFork env mode depth c v fields).runIn w = (.ok found, w')) :
    env.After w w' := by
  have hfields : (Engine.actFrom c (checkFields env (env.acceptsMissing depth)
      (check env mode depth) v fields)).runIn w =
        (.ok (joinFound found, c.adding (found.map Prod.snd)), w') := by
    rw [actFrom_checkFields_eq_onFork, Act.runIn_bind, h]
    rfl
  exact Pairing.after_of_checkFields (Engine.runIn_actFrom_ok_iff.mp hfields)

/-- Every field has its finding. -/
theorem keys_of_fieldsOnFork
    (h : (fieldsOnFork env mode depth c v fields).runIn w = (.ok found, w')) :
    found.keys = fields.keys := by
  induction fields generalizing w found with
  | nil =>
      cases h
      rfl
  | cons e fields ih =>
      obtain ⟨f, w₁, -, h⟩ := Act.runIn_bind_ok_iff.mp h
      obtain ⟨rest, w₂, hrest, h⟩ := Act.runIn_bind_ok_iff.mp h
      cases h
      exact congrArg _ (ih hrest)

end After

/-! ## Wrappers that pass a value on -/

theorem check_optional_of_present {inner : Schema} {v : Value} (h : isMissing v = false) :
    check env mode (depth + 1) (.optional inner) v = check env mode depth inner v :=
  if_neg (by simp [h])

theorem check_withDefault_of_present {inner : Schema} {default v : Value}
    (h : isMissing v = false) :
    check env mode (depth + 1) (.withDefault inner default) v = check env mode depth inner v :=
  if_neg (by simp [h])

theorem check_nullable_of_ne_null {inner : Schema} {v : Value} (h : v ≠ .null) :
    check env mode (depth + 1) (.nullable inner) v = check env mode depth inner v := by
  simp only [check, checkLayer]

/-! ## Objects that drop what they do not declare -/

/-- What an object comes to that has nothing but its fields. -/
def objectOf (found : Entries Finding) : Value :=
  if found.any (isInvalid ·.2.result) then .invalid else .mapping false (resultsOf found)

theorem objectOf_eq_invalid_iff {found : Entries Finding} :
    objectOf found = .invalid ↔ found.any (isInvalid ·.2.result) = true := by
  unfold objectOf
  cases found.any (isInvalid ·.2.result) <;> simp

/-- No field has failed in an object that gives a value. -/
theorem objectOf_eq_mapping {found : Entries Finding} (h : objectOf found ≠ .invalid) :
    objectOf found = .mapping false (resultsOf found) :=
  if_neg fun hany => h (objectOf_eq_invalid_iff.mpr hany)

theorem objectOf_append {found more : Entries Finding} (h : objectOf found ≠ .invalid)
    (h' : objectOf more ≠ .invalid) :
    objectOf (found ++ more) = .mapping false (resultsOf found ++ resultsOf more) := by
  have hvalue : objectOf (found ++ more) ≠ .invalid := by
    rw [Ne, objectOf_eq_invalid_iff, List.any_append, Bool.or_eq_true, not_or]
    exact ⟨fun hany => h (objectOf_eq_invalid_iff.mpr hany),
      fun hany => h' (objectOf_eq_invalid_iff.mpr hany)⟩
  rw [objectOf_eq_mapping hvalue, resultsOf, List.filterMap_append]
  rfl

theorem actFrom_finishObject_strip (c : Context) (fields : Entries Schema) (v : Value)
    (results : Entries Value) (failed : Bool) :
    Engine.actFrom c (finishObject env fields .strip v results failed) =
      pure (if failed then .invalid else .mapping false results, c) := rfl

/-- Such an object adds to a context what is found in its fields. -/
theorem actFrom_object_strip {fields : Entries Schema} {v : Value}
    (hobject : (w.store.entries? v).isNone = false) (hfresh : c.hasVisited v = false) :
    (Engine.actFrom c (check env mode (depth + 1) (.object fields .strip) v)).runIn w =
      (fieldsOnFork env mode depth (c.mark v) v fields >>= fun found =>
        pure (objectOf found, c.adding (found.map Prod.snd))).runIn w := by
  have hcheck : (check env mode (depth + 1) (.object fields .strip) v).runIn c w =
      (Engine.lookingInto v (checkFields env (env.acceptsMissing depth) (check env mode depth)
        v fields) >>= fun done =>
          finishObject env fields .strip v done.1 done.2).runIn c w := by
    refine (runIn_checkObject env (env.acceptsMissing depth) (check env mode depth) fields .strip
      v c w).trans ?_
    simp only [hobject, hfresh, Bool.false_eq_true, if_false]
  rw [Engine.runIn_actFrom_congr hcheck, Engine.actFrom_bind, Engine.lookingInto,
    Engine.actFrom_bracket, actFrom_checkFields_eq_onFork]
  simp only [bind_assoc, pure_bind, actFrom_finishObject_strip,
    Context.unmark_adding_mark hfresh]
  rfl

/-- What a check finds on a context: it ends by a value, in a world, and has added the
errors to the context, and whether an answer was promised. -/
def Finds (env : Setting σ) (mode : Mode) (depth : Nat) (s : Schema) (v : Value) (c : Context)
    (w : World σ) (f : Finding) (w' : World σ) : Prop :=
  (check env mode depth s v).runIn c w = (.ok f.result, c.adding [f], w')

theorem Context.adding_fork_injective (c : Context) {f g : Finding} (hresult : f.result = g.result)
    (h : c.fork.adding [f] = c.fork.adding [g]) : f = g := by
  obtain ⟨r, es, b⟩ := f
  obtain ⟨r', es', b'⟩ := g
  simp_all [adding, fork]

/-- On a fresh context there is one finding at most. -/
theorem Finds.unique {s : Schema} {v : Value} {f g : Finding} {w₁ w₂ : World σ}
    (h : Finds env mode depth s v {} w f w₁) (h' : Finds env mode depth s v {} w g w₂) :
    f = g ∧ w₁ = w₂ := by
  have hsame := h.symm.trans h'
  simp only [Prod.mk.injEq, Except.ok.injEq] at hsame
  obtain ⟨hresult, hadded, hworld⟩ := hsame
  exact ⟨Context.adding_fork_injective {} hresult hadded, hworld⟩

/-- What ends by a value is a finding. -/
theorem exists_finds_of_run {s : Schema} {v r : Value} {c' : Context}
    (h : (check env mode depth s v).runIn c w = (.ok r, c', w')) :
    ∃ f, Finds env mode depth s v c w f w' ∧ f.result = r ∧ c.adding [f] = c' := by
  have hact := Engine.runIn_actFrom_ok_iff.mpr h
  rw [actFrom_check_eq_onFork] at hact
  obtain ⟨f, w₁, -, hdone⟩ := Act.runIn_bind_ok_iff.mp hact
  simp only [Act.runIn_pure, Prod.mk.injEq, Except.ok.injEq] at hdone
  obtain ⟨⟨hresult, hadded⟩, -⟩ := hdone
  exact ⟨f, by rw [Finds, h, hresult, hadded], hresult, hadded⟩

/-- Where there are no rules, a whole value is only checked. -/
theorem Validate.runIn_checkWhole_of_no_rules (hrules : env.rules = []) (s : Schema) (v : Value) :
    (checkWhole env mode depth s v).runIn c w = (check env mode depth s v).runIn c w := by
  unfold checkWhole
  rw [Engine.runIn_bind]
  rcases hrun : (check env mode depth s v).runIn c w with ⟨f | r, c₁, w₁⟩
  · rfl
  · simp only
    rw [Engine.runIn_bind_of_ok _ (Engine.runIn_context c₁ w₁), hrules]
    cases c₁.errors.isEmpty <;> rfl

/-- Then an outcome is a finding on a fresh context, in which nothing was promised if
answers are not waited for. -/
theorem Validate.gives_iff_finds (hrules : env.rules = []) {s : Schema} {v : Value}
    {o : Outcome} :
    Gives env mode depth s v w o ↔ ∃ f w', Finds env mode depth s v {} w f w' ∧
      (mode = .immediate → f.awaiting = false) ∧ finish f.result f.errors = .ok o := by
  simp only [gives_iff, runIn_checkWhole_of_no_rules hrules]
  constructor
  · rintro ⟨r, c, w', hrun, hawaiting, ho⟩
    obtain ⟨f, hf, rfl, rfl⟩ := exists_finds_of_run hrun
    exact ⟨f, w', hf, by simpa [Context.adding] using hawaiting, by simpa [Context.adding] using ho⟩
  · rintro ⟨f, w', hf, hawaiting, ho⟩
    exact ⟨_, _, w', hf, by simpa [Context.adding] using hawaiting,
      by simpa [Context.adding] using ho⟩

/-- The finding of an object that has nothing but its fields. -/
def objectFinding (found : Entries Finding) : Finding where
  result := objectOf found
  errors := found.flatMap fun e => e.2.errors
  awaiting := found.any fun e => e.2.awaiting

theorem adding_objectFinding (c : Context) (found : Entries Finding) :
    c.adding (found.map Prod.snd) = c.adding [objectFinding found] := by
  simp [Context.adding, objectFinding, List.flatMap_map, List.any_map, Function.comp_def]

section Objects

variable {fields : Entries Schema} {v : Value} {f : Finding} {found : Entries Finding}
  (hobject : (w.store.entries? v).isNone = false) (hfresh : c.hasVisited v = false)

include hobject hfresh

/-- An object finds what its fields find, one after another. -/
theorem finds_object_strip
    (h : (fieldsOnFork env mode depth (c.mark v) v fields).runIn w = (.ok found, w')) :
    Finds env mode (depth + 1) (.object fields .strip) v c w (objectFinding found) w' := by
  unfold Finds
  rw [← Engine.runIn_actFrom_ok_iff, actFrom_object_strip hobject hfresh, Act.runIn_bind, h,
    ← adding_objectFinding]
  rfl

theorem Finds.exists_fields
    (h : Finds env mode (depth + 1) (.object fields .strip) v c w f w') :
    ∃ found, (fieldsOnFork env mode depth (c.mark v) v fields).runIn w = (.ok found, w') ∧
      f.result = objectOf found ∧ c.adding [f] = c.adding [objectFinding found] := by
  unfold Finds at h
  rw [← Engine.runIn_actFrom_ok_iff, actFrom_object_strip hobject hfresh] at h
  obtain ⟨found, w₁, hfound, hdone⟩ := Act.runIn_bind_ok_iff.mp h
  simp only [Act.runIn_pure, Prod.mk.injEq, Except.ok.injEq] at hdone
  obtain ⟨⟨hresult, hadded⟩, rfl⟩ := hdone
  exact ⟨found, hfound, hresult.symm, by rw [← hadded, adding_objectFinding]⟩

end Objects

/-! ## Findings that do not depend on what was checked before -/

/-- What an act gives does not depend on when it is done. -/
def Setting.Steady (env : Setting σ) {α : Type} (w : World σ) (act : Act σ α) : Prop :=
  ∀ w₁, env.After w w₁ → (act.runIn w₁).1 = (act.runIn w).1

/-- With pure callbacks, the world after another one is its twin. -/
theorem Setting.IsPure.keeps_twins (hpure : env.IsPure) (w : World σ) :
    env.Keeps fun w₁ => env.Twins w w₁ where
  apply id v w₁ hw₁ := by rwa [(hpure.apply id v).world]
  test id v w₁ hw₁ := by rwa [(hpure.test id v).world]
  later id v w₁ w₂ later hw₁ h := by
    have hworld : w₂ = w₁ := by
      have hsame := (hpure.test id v).world w₁
      rwa [h] at hsame
    rw [((hpure.test id v).later (congrArg Prod.fst h)).world, hworld]
    exact hw₁
  resolve id w₁ hw₁ := hw₁.trans (hpure.twins_resolve id w₁)

/-- The outcome of a field tells its result. -/
theorem fieldOutcome_injective : Function.Injective fieldOutcome := by
  let back : Option Value × Bool → Value
    | (some r, _) => r
    | (none, true) => .invalid
    | (none, false) => .missing
  refine Function.LeftInverse.injective (g := back) fun r => ?_
  unfold fieldOutcome
  cases hinvalid : isInvalid r with
  | true => exact (isInvalid_eq_true_iff.mp hinvalid).symm
  | false =>
      cases hmissing : isMissing r with
      | true => exact (eq_missing_of_isMissing hmissing).symm
      | false => rfl

theorem Act.result_of_map {α β : Type} {act : Act σ α} {g : α → β} (hg : Function.Injective g)
    (h : ((act >>= fun a => pure (g a)).runIn w').1 = ((act >>= fun a => pure (g a)).runIn w).1) :
    (act.runIn w').1 = (act.runIn w).1 := by
  rw [Act.runIn_bind, Act.runIn_bind] at h
  generalize act.runIn w = out, act.runIn w' = out' at h ⊢
  obtain ⟨f | a, w₁⟩ := out <;> obtain ⟨f' | a', w₂⟩ := out'
  · exact congrArg Except.error (Except.error.inj h)
  · cases h
  · cases h
  · exact congrArg Except.ok (hg (Except.ok.inj h))

theorem Purity.EndAlike.result_actFrom {α : Type} {e : Engine σ α}
    (h : Purity.EndAlike env (· = ·) w (e.runIn c w) (e.runIn c w')) :
    ((Engine.actFrom c e).runIn w').1 = ((Engine.actFrom c e).runIn w).1 := by
  rw [Engine.runIn_actFrom, Engine.runIn_actFrom]
  generalize e.runIn c w = out, e.runIn c w' = out' at h ⊢
  cases h with
  | value hab => rw [hab]
  | fault => rfl

/-- With pure callbacks, what is found in a field does not depend on what was checked
before it. -/
theorem Setting.IsPure.steady_fieldOnFork (hpure : env.IsPure) (c : Context)
    (v : Value) (k : Key) (field : Schema) :
    env.Steady w (fieldOnFork env mode depth c v k field) := by
  intro w₁ hafter
  have htwins : env.Twins w w₁ := hafter _ (hpure.keeps_twins w) (.refl env w)
  have hset := Purity.settings hpure mode
  have halike : Purity.EndAlike env (· = ·) w _ _ :=
    Likeness.checkField hset (Likeness.acceptsMissing hset depth) (Likeness.check hset depth)
      v k field c.fork w w₁ htwins
  have hsame := halike.result_actFrom
  rw [actFrom_checkField_eq_onFork] at hsame
  refine Act.result_of_map (fun f g hfg => ?_) hsame
  obtain ⟨hresult, hadded⟩ := Prod.mk.inj hfg
  exact c.adding_fork_injective (fieldOutcome_injective hresult) hadded

end Conform
