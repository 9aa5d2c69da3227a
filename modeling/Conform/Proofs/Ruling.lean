import Conform.Proofs.Promise
import Conform.Proofs.Restoration
import Conform.Proofs.Verdict

/-!
# Rules for whole values

Rules are asked about a whole value once its check has found no error, one after another,
and a rule is asked whatever came of those before it. Each gets the schema and the value
that was handed in. Those that disagree or fault leave one error each, at the root.

Which rules are asked is read off the record of the run: a check asks none, and asking
rules leaves one entry for each.

## Main results

* `exists_rulings` — what asking rules comes to.
* `ruleCalls_askRules` — which calls that makes.
* `whole_value_is_ruled_on` — what the entry points give.
-/

namespace Conform

open Traverse

namespace Validate

variable {σ : Type} {env : Setting σ} {mode : Mode} {depth : Nat} {entry : Entry} {s : Schema}
  {v : Value} {rule : Rule} {rules : List Rule} {c : Context} {w : World σ}

/-! ## What rules answer -/

/-- A rule, with its answer or its fault; there is neither where the answer was promised
and the promise dropped. -/
abbrev Ruling : Type := Rule × Option (Except Fault Bool)

/-- How a rule answers in a world, and the world after that. -/
inductive Answers (env : Setting σ) (mode : Mode) (s : Schema) (v : Value) (rule : Rule)
    (w : World σ) : Option (Except Fault Bool) → World σ → Prop
  | faulted {f w'} (h : (env.testRule rule.check s v).runIn w = (.error f, w')) :
      Answers env mode s v rule w (some (.error f)) w'
  | settled {u w'} (h : (env.testRule rule.check s v).runIn w = (.ok (.settled u), w')) :
      Answers env mode s v rule w (some (.ok (w'.store.truthy u))) w'
  | dropped {later w'} (hmode : mode = .immediate)
      (h : (env.testRule rule.check s v).runIn w = (.ok (.pending later), w')) :
      Answers env mode s v rule w none w'
  | broken {later w₁ f w'} (hmode : mode = .awaited)
      (h : (env.testRule rule.check s v).runIn w = (.ok (.pending later), w₁))
      (hlater : later.runIn w₁ = (.error f, w')) :
      Answers env mode s v rule w (some (.error f)) w'
  | kept {later w₁ u w'} (hmode : mode = .awaited)
      (h : (env.testRule rule.check s v).runIn w = (.ok (.pending later), w₁))
      (hlater : later.runIn w₁ = (.ok u, w')) :
      Answers env mode s v rule w (some (.ok (w'.store.truthy u))) w'

/-- How rules answer one after another, each in the world that those before it left. -/
inductive Rulings (env : Setting σ) (mode : Mode) (s : Schema) (v : Value) :
    List Rule → World σ → List Ruling → World σ → Prop
  | nil (w : World σ) : Rulings env mode s v [] w [] w
  | cons {rule rules w answer w₁ xs w'} (h : Answers env mode s v rule w answer w₁)
      (hrest : Rulings env mode s v rules w₁ xs w') :
      Rulings env mode s v (rule :: rules) w ((rule, answer) :: xs) w'

theorem Rulings.map_fst {xs : List Ruling} {w' : World σ}
    (h : Rulings env mode s v rules w xs w') : xs.map Prod.fst = rules := by
  induction h with
  | nil w => rfl
  | cons h hrest ih => rw [List.map_cons, ih]

/-- The error of a ruling: in the words of the fault, if it has any, else in the rule's
own. -/
def rulingError (x : Ruling) : ErrorRecord where
  path := []
  message := match x.2 with
    | some (.error f) => orWords f.text x.1.words
    | _ => x.1.words
  code := ruleCode x.1
  details := none

/-- The errors of rulings: one for each rule that disagreed or faulted. -/
def rulingErrors (xs : List Ruling) : List ErrorRecord :=
  (xs.filter fun x => isRefusal x.2).map rulingError

theorem rulingErrors_cons (x : Ruling) (xs : List Ruling) :
    rulingErrors (x :: xs) = rulingErrors [x] ++ rulingErrors xs := by
  unfold rulingErrors
  rw [← List.map_append, ← List.filter_append, List.singleton_append]

/-- Asking a rule gives its answer, and notes what was promised. -/
theorem exists_answer (env : Setting σ) (mode : Mode) (s : Schema) (v : Value) (rule : Rule)
    (c : Context) (w : World σ) :
    ∃ answer c' w', Answers env mode s v rule w answer w' ∧
      (ask mode (env.testRule rule.check s v)).runIn c w = (.ok answer, c', w') ∧
      c'.errors = c.errors ∧ c'.path = c.path ∧
      (mode = .immediate → c'.awaiting = (c.awaiting || answer.isNone)) := by
  rw [runIn_ask]
  rcases htest : (env.testRule rule.check s v).runIn w with ⟨f | u | later, w₁⟩
  · exact ⟨_, c, w₁, .faulted htest, rfl, rfl, rfl, fun _ => (Bool.or_false _).symm⟩
  · exact ⟨_, c, w₁, .settled htest, rfl, rfl, rfl, fun _ => (Bool.or_false _).symm⟩
  · cases mode with
    | immediate =>
        exact ⟨none, c.markAwaiting, w₁, .dropped rfl htest, rfl, rfl, rfl,
          fun _ => (Bool.or_true _).symm⟩
    | awaited =>
        rcases hlater : later.runIn w₁ with ⟨f | u, w₂⟩
        · exact ⟨_, c.markAwaiting, w₂, .broken rfl htest hlater, by simp [hlater], rfl, rfl, nofun⟩
        · exact ⟨_, c.markAwaiting, w₂, .kept rfl htest hlater, by simp [hlater], rfl, rfl, nofun⟩

/-- What becomes of an answer is left to the context. -/
theorem exists_of_askRule (env : Setting σ) (mode : Mode) (s : Schema) (v : Value) (rule : Rule)
    (c : Context) (w : World σ) :
    ∃ c', (askRule env mode rule s v).runIn c w =
      (.ok (), c', ((ask mode (env.testRule rule.check s v)).runIn c w).2.2) := by
  obtain ⟨answer, c₁, w₁, -, hask, -⟩ := exists_answer env mode s v rule c w
  have hrun : (askRule env mode rule s v).runIn c w = _ := Engine.runIn_bind_of_ok _ hask
  rw [hask]
  rcases answer with _ | f | _ | _ <;> exact ⟨_, hrun⟩

/-- A rule that is asked at the root leaves the error of its ruling. -/
theorem exists_ruling (env : Setting σ) (mode : Mode) (s : Schema) (v : Value) (rule : Rule)
    {c : Context} (hroot : c.path = []) (w : World σ) :
    ∃ answer c' w', Answers env mode s v rule w answer w' ∧
      (askRule env mode rule s v).runIn c w = (.ok (), c', w') ∧
      c'.errors = c.errors ++ rulingErrors [(rule, answer)] ∧ c'.path = [] ∧
      (mode = .immediate → c'.awaiting = (c.awaiting || answer.isNone)) := by
  obtain ⟨answer, c₁, w₁, hanswer, hask, herrors, hpath, hnote⟩ :=
    exists_answer env mode s v rule c w
  rw [hroot] at hpath
  have hrun : (askRule env mode rule s v).runIn c w = _ := Engine.runIn_bind_of_ok _ hask
  rcases answer with _ | f | agreed
  · exact ⟨none, c₁, w₁, hanswer, hrun, by simp [herrors, rulingErrors, isRefusal], hpath, hnote⟩
  · refine ⟨_, _, w₁, hanswer, hrun, ?_, hpath, hnote⟩
    simp [Context.addError, herrors, hpath, rulingErrors, isRefusal, rulingError]
  · cases agreed with
    | true =>
        exact ⟨_, c₁, w₁, hanswer, hrun, by simp [herrors, rulingErrors, isRefusal], hpath, hnote⟩
    | false =>
        refine ⟨_, _, w₁, hanswer, hrun, ?_, hpath, hnote⟩
        simp [Context.addError, herrors, hpath, rulingErrors, isRefusal, rulingError]

/-- Asking rules at the root leaves the errors of their rulings, in order. -/
theorem exists_rulings (env : Setting σ) (mode : Mode) (s : Schema) (v : Value)
    (rules : List Rule) {c : Context} (hroot : c.path = []) (w : World σ) :
    ∃ xs c' w', Rulings env mode s v rules w xs w' ∧
      (askRules env mode s v rules).runIn c w = (.ok (), c', w') ∧
      c'.errors = c.errors ++ rulingErrors xs ∧
      (mode = .immediate → c'.awaiting = (c.awaiting || xs.any (·.2.isNone))) := by
  induction rules generalizing c w with
  | nil => exact ⟨[], c, w, .nil w, rfl, (List.append_nil _).symm, fun _ => (Bool.or_false _).symm⟩
  | cons rule rules ih =>
      obtain ⟨answer, c₁, w₁, hanswer, hrule, herrors, hpath, hnote⟩ :=
        exists_ruling env mode s v rule hroot w
      obtain ⟨xs, c', w', hxs, hrest, herrors', hnote'⟩ := ih hpath w₁
      refine ⟨(rule, answer) :: xs, c', w', .cons hanswer hxs, ?_, ?_, fun hmode => ?_⟩
      · exact Engine.runIn_bind_ok_iff.mpr ⟨(), c₁, w₁, hrule, hrest⟩
      · rw [herrors', herrors, List.append_assoc, ← rulingErrors_cons]
      · rw [hnote' hmode, hnote hmode, List.any_cons, Bool.or_assoc]

/-! ## Which rules are asked -/

/-- The callback is a rule's. -/
def isRuleCall : Callback → Bool
  | .rule _ _ _ => true
  | _ => false

/-- The calls of rules on a record, in order. -/
def ruleCalls (es : List Event) : List Callback := (es.map Event.callback).filter isRuleCall

theorem ruleCalls_append (es fs : List Event) :
    ruleCalls (es ++ fs) = ruleCalls es ++ ruleCalls fs := by
  unfold ruleCalls
  rw [List.map_append, List.filter_append]

/-- A predicate of the host that keeps a record leaves one entry, and to do what it has
promised leaves none. -/
theorem runIn_noted_reply (test : Act σ (Reply σ)) (callback : Callback)
    (w : World (σ × List Event)) :
    (do return (← test.noted fun r => Event.mk callback (promises r)).unnoted :
      Act (σ × List Event) (Reply (σ × List Event))).runIn w =
      ((test.runIn w.unrecorded).1.map Reply.unnoted,
        (test.runIn w.unrecorded).2.withHost ((test.runIn w.unrecorded).2.host,
          w.record ++ [⟨callback, promises (test.runIn w.unrecorded).1⟩])) := by
  rw [Act.runIn_bind, Act.runIn_noted]
  rcases test.runIn w.unrecorded with ⟨f | reply, w₁⟩ <;> rfl

/-- An entry of another callback does not count. -/
theorem ruleCalls_append_other {e : Event} (h : isRuleCall e.callback = false) (es : List Event) :
    ruleCalls (es ++ [e]) = ruleCalls es := by
  rw [ruleCalls_append]
  simp [ruleCalls, h]

/-- Nothing that a check does calls a rule. -/
theorem keeps_ruleCalls (env : Setting σ) (calls : List Callback) :
    (env.recorded Event.mk).Keeps fun w => ruleCalls w.record = calls where
  apply _ _ _ hw := (ruleCalls_append_other rfl _).trans hw
  test id v w hw := by
    rw [Setting.recorded, runIn_noted_reply]
    exact (ruleCalls_append_other rfl _).trans hw
  later id v {w w' later} hw h := by
    rw [Setting.recorded, runIn_noted_reply] at h
    rcases htest : (env.test id v).runIn w.unrecorded with ⟨f | u | promised, w₁⟩ <;>
      rw [htest] at h <;> cases h
    exact (ruleCalls_append_other rfl _).trans hw
  resolve id w hw := by
    rw [Setting.runIn_resolve]
    cases w.built.lookup id with
    | some s => exact hw
    | none =>
        have hproduced :
            ruleCalls (((env.recorded Event.mk).produce id).runIn w).2.record = calls :=
          (ruleCalls_append_other rfl _).trans hw
        rcases hrun : ((env.recorded Event.mk).produce id).runIn w with ⟨f | s | u, w₁⟩ <;>
        · rw [hrun] at hproduced
          exact hproduced

/-- Asking leaves the entry of the predicate. -/
theorem record_ask (env : Setting σ) (mode : Mode) (s : Schema) (v : Value) (rule : Rule)
    (c : Context) (w : World (σ × List Event)) :
    ∃ promised, ((ask mode ((env.recorded Event.mk).testRule rule.check s v)).runIn
      c w).2.2.record = w.record ++ [⟨.rule rule.check s v, promised⟩] := by
  rw [runIn_ask, Setting.recorded, runIn_noted_reply]
  rcases (env.testRule rule.check s v).runIn w.unrecorded with ⟨f | u | later, w₁⟩
  · exact ⟨false, rfl⟩
  · exact ⟨false, rfl⟩
  · cases mode with
    | immediate => exact ⟨true, rfl⟩
    | awaited =>
        refine ⟨true, ?_⟩
        simp only [Except.map, Reply.unnoted, Act.runIn_unnoted, World.unrecorded_withHost]
        rcases later.runIn w₁ with ⟨f | u, w₂⟩ <;> rfl

/-- Asking rules leaves one entry for each, in order. -/
theorem ruleCalls_askRules (env : Setting σ) (mode : Mode) (s : Schema) (v : Value)
    (rules : List Rule) (c : Context) (w : World (σ × List Event)) :
    ruleCalls ((askRules (env.recorded Event.mk) mode s v rules).runIn c w).2.2.record =
      ruleCalls w.record ++ rules.map fun rule => .rule rule.check s v := by
  induction rules generalizing c w with
  | nil => exact (List.append_nil _).symm
  | cons rule rules ih =>
      obtain ⟨promised, hrecord⟩ := record_ask env mode s v rule c w
      obtain ⟨c₁, hone⟩ := exists_of_askRule (env.recorded Event.mk) mode s v rule c w
      rw [askRules, Engine.runIn_bind_of_ok _ hone, ih, hrecord, ruleCalls_append,
        List.append_assoc]
      rfl

/-! ## Whole values -/

/-- Validates a value, waiting for answers or not. -/
def validate (env : Setting σ) (mode : Mode) (depth : Nat) (entry : Entry) (s : Schema)
    (v : Value) : Act σ Outcome :=
  match mode with
  | .immediate => immediate env depth entry s v
  | .awaited => awaited env depth s v

/-- The outcome, or the fault of an entry point that does not wait where an answer was
promised. -/
def ending (mode : Mode) (entry : Entry) (promised : Bool) (o : Except Fault Outcome) :
    Except Fault Outcome :=
  if mode = .immediate ∧ promised = true then .error (.awaitRequired entry) else o

/-- Where no answer was promised the outcome is given. -/
@[simp] theorem ending_false (mode : Mode) (entry : Entry) (o : Except Fault Outcome) :
    ending mode entry false o = o := by
  simp [ending]

theorem runIn_validate (env : Setting σ) (mode : Mode) (depth : Nat) (entry : Entry) (s : Schema)
    (v : Value) (w : World σ) :
    (validate env mode depth entry s v).runIn w =
      match (checkWhole env mode depth s v).runIn {} w with
      | (.error f, _, w) => (.error f, w)
      | (.ok r, c, w) => (ending mode entry c.awaiting (finish r c.errors), w) := by
  cases mode with
  | immediate =>
      rw [validate, immediate, Act.runIn_bind, runIn_fresh]
      rcases (checkWhole env .immediate depth s v).runIn {} w with ⟨f | r, c, w'⟩
      · rfl
      · cases hnote : c.awaiting <;> simp [ending, hnote]
  | awaited =>
      rw [validate, awaited, Act.runIn_bind, runIn_fresh]
      rcases (checkWhole env .awaited depth s v).runIn {} w with ⟨f | r, c, w'⟩ <;> rfl

/-- The calls of rules that validating a value makes, in order. They are read off the
record of a host that keeps one; by `runIn_immediate_recorded` and `runIn_awaited_recorded`
that is the same run. -/
def rulesCalled (env : Setting σ) (mode : Mode) (depth : Nat) (entry : Entry) (s : Schema)
    (v : Value) (w : World σ) : List Callback :=
  ruleCalls ((validate (env.recorded Event.mk) mode depth entry s v).runIn w.recording).2.record

section Runs

variable {r : Value} {out : Except Fault Value} {f : Fault} {c₁ c₂ : Context} {w₁ w₂ : World σ}

theorem runIn_checkWhole_of_fault
    (hcheck : (check env mode depth s v).runIn {} w = (.error f, c₁, w₁)) :
    (checkWhole env mode depth s v).runIn {} w = (.error f, c₁, w₁) := by
  rw [checkWhole, Engine.runIn_bind, hcheck]

theorem runIn_checkWhole_of_errors
    (hcheck : (check env mode depth s v).runIn {} w = (.ok r, c₁, w₁)) (hfound : c₁.errors ≠ []) :
    (checkWhole env mode depth s v).runIn {} w = (.ok r, c₁, w₁) :=
  runIn_checkWhole_ok_iff.mpr ⟨c₁, w₁, hcheck, by simp [hfound]⟩

theorem runIn_checkWhole_of_clean
    (hcheck : (check env mode depth s v).runIn {} w = (.ok r, c₁, w₁)) (hclean : c₁.errors = [])
    (hrules : (askRules env mode s v env.rules).runIn c₁ w₁ = (.ok (), c₂, w₂)) :
    (checkWhole env mode depth s v).runIn {} w = (.ok r, c₂, w₂) :=
  runIn_checkWhole_ok_iff.mpr ⟨c₁, w₁, hcheck, by simpa [hclean] using hrules⟩

/-- The check on record ends as the check does, and has called no rule. -/
theorem exists_recorded_check
    (hcheck : (check env mode depth s v).runIn {} w = (out, c₁, w₁)) :
    ∃ w₂, (check (env.recorded Event.mk) mode depth s v).runIn {} w.recording = (out, c₁, w₂) ∧
      ruleCalls w₂.record = [] := by
  have halike : Recorded.Alike (· = ·) (check env mode depth s v)
      (check (env.recorded Event.mk) mode depth s v) :=
    Likeness.check (Recorded.settings env mode) depth s v
  have hrun := halike {} w.recording
  rcases hrecorded : (check (env.recorded Event.mk) mode depth s v).runIn {} w.recording with
    ⟨out', c', w₂⟩
  have hcalls := (Carry.of_check (Carry.keeping_settings (keeps_ruleCalls env []) mode) depth
    hrecorded).2 rfl
  change Recorded.EndAlike _ _ _ ((check env mode depth s v).runIn {} w) _ at hrun
  rw [hcheck, hrecorded] at hrun
  cases hrun with
  | value h => exact ⟨w₂, by rw [h], hcalls⟩
  | fault => exact ⟨w₂, rfl, hcalls⟩

/-- How a whole value is validated whose check ends by a fault. -/
theorem validate_of_fault (entry : Entry)
    (hcheck : (check env mode depth s v).runIn {} w = (.error f, c₁, w₁)) :
    rulesCalled env mode depth entry s v w = [] ∧
      (validate env mode depth entry s v).runIn w = (.error f, w₁) := by
  obtain ⟨w₂, hrecorded, hcalls⟩ := exists_recorded_check hcheck
  constructor
  · rw [rulesCalled, runIn_validate, runIn_checkWhole_of_fault hrecorded]
    exact hcalls
  · rw [runIn_validate, runIn_checkWhole_of_fault hcheck]

/-- How a whole value is validated whose check finds errors. -/
theorem validate_of_errors (entry : Entry)
    (hcheck : (check env mode depth s v).runIn {} w = (.ok r, c₁, w₁)) (hfound : c₁.errors ≠ []) :
    rulesCalled env mode depth entry s v w = [] ∧
      (validate env mode depth entry s v).runIn w =
        (ending mode entry c₁.awaiting (if ErrorRecord.areWritable c₁.errors
          then .ok (.refused c₁.errors) else .error .tooManyDigits), w₁) := by
  obtain ⟨w₂, hrecorded, hcalls⟩ := exists_recorded_check hcheck
  constructor
  · rw [rulesCalled, runIn_validate, runIn_checkWhole_of_errors hrecorded hfound]
    exact hcalls
  · rw [runIn_validate, runIn_checkWhole_of_errors hcheck hfound]
    simp [finish, hfound]

/-- How a whole value is validated whose check finds no error. -/
theorem validate_of_clean (entry : Entry)
    (hcheck : (check env mode depth s v).runIn {} w = (.ok r, c₁, w₁)) (hclean : c₁.errors = []) :
    rulesCalled env mode depth entry s v w =
        env.rules.map (fun rule => .rule rule.check s v) ∧
      ∃ xs w₂, Rulings env mode s v env.rules w₁ xs w₂ ∧
        (validate env mode depth entry s v).runIn w =
          (ending mode entry (c₁.awaiting || xs.any (·.2.isNone)) (finish r (rulingErrors xs)),
            w₂) := by
  have hroot : c₁.path = [] := (restored_of_check hcheck).path
  constructor
  · obtain ⟨w₂, hrecorded, hcalls⟩ := exists_recorded_check hcheck
    obtain ⟨xs, c', w', -, hrules, -⟩ :=
      exists_rulings (env.recorded Event.mk) mode s v env.rules hroot w₂
    have hall := ruleCalls_askRules env mode s v env.rules c₁ w₂
    rw [hrules, hcalls] at hall
    rw [rulesCalled, runIn_validate, runIn_checkWhole_of_clean hrecorded hclean hrules]
    exact hall
  · obtain ⟨xs, c₂, w₂, hxs, hrules, herrors, hnote⟩ :=
      exists_rulings env mode s v env.rules hroot w₁
    refine ⟨xs, w₂, hxs, ?_⟩
    rw [runIn_validate, runIn_checkWhole_of_clean hcheck hclean hrules]
    rw [hclean, List.nil_append] at herrors
    simp only [herrors]
    cases mode with
    | immediate => rw [hnote rfl]
    | awaited => rfl

/-- Without rules, what the check gives without an error is accepted. -/
theorem validate_of_ruleless (entry : Entry) (hrules : env.rules = [])
    (hcheck : (check env mode depth s v).runIn {} w = (.ok r, c₁, w₁)) (hclean : c₁.errors = []) :
    (validate env mode depth entry s v).runIn w =
      (ending mode entry c₁.awaiting (.ok (.accepted (if isMissing r then .null else r))),
        w₁) := by
  obtain ⟨-, xs, w₂, hxs, hrun⟩ := validate_of_clean entry hcheck hclean
  rw [hrules] at hxs
  cases hxs
  rw [hrun, List.any_nil, Bool.or_false]
  rfl

/-- A check that ends by a judgement finds no error exactly where the judgement accepts, and
nothing is changed then. -/
theorem check_clean_iff {j : Judgement} {c c' : Context} {u : Value}
    (hjudged : s.judge? w.store v = some (.ok j)) :
    (check env mode (depth + 1) s v).runIn c w = (.ok u, c', w₁) ∧ c'.errors = c.errors ↔
      j = .accepted u ∧ c' = c ∧ w₁ = w := by
  have hrun : (check env mode (depth + 1) s v).runIn c w = _ := runIn_checkLayer_of_judge? hjudged
  rw [hrun]
  cases j with
  | accepted r =>
      constructor
      · rintro ⟨h, -⟩
        cases h
        exact ⟨rfl, rfl, rfl⟩
      · rintro ⟨h, rfl, rfl⟩
        cases h
        exact ⟨rfl, rfl⟩
  | violated x =>
      constructor
      · rintro ⟨h, hsame⟩
        obtain ⟨-, message, rfl, -⟩ := Engine.eq_addError_of_runIn_refuse h
        simp [Context.addError] at hsame
      · rintro ⟨h, -⟩
        cases h

/-- Without rules, a whole value is accepted exactly where its judgement accepts it. -/
theorem validate_accepted_iff (entry : Entry) (hrules : env.rules = []) {j : Judgement} {u : Value}
    (hjudged : s.judge? w.store v = some (.ok j))
    (hpresent : ∀ r, j = .accepted r → isMissing r = false) :
    (validate env mode (depth + 1) entry s v).runIn w = (.ok (.accepted u), w₁) ↔
      j = .accepted u ∧ w₁ = w := by
  constructor
  · intro h
    rcases hcheck : (check env mode (depth + 1) s v).runIn {} w with ⟨f | r, c₂, w₂⟩
    · rw [(validate_of_fault entry hcheck).2] at h
      cases h
    · by_cases hclean : c₂.errors = []
      · obtain ⟨hj, rfl, rfl⟩ := (check_clean_iff hjudged).mp ⟨hcheck, hclean⟩
        rw [validate_of_ruleless entry hrules hcheck hclean, hpresent r hj] at h
        cases (ending_false mode entry _).symm.trans (Prod.ext_iff.mp h).1
        exact ⟨hj, (Prod.ext_iff.mp h).2.symm⟩
      · rw [(validate_of_errors entry hcheck hclean).2, ending] at h
        split at h
        · cases h
        · split at h <;> cases h
  · rintro ⟨hj, rfl⟩
    obtain ⟨hcheck, -⟩ := (check_clean_iff (c := {}) hjudged).mpr ⟨hj, rfl, rfl⟩
    rw [validate_of_ruleless entry hrules hcheck rfl, hpresent u hj]
    exact Prod.ext (ending_false mode entry _) rfl

/-- A judgement that hangs on a condition accepts exactly where the condition holds. -/
theorem ite_eq_accepted_iff {holds : Prop} [Decidable holds] {x : Violation} {u : Value} :
    (if holds then Judgement.accepted v else .violated x) = .accepted u ↔ holds ∧ u = v := by
  split <;> simp_all [eq_comm]

/-- Such a check finds no error exactly where the condition holds; the value is then the
result, and nothing is changed. -/
theorem check_finds_nothing_iff {holds : Prop} [Decidable holds] {x : Violation} {u : Value}
    {c c' : Context}
    (hjudged : s.judge? w.store v = some (.ok (if holds then .accepted v else .violated x))) :
    (check env mode (depth + 1) s v).runIn c w = (.ok u, c', w₁) ∧ c'.errors = c.errors ↔
      holds ∧ u = v ∧ c' = c ∧ w₁ = w := by
  rw [check_clean_iff hjudged, ite_eq_accepted_iff, and_assoc]

/-- Without rules, a whole value is accepted exactly where the condition holds. -/
theorem accepted_iff_of_judge? {holds : Prop} [Decidable holds] {x : Violation} {u : Value}
    (entry : Entry) (hrules : env.rules = []) (hvalue : isMissing v = false)
    (hjudged : s.judge? w.store v = some (.ok (if holds then .accepted v else .violated x))) :
    (validate env mode (depth + 1) entry s v).runIn w = (.ok (.accepted u), w₁) ↔
      holds ∧ u = v ∧ w₁ = w := by
  rw [validate_accepted_iff entry hrules hjudged, ite_eq_accepted_iff, and_assoc]
  rintro r hr
  rw [(ite_eq_accepted_iff.mp hr).2]
  exact hvalue

end Runs

/-- The errors of rules lie at the root. -/
theorem areWritable_rulingErrors (xs : List Ruling) :
    ErrorRecord.areWritable (rulingErrors xs) = true := by
  simp only [ErrorRecord.areWritable, rulingErrors, List.all_map, List.all_eq_true]
  exact fun _ _ => rfl

/-- A value is refused for rulings exactly if one of them is a refusal. -/
theorem finish_rulingErrors (r : Value) (xs : List Ruling) :
    finish r (rulingErrors xs) =
      .ok (if ∃ x ∈ xs, isRefusal x.2 = true then .refused (rulingErrors xs)
      else .accepted (if isMissing r then .null else r)) := by
  have hnone : rulingErrors xs = [] ↔ ¬ ∃ x ∈ xs, isRefusal x.2 = true := by
    rw [rulingErrors, List.map_eq_nil_iff, List.filter_eq_nil_iff]
    simp
  split
  · rename_i hrefused
    have hsome : rulingErrors xs ≠ [] := fun h => hnone.mp h hrefused
    simp [finish, hsome, areWritable_rulingErrors]
  · rename_i haccepted
    simp [finish, hnone.mpr haccepted]

/-- Rules are called exactly once each, in order, with the schema and the value that was
handed in, if the check ends without errors, whatever came of the rules before; else none
is called. The entry points that do not wait fault if an answer was promised. Otherwise a
value with errors of its own is refused for them, unless a path of theirs cannot be written.
And a value without errors of its own is refused exactly if some rule disagreed or faulted, with
one error at the root for each of these rules, in order; and it is accepted otherwise, with
the result of the check, null in place of an absent one. -/
theorem whole_value_is_ruled_on (env : Setting σ) (mode : Mode) (depth : Nat) (entry : Entry)
    (s : Schema) (v : Value) (w : World σ) :
    (∀ f c₁ w₁, (check env mode depth s v).runIn {} w = (.error f, c₁, w₁) →
      rulesCalled env mode depth entry s v w = [] ∧
        (validate env mode depth entry s v).runIn w = (.error f, w₁)) ∧
    (∀ r c₁ w₁, (check env mode depth s v).runIn {} w = (.ok r, c₁, w₁) → c₁.errors ≠ [] →
      rulesCalled env mode depth entry s v w = [] ∧
        (validate env mode depth entry s v).runIn w =
          (ending mode entry c₁.awaiting (if ErrorRecord.areWritable c₁.errors
            then .ok (.refused c₁.errors) else .error .tooManyDigits), w₁)) ∧
    (∀ r c₁ w₁, (check env mode depth s v).runIn {} w = (.ok r, c₁, w₁) → c₁.errors = [] →
      rulesCalled env mode depth entry s v w =
          env.rules.map (fun rule => .rule rule.check s v) ∧
        ∃ xs w₂, Rulings env mode s v env.rules w₁ xs w₂ ∧ xs.map Prod.fst = env.rules ∧
          (validate env mode depth entry s v).runIn w =
            (ending mode entry (c₁.awaiting || xs.any (·.2.isNone))
              (.ok (if ∃ x ∈ xs, isRefusal x.2 = true then .refused (rulingErrors xs)
              else .accepted (if isMissing r then .null else r))), w₂)) := by
  refine ⟨fun f c₁ w₁ => validate_of_fault entry, fun r c₁ w₁ => validate_of_errors entry, ?_⟩
  intro r c₁ w₁ hcheck hclean
  obtain ⟨hcalls, xs, w₂, hxs, hrun⟩ := validate_of_clean entry hcheck hclean
  refine ⟨hcalls, xs, w₂, hxs, hxs.map_fst, ?_⟩
  rw [hrun, finish_rulingErrors]

/-- A host whose rules agree, disagree, fault and promise to disagree, by number. -/
def rulingHost : Setting Unit where
  apply _ v := return v
  test _ _ := return .settled (.bool true)
  testRule id _ _ :=
    match id with
    | 0 => return .settled (.bool true)
    | 1 => return .settled (.bool false)
    | 2 => throw (.raised "ValueError" "no verdict")
    | _ => return .pending (return .bool false)
  produce _ := throw (.raised "ValueError" "no such schema")
  rules := [⟨"strict", 1, some "refused", .custom "strict"⟩, ⟨"broken", 2, none, .custom ""⟩,
    ⟨"lenient", 0, none, .custom "lenient"⟩, ⟨"late", 3, some "refused late", .custom "late"⟩]

/-- A check that faults and one that finds an error are followed by no rule, and one that
finds none by all four, of which the one that is waited for disagrees too. -/
theorem whole_value_is_ruled_on_late :
    (rulesCalled rulingHost .awaited 1 .safeParse (.string { min := some ⟨.null, none⟩ })
        (.text "abc") { host := () } = [] ∧
      (validate rulingHost .awaited 1 .safeParse (.string { min := some ⟨.null, none⟩ })
        (.text "abc")).runIn { host := () } =
          (.error (.incomparable .less "int" "NoneType"), { host := () })) ∧
    rulesCalled rulingHost .immediate 1 .parse .boolean (.int 5) { host := () } = [] ∧
    rulesCalled rulingHost .awaited 1 .safeParse .any (.int 5) { host := () } =
        [.rule 1 .any (.int 5), .rule 2 .any (.int 5), .rule 0 .any (.int 5),
          .rule 3 .any (.int 5)] ∧
      (validate rulingHost .awaited 1 .safeParse .any (.int 5)).runIn { host := () } =
        (.ok (.refused [⟨[], some "refused", .custom "strict", none⟩,
          ⟨[], some "no verdict", .builtin .pluginError, none⟩,
          ⟨[], some "refused late", .custom "late", none⟩]), { host := () }) := by
  have hfault := (whole_value_is_ruled_on rulingHost .awaited 1 .safeParse
    (.string { min := some ⟨.null, none⟩ }) (.text "abc") { host := () }).1 _ _ _ rfl
  have hfound := (whole_value_is_ruled_on rulingHost .immediate 1 .parse .boolean (.int 5)
    { host := () }).2.1 _ _ _ rfl (List.cons_ne_nil _ _)
  have hclean := (whole_value_is_ruled_on rulingHost .awaited 1 .safeParse .any (.int 5)
    { host := () }).2.2 _ _ _ rfl rfl
  exact ⟨hfault, hfound.1, hclean.1, rfl⟩

/-- The check of an absent value that may be absent gives the marker, and what is accepted
is null. -/
theorem absent_result_becomes_null :
    (check idleHost .immediate 2 (.optional (.string {})) .missing).runIn {} { host := () } =
        (.ok .missing, {}, { host := () }) ∧
      (immediate idleHost 2 .safeParse (.optional (.string {})) .missing).runIn { host := () } =
        (.ok (.accepted .null), { host := () }) :=
  ⟨rfl, rfl⟩

end Validate

end Conform
