import Conform.Validate

/-!
# Runs that end by a value

A run of an `Engine` ends by a value or a fault. This module takes apart the
runs that end by a value, one lemma for each way of putting works together:
what the parts gave, and which context and world each part left behind.

Everything that is proved about checks opens the engine by these lemmas and
by those beside its definition, and by nothing else.

## Main results

* `runIn_bind_ok_iff` — a run of work after work is a run of the first and a
  run of the second from where the first ended.
* `runIn_speculate_ok_iff` — an attempt leaves nothing on the context but the
  note that an answer was promised.
* `runIn_addViolation` — a violated check leaves one error, at the place of the
  context, unless there are no words for it.
-/

namespace Conform

namespace Act

variable {σ α β : Type}

theorem runIn_bind_ok_iff {act : Act σ α} {k : α → Act σ β} {w w' : World σ} {b : β} :
    (act >>= k).runIn w = (.ok b, w') ↔
      ∃ a w₁, act.runIn w = (.ok a, w₁) ∧ (k a).runIn w₁ = (.ok b, w') := by
  rw [runIn_bind]
  rcases act.runIn w with ⟨_ | a, w₁⟩
  · simp
  · constructor
    · intro h
      exact ⟨a, w₁, rfl, h⟩
    · rintro ⟨_, _, hrun, h⟩
      cases hrun
      exact h

/-- Two acts are alike where they start alike and go on alike. -/
theorem runIn_bind_congr {act act' : Act σ α} {k k' : α → Act σ β} {w : World σ}
    (h : act.runIn w = act'.runIn w)
    (hk : ∀ a w₁, act'.runIn w = (.ok a, w₁) → (k a).runIn w₁ = (k' a).runIn w₁) :
    (act >>= k).runIn w = (act' >>= k').runIn w := by
  rw [runIn_bind, runIn_bind, h]
  rcases hrun : act'.runIn w with ⟨_ | a, w₁⟩
  · rfl
  · exact hk a w₁ hrun

theorem runIn_tryCatch (act : Act σ α) (k : Fault → Act σ α) (w : World σ) :
    (tryCatch act k : Act σ α).runIn w =
      match act.runIn w with
      | (.ok a, w) => (.ok a, w)
      | (.error f, w) => (k f).runIn w := by
  show (ExceptT.tryCatch act k).run.run w = _
  rcases hrun : act.runIn w with ⟨f | a, w'⟩ <;>
  · have hact : StateT.run act w = _ := hrun
    simp only [ExceptT.tryCatch, ExceptT.run_mk, StateT.run_bind]
    rw [hact]
    rfl

theorem runIn_copyOf_error_iff {v : Value} {f : Fault} {w w' : World σ} :
    (copyOf v : Act σ Value).runIn w = (.error f, w') ↔
      w.store.isCopyable v = false ∧ f = .uncopyable "mappingproxy" ∧ w' = w := by
  rw [runIn_copyOf]
  cases w.store.isCopyable v <;> simp [eq_comm]

/-- A copy is made of what can be copied, and of nothing else. -/
theorem runIn_copyOf_ok_iff {v u : Value} {w w' : World σ} :
    (copyOf v : Act σ Value).runIn w = (.ok u, w') ↔
      w.store.isCopyable v = true ∧ u = v.detach ∧ w' = w := by
  rw [runIn_copyOf]
  cases w.store.isCopyable v <;> simp [eq_comm]

end Act

namespace Context

/-! ## Looking into a value -/

/-- On a fresh context nothing is being looked into. -/
theorem hasVisited_at (p : Path) (v : Value) : hasVisited { path := p } v = false := by
  unfold hasVisited
  cases v.identity? <;> rfl

@[simp] theorem path_mark (c : Context) (v : Value) : (c.mark v).path = c.path := by
  unfold mark
  split
  · split <;> rfl
  · rfl

@[simp] theorem path_unmark (c : Context) (v : Value) : (c.unmark v).path = c.path := by
  unfold unmark
  split <;> rfl

@[simp] theorem errors_mark (c : Context) (v : Value) : (c.mark v).errors = c.errors := by
  unfold mark
  split
  · split <;> rfl
  · rfl

@[simp] theorem errors_unmark (c : Context) (v : Value) : (c.unmark v).errors = c.errors := by
  unfold unmark
  split <;> rfl

@[simp] theorem awaiting_mark (c : Context) (v : Value) : (c.mark v).awaiting = c.awaiting := by
  unfold mark
  split
  · split <;> rfl
  · rfl

@[simp] theorem awaiting_unmark (c : Context) (v : Value) :
    (c.unmark v).awaiting = c.awaiting := by
  unfold unmark
  split <;> rfl

end Context

/-- A deferred schema is the one that was built, or else what its factory
gives, which is built from then on. -/
theorem Setting.runIn_resolve {σ : Type} (env : Setting σ) (id : Nat) (w : World σ) :
    (env.resolve id).runIn w =
      match w.built.lookup id with
      | some s => (.ok s, w)
      | none =>
        match (env.produce id).runIn w with
        | (.ok (.schema s), w) => (.ok s, { w with built := (id, s) :: w.built })
        | (.ok (.value v), w) => (.error (.notSchema .deferred (w.store.className v)), w)
        | (.error f, w) => (.error f, w) := by
  have hget : (get : Act σ (World σ)).runIn w = (.ok w, w) := rfl
  unfold Setting.resolve
  rw [Act.runIn_bind, hget]
  simp only
  cases w.built.lookup id with
  | some s => rfl
  | none =>
      simp only
      rw [Act.runIn_bind]
      rcases (env.produce id).runIn w with ⟨f | s | v, w₁⟩ <;> rfl

/-- The words of the error for a violated check: its own words, or else those of the template
in force or the default ones. Without default words there are none. -/
def Violation.message {σ : Type} (x : Violation) (env : Setting σ) (st : Store) :
    Except Fault String :=
  match x.words with
  | .error f => .error f
  | .ok default =>
    match x.own with
    | some words => .ok words
    | none => env.catalog.format env.scope st (Code.builtin x.code).text default x.details

/-- A result is there, unless an integer has too many digits to be written. -/
def Spelled {α : Type} (r : Except Fault α) : Prop := ∀ f, r = .error f → f = .tooManyDigits

namespace Spelled

variable {α : Type} {r : Except Fault α}

theorem ok (a : α) : Spelled (.ok a : Except Fault α) := nofun

theorem tooManyDigits : Spelled (.error .tooManyDigits : Except Fault α) := by
  rintro _ ⟨⟩
  rfl

theorem written (writable : Bool) (text : String) : Spelled (written writable text) :=
  fun _ => eq_tooManyDigits_of_written

theorem bind {β : Type} {k : α → Except Fault β} (h : Spelled r) (hk : ∀ a, Spelled (k a)) :
    Spelled (r >>= k) := by
  rcases r with f | a
  · exact fun _ hf => h _ (congrArg _ (Except.error.inj hf))
  · exact hk a

theorem map {β : Type} (h : Spelled r) (g : α → β) : Spelled (r.map g) := by
  rcases r with f | a
  · exact fun _ hf => h _ (congrArg _ (Except.error.inj hf))
  · exact .ok _

theorem cases (h : Spelled r) : (∃ a, r = .ok a) ∨ r = .error .tooManyDigits := by
  rcases r with f | a
  · exact .inr (congrArg _ (h f rfl))
  · exact .inl ⟨a, rfl⟩

end Spelled

/-- The words of an error are there if the default ones are and templates give theirs. -/
theorem Violation.spelled_message {σ : Type} {x : Violation} {env : Setting σ} {st : Store}
    (hx : Spelled x.words)
    (hformat : ∀ code words details,
      Spelled (env.catalog.format env.scope st code words details)) :
    Spelled (x.message env st) := by
  unfold Violation.message
  split
  · rename_i f hwords
    rw [hx f hwords]
    exact .tooManyDigits
  · split
    · exact .ok _
    · exact hformat _ _ _

namespace Engine

variable {σ α β : Type} {c c' : Context} {w w' : World σ}

/-! ## Work after work -/

theorem runIn_bind_ok_iff {e : Engine σ α} {k : α → Engine σ β} {b : β} :
    (e >>= k).runIn c w = (.ok b, c', w') ↔
      ∃ a c₁ w₁, e.runIn c w = (.ok a, c₁, w₁) ∧ (k a).runIn c₁ w₁ = (.ok b, c', w') := by
  rw [runIn_bind]
  rcases e.runIn c w with ⟨_ | a, c₁, w₁⟩
  · simp
  · constructor
    · intro h
      exact ⟨a, c₁, w₁, rfl, h⟩
    · rintro ⟨_, _, _, hrun, h⟩
      cases hrun
      exact h

/-- Work goes on from where the work before it ended. -/
theorem runIn_bind_of_ok {e : Engine σ α} (k : α → Engine σ β) {a : α}
    (h : e.runIn c w = (.ok a, c', w')) : (e >>= k).runIn c w = (k a).runIn c' w' := by
  rw [runIn_bind, h]

/-- Two works are alike where they start alike and go on alike. -/
theorem runIn_bind_congr {e e' : Engine σ α} {k k' : α → Engine σ β}
    (h : e.runIn c w = e'.runIn c w)
    (hk : ∀ a c₁ w₁, e'.runIn c w = (.ok a, c₁, w₁) →
      (k a).runIn c₁ w₁ = (k' a).runIn c₁ w₁) :
    (e >>= k).runIn c w = (e' >>= k').runIn c w := by
  rw [runIn_bind, runIn_bind, h]
  rcases hrun : e'.runIn c w with ⟨_ | a, c₁, w₁⟩
  · rfl
  · exact hk a c₁ w₁ hrun

/-! ## Acts -/

/-- An act after an act is done on the same context. -/
theorem ofAct_bind (act : Act σ α) (k : α → Act σ β) :
    ofAct (act >>= k) = ofAct act >>= fun a => ofAct (k a) := by
  funext ⟨c, w⟩
  show (ofAct (act >>= k)).runIn c w = (ofAct act >>= fun a => ofAct (k a)).runIn c w
  rw [runIn_bind, runIn_ofAct, runIn_ofAct, Act.runIn_bind]
  rcases act.runIn w with ⟨_ | a, w₁⟩ <;> rfl

/-- A copy is made on any context. -/
theorem ofAct_copyOf (v : Value) :
    (ofAct (Act.copyOf v) : Engine σ Value) = (do
      if (← store).isCopyable v then return v.detach
      else throw (Fault.uncopyable "mappingproxy")) := by
  funext ⟨c, w⟩
  show (ofAct (Act.copyOf v)).runIn c w = Engine.runIn _ c w
  rw [runIn_bind, runIn_store, runIn_ofAct, Act.runIn_copyOf]
  simp only
  cases w.store.isCopyable v <;> rfl

theorem runIn_ofAct_ok_iff {act : Act σ α} {a : α} :
    (ofAct act).runIn c w = (.ok a, c', w') ↔ act.runIn w = (.ok a, w') ∧ c' = c := by
  rw [runIn_ofAct]
  rcases act.runIn w with ⟨r, w₁⟩
  simp only [Prod.mk.injEq]
  exact ⟨fun ⟨h₁, h₂, h₃⟩ => ⟨⟨h₁, h₃⟩, h₂.symm⟩, fun ⟨⟨h₁, h₃⟩, h₂⟩ => ⟨h₁, h₂.symm, h₃⟩⟩

/-! ## Places, containers and attempts -/

theorem runIn_within (k : Key) (work : Engine σ α) (c : Context) (w : World σ) :
    (within k work).runIn c w =
      ((work.runIn (c.push k) w).1, (work.runIn (c.push k) w).2.1.pop,
        (work.runIn (c.push k) w).2.2) := rfl

theorem runIn_lookingInto (v : Value) (work : Engine σ α) (c : Context) (w : World σ) :
    (lookingInto v work).runIn c w =
      ((work.runIn (c.mark v) w).1, (work.runIn (c.mark v) w).2.1.unmark v,
        (work.runIn (c.mark v) w).2.2) := rfl

theorem runIn_onCopy (work : Engine σ α) (c : Context) (w : World σ) :
    (onCopy work).runIn c w =
      ((work.runIn c.afresh w).1, c.resume (work.runIn c.afresh w).2.1,
        (work.runIn c.afresh w).2.2) := rfl

theorem runIn_bracket_ok_iff {enter leave : Context → Context} {work : Engine σ α} {a : α} :
    (bracket enter leave work).runIn c w = (.ok a, c', w') ↔
      ∃ c₁, work.runIn (enter c) w = (.ok a, c₁, w') ∧ c' = leave c₁ := by
  rw [runIn_bracket]
  rcases work.runIn (enter c) w with ⟨r, c₁, w₁⟩
  simp only [Prod.mk.injEq]
  constructor
  · rintro ⟨rfl, rfl, rfl⟩
    exact ⟨c₁, ⟨rfl, rfl, rfl⟩, rfl⟩
  · rintro ⟨_, ⟨rfl, rfl, rfl⟩, rfl⟩
    exact ⟨rfl, rfl, rfl⟩

theorem runIn_within_ok_iff {k : Key} {work : Engine σ α} {a : α} :
    (within k work).runIn c w = (.ok a, c', w') ↔
      ∃ c₁, work.runIn (c.push k) w = (.ok a, c₁, w') ∧ c' = c₁.pop :=
  runIn_bracket_ok_iff

theorem runIn_lookingInto_ok_iff {v : Value} {work : Engine σ α} {a : α} :
    (lookingInto v work).runIn c w = (.ok a, c', w') ↔
      ∃ c₁, work.runIn (c.mark v) w = (.ok a, c₁, w') ∧ c' = c₁.unmark v :=
  runIn_bracket_ok_iff

theorem runIn_onCopy_ok_iff {work : Engine σ α} {a : α} :
    (onCopy work).runIn c w = (.ok a, c', w') ↔
      ∃ d, work.runIn c.afresh w = (.ok a, d, w') ∧ c' = c.resume d := by
  show (bracket .afresh c.resume work).runIn c w = _ ↔ _
  exact runIn_bracket_ok_iff

theorem runIn_speculate (work : Engine σ α) (c : Context) (w : World σ) :
    (speculate work).runIn c w =
      match work.runIn c.fork w with
      | (.error f, _, w) => (.error f, c, w)
      | (.ok a, fork, w) =>
        (.ok (a, fork.errors), { c with awaiting := c.awaiting || fork.awaiting }, w) := rfl

/-- An attempt leaves nothing on the context but the note that an answer was
promised. -/
theorem runIn_speculate_ok_iff {work : Engine σ α} {a : α} {es : List ErrorRecord} :
    (speculate work).runIn c w = (.ok (a, es), c', w') ↔
      ∃ fork, work.runIn c.fork w = (.ok a, fork, w') ∧ es = fork.errors ∧
        c' = { c with awaiting := c.awaiting || fork.awaiting } := by
  rw [runIn_speculate]
  rcases work.runIn c.fork w with ⟨_ | b, fork, w₁⟩
  · simp
  · simp only [Prod.mk.injEq, Except.ok.injEq]
    constructor
    · rintro ⟨⟨rfl, rfl⟩, rfl, rfl⟩
      exact ⟨fork, ⟨rfl, rfl, rfl⟩, rfl, rfl⟩
    · rintro ⟨_, ⟨rfl, rfl, rfl⟩, rfl, rfl⟩
      exact ⟨⟨rfl, rfl⟩, rfl, rfl⟩

/-! ## Errors -/

/-- A violated check leaves one error, at the place of the context, with the code and the
details of the violation, unless there are no words for it. -/
theorem runIn_addViolation (env : Setting σ) (x : Violation) (c : Context) (w : World σ) :
    (addViolation env x).runIn c w =
      match x.message env w.store with
      | .ok words => (.ok (), c.addError ⟨c.path, some words, .builtin x.code, x.details⟩, w)
      | .error f => (.error f, c, w) := by
  unfold addViolation Violation.message
  cases x.words with
  | error f => rfl
  | ok words =>
      cases x.own with
      | some own => rfl
      | none =>
          simp only [runIn_ofRun, Context.addTemplated]
          cases env.catalog.format env.scope w.store (Code.builtin x.code).text words x.details <;>
            rfl

theorem runIn_addViolation_ok_iff {env : Setting σ} {x : Violation} {u : Unit} :
    (addViolation env x).runIn c w = (.ok u, c', w') ↔
      ∃ words, x.message env w.store = .ok words ∧
        c' = c.addError ⟨c.path, some words, .builtin x.code, x.details⟩ ∧ w' = w := by
  rw [runIn_addViolation]
  cases x.message env w.store <;> simp [eq_comm]

theorem runIn_refuse (env : Setting σ) (x : Violation) (c : Context) (w : World σ) :
    (refuse env x).runIn c w =
      match x.message env w.store with
      | .ok words =>
        (.ok .invalid, c.addError ⟨c.path, some words, .builtin x.code, x.details⟩, w)
      | .error f => (.error f, c, w) := by
  rw [refuse, runIn_bind, runIn_addViolation]
  cases x.message env w.store <;> rfl

theorem eq_addError_of_runIn_addViolation {env : Setting σ} {x : Violation} {u : Unit}
    (h : (addViolation env x).runIn c w = (.ok u, c', w')) :
    ∃ message, c' = c.addError ⟨c.path, message, .builtin x.code, x.details⟩ ∧ w' = w := by
  obtain ⟨words, -, hc, hw⟩ := runIn_addViolation_ok_iff.mp h
  exact ⟨some words, hc, hw⟩

/-- A refusal is the marker of a failed check, with one error. -/
theorem eq_addError_of_runIn_refuse {env : Setting σ} {x : Violation} {v : Value}
    (h : (refuse env x).runIn c w = (.ok v, c', w')) :
    v = .invalid ∧
      ∃ message, c' = c.addError ⟨c.path, message, .builtin x.code, x.details⟩ ∧ w' = w := by
  obtain ⟨u, c₁, w₁, hadd, hpure⟩ := runIn_bind_ok_iff.mp h
  simp only [runIn_pure, Prod.mk.injEq, Except.ok.injEq] at hpure
  obtain ⟨rfl, rfl, rfl⟩ := hpure
  exact ⟨rfl, eq_addError_of_runIn_addViolation hadd⟩

end Engine

namespace Traverse

variable {σ : Type}

/-! ## Single values -/

/-- A schema without parts is a layer by itself: its judgement, settled. -/
theorem runIn_checkLayer_of_judge? {env : Setting σ} {mode : Mode} {depth : Nat}
    {accepts : MissingTest σ} {child : Checker σ} {s : Schema} {v : Value} {c : Context}
    {w : World σ} {j : Except Fault Judgement} (h : s.judge? w.store v = some j) :
    (checkLayer env mode depth accepts child s v).runIn c w = (settle env j).runIn c w := by
  unfold checkLayer
  split
  case h_11 =>
    rw [Engine.runIn_bind_of_ok _ (Engine.runIn_store c w), h]
  all_goals cases h

/-! ## Containers -/

theorem runIn_checkObject (env : Setting σ) (accepts : MissingTest σ) (child : Checker σ)
    (fields : Entries Schema) (unknown : UnknownKeys) (v : Value) (c : Context) (w : World σ) :
    (checkObject env accepts child fields unknown v).runIn c w =
      if (w.store.entries? v).isNone then
        (Engine.refuse env (.wrongKind "object" (w.store.kindName v) "Expected object")).runIn c w
      else if c.hasVisited v then (Engine.refuse env circular).runIn c w
      else (Engine.lookingInto v (checkFields env accepts child v fields) >>= fun done =>
        finishObject env fields unknown v done.1 done.2).runIn c w := by
  unfold checkObject
  rw [Engine.runIn_bind_of_ok _ (Engine.runIn_store c w)]
  cases (w.store.entries? v).isNone with
  | true => rfl
  | false =>
      simp only [Bool.false_eq_true, if_false]
      rw [Engine.runIn_bind_of_ok _ (Engine.runIn_context c w)]
      cases c.hasVisited v <;> rfl

theorem runIn_checkArray (env : Setting σ) (depth : Nat) (child : Checker σ) (element : Schema)
    (bounds : ArrayBounds) (v : Value) (c : Context) (w : World σ) :
    (checkArray env depth child element bounds v).runIn c w =
      if (w.store.items? v).isNone then
        (Engine.refuse env (.wrongKind "array" (w.store.kindName v) "Expected array")).runIn c w
      else if c.hasVisited v then (Engine.refuse env circular).runIn c w
      else (Engine.lookingInto v
          (checkItems (child element) v ((w.store.itemsOf v).length + depth) 0) >>= fun done =>
        finishArray env bounds v done.1 done.2).runIn c w := by
  unfold checkArray
  rw [Engine.runIn_bind_of_ok _ (Engine.runIn_store c w)]
  cases (w.store.items? v).isNone with
  | true => rfl
  | false =>
      simp only [Bool.false_eq_true, if_false]
      rw [Engine.runIn_bind_of_ok _ (Engine.runIn_context c w)]
      cases c.hasVisited v <;> rfl

/-! ## Callbacks -/

/-- A step is applied on the same context; if it faults, there is one more
error at the place of the context. -/
theorem runIn_applyStep (env : Setting σ) (step : Step) (v : Value) (c : Context) (w : World σ) :
    (applyStep env step v).runIn c w =
      match (step.applyTo env v).runIn w with
      | (.ok u, w) => (.ok u, c, w)
      | (.error f, w) =>
        (.ok .invalid, c.addError ⟨c.path, orWords f.text (some "Transformation failed"),
          .builtin .transformError, none⟩, w) := by
  unfold applyStep
  rw [Engine.runIn_bind, Engine.runIn_attempt]
  rcases (step.applyTo env v).runIn w with ⟨_ | u, w₁⟩ <;> rfl

/-- Asking changes nothing on the context but the note that an answer was
promised. -/
theorem runIn_ask (mode : Mode) (test : Act σ (Reply σ)) (c : Context) (w : World σ) :
    (ask mode test).runIn c w =
      match test.runIn w with
      | (.error f, w) => (.ok (some (.error f)), c, w)
      | (.ok (.settled v), w) => (.ok (some (.ok (w.store.truthy v))), c, w)
      | (.ok (.pending later), w) =>
        match mode with
        | .immediate => (.ok none, c.markAwaiting, w)
        | .awaited =>
          match later.runIn w with
          | (.error f, w) => (.ok (some (.error f)), c.markAwaiting, w)
          | (.ok v, w) => (.ok (some (.ok (w.store.truthy v))), c.markAwaiting, w) := by
  unfold ask
  rw [Engine.runIn_bind, Engine.runIn_attempt]
  rcases test.runIn w with ⟨_ | _ | later, w₁⟩
  · rfl
  · rfl
  · cases mode with
    | immediate => rfl
    | awaited =>
        simp only [Engine.runIn_bind, Engine.runIn_change, Engine.runIn_attempt]
        rcases later.runIn w₁ with ⟨_ | v, w₂⟩ <;> rfl

end Traverse

/-! ## Whole values -/

namespace Validate

variable {σ : Type} {env : Setting σ} {mode : Mode} {depth : Nat} {s : Schema} {v : Value}
  {w w' : World σ}

theorem runIn_fresh {α : Type} (work : Engine σ α) (w : World σ) :
    (fresh work).runIn w =
      match work.runIn {} w with
      | (.ok a, c, w) => (.ok (a, c), w)
      | (.error f, _, w) => (.error f, w) := rfl

theorem runIn_fresh_ok_iff {α : Type} {work : Engine σ α} {a : α} {c : Context} :
    (fresh work).runIn w = (.ok (a, c), w') ↔ work.runIn {} w = (.ok a, c, w') := by
  rw [runIn_fresh]
  rcases work.runIn {} w with ⟨_ | b, c₁, w₁⟩
  · simp
  · simp only [Prod.mk.injEq, Except.ok.injEq]
    exact ⟨fun ⟨⟨h₁, h₂⟩, h₃⟩ => ⟨h₁, h₂, h₃⟩, fun ⟨h₁, h₂, h₃⟩ => ⟨⟨h₁, h₂⟩, h₃⟩⟩

/-- The rules are asked exactly if the check left no error. -/
theorem runIn_checkWhole_ok_iff {r : Value} {c c' : Context} :
    (checkWhole env mode depth s v).runIn c w = (.ok r, c', w') ↔
      ∃ c₁ w₁, (check env mode depth s v).runIn c w = (.ok r, c₁, w₁) ∧
        if c₁.errors.isEmpty then
          (askRules env mode s v env.rules).runIn c₁ w₁ = (.ok (), c', w')
        else c' = c₁ ∧ w' = w₁ := by
  constructor
  · intro h
    obtain ⟨r', c₁, w₁, hcheck, hrest⟩ := Engine.runIn_bind_ok_iff.mp h
    rw [Engine.runIn_bind_of_ok _ (Engine.runIn_context c₁ w₁)] at hrest
    cases hclean : c₁.errors.isEmpty with
    | true =>
        simp only [hclean, if_true] at hrest
        obtain ⟨u, c₂, w₂, hrules, hpure⟩ := Engine.runIn_bind_ok_iff.mp hrest
        cases hpure
        exact ⟨c₁, w₁, hcheck, by simpa only [hclean, if_true] using hrules⟩
    | false =>
        simp only [hclean, Bool.false_eq_true, if_false] at hrest
        cases hrest
        exact ⟨_, _, hcheck, by simp only [hclean, Bool.false_eq_true, if_false, and_self]⟩
  · rintro ⟨c₁, w₁, hcheck, hrest⟩
    refine Engine.runIn_bind_ok_iff.mpr ⟨r, c₁, w₁, hcheck, ?_⟩
    rw [Engine.runIn_bind_of_ok _ (Engine.runIn_context c₁ w₁)]
    cases hclean : c₁.errors.isEmpty with
    | true =>
        simp only [hclean, if_true] at hrest ⊢
        exact Engine.runIn_bind_of_ok _ hrest
    | false =>
        simp only [hclean, Bool.false_eq_true, if_false] at hrest ⊢
        obtain ⟨rfl, rfl⟩ := hrest
        rfl

/-- So there is no error in the end exactly if the check left none and the rules did not. -/
theorem runIn_checkWhole_clean_iff {r : Value} {c c' : Context} (hclean : c'.errors = []) :
    (checkWhole env mode depth s v).runIn c w = (.ok r, c', w') ↔
      ∃ c₁ w₁, (check env mode depth s v).runIn c w = (.ok r, c₁, w₁) ∧ c₁.errors = [] ∧
        (askRules env mode s v env.rules).runIn c₁ w₁ = (.ok (), c', w') := by
  rw [runIn_checkWhole_ok_iff]
  refine exists_congr fun c₁ => exists_congr fun w₁ => and_congr_right fun _ => ?_
  by_cases hnone : c₁.errors = []
  · simp [hnone]
  · simp only [hnone, List.isEmpty_iff, if_false, false_and, iff_false]
    rintro ⟨rfl, -⟩
    exact hnone hclean

theorem runIn_immediate_ok_iff {entry : Entry} {o : Outcome} :
    (immediate env depth entry s v).runIn w = (.ok o, w') ↔
      ∃ r c, (checkWhole env .immediate depth s v).runIn {} w = (.ok r, c, w') ∧
        c.awaiting = false ∧ finish r c.errors = .ok o := by
  constructor
  · intro h
    obtain ⟨⟨r, c⟩, w₁, hfresh, hrest⟩ := Act.runIn_bind_ok_iff.mp h
    have hrun := runIn_fresh_ok_iff.mp hfresh
    cases hawaiting : c.awaiting with
    | true =>
        simp only [hawaiting, if_true] at hrest
        cases hrest
    | false =>
        simp only [hawaiting, Bool.false_eq_true, if_false, Act.runIn_ofExcept,
          Prod.mk.injEq] at hrest
        obtain ⟨hfinish, rfl⟩ := hrest
        exact ⟨r, c, hrun, hawaiting, hfinish⟩
  · rintro ⟨r, c, hrun, hawaiting, hfinish⟩
    refine Act.runIn_bind_ok_iff.mpr ⟨(r, c), w', runIn_fresh_ok_iff.mpr hrun, ?_⟩
    simp only [hawaiting, Bool.false_eq_true, if_false, Act.runIn_ofExcept, hfinish]

theorem runIn_awaited_ok_iff {o : Outcome} :
    (awaited env depth s v).runIn w = (.ok o, w') ↔
      ∃ r c, (checkWhole env .awaited depth s v).runIn {} w = (.ok r, c, w') ∧
        finish r c.errors = .ok o := by
  constructor
  · intro h
    obtain ⟨⟨r, c⟩, w₁, hfresh, hrest⟩ := Act.runIn_bind_ok_iff.mp h
    simp only [Act.runIn_ofExcept, Prod.mk.injEq] at hrest
    obtain ⟨hfinish, rfl⟩ := hrest
    exact ⟨r, c, runIn_fresh_ok_iff.mp hfresh, hfinish⟩
  · rintro ⟨r, c, hrun, hfinish⟩
    refine Act.runIn_bind_ok_iff.mpr ⟨(r, c), w', runIn_fresh_ok_iff.mpr hrun, ?_⟩
    simp only [Act.runIn_ofExcept, hfinish]

/-- What is accepted is the result, null in place of an absent one; anything
is accepted exactly if there was no error. -/
theorem finish_eq_accepted_iff {result u : Value} {errors : List ErrorRecord} :
    finish result errors = .ok (.accepted u) ↔
      errors = [] ∧ u = if Traverse.isMissing result then .null else result := by
  unfold finish
  cases errors with
  | nil =>
      simp only [List.isEmpty_nil, if_true, Except.ok.injEq, Outcome.accepted.injEq, true_and]
      exact eq_comm
  | cons e es =>
      simp only [List.isEmpty_cons, Bool.false_eq_true, if_false, reduceCtorEq, false_and,
        iff_false]
      split <;> simp

/-- Errors that are refused are those that were found, and their paths can be written. -/
theorem finish_eq_refused_iff {result : Value} {errors refused : List ErrorRecord} :
    finish result errors = .ok (.refused refused) ↔
      errors ≠ [] ∧ ErrorRecord.areWritable errors = true ∧ refused = errors := by
  unfold finish
  cases errors with
  | nil => simp
  | cons e es =>
      cases hwritable : ErrorRecord.areWritable (e :: es) <;> simp [eq_comm]

/-- A value is refused exactly if there is an error. -/
theorem isAccepted_eq_false_iff {result : Value} {errors : List ErrorRecord} {o : Outcome}
    (h : finish result errors = .ok o) : o.isAccepted = false ↔ errors ≠ [] := by
  cases o with
  | accepted u => simp [Outcome.isAccepted, (finish_eq_accepted_iff.mp h).1]
  | refused es => simpa [Outcome.isAccepted] using (finish_eq_refused_iff.mp h).1

/-- No outcome is given exactly where some path of an error cannot be written. -/
theorem finish_eq_error_iff {result : Value} {errors : List ErrorRecord} {f : Fault} :
    finish result errors = .error f ↔
      errors ≠ [] ∧ ErrorRecord.areWritable errors = false ∧ f = .tooManyDigits := by
  unfold finish
  cases errors with
  | nil => simp
  | cons e es =>
      cases hwritable : ErrorRecord.areWritable (e :: es) <;> simp [eq_comm]

end Validate

end Conform
