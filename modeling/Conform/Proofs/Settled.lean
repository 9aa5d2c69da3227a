import Conform.Proofs.Record

/-!
# Awaiting is settling in place

Waiting for the answers that predicates promise is the same as having
predicates that answer at once. `Setting.settled` is the setting in which
every predicate, of a schema or of a rule, does its promised work where it is
asked and gives the answer, or the fault, that waiting for it would have
given.

A check that awaits in one setting and a check that does not wait in the
settled one are alike step by step: they differ only in the note on the
context that an answer was promised. So whole values have equal outcomes, and
the worlds after them are equal. Nothing is assumed of the host or of its
callbacks. So it may be a host that keeps a record, and then the two runs have
called the same callbacks on the same values in the same order.

## Main results

* `Settled.settings` — the two settings are alike.
* `awaited_eq_immediate_settled` — awaiting a whole value is settling it.
-/

namespace Conform

/-- The work that is left of an answer: none, or what was promised. -/
def Reply.finish {σ : Type} : Reply σ → Act σ Value
  | .settled v => return v
  | .pending later => later

/-- The setting in which every predicate answers at once. -/
def Setting.settled {σ : Type} (env : Setting σ) : Setting σ :=
  { env with
    test := fun id v => do return .settled (← (← env.test id v).finish)
    testRule := fun id s v => do return .settled (← (← env.testRule id s v).finish) }

/-- A context without the note that an answer was promised. -/
def Context.unnoted (c : Context) : Context := { c with awaiting := false }

@[simp] theorem Context.unnoted_hasVisited (c : Context) (v : Value) :
    c.unnoted.hasVisited v = c.hasVisited v := rfl

@[simp] theorem Context.unnoted_mark (c : Context) (v : Value) :
    c.unnoted.mark v = (c.mark v).unnoted := by
  unfold Context.mark
  split
  · split <;> simp_all [Context.unnoted]
  · rfl

@[simp] theorem Context.unnoted_unmark (c : Context) (v : Value) :
    c.unnoted.unmark v = (c.unmark v).unnoted := by
  unfold Context.unmark
  split <;> rfl

open Traverse

namespace Settled

variable {σ : Type}

/-- Two runs end alike: by alike values or by the same fault, in the same
world, the second without the note that an answer was promised. -/
inductive EndAlike {α β : Type} (R : α → β → Prop) :
    Except Fault α × Context × World σ → Except Fault β × Context × World σ → Prop
  | value {a : α} {b : β} (h : R a b) (c : Context) (w : World σ) :
      EndAlike R (.ok a, c, w) (.ok b, c.unnoted, w)
  | fault (f : Fault) (c : Context) (w : World σ) :
      EndAlike R (.error f, c, w) (.error f, c.unnoted, w)

/-- Works that end alike when the second starts without the note. -/
def Alike {α β : Type} (R : α → β → Prop) (e : Engine σ α) (e' : Engine σ β) : Prop :=
  ∀ c w, EndAlike R (e.runIn c w) (e'.runIn c.unnoted w)

theorem Alike.bind {α β γ δ : Type} {R : α → β → Prop} {S : γ → δ → Prop} {e : Engine σ α}
    {e' : Engine σ β} {k : α → Engine σ γ} {k' : β → Engine σ δ} (h : Alike R e e')
    (hk : ∀ a b, R a b → Alike S (k a) (k' b)) : Alike S (e >>= k) (e' >>= k') := by
  intro c w
  have hrun := h c w
  rw [Engine.runIn_bind, Engine.runIn_bind]
  generalize e.runIn c w = out, e'.runIn c.unnoted w = out' at hrun ⊢
  cases hrun with
  | value hab c₁ w₁ => exact hk _ _ hab c₁ w₁
  | fault f c₁ w₁ => exact .fault f c₁ w₁

/-- Work between two changes of the context that come to the same with and
without the note. -/
theorem Alike.bracket {α β : Type} {R : α → β → Prop} {e : Engine σ α} {e' : Engine σ β}
    {enter leave : Context → Context} (henter : ∀ c, enter c.unnoted = (enter c).unnoted)
    (hleave : ∀ c, leave c.unnoted = (leave c).unnoted) (h : Alike R e e') :
    Alike R (Engine.bracket enter leave e) (Engine.bracket enter leave e') := by
  intro c w
  have hrun := h (enter c) w
  rw [Engine.runIn_bracket, Engine.runIn_bracket, henter]
  generalize e.runIn (enter c) w = out, e'.runIn (enter c).unnoted w = out' at hrun ⊢
  cases hrun with
  | value hab c₁ w₁ => exact hleave c₁ ▸ .value hab (leave c₁) w₁
  | fault f c₁ w₁ => exact hleave c₁ ▸ .fault f (leave c₁) w₁

theorem Alike.onCopy {α β : Type} {R : α → β → Prop} {e : Engine σ α} {e' : Engine σ β}
    (h : Alike R e e') : Alike R (Engine.onCopy e) (Engine.onCopy e') :=
  fun c => Alike.bracket (fun d => (rfl : d.unnoted.afresh = d.afresh.unnoted))
    (fun d => (rfl : c.resume d.unnoted = (c.resume d).unnoted)) h c

theorem Alike.speculate {α β : Type} {R : α → β → Prop} {e : Engine σ α} {e' : Engine σ β}
    (h : Alike R e e') :
    Alike (fun p q => R p.1 q.1 ∧ List.Forall₂ (· = ·) p.2 q.2) (Engine.speculate e)
      (Engine.speculate e') := by
  intro c w
  have hrun : EndAlike R (e.runIn c.fork w) (e'.runIn c.unnoted.fork w) := h c.fork w
  rw [Engine.runIn_speculate, Engine.runIn_speculate]
  generalize e.runIn c.fork w = out, e'.runIn c.unnoted.fork w = out' at hrun ⊢
  cases hrun with
  | value hab fork w₁ =>
      exact .value ⟨hab, List.forall₂_same.mpr fun _ _ => rfl⟩
        { c with awaiting := c.awaiting || fork.awaiting } w₁
  | fault f fork w₁ => exact .fault f c w₁

/-- Work that depends on a test that does not look at the note. -/
theorem Alike.branch {α β : Type} {R : α → β → Prop} {test : Context → Bool} {e k : Engine σ α}
    {e' k' : Engine σ β} (htest : ∀ c, test c.unnoted = test c) (h : Alike R e e')
    (hk : Alike R k k') :
    Alike R (Engine.context >>= fun c => if test c then e else k)
      (Engine.context >>= fun c => if test c then e' else k') := by
  intro c w
  rw [Engine.runIn_bind_of_ok _ (Engine.runIn_context c w),
    Engine.runIn_bind_of_ok _ (Engine.runIn_context c.unnoted w), htest]
  cases test c with
  | true => exact h c w
  | false => exact hk c w

/-- Awaiting and settling as a likeness. -/
def likeness (σ : Type) : Likeness σ σ where
  record := (· = ·)
  work := Alike
  pure h c w := .value h c w
  bind := Alike.bind
  throw _ f c w := .fault f c w
  store c w := .value rfl c w
  addWorded code words details c w := .value rfl (c.addError ⟨c.path, words, code, details⟩) w
  within _ := .bracket (fun _ => rfl) (fun _ => rfl)
  onCopy := Alike.onCopy
  speculate := Alike.speculate
  enter v _ _ _ _ _ _ hrefused h hk :=
    .branch (fun c => c.unnoted_hasVisited v) hrefused
      (.bind (.bracket (fun c => c.unnoted_mark v) (fun c => c.unnoted_unmark v) h) hk)
  clean := .branch fun _ => rfl

/-! ## The two settings are alike -/

/-- An act on the same world ends alike on both sides. -/
theorem alike_ofAct {α : Type} (act : Act σ α) :
    Alike (· = ·) (Engine.ofAct act) (Engine.ofAct act) := by
  intro c w
  rw [Engine.runIn_ofAct, Engine.runIn_ofAct]
  rcases act.runIn w with ⟨f | a, w₁⟩
  · exact .fault f c w₁
  · exact .value rfl c w₁

mutual

theorem applyTo_settled (env : Setting σ) (step : Step) (v : Value) :
    step.applyTo env.settled v = step.applyTo env v := by
  cases step with
  | pipeline steps => exact applyAll_settled env steps v
  | _ => rfl

theorem applyAll_settled (env : Setting σ) (steps : List Step) (v : Value) :
    Step.applyAll env.settled steps v = Step.applyAll env steps v := by
  cases steps with
  | nil => rfl
  | cons step steps =>
      simp only [Step.applyAll, applyTo_settled env step v]
      exact congrArg _ (funext fun u => applyAll_settled env steps u)

end

/-- Asking and waiting is asking a predicate that answers at once. -/
theorem alike_ask (test : Act σ (Reply σ)) :
    Alike (· = ·) (ask .awaited test)
      (ask .immediate (do return .settled (← (← test).finish))) := by
  intro c w
  rw [runIn_ask, runIn_ask, Act.runIn_bind]
  rcases test.runIn w with ⟨f | v | later, w₁⟩
  · exact .value rfl c w₁
  · exact .value rfl c w₁
  · simp only [Reply.finish, Act.runIn_bind]
    rcases later.runIn w₁ with ⟨f | v, w₂⟩
    · exact .value rfl c.markAwaiting w₂
    · exact .value rfl c.markAwaiting w₂

/-- Wording an error does not look at the note. -/
theorem alike_addViolation (env : Setting σ) (x : Violation) :
    Alike (· = ·) (Engine.addViolation env x) (Engine.addViolation env x) := by
  intro c w
  rw [Engine.runIn_addViolation, Engine.runIn_addViolation]
  cases x.message env w.store with
  | error f => exact .fault f c w
  | ok words => exact .value rfl (c.addError _) w

theorem settings (env : Setting σ) :
    (likeness σ).Settings env .awaited env.settled .immediate where
  resolve id := alike_ofAct (env.resolve id)
  applyStep step v := by
    intro c w
    rw [runIn_applyStep, runIn_applyStep, applyTo_settled]
    rcases (step.applyTo env v).runIn w with ⟨f | u, w₁⟩
    · exact .value rfl (c.addError _) w₁
    · exact .value rfl c w₁
  ask id v := alike_ask (env.test id v)
  addViolation := alike_addViolation env
  addFailures x name groups groups' h := by
    have hgroups : groups = groups' := by simpa [likeness] using h
    exact hgroups ▸ alike_addViolation env _

/-! ## Records of the two settings -/

/-- A predicate that is recorded and then settled leaves the entry, and gives
the answer, that it does if it is settled first. -/
theorem settle_noted (test : Act σ (Reply σ)) (callback : Callback) :
    (do return .settled (← (← (do return (← test.noted fun _ => callback).unnoted)).finish) :
        Act (σ × List Callback) (Reply (σ × List Callback))) =
      do
        return (← (do return .settled (← (← test).finish) : Act σ (Reply σ)).noted
          fun _ => callback).unnoted := by
  funext w
  show Act.runIn _ w = Act.runIn _ w
  simp only [Act.runIn_bind, Act.runIn_noted]
  rcases test.runIn w.unrecorded with ⟨f | v | later, w₁⟩
  · rfl
  · rfl
  · simp only [Act.runIn_pure, Reply.unnoted, Reply.finish, Act.runIn_unnoted,
      World.unrecorded_withHost, World.record_withHost]
    rcases later.runIn w₁ with ⟨f | v, w₂⟩ <;> rfl

/-- It is the same whether a setting is recorded or settled first, if what is
recorded is only which callbacks are called. -/
theorem recorded_settled (env : Setting σ) :
    (env.recorded fun callback _ => callback).settled =
      env.settled.recorded fun callback _ => callback := by
  have htest : (env.recorded fun callback _ => callback).settled.test =
      (env.settled.recorded fun callback _ => callback).test :=
    funext fun id => funext fun v => settle_noted (env.test id v) (.predicate id v)
  have hrule : (env.recorded fun callback _ => callback).settled.testRule =
      (env.settled.recorded fun callback _ => callback).testRule :=
    funext fun id => funext fun s => funext fun v =>
      settle_noted (env.testRule id s v) (.rule id s v)
  exact congrArg₂ (fun test testRule =>
    { env.settled.recorded fun callback _ => callback with test, testRule }) htest hrule

end Settled

/-! ## Whole values -/

namespace Validate

/-- Awaiting a whole value has the outcome that it has, without waiting, in
the settled setting, and leaves the same world. -/
theorem runIn_awaited_eq_settled {σ : Type} (env : Setting σ) (depth : Nat) (entry : Entry)
    (s : Schema) (v : Value) (w : World σ) :
    (awaited env depth s v).runIn w = (immediate env.settled depth entry s v).runIn w := by
  have hwhole : Settled.Alike (· = ·) (checkWhole env .awaited depth s v)
      (checkWhole env.settled .immediate depth s v) :=
    Likeness.checkWhole (Settled.settings env) rfl
      (fun id => Settled.alike_ask (env.testRule id s v)) depth
  have hrun := hwhole {} w
  change Settled.EndAlike _ _ ((checkWhole env.settled .immediate depth s v).runIn {} w) at hrun
  unfold awaited immediate
  rw [Act.runIn_bind, Act.runIn_bind, runIn_fresh, runIn_fresh]
  generalize (checkWhole env .awaited depth s v).runIn {} w = out,
    (checkWhole env.settled .immediate depth s v).runIn {} w = out' at hrun ⊢
  cases hrun with
  | value h c₁ w₁ =>
      subst h
      rfl
  | fault f c₁ w₁ => rfl

end Validate

open Validate in
/-- Awaiting a whole value is validating it without waiting in the setting
where every predicate gives at once what awaiting it yields: the outcomes are
equal and so are the worlds left behind, and if a record is kept of the
callbacks that are called, the records are equal. -/
theorem awaited_eq_immediate_settled {σ : Type} (env : Setting σ) (depth : Nat) (entry : Entry)
    (s : Schema) (v : Value) :
    (∀ w, (awaited env depth s v).runIn w = (immediate env.settled depth entry s v).runIn w) ∧
    (∀ w, (awaited (env.recorded fun callback _ => callback) depth s v).runIn w =
      (immediate (env.settled.recorded fun callback _ => callback) depth entry s v).runIn w) := by
  refine ⟨runIn_awaited_eq_settled env depth entry s v, fun w => ?_⟩
  rw [← Settled.recorded_settled]
  exact runIn_awaited_eq_settled _ depth entry s v w

end Conform
