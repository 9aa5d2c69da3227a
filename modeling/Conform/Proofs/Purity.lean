import Conform.Proofs.Carry

/-!
# Pure callbacks

A pure callback changes nothing and its result depends on nothing but the shared
containers and the state of the host. Even with pure callbacks a check leaves a mark
on the world: a deferred schema is built where it is first met, and not again. But the
factory would give the same schema again, so nobody can tell.

Two worlds are twins if they have the same shared containers and the same state of
the host, and if every deferred schema resolves to the same in both. A check leaves a
twin of the world in which it starts, and runs of one check in twins end alike: by the
same value or fault and on the same context. So what one attempt does cannot be seen
by another one, and it does not matter which of two attempts is made first.

## Main results

* `Purity.settings` — a setting with pure callbacks is like itself, from twins on.
* `Setting.IsPure.check` — the runs of one check in twins.
-/

namespace Conform

open Traverse

variable {σ : Type}

/-! ## Twins -/

/-- An act that leaves the world alone, with a result that depends on the shared
containers and on the state of the host. -/
structure Act.IsPure {α : Type} (act : Act σ α) : Prop where
  world (w : World σ) : (act.runIn w).2 = w
  result {w w' : World σ} (hstore : w'.store = w.store) (hhost : w'.host = w.host) :
    (act.runIn w').1 = (act.runIn w).1

/-- A pure predicate, the answers that it promises included. -/
structure Act.IsPureReply (act : Act σ (Reply σ)) : Prop extends act.IsPure where
  later {w : World σ} {later : Act σ Value} (h : (act.runIn w).1 = .ok (.pending later)) :
    later.IsPure

/-- A setting all of whose callbacks are pure. -/
structure Setting.IsPure (env : Setting σ) : Prop where
  apply (id : Nat) (v : Value) : (env.apply id v).IsPure
  test (id : Nat) (v : Value) : (env.test id v).IsPureReply
  testRule (id : Nat) (s : Schema) (v : Value) : (env.testRule id s v).IsPureReply
  produce (id : Nat) : (env.produce id).IsPure

/-- Worlds that differ in nothing that a pure callback or a check can tell. -/
structure Setting.Twins (env : Setting σ) (w w' : World σ) : Prop where
  store : w'.store = w.store
  host : w'.host = w.host
  resolve (id : Nat) : ((env.resolve id).runIn w').1 = ((env.resolve id).runIn w).1

namespace Setting.Twins

variable {env : Setting σ} {w w₁ w₂ : World σ}

theorem refl (env : Setting σ) (w : World σ) : env.Twins w w := ⟨rfl, rfl, fun _ => rfl⟩

theorem symm (h : env.Twins w w₁) : env.Twins w₁ w where
  store := h.store.symm
  host := h.host.symm
  resolve id := (h.resolve id).symm

theorem trans (h : env.Twins w w₁) (h' : env.Twins w₁ w₂) : env.Twins w w₂ where
  store := h'.store.trans h.store
  host := h'.host.trans h.host
  resolve id := (h'.resolve id).trans (h.resolve id)

end Setting.Twins

namespace Act.IsPure

variable {α β : Type} {act : Act σ α} {w : World σ}

theorem runIn_eq (h : act.IsPure) (w : World σ) : act.runIn w = ((act.runIn w).1, w) :=
  Prod.ext rfl (h.world w)

protected theorem pure (a : α) : Act.IsPure (Pure.pure a : Act σ α) :=
  ⟨fun _ => rfl, fun _ _ => rfl⟩

protected theorem throw (f : Fault) : Act.IsPure (MonadExcept.throw f : Act σ α) :=
  ⟨fun _ => rfl, fun _ _ => rfl⟩

theorem store : Act.IsPure (Act.store : Act σ Store) :=
  ⟨fun _ => rfl, fun hstore _ => congrArg Except.ok hstore⟩

theorem bind {k : α → Act σ β} (h : act.IsPure) (hk : ∀ a, (k a).IsPure) : (act >>= k).IsPure := by
  have hrun : ∀ w, (act >>= k).runIn w =
      match (act.runIn w).1 with
      | .ok a => ((k a).runIn w)
      | .error f => (.error f, w) := by
    intro w
    rw [Act.runIn_bind, h.runIn_eq w]
    cases (act.runIn w).1 <;> rfl
  constructor
  · intro w
    rw [hrun]
    cases (act.runIn w).1 with
    | error f => rfl
    | ok a => exact (hk a).world w
  · intro w w' hstore hhost
    rw [hrun, hrun, h.result hstore hhost]
    cases (act.runIn w).1 with
    | error f => rfl
    | ok a => exact (hk a).result hstore hhost

theorem rescue {k : Fault → Act σ α} (h : act.IsPure) (hk : ∀ f, (k f).IsPure) :
    (tryCatch act k).IsPure := by
  have hrun : ∀ w, (tryCatch act k : Act σ α).runIn w =
      match (act.runIn w).1 with
      | .ok a => (.ok a, w)
      | .error f => (k f).runIn w := by
    intro w
    rw [Act.runIn_tryCatch, h.runIn_eq w]
    cases (act.runIn w).1 <;> rfl
  constructor
  · intro w
    rw [hrun]
    cases (act.runIn w).1 with
    | error f => exact (hk f).world w
    | ok a => rfl
  · intro w w' hstore hhost
    rw [hrun, hrun, h.result hstore hhost]
    cases (act.runIn w).1 with
    | error f => exact (hk f).result hstore hhost
    | ok a => rfl

end Act.IsPure

/-! ## What a setting does -/

section Acts

variable {env : Setting σ}

/-- To be pure is a law. -/
def Act.Law.purity (σ : Type) : Act.Law σ where
  holds act := act.IsPure
  pure := .pure
  throw := .throw
  store := .store
  bind := .bind
  rescue := .rescue

theorem pure_applyTo (h : env.IsPure) (step : Step) (v : Value) : (step.applyTo env v).IsPure :=
  (Act.Law.purity σ).applyTo h.apply step v

theorem Setting.IsPure.runIn_resolve (h : env.IsPure) (id : Nat) (w : World σ) :
    (env.resolve id).runIn w =
      match w.built.lookup id with
      | some s => (.ok s, w)
      | none =>
        match ((env.produce id).runIn w).1 with
        | .ok (.schema s) => (.ok s, { w with built := (id, s) :: w.built })
        | .ok (.value v) => (.error (.notSchema .deferred (w.store.className v)), w)
        | .error f => (.error f, w) := by
  rw [Setting.runIn_resolve, (h.produce id).runIn_eq w]
  cases w.built.lookup id with
  | some s => rfl
  | none => rcases ((env.produce id).runIn w).1 with f | ⟨s | v⟩ <;> rfl

/-- A deferred schema that is built as its factory gives it stands for what it stood
for. -/
theorem Setting.IsPure.twins_built (h : env.IsPure) {id : Nat} {s : Schema} {w : World σ}
    (hbuilt : w.built.lookup id = none)
    (hresult : ((env.produce id).runIn w).1 = .ok (.schema s)) :
    env.Twins w { w with built := (id, s) :: w.built } := by
  refine ⟨rfl, rfl, fun j => ?_⟩
  rw [h.runIn_resolve, h.runIn_resolve, List.lookup_cons]
  by_cases hj : j = id
  · subst hj
    rw [hbuilt, hresult, beq_self_eq_true]
  · have hother : (j == id) = false := beq_false_of_ne hj
    have hproduce : ((env.produce j).runIn { w with built := (id, s) :: w.built }).1 =
        ((env.produce j).runIn w).1 := (h.produce j).result rfl rfl
    rw [hother, hproduce]
    cases w.built.lookup j with
    | some t => rfl
    | none => rcases ((env.produce j).runIn w).1 with f | ⟨t | v⟩ <;> rfl

/-- Resolving a deferred schema leaves a twin. -/
theorem Setting.IsPure.twins_resolve (h : env.IsPure) (id : Nat) (w : World σ) :
    env.Twins w ((env.resolve id).runIn w).2 := by
  have hself := Setting.Twins.refl env w
  rw [h.runIn_resolve]
  cases hbuilt : w.built.lookup id with
  | some s => exact hself
  | none =>
      rcases hresult : ((env.produce id).runIn w).1 with f | ⟨s | v⟩
      · exact hself
      · exact h.twins_built hbuilt hresult
      · exact hself

end Acts

namespace Purity

/-! ## Runs from twins on -/

/-- Two runs end alike: by alike values or by the same fault, on the same context, and
each in a twin of a world. -/
inductive EndAlike {α β : Type} (env : Setting σ) (R : α → β → Prop) (w : World σ) :
    Except Fault α × Context × World σ → Except Fault β × Context × World σ → Prop
  | value {a : α} {b : β} (h : R a b) (c : Context) {w₁ w₂ : World σ} (hw₁ : env.Twins w w₁)
      (hw₂ : env.Twins w w₂) : EndAlike env R w (.ok a, c, w₁) (.ok b, c, w₂)
  | fault (f : Fault) (c : Context) {w₁ w₂ : World σ} (hw₁ : env.Twins w w₁)
      (hw₂ : env.Twins w w₂) : EndAlike env R w (.error f, c, w₁) (.error f, c, w₂)

/-- Works that end alike when they start in twins. -/
def Alike {α β : Type} (env : Setting σ) (R : α → β → Prop) (e : Engine σ α) (e' : Engine σ β) :
    Prop :=
  ∀ c w w', env.Twins w w' → EndAlike env R w (e.runIn c w) (e'.runIn c w')

variable {env : Setting σ}

theorem EndAlike.before {α β : Type} {R : α → β → Prop} {w w₁ : World σ}
    {out : Except Fault α × Context × World σ} {out' : Except Fault β × Context × World σ}
    (hw : env.Twins w w₁) (h : EndAlike env R w₁ out out') : EndAlike env R w out out' := by
  cases h with
  | value hab c hw₁ hw₂ => exact .value hab c (hw.trans hw₁) (hw.trans hw₂)
  | fault f c hw₁ hw₂ => exact .fault f c (hw.trans hw₁) (hw.trans hw₂)

theorem Alike.bind {α β γ δ : Type} {R : α → β → Prop} {S : γ → δ → Prop} {e : Engine σ α}
    {e' : Engine σ β} {k : α → Engine σ γ} {k' : β → Engine σ δ} (h : Alike env R e e')
    (hk : ∀ a b, R a b → Alike env S (k a) (k' b)) : Alike env S (e >>= k) (e' >>= k') := by
  intro c w w' htwins
  have hrun := h c w w' htwins
  rw [Engine.runIn_bind, Engine.runIn_bind]
  generalize e.runIn c w = out, e'.runIn c w' = out' at hrun ⊢
  cases hrun with
  | value hab c₁ hw₁ hw₂ => exact .before hw₁ (hk _ _ hab c₁ _ _ (hw₁.symm.trans hw₂))
  | fault f c₁ hw₁ hw₂ => exact .fault f c₁ hw₁ hw₂

theorem Alike.bracket {α β : Type} {R : α → β → Prop} {e : Engine σ α} {e' : Engine σ β}
    (enter leave : Context → Context) (h : Alike env R e e') :
    Alike env R (Engine.bracket enter leave e) (Engine.bracket enter leave e') := by
  intro c w w' htwins
  have hrun := h (enter c) w w' htwins
  rw [Engine.runIn_bracket, Engine.runIn_bracket]
  generalize e.runIn (enter c) w = out, e'.runIn (enter c) w' = out' at hrun ⊢
  cases hrun with
  | value hab c₁ hw₁ hw₂ => exact .value hab (leave c₁) hw₁ hw₂
  | fault f c₁ hw₁ hw₂ => exact .fault f (leave c₁) hw₁ hw₂

theorem Alike.speculate {α β : Type} {R : α → β → Prop} {e : Engine σ α} {e' : Engine σ β}
    (h : Alike env R e e') :
    Alike env (fun p q => R p.1 q.1 ∧ List.Forall₂ (· = ·) p.2 q.2) (Engine.speculate e)
      (Engine.speculate e') := by
  intro c w w' htwins
  have hrun := h c.fork w w' htwins
  rw [Engine.runIn_speculate, Engine.runIn_speculate]
  generalize e.runIn c.fork w = out, e'.runIn c.fork w' = out' at hrun ⊢
  cases hrun with
  | value hab fork hw₁ hw₂ =>
      exact .value ⟨hab, List.forall₂_same.mpr fun _ _ => rfl⟩
        { c with awaiting := c.awaiting || fork.awaiting } hw₁ hw₂
  | fault f fork hw₁ hw₂ => exact .fault f c hw₁ hw₂

theorem Alike.branch {α β : Type} {R : α → β → Prop} {e k : Engine σ α} {e' k' : Engine σ β}
    (test : Context → Bool) (h : Alike env R e e') (hk : Alike env R k k') :
    Alike env R (Engine.context >>= fun c => if test c then e else k)
      (Engine.context >>= fun c => if test c then e' else k') := by
  intro c w w' htwins
  rw [Engine.runIn_bind_of_ok _ (Engine.runIn_context c w),
    Engine.runIn_bind_of_ok _ (Engine.runIn_context c w')]
  cases test c with
  | true => exact h c w w' htwins
  | false => exact hk c w w' htwins

/-- Running from twins on as a likeness. -/
def likeness (env : Setting σ) : Likeness σ σ where
  record := (· = ·)
  work := Alike env
  pure h c w _ htwins := .value h c (.refl env w) htwins
  bind := Alike.bind
  throw _ f c w _ htwins := .fault f c (.refl env w) htwins
  store c w _ htwins := .value htwins.store.symm c (.refl env w) htwins
  addWorded code words details c w _ htwins :=
    .value rfl (c.addError ⟨c.path, words, code, details⟩) (.refl env w) htwins
  within k := .bracket (·.push k) .pop
  onCopy h c := Alike.bracket .afresh c.resume h c
  speculate := Alike.speculate
  enter v _ _ _ _ _ _ hrefused h hk :=
    .branch (·.hasVisited v) hrefused (.bind (.bracket (·.mark v) (·.unmark v) h) hk)
  clean := .branch (·.errors.isEmpty)

/-! ## A setting is like itself -/

theorem alike_resolve (h : env.IsPure) (id : Nat) :
    Alike env (· = ·) (Engine.ofAct (env.resolve id)) (Engine.ofAct (env.resolve id)) := by
  intro c w w' htwins
  rw [Engine.runIn_ofAct, Engine.runIn_ofAct, htwins.resolve id]
  have hw := h.twins_resolve id w
  have hw' := htwins.trans (h.twins_resolve id w')
  cases ((env.resolve id).runIn w).1 with
  | error f => exact .fault f c hw hw'
  | ok s => exact .value rfl c hw hw'

theorem alike_applyStep (h : env.IsPure) (step : Step) (v : Value) :
    Alike env (· = ·) (applyStep env step v) (applyStep env step v) := by
  intro c w w' htwins
  have hpure := pure_applyTo h step v
  rw [runIn_applyStep, runIn_applyStep, hpure.runIn_eq w, hpure.runIn_eq w',
    hpure.result htwins.store htwins.host]
  cases ((step.applyTo env v).runIn w).1 with
  | error f => exact .value rfl (c.addError _) (.refl env w) htwins
  | ok u => exact .value rfl c (.refl env w) htwins

theorem alike_ask {mode : Mode} {test : Act σ (Reply σ)} (h : test.IsPureReply) :
    Alike env (· = ·) (ask mode test) (ask mode test) := by
  intro c w w' htwins
  rw [runIn_ask, runIn_ask, h.runIn_eq w, h.runIn_eq w', h.result htwins.store htwins.host]
  have hself := Setting.Twins.refl env w
  rcases hanswer : (test.runIn w).1 with f | v | later
  · exact .value rfl c hself htwins
  · exact .value (by rw [htwins.store]) c hself htwins
  · cases mode with
    | immediate => exact .value rfl c.markAwaiting hself htwins
    | awaited =>
        have hlater := h.later hanswer
        dsimp only
        rw [hlater.runIn_eq w, hlater.runIn_eq w', hlater.result htwins.store htwins.host]
        cases (later.runIn w).1 with
        | error f => exact .value rfl c.markAwaiting hself htwins
        | ok v => exact .value (by rw [htwins.store]) c.markAwaiting hself htwins

theorem alike_addViolation (x : Violation) :
    Alike env (· = ·) (Engine.addViolation env x) (Engine.addViolation env x) := by
  intro c w w' htwins
  have hself := Setting.Twins.refl env w
  rw [Engine.runIn_addViolation, Engine.runIn_addViolation, htwins.store]
  cases x.message env w.store with
  | error f => exact .fault f c hself htwins
  | ok words => exact .value rfl (c.addError _) hself htwins

/-- A setting with pure callbacks is like itself, from twins on. -/
theorem settings (h : env.IsPure) (mode : Mode) :
    (likeness env).Settings env mode env mode where
  resolve := alike_resolve h
  applyStep := alike_applyStep h
  ask id v := alike_ask (h.test id v)
  addViolation := alike_addViolation
  addFailures x name groups groups' hgroups := by
    have hsame : groups = groups' := by simpa [likeness] using hgroups
    exact hsame ▸ alike_addViolation _

end Purity

/-! ## Checks -/

namespace Setting.IsPure

variable {env : Setting σ} {mode : Mode} {depth : Nat} {s : Schema} {v : Value} {c : Context}
  {w w' : World σ}

/-- Runs of one check in twins end by the same value or fault, on the same context and
in twins. -/
theorem check (h : env.IsPure) (hw : env.Twins w w') :
    Purity.EndAlike env (· = ·) w ((Conform.check env mode depth s v).runIn c w)
      ((Conform.check env mode depth s v).runIn c w') :=
  Likeness.check (Purity.settings h mode) depth s v c w w' hw

/-- Rules that are asked in twins end alike. -/
theorem askRules (h : env.IsPure) (rules : List Rule) (hw : env.Twins w w') :
    Purity.EndAlike env (· = ·) w ((Validate.askRules env mode s v rules).runIn c w)
      ((Validate.askRules env mode s v rules).runIn c w') :=
  Likeness.askRules (L := Purity.likeness env) (fun id => Purity.alike_ask (h.testRule id s v))
    rules c w w' hw

end Setting.IsPure

theorem pure_idleHost : idleHost.IsPure where
  apply _ v := .pure v
  test _ _ := { Act.IsPure.pure _ with later := fun h => by cases h }
  testRule _ _ _ := { Act.IsPure.pure _ with later := fun h => by cases h }
  produce _ := .throw _

end Conform
