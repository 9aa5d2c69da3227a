import Conform.Proofs.Likeness

/-!
# What checks carry on

Some relations between the context and the world before and after a check
hold of every check: the containers that are being looked into are the same,
an invariant of the world that the host keeps is kept. A `Carry` is a relation
that is kept by all that checks do to contexts. Then it holds between the
start and the end of every check, and of the loops in it, however they end, as
soon as it holds for what the host does.

It is a likeness that looks at the first of the two works only.

What is said of acts alone, such as that they keep an invariant, is an `Act.Flow` if it is kept
when one act is done after another, and an `Act.Law` if also where a fault is caught.

## Main results

* `Carry.of_check` — checks carry the relation.
* `Carry.of_checkFields`, `Carry.of_firstItems`, `Carry.of_tryMembers`,
  `Carry.of_tryOptions` — so do the loops over fields, elements, members and
  options.
* `Act.Flow.acceptsMissing` — what holds of resolving deferred schemas holds of the flag.
* `Act.Law.applyTo` — what holds of the steps of the host holds of every step.
* `Carry.keeping_settings` — checks look into the same containers after as
  before, and keep the invariants of the world that the host keeps.
-/

namespace Conform

open Traverse

/-- A relation between the start and the end of runs that is kept by all that
checks do to contexts. -/
structure Carry (σ : Type) where
  rel : Context → World σ → Context → World σ → Prop
  refl (c : Context) (w : World σ) : rel c w c w
  trans {c c₁ c' : Context} {w w₁ w' : World σ} (h : rel c w c₁ w₁) (h' : rel c₁ w₁ c' w') :
    rel c w c' w'
  addError (c : Context) (w : World σ) (e : ErrorRecord) : rel c w (c.addError e) w
  push {c c' : Context} {w w' : World σ} {k : Key} (h : rel (c.push k) w c' w') :
    rel c w c'.pop w'
  mark {c c' : Context} {w w' : World σ} {v : Value} (hfresh : c.hasVisited v = false)
    (h : rel (c.mark v) w c' w') : rel c w (c'.unmark v) w'
  copy {c c' : Context} {w w' : World σ} (h : rel c.afresh w c' w') :
    rel c w (c.resume c') w'
  fork {c c' : Context} {w w' : World σ} (h : rel c.fork w c' w') :
    rel c w { c with awaiting := c.awaiting || c'.awaiting } w'
  /-- A fork may also be left by a fault. -/
  left {c c' : Context} {w w' : World σ} (h : rel c.fork w c' w') : rel c w c w'

namespace Carry

variable {σ : Type} (K : Carry σ)

/-- Work that carries the relation, and whose values, if it ends by one, are
alike to some. -/
def Carries {α β : Type} (R : α → β → Prop) (e : Engine σ α) : Prop :=
  ∀ c w, K.rel c w (e.runIn c w).2.1 (e.runIn c w).2.2 ∧
    ∀ a, (e.runIn c w).1 = .ok a → ∃ b, R a b

variable {K}

theorem Carries.bind {α β γ δ : Type} {R : α → β → Prop} {S : γ → δ → Prop} {e : Engine σ α}
    {k : α → Engine σ γ} (h : K.Carries R e) (hk : ∀ a b, R a b → K.Carries S (k a)) :
    K.Carries S (e >>= k) := by
  intro c w
  have hfirst := h c w
  rw [Engine.runIn_bind]
  rcases hrun : e.runIn c w with ⟨f | a, c₁, w₁⟩
  · rw [hrun] at hfirst
    exact ⟨hfirst.1, fun d hd => by cases hd⟩
  · rw [hrun] at hfirst
    obtain ⟨b, hab⟩ := hfirst.2 a rfl
    have hrest := hk a b hab c₁ w₁
    exact ⟨K.trans hfirst.1 hrest.1, hrest.2⟩

theorem Carries.within {α β : Type} {R : α → β → Prop} {e : Engine σ α} (k : Key)
    (h : K.Carries R e) : K.Carries R (Engine.within k e) := by
  intro c w
  rw [Engine.runIn_within]
  exact ⟨K.push (h (c.push k) w).1, (h (c.push k) w).2⟩

theorem Carries.onCopy {α β : Type} {R : α → β → Prop} {e : Engine σ α}
    (h : K.Carries R e) : K.Carries R (Engine.onCopy e) := by
  intro c w
  rw [Engine.runIn_onCopy]
  exact ⟨K.copy (h c.afresh w).1, (h c.afresh w).2⟩

theorem Carries.speculate {α β : Type} {R : α → β → Prop} {e : Engine σ α} (h : K.Carries R e) :
    K.Carries (fun p (q : β × List ErrorRecord) => R p.1 q.1 ∧ List.Forall₂ (· = ·) p.2 q.2)
      (Engine.speculate e) := by
  intro c w
  have hfork := h c.fork w
  rw [Engine.runIn_speculate]
  rcases hrun : e.runIn c.fork w with ⟨f | a, fork, w₁⟩
  · rw [hrun] at hfork
    exact ⟨K.left hfork.1, fun d hd => by cases hd⟩
  · rw [hrun] at hfork
    obtain ⟨b, hab⟩ := hfork.2 a rfl
    refine ⟨K.fork hfork.1, fun d hd => ?_⟩
    cases hd
    exact ⟨(b, fork.errors), hab, List.forall₂_same.mpr fun _ _ => rfl⟩

theorem Carries.enter {α β : Type} {R : α → β → Prop} {S : Value → Value → Prop} (v : Value)
    {refused : Engine σ Value} {e : Engine σ α} {k : α → Engine σ Value}
    (hrefused : K.Carries S refused) (h : K.Carries R e)
    (hk : ∀ a b, R a b → K.Carries S (k a)) :
    K.Carries S (Engine.context >>= fun c =>
      if c.hasVisited v then refused else Engine.lookingInto v e >>= k) := by
  intro c w
  rw [Engine.runIn_bind_of_ok _ (Engine.runIn_context c w)]
  cases hfresh : c.hasVisited v with
  | true => exact hrefused c w
  | false =>
      simp only [Bool.false_eq_true, if_false]
      rw [Engine.runIn_bind, Engine.runIn_lookingInto]
      have hinside := h (c.mark v) w
      rcases hrun : e.runIn (c.mark v) w with ⟨f | a, c₁, w₁⟩
      · rw [hrun] at hinside
        exact ⟨K.mark hfresh hinside.1, fun d hd => by cases hd⟩
      · rw [hrun] at hinside
        obtain ⟨b, hab⟩ := hinside.2 a rfl
        have hrest := hk a b hab (c₁.unmark v) w₁
        exact ⟨K.trans (K.mark hfresh hinside.1) hrest.1, hrest.2⟩

theorem Carries.clean {α β : Type} {R : α → β → Prop} {e k : Engine σ α} (h : K.Carries R e)
    (hk : K.Carries R k) :
    K.Carries R (Engine.context >>= fun c => if c.errors.isEmpty then e else k) := by
  intro c w
  rw [Engine.runIn_bind_of_ok _ (Engine.runIn_context c w)]
  cases c.errors.isEmpty with
  | true => exact h c w
  | false => exact hk c w

variable (K)

/-- Carrying a relation as a likeness. -/
def likeness : Likeness σ σ where
  record := (· = ·)
  work R e _ := K.Carries R e
  pure {α β R a b} h := by
    intro c w
    refine ⟨K.refl c w, fun a' ha' => ?_⟩
    cases ha'
    exact ⟨b, h⟩
  bind := Carries.bind
  throw _ f c w := ⟨K.refl c w, fun a ha => by cases ha⟩
  store c w := ⟨K.refl c w, fun a _ => ⟨a, rfl⟩⟩
  addWorded _ _ _ c w := ⟨K.addError c w _, fun a _ => ⟨a, rfl⟩⟩
  within := Carries.within
  onCopy := Carries.onCopy
  speculate := Carries.speculate
  enter v _ _ _ _ _ _ := Carries.enter v
  clean := Carries.clean

/-- What a check makes the host do carries the relation. -/
structure Settings (env : Setting σ) (mode : Mode) : Prop where
  resolve (id : Nat) (c : Context) (w : World σ) : K.rel c w c ((env.resolve id).runIn w).2
  step (step : Step) (v : Value) (c : Context) (w : World σ) :
    K.rel c w c ((step.applyTo env v).runIn w).2
  ask (id : Nat) (v : Value) (c : Context) (w : World σ) :
    K.rel c w ((ask mode (env.test id v)).runIn c w).2.1 ((ask mode (env.test id v)).runIn c w).2.2

variable {K} {env : Setting σ} {mode : Mode}

theorem carries_addViolation (x : Violation) :
    K.Carries (fun a (b : Unit) => a = b) (Engine.addViolation env x) := by
  intro c w
  refine ⟨?_, fun a _ => ⟨a, rfl⟩⟩
  rw [Engine.runIn_addViolation]
  cases x.message env w.store with
  | error f => exact K.refl c w
  | ok words => exact K.addError c w _

theorem Settings.likeness (h : K.Settings env mode) :
    K.likeness.Settings env mode env mode where
  resolve id c w := ⟨h.resolve id c w, fun a _ => ⟨a, rfl⟩⟩
  applyStep step v c w := by
    refine ⟨?_, fun a _ => ⟨a, rfl⟩⟩
    have hstep := h.step step v c w
    rw [runIn_applyStep]
    rcases hrun : (step.applyTo env v).runIn w with ⟨f | u, w₁⟩
    · rw [hrun] at hstep
      exact K.trans hstep (K.addError c w₁ _)
    · rw [hrun] at hstep
      exact hstep
  ask id v c w := ⟨h.ask id v c w, fun a _ => ⟨a, rfl⟩⟩
  addViolation := carries_addViolation
  addFailures x name groups groups' _ := carries_addViolation _

/-! ## Checks and their loops -/

section Runs

variable (h : K.Settings env mode) (depth : Nat) {c c' : Context} {w w' : World σ}

include h

omit depth in
theorem of_applyStep {step : Step} {v : Value} {r : Except Fault Value}
    (hrun : (applyStep env step v).runIn c w = (r, c', w')) : K.rel c w c' w' := by
  have hcarried := (h.likeness.applyStep step v c w).1
  rwa [hrun] at hcarried

omit depth in
theorem of_askAbout {id : Nat} {words : Option String} {code : Code} {v : Value}
    {r : Except Fault Value}
    (hrun : (askAbout env mode id words code v).runIn c w = (r, c', w')) : K.rel c w c' w' := by
  have hcarried := (Likeness.askAbout h.likeness id words code v c w).1
  rwa [hrun] at hcarried

theorem of_check {s : Schema} {v : Value} {r : Except Fault Value}
    (hrun : (check env mode depth s v).runIn c w = (r, c', w')) : K.rel c w c' w' := by
  have hcarried := (Likeness.check h.likeness depth s v c w).1
  rwa [hrun] at hcarried

theorem of_checkFields {v : Value} {fields : Entries Schema}
    {r : Except Fault (Entries Value × Bool)}
    (hrun : (checkFields env (env.acceptsMissing depth) (check env mode depth) v
      fields).runIn c w = (r, c', w')) : K.rel c w c' w' := by
  have hcarried := (Likeness.checkFields h.likeness (Likeness.acceptsMissing h.likeness depth)
    (Likeness.check h.likeness depth) v fields c w).1
  rwa [hrun] at hcarried

theorem of_firstItems {element : Schema} {v : Value} {n : Nat}
    {r : Except Fault (List Value × Bool)}
    (hrun : (firstItems (check env mode depth element) v n).runIn c w = (r, c', w')) :
    K.rel c w c' w' := by
  have hcarried := (Likeness.firstItems (L := K.likeness)
    (Likeness.check h.likeness depth element) v n c w).1
  rwa [hrun] at hcarried

/-- What is done between the turns of some items and those of more. -/
theorem of_laterItems {element : Schema} {v : Value} {n more : Nat} {done : List Value × Bool}
    {c₀ : Context} {w₀ : World σ} {r : Except Fault (List Value × Bool)}
    (hfirst : (firstItems (check env mode depth element) v n).runIn c₀ w₀ = (.ok done, c, w))
    (hrun : (firstItems (check env mode depth element) v (n + more)).runIn c₀ w₀ = (r, c', w')) :
    K.rel c w c' w' := by
  induction more generalizing r c' w' with
  | zero =>
      cases hfirst.symm.trans hrun
      exact K.refl c w
  | succ more ih =>
      rcases hmost : (firstItems (check env mode depth element) v (n + more)).runIn c₀ w₀ with
        ⟨f | most, c₁, w₁⟩
      · cases (runIn_firstItems_of_error hmost 1).symm.trans hrun
        exact ih hmost
      · have hturn : (nextItem (check env mode depth element) v most (n + more)).runIn c₁ w₁ =
            (r, c', w') := by
          rw [← hrun, ← Nat.add_assoc, firstItems, Engine.runIn_bind_of_ok _ hmost]
        have hcarried := (Likeness.nextItem (L := K.likeness)
          (Likeness.check h.likeness depth element) v most (n + more) c₁ w₁).1
        rw [hturn] at hcarried
        exact K.trans (ih hmost) hcarried

theorem of_tryMembers {v : Value} {members : List Schema}
    {r : Except Fault (List Value × List (List ErrorRecord))}
    (hrun : (tryMembers (check env mode depth) v members).runIn c w = (r, c', w')) :
    K.rel c w c' w' := by
  have hcarried := (Likeness.tryMembers (Likeness.check h.likeness depth) v members c w).1
  rwa [hrun] at hcarried

omit depth in
theorem of_finishObject {fields : Entries Schema} {unknown : UnknownKeys} {v : Value}
    {results : Entries Value} {failed : Bool} {r : Except Fault Value}
    (hrun : (finishObject env fields unknown v results failed).runIn c w = (r, c', w')) :
    K.rel c w c' w' := by
  have hcarried := (Likeness.finishObject h.likeness fields unknown v results failed c w).1
  rwa [hrun] at hcarried

omit depth in
theorem of_addViolations {xs : List Violation} {r : Except Fault Unit}
    (hrun : (addViolations env xs).runIn c w = (r, c', w')) : K.rel c w c' w' := by
  have hcarried := (Likeness.addViolations h.likeness xs c w).1
  rwa [hrun] at hcarried

omit depth in
theorem of_finishArray {bounds : ArrayBounds} {v : Value} {results : List Value} {failed : Bool}
    {r : Except Fault Value}
    (hrun : (finishArray env bounds v results failed).runIn c w = (r, c', w')) :
    K.rel c w c' w' := by
  have hcarried := (Likeness.finishArray h.likeness bounds v results failed c w).1
  rwa [hrun] at hcarried

theorem of_combine {results : List Value} {groups : List (List ErrorRecord)}
    {r : Except Fault Value}
    (hrun : (combine env depth results groups).runIn c w = (r, c', w')) : K.rel c w c' w' := by
  have hgroups : List.Forall₂ (List.Forall₂ K.likeness.record) groups groups :=
    List.forall₂_same.mpr fun _ _ => List.forall₂_same.mpr fun _ _ => rfl
  have hcarried := (Likeness.combine h.likeness depth results hgroups c w).1
  rwa [hrun] at hcarried

theorem of_tryOptions {v : Value} {groups : List (List ErrorRecord)} {options : List Schema}
    {r : Except Fault Value}
    (hrun : (tryOptions env (check env mode depth) v groups options).runIn c w = (r, c', w')) :
    K.rel c w c' w' := by
  have hgroups : List.Forall₂ (List.Forall₂ K.likeness.record) groups groups :=
    List.forall₂_same.mpr fun _ _ => List.forall₂_same.mpr fun _ _ => rfl
  have hcarried := (Likeness.tryOptions h.likeness (Likeness.check h.likeness depth) v options
    hgroups c w).1
  rwa [hrun] at hcarried

end Runs

end Carry

/-! ## Laws of acts -/

/-- A property of acts that is kept when one act is done after another. -/
structure Act.Flow (σ : Type) where
  holds : {α : Type} → Act σ α → Prop
  pure {α : Type} (a : α) : holds (Pure.pure a)
  exhausted {α : Type} : holds (MonadExcept.throw .exhausted : Act σ α)
  bind {α β : Type} {act : Act σ α} {k : α → Act σ β} (h : holds act) (hk : ∀ a, holds (k a)) :
    holds (act >>= k)

namespace Act.Flow

variable {σ : Type} (L : Act.Flow σ) {p : Schema → Act σ Bool} {env : Setting σ}

theorem anyOf (h : ∀ s, L.holds (p s)) (ss : List Schema) : L.holds (Setting.anyOf p ss) := by
  induction ss with
  | nil => exact L.pure false
  | cons s ss ih =>
      refine L.bind (h s) fun accepted => ?_
      cases accepted with
      | true => exact L.pure true
      | false => exact ih

theorem allOf (h : ∀ s, L.holds (p s)) (ss : List Schema) : L.holds (Setting.allOf p ss) := by
  induction ss with
  | nil => exact L.pure true
  | cons s ss ih =>
      refine L.bind (h s) fun accepted => ?_
      cases accepted with
      | true => exact ih
      | false => exact L.pure false

/-- What holds of resolving deferred schemas holds of the flag. -/
theorem acceptsMissing (h : ∀ id, L.holds (env.resolve id)) (depth : Nat) (s : Schema) :
    L.holds (env.acceptsMissing depth s) := by
  induction depth generalizing s with
  | zero => exact L.exhausted
  | succ depth ih =>
      cases s with
      | nullable inner => exact ih inner
      | transform inner step => exact ih inner
      | refine inner id words code => exact ih inner
      | union first rest => exact L.anyOf ih (first :: rest)
      | intersection first rest => exact L.allOf ih (first :: rest)
      | deferred id => exact L.bind (h id) ih
      | _ => exact L.pure _

end Act.Flow

/-- A property of acts that is kept when acts are put together, also where a fault is caught. -/
structure Act.Law (σ : Type) extends Act.Flow σ where
  throw {α : Type} (f : Fault) : holds (MonadExcept.throw f : Act σ α)
  exhausted := throw .exhausted
  store : holds Act.store
  rescue {α : Type} {act : Act σ α} {k : Fault → Act σ α} (h : holds act)
    (hk : ∀ f, holds (k f)) : holds (tryCatch act k)

namespace Act.Law

variable {σ : Type} (L : Act.Law σ) {env : Setting σ}

theorem onText (operation : String) (f : String → String) (v : Value) :
    L.holds (onText operation f v) := by
  unfold Conform.onText
  split
  · exact L.pure _
  · exact L.bind L.store fun _ => L.throw _

mutual

/-- What holds of the steps of the host holds of every step. -/
theorem applyTo (L : Act.Law σ) (happly : ∀ id v, L.holds (env.apply id v)) (step : Step)
    (v : Value) : L.holds (step.applyTo env v) := by
  cases step with
  | callback id => exact happly id v
  | pipeline steps => exact applyAll L happly steps v
  | trim => exact L.onText _ _ v
  | lower => exact L.onText _ _ v
  | upper => exact L.onText _ _ v

theorem applyAll (L : Act.Law σ) (happly : ∀ id v, L.holds (env.apply id v)) (steps : List Step)
    (v : Value) : L.holds (Step.applyAll env steps v) := by
  cases steps with
  | nil => exact L.pure v
  | cons step steps =>
      exact L.bind (applyTo L happly step v) fun u => applyAll L happly steps u

end

end Act.Law

/-! ## Invariants of the world -/

/-- An act keeps an invariant of the world, however it ends. -/
def Act.Keeps {σ α : Type} (I : World σ → Prop) (act : Act σ α) : Prop :=
  ∀ w, I w → I (act.runIn w).2

/-- What a setting makes the host do keeps an invariant of the world. What a
predicate promised is done where it was promised. -/
structure Setting.Keeps {σ : Type} (env : Setting σ) (I : World σ → Prop) : Prop where
  apply (id : Nat) (v : Value) : (env.apply id v).Keeps I
  test (id : Nat) (v : Value) : (env.test id v).Keeps I
  later (id : Nat) (v : Value) {w w' : World σ} {later : Act σ Value} (hw : I w)
    (h : (env.test id v).runIn w = (.ok (.pending later), w')) : I (later.runIn w').2
  resolve (id : Nat) : (env.resolve id).Keeps I

/-- A world comes after another, for all that the host tells: it has kept what the host
keeps. -/
def Setting.After {σ : Type} (env : Setting σ) (w w' : World σ) : Prop :=
  ∀ I : World σ → Prop, env.Keeps I → I w → I w'

theorem Setting.After.refl {σ : Type} (env : Setting σ) (w : World σ) : env.After w w :=
  fun _ _ hw => hw

theorem Setting.After.trans {σ : Type} {env : Setting σ} {w w₁ w₂ : World σ}
    (h : env.After w w₁) (h' : env.After w₁ w₂) : env.After w w₂ :=
  fun I hkeeps hw => h' I hkeeps (h I hkeeps hw)

section Invariant

variable {σ : Type} {I : World σ → Prop} {env : Setting σ}

theorem Act.Keeps.of_run {α : Type} {act : Act σ α} {r : Except Fault α} {w w' : World σ}
    (h : act.Keeps I) (hrun : act.runIn w = (r, w')) (hw : I w) : I w' := by
  have hkept := h w hw
  rwa [hrun] at hkept

theorem Act.Keeps.bind {α β : Type} {act : Act σ α} {k : α → Act σ β} (h : act.Keeps I)
    (hk : ∀ a, (k a).Keeps I) : (act >>= k).Keeps I := by
  intro w hw
  rw [Act.runIn_bind]
  rcases hrun : act.runIn w with ⟨f | a, w₁⟩
  · exact h.of_run hrun hw
  · exact hk a w₁ (h.of_run hrun hw)

theorem Act.Keeps.rescue {α : Type} {act : Act σ α} {k : Fault → Act σ α} (h : act.Keeps I)
    (hk : ∀ f, (k f).Keeps I) : (tryCatch act k).Keeps I := by
  intro w hw
  rw [Act.runIn_tryCatch]
  rcases hrun : act.runIn w with ⟨f | a, w₁⟩
  · exact hk f w₁ (h.of_run hrun hw)
  · exact h.of_run hrun hw

/-- To keep an invariant of the world is a law. -/
def Act.Law.keeping (I : World σ → Prop) : Act.Law σ where
  holds act := act.Keeps I
  pure _ _ hw := hw
  throw _ _ hw := hw
  store _ hw := hw
  bind := .bind
  rescue := .rescue

theorem keeps_applyTo (h : env.Keeps I) (step : Step) (v : Value) :
    (step.applyTo env v).Keeps I :=
  (Act.Law.keeping I).applyTo h.apply step v

/-- Asking keeps what the predicates keep, and leaves alone which containers
are being looked into. -/
theorem keeps_ask (h : env.Keeps I) (mode : Mode) (id : Nat) (v : Value) (c : Context)
    (w : World σ) :
    ((ask mode (env.test id v)).runIn c w).2.1.visited = c.visited ∧
      (I w → I ((ask mode (env.test id v)).runIn c w).2.2) := by
  have htest := h.test id v w
  rw [runIn_ask]
  rcases hrun : (env.test id v).runIn w with ⟨f | u | later, w₁⟩
  · rw [hrun] at htest
    exact ⟨rfl, htest⟩
  · rw [hrun] at htest
    exact ⟨rfl, htest⟩
  · rw [hrun] at htest
    cases mode with
    | immediate => exact ⟨rfl, htest⟩
    | awaited =>
        have hlater := fun hw => h.later id v hw hrun
        simp only
        rcases hdone : later.runIn w₁ with ⟨f | u, w₂⟩ <;>
        · rw [hdone] at hlater
          exact ⟨rfl, hlater⟩

theorem Context.visited_unmark_congr {c d : Context} (v : Value) (h : c.visited = d.visited) :
    (c.unmark v).visited = (d.unmark v).visited := by
  unfold unmark
  split
  · simp only [h]
  · exact h

namespace Carry

/-- Checks look into the same containers after as before, and keep the
invariants that the host keeps. -/
def keeping (I : World σ → Prop) : Carry σ where
  rel c w c' w' := c'.visited = c.visited ∧ (I w → I w')
  refl _ _ := ⟨rfl, id⟩
  trans h h' := ⟨h'.1.trans h.1, h'.2 ∘ h.2⟩
  addError _ _ _ := ⟨rfl, id⟩
  push h := h
  mark {c _ _ _ v} hfresh h :=
    ⟨(Context.visited_unmark_congr v h.1).trans (c.unmark_mark v hfresh), h.2⟩
  copy h := ⟨rfl, h.2⟩
  fork h := ⟨rfl, h.2⟩
  left h := ⟨rfl, h.2⟩

theorem keeping_settings (h : env.Keeps I) (mode : Mode) : (keeping I).Settings env mode where
  resolve id _ w := ⟨rfl, h.resolve id w⟩
  step step v _ w := ⟨rfl, keeps_applyTo h step v w⟩
  ask := keeps_ask h mode

/-- What is carried along whenever the host carries it is, for the host's invariants, that
the world comes after. -/
theorem after (mode : Mode) {c c' : Context} {w w' : World σ}
    (h : ∀ K : Carry σ, K.Settings env mode → K.rel c w c' w') : env.After w w' :=
  fun I hkeeps => (h (keeping I) (keeping_settings hkeeps mode)).2

end Carry

theorem keeps_acceptsMissing (h : env.Keeps I) (depth : Nat) (s : Schema) :
    (env.acceptsMissing depth s).Keeps I :=
  (Act.Law.keeping I).acceptsMissing h.resolve depth s

end Invariant

/-! ## A host that does nothing -/

/-- A host whose steps give back what they get, whose predicates agree, and whose
factories give no schema. -/
def idleHost : Setting Unit where
  apply _ v := return v
  test _ _ := return .settled (.bool true)
  testRule _ _ _ := return .settled (.bool true)
  produce _ := throw (.raised "ValueError" "no such schema")

theorem keeps_idleHost (I : World Unit → Prop) : idleHost.Keeps I where
  apply _ _ _ hw := hw
  test _ _ _ hw := hw
  later _ _ _ _ _ _ h := by cases h
  resolve id w hw := by
    rw [Setting.runIn_resolve]
    cases w.built.lookup id <;> exact hw

/-- A host without callbacks, and with a template for the errors of a code that fails instead
of giving words. -/
def mutedHost (code : String) : Setting Unit :=
  { idleHost with
    catalog := ⟨[(code, some (.computed fun _ _ => .error (.raised "ValueError" "no words")))]⟩ }

/-- A host whose steps give the marker of a failed check. -/
def markingHost : Setting Unit := { idleHost with apply := fun _ _ => return .invalid }

/-- A host whose steps change the container at the first address in place. -/
def changingHost (c : Contents) : Setting Unit :=
  { idleHost with
    apply := fun _ v => do
      modify fun w => { w with store := w.store.write 0 c }
      return v }

end Conform
