import Conform.Proofs.Call

/-!
# Likeness of works

Many properties of checks compare two runs: with answers awaited or dropped,
in two settings, on two contexts. A `Likeness` relates works of two hosts and
is kept by every way in which a check puts works together. Then it relates
the two checks, at every depth, for every schema and value, as soon as it
relates what the settings do: resolving deferred schemas, steps, asking
predicates, and wording errors.

A likeness says which error records are alike, so that two runs may word
their errors differently. Values are alike only if they are equal.

With a likeness that looks at one of the two works only, the same theorem
says what every check keeps.

## Main results

* `Likeness.check` — checks in like settings are alike.
* `Likeness.checkWhole` — so are the checks of whole values.
-/

namespace Conform

open Traverse

/-- A relation between works of two hosts that is kept by every way in which
a check puts works together. -/
structure Likeness (σ τ : Type) where
  /-- Which error records are alike. -/
  record : ErrorRecord → ErrorRecord → Prop
  /-- Which works are alike, given which of their values are. -/
  work : {α β : Type} → (α → β → Prop) → Engine σ α → Engine τ β → Prop
  pure {α β : Type} {R : α → β → Prop} {a : α} {b : β} (h : R a b) :
    work R (Pure.pure a) (Pure.pure b)
  bind {α β γ δ : Type} {R : α → β → Prop} {S : γ → δ → Prop} {e : Engine σ α}
    {e' : Engine τ β} {k : α → Engine σ γ} {k' : β → Engine τ δ} (h : work R e e')
    (hk : ∀ a b, R a b → work S (k a) (k' b)) : work S (e >>= k) (e' >>= k')
  throw {α β : Type} (R : α → β → Prop) (f : Fault) :
    work R (MonadExcept.throw f) (MonadExcept.throw f)
  store : work (· = ·) Engine.store Engine.store
  addWorded (code : Code) (words : Option String) (details : Option Details) :
    work (· = ·) (Engine.addWorded code words details) (Engine.addWorded code words details)
  within {α β : Type} {R : α → β → Prop} {e : Engine σ α} {e' : Engine τ β} (k : Key)
    (h : work R e e') : work R (Engine.within k e) (Engine.within k e')
  onCopy {α β : Type} {R : α → β → Prop} {e : Engine σ α} {e' : Engine τ β}
    (h : work R e e') : work R (Engine.onCopy e) (Engine.onCopy e')
  speculate {α β : Type} {R : α → β → Prop} {e : Engine σ α} {e' : Engine τ β}
    (h : work R e e') :
    work (fun p q => R p.1 q.1 ∧ List.Forall₂ record p.2 q.2) (Engine.speculate e)
      (Engine.speculate e')
  /-- A container is looked into only if it is not being looked into. -/
  enter {α β : Type} {R : α → β → Prop} {S : Value → Value → Prop} (v : Value)
    {refused : Engine σ Value} {refused' : Engine τ Value} {e : Engine σ α} {e' : Engine τ β}
    {k : α → Engine σ Value} {k' : β → Engine τ Value} (hrefused : work S refused refused')
    (h : work R e e') (hk : ∀ a b, R a b → work S (k a) (k' b)) :
    work S
      (Engine.context >>= fun c =>
        if c.hasVisited v then refused else Engine.lookingInto v e >>= k)
      (Engine.context >>= fun c =>
        if c.hasVisited v then refused' else Engine.lookingInto v e' >>= k')
  /-- Contexts of alike works have errors alike. -/
  clean {α β : Type} {R : α → β → Prop} {e k : Engine σ α} {e' k' : Engine τ β}
    (h : work R e e') (hk : work R k k') :
    work R (Engine.context >>= fun c => if c.errors.isEmpty then e else k)
      (Engine.context >>= fun c => if c.errors.isEmpty then e' else k')

namespace Likeness

variable {σ τ : Type}

/-- Two settings, each with its mode, that do alike what a check uses of
them. -/
structure Settings (L : Likeness σ τ) (env : Setting σ) (mode : Mode) (env' : Setting τ)
    (mode' : Mode) : Prop where
  resolve (id : Nat) :
    L.work (· = ·) (Engine.ofAct (env.resolve id)) (Engine.ofAct (env'.resolve id))
  applyStep (step : Step) (v : Value) :
    L.work (· = ·) (applyStep env step v) (applyStep env' step v)
  ask (id : Nat) (v : Value) :
    L.work (· = ·) (ask mode (env.test id v)) (ask mode' (env'.test id v))
  addViolation (x : Violation) :
    L.work (· = ·) (Engine.addViolation env x) (Engine.addViolation env' x)
  addFailures (x : Violation) (name : String) {groups groups' : List (List ErrorRecord)}
    (h : List.Forall₂ (List.Forall₂ L.record) groups groups') :
    L.work (· = ·) (Engine.addViolation env { x with details := failuresDetail name groups })
      (Engine.addViolation env' { x with details := failuresDetail name groups' })

variable {L : Likeness σ τ} {env : Setting σ} {env' : Setting τ} {mode mode' : Mode}

/-- Works that start alike and go on alike on equal values are alike. -/
theorem bind_eq {α γ δ : Type} {S : γ → δ → Prop} {e : Engine σ α} {e' : Engine τ α}
    {k : α → Engine σ γ} {k' : α → Engine τ δ} (h : L.work (· = ·) e e')
    (hk : ∀ a, L.work S (k a) (k' a)) : L.work S (e >>= k) (e' >>= k') :=
  L.bind h (by rintro a _ rfl; exact hk a)

/-! ## Absent values -/

theorem anyOf {p : Schema → Act σ Bool} {p' : Schema → Act τ Bool}
    (h : ∀ s, L.work (· = ·) (Engine.ofAct (p s)) (Engine.ofAct (p' s))) (ss : List Schema) :
    L.work (· = ·) (Engine.ofAct (Setting.anyOf p ss)) (Engine.ofAct (Setting.anyOf p' ss)) := by
  induction ss with
  | nil => exact L.pure rfl
  | cons s ss ih =>
      simp only [Setting.anyOf, Engine.ofAct_bind]
      refine bind_eq (h s) fun accepted => ?_
      cases accepted with
      | true => exact L.pure rfl
      | false => exact ih

theorem allOf {p : Schema → Act σ Bool} {p' : Schema → Act τ Bool}
    (h : ∀ s, L.work (· = ·) (Engine.ofAct (p s)) (Engine.ofAct (p' s))) (ss : List Schema) :
    L.work (· = ·) (Engine.ofAct (Setting.allOf p ss)) (Engine.ofAct (Setting.allOf p' ss)) := by
  induction ss with
  | nil => exact L.pure rfl
  | cons s ss ih =>
      simp only [Setting.allOf, Engine.ofAct_bind]
      refine bind_eq (h s) fun accepted => ?_
      cases accepted with
      | true => exact ih
      | false => exact L.pure rfl

/-- Whether an absent value is accepted is decided alike, if it is for the schemas
inside. -/
theorem acceptsLayer (hset : L.Settings env mode env' mode') {inside : Schema → Act σ Bool}
    {inside' : Schema → Act τ Bool}
    (hinside : ∀ s, L.work (· = ·) (Engine.ofAct (inside s)) (Engine.ofAct (inside' s)))
    (s : Schema) :
    L.work (· = ·) (Engine.ofAct (env.acceptsLayer inside s))
      (Engine.ofAct (env'.acceptsLayer inside' s)) := by
  cases s with
  | nullable inner => exact hinside inner
  | transform inner step => exact hinside inner
  | refine inner id words code => exact hinside inner
  | union first rest => exact anyOf hinside (first :: rest)
  | intersection first rest => exact allOf hinside (first :: rest)
  | deferred id =>
      simp only [Setting.acceptsLayer, Engine.ofAct_bind]
      exact bind_eq (hset.resolve id) hinside
  | _ => exact L.pure rfl

theorem acceptsMissing (hset : L.Settings env mode env' mode') (depth : Nat) (s : Schema) :
    L.work (· = ·) (Engine.ofAct (env.acceptsMissing depth s))
      (Engine.ofAct (env'.acceptsMissing depth s)) := by
  induction depth generalizing s with
  | zero => exact L.throw (· = ·) .exhausted
  | succ depth ih => exact acceptsLayer hset ih s

/-! ## Objects and arrays -/

section Layer

variable {accepts : MissingTest σ} {accepts' : MissingTest τ} {child : Checker σ}
  {child' : Checker τ}

theorem refuse (hset : L.Settings env mode env' mode') (x : Violation) :
    L.work (· = ·) (Engine.refuse env x) (Engine.refuse env' x) :=
  bind_eq (hset.addViolation x) fun _ => L.pure rfl

theorem checkField (hset : L.Settings env mode env' mode')
    (haccepts : ∀ s, L.work (· = ·) (Engine.ofAct (accepts s)) (Engine.ofAct (accepts' s)))
    (hchild : ∀ s v, L.work (· = ·) (child s v) (child' s v)) (v : Value) (k : Key)
    (field : Schema) :
    L.work (· = ·) (checkField env accepts child v k field)
      (checkField env' accepts' child' v k field) := by
  refine bind_eq L.store fun st => ?_
  cases (st.entriesOf v).find? k with
  | some u => exact bind_eq (L.within k (hchild field u)) fun _ => L.pure rfl
  | none =>
      refine bind_eq (haccepts field) fun accepted => ?_
      cases accepted with
      | true =>
          refine bind_eq L.store fun st => ?_
          exact bind_eq (L.within k (hchild field _)) fun _ => L.pure rfl
      | false => exact bind_eq (L.within k (hset.addViolation _)) fun _ => L.pure rfl

theorem checkFields (hset : L.Settings env mode env' mode')
    (haccepts : ∀ s, L.work (· = ·) (Engine.ofAct (accepts s)) (Engine.ofAct (accepts' s)))
    (hchild : ∀ s v, L.work (· = ·) (child s v) (child' s v)) (v : Value)
    (fields : Entries Schema) :
    L.work (· = ·) (checkFields env accepts child v fields)
      (checkFields env' accepts' child' v fields) := by
  induction fields with
  | nil => exact L.pure rfl
  | cons e fields ih =>
      refine bind_eq (checkField hset haccepts hchild v e.1 e.2) fun out => ?_
      exact bind_eq ih fun done => L.pure rfl

theorem finishObject (hset : L.Settings env mode env' mode') (fields : Entries Schema)
    (unknown : UnknownKeys) (v : Value) (results : Entries Value) (failed : Bool) :
    L.work (· = ·) (finishObject env fields unknown v results failed)
      (finishObject env' fields unknown v results failed) := by
  refine bind_eq L.store fun st => ?_
  cases unknown with
  | strip => exact L.pure rfl
  | passthrough => exact L.pure rfl
  | strict =>
      simp only
      split
      · exact L.pure rfl
      · exact refuse hset _

theorem checkObject (hset : L.Settings env mode env' mode')
    (haccepts : ∀ s, L.work (· = ·) (Engine.ofAct (accepts s)) (Engine.ofAct (accepts' s)))
    (hchild : ∀ s v, L.work (· = ·) (child s v) (child' s v)) (fields : Entries Schema)
    (unknown : UnknownKeys) (v : Value) :
    L.work (· = ·) (checkObject env accepts child fields unknown v)
      (checkObject env' accepts' child' fields unknown v) := by
  refine bind_eq L.store fun st => ?_
  split
  · exact refuse hset _
  · refine L.enter v (refuse hset circular) (checkFields hset haccepts hchild v fields) ?_
    rintro done _ rfl
    exact finishObject hset fields unknown v done.1 done.2

theorem checkItems {one : Value → Engine σ Value} {one' : Value → Engine τ Value}
    (hone : ∀ v, L.work (· = ·) (one v) (one' v)) (v : Value) (more i : Nat) :
    L.work (· = ·) (checkItems one v more i) (checkItems one' v more i) := by
  induction more generalizing i with
  | zero =>
      refine bind_eq L.store fun st => ?_
      split
      · exact L.throw (· = ·) .exhausted
      · exact L.pure rfl
  | succ more ih =>
      refine bind_eq L.store fun st => ?_
      cases (st.itemsOf v)[i]? with
      | none => exact L.pure rfl
      | some u =>
          refine bind_eq (L.within (.index i) (hone u)) fun result => ?_
          refine bind_eq (ih (i + 1)) fun ⟨results, failed⟩ => ?_
          cases h : isInvalid result <;> simp only [Bool.false_eq_true, if_false, if_true] <;>
            exact L.pure rfl

theorem nextItem {one : Value → Engine σ Value} {one' : Value → Engine τ Value}
    (hone : ∀ v, L.work (· = ·) (one v) (one' v)) (v : Value) (done : List Value × Bool) (i : Nat) :
    L.work (· = ·) (nextItem one v done i) (nextItem one' v done i) := by
  refine bind_eq L.store fun st => ?_
  cases (st.itemsOf v)[i]? with
  | none => exact L.pure rfl
  | some u => exact bind_eq (L.within (.index i) (hone u)) fun _ => L.pure rfl

theorem firstItems {one : Value → Engine σ Value} {one' : Value → Engine τ Value}
    (hone : ∀ v, L.work (· = ·) (one v) (one' v)) (v : Value) (n : Nat) :
    L.work (· = ·) (firstItems one v n) (firstItems one' v n) := by
  induction n with
  | zero => exact L.pure rfl
  | succ n ih => exact bind_eq ih fun done => nextItem hone v done n

theorem addViolations (hset : L.Settings env mode env' mode') (xs : List Violation) :
    L.work (· = ·) (addViolations env xs) (addViolations env' xs) := by
  induction xs with
  | nil => exact L.pure rfl
  | cons x xs ih => exact bind_eq (hset.addViolation x) fun _ => ih

theorem finishArray (hset : L.Settings env mode env' mode') (bounds : ArrayBounds) (v : Value)
    (results : List Value) (failed : Bool) :
    L.work (· = ·) (finishArray env bounds v results failed)
      (finishArray env' bounds v results failed) := by
  refine bind_eq L.store fun st => ?_
  exact bind_eq (addViolations hset _) fun _ => L.pure rfl

/-- Checks against an array schema are alike if the checks of the items are. -/
theorem checkArray_of_items (hset : L.Settings env mode env' mode') {depth depth' : Nat}
    {element : Schema} (bounds : ArrayBounds) {v : Value}
    (hitems : ∀ n, L.work (· = ·) (Traverse.checkItems (child element) v (n + depth) 0)
      (Traverse.checkItems (child' element) v (n + depth') 0)) :
    L.work (· = ·) (checkArray env depth child element bounds v)
      (checkArray env' depth' child' element bounds v) := by
  refine bind_eq L.store fun st => ?_
  split
  · exact refuse hset _
  · refine L.enter v (refuse hset circular) (hitems _) ?_
    rintro done _ rfl
    exact finishArray hset bounds v done.1 done.2

theorem checkArray (hset : L.Settings env mode env' mode') (depth : Nat)
    (hchild : ∀ s v, L.work (· = ·) (child s v) (child' s v)) (element : Schema)
    (bounds : ArrayBounds) (v : Value) :
    L.work (· = ·) (checkArray env depth child element bounds v)
      (checkArray env' depth child' element bounds v) :=
  checkArray_of_items hset bounds fun _ => checkItems (hchild element) v _ 0

/-! ## Unions and intersections -/

theorem isEmpty_eq {es es' : List ErrorRecord} (h : List.Forall₂ L.record es es') :
    es.isEmpty = es'.isEmpty := by
  cases h <;> rfl

theorem refuseFailures (hset : L.Settings env mode env' mode') (x : Violation) (name : String)
    {groups groups' : List (List ErrorRecord)}
    (h : List.Forall₂ (List.Forall₂ L.record) groups groups') :
    L.work (· = ·) (Engine.refuse env { x with details := failuresDetail name groups })
      (Engine.refuse env' { x with details := failuresDetail name groups' }) :=
  bind_eq (hset.addFailures x name h) fun _ => L.pure rfl

theorem tryOptions (hset : L.Settings env mode env' mode')
    (hchild : ∀ s v, L.work (· = ·) (child s v) (child' s v)) (v : Value)
    (options : List Schema) {groups groups' : List (List ErrorRecord)}
    (hgroups : List.Forall₂ (List.Forall₂ L.record) groups groups') :
    L.work (· = ·) (tryOptions env child v groups options)
      (tryOptions env' child' v groups' options) := by
  induction options generalizing groups groups' with
  | nil =>
      exact refuseFailures hset
        { code := .unionInvalid, words := .ok "Input did not match any union member" }
        "union_errors" hgroups
  | cons option options ih =>
      refine L.bind (L.speculate (hchild option v)) fun attempt attempt' hattempt => ?_
      obtain ⟨hresult, herrors⟩ := hattempt
      simp only [isEmpty_eq herrors]
      split
      · exact L.pure hresult
      · exact ih (List.rel_append hgroups (.cons herrors .nil))

theorem tryMembers (hchild : ∀ s v, L.work (· = ·) (child s v) (child' s v)) (v : Value)
    (members : List Schema) :
    L.work (fun p q => p.1 = q.1 ∧ List.Forall₂ (List.Forall₂ L.record) p.2 q.2)
      (tryMembers child v members) (tryMembers child' v members) := by
  induction members with
  | nil => exact L.pure ⟨rfl, .nil⟩
  | cons member members ih =>
      refine L.bind (L.speculate (hchild member v)) fun attempt attempt' hattempt => ?_
      obtain ⟨hresult, herrors⟩ := hattempt
      refine L.bind ih fun done done' hdone => ?_
      obtain ⟨hresults, hgroups⟩ := hdone
      simp only [isEmpty_eq herrors, hresult, hresults]
      split
      · exact L.pure ⟨rfl, hgroups⟩
      · exact L.pure ⟨rfl, .cons herrors hgroups⟩

theorem combine (hset : L.Settings env mode env' mode') (depth : Nat) (results : List Value)
    {groups groups' : List (List ErrorRecord)}
    (hgroups : List.Forall₂ (List.Forall₂ L.record) groups groups') :
    L.work (· = ·) (combine env depth results groups) (combine env' depth results groups') := by
  unfold Traverse.combine
  have hempty : groups.isEmpty = groups'.isEmpty := by cases hgroups <;> rfl
  simp only [hempty]
  split
  · exact refuseFailures hset
      { code := .intersectionInvalid,
        words := .ok "Input did not satisfy all intersection members" }
      "intersection_errors" hgroups
  · cases results with
    | nil => exact L.pure rfl
    | cons first rest =>
        refine bind_eq L.store fun st => ?_
        split
        · exact L.pure rfl
        · exact refuse hset _
        · exact L.throw (· = ·) .exhausted

/-! ## Single values and callbacks -/

theorem settle (hset : L.Settings env mode env' mode') (j : Except Fault Judgement) :
    L.work (· = ·) (settle env j) (settle env' j) := by
  cases j with
  | error f => exact L.throw (· = ·) f
  | ok judgement =>
      cases judgement with
      | accepted v => exact L.pure rfl
      | violated x => exact refuse hset x

theorem askAbout (hset : L.Settings env mode env' mode') (id : Nat) (words : Option String)
    (code : Code) (v : Value) :
    L.work (· = ·) (askAbout env mode id words code v) (askAbout env' mode' id words code v) := by
  refine bind_eq (hset.ask id v) fun answer => ?_
  split
  · exact L.pure rfl
  · exact L.pure rfl
  · exact bind_eq (L.addWorded ..) fun _ => L.pure rfl
  · exact bind_eq (L.addWorded ..) fun _ => L.pure rfl

/-! ## All schemas -/

theorem checkLayer (hset : L.Settings env mode env' mode') (depth : Nat)
    (haccepts : ∀ s, L.work (· = ·) (Engine.ofAct (accepts s)) (Engine.ofAct (accepts' s)))
    (hchild : ∀ s v, L.work (· = ·) (child s v) (child' s v)) (s : Schema) (v : Value) :
    L.work (· = ·) (checkLayer env mode depth accepts child s v)
      (checkLayer env' mode' depth accepts' child' s v) := by
  cases s with
  | object fields unknown => exact checkObject hset haccepts hchild fields unknown v
  | array element bounds => exact checkArray hset depth hchild element bounds v
  | union first rest => exact tryOptions hset hchild v (first :: rest) .nil
  | intersection first rest =>
      refine L.bind (tryMembers hchild v (first :: rest)) ?_
      rintro ⟨results, groups⟩ ⟨_, groups'⟩ ⟨rfl, hgroups⟩
      exact combine hset depth results hgroups
  | optional inner =>
      simp only [Traverse.checkLayer]
      split
      · exact L.pure rfl
      · exact hchild inner v
  | nullable inner =>
      simp only [Traverse.checkLayer]
      split
      · exact L.pure rfl
      · exact hchild inner v
  | withDefault inner default =>
      simp only [Traverse.checkLayer]
      split
      · simp only [Engine.ofAct_copyOf]
        refine bind_eq (bind_eq L.store fun st => ?_) fun copy => L.onCopy (hchild inner copy)
        split
        · exact L.pure rfl
        · exact L.throw (· = ·) _
      · exact hchild inner v
  | transform inner step =>
      refine bind_eq (hchild inner v) fun result => ?_
      split
      · exact L.pure rfl
      · exact hset.applyStep step result
  | refine inner id words code =>
      refine bind_eq (hchild inner v) fun result => ?_
      split
      · exact L.pure rfl
      · exact askAbout hset id words code result
  | deferred id => exact bind_eq (hset.resolve id) fun s => hchild s v
  | _ => exact bind_eq L.store fun st => settle hset _

end Layer

/-- Checks in like settings are alike. -/
theorem check (hset : L.Settings env mode env' mode') (depth : Nat) (s : Schema) (v : Value) :
    L.work (· = ·) (check env mode depth s v) (check env' mode' depth s v) := by
  induction depth generalizing s v with
  | zero => exact L.throw (· = ·) .exhausted
  | succ depth ih => exact checkLayer hset depth (acceptsMissing hset depth) ih s v

/-- Rules are asked alike if each of them is. -/
theorem askRules {s : Schema} {v : Value}
    (hask : ∀ id,
      L.work (· = ·) (ask mode (env.testRule id s v)) (ask mode' (env'.testRule id s v)))
    (rules : List Rule) :
    L.work (· = ·) (Validate.askRules env mode s v rules)
      (Validate.askRules env' mode' s v rules) := by
  induction rules with
  | nil => exact L.pure rfl
  | cons rule rules ih =>
      refine bind_eq (bind_eq (hask rule.check) fun answer => ?_) fun _ => ih
      split
      · exact L.pure rfl
      · exact L.pure rfl
      · exact L.addWorded ..
      · exact L.addWorded ..

/-- Whole values are checked alike in like settings with the same rules, if
each rule is asked alike. -/
theorem checkWhole (hset : L.Settings env mode env' mode') (hrules : env'.rules = env.rules)
    {s : Schema} {v : Value}
    (hask : ∀ id,
      L.work (· = ·) (ask mode (env.testRule id s v)) (ask mode' (env'.testRule id s v)))
    (depth : Nat) :
    L.work (· = ·) (Validate.checkWhole env mode depth s v)
      (Validate.checkWhole env' mode' depth s v) := by
  unfold Validate.checkWhole
  rw [hrules]
  refine bind_eq (check hset depth s v) fun r => ?_
  exact L.clean (bind_eq (askRules hask env.rules) fun _ => L.pure rfl) (L.pure rfl)

end Likeness

end Conform
