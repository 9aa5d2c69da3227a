import Conform.Proofs.Report
import Conform.Proofs.Restoration

/-!
# Runs in pairs, followed call by call

A likeness relates works wherever they start. Some relations hold only of the
runs that really happen: what a run adds depends on the calls it makes, and two
runs of one check on different contexts end alike only if neither meets a
container that the other is looking into. A `Pairing` relates works from a start
on, and is kept by every way in which a check puts works together. Then it
relates the runs of a check as soon as it relates, for each call of the run, what
the call itself adds to the context.

With a pairing that looks at one of the two works only, the same theorem says
what is true of every run.

## Main results

* `Pairing.walks_of_makes` — the step: a call is paired if the calls it makes are.
* `Pairing.walks` — a call is paired if what each call of its run adds is.
-/

namespace Conform

open Traverse

/-! ## Pairings -/

/-- A relation between works, from a context and a world on in which the first
of them starts, that is kept by every way in which a check puts works
together. -/
structure Pairing (σ : Type) where
  /-- Which error records are paired. -/
  record : ErrorRecord → ErrorRecord → Prop
  /-- Which values may be looked into. -/
  apart : Value → Prop
  /-- By which faults works may end. -/
  fault : Fault → Prop
  /-- Which works are paired from a start on, given which of their values are. -/
  work : {α β : Type} → (α → β → Prop) → Context → World σ → Engine σ α → Engine σ β → Prop
  pure {α β : Type} {R : α → β → Prop} {a : α} {b : β} (c : Context) (w : World σ) (h : R a b) :
    work R c w (Pure.pure a) (Pure.pure b)
  bind {α β γ δ : Type} {R : α → β → Prop} {S : γ → δ → Prop} {c : Context} {w : World σ}
    {e : Engine σ α} {e' : Engine σ β} {k : α → Engine σ γ} {k' : β → Engine σ δ}
    (h : work R c w e e')
    (hk : ∀ a b c₁ w₁, e.runIn c w = (.ok a, c₁, w₁) → R a b → work S c₁ w₁ (k a) (k' b)) :
    work S c w (e >>= k) (e' >>= k')
  exhausted : fault .exhausted
  throw {α β : Type} (R : α → β → Prop) (c : Context) (w : World σ) {f : Fault} (h : fault f) :
    work R c w (MonadExcept.throw f) (MonadExcept.throw f)
  store (c : Context) (w : World σ) : work (· = ·) c w Engine.store Engine.store
  act {α : Type} (c : Context) {w : World σ} {act : Act σ α}
    (h : ∀ f w', act.runIn w = (.error f, w') → fault f) :
    work (· = ·) c w (Engine.ofAct act) (Engine.ofAct act)
  attempt {α : Type} (c : Context) (w : World σ) (act : Act σ α) :
    work (· = ·) c w (Engine.attempt act) (Engine.attempt act)
  markAwaiting (c : Context) (w : World σ) :
    work (· = ·) c w (Engine.change .markAwaiting) (Engine.change .markAwaiting)
  within {α β : Type} {R : α → β → Prop} {c : Context} {w : World σ} {e : Engine σ α}
    {e' : Engine σ β} (k : Key) (hback : (c.push k).Restored (e.runIn (c.push k) w).2.1)
    (h : work R (c.push k) w e e') : work R c w (Engine.within k e) (Engine.within k e')
  onCopy {α β : Type} {R : α → β → Prop} {c : Context} {w : World σ} {e : Engine σ α}
    {e' : Engine σ β} (h : work R c.afresh w e e') :
    work R c w (Engine.onCopy e) (Engine.onCopy e')
  speculate {α β : Type} {R : α → β → Prop} {c : Context} {w : World σ} {e : Engine σ α}
    {e' : Engine σ β} (h : work R c.fork w e e') :
    work (fun p q => R p.1 q.1 ∧ List.Forall₂ record p.2 q.2) c w (Engine.speculate e)
      (Engine.speculate e')
  /-- A container is looked into only if it is not being looked into. -/
  enter {α β : Type} {R : α → β → Prop} {S : Value → Value → Prop} {c : Context} {w : World σ}
    (v : Value) {refused refused' : Engine σ Value} {e : Engine σ α} {e' : Engine σ β}
    {k : α → Engine σ Value} {k' : β → Engine σ Value} (hapart : apart v)
    (hrefused : c.hasVisited v = true → work S c w refused refused')
    (h : c.hasVisited v = false → work R (c.mark v) w e e')
    (hk : c.hasVisited v = false → ∀ a b c₁ w₁,
      (Engine.lookingInto v e).runIn c w = (.ok a, c₁, w₁) → R a b → work S c₁ w₁ (k a) (k' b)) :
    work S c w
      (Engine.context >>= fun c =>
        if c.hasVisited v then refused else Engine.lookingInto v e >>= k)
      (Engine.context >>= fun c =>
        if c.hasVisited v then refused' else Engine.lookingInto v e' >>= k')

namespace Pairing

variable {σ : Type}

/-- What a call adds to its context is paired, and it ends by no fault that works
may not end by. -/
structure Settings (L : Pairing σ) (env : Setting σ) (mode : Mode) (f : Call σ) : Prop where
  apart (h : f.meets = true) : L.apart f.value
  judged {e : Fault} (h : f.schema.judge? f.world.store f.value = some (.error e)) : L.fault e
  asked {depth : Nat} {s : Schema} {w w' : World σ} {e : Fault} (hdepth : f.depth = depth + 1)
    (hasks : Call.Asks env mode f s w)
    (h : (env.acceptsMissing depth s).runIn w = (.error e, w')) : L.fault e
  resolved {id : Nat} {w' : World σ} {e : Fault} (hs : f.schema = .deferred id)
    (h : (env.resolve id).runIn f.world = (.error e, w')) : L.fault e
  uncopied {inner : Schema} {default : Value} (hs : f.schema = .withDefault inner default)
    (hmissing : isMissing f.value = true) (h : f.world.store.isCopyable default = false) :
    L.fault (.uncopyable "mappingproxy")
  violation {x : Violation} {c : Context} {w₁ : World σ} (h : f.Reports w₁ x c.path)
    (hfound : env.After f.world w₁) {w : World σ} (hafter : env.After w₁ w) :
    L.work (· = ·) c w (Engine.addViolation env x) (Engine.addViolation env x)
  failures {x : Violation} {name : String} {c : Context} (h : f.Fails x name)
    (hpath : c.path = f.context.path) {w : World σ} (hafter : env.After f.world w)
    {groups groups' : List (List ErrorRecord)}
    (hgroups : List.Forall₂ (List.Forall₂ L.record) groups groups') :
    L.work (· = ·) c w
      (Engine.addViolation env { x with details := failuresDetail name groups })
      (Engine.addViolation env { x with details := failuresDetail name groups' })
  worded {code : Code} {c : Context} (h : f.Words code) (hpath : c.path = f.context.path)
    (w : World σ) (words : Option String) :
    L.work (· = ·) c w (Engine.addWorded code words none) (Engine.addWorded code words none)

variable {L : Pairing σ} {env : Setting σ} {mode : Mode} {depth : Nat} {c : Context} {w : World σ}

/-- Works that are paired and go on in pairs on equal values. -/
theorem bind_eq {α γ δ : Type} {S : γ → δ → Prop} {e e' : Engine σ α} {k : α → Engine σ γ}
    {k' : α → Engine σ δ} (h : L.work (· = ·) c w e e')
    (hk : ∀ a c₁ w₁, e.runIn c w = (.ok a, c₁, w₁) → L.work S c₁ w₁ (k a) (k' a)) :
    L.work S c w (e >>= k) (e' >>= k') := by
  refine L.bind h ?_
  rintro a _ c₁ w₁ hrun rfl
  exact hk a c₁ w₁ hrun

theorem refuse {x x' : Violation}
    (h : L.work (· = ·) c w (Engine.addViolation env x) (Engine.addViolation env x')) :
    L.work (· = ·) c w (Engine.refuse env x) (Engine.refuse env x') :=
  bind_eq h fun _ c₁ w₁ _ => L.pure c₁ w₁ rfl

/-- A check is paired with itself, from a context and a world on. -/
abbrev Checks (L : Pairing σ) (env : Setting σ) (mode : Mode) (depth : Nat) (s : Schema)
    (v : Value) (c : Context) (w : World σ) : Prop :=
  L.work (· = ·) c w (check env mode depth s v) (check env mode depth s v)

theorem withinCheck {s : Schema} {v : Value} (k : Key)
    (h : L.Checks env mode depth s v (c.push k) w) :
    L.work (· = ·) c w (Engine.within k (check env mode depth s v))
      (Engine.within k (check env mode depth s v)) :=
  L.within k (check_restores_context env mode depth s v _ w) h

/-! ## Worlds after loops -/

theorem after_of_checkFields {v : Value} {fields : Entries Schema}
    {r : Except Fault (Entries Value × Bool)} {c' : Context} {w' : World σ}
    (h : (checkFields env (env.acceptsMissing depth) (check env mode depth) v
      fields).runIn c w = (r, c', w')) : env.After w w' :=
  Carry.after mode fun _ hset => Carry.of_checkFields hset depth h

theorem after_of_checkField {v : Value} {k : Key} {field : Schema}
    {out : Option Value × Bool} {c' : Context} {w' : World σ}
    (h : (Traverse.checkField env (env.acceptsMissing depth) (check env mode depth) v k
      field).runIn c w = (.ok out, c', w')) : env.After w w' := by
  have hfields : (Traverse.checkFields env (env.acceptsMissing depth) (check env mode depth)
      v ([] ++ [(k, field)])).runIn c w = (.ok (joinOutcome ([], false) k out), c', w') := by
    rw [checkFields_concat, Traverse.checkFields]
    exact Engine.runIn_bind_ok_iff.mpr ⟨_, c, w, rfl, Engine.runIn_bind_of_ok _ h⟩
  exact after_of_checkFields hfields

theorem after_of_firstItems {element : Schema} {v : Value} {n : Nat}
    {r : Except Fault (List Value × Bool)} {c' : Context} {w' : World σ}
    (h : (firstItems (check env mode depth element) v n).runIn c w = (r, c', w')) :
    env.After w w' :=
  Carry.after mode fun _ hset => Carry.of_firstItems hset depth h

theorem after_of_tryMembers {v : Value} {members : List Schema}
    {r : Except Fault (List Value × List (List ErrorRecord))} {c' : Context} {w' : World σ}
    (h : (tryMembers (check env mode depth) v members).runIn c w = (r, c', w')) :
    env.After w w' :=
  Carry.after mode fun _ hset => Carry.of_tryMembers hset depth h

/-! ## Objects -/

theorem checkField {v : Value} {k : Key} {field : Schema}
    (hchild : ∀ u w₁, Handed (env.acceptsMissing depth) v k field w u w₁ →
      L.Checks env mode depth field u (c.push k) w₁)
    (hasked : (w.store.entriesOf v).find? k = none → ∀ e w₁,
      (env.acceptsMissing depth field).runIn w = (.error e, w₁) → L.fault e)
    (hrequired : (w.store.entriesOf v).find? k = none → ∀ w₁, env.After w w₁ →
      L.work (· = ·) (c.push k) w₁ (Engine.addViolation env (requiredMissing k))
        (Engine.addViolation env (requiredMissing k))) :
    L.work (· = ·) c w
      (checkField env (env.acceptsMissing depth) (check env mode depth) v k field)
      (checkField env (env.acceptsMissing depth) (check env mode depth) v k field) := by
  refine bind_eq (L.store c w) fun st c₁ w₁ hst => ?_
  cases hst
  cases hfind : (w.store.entriesOf v).find? k with
  | some u =>
      exact bind_eq (withinCheck k (hchild u w (.present hfind))) fun _ c₁ w₁ _ => L.pure c₁ w₁ rfl
  | none =>
      refine bind_eq (L.act c (hasked hfind)) fun accepted c₁ w₁ hflag => ?_
      obtain ⟨haccepted, rfl⟩ := Engine.runIn_ofAct_ok_iff.mp hflag
      cases accepted with
      | true =>
          refine bind_eq (L.store c₁ w₁) fun st c₂ w₂ hst => ?_
          cases hst
          exact bind_eq (withinCheck k (hchild _ w₁ (.absent hfind haccepted)))
            fun _ c₂ w₂ _ => L.pure c₂ w₂ rfl
      | false =>
          have hafter : env.After w w₁ := fun I hkeeps =>
            (keeps_acceptsMissing hkeeps depth field).of_run haccepted
          refine bind_eq (L.within k ?_ (hrequired hfind w₁ hafter))
            fun _ c₂ w₂ _ => L.pure c₂ w₂ rfl
          exact restored_addViolation env _ _ w₁

theorem checkFields {v : Value} {fields : Entries Schema}
    (hchild : ∀ earlier k field later done c₁ w₁ u w₂,
      fields = earlier ++ (k, field) :: later →
      (checkFields env (env.acceptsMissing depth) (check env mode depth) v
        earlier).runIn c w = (.ok done, c₁, w₁) →
      Handed (env.acceptsMissing depth) v k field w₁ u w₂ →
      L.Checks env mode depth field u (c₁.push k) w₂)
    (hasked : ∀ earlier k field later done c₁ w₁, fields = earlier ++ (k, field) :: later →
      (checkFields env (env.acceptsMissing depth) (check env mode depth) v
        earlier).runIn c w = (.ok done, c₁, w₁) →
      (w₁.store.entriesOf v).find? k = none → ∀ e w₂,
      (env.acceptsMissing depth field).runIn w₁ = (.error e, w₂) → L.fault e)
    (hrequired : ∀ k field, (k, field) ∈ fields → ∀ c₁ w₁ w₂, c₁.path = c.path ++ [k] →
      env.After w w₁ → (w₁.store.entriesOf v).find? k = none → env.After w₁ w₂ →
      L.work (· = ·) c₁ w₂ (Engine.addViolation env (requiredMissing k))
        (Engine.addViolation env (requiredMissing k))) :
    L.work (· = ·) c w
      (checkFields env (env.acceptsMissing depth) (check env mode depth) v fields)
      (checkFields env (env.acceptsMissing depth) (check env mode depth) v fields) := by
  induction fields using List.reverseRecOn with
  | nil => exact L.pure c w rfl
  | append_singleton fields e ih =>
      obtain ⟨k, field⟩ := e
      simp only [checkFields_concat]
      refine bind_eq (ih ?_ ?_ ?_) fun done c₁ w₁ hdone => ?_
      · intro earlier l other later done c₁ w₁ u w₂ hsplit
        exact hchild earlier l other (later ++ [(k, field)]) done c₁ w₁ u w₂ (by simp [hsplit])
      · intro earlier l other later done c₁ w₁ hsplit
        exact hasked earlier l other (later ++ [(k, field)]) done c₁ w₁ (by simp [hsplit])
      · exact fun l other hother => hrequired l other (List.mem_append_left _ hother)
      · have hpath := (restored_of_checkFields hdone).path
        refine bind_eq (checkField ?_ ?_ ?_) fun _ c₂ w₂ _ => L.pure c₂ w₂ rfl
        · exact fun u w₂ => hchild fields k field [] done c₁ w₁ u w₂ rfl hdone
        · exact hasked fields k field [] done c₁ w₁ rfl hdone
        · exact fun habsent w₂ => hrequired k field (by simp) _ w₁ w₂
            (by rw [Context.push_path, hpath]) (after_of_checkFields hdone) habsent

theorem finishObject {fields : Entries Schema} {unknown : UnknownKeys} {v : Value}
    {results : Entries Value} {failed : Bool}
    (hunknown : unknown = .strict → undeclared fields (w.store.entriesOf v) ≠ [] →
      L.work (· = ·) c w
        (Engine.addViolation env (unknownFound (undeclared fields (w.store.entriesOf v)).keys))
        (Engine.addViolation env (unknownFound (undeclared fields (w.store.entriesOf v)).keys))) :
    L.work (· = ·) c w (finishObject env fields unknown v results failed)
      (finishObject env fields unknown v results failed) := by
  refine bind_eq (L.store c w) fun st c₁ w₁ hst => ?_
  cases hst
  cases unknown with
  | strip => exact L.pure c w rfl
  | passthrough => exact L.pure c w rfl
  | strict =>
      simp only
      split
      · exact L.pure c w rfl
      · rename_i hextra
        exact refuse (hunknown rfl (by simpa using hextra))

/-! ## Arrays -/

/-- The items from some place on, those before it having had their turns. -/
theorem checkItems {element : Schema} {v : Value} {more i : Nat} {done : List Value × Bool}
    {c₁ : Context} {w₁ : World σ}
    (hearlier : (firstItems (check env mode depth element) v i).runIn c w = (.ok done, c₁, w₁))
    (hchild : ∀ j u done c₂ w₂, j < i + more →
      (firstItems (check env mode depth element) v j).runIn c w = (.ok done, c₂, w₂) →
      (w₂.store.itemsOf v)[j]? = some u →
      L.Checks env mode depth element u (c₂.push (.index j)) w₂) :
    L.work (· = ·) c₁ w₁ (checkItems (check env mode depth element) v more i)
      (checkItems (check env mode depth element) v more i) := by
  induction more generalizing i done c₁ w₁ with
  | zero =>
      refine bind_eq (L.store c₁ w₁) fun st c₂ w₂ hst => ?_
      cases hst
      split
      · exact L.throw _ c₁ w₁ L.exhausted
      · exact L.pure c₁ w₁ rfl
  | succ more ih =>
      refine bind_eq (L.store c₁ w₁) fun st c₂ w₂ hst => ?_
      cases hst
      cases hitem : (w₁.store.itemsOf v)[i]? with
      | none => exact L.pure c₁ w₁ rfl
      | some u =>
          refine bind_eq (withinCheck _ (hchild i u done c₁ w₁ (by omega) hearlier hitem))
            fun result c₂ w₂ hrun => ?_
          have hnext := runIn_firstItems_succ hearlier hitem hrun
          refine bind_eq (ih hnext fun j u done c₃ w₃ hj => hchild j u done c₃ w₃ (by omega))
            fun ⟨results, failed⟩ c₃ w₃ _ => ?_
          cases isInvalid result with
          | true => exact L.pure c₃ w₃ rfl
          | false => exact L.pure c₃ w₃ rfl

theorem addViolations {xs : List Violation}
    (h : ∀ x ∈ xs, ∀ c₁, c₁.path = c.path →
      L.work (· = ·) c₁ w (Engine.addViolation env x) (Engine.addViolation env x)) :
    L.work (· = ·) c w (addViolations env xs) (addViolations env xs) := by
  induction xs generalizing c w with
  | nil => exact L.pure c w rfl
  | cons x xs ih =>
      refine bind_eq (h x List.mem_cons_self c rfl) fun _ c₁ w₁ hx => ih ?_
      obtain ⟨message, rfl, rfl⟩ := Engine.eq_addError_of_runIn_addViolation hx
      exact fun y hy => h y (List.mem_cons_of_mem _ hy)

/-! ## Unions and intersections -/

theorem isEmpty_eq {es es' : List ErrorRecord} (h : List.Forall₂ L.record es es') :
    es.isEmpty = es'.isEmpty := by
  cases h <;> rfl

/-- The options from some place on, those before it having failed. -/
theorem tryOptions {v : Value} {options earlier : List Schema} {c₁ : Context} {w₁ : World σ}
    {failed : List (List ErrorRecord)}
    (hearlier : (tryMembers (check env mode depth) v earlier).runIn c w =
      (.ok ([], failed), c₁, w₁))
    (hchild : ∀ before option later failed c₂ w₂,
      earlier ++ options = before ++ option :: later →
      (tryMembers (check env mode depth) v before).runIn c w = (.ok ([], failed), c₂, w₂) →
      L.Checks env mode depth option v c₂.fork w₂)
    (hfailures : ∀ c₂ w₂ groups groups', c₂.path = c.path → env.After w w₂ →
      List.Forall₂ (List.Forall₂ L.record) groups groups' →
      L.work (· = ·) c₂ w₂
        (Engine.addViolation env
          { optionsFailed with details := failuresDetail "union_errors" groups })
        (Engine.addViolation env
          { optionsFailed with details := failuresDetail "union_errors" groups' }))
    {groups groups' : List (List ErrorRecord)}
    (hgroups : List.Forall₂ (List.Forall₂ L.record) groups groups') :
    L.work (· = ·) c₁ w₁ (tryOptions env (check env mode depth) v groups options)
      (tryOptions env (check env mode depth) v groups' options) := by
  induction options generalizing earlier c₁ w₁ failed groups groups' with
  | nil =>
      have hpath := (restored_of_tryMembers hearlier).path
      exact refuse (hfailures c₁ w₁ groups groups' hpath (after_of_tryMembers hearlier) hgroups)
  | cons option options ih =>
      refine L.bind (L.speculate (hchild earlier option options failed c₁ w₁ rfl hearlier)) ?_
      intro attempt attempt' c₂ w₂ hattempt hpaired
      obtain ⟨hresult, herrors⟩ := hpaired
      simp only [← isEmpty_eq herrors]
      by_cases hempty : attempt.2.isEmpty
      · simp only [hempty, if_true]
        exact L.pure c₂ w₂ hresult
      · simp only [hempty, Bool.false_eq_true, if_false]
        refine ih (runIn_tryMembers_failed hearlier hattempt (by simpa using hempty)) ?_
          (List.rel_append hgroups (.cons herrors .nil))
        intro before other later failed c₃ w₃ hoptions
        exact hchild before other later failed c₃ w₃ (by simpa using hoptions)

theorem tryMembers {v : Value} {members : List Schema}
    (hchild : ∀ earlier member later done c₁ w₁, members = earlier ++ member :: later →
      (tryMembers (check env mode depth) v earlier).runIn c w = (.ok done, c₁, w₁) →
      L.Checks env mode depth member v c₁.fork w₁) :
    L.work (fun p q => p.1 = q.1 ∧ List.Forall₂ (List.Forall₂ L.record) p.2 q.2) c w
      (tryMembers (check env mode depth) v members)
      (tryMembers (check env mode depth) v members) := by
  induction members using List.reverseRecOn with
  | nil => exact L.pure c w ⟨rfl, .nil⟩
  | append_singleton members member ih =>
      simp only [tryMembers_concat]
      refine L.bind (ih ?_) fun done done' c₁ w₁ hdone hpaired => ?_
      · intro earlier other later done c₁ w₁ hsplit
        exact hchild earlier other (later ++ [member]) done c₁ w₁ (by simp [hsplit])
      obtain ⟨hresults, hgroups⟩ := hpaired
      refine L.bind (L.speculate (hchild members member [] done c₁ w₁ rfl hdone)) ?_
      intro attempt attempt' c₂ w₂ _ hattempt
      obtain ⟨hresult, herrors⟩ := hattempt
      refine L.pure c₂ w₂ ?_
      simp only [joinAttempt, ← isEmpty_eq herrors, hresult, hresults]
      split
      · exact ⟨rfl, hgroups⟩
      · exact ⟨rfl, List.rel_append hgroups (.cons herrors .nil)⟩

theorem combine {results : List Value} {groups groups' : List (List ErrorRecord)}
    (hgroups : List.Forall₂ (List.Forall₂ L.record) groups groups')
    (hfailures : L.work (· = ·) c w
      (Engine.addViolation env
        { membersFailed with details := failuresDetail "intersection_errors" groups })
      (Engine.addViolation env
        { membersFailed with details := failuresDetail "intersection_errors" groups' }))
    (hconflict : ∀ path left right, L.work (· = ·) c w
      (Engine.addViolation env (conflictFound path left right))
      (Engine.addViolation env (conflictFound path left right))) :
    L.work (· = ·) c w (combine env depth results groups) (combine env depth results groups') := by
  unfold Traverse.combine
  have hempty : groups.isEmpty = groups'.isEmpty := by cases hgroups <;> rfl
  simp only [hempty]
  split
  · exact refuse hfailures
  · cases results with
    | nil => exact L.pure c w rfl
    | cons first rest =>
        refine bind_eq (L.store c w) fun st c₁ w₁ hst => ?_
        cases hst
        split
        · exact L.pure c w rfl
        · exact refuse (hconflict _ _ _)
        · exact L.throw _ c w L.exhausted

/-! ## Single values and callbacks -/

theorem settle {j : Except Fault Judgement} (hfault : ∀ e, j = .error e → L.fault e)
    (h : ∀ x, j = .ok (.violated x) →
      L.work (· = ·) c w (Engine.addViolation env x) (Engine.addViolation env x)) :
    L.work (· = ·) c w (settle env j) (settle env j) := by
  cases j with
  | error f => exact L.throw _ c w (hfault f rfl)
  | ok judgement =>
      cases judgement with
      | accepted v => exact L.pure c w rfl
      | violated x => exact refuse (h x rfl)

theorem applyStep {step : Step} {v : Value}
    (h : ∀ w₁ words, L.work (· = ·) c w₁ (Engine.addWorded (.builtin .transformError) words none)
      (Engine.addWorded (.builtin .transformError) words none)) :
    L.work (· = ·) c w (applyStep env step v) (applyStep env step v) := by
  refine bind_eq (L.attempt c w _) fun r c₁ w₁ hrun => ?_
  cases hrun
  split
  · exact L.pure _ _ rfl
  · exact bind_eq (h _ _) fun _ c₂ w₂ _ => L.pure c₂ w₂ rfl

theorem ask (mode : Mode) (test : Act σ (Reply σ)) :
    L.work (· = ·) c w (ask mode test) (ask mode test) := by
  refine bind_eq (L.attempt c w _) fun r c₁ w₁ _ => ?_
  split
  · exact L.pure _ _ rfl
  · exact bind_eq (L.store _ _) fun _ c₂ w₂ _ => L.pure c₂ w₂ rfl
  · refine bind_eq (L.markAwaiting _ _) fun _ c₂ w₂ _ => ?_
    cases mode with
    | immediate => exact L.pure _ _ rfl
    | awaited =>
        refine bind_eq (L.attempt _ _ _) fun r c₃ w₃ _ => ?_
        split
        · exact L.pure _ _ rfl
        · exact bind_eq (L.store _ _) fun _ c₄ w₄ _ => L.pure c₄ w₄ rfl

theorem askAbout {id : Nat} {words : Option String} {code : Code} {v : Value}
    (h : ∀ c₁ w₁ words, c₁.path = c.path →
      L.work (· = ·) c₁ w₁ (Engine.addWorded code words none) (Engine.addWorded code words none)) :
    L.work (· = ·) c w (askAbout env mode id words code v)
      (askAbout env mode id words code v) := by
  refine bind_eq (ask mode _) fun answer c₁ w₁ hask => ?_
  have hpath : c₁.path = c.path := by
    have hback := ((Carry.restoring_settings env mode).ask id v c w).path
    rwa [hask] at hback
  split
  · exact L.pure _ _ rfl
  · exact L.pure _ _ rfl
  · exact bind_eq (h c₁ w₁ _ hpath) fun _ c₂ w₂ _ => L.pure c₂ w₂ rfl
  · exact bind_eq (h c₁ w₁ _ hpath) fun _ c₂ w₂ _ => L.pure c₂ w₂ rfl

/-! ## All schemas -/

/-- The run of a call is paired with itself. -/
abbrev Walks (L : Pairing σ) (env : Setting σ) (mode : Mode) (f : Call σ) : Prop :=
  L.Checks env mode f.depth f.schema f.value f.context f.world

section Layer

variable {s : Schema} {v : Value}

theorem checkObject {fields : Entries Schema} {unknown : UnknownKeys}
    (hset : L.Settings env mode ⟨depth + 1, .object fields unknown, v, c, w⟩)
    (hmade : ∀ g, Call.Makes env mode ⟨depth + 1, .object fields unknown, v, c, w⟩ g →
      L.Walks env mode g) :
    L.Checks env mode (depth + 1) (.object fields unknown) v c w := by
  refine bind_eq (L.store c w) fun st c₁ w₁ hst => ?_
  cases hst
  cases hobject : (w.store.entries? v).isNone with
  | true =>
      simp only [if_true]
      exact refuse (hset.violation (.notObject hobject) (.refl env w) (.refl env w))
  | false =>
      simp only [Bool.false_eq_true, if_false]
      have hapart : L.apart v := hset.apart (by simpa [Call.meets] using hobject)
      refine L.enter (R := (· = ·)) v hapart (fun hvisited => ?_) (fun hfresh => ?_) ?_
      · exact refuse (hset.violation (.objectAgain hobject hvisited) (.refl env w) (.refl env w))
      · refine checkFields ?_ ?_ ?_
        · intro earlier k field later done c₁ w₁ u w₂ hfields hearlier hhanded
          exact hmade _ (.field hobject hfresh hfields hearlier hhanded)
        · intro earlier k field later done c₁ w₁ hfields hearlier habsent e w₂
          exact hset.asked rfl (.field hobject hfresh hfields hearlier habsent)
        · intro k field hfield c₁ w₁ w₂ hpath hfound habsent hafter
          refine hset.violation ?_ hfound hafter
          rw [hpath, Context.path_mark]
          exact .required hobject hfresh hfield habsent
      · rintro hfresh done _ c₁ w₁ hdone rfl
        obtain ⟨c₂, hinside, rfl⟩ := Engine.runIn_lookingInto_ok_iff.mp hdone
        have hback := restored_of_checkFields hinside
        refine finishObject fun hstrict hextra =>
          hset.violation ?_ (after_of_checkFields hinside) (.refl env w₁)
        rw [(hback.of_mark hfresh).path]
        subst hstrict
        exact .unknown hobject hfresh hextra

theorem checkArray {element : Schema} {bounds : ArrayBounds}
    (hset : L.Settings env mode ⟨depth + 1, .array element bounds, v, c, w⟩)
    (hmade : ∀ g, Call.Makes env mode ⟨depth + 1, .array element bounds, v, c, w⟩ g →
      L.Walks env mode g) :
    L.Checks env mode (depth + 1) (.array element bounds) v c w := by
  refine bind_eq (L.store c w) fun st c₁ w₁ hst => ?_
  cases hst
  cases harray : (w.store.items? v).isNone with
  | true =>
      simp only [if_true]
      exact refuse (hset.violation (.notArray harray) (.refl env w) (.refl env w))
  | false =>
      simp only [Bool.false_eq_true, if_false]
      have hapart : L.apart v := hset.apart (by simpa [Call.meets] using harray)
      refine L.enter (R := (· = ·)) v hapart (fun hvisited => ?_) (fun hfresh => ?_) ?_
      · exact refuse (hset.violation (.arrayAgain harray hvisited) (.refl env w) (.refl env w))
      · refine checkItems (Engine.runIn_pure _ _ _) fun i u done c₁ w₁ hmore hearlier hitem => ?_
        exact hmade _ (.element harray hfresh (by omega) hearlier hitem)
      · rintro hfresh done _ c₁ w₁ hdone rfl
        obtain ⟨c₂, hinside, rfl⟩ := Engine.runIn_lookingInto_ok_iff.mp hdone
        obtain ⟨hfirst, -⟩ := runIn_checkItems_ok_iff.mp hinside
        have hback := restored_of_firstItems hfirst
        have hafter : env.After w w₁ := after_of_firstItems hfirst
        refine bind_eq (L.store _ w₁) fun st c₃ w₃ hst => ?_
        cases hst
        refine bind_eq (addViolations fun x hx c₃ hpath =>
          hset.violation ?_ hafter (.refl env w₁)) fun _ c₃ w₃ _ => L.pure c₃ w₃ rfl
        rw [hpath, (hback.of_mark hfresh).path]
        exact .bound harray hfresh hx

end Layer

/-- One layer: a call is paired if the calls it makes are, that on a copy as work
on a copy, and what it adds itself is. -/
theorem walks_of_makes {f : Call σ} (hset : L.Settings env mode f)
    (hmade : ∀ g, Call.GoesOn env mode f g → L.Walks env mode g)
    (hcopied : f.copies = true → ∀ g, Call.Makes env mode f g →
      L.work (· = ·) f.context f.world (Engine.onCopy (check env mode g.depth g.schema g.value))
        (Engine.onCopy (check env mode g.depth g.schema g.value))) : L.Walks env mode f := by
  obtain ⟨depth, s, v, c, w⟩ := f
  cases depth with
  | zero => exact L.throw _ c w L.exhausted
  | succ depth =>
      cases s with
      | object fields unknown => exact checkObject hset fun g hg => hmade g ⟨rfl, hg⟩
      | array element bounds => exact checkArray hset fun g hg => hmade g ⟨rfl, hg⟩
      | union first rest =>
          have hnone : (Traverse.tryMembers (check env mode depth) v []).runIn c w =
            (.ok ([], []), c, w) := rfl
          change L.work (· = ·) c w
            (Traverse.tryOptions env (check env mode depth) v [] (first :: rest))
            (Traverse.tryOptions env (check env mode depth) v [] (first :: rest))
          refine tryOptions hnone ?_ ?_ .nil
          · intro before option later failed c₂ w₂ hoptions hbefore
            exact hmade _ ⟨rfl, .option hoptions hbefore⟩
          · exact fun c₂ w₂ groups groups' hpath hafter => hset.failures .union hpath hafter
      | intersection first rest =>
          refine L.bind (tryMembers fun earlier member later done c₁ w₁ hmembers hearlier =>
            hmade _ ⟨rfl, .member hmembers hearlier⟩) ?_
          rintro ⟨results, groups⟩ ⟨_, groups'⟩ c₁ w₁ hrun ⟨rfl, hgroups⟩
          have hpath := (restored_of_tryMembers hrun).path
          have hafter : env.After w w₁ := after_of_tryMembers hrun
          refine combine hgroups (hset.failures .intersection hpath hafter hgroups) ?_
          intro path left right
          refine hset.violation ?_ hafter (.refl env w₁)
          rw [hpath]
          exact .conflict
      | optional inner =>
          simp only [Walks, Checks, check, checkLayer]
          cases hmissing : isMissing v with
          | true => exact L.pure c w rfl
          | false => exact hmade _ ⟨rfl, .optional hmissing⟩
      | nullable inner =>
          simp only [Walks, Checks, check, checkLayer]
          split
          · exact L.pure c w rfl
          · rename_i hnull
            exact hmade _ ⟨rfl, .nullable hnull⟩
      | withDefault inner default =>
          simp only [Walks, Checks, check, checkLayer]
          cases hmissing : isMissing v with
          | true =>
              simp only [if_true]
              refine bind_eq (L.act c fun e w₁ hact => ?_) fun copy c₁ w₁ hrun => ?_
              · obtain ⟨hcopyable, rfl, -⟩ := Act.runIn_copyOf_error_iff.mp hact
                exact hset.uncopied rfl hmissing hcopyable
              · obtain ⟨hcopy, rfl⟩ := Engine.runIn_ofAct_ok_iff.mp hrun
                obtain ⟨hcopyable, rfl, rfl⟩ := Act.runIn_copyOf_ok_iff.mp hcopy
                exact hcopied hmissing _ (.copy hmissing hcopyable)
          | false => exact hmade _ ⟨hmissing, .withDefault hmissing⟩
      | transform inner step =>
          refine bind_eq (hmade _ ⟨rfl, .transform⟩) fun result c₁ w₁ hresult => ?_
          have hback := restored_of_check hresult
          split
          · exact L.pure c₁ w₁ rfl
          · exact applyStep fun w₂ words => hset.worded .transform hback.path w₂ words
      | refine inner id words code =>
          refine bind_eq (hmade _ ⟨rfl, .refine⟩) fun result c₁ w₁ hresult => ?_
          have hback := restored_of_check hresult
          split
          · exact L.pure c₁ w₁ rfl
          · exact askAbout fun c₂ w₂ words hpath =>
              hset.worded .refine (hpath.trans hback.path) w₂ words
      | deferred id =>
          refine bind_eq (L.act c fun e w₁ => hset.resolved rfl) fun s c₁ w₁ hrun => ?_
          obtain ⟨hresolve, rfl⟩ := Engine.runIn_ofAct_ok_iff.mp hrun
          exact hmade _ ⟨rfl, .deferred hresolve⟩
      | _ =>
          refine bind_eq (L.store c w) fun st c₁ w₁ hst => ?_
          cases hst
          exact settle (fun e he => hset.judged (congrArg some he))
            fun x hx => hset.violation (.judged (congrArg some hx)) (.refl env w) (.refl env w)

/-- A call is paired if what each call of its run adds is. -/
theorem walks {f : Call σ} (hset : ∀ g, Call.Reaches env mode f g → L.Settings env mode g) :
    L.Walks env mode f := by
  induction f using Call.induct env mode with
  | h f ih =>
      have hmade : ∀ g, Call.Makes env mode f g → L.Walks env mode g :=
        fun g hg => ih g hg fun h hh => hset h (.head hg hh)
      refine walks_of_makes (hset f .refl) (fun g hg => hmade g hg.2) fun hcopies g hg => ?_
      obtain ⟨hcontext, hworld⟩ := hg.of_copies hcopies
      refine L.onCopy ?_
      rw [← hcontext, ← hworld]
      exact hmade g hg

end Pairing

end Conform
