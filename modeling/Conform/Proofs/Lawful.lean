import Conform.Proofs.Exporting
import Conform.Proofs.Finding
import Conform.RecordModel

/-!
# Laws that checks obey

Checks, exports and record models put acts together: those of the host, and to resolve deferred
schemas. So a law of acts that holds of these holds of every check, from any context on, of every
export if it also holds where a deferred schema is marked as being exported, and of every record
model.

To obey a law is a likeness that looks at one work only.

## Main results

* `Act.Law.actFrom_check` — the law holds of checks.
* `Act.Law.immediate`, `Act.Law.awaited` — and of the entry points.
* `Act.Law.recordModel` — and of the record models.
-/

namespace Conform

open Traverse

namespace Act

variable {σ α β : Type}

/-- An act whose fault is a result. -/
def attempted (act : Act σ α) : Act σ (Except Fault α) :=
  tryCatch (act >>= fun a => pure (.ok a)) fun f => pure (.error f)

theorem runIn_attempted (act : Act σ α) (w : World σ) :
    act.attempted.runIn w = (.ok (act.runIn w).1, (act.runIn w).2) := by
  rw [attempted, runIn_tryCatch, runIn_bind]
  rcases act.runIn w with ⟨f | a, w'⟩ <;> rfl

/-- A law holds of the callbacks of a host, and of what its predicates promise. -/
structure Law.Governs (L : Act.Law σ) (env : Setting σ) : Prop where
  apply (id : Nat) (v : Value) : L.holds (env.apply id v)
  test (id : Nat) (v : Value) : L.holds (env.test id v)
  later (id : Nat) (v : Value) {w w' : World σ} {later : Act σ Value}
    (h : (env.test id v).runIn w = (.ok (.pending later), w')) : L.holds later
  testRule (id : Nat) (s : Schema) (v : Value) : L.holds (env.testRule id s v)
  laterRule (id : Nat) (s : Schema) (v : Value) {w w' : World σ} {later : Act σ Value}
    (h : (env.testRule id s v).runIn w = (.ok (.pending later), w')) : L.holds later

end Act

namespace Act.Law

variable {σ α β : Type} (L : Act.Law σ) {env : Setting σ}

/-! ## Parts of acts -/

/-- What is done next has to obey the law only where the first act can end by that value. -/
theorem bind_of_run {act : Act σ α} {k : α → Act σ β} (h : L.holds act)
    (hk : ∀ a w w', act.runIn w = (.ok a, w') → L.holds (k a)) : L.holds (act >>= k) := by
  classical
  -- Where the first act never ends by a value, anything lawful may stand in for what is done next.
  let kept : α → Act σ β := fun a =>
    if ∃ w w', act.runIn w = (.ok a, w') then k a else MonadExcept.throw .exhausted
  have hkept : act >>= k = act >>= kept := by
    funext w
    refine Act.runIn_bind_congr rfl fun a w' hrun => ?_
    rw [show kept a = k a from if_pos ⟨w, w', hrun⟩]
  rw [hkept]
  refine L.bind h fun a => ?_
  by_cases hends : ∃ w w', act.runIn w = (.ok a, w')
  · obtain ⟨w, w', hrun⟩ := hends
    rw [show kept a = k a from if_pos ⟨w, w', hrun⟩]
    exact hk a w w' hrun
  · rw [show kept a = MonadExcept.throw .exhausted from if_neg hends]
    exact L.throw .exhausted

theorem attempted {act : Act σ α} (h : L.holds act) : L.holds act.attempted :=
  L.rescue (L.bind h fun a => L.pure (Except.ok a)) fun f => L.pure (Except.error f)

/-! ## Works that obey a law -/

/-- A law holds of what work does, from any context on; its values, if it ends by one, are alike to
some. -/
def Obeys {α β : Type} (R : α → β → Prop) (e : Engine σ α) : Prop :=
  (∀ c, L.holds (e.actFrom c)) ∧ ∀ c w a, (e.runIn c w).1 = .ok a → ∃ b, R a b

variable {L}

/-- Work whose values are as they are need not be looked at for them. -/
theorem obeys_of_holds {e : Engine σ α} (h : ∀ c, L.holds (e.actFrom c)) :
    L.Obeys (fun a b : α => a = b) e :=
  ⟨h, fun _ _ a _ => ⟨a, rfl⟩⟩

protected theorem Obeys.pure {R : α → β → Prop} {a : α} {b : β} (h : R a b) :
    L.Obeys R (Pure.pure a) :=
  ⟨fun c => L.pure (a, c), fun c w a' ha => by cases ha; exact ⟨b, h⟩⟩

protected theorem Obeys.store : L.Obeys (fun a b : Store => a = b) Engine.store :=
  obeys_of_holds fun c => L.bind L.store fun st => L.pure (st, c)

/-- Work on the context obeys every law. -/
theorem Obeys.change (f : Context → Context) :
    L.Obeys (fun a b : Unit => a = b) (Engine.change f) :=
  obeys_of_holds fun c => L.pure ((), f c)

theorem Obeys.bind {α β γ δ : Type} {R : α → β → Prop} {S : γ → δ → Prop} {e : Engine σ α}
    {k : α → Engine σ γ} (h : L.Obeys R e) (hk : ∀ a b, R a b → L.Obeys S (k a)) :
    L.Obeys S (e >>= k) := by
  constructor
  · intro c
    rw [Engine.actFrom_bind]
    refine L.bind_of_run (h.1 c) fun q w w' hrun => ?_
    obtain ⟨b, hb⟩ := h.2 c w q.1 (by rw [Engine.runIn_actFrom_ok_iff.mp hrun])
    exact (hk q.1 b hb).1 q.2
  · intro c w d hd
    rw [Engine.runIn_bind] at hd
    rcases hrun : e.runIn c w with ⟨f | a, c', w'⟩ <;> rw [hrun] at hd
    · cases hd
    · obtain ⟨b, hb⟩ := h.2 c w a (by rw [hrun])
      exact (hk a b hb).2 c' w' d hd

theorem Obeys.bracket {R : α → β → Prop} {e : Engine σ α} (h : L.Obeys R e)
    (enter leave : Context → Context) : L.Obeys R (Engine.bracket enter leave e) := by
  constructor
  · intro c
    rw [Engine.actFrom_bracket]
    exact L.bind (h.1 (enter c)) fun q => L.pure (q.1, leave q.2)
  · intro c w a ha
    rw [Engine.runIn_bracket] at ha
    exact h.2 (enter c) w a ha

/-- Work may be chosen by the context. -/
theorem Obeys.choose {R : α → β → Prop} {e : Context → Engine σ α} (h : ∀ c, L.Obeys R (e c)) :
    L.Obeys R (Engine.context >>= e) :=
  ⟨fun c => (h c).1 c, fun c => (h c).2 c⟩

theorem Obeys.onCopy {R : α → β → Prop} {e : Engine σ α} (h : L.Obeys R e) :
    L.Obeys R (Engine.onCopy e) :=
  .choose fun c => h.bracket .afresh c.resume

theorem Obeys.speculate {R : α → β → Prop} {e : Engine σ α} (h : L.Obeys R e) :
    L.Obeys (fun p (q : β × List ErrorRecord) => R p.1 q.1 ∧ List.Forall₂ (· = ·) p.2 q.2)
      (Engine.speculate e) := by
  constructor
  · intro c
    have hattempt : Engine.actFrom c (Engine.speculate e) = Engine.actFrom c.fork e >>= fun q =>
        Pure.pure ((q.1, q.2.errors), { c with awaiting := c.awaiting || q.2.awaiting }) := by
      refine funext fun w => Eq.trans ?_ (Act.runIn_bind _ _ w).symm
      rw [Engine.runIn_actFrom]
      show (Engine.actFrom c (Engine.speculate e)).runIn w = _
      rw [Engine.runIn_actFrom, Engine.runIn_speculate]
      rcases e.runIn c.fork w with ⟨f | a, fork, w'⟩ <;> rfl
    rw [hattempt]
    exact L.bind (h.1 c.fork) fun q => L.pure _
  · intro c w p hp
    rw [Engine.runIn_speculate] at hp
    rcases hrun : e.runIn c.fork w with ⟨f | a, fork, w'⟩ <;> rw [hrun] at hp <;> cases hp
    obtain ⟨b, hb⟩ := h.2 c.fork w a (by rw [hrun])
    exact ⟨(b, fork.errors), hb, List.forall₂_same.mpr fun _ _ => rfl⟩

variable (L)

theorem recordAt (p : Path) (x : Violation) : L.holds (x.recordAt env p) := by
  refine L.bind L.store fun st => ?_
  split
  · exact L.pure _
  · exact L.throw _

theorem obeys_addViolation (x : Violation) :
    L.Obeys (fun a b : Unit => a = b) (Engine.addViolation env x) := by
  refine obeys_of_holds fun c => ?_
  rw [Engine.actFrom_addViolation]
  exact L.bind (L.recordAt c.path x) fun e => L.pure ((), c.addError e)

/-- To obey a law as a likeness. -/
def likeness : Likeness σ σ where
  record := (· = ·)
  work R e _ := L.Obeys R e
  pure := Obeys.pure
  bind := Obeys.bind
  throw _ f := ⟨fun _ => L.throw f, fun _ _ _ ha => by cases ha⟩
  store := Obeys.store
  addWorded _ _ _ := Obeys.change _
  within _ h := h.bracket _ _
  onCopy := Obeys.onCopy
  speculate := Obeys.speculate
  enter v _ _ _ _ _ _ hrefused h hk := by
    refine .choose fun c => ?_
    split
    · exact hrefused
    · exact (h.bracket _ _).bind hk
  clean h hk := by
    refine .choose fun c => ?_
    split
    · exact h
    · exact hk

theorem obeys_ofAct {act : Act σ α} (h : L.holds act) :
    L.Obeys (fun a b : α => a = b) (Engine.ofAct act) := by
  refine obeys_of_holds fun c => ?_
  rw [Engine.actFrom_ofAct]
  exact L.bind h fun a => L.pure (a, c)

theorem obeys_attempt {act : Act σ α} (h : L.holds act) :
    L.Obeys (fun a b : Except Fault α => a = b) (Engine.attempt act) := by
  have hattempt : Engine.attempt act = Engine.ofAct act.attempted := by
    funext p
    show (Engine.attempt act).runIn p.1 p.2 = (Engine.ofAct act.attempted).runIn p.1 p.2
    rw [Engine.runIn_attempt, Engine.runIn_ofAct, Act.runIn_attempted]
  rw [hattempt]
  exact L.obeys_ofAct (L.attempted h)

/-- To ask a predicate obeys a law if the predicate does, and all that it promises. -/
theorem obeys_ask (mode : Mode) {test : Act σ (Reply σ)} (h : L.holds test)
    (hlater : ∀ w w' later, test.runIn w = (.ok (.pending later), w') → L.holds later) :
    L.Obeys (fun a b : Option (Except Fault Bool) => a = b) (ask mode test) := by
  have htest : L.Obeys (fun r (_ : Unit) => ∀ later, r = .ok (.pending later) → L.holds later)
      (Engine.attempt test) := by
    refine ⟨(L.obeys_attempt h).1, fun c w r hr => ⟨(), fun later hpending => ?_⟩⟩
    have hrun : (test.runIn w).1 = .ok (.pending later) := (Except.ok.inj hr).trans hpending
    exact hlater w (test.runIn w).2 later (Prod.ext hrun rfl)
  refine htest.bind fun r _ hr => ?_
  rcases r with f | v | later
  · exact .pure rfl
  · exact Obeys.store.bind fun st _ _ => .pure rfl
  · refine (Obeys.change _).bind fun _ _ _ => ?_
    cases mode with
    | immediate => exact .pure rfl
    | awaited =>
        refine (L.obeys_attempt (hr later rfl)).bind fun answer _ _ => ?_
        cases answer with
        | error f => exact .pure rfl
        | ok v => exact Obeys.store.bind fun st _ _ => .pure rfl

theorem typeEach {child : Schema → Act σ FieldType} (h : ∀ s, L.holds (child s))
    (ss : List Schema) : L.holds (Setting.typeEach child ss) := by
  induction ss with
  | nil => exact L.pure []
  | cons s ss ih => exact L.bind (h s) fun t => L.bind ih fun ts => L.pure (t :: ts)

theorem ofExcept (e : Except Fault α) : L.holds (Act.ofExcept e) := by
  cases e with
  | ok a => exact L.pure a
  | error f => exact L.throw f

theorem fieldsOfModel (fields : List (Key × β)) : L.holds (env.fieldsOfModel fields) := by
  unfold Setting.fieldsOfModel
  split
  · exact L.pure _
  · exact L.throw _

/-! ## Checks and record models -/

variable {L}

theorem Governs.settings (h : L.Governs env) (hresolve : ∀ id, L.holds (env.resolve id))
    (mode : Mode) : L.likeness.Settings env mode env mode where
  resolve id := L.obeys_ofAct (hresolve id)
  applyStep step v := by
    refine (L.obeys_attempt (L.applyTo h.apply step v)).bind fun r _ _ => ?_
    cases r with
    | error f => exact (Obeys.change _).bind fun _ _ _ => .pure rfl
    | ok u => exact .pure rfl
  ask id v := L.obeys_ask mode (h.test id v) fun _ _ _ => h.later id v
  addViolation x := L.obeys_addViolation x
  addFailures x name groups groups' _ := L.obeys_addViolation _

section Runs

variable (h : L.Governs env) (hresolve : ∀ id, L.holds (env.resolve id))

include h hresolve

theorem actFrom_check (mode : Mode) (depth : Nat) (c : Context) (s : Schema) (v : Value) :
    L.holds (Engine.actFrom c (check env mode depth s v)) :=
  (Likeness.check (h.settings hresolve mode) depth s v).1 c

theorem fresh_checkWhole (mode : Mode) (depth : Nat) (s : Schema) (v : Value) :
    L.holds (Validate.fresh (Validate.checkWhole env mode depth s v)) := by
  have hask : ∀ id, L.likeness.work (· = ·) (ask mode (env.testRule id s v))
      (ask mode (env.testRule id s v)) :=
    fun id => L.obeys_ask mode (h.testRule id s v) fun _ _ _ => h.laterRule id s v
  exact (Likeness.checkWhole (h.settings hresolve mode) rfl hask depth).1 {}

theorem immediate (depth : Nat) (entry : Entry) (s : Schema) (v : Value) :
    L.holds (Validate.immediate env depth entry s v) := by
  refine L.bind (fresh_checkWhole h hresolve .immediate depth s v) fun q => ?_
  cases hawaiting : q.2.awaiting
  · simp only [hawaiting]
    exact L.ofExcept _
  · simp only [hawaiting]
    exact L.bind (L.throw _) fun _ => L.ofExcept _

theorem awaited (depth : Nat) (s : Schema) (v : Value) :
    L.holds (Validate.awaited env depth s v) :=
  L.bind (fresh_checkWhole h hresolve .awaited depth s v) fun _ => L.ofExcept _

end Runs

section Models

variable (L) (hresolve : ∀ id, L.holds (env.resolve id))

include hresolve

/-- Types, entries and rows of fields: by induction on the depth. -/
theorem fieldType (depth : Nat) :
    (∀ name s, L.holds (env.fieldType depth name s)) ∧
      (∀ name s, L.holds (env.fieldEntry depth name s)) ∧
      ∀ name fields, L.holds (env.modelFields depth name fields) := by
  induction depth with
  | zero => exact ⟨fun _ _ => L.throw _, fun _ _ => L.throw _, fun _ _ => L.throw _⟩
  | succ depth ih =>
      obtain ⟨htype, hentry, hfields⟩ := ih
      refine ⟨fun name s => ?_, fun name s => ?_, fun name fields => ?_⟩
      · cases s with
        | array element bounds => exact L.bind (htype _ element) fun t => L.pure _
        | object fields unknown =>
            refine L.bind (hfields name fields) fun rows => ?_
            exact L.bind (L.fieldsOfModel rows) fun named => L.pure _
        | union first rest =>
            exact L.bind (L.typeEach (htype name) (first :: rest)) fun ts => L.pure _
        | nullable inner => exact L.bind (htype name inner) fun t => L.pure _
        | optional inner => exact L.bind (htype name inner) fun t => L.pure _
        | withDefault inner default => exact htype name inner
        | refine inner id words code => exact htype name inner
        | _ => exact L.pure _
      · cases s with
        | optional inner => exact L.bind (htype name inner) fun t => L.pure _
        | withDefault inner default => exact L.bind (htype name inner) fun t => L.pure _
        | nullable inner =>
            refine L.bind (L.acceptsMissing hresolve depth inner) fun accepted => ?_
            cases accepted with
            | true => exact L.bind (hentry name inner) fun entry => L.pure _
            | false => exact L.bind (htype name _) fun t => L.pure _
        | _ => exact L.bind (htype name _) fun t => L.pure _
      · cases fields with
        | nil => exact L.pure []
        | cons field rest =>
            refine L.bind (L.ofExcept _) fun nested =>
              L.bind (hentry nested field.2) fun entry => ?_
            exact L.bind (hfields name rest) fun rows => L.pure _

theorem recordModel (depth : Nat) (name : String) (o : Operand) :
    L.holds (env.recordModel depth name o) := by
  unfold Setting.recordModel
  split
  · refine L.bind ((L.fieldType hresolve depth).2.2 name _) fun rows => ?_
    exact L.bind (L.fieldsOfModel rows) fun named => L.pure _
  · exact L.throw _

end Models

end Act.Law

end Conform
