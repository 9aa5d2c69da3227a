import Conform.Proofs.Circular
import Conform.Proofs.Relocation

/-!
# What a check finds by itself

The checks of fields and elements share one context, one after another. Each could as
well be made by itself, on a fresh context at its place: what it finds there is added
to what was found before it. A `Finding` is all that such a check comes to: its result,
its errors, and whether an answer was promised.

The place is the only thing that a fresh context tells. If no template looks at the
paths of the failures of attempts, a finding at a place is the finding at the root, put
there.

## Main results

* `actFrom_check` — a check adds to a context what it finds by itself, if it does not
  come to a container that is being looked into.
* `alone_placed` — what is found at a place is what is found at the root, put there.
-/

namespace Conform

open Traverse

variable {σ α β : Type}

/-! ## Work as an act -/

/-- Runs work from a context on; gives its value and the context it ends on. -/
def Engine.actFrom (c : Context) (e : Engine σ α) : Act σ (α × Context) :=
  ExceptT.mk fun w =>
    match e.runIn c w with
    | (.ok a, c, w) => (.ok (a, c), w)
    | (.error f, _, w) => (.error f, w)

namespace Engine

variable {c c' : Context} {w w' : World σ}

theorem runIn_actFrom (c : Context) (e : Engine σ α) (w : World σ) :
    (actFrom c e).runIn w =
      match e.runIn c w with
      | (.ok a, c, w) => (.ok (a, c), w)
      | (.error f, _, w) => (.error f, w) := rfl

theorem runIn_actFrom_ok_iff {e : Engine σ α} {a : α} :
    (actFrom c e).runIn w = (.ok (a, c'), w') ↔ e.runIn c w = (.ok a, c', w') := by
  rw [runIn_actFrom]
  rcases e.runIn c w with ⟨_ | b, c₁, w₁⟩ <;> simp [and_assoc]

theorem actFrom_pure (c : Context) (a : α) :
    (actFrom c (pure a) : Act σ (α × Context)) = pure (a, c) :=
  rfl

theorem actFrom_bind (c : Context) (e : Engine σ α) (k : α → Engine σ β) :
    actFrom c (e >>= k) = actFrom c e >>= fun q => actFrom q.2 (k q.1) := by
  funext w
  show (actFrom c (e >>= k)).runIn w = (actFrom c e >>= fun q => actFrom q.2 (k q.1)).runIn w
  rw [Act.runIn_bind, runIn_actFrom, runIn_actFrom, runIn_bind]
  rcases e.runIn c w with ⟨f | a, c₁, w₁⟩ <;> rfl

theorem actFrom_ofAct (c : Context) (act : Act σ α) :
    actFrom c (ofAct act) = act >>= fun a => pure (a, c) := by
  funext w
  show (actFrom c (ofAct act)).runIn w = (act >>= fun a => pure (a, c)).runIn w
  rw [Act.runIn_bind, runIn_actFrom, runIn_ofAct]
  rcases act.runIn w with ⟨f | a, w₁⟩ <;> rfl

theorem actFrom_bracket (c : Context) (enter leave : Context → Context) (e : Engine σ α) :
    actFrom c (bracket enter leave e) =
      actFrom (enter c) e >>= fun q => pure (q.1, leave q.2) := by
  funext w
  show (actFrom c (bracket enter leave e)).runIn w =
    (actFrom (enter c) e >>= fun q => pure (q.1, leave q.2)).runIn w
  rw [Act.runIn_bind, runIn_actFrom, runIn_actFrom, runIn_bracket]
  rcases e.runIn (enter c) w with ⟨f | a, c₁, w₁⟩ <;> rfl

end Engine

/-- The error record of a violated check at a place, if there are words for it. -/
def Violation.recordAt (env : Setting σ) (p : Path) (x : Violation) : Act σ ErrorRecord := do
  match x.message env (← Act.store) with
  | .ok words => return ⟨p, some words, .builtin x.code, x.details⟩
  | .error f => throw f

theorem Violation.runIn_recordAt (env : Setting σ) (p : Path) (x : Violation) (w : World σ) :
    (x.recordAt env p).runIn w =
      (match x.message env w.store with
        | .ok words => .ok ⟨p, some words, .builtin x.code, x.details⟩
        | .error f => .error f, w) := by
  rw [recordAt, Act.runIn_bind, Act.runIn_store]
  simp only
  cases x.message env w.store <;> rfl

theorem Engine.actFrom_addViolation (env : Setting σ) (c : Context) (x : Violation) :
    actFrom c (addViolation env x) =
      x.recordAt env c.path >>= fun e => pure ((), c.addError e) := by
  funext w
  show (actFrom c (addViolation env x)).runIn w =
    (x.recordAt env c.path >>= fun e => pure ((), c.addError e)).runIn w
  rw [Act.runIn_bind, runIn_actFrom, runIn_addViolation, Violation.runIn_recordAt]
  cases x.message env w.store <;> rfl

theorem Engine.actFrom_refuse (env : Setting σ) (c : Context) (x : Violation) :
    actFrom c (refuse env x) =
      x.recordAt env c.path >>= fun e => pure (.invalid, c.addError e) := by
  rw [refuse, actFrom_bind, actFrom_addViolation, bind_assoc]
  simp [actFrom_pure]

/-! ## Findings -/

/-- What a check comes to by itself. -/
structure Finding where
  result : Value
  errors : List ErrorRecord := []
  /-- Whether an answer had to be waited for. -/
  awaiting : Bool := false

/-- A finding put at a place. -/
def Finding.placed (p : Path) (f : Finding) : Finding :=
  { f with errors := f.errors.map (ErrorRecord.placed p) }

/-- Adds some findings to what was found before. -/
def Context.adding (c : Context) (fs : List Finding) : Context :=
  { c with
    errors := c.errors ++ fs.flatMap Finding.errors
    awaiting := c.awaiting || fs.any Finding.awaiting }

@[simp] theorem Context.adding_nil (c : Context) : c.adding [] = c := by simp [Context.adding]

theorem Context.adding_adding (c : Context) (fs gs : List Finding) :
    (c.adding fs).adding gs = c.adding (fs ++ gs) := by
  simp [Context.adding, Bool.or_assoc]

/-- What a check finds by itself at a place: on a context on which nothing was found yet
and no container is being looked into. -/
def alone (env : Setting σ) (mode : Mode) (depth : Nat) (p : Path) (s : Schema) (v : Value) :
    Act σ Finding := do
  let (result, c) ← Engine.actFrom { path := p } (check env mode depth s v)
  return ⟨result, c.errors, c.awaiting⟩

section Checks

variable {env : Setting σ} {mode : Mode} {depth : Nat} {s : Schema} {v : Value} {c : Context}
  {w : World σ}

/-- A check adds to a context what it finds by itself, if it comes to no container that
is being looked into. -/
theorem actFrom_check
    (h : ∀ g, Relation.ReflTransGen (Call.GoesOn env mode) ⟨depth, s, v, { path := c.path }, w⟩ g →
      ∀ a copied, g.value = .shared a copied → .shared a copied ∉ c.visited) :
    (Engine.actFrom c (check env mode depth s v)).runIn w =
      (alone env mode depth c.path s v >>= fun f => pure (f.result, c.adding [f])).runIn w := by
  have hplaced := check_placed_of_apart (b := { c with path := [] }) env.blindTo_root h
  have hback := check_restores_context env mode depth s v { path := c.path } w
  have hc : Context.place { c with path := [] } { path := c.path } = c := by
    simp [Context.place]
  rw [hc] at hplaced
  unfold alone
  rw [bind_assoc, Act.runIn_bind, Engine.runIn_actFrom, Engine.runIn_actFrom, hplaced]
  generalize (check env mode depth s v).runIn { path := c.path } w = out at hback
  obtain ⟨f | r, d, w₁⟩ := out
  · rfl
  · obtain ⟨hpath, hvisited, -, -⟩ := hback
    simp only at hpath hvisited
    simp [Context.place, Context.adding, hpath, hvisited, ErrorRecord.map_placed_root]

/-- What is found at a place is what is found at the root, put there. -/
theorem alone_placed (hblind : env.PathBlind) (p : Path) :
    alone env mode depth p s v = Finding.placed p <$> alone env mode depth [] s v := by
  funext w
  show (alone env mode depth p s v).runIn w =
    (Finding.placed p <$> alone env mode depth [] s v).runIn w
  have hrun : (check env mode depth s v).runIn { path := p } w = _ :=
    check_relocated_of_apart (hblind p) (by simp)
  unfold alone
  rw [map_eq_pure_bind, bind_assoc, Act.runIn_bind, Act.runIn_bind, Engine.runIn_actFrom,
    Engine.runIn_actFrom, hrun]
  rcases (check env mode depth s v).runIn {} w with ⟨f | r, d, w₁⟩
  · rfl
  · simp [Finding.placed]

end Checks

end Conform
