import Conform.World
import Conform.Schema.Scalar

/-!
# Contexts

A context is the state of one descent through a value: the path of the
place, the errors found so far, whether an answer had to be waited for, and
the containers that are being looked into.

An `Engine` works on a context and a world. Moving down a path and looking
into a container are undone however the work inside ends, by a value or by
a fault.

An attempt works on a **fork**: a context at the same place that looks into
the same containers and has no errors. What an attempt finds is handed to
who made it; only that an answer had to be waited for is passed on.

A **copy** of a value is made of new containers. Nothing in it is being looked
into, also where another copy of the same container is: the work on a copy
starts with an empty list of containers.
-/

namespace Conform

/-- The state of one descent through a value. -/
structure Context where
  path : Path := []
  errors : List ErrorRecord := []
  /-- Whether an answer had to be waited for. -/
  awaiting : Bool := false
  /-- The containers that are being looked into. -/
  visited : List Identity := []
  deriving Inhabited

namespace Context

/-- Goes down by one key. -/
def push (c : Context) (k : Key) : Context := { c with path := c.path ++ [k] }

/-- Goes up by one key. -/
def pop (c : Context) : Context := { c with path := c.path.dropLast }

/-- Goes up by one key, unless at the root. -/
def pop? (c : Context) : Except Fault Context :=
  if c.path.isEmpty then .error .pathEmpty else .ok c.pop

/-- A context for an attempt at the same place. -/
def fork (c : Context) : Context := { path := c.path, visited := c.visited }

/-- A context for a copy at the same place: its containers are new, so none of
them is being looked into. -/
def afresh (c : Context) : Context := { c with visited := [] }

/-- Comes back from a copy, with what was found there. -/
def resume (c copied : Context) : Context := { copied with visited := c.visited }

/-- Adds an error record. -/
def addError (c : Context) (e : ErrorRecord) : Context := { c with errors := c.errors ++ [e] }

/-- Marks that an answer had to be waited for. -/
def markAwaiting (c : Context) : Context := { c with awaiting := true }

/-- Whether a value is being looked into. -/
def hasVisited (c : Context) (v : Value) : Bool := v.identity?.any c.visited.contains

/-- Starts looking into a value. -/
def mark (c : Context) (v : Value) : Context :=
  match v.identity? with
  | some i => if c.visited.contains i then c else { c with visited := i :: c.visited }
  | none => c

/-- Ends looking into a value. -/
def unmark (c : Context) (v : Value) : Context :=
  match v.identity? with
  | some i => { c with visited := c.visited.filter (· != i) }
  | none => c

/-- Adds an error at the place of the context, worded by the template in
force. -/
def addTemplated (c : Context) (catalog : Catalog) (scope : Scope) (st : Store) (code : Code)
    (default : String) (details : Option Details) : Except Fault Context :=
  (catalog.format scope st code.text default details).map fun message =>
    c.addError ⟨c.path, some message, code, details⟩

@[simp] theorem push_path (c : Context) (k : Key) : (c.push k).path = c.path ++ [k] := rfl

/-- Going down and up again comes back to the same context. -/
@[simp] theorem pop_push (c : Context) (k : Key) : (c.push k).pop = c := by
  simp [push, pop]

/-- Ending to look into a value that was not being looked into undoes the
start. -/
theorem unmark_mark (c : Context) (v : Value) (h : c.hasVisited v = false) :
    ((c.mark v).unmark v).visited = c.visited := by
  unfold mark unmark
  cases hi : v.identity? with
  | none => rfl
  | some i =>
    have hc : i ∉ c.visited := by simpa [hasVisited, hi] using h
    simp only [List.contains_iff_mem, hc, if_false]
    rw [List.filter_cons_of_neg (by simp), List.filter_eq_self]
    intro j hj
    simp only [bne_iff_ne, ne_eq]
    rintro rfl
    exact hc hj

end Context

/-- Work on a context and a world that ends by a value or a fault. -/
abbrev Engine (σ α : Type) : Type := ExceptT Fault (StateM (Context × World σ)) α

namespace Engine

variable {σ α β : Type}

/-- Runs work in a context and a world. -/
def runIn (e : Engine σ α) (c : Context) (w : World σ) : Except Fault α × Context × World σ :=
  (ExceptT.run e).run (c, w)

/-- Work given by what it does. -/
def ofRun (f : Context → World σ → Except Fault α × Context × World σ) : Engine σ α :=
  ExceptT.mk fun (c, w) => f c w

/-- An act that leaves the context alone. -/
def ofAct (act : Act σ α) : Engine σ α :=
  ofRun fun c w => let (r, w) := act.runIn w; (r, c, w)

/-- An act whose fault is a result. -/
def attempt (act : Act σ α) : Engine σ (Except Fault α) :=
  ofRun fun c w => let (r, w) := act.runIn w; (.ok r, c, w)

/-- Changes the context. -/
def change (f : Context → Context) : Engine σ Unit := ofRun fun c w => (.ok (), f c, w)

/-- The context as it is. -/
def context : Engine σ Context := ofRun fun c w => (.ok c, c, w)

/-- The store as it is. -/
def store : Engine σ Store := ofRun fun c w => (.ok w.store, c, w)

/-- Work between two changes of the context; the second is made however the
work ends. -/
def bracket (enter leave : Context → Context) (work : Engine σ α) : Engine σ α :=
  ofRun fun c w => let (r, c, w) := work.runIn (enter c) w; (r, leave c, w)

/-- Work one key further down. -/
def within (k : Key) (work : Engine σ α) : Engine σ α := bracket (·.push k) .pop work

/-- Work while a value is being looked into. -/
def lookingInto (v : Value) (work : Engine σ α) : Engine σ α :=
  bracket (·.mark v) (·.unmark v) work

/-- Work on a copy of a value. -/
def onCopy (work : Engine σ α) : Engine σ α :=
  ofRun fun c w => (bracket .afresh c.resume work).runIn c w

/-- Work on a fork; gives its value and the errors it found. -/
def speculate (work : Engine σ α) : Engine σ (α × List ErrorRecord) :=
  ofRun fun c w =>
    match work.runIn c.fork w with
    | (.error f, _, w) => (.error f, c, w)
    | (.ok a, fork, w) =>
      (.ok (a, fork.errors), { c with awaiting := c.awaiting || fork.awaiting }, w)

/-- Adds an error at the place of the context, with given words. -/
def addWorded (code : Code) (words : Option String) (details : Option Details) : Engine σ Unit :=
  change fun c => c.addError ⟨c.path, words, code, details⟩

/-- Adds an error for a violated check: in its own words if it has any, else
in those of the template in force. The default words come first, also where they
are not used. -/
def addViolation (env : Setting σ) (x : Violation) : Engine σ Unit :=
  match x.words with
  | .error f => throw f
  | .ok words =>
    match x.own with
    | some own => addWorded (.builtin x.code) (some own) x.details
    | none =>
      ofRun fun c w =>
        match c.addTemplated env.catalog env.scope w.store (.builtin x.code) words x.details with
        | .ok c => (.ok (), c, w)
        | .error f => (.error f, c, w)

/-- Adds an error for a violated check and gives the marker of a failed
one. -/
def refuse (env : Setting σ) (x : Violation) : Engine σ Value := do
  addViolation env x
  return .invalid

@[simp] theorem runIn_ofRun (f : Context → World σ → Except Fault α × Context × World σ)
    (c : Context) (w : World σ) : (ofRun f).runIn c w = f c w := rfl

@[simp] theorem runIn_pure (a : α) (c : Context) (w : World σ) :
    (pure a : Engine σ α).runIn c w = (.ok a, c, w) := rfl

@[simp] theorem runIn_throw (f : Fault) (c : Context) (w : World σ) :
    (throw f : Engine σ α).runIn c w = (.error f, c, w) := rfl

@[simp] theorem runIn_ofAct (act : Act σ α) (c : Context) (w : World σ) :
    (ofAct act).runIn c w = ((act.runIn w).1, c, (act.runIn w).2) := rfl

@[simp] theorem runIn_attempt (act : Act σ α) (c : Context) (w : World σ) :
    (attempt act).runIn c w = (.ok (act.runIn w).1, c, (act.runIn w).2) := rfl

@[simp] theorem runIn_change (f : Context → Context) (c : Context) (w : World σ) :
    (change f : Engine σ Unit).runIn c w = (.ok (), f c, w) := rfl

@[simp] theorem runIn_context (c : Context) (w : World σ) :
    (context : Engine σ Context).runIn c w = (.ok c, c, w) := rfl

@[simp] theorem runIn_store (c : Context) (w : World σ) :
    (store : Engine σ Store).runIn c w = (.ok w.store, c, w) := rfl

/-- The second change is made whether the work ends by a value or a fault. -/
@[simp] theorem runIn_bracket (enter leave : Context → Context) (work : Engine σ α)
    (c : Context) (w : World σ) :
    (bracket enter leave work).runIn c w =
      ((work.runIn (enter c) w).1, leave (work.runIn (enter c) w).2.1,
        (work.runIn (enter c) w).2.2) := rfl

@[simp] theorem runIn_addWorded (code : Code) (words : Option String) (details : Option Details)
    (c : Context) (w : World σ) :
    (addWorded code words details : Engine σ Unit).runIn c w =
      (.ok (), c.addError ⟨c.path, words, code, details⟩, w) := rfl

/-- Work after work: a fault of the first ends both. -/
theorem runIn_bind (e : Engine σ α) (k : α → Engine σ β) (c : Context) (w : World σ) :
    (e >>= k).runIn c w =
      match e.runIn c w with
      | (.ok a, c, w) => (k a).runIn c w
      | (.error f, c, w) => (.error f, c, w) := by
  simp only [runIn, ExceptT.run_bind, StateT.run_bind]
  rcases h : StateT.run (ExceptT.run e) (c, w) with ⟨r, c', w'⟩
  cases r <;> rfl

end Engine

end Conform
