import Conform.Schema.Build

/-!
# The world of a check

Checks run in a world: the store of shared containers, the deferred schemas
that have been built, and a state of the host, of which nothing is known.
An `Act` changes the world and ends by a value or a fault; a fault keeps
the changes made before it.

What a check uses of its surroundings is its `Setting`: the callbacks of
the host, the templates in force, and the rules for whole values.

A predicate of the host answers at once or promises an answer. The promise
is an act that has not been run.

A callback may change the shared containers. It is taken for granted that it leaves
alone what a check has built, which is handed to it as a value and is in no store:
a predicate looks at its argument, and a step gives its result for it.
-/

namespace Conform

/-- What checks can change; `σ` is the state of the host. -/
structure World (σ : Type) where
  store : Store := {}
  /-- The deferred schemas that have been built. -/
  built : List (Nat × Schema) := []
  /-- The deferred schemas that are being exported. -/
  exporting : List Nat := []
  host : σ

/-- Something that changes the world and ends by a value or a fault. -/
abbrev Act (σ α : Type) : Type := ExceptT Fault (StateM (World σ)) α

/-- The answer of a predicate. -/
inductive Reply (σ : Type) where
  /-- An answer that is there. -/
  | settled (v : Value)
  /-- An answer that has to be waited for. -/
  | pending (later : Act σ Value)

/-- A check of whole values, run after the schema has accepted; its predicate
is given by its number. -/
structure Rule where
  name : String
  check : Nat
  words : Option String
  code : Code
  deriving Repr

/-- What checks use of their surroundings. -/
structure Setting (σ : Type) where
  /-- The steps of the host, by number. -/
  apply : Nat → Value → Act σ Value
  /-- The predicates of the host, by number. -/
  test : Nat → Value → Act σ (Reply σ)
  /-- The predicates of rules, by number; they get the schema and the value that
  was handed in. -/
  testRule : Nat → Schema → Value → Act σ (Reply σ)
  /-- The factories of deferred schemas, by number. -/
  produce : Nat → Act σ Operand
  catalog : Catalog := .empty
  scope : Scope := .empty
  rules : List Rule := []
  /-- Which names are fields of a record model. -/
  isFieldName : String → Bool := fun _ => true

namespace Act

variable {σ α : Type}

/-- Runs an act in a world. -/
def runIn (act : Act σ α) (w : World σ) : Except Fault α × World σ := (ExceptT.run act).run w

/-- The store as it is. -/
def store : Act σ Store := return (← get).store

/-- A value or a fault that is there already. -/
def ofExcept (e : Except Fault α) : Act σ α := ExceptT.mk (pure e)

/-- A copy of a value, if it has one. -/
def copyOf (v : Value) : Act σ Value := do
  if (← store).isCopyable v then return v.detach else throw (.uncopyable "mappingproxy")

@[simp] theorem runIn_pure (a : α) (w : World σ) : (pure a : Act σ α).runIn w = (.ok a, w) := rfl

@[simp] theorem runIn_throw (f : Fault) (w : World σ) :
    (throw f : Act σ α).runIn w = (.error f, w) := rfl

@[simp] theorem runIn_store (w : World σ) : (store : Act σ Store).runIn w = (.ok w.store, w) := rfl

@[simp] theorem runIn_ofExcept (e : Except Fault α) (w : World σ) :
    (ofExcept e : Act σ α).runIn w = (e, w) := rfl

/-- Act after act: a fault of the first ends both. -/
theorem runIn_bind {β : Type} (act : Act σ α) (k : α → Act σ β) (w : World σ) :
    (act >>= k).runIn w =
      match act.runIn w with
      | (.ok a, w) => (k a).runIn w
      | (.error f, w) => (.error f, w) := by
  simp only [runIn, ExceptT.run_bind, StateT.run_bind]
  rcases h : StateT.run (ExceptT.run act) w with ⟨r, w'⟩
  cases r <;> rfl

/-- Copying changes nothing. -/
theorem runIn_copyOf (v : Value) (w : World σ) :
    (copyOf v : Act σ Value).runIn w =
      (if w.store.isCopyable v then .ok v.detach else .error (.uncopyable "mappingproxy"), w) := by
  rw [copyOf, runIn_bind, runIn_store]
  cases h : w.store.isCopyable v <;> simp [h]

end Act

namespace Setting

variable {σ : Type}

/-- The schema that a deferred schema stands for. Its factory is called until
it first gives a schema, and never after that. -/
def resolve (env : Setting σ) (id : Nat) : Act σ Schema := do
  match (← get).built.lookup id with
  | some s => return s
  | none =>
    match ← env.produce id with
    | .schema s =>
      modify fun w => { w with built := (id, s) :: w.built }
      return s
    | .value v => throw (.notSchema .deferred ((← Act.store).className v))

/-- Whether some member of a list passes a test; later members are not
tested once one has passed. -/
def anyOf (p : Schema → Act σ Bool) : List Schema → Act σ Bool
  | [] => return false
  | s :: ss => do if ← p s then return true else anyOf p ss

/-- Whether all members of a list pass a test; later members are not tested
once one has failed. -/
def allOf (p : Schema → Act σ Bool) : List Schema → Act σ Bool
  | [] => return true
  | s :: ss => do if ← p s then allOf p ss else return false

/-- Whether a schema accepts an absent value, given whether those inside it
do. -/
def acceptsLayer (env : Setting σ) (inside : Schema → Act σ Bool) (s : Schema) : Act σ Bool :=
  match s with
  | .optional _ => return true
  | .withDefault _ _ => return true
  | .nullable inner => inside inner
  | .transform inner _ => inside inner
  | .refine inner _ _ _ => inside inner
  | .union first rest => anyOf inside (first :: rest)
  | .intersection first rest => allOf inside (first :: rest)
  | .deferred id => do inside (← env.resolve id)
  | _ => return false

/-- Whether a schema accepts an absent value, followed to a depth. -/
def acceptsMissing (env : Setting σ) : Nat → Schema → Act σ Bool
  | 0 => fun _ => throw .exhausted
  | depth + 1 => env.acceptsLayer (env.acceptsMissing depth)

end Setting

/-! ## Steps -/

/-- Applies a text operation to a value that must be a text. -/
def onText {σ : Type} (operation : String) (f : String → String) (v : Value) : Act σ Value := do
  match v with
  | .text s => return .text (f s)
  | v => throw (.textRequired operation ((← Act.store).className v))

mutual

/-- What a step makes of a value. -/
def Step.applyTo {σ : Type} (env : Setting σ) : Step → Value → Act σ Value
  | .callback id, v => env.apply id v
  | .trim, v => onText "strip" Text.trim v
  | .lower, v => onText "lower" Text.lower v
  | .upper, v => onText "upper" Text.upper v
  | .pipeline steps, v => Step.applyAll env steps v

/-- What steps make of a value one after another. -/
def Step.applyAll {σ : Type} (env : Setting σ) : List Step → Value → Act σ Value
  | [], v => return v
  | s :: ss, v => do Step.applyAll env ss (← s.applyTo env v)

end

end Conform
