import Conform.Traverse

/-!
# Entry points

A whole value is validated by checking it from a fresh context and, if
there was no error, by asking the rules for whole values about it. The
outcome is the result, or the errors.

The entry points that do not wait fault if an answer was promised anywhere
on the way. That goes before the errors, so that no promise is dropped
unnoticed.
-/

namespace Conform

/-- The outcome of validating a whole value. -/
inductive Outcome where
  | accepted (v : Value)
  | refused (errors : List ErrorRecord)

namespace Outcome

/-- Whether the value was accepted. -/
def isAccepted : Outcome → Bool
  | accepted _ => true
  | refused _ => false

end Outcome

namespace Validate

variable {σ : Type}

/-- The code of a rule's errors; an empty code counts as none. -/
def ruleCode (rule : Rule) : Code :=
  if rule.code.text.isEmpty then .builtin .pluginError else rule.code

/-- Asks a rule about a whole value; unless it agrees, there is an error at
the root. -/
def askRule (env : Setting σ) (mode : Mode) (rule : Rule) (s : Schema) (v : Value) :
    Engine σ Unit := do
  match ← Traverse.ask mode (env.testRule rule.check s v) with
  | none => return ()
  | some (.ok true) => return ()
  | some (.ok false) => Engine.addWorded (ruleCode rule) rule.words none
  | some (.error f) => Engine.addWorded (ruleCode rule) (Traverse.orWords f.text rule.words) none

/-- Asks rules in order, also after one has failed. -/
def askRules (env : Setting σ) (mode : Mode) (s : Schema) (v : Value) :
    List Rule → Engine σ Unit
  | [] => return ()
  | rule :: rest => do
    askRule env mode rule s v
    askRules env mode s v rest

/-- Checks a value and, if there was no error, asks the rules. -/
def checkWhole (env : Setting σ) (mode : Mode) (depth : Nat) (s : Schema) (v : Value) :
    Engine σ Value := do
  let result ← check env mode depth s v
  if (← Engine.context).errors.isEmpty then askRules env mode s v env.rules
  return result

/-- The outcome for a result and the errors that were found; an absent result
is null. Errors are put together as a text, so their paths are written. -/
def finish (result : Value) (errors : List ErrorRecord) : Except Fault Outcome :=
  if errors.isEmpty then .ok (.accepted (if Traverse.isMissing result then .null else result))
  else if ErrorRecord.areWritable errors then .ok (.refused errors)
  else .error .tooManyDigits

/-- Runs work on a fresh context and gives its value and the context. -/
def fresh {α : Type} (work : Engine σ α) : Act σ (α × Context) :=
  ExceptT.mk fun w =>
    match work.runIn {} w with
    | (.ok a, c, w) => (.ok (a, c), w)
    | (.error f, _, w) => (.error f, w)

/-- Validates a value without waiting for answers. -/
def immediate (env : Setting σ) (depth : Nat) (entry : Entry) (s : Schema) (v : Value) :
    Act σ Outcome := do
  let (result, c) ← fresh (checkWhole env .immediate depth s v)
  if c.awaiting then throw (.awaitRequired entry)
  Act.ofExcept (finish result c.errors)

/-- Validates a value and waits for every answer. -/
def awaited (env : Setting σ) (depth : Nat) (s : Schema) (v : Value) : Act σ Outcome := do
  let (result, c) ← fresh (checkWhole env .awaited depth s v)
  Act.ofExcept (finish result c.errors)

/-- The value of an outcome; errors are a fault. -/
def valueOf (o : Outcome) : Act σ Value :=
  match o with
  | .accepted v => return v
  | .refused errors => throw (.rejected errors)

/-- The value that a value becomes, without waiting for answers. -/
def parse (env : Setting σ) (depth : Nat) (s : Schema) (v : Value) : Act σ Value := do
  valueOf (← immediate env depth .parse s v)

/-- The value that a value becomes, waiting for every answer. -/
def parseAwaited (env : Setting σ) (depth : Nat) (s : Schema) (v : Value) : Act σ Value := do
  valueOf (← awaited env depth s v)

end Validate

end Conform
