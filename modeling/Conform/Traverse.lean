import Conform.Context
import Conform.Merge

/-!
# Checking a value against a schema

`check` descends through a value as the schema says, leaves an error record
for every failed check, and gives the result, or the marker `invalid` where
a check failed.

Fields and elements are all checked, also after one has failed. The options
and members of unions and intersections are attempts on forks. Callbacks of
the host may fault; a fault of a predicate or a step is an error record at
the place of the value, not a fault of the check.

A predicate may promise its answer. In the `immediate` mode the promise is
dropped and noted on the context; in the `awaited` mode it is waited for at
that place.

The descent is given a depth, which every schema that is entered uses up by
one. One layer of it is `checkLayer`, which gets the check of what lies
deeper as an argument; nothing in it is recursive but the loops over
fields, elements, options and members.

A container is read anew whenever something in it is asked for, as callbacks may
have changed it in the meantime. A list that grows while its elements are checked
is followed for as many further elements as there is depth.
-/

namespace Conform

/-- What is done with the promise of an answer. -/
inductive Mode where
  /-- It is dropped, and noted. -/
  | immediate
  /-- It is waited for. -/
  | awaited
  deriving DecidableEq, Repr

/-- The check of a value against a schema, or of what lies deeper. -/
abbrev Checker (σ : Type) : Type := Schema → Value → Engine σ Value

/-- Whether a schema accepts an absent value. -/
abbrev MissingTest (σ : Type) : Type := Schema → Act σ Bool

namespace Traverse

variable {σ : Type}

/-- The outcome of a judgement as a result. -/
def settle (env : Setting σ) (j : Except Fault Judgement) : Engine σ Value :=
  match j with
  | .error f => throw f
  | .ok (.accepted v) => return v
  | .ok (.violated x) => Engine.refuse env x

/-- Whether a result is the marker of a failed check. -/
def isInvalid : Value → Bool
  | .invalid => true
  | _ => false

/-- Whether a result is the marker of an absent value. -/
def isMissing : Value → Bool
  | .missing => true
  | _ => false

/-! ## Containers -/

/-- A container is being looked into already. -/
def circular : Violation where
  code := .circularReference
  words := .ok "Circular reference detected"

/-- A declared key is not there. -/
def requiredMissing (k : Key) : Violation where
  code := .required
  words := written k.isWritable ("Required property '" ++ k.plain ++ "' is missing")
  details := some (.ofValues [("field", .ofKey k)])

/-- Some keys are not declared. -/
def unknownFound (ks : List Key) : Violation where
  code := .unknownKeys
  words := written (Key.allWritable ks)
    ("Unknown properties: " ++ joinWith ", " (ks.map Key.plain))
  details := some (.ofValues [("unknown_keys", .list (ks.map .ofKey))])

/-- What the result of a field adds to the result of the object, if anything,
and whether the field failed. -/
def fieldOutcome (result : Value) : Option Value × Bool :=
  if isInvalid result then (none, true)
  else if isMissing result then (none, false)
  else (some result, false)

/-- The outcome of one field. Whether the field accepts an absent value is
asked only if its key is not there; to answer that may put something there. -/
def checkField (env : Setting σ) (accepts : MissingTest σ) (child : Checker σ)
    (v : Value) (k : Key) (field : Schema) : Engine σ (Option Value × Bool) := do
  match ((← Engine.store).entriesOf v).find? k with
  | some u => return fieldOutcome (← Engine.within k (child field u))
  | none =>
    if ← Engine.ofAct (accepts field) then
      let u := (((← Engine.store).entriesOf v).find? k).getD .missing
      return fieldOutcome (← Engine.within k (child field u))
    else
      Engine.within k (Engine.addViolation env (requiredMissing k))
      return (none, true)

/-- The results of all fields in order, and whether any failed. -/
def checkFields (env : Setting σ) (accepts : MissingTest σ) (child : Checker σ)
    (v : Value) : Entries Schema → Engine σ (Entries Value × Bool)
  | [] => return ([], false)
  | (k, field) :: rest => do
    let (result, failed) ← checkField env accepts child v k field
    let (results, anyFailed) ← checkFields env accepts child v rest
    return ((result.map fun u => (k, u)).toList ++ results, failed || anyFailed)

/-- The entries whose keys are not declared. -/
def undeclared (fields : Entries Schema) (entries : Entries Value) : Entries Value :=
  entries.filter fun e => !fields.has e.1

/-- Treats the keys that are not declared and gives the result of an object
schema. -/
def finishObject (env : Setting σ) (fields : Entries Schema) (unknown : UnknownKeys)
    (v : Value) (results : Entries Value) (failed : Bool) : Engine σ Value := do
  let extra := undeclared fields ((← Engine.store).entriesOf v)
  match unknown with
  | .strip => return if failed then .invalid else .mapping false results
  | .passthrough => return if failed then .invalid else .mapping false (results ++ extra)
  | .strict =>
    if extra.isEmpty then return if failed then .invalid else .mapping false results
    else Engine.refuse env (unknownFound extra.keys)

/-- Checks a value against an object schema. -/
def checkObject (env : Setting σ) (accepts : MissingTest σ) (child : Checker σ)
    (fields : Entries Schema) (unknown : UnknownKeys) (v : Value) : Engine σ Value := do
  let st ← Engine.store
  if (st.entries? v).isNone then
    Engine.refuse env (.wrongKind "object" (st.kindName v) "Expected object")
  else if (← Engine.context).hasVisited v then Engine.refuse env circular
  else
    let (results, failed) ← Engine.lookingInto v (checkFields env accepts child v fields)
    finishObject env fields unknown v results failed

/-- The results of the items of a container from a place on, and whether any
failed; there may be so many items at most. An absent result becomes null. -/
def checkItems (child : Value → Engine σ Value) (v : Value) :
    Nat → Nat → Engine σ (List Value × Bool)
  | 0, i => do
    if i < ((← Engine.store).itemsOf v).length then throw .exhausted else return ([], false)
  | more + 1, i => do
    match ((← Engine.store).itemsOf v)[i]? with
    | none => return ([], false)
    | some u =>
      let result ← Engine.within (.index i) (child u)
      let (results, failed) ← checkItems child v more (i + 1)
      if isInvalid result then return (results, true)
      else return ((if isMissing result then .null else result) :: results, failed)

/-- The violation of a bound on the number of elements. -/
def countViolation (code : BuiltinCode) (name relation : String) (size : Nat) (c : Check Nat) :
    Violation where
  code := code
  own := c.own
  words := written (Decimal.isWritable c.value)
    ("Array must have " ++ relation ++ " " ++ Decimal.text c.value ++ " elements")
  details := some (.ofValues [(name, .int c.value), ("actual", .int size)])

/-- The violated bounds on the number of elements. -/
def violatedBounds (b : ArrayBounds) (size : Nat) : List Violation :=
  ((b.min.filter fun c => size < c.value).map
      (countViolation .arrayMin "min" "at least" size)).toList ++
    ((b.max.filter fun c => c.value < size).map
      (countViolation .arrayMax "max" "at most" size)).toList ++
    ((b.length.filter fun c => size != c.value).map
      (countViolation .arrayLength "length" "exactly" size)).toList

/-- Adds an error for each violated check. -/
def addViolations (env : Setting σ) : List Violation → Engine σ Unit
  | [] => return ()
  | x :: xs => do
    Engine.addViolation env x
    addViolations env xs

/-- Judges the bounds on the elements that there are in the end, and gives the result of
an array schema. -/
def finishArray (env : Setting σ) (bounds : ArrayBounds) (v : Value) (results : List Value)
    (failed : Bool) : Engine σ Value := do
  let violated := violatedBounds bounds ((← Engine.store).itemsOf v).length
  addViolations env violated
  return if failed || !violated.isEmpty then .invalid else .list results

/-- Checks a value against an array schema. -/
def checkArray (env : Setting σ) (depth : Nat) (child : Checker σ) (element : Schema)
    (bounds : ArrayBounds) (v : Value) : Engine σ Value := do
  let st ← Engine.store
  if (st.items? v).isNone then
    Engine.refuse env (.wrongKind "array" (st.kindName v) "Expected array")
  else if (← Engine.context).hasVisited v then Engine.refuse env circular
  else
    let (results, failed) ←
      Engine.lookingInto v (checkItems (child element) v ((st.itemsOf v).length + depth) 0)
    finishArray env bounds v results failed

/-! ## Unions and intersections -/

/-- The failures of attempts, one group for each. -/
def failuresDetail (name : String) (groups : List (List ErrorRecord)) : Option Details :=
  some [(.text name, .failures groups)]

/-- Tries options in order; the first without errors gives the result. The
groups of errors of those tried before are given first. -/
def tryOptions (env : Setting σ) (child : Checker σ) (v : Value) :
    List (List ErrorRecord) → List Schema → Engine σ Value
  | groups, [] =>
    Engine.refuse env
      { code := .unionInvalid, words := .ok "Input did not match any union member"
        details := failuresDetail "union_errors" groups }
  | groups, option :: rest => do
    let (result, errors) ← Engine.speculate (child option v)
    if errors.isEmpty then return result
    else tryOptions env child v (groups ++ [errors]) rest

/-- The results of the members without errors and the groups of errors of
the others. -/
def tryMembers (child : Checker σ) (v : Value) :
    List Schema → Engine σ (List Value × List (List ErrorRecord))
  | [] => return ([], [])
  | member :: rest => do
    let (result, errors) ← Engine.speculate (child member v)
    let (results, groups) ← tryMembers child v rest
    if errors.isEmpty then return (result :: results, groups)
    else return (results, errors :: groups)

/-- Merges results from the left. -/
def mergeAll (st : Store) (depth : Nat) (first : Value) :
    List Value → Except MergeFailure Value
  | [] => .ok first
  | v :: vs =>
    match mergeValues st depth [] first v with
    | .ok m => mergeAll st depth m vs
    | .error f => .error f

/-- Two results contradict each other. -/
def conflictFound (path : Path) (left right : Value) : Violation where
  code := .intersectionInvalid
  words := written (Key.allWritable path)
    ("Intersection members produced conflicting values at " ++ location)
  details := some (.ofValues
    [("conflict_path", .list (path.map .ofKey)), ("values", .list [left, right])])
where
  /-- The dotted path, the root having a name of its own. -/
  location : String :=
    let dotted := joinWith "." (path.map Key.plain)
    if dotted.isEmpty then "root" else dotted

/-- Combines the results of all members, of which there is at least one if
none failed. -/
def combine (env : Setting σ) (depth : Nat) (results : List Value)
    (groups : List (List ErrorRecord)) : Engine σ Value := do
  if !groups.isEmpty then
    Engine.refuse env
      { code := .intersectionInvalid
        words := .ok "Input did not satisfy all intersection members"
        details := failuresDetail "intersection_errors" groups }
  else
    match results with
    | [] => return .missing
    | first :: rest =>
      match mergeAll (← Engine.store) depth first rest with
      | .ok merged => return merged
      | .error (.conflict path left right) => Engine.refuse env (conflictFound path left right)
      | .error .tooDeep => throw .exhausted

/-! ## Callbacks -/

/-- Whether a result is passed on without being looked at. -/
def isMarker (v : Value) : Bool := isInvalid v || isMissing v

/-- A text, or another if it is empty. -/
def orWords (words : String) (default : Option String) : Option String :=
  if words.isEmpty then default else some words

/-- Applies a step to a result. -/
def applyStep (env : Setting σ) (step : Step) (v : Value) : Engine σ Value := do
  match ← Engine.attempt (step.applyTo env v) with
  | .ok w => return w
  | .error f =>
    Engine.addWorded (.builtin .transformError) (orWords f.text (some "Transformation failed")) none
    return .invalid

/-- Asks a predicate. The answer is a value that counts as true or not, or
the fault of the predicate; `none` if the answer was promised and the
promise dropped. -/
def ask (mode : Mode) (test : Act σ (Reply σ)) : Engine σ (Option (Except Fault Bool)) := do
  match ← Engine.attempt test with
  | .error f => return some (.error f)
  | .ok (.settled v) => return some (.ok ((← Engine.store).truthy v))
  | .ok (.pending later) =>
    Engine.change .markAwaiting
    match mode with
    | .immediate => return none
    | .awaited =>
      match ← Engine.attempt later with
      | .error f => return some (.error f)
      | .ok v => return some (.ok ((← Engine.store).truthy v))

/-- Asks a predicate about a result; unless it agrees, there is an error. The
predicate looks at the result and leaves it as it is. -/
def askAbout (env : Setting σ) (mode : Mode) (id : Nat) (words : Option String) (code : Code)
    (v : Value) : Engine σ Value := do
  match ← ask mode (env.test id v) with
  | none => return v
  | some (.ok true) => return v
  | some (.ok false) =>
    Engine.addWorded code words none
    return .invalid
  | some (.error f) =>
    Engine.addWorded code (orWords f.text words) none
    return .invalid

/-! ## All schemas -/

/-- One layer of the descent. -/
def checkLayer (env : Setting σ) (mode : Mode) (depth : Nat) (accepts : MissingTest σ)
    (child : Checker σ) (s : Schema) (v : Value) : Engine σ Value := do
  match s with
  | .object fields unknown => checkObject env accepts child fields unknown v
  | .array element bounds => checkArray env depth child element bounds v
  | .union first rest => tryOptions env child v [] (first :: rest)
  | .intersection first rest =>
    let (results, groups) ← tryMembers child v (first :: rest)
    combine env depth results groups
  | .optional inner => if isMissing v then return v else child inner v
  | .nullable inner =>
    match v with
    | .null => return v
    | v => child inner v
  | .withDefault inner default =>
    if isMissing v then
      let copy ← Engine.ofAct (Act.copyOf default)
      Engine.onCopy (child inner copy)
    else child inner v
  | .transform inner step =>
    let result ← child inner v
    if isMarker result then return result else applyStep env step result
  | .refine inner id words code =>
    let result ← child inner v
    if isMarker result then return result else askAbout env mode id words code result
  | .deferred id =>
    let s ← Engine.ofAct (env.resolve id)
    child s v
  | s =>
    match s.judge? (← Engine.store) v with
    | some j => settle env j
    | none => return v

end Traverse

/-- Checks a value against a schema, followed to a depth. -/
def check {σ : Type} (env : Setting σ) (mode : Mode) : Nat → Checker σ
  | 0 => fun _ _ => throw .exhausted
  | depth + 1 =>
    Traverse.checkLayer env mode depth (env.acceptsMissing depth) (check env mode depth)

end Conform
