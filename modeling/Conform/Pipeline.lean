import Conform.World

/-!
# Pipelines

A pipeline is a row of steps, each of which gets the result of the one
before it. Adding a step gives a new pipeline. A pipeline is itself a step.
-/

namespace Conform

/-- A row of steps. -/
structure Pipeline where
  steps : List Step := []
  deriving Repr, Inhabited

namespace Pipeline

/-- A pipeline of candidates, each of which must be a step; the others are
given by the name of their class. -/
def ofCandidates (candidates : List (Except String Step)) : Except Fault Pipeline := do
  return ⟨← candidates.mapM fun c => c.mapError .notStep⟩

/-- A pipeline with one more step at its end. -/
def add (p : Pipeline) (candidate : Except String Step) : Except Fault Pipeline := do
  return ⟨p.steps ++ [← candidate.mapError .notStep]⟩

/-- What the steps make of a value one after another. -/
def execute {σ : Type} (env : Setting σ) (p : Pipeline) (v : Value) : Act σ Value :=
  Step.applyAll env p.steps v

/-- How many steps there are. -/
def length (p : Pipeline) : Nat := p.steps.length

/-- Whether there are no steps. -/
def isEmpty (p : Pipeline) : Bool := p.steps.isEmpty

/-- The pipeline as a single step. -/
def toStep (p : Pipeline) : Step := .pipeline p.steps

/-- The one-line description of a pipeline. -/
def describe (p : Pipeline) : String :=
  "TransformerPipeline(steps=" ++ Decimal.text p.length ++ ")"

end Pipeline

end Conform
