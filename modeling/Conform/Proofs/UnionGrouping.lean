import Conform.Proofs.Record
import Conform.Proofs.Trial

/-!
# Groupings of options

A union of unions tries what is inside in order, so it makes no difference to what is
accepted how options are grouped. What is refused is refused by one error either way, but
with other details. So the groupings end alike but for the errors that they add.

There is one thing that a grouping can be told by. A union inside another one makes an
error of its own when its options fail, though the outer one may go on to accept the value.
If the template for this error fails, there is a fault that another grouping does not have.

## Main results

* `union_grouping_is_irrelevant` — groupings of the same options are interchangeable.
* `grouping_of_failing_template` — not so if a template fails.
-/

namespace Conform

open Traverse

variable {σ : Type}

/-- Two ends of checks on a context that differ in the errors that were added, if there
were any in both, and in what is left of the context by a fault. -/
inductive SameEnd (c : Context) : Except Fault Value × Context × World σ →
    Except Fault Value × Context × World σ → Prop
  | accepted (r : Value) {c' : Context} (w' : World σ) (h : c'.errors = c.errors) :
      SameEnd c (.ok r, c', w') (.ok r, c', w')
  | refused (r r' : Value) {c₁ c₂ : Context} (w' : World σ) (h : c₁.errors ≠ c.errors)
      (h' : c₂.errors ≠ c.errors) (hawaiting : c₁.awaiting = c₂.awaiting) :
      SameEnd c (.ok r, c₁, w') (.ok r', c₂, w')
  | fault (f : Fault) (c₁ c₂ : Context) (w' : World σ) :
      SameEnd c (.error f, c₁, w') (.error f, c₂, w')

/-- Each end of the first schema is an end of the second, but for errors that were added. -/
def Imitates (env : Setting σ) (s s' : Schema) : Prop :=
  ∀ mode v c w out, Concludes env mode s v c w out →
    ∃ out', Concludes env mode s' v c w out' ∧ SameEnd c out out'

/-- The checks of two schemas end alike, but for errors that were added, and the flags for
absent values are the same. -/
structure Interchangeable (env : Setting σ) (s s' : Schema) : Prop where
  left : Imitates env s s'
  right : Imitates env s' s
  flag (w : World σ) (out : Except Fault Bool × World σ) : Flags env s w out ↔ Flags env s' w out

section Groupings

variable {env : Setting σ} {s s' : Schema}

/-- Attempts that end alike make checks that do. -/
theorem imitates_of_attempts
    (h : ∀ mode v c w a, Attempts env mode v c s w a → Attempts env mode v c s' w a) :
    Imitates env s s' := by
  intro mode v c w out hout
  obtain ⟨⟨f | r, fork, w₁⟩, htried, rfl⟩ := concludes_iff_fork.mp hout
  · have hbroken := h mode v c w _ (attempts_broken_iff.mpr ⟨fork, htried⟩)
    obtain ⟨fork', htried'⟩ := attempts_broken_iff.mp hbroken
    exact ⟨_, concludes_iff_fork.mpr ⟨_, htried', rfl⟩, .fault ..⟩
  by_cases hclean : fork.errors = []
  · have hwon := h mode v c w _ (attempts_won_iff.mpr ⟨fork, htried, hclean, rfl⟩)
    obtain ⟨fork', htried', hclean', hawaiting⟩ := attempts_won_iff.mp hwon
    refine ⟨_, concludes_iff_fork.mpr ⟨_, htried', rfl⟩, ?_⟩
    simp only [Context.taking, hclean, hclean', hawaiting]
    exact .accepted r w₁ (List.append_nil _)
  · have hlost := h mode v c w _ (attempts_lost_iff.mpr ⟨r, fork, htried, hclean, rfl⟩)
    obtain ⟨r', fork', htried', hfailed, hawaiting⟩ := attempts_lost_iff.mp hlost
    refine ⟨_, concludes_iff_fork.mpr ⟨_, htried', rfl⟩, ?_⟩
    exact .refused r r' w₁ (by simpa using hclean) (by simpa using hfailed) (by simp [hawaiting])

/-- Schemas that can be tried in place of each other are interchangeable. -/
theorem interchangeable_of_trials
    (hchecks : ∀ mode v c, SameTrial (Attempts env mode v c) [s] [s'])
    (hflag : SameTrial (Asks env) [s] [s']) : Interchangeable env s s' := by
  simp only [SameTrial, Trial.singleton_iff] at hchecks hflag
  refine ⟨imitates_of_attempts fun mode v c w a => (hchecks mode v c w a).mp,
    imitates_of_attempts fun mode v c w a => (hchecks mode v c w a).mpr, fun w out => ?_⟩
  rw [← asks_ofFlag_iff, ← asks_ofFlag_iff]
  exact hflag w _

/-- A union that is built of options is tried as these are. -/
theorem sameTrial_of_build {ρ : Type} {ends : Schema → World σ → Attempt σ ρ → Prop}
    {g g' : Grouping}
    (hunion : ∀ first rest w a, ends (.union first rest) w a ↔ Trial ends (first :: rest) w a)
    (hleaves : g.leaves = g'.leaves) (hs : ∀ st, g.build .union st = .ok s)
    (hs' : ∀ st, g'.build .union st = .ok s') : SameTrial ends [s] [s'] := by
  have hE : Compound.union.Relates (SameTrial ends) := relates_sameTrial hunion
  have h := Grouping.related_of_build hE (fun _ _ _ _ => .rfl) (hs {})
  have h' := Grouping.related_of_build hE (fun _ _ _ _ => .rfl) (hs' {})
  intro w a
  rw [h, h', hleaves]

theorem interchangeable_of_build (hwords : env.UnionsWorded) {g g' : Grouping}
    (hleaves : g.leaves = g'.leaves) (hs : ∀ st, g.build .union st = .ok s)
    (hs' : ∀ st, g'.build .union st = .ok s') : Interchangeable env s s' :=
  interchangeable_of_trials
    (fun _ _ _ => sameTrial_of_build (fun _ _ _ _ => attempts_union_iff hwords) hleaves hs hs')
    (sameTrial_of_build (fun _ _ _ _ => asks_union_iff) hleaves hs hs')

theorem Imitates.of_clean {mode : Mode} {v r : Value} {c c' : Context} {w w' : World σ}
    (h : Imitates env s s') (hclean : c'.errors = c.errors)
    (hout : Concludes env mode s v c w (.ok r, c', w')) :
    Concludes env mode s' v c w (.ok r, c', w') := by
  obtain ⟨out', hout', hsame⟩ := h mode v c w _ hout
  cases hsame with
  | accepted => exact hout'
  | refused _ _ _ hsome => exact absurd hclean hsome

end Groupings

open Validate in
/-- **How options are grouped is irrelevant.** The same options in the same order can be
combined with the operator and with lists in any way. The schemas that are built are
interchangeable, if the template in force for the error of a union, where there is one, gives
words: on any context both accept a value with the same result, the same context and the same
world, or both refuse it, where the same was promised, or there is the same fault. So it is
also where a record is kept of the callbacks and of what they promise, which is why both call
the same ones in the same order.
The flags for absent values are the same, and so are the whole values that are accepted, if
the rules do not tell the schemas apart. -/
theorem union_grouping_is_irrelevant (env : Setting σ) (hwords : env.UnionsWorded)
    {g g' : Grouping} (hleaves : g.leaves = g'.leaves) :
    ∃ s s', (∀ st, g.build .union st = .ok s) ∧ (∀ st, g'.build .union st = .ok s') ∧
      Interchangeable env s s' ∧ Interchangeable (env.recorded Event.mk) s s' ∧
      ∀ mode v w u,
        (∀ rule ∈ env.rules, env.testRule rule.check s' v = env.testRule rule.check s v) →
        ((∃ depth, Gives env mode depth s v w (.accepted u)) ↔
          ∃ depth, Gives env mode depth s' v w (.accepted u)) := by
  obtain ⟨s, hs⟩ := g.exists_schema .union
  obtain ⟨s', hs'⟩ := g'.exists_schema .union
  have h : Interchangeable env s s' := interchangeable_of_build hwords hleaves hs hs'
  refine ⟨s, s', hs, hs', h, interchangeable_of_build hwords hleaves hs hs',
    fun mode v w u hrules => ?_⟩
  exact exists_gives_accepted_congr hrules fun r c' w' hclean =>
    ⟨h.left.of_clean hclean, h.right.of_clean hclean⟩

/-- A text, a flag or a number, the first two combined before the third. -/
def textOrFlagFirst : Grouping :=
  .all (.pair (.one (.string {})) (.one .boolean)) [.one (.number {})]

/-- A text, a flag or a number, the last two combined before the first. -/
def flagOrNumberFirst : Grouping :=
  .pair (.one (.string {})) (.all (.one .boolean) [.one (.number {})])

open Validate in
/-- The number is accepted by both, though the union inside the first one refuses it. -/
theorem union_grouping_is_irrelevant_number :
    ∃ s s', textOrFlagFirst.build .union {} = .ok s ∧ flagOrNumberFirst.build .union {} = .ok s' ∧
      (∃ depth, Gives idleHost .immediate depth s (.int 5) { host := () } (.accepted (.int 5))) ∧
      ∃ depth, Gives idleHost .immediate depth s' (.int 5) { host := () } (.accepted (.int 5)) := by
  have hleaves : textOrFlagFirst.leaves = flagOrNumberFirst.leaves := rfl
  obtain ⟨s, s', hs, hs', -, -, hgives⟩ := union_grouping_is_irrelevant idleHost
    (fun _ _ => ⟨_, rfl⟩) hleaves
  have haccepts : ∃ depth,
      Gives idleHost .immediate depth s (.int 5) { host := () } (.accepted (.int 5)) := by
    cases hs {}
    exact ⟨3, .parse, _, rfl⟩
  exact ⟨s, s', hs {}, hs' {}, haccepts, (hgives .immediate _ _ _ (by simp [idleHost])).mp haccepts⟩

/-- With a template that fails, the second grouping accepts the number, and the first one
faults. -/
theorem grouping_of_failing_template :
    textOrFlagFirst.leaves = flagOrNumberFirst.leaves ∧
    ∃ s s', textOrFlagFirst.build .union {} = .ok s ∧ flagOrNumberFirst.build .union {} = .ok s' ∧
      (check wordlessHost .immediate 3 s (.int 5)).runIn {} { host := () } =
        (.error (.raised "ValueError" "no words"), {}, { host := () }) ∧
      (check wordlessHost .immediate 3 s' (.int 5)).runIn {} { host := () } =
        (.ok (.int 5), {}, { host := () }) :=
  ⟨rfl, _, _, rfl, rfl, rfl, rfl⟩

end Conform
