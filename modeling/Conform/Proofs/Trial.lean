import Conform.Proofs.Deepening
import Conform.Proofs.FirstMatch
import Conform.Proofs.Grouping
import Conform.Proofs.MemberOrder
import Conform.Proofs.Relocation

/-!
# Attempts and trials

A check on a fork of a context is an attempt: it is won if it leaves no error, lost if it
leaves some, and broken off by a fault. A trial makes attempts one after another until one
is not lost. Asking schemas for the flag for absent values, until one has it, is a trial as
well.

A trial can be cut anywhere: the end of a trial of two lists is the end of the first, or
else of the second. What is tried on a fork tells what happens on the context itself, for a
check reads the place and the containers that are being looked into, and not the errors
that are there already.

## Main results

* `Trial.append_iff` — a trial of two lists.
* `concludes_iff_fork` — the end of a check, from its end on a fork.
* `attempts_union_iff` — an attempt of a union is a trial of its options.
* `asks_union_iff` — so it is with the flag.
-/

namespace Conform

open Traverse

/-! ## Trials -/

/-- How an attempt ends, and whether an answer was promised meanwhile. -/
inductive Attempt (σ ρ : Type) where
  | won (r : ρ) (awaited : Bool) (w : World σ)
  | lost (awaited : Bool) (w : World σ)
  | broken (f : Fault) (w : World σ)

namespace Attempt

variable {σ ρ : Type}

/-- An attempt after others, of which it is known whether an answer was promised. -/
def noting (awaited : Bool) : Attempt σ ρ → Attempt σ ρ
  | won r b w => won r (awaited || b) w
  | lost b w => lost (awaited || b) w
  | broken f w => broken f w

theorem noting_noting (b b' : Bool) (a : Attempt σ ρ) :
    (a.noting b).noting b' = a.noting (b' || b) := by
  cases a <;> simp [noting, Bool.or_assoc]

theorem noting_false (a : Attempt σ ρ) : a.noting false = a := by
  cases a <;> simp [noting]

end Attempt

variable {σ ρ : Type}

/-- Attempts are made in order until one is not lost. -/
inductive Trial (ends : Schema → World σ → Attempt σ ρ → Prop) :
    List Schema → World σ → Attempt σ ρ → Prop
  | nil (w : World σ) : Trial ends [] w (.lost false w)
  | won {s : Schema} {w : World σ} {r : ρ} {awaited : Bool} {w₁ : World σ}
      (h : ends s w (.won r awaited w₁)) (rest : List Schema) :
      Trial ends (s :: rest) w (.won r awaited w₁)
  | broken {s : Schema} {w : World σ} {f : Fault} {w₁ : World σ} (h : ends s w (.broken f w₁))
      (rest : List Schema) : Trial ends (s :: rest) w (.broken f w₁)
  | lost {s : Schema} {w : World σ} {awaited : Bool} {w₁ : World σ} {rest : List Schema}
      {a : Attempt σ ρ} (h : ends s w (.lost awaited w₁)) (hrest : Trial ends rest w₁ a) :
      Trial ends (s :: rest) w (a.noting awaited)

namespace Trial

variable {ends : Schema → World σ → Attempt σ ρ → Prop} {xs ys : List Schema} {w : World σ}
  {a : Attempt σ ρ}

/-- A trial of one schema is an attempt of it. -/
theorem singleton_iff {s : Schema} : Trial ends [s] w a ↔ ends s w a := by
  constructor
  · intro h
    cases h with
    | won h => exact h
    | broken h => exact h
    | lost h hrest =>
        cases hrest
        simpa [Attempt.noting] using h
  · intro h
    cases a with
    | won r b w₁ => exact .won h []
    | broken f w₁ => exact .broken h []
    | lost b w₁ => simpa [Attempt.noting] using Trial.lost h (.nil w₁)

/-- A trial of two lists ends where the first is tried, or the first is lost and it ends
where the second is tried. -/
theorem append_iff : Trial ends (xs ++ ys) w a ↔
    (Trial ends xs w a ∧ ∀ b w₁, a ≠ .lost b w₁) ∨
      ∃ b w₁ a', Trial ends xs w (.lost b w₁) ∧ Trial ends ys w₁ a' ∧ a = a'.noting b := by
  constructor
  · intro h
    induction xs generalizing w a with
    | nil => exact .inr ⟨false, w, a, .nil w, h, a.noting_false.symm⟩
    | cons s xs ih =>
        cases h with
        | won h => exact .inl ⟨.won h xs, by simp⟩
        | broken h => exact .inl ⟨.broken h xs, by simp⟩
        | @lost _ _ b w₁ _ a h hrest =>
            rcases ih hrest with ⟨hxs, hends⟩ | ⟨b', w₂, a', hxs, hys, rfl⟩
            · refine .inl ⟨.lost h hxs, fun b' w₂ heq => ?_⟩
              cases a with
              | lost b'' w₃ => exact hends _ _ rfl
              | _ => cases heq
            · exact .inr ⟨b || b', w₂, a', .lost h hxs, hys, a'.noting_noting b' b⟩
  · rintro (⟨h, hends⟩ | ⟨b, w₁, a', hxs, hys, rfl⟩)
    · induction h with
      | nil w => exact absurd rfl (hends _ _)
      | won h rest => exact .won h (rest ++ ys)
      | broken h rest => exact .broken h (rest ++ ys)
      | @lost _ _ b _ _ a h _ ih =>
          refine .lost h (ih fun b' w₂ heq => hends (b || b') w₂ ?_)
          rw [heq]
          rfl
    · generalize hlost : Attempt.lost b w₁ = a at hxs
      induction hxs generalizing b with
      | nil w =>
          cases hlost
          rwa [Attempt.noting_false]
      | won => cases hlost
      | broken => cases hlost
      | @lost _ _ b₀ _ _ a h _ ih =>
          cases a with
          | lost b₁ w₂ =>
              cases hlost
              rw [← a'.noting_noting b₁ b₀]
              exact .lost h (ih b₁ rfl)
          | _ => cases hlost

end Trial

/-- Schemas tried in order come to the same. -/
def SameTrial (ends : Schema → World σ → Attempt σ ρ → Prop) (xs ys : List Schema) : Prop :=
  ∀ w a, Trial ends xs w a ↔ Trial ends ys w a

/-- It is the same to try a compound and to try its parts, if an attempt of a compound is
a trial of its parts. -/
theorem relates_sameTrial {ends : Schema → World σ → Attempt σ ρ → Prop} {kind : Compound}
    (h : ∀ first rest w a, ends (kind.join first rest) w a ↔ Trial ends (first :: rest) w a) :
    kind.Relates (SameTrial ends) where
  nil _ _ := .rfl
  append h h' w a := by
    rw [Trial.append_iff, Trial.append_iff]
    simp only [SameTrial] at h h'
    simp only [h, h']
  join hys w a := by
    rw [Trial.singleton_iff, h]
    exact hys w a

/-! ## Attempts of checks -/

/-- The end of a check as the end of an attempt. -/
def Attempt.ofCheck : Except Fault Value × Context × World σ → Attempt σ Value
  | (.ok r, c, w) => if c.errors.isEmpty then .won r c.awaiting w else .lost c.awaiting w
  | (.error f, _, w) => .broken f w

theorem Attempt.ofCheck_clean {r : Value} {c : Context} (h : c.errors = []) (w : World σ) :
    Attempt.ofCheck (.ok r, c, w) = .won r c.awaiting w := by
  simp [ofCheck, h]

theorem Attempt.ofCheck_failed {r : Value} {c : Context} (h : c.errors ≠ []) (w : World σ) :
    Attempt.ofCheck (.ok r, c, w) = .lost c.awaiting w := by
  simp [ofCheck, h]

theorem Attempt.ofCheck_noting (c : Context) (b b' : Bool) (r : Value) (w : World σ) :
    Attempt.ofCheck (.ok r, (c.fork.noting b).noting b', w) = (Attempt.won r b' w).noting b := by
  simp [ofCheck, noting, Context.noting, Context.fork]

theorem Attempt.ofCheck_addError (c : Context) (b : Bool) (x : ErrorRecord) (r : Value)
    (w : World σ) :
    Attempt.ofCheck (.ok r, (c.fork.noting b).addError x, w) = (Attempt.lost false w).noting b := by
  simp [ofCheck, noting, Context.noting, Context.fork, Context.addError]

/-- The end of an attempt of a schema. -/
def Attempts (env : Setting σ) (mode : Mode) (v : Value) (c : Context) (s : Schema) (w : World σ)
    (a : Attempt σ Value) : Prop :=
  ∃ out, Concludes env mode s v c.fork w out ∧ a = .ofCheck out

section Checks

variable {env : Setting σ} {mode : Mode} {depth : Nat} {s : Schema} {v : Value} {c : Context}
  {w w₁ : World σ} {out : Except Fault Value × Context × World σ} {a : Attempt σ Value}

theorem attempts_won_iff {r : Value} {b : Bool} :
    Attempts env mode v c s w (.won r b w₁) ↔
      ∃ fork, Concludes env mode s v c.fork w (.ok r, fork, w₁) ∧ fork.errors = [] ∧
        fork.awaiting = b := by
  constructor
  · rintro ⟨⟨f | r', fork, w₂⟩, hends, ha⟩
    · cases ha
    by_cases hclean : fork.errors = []
    · rw [Attempt.ofCheck_clean hclean] at ha
      cases ha
      exact ⟨fork, hends, hclean, rfl⟩
    · rw [Attempt.ofCheck_failed hclean] at ha
      cases ha
  · rintro ⟨fork, hends, hclean, rfl⟩
    exact ⟨_, hends, (Attempt.ofCheck_clean hclean w₁).symm⟩

theorem attempts_lost_iff {b : Bool} :
    Attempts env mode v c s w (.lost b w₁) ↔
      ∃ r fork, Concludes env mode s v c.fork w (.ok r, fork, w₁) ∧ fork.errors ≠ [] ∧
        fork.awaiting = b := by
  constructor
  · rintro ⟨⟨f | r, fork, w₂⟩, hends, ha⟩
    · cases ha
    by_cases hclean : fork.errors = []
    · rw [Attempt.ofCheck_clean hclean] at ha
      cases ha
    · rw [Attempt.ofCheck_failed hclean] at ha
      cases ha
      exact ⟨r, fork, hends, hclean, rfl⟩
  · rintro ⟨r, fork, hends, hfailed, rfl⟩
    exact ⟨_, hends, (Attempt.ofCheck_failed hfailed w₁).symm⟩

theorem attempts_broken_iff {f : Fault} :
    Attempts env mode v c s w (.broken f w₁) ↔
      ∃ fork, Concludes env mode s v c.fork w (.error f, fork, w₁) := by
  constructor
  · rintro ⟨⟨f' | r, fork, w₂⟩, hends, ha⟩
    · cases ha
      exact ⟨fork, hends⟩
    · by_cases hclean : fork.errors = []
      · rw [Attempt.ofCheck_clean hclean] at ha
        cases ha
      · rw [Attempt.ofCheck_failed hclean] at ha
        cases ha
  · rintro ⟨fork, hends⟩
    exact ⟨_, hends, rfl⟩

/-- The end on a fork, put on the context. -/
def Context.taking (c : Context) :
    Except Fault Value × Context × World σ → Except Fault Value × Context × World σ
  | (r, d, w) =>
    (r, { c with errors := c.errors ++ d.errors, awaiting := c.awaiting || d.awaiting }, w)

/-- A check does on a context what it does on a fork of it. -/
theorem runIn_check_eq_taking (env : Setting σ) (mode : Mode) (depth : Nat) (s : Schema)
    (v : Value) (c : Context) (w : World σ) :
    (check env mode depth s v).runIn c w =
      c.taking ((check env mode depth s v).runIn c.fork w) := by
  have happart : ∀ g, Relation.ReflTransGen (Call.GoesOn env mode) ⟨depth, s, v, c.fork, w⟩ g →
      ∀ a copied, g.value = .shared a copied → .shared a copied ∉ ([] : List Identity) := by
    simp
  have hplaced := check_placed_of_apart (b := { errors := c.errors, awaiting := c.awaiting })
    env.blindTo_root happart
  have hback := check_restores_context env mode depth s v c.fork w
  have hc : Context.place { errors := c.errors, awaiting := c.awaiting } c.fork = c := by
    simp [Context.place, Context.fork]
  rw [hc] at hplaced
  rw [hplaced]
  generalize (check env mode depth s v).runIn c.fork w = out at hback
  obtain ⟨r, d, w₁⟩ := out
  obtain ⟨hpath, hvisited, -, -⟩ := hback
  simp only [Context.fork] at hpath hvisited
  simp [Context.place, Context.taking, hpath, hvisited, ErrorRecord.map_placed_root]

/-- So it ends on a context as it ends on a fork of it. -/
theorem concludes_iff_fork : Concludes env mode s v c w out ↔
    ∃ tried, Concludes env mode s v c.fork w tried ∧ out = c.taking tried := by
  rw [concludes_iff]
  constructor
  · rintro ⟨depth, rfl, hends⟩
    rw [runIn_check_eq_taking] at hends ⊢
    exact ⟨_, concludes_iff.mpr ⟨depth, rfl, hends⟩, rfl⟩
  · rintro ⟨tried, htried, rfl⟩
    obtain ⟨depth, rfl, hends⟩ := concludes_iff.mp htried
    exact ⟨depth, runIn_check_eq_taking env mode depth s v c w, hends⟩

/-! ## Unions -/

/-- The template in force for the error of a union, if there is one, gives words. -/
def Setting.UnionsWorded (env : Setting σ) : Prop :=
  ∀ st groups, ∃ message, env.catalog.format env.scope st "union.invalid"
    "Input did not match any union member" (some [(.text "union_errors", .failures groups)]) =
      .ok message

/-- What options come to on a fork is the end of a trial of them. -/
theorem trial_of_tryOptions (hwords : env.UnionsWorded) {options : List Schema}
    {groups : List (List ErrorRecord)} {b : Bool}
    (h : (tryOptions env (check env mode depth) v groups options).runIn (c.fork.noting b) w = out)
    (hends : out.1 ≠ .error .exhausted) :
    ∃ a, Trial (Attempts env mode v c) options w a ∧ .ofCheck out = a.noting b := by
  induction options generalizing groups b w with
  | nil =>
      obtain ⟨message, hmessage⟩ := hwords w.store groups
      rw [runIn_tryOptions_nil, hmessage] at h
      subst h
      exact ⟨.lost false w, .nil w, Attempt.ofCheck_addError c b _ _ w⟩
  | cons option rest ih =>
      rw [runIn_tryOptions_cons, Context.noting_fork] at h
      rcases hrun : (check env mode depth option v).runIn c.fork.fork w with ⟨f | r, fork, w₁⟩ <;>
        rw [hrun] at h
      · subst h
        have hattempt := attempts_broken_iff.mpr ⟨fork, concludes_iff.mpr ⟨depth, hrun, hends⟩⟩
        exact ⟨_, .broken hattempt rest, rfl⟩
      have hconcludes := concludes_of_run hrun
      by_cases hclean : fork.errors = []
      · rw [afterOption_won hclean] at h
        subst h
        have hattempt := attempts_won_iff.mpr ⟨fork, hconcludes, hclean, rfl⟩
        exact ⟨_, .won hattempt rest, Attempt.ofCheck_noting c b fork.awaiting r w₁⟩
      · rw [afterOption_lost hclean, Context.noting_noting] at h
        have hattempt := attempts_lost_iff.mpr ⟨r, fork, hconcludes, hclean, rfl⟩
        obtain ⟨a, htrial, ha⟩ := ih h
        exact ⟨_, .lost hattempt htrial, by rw [ha, Attempt.noting_noting]⟩

/-- Options end as is told by the end of the first. -/
theorem EndsBy.first_option {option : Schema} {rest : List Schema}
    {tried out : Except Fault Value × Context × World σ} {groups : List (List ErrorRecord)}
    (h : EndsBy (fun depth => (check env mode depth option v).runIn c.fork w) tried)
    (hrest : EndsBy (fun depth =>
      afterOption env (check env mode depth) v groups rest c tried) out) :
    EndsBy (fun depth =>
      (tryOptions env (check env mode depth) v groups (option :: rest)).runIn c w) out := by
  obtain ⟨enough, h⟩ := h
  obtain ⟨more, hrest⟩ := hrest
  refine ⟨max enough more, fun depth hdepth => ?_⟩
  have hfirst : (check env mode depth option v).runIn c.fork w = tried :=
    h depth ((le_max_left ..).trans hdepth)
  simp only [runIn_tryOptions_cons, hfirst]
  exact hrest depth ((le_max_right ..).trans hdepth)

/-- The end of a trial of options is what they come to on a fork. -/
theorem tryOptions_of_trial (hwords : env.UnionsWorded) {options : List Schema}
    (h : Trial (Attempts env mode v c) options w a) (groups : List (List ErrorRecord)) (b : Bool) :
    ∃ out, ComesTo (fun depth =>
        (tryOptions env (check env mode depth) v groups options).runIn (c.fork.noting b) w) out ∧
      a.noting b = .ofCheck out := by
  induction h generalizing groups b with
  | nil w =>
      obtain ⟨message, hmessage⟩ := hwords w.store groups
      simp only [runIn_tryOptions_nil, hmessage]
      exact ⟨_, ⟨.const _, ok_ne_exhausted _⟩, (Attempt.ofCheck_addError c b _ _ w).symm⟩
  | @won _ _ r _ w₁ h rest =>
      obtain ⟨fork, ⟨hends, -⟩, hclean, rfl⟩ := attempts_won_iff.mp h
      refine ⟨(.ok r, (c.fork.noting b).noting fork.awaiting, w₁),
        ⟨.first_option hends ?_, ok_ne_exhausted r⟩,
        (Attempt.ofCheck_noting c b fork.awaiting r w₁).symm⟩
      simp only [afterOption_won hclean]
      exact .const _
  | broken h rest =>
      obtain ⟨fork, ⟨hends, hf⟩⟩ := attempts_broken_iff.mp h
      exact ⟨_, ⟨.first_option hends (.const _), hf⟩, rfl⟩
  | @lost _ _ _ _ _ a h _ ih =>
      obtain ⟨r, fork, ⟨hends, -⟩, hsome, rfl⟩ := attempts_lost_iff.mp h
      obtain ⟨out, ⟨hrest, hnot⟩, ha⟩ := ih (groups ++ [fork.errors]) (b || fork.awaiting)
      refine ⟨out, ⟨.first_option hends ?_, hnot⟩, by rw [Attempt.noting_noting, ha]⟩
      simp only [afterOption_lost hsome, Context.noting_noting]
      exact hrest

/-- An attempt of a union is a trial of its options. -/
theorem attempts_union_iff (hwords : env.UnionsWorded) {first : Schema} {rest : List Schema} :
    Attempts env mode v c (.union first rest) w a ↔
      Trial (Attempts env mode v c) (first :: rest) w a := by
  constructor
  · rintro ⟨out, hout, rfl⟩
    obtain ⟨depth, hrun, hends⟩ := concludes_iff.mp hout
    cases depth with
    | zero => exact absurd (congrArg Prod.fst hrun).symm hends
    | succ depth =>
        rw [← c.fork.noting_false] at hrun
        obtain ⟨a, htrial, ha⟩ := trial_of_tryOptions hwords hrun hends
        rwa [ha, Attempt.noting_false]
  · intro h
    obtain ⟨out, ⟨hends, hnot⟩, ha⟩ := tryOptions_of_trial hwords h [] false
    rw [Attempt.noting_false] at ha
    rw [Context.noting_false] at hends
    exact ⟨out, ⟨.of_succ hends, hnot⟩, ha⟩

end Checks

/-! ## The flag for absent values -/

/-- The end of asking for the flag as the end of an attempt. -/
def Attempt.ofFlag : Except Fault Bool × World σ → Attempt σ Unit
  | (.ok true, w) => .won () false w
  | (.ok false, w) => .lost false w
  | (.error f, w) => .broken f w

/-- The end of asking a schema for the flag. -/
def Asks (env : Setting σ) (s : Schema) (w : World σ) (a : Attempt σ Unit) : Prop :=
  ∃ out, Flags env s w out ∧ a = .ofFlag out

section Flag

variable {env : Setting σ} {depth : Nat} {s : Schema} {w : World σ}
  {out : Except Fault Bool × World σ} {a : Attempt σ Unit}

theorem Attempt.ofFlag_injective : Function.Injective (Attempt.ofFlag (σ := σ)) := by
  rintro ⟨f | b, w⟩ ⟨f' | b', w'⟩ h
  · cases h
    rfl
  · cases b' <;> cases h
  · cases b <;> cases h
  · cases b <;> cases b' <;> cases h <;> rfl

/-- What is told of the end of asking is told of the end as an attempt. -/
theorem asks_ofFlag_iff : Asks env s w (.ofFlag out) ↔ Flags env s w out :=
  ⟨fun ⟨_, h, hout⟩ => Attempt.ofFlag_injective hout ▸ h, fun h => ⟨out, h, rfl⟩⟩

theorem runIn_anyOf_cons (p : Schema → Act σ Bool) (s : Schema) (rest : List Schema) (w : World σ) :
    (Setting.anyOf p (s :: rest)).runIn w =
      match (p s).runIn w with
      | (.ok true, w) => (.ok true, w)
      | (.ok false, w) => (Setting.anyOf p rest).runIn w
      | (.error f, w) => (.error f, w) := by
  rw [Setting.anyOf, Act.runIn_bind]
  rcases (p s).runIn w with ⟨f | _ | _, w₁⟩ <;> rfl

theorem trial_of_anyOf {options : List Schema}
    (h : (Setting.anyOf (env.acceptsMissing depth) options).runIn w = out)
    (hends : out.1 ≠ .error .exhausted) : Trial (Asks env) options w (.ofFlag out) := by
  induction options generalizing w with
  | nil =>
      subst h
      exact .nil w
  | cons option rest ih =>
      rw [runIn_anyOf_cons] at h
      rcases hrun : (env.acceptsMissing depth option).runIn w with ⟨f | _ | _, w₁⟩ <;>
        simp only [hrun] at h
      · subst h
        exact .broken ⟨_, flags_iff.mpr ⟨depth, hrun, hends⟩, rfl⟩ rest
      · have hlost : Asks env option w (.lost false w₁) :=
          ⟨_, flags_of_run hrun, rfl⟩
        simpa [Attempt.noting_false] using Trial.lost hlost (ih h)
      · subst h
        exact .won ⟨_, flags_of_run hrun, rfl⟩ rest

theorem anyOf_of_trial {options : List Schema} (h : Trial (Asks env) options w a) :
    ∃ out, ComesTo (fun depth => (Setting.anyOf (env.acceptsMissing depth) options).runIn w) out ∧
      a = .ofFlag out := by
  induction h with
  | nil w => exact ⟨(.ok false, w), ⟨.const _, ok_ne_exhausted _⟩, rfl⟩
  | @won _ w _ _ w₁ h rest =>
      obtain ⟨⟨f | _ | _, w₂⟩, ⟨⟨enough, hends⟩, -⟩, ha⟩ := h <;> cases ha
      refine ⟨(.ok true, w₁), ⟨⟨enough, fun depth hdepth => ?_⟩, ok_ne_exhausted _⟩, rfl⟩
      simp only [runIn_anyOf_cons, hends depth hdepth]
  | @broken _ w f w₁ h rest =>
      obtain ⟨⟨f | _ | _, w₂⟩, ⟨⟨enough, hends⟩, hf⟩, ha⟩ := h <;> cases ha
      refine ⟨(.error f, w₁), ⟨⟨enough, fun depth hdepth => ?_⟩, hf⟩, rfl⟩
      simp only [runIn_anyOf_cons, hends depth hdepth]
  | @lost _ w _ w₁ _ a h _ ih =>
      obtain ⟨⟨f | _ | _, w₂⟩, ⟨⟨enough, hends⟩, -⟩, ha⟩ := h <;> cases ha
      obtain ⟨out, ⟨⟨more, hrest⟩, hnot⟩, rfl⟩ := ih
      refine ⟨out, ⟨⟨max enough more, fun depth hdepth => ?_⟩, hnot⟩, Attempt.noting_false _⟩
      simp only [runIn_anyOf_cons, hends depth ((le_max_left ..).trans hdepth)]
      exact hrest depth ((le_max_right ..).trans hdepth)

/-- To ask a union is to ask its options. -/
theorem asks_union_iff {first : Schema} {rest : List Schema} :
    Asks env (.union first rest) w a ↔ Trial (Asks env) (first :: rest) w a := by
  constructor
  · rintro ⟨out, hout, rfl⟩
    obtain ⟨depth, hrun, hends⟩ := flags_iff.mp hout
    cases depth with
    | zero => exact absurd (congrArg Prod.fst hrun).symm hends
    | succ depth => exact trial_of_anyOf hrun hends
  · intro h
    obtain ⟨out, ⟨hends, hnot⟩, rfl⟩ := anyOf_of_trial h
    exact ⟨out, ⟨.of_succ hends, hnot⟩, rfl⟩

end Flag

/-! ## Whole values -/

namespace Validate

variable {env : Setting σ} {mode : Mode} {depth : Nat} {s s' : Schema} {v u : Value} {w : World σ}

/-- Schemas whose checks end alike where they leave no error accept the same values, if
the rules do not tell them apart. -/
theorem exists_gives_accepted_congr
    (hrules : ∀ rule ∈ env.rules, env.testRule rule.check s' v = env.testRule rule.check s v)
    (h : ∀ r c' w', c'.errors = [] →
      (Concludes env mode s v {} w (.ok r, c', w') ↔
        Concludes env mode s' v {} w (.ok r, c', w'))) :
    (∃ depth, Gives env mode depth s v w (.accepted u)) ↔
      ∃ depth, Gives env mode depth s' v w (.accepted u) := by
  simp only [gives_accepted_iff_clean, askRules_congr hrules]
  constructor
  · rintro ⟨depth, r, c₁, w₁, c', w', hcheck, hclean, hrest⟩
    obtain ⟨more, hcheck', -⟩ := concludes_iff.mp ((h r c₁ w₁ hclean).mp (concludes_of_run hcheck))
    exact ⟨more, r, c₁, w₁, c', w', hcheck', hclean, hrest⟩
  · rintro ⟨depth, r, c₁, w₁, c', w', hcheck, hclean, hrest⟩
    obtain ⟨more, hcheck', -⟩ := concludes_iff.mp ((h r c₁ w₁ hclean).mpr (concludes_of_run hcheck))
    exact ⟨more, r, c₁, w₁, c', w', hcheck', hclean, hrest⟩

end Validate

end Conform
