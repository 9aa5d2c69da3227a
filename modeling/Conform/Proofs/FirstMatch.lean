import Conform.Proofs.Call
import Conform.Proofs.Restoration

/-!
# The first option that matches

A union tries its options in order, each on a fork of the context. The first that ends
without an error gives the result; what those before it left on their forks is dropped,
but for the note that an answer was promised, and those after it are not run. If there is
none, the errors of all options are the details of one error of the union.

An option that faults ends the union with its fault, and so does a template that fails to
give words for the error of the union.

## Main results

* `Traverse.runIn_tryOptions_cons` — one option.
* `Rejected.runIn_tryOptions` — options that end with errors.
* `union_is_first_match` — all that a union can come to.
-/

namespace Conform

open Traverse

namespace Context

/-- A context on which it is noted whether an answer was promised. -/
def noting (c : Context) (awaited : Bool) : Context :=
  { c with awaiting := c.awaiting || awaited }

@[simp] theorem noting_noting (c : Context) (b b' : Bool) :
    (c.noting b).noting b' = c.noting (b || b') := by
  simp [noting, Bool.or_assoc]

@[simp] theorem noting_false (c : Context) : c.noting false = c := by
  simp [noting]

@[simp] theorem noting_fork (c : Context) (b : Bool) : (c.noting b).fork = c.fork := rfl

end Context

variable {σ : Type} {env : Setting σ} {mode : Mode} {depth : Nat} {v : Value}
  {c : Context} {w w₁ : World σ}

/-- What a union comes to when an option has ended on a fork of the context: the end of
the option, if it has left no error, or else the end of those after it. -/
def Traverse.afterOption (env : Setting σ) (child : Checker σ) (v : Value)
    (groups : List (List ErrorRecord)) (rest : List Schema) (c : Context) :
    Except Fault Value × Context × World σ → Except Fault Value × Context × World σ
  | (.error f, _, w) => (.error f, c, w)
  | (.ok r, fork, w) =>
    if fork.errors.isEmpty then (.ok r, c.noting fork.awaiting, w)
    else (tryOptions env child v (groups ++ [fork.errors]) rest).runIn (c.noting fork.awaiting) w

/-- Options are tried on forks of the context, one after another. -/
theorem Traverse.runIn_tryOptions_cons (env : Setting σ) (child : Checker σ) (v : Value)
    (groups : List (List ErrorRecord)) (option : Schema) (rest : List Schema) (c : Context)
    (w : World σ) :
    (tryOptions env child v groups (option :: rest)).runIn c w =
      afterOption env child v groups rest c ((child option v).runIn c.fork w) := by
  rw [tryOptions, Engine.runIn_bind, Engine.runIn_speculate]
  rcases (child option v).runIn c.fork w with ⟨f | r, fork, w₁⟩
  · rfl
  · cases h : fork.errors.isEmpty with
    | true =>
        simp only [afterOption, h, if_true]
        rfl
    | false =>
        simp only [afterOption, h, Bool.false_eq_true, if_false]
        rfl

section AfterOption

variable {child : Checker σ} {groups : List (List ErrorRecord)} {rest : List Schema} {r : Value}
  {fork : Context}

theorem Traverse.afterOption_won (hclean : fork.errors = []) :
    afterOption env child v groups rest c (.ok r, fork, w) =
      (.ok r, c.noting fork.awaiting, w) := by
  simp [afterOption, hclean]

theorem Traverse.afterOption_lost (hsome : fork.errors ≠ []) :
    afterOption env child v groups rest c (.ok r, fork, w) =
      (tryOptions env child v (groups ++ [fork.errors]) rest).runIn (c.noting fork.awaiting) w := by
  simp [afterOption, hsome]

end AfterOption

/-- Where no option is left, the errors of all are the details of one. -/
theorem Traverse.runIn_tryOptions_nil (env : Setting σ) (child : Checker σ) (v : Value)
    (groups : List (List ErrorRecord)) (c : Context) (w : World σ) :
    (tryOptions env child v groups []).runIn c w =
      match env.catalog.format env.scope w.store "union.invalid"
        "Input did not match any union member"
        (some [(.text "union_errors", .failures groups)]) with
      | .ok message =>
        (.ok .invalid, c.addError ⟨c.path, some message, .builtin .unionInvalid,
          some [(.text "union_errors", .failures groups)]⟩, w)
      | .error f => (.error f, c, w) := by
  rw [tryOptions, Engine.runIn_refuse]
  rfl

/-- Options that end with errors when they are tried one after another, each on a fork of
the context: the errors of each, whether an answer was promised to any of them, and the
world that they leave. -/
inductive Rejected (env : Setting σ) (mode : Mode) (depth : Nat) (v : Value) (c : Context) :
    World σ → List Schema → List (List ErrorRecord) → Bool → World σ → Prop
  | nil (w : World σ) : Rejected env mode depth v c w [] [] false w
  | cons {w w₁ w₂ : World σ} {option : Schema} {options : List Schema} {r : Value}
      {fork : Context} {groups : List (List ErrorRecord)} {awaited : Bool}
      (h : (check env mode depth option v).runIn c.fork w = (.ok r, fork, w₁))
      (herrors : fork.errors ≠ [])
      (hrest : Rejected env mode depth v c w₁ options groups awaited w₂) :
      Rejected env mode depth v c w (option :: options) (fork.errors :: groups)
        (fork.awaiting || awaited) w₂

/-- Options that end with errors are done with; their errors are kept. -/
theorem Rejected.runIn_tryOptions {options : List Schema} {groups : List (List ErrorRecord)}
    {awaited : Bool} (h : Rejected env mode depth v c w options groups awaited w₁) (noted : Bool)
    (earlier : List (List ErrorRecord)) (more : List Schema) :
    (tryOptions env (check env mode depth) v earlier (options ++ more)).runIn (c.noting noted) w =
      (tryOptions env (check env mode depth) v (earlier ++ groups) more).runIn
        (c.noting (noted || awaited)) w₁ := by
  induction h generalizing noted earlier with
  | nil => simp
  | @cons w w₁ w₂ option options r fork groups awaited h herrors hrest ih =>
      rw [List.cons_append, runIn_tryOptions_cons, Context.noting_fork, h,
        afterOption_lost herrors, Context.noting_noting, ih]
      simp [Bool.or_assoc]

/-- Options end with errors up to one that does not, or all of them do. -/
theorem rejected_or_split (env : Setting σ) (mode : Mode) (depth : Nat) (v : Value) (c : Context)
    (w : World σ) (options : List Schema) :
    (∃ groups awaited w₁, Rejected env mode depth v c w options groups awaited w₁) ∨
      ∃ earlier option later groups awaited w₁, options = earlier ++ option :: later ∧
        Rejected env mode depth v c w earlier groups awaited w₁ ∧
        ((∃ r fork w₂, (check env mode depth option v).runIn c.fork w₁ = (.ok r, fork, w₂) ∧
            fork.errors = []) ∨
          ∃ f fork w₂, (check env mode depth option v).runIn c.fork w₁ =
            (.error f, fork, w₂)) := by
  induction options generalizing w with
  | nil => exact .inl ⟨[], false, w, .nil w⟩
  | cons option options ih =>
      rcases hrun : (check env mode depth option v).runIn c.fork w with ⟨f | r, fork, w₁⟩
      · exact .inr ⟨[], option, options, [], false, w, rfl, .nil w, .inr ⟨f, fork, w₁, hrun⟩⟩
      by_cases hclean : fork.errors = []
      · exact .inr ⟨[], option, options, [], false, w, rfl, .nil w,
          .inl ⟨r, fork, w₁, hrun, hclean⟩⟩
      · rcases ih w₁ with ⟨groups, awaited, w₂, hrest⟩ |
          ⟨earlier, other, later, groups, awaited, w₂, rfl, hrest, hother⟩
        · exact .inl ⟨_, _, w₂, .cons hrun hclean hrest⟩
        · exact .inr ⟨option :: earlier, other, later, _, _, w₂, rfl, .cons hrun hclean hrest,
            hother⟩

/-- A union goes on from the first option that does not end with errors. -/
theorem Rejected.runIn_union {earlier more : List Schema} {first : Schema} {rest : List Schema}
    {groups : List (List ErrorRecord)} {awaited : Bool}
    (h : Rejected env mode depth v c w earlier groups awaited w₁)
    (hall : first :: rest = earlier ++ more) :
    (check env mode (depth + 1) (.union first rest) v).runIn c w =
      (tryOptions env (check env mode depth) v groups more).runIn (c.noting awaited) w₁ := by
  show (tryOptions env (check env mode depth) v [] (first :: rest)).runIn c w = _
  have hrun := h.runIn_tryOptions false [] more
  rwa [Context.noting_false, ← hall] at hrun

/-- **A union is the first option that matches.** If an option ends without an error where
those before it have ended with errors, the union gives its result, leaves nothing on the
context but the note that an answer was promised, and is the same whatever options come
after. If all options end with errors, there is one error at the place of the context,
with the errors of each option in order, and the result is the marker of a failed check;
if the template in force for that error fails, the union faults as the template does. And
if an option faults where those before it have ended with errors, the union faults with
it. One of the three is the case. The path and the containers that are being looked into
are as they were, however it ends. -/
theorem union_is_first_match (env : Setting σ) (mode : Mode) (depth : Nat) (first : Schema)
    (rest : List Schema) (v : Value) (c : Context) (w : World σ) :
    (∀ earlier option later groups awaited w₁ r fork w₂,
      first :: rest = earlier ++ option :: later →
      Rejected env mode depth v c w earlier groups awaited w₁ →
      (check env mode depth option v).runIn c.fork w₁ = (.ok r, fork, w₂) → fork.errors = [] →
      (check env mode (depth + 1) (.union first rest) v).runIn c w =
          (.ok r, c.noting (awaited || fork.awaiting), w₂) ∧
        ∀ first' rest' later', first' :: rest' = earlier ++ option :: later' →
          (check env mode (depth + 1) (.union first' rest') v).runIn c w =
            (check env mode (depth + 1) (.union first rest) v).runIn c w) ∧
    (∀ groups awaited w₁, Rejected env mode depth v c w (first :: rest) groups awaited w₁ →
      (check env mode (depth + 1) (.union first rest) v).runIn c w =
        match env.catalog.format env.scope w₁.store "union.invalid"
          "Input did not match any union member"
          (some [(.text "union_errors", .failures groups)]) with
        | .ok message =>
          (.ok .invalid, (c.noting awaited).addError ⟨c.path, some message,
            .builtin .unionInvalid, some [(.text "union_errors", .failures groups)]⟩, w₁)
        | .error f => (.error f, c.noting awaited, w₁)) ∧
    (∀ earlier option later groups awaited w₁ f fork w₂,
      first :: rest = earlier ++ option :: later →
      Rejected env mode depth v c w earlier groups awaited w₁ →
      (check env mode depth option v).runIn c.fork w₁ = (.error f, fork, w₂) →
      (check env mode (depth + 1) (.union first rest) v).runIn c w =
        (.error f, c.noting awaited, w₂)) ∧
    ((∃ groups awaited w₁, Rejected env mode depth v c w (first :: rest) groups awaited w₁) ∨
      ∃ earlier option later groups awaited w₁, first :: rest = earlier ++ option :: later ∧
        Rejected env mode depth v c w earlier groups awaited w₁ ∧
        ((∃ r fork w₂, (check env mode depth option v).runIn c.fork w₁ = (.ok r, fork, w₂) ∧
            fork.errors = []) ∨
          ∃ f fork w₂, (check env mode depth option v).runIn c.fork w₁ =
            (.error f, fork, w₂))) ∧
    ((check env mode (depth + 1) (.union first rest) v).runIn c w).2.1.path = c.path ∧
    ((check env mode (depth + 1) (.union first rest) v).runIn c w).2.1.visited = c.visited := by
  refine ⟨?_, ?_, ?_, rejected_or_split env mode depth v c w (first :: rest), ?_, ?_⟩
  · intro earlier option later groups awaited w₁ r fork w₂ hall hearlier hoption hclean
    have hmatch : ∀ first rest later, first :: rest = earlier ++ option :: later →
        (check env mode (depth + 1) (.union first rest) v).runIn c w =
          (.ok r, c.noting (awaited || fork.awaiting), w₂) := by
      intro first rest later hall
      rw [hearlier.runIn_union hall, runIn_tryOptions_cons, Context.noting_fork, hoption,
        afterOption_won hclean, Context.noting_noting]
    refine ⟨hmatch first rest later hall, fun first' rest' later' hall' => ?_⟩
    rw [hmatch first' rest' later' hall', hmatch first rest later hall]
  · intro groups awaited w₁ h
    rw [h.runIn_union (List.append_nil _).symm, runIn_tryOptions_nil]
    rfl
  · intro earlier option later groups awaited w₁ f fork w₂ hall hearlier hoption
    rw [hearlier.runIn_union hall, runIn_tryOptions_cons, Context.noting_fork, hoption]
    rfl
  · exact (check_restores_context env mode (depth + 1) (.union first rest) v c w).path
  · exact (check_restores_context env mode (depth + 1) (.union first rest) v c w).visited

/-- The number is accepted by the second option, whether or not there is a third one. -/
theorem union_is_first_match_number :
    (check idleHost .immediate 2 (.union (.string {}) [.number {}, .boolean]) (.int 5)).runIn {}
        { host := () } = (.ok (.int 5), {}, { host := () }) ∧
      (check idleHost .immediate 2 (.union (.string {}) [.number {}]) (.int 5)).runIn {}
        { host := () } = (.ok (.int 5), {}, { host := () }) := by
  have hrejected : Rejected idleHost .immediate 1 (.int 5) {} { host := () } [.string {}] _ _
      { host := () } := .cons rfl (List.cons_ne_nil _ _) (.nil _)
  have hmatch := (union_is_first_match idleHost .immediate 1 (.string {}) [.number {}, .boolean]
    (.int 5) {} { host := () }).1 _ _ _ _ _ _ _ _ _ rfl hrejected rfl rfl
  exact ⟨hmatch.1, (hmatch.2 _ _ [] rfl).trans hmatch.1⟩

/-- A host without callbacks, and with a template for the error of a union that fails
instead of giving words. -/
def wordlessHost : Setting Unit := mutedHost "union.invalid"

/-- Neither option accepts the number, each with an error of its own, but the union leaves
no error and gives no result: it faults as the template does. -/
theorem union_of_failing_template :
    (∃ groups awaited, Rejected wordlessHost .immediate 1 (.int 5) {} { host := () }
      [.string {}, .boolean] groups awaited { host := () }) ∧
    (check wordlessHost .immediate 2 (.union (.string {}) [.boolean]) (.int 5)).runIn {}
        { host := () } =
      (.error (.raised "ValueError" "no words"), {}, { host := () }) := by
  refine ⟨⟨_, _, .cons rfl ?text (.cons rfl ?flag (.nil _))⟩, rfl⟩
  all_goals exact List.cons_ne_nil _ _

end Conform
