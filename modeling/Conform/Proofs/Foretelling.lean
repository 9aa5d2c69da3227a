import Conform.Proofs.Absence
import Conform.Proofs.Termination

/-!
# What the flag foretells

An object schema looks at the flag of a field whose key is not there, and does
without a check where the flag says no. So the flag has to say what the check would
do. It does: in a world in which no deferred schema has been built as another one,
whichever of both is done first, and whether or not it is the same depth that is
left to them.

Neither comes to an end by itself if a deferred schema stands for itself. A schema
is `Guarded` if every way on through its parts, and through what deferred schemas
may stand for, gets to a field, an element or a schema without parts. Then both
end from some depth on; the check does so unless a default has to be checked. It gives
a value unless words for an error cannot be written.

## Main results

* `acceptsMissing_halts`, `acceptsMissing_ends`, `check_missing_ends` — both end.
* `record_of_resolves` — to resolve deferred schemas calls factories only.
* `acceptsMissing_foretells_check` — the flag and the check agree.
-/

namespace Conform

open Traverse

/-! ## Runs that end from some depth on -/

/-- From some depth on, runs end in one way. -/
def EndsBy {α : Type} (run : Nat → α) (a : α) : Prop :=
  ∃ enough, ∀ depth, enough ≤ depth → run depth = a

namespace EndsBy

variable {σ α β : Type}

theorem const (a : α) : EndsBy (fun _ => a) a := ⟨0, fun _ _ => rfl⟩

/-- What is left to the parts is one less. -/
theorem of_succ {run : Nat → α} {a : α} (h : EndsBy (fun depth => run (depth + 1)) a) :
    EndsBy run a := by
  obtain ⟨enough, h⟩ := h
  refine ⟨enough + 1, fun depth hdepth => ?_⟩
  obtain ⟨d, rfl⟩ : ∃ d, depth = d + 1 := ⟨depth - 1, by omega⟩
  exact h d (by omega)

theorem exists_eq {run : Nat → α} {a : α} (h : EndsBy run a) : ∃ depth, run depth = a := by
  obtain ⟨enough, h⟩ := h
  exact ⟨enough, h enough le_rfl⟩

theorem act {act : Nat → Act σ α} {k : Nat → α → Act σ β} {a : α} {w w₁ : World σ}
    {out : Except Fault β × World σ} (h : EndsBy (fun depth => (act depth).runIn w) (.ok a, w₁))
    (hk : EndsBy (fun depth => (k depth a).runIn w₁) out) :
    EndsBy (fun depth => (act depth >>= k depth).runIn w) out := by
  obtain ⟨enough, h⟩ := h
  obtain ⟨more, hk⟩ := hk
  refine ⟨max enough more, fun depth hdepth => ?_⟩
  have hfirst : (act depth).runIn w = _ := h depth ((le_max_left _ _).trans hdepth)
  show (act depth >>= k depth).runIn w = out
  rw [Act.runIn_bind, hfirst]
  exact hk depth ((le_max_right _ _).trans hdepth)

/-- A fault ends what follows too. -/
theorem act_of_fault {act : Nat → Act σ α} {f : Fault} {w w₁ : World σ}
    (h : EndsBy (fun depth => (act depth).runIn w) (.error f, w₁)) (k : Nat → α → Act σ β) :
    EndsBy (fun depth => (act depth >>= k depth).runIn w) (.error f, w₁) := by
  obtain ⟨enough, h⟩ := h
  refine ⟨enough, fun depth hdepth => ?_⟩
  have hfirst : (act depth).runIn w = _ := h depth hdepth
  show (act depth >>= k depth).runIn w = _
  rw [Act.runIn_bind, hfirst]

theorem engine {e : Nat → Engine σ α} {k : Nat → α → Engine σ β} {a : α} {c c₁ : Context}
    {w w₁ : World σ} {out : Except Fault β × Context × World σ}
    (h : EndsBy (fun depth => (e depth).runIn c w) (.ok a, c₁, w₁))
    (hk : EndsBy (fun depth => (k depth a).runIn c₁ w₁) out) :
    EndsBy (fun depth => (e depth >>= k depth).runIn c w) out := by
  obtain ⟨enough, h⟩ := h
  obtain ⟨more, hk⟩ := hk
  refine ⟨max enough more, fun depth hdepth => ?_⟩
  have hfirst : (e depth).runIn c w = _ := h depth ((le_max_left _ _).trans hdepth)
  show (e depth >>= k depth).runIn c w = out
  rw [Engine.runIn_bind_of_ok _ hfirst]
  exact hk depth ((le_max_right _ _).trans hdepth)

theorem engine_of_fault {e : Nat → Engine σ α} {f : Fault} {c c₁ : Context} {w w₁ : World σ}
    (h : EndsBy (fun depth => (e depth).runIn c w) (.error f, c₁, w₁))
    (k : Nat → α → Engine σ β) :
    EndsBy (fun depth => (e depth >>= k depth).runIn c w) (.error f, c₁, w₁) := by
  obtain ⟨enough, h⟩ := h
  refine ⟨enough, fun depth hdepth => ?_⟩
  have hfirst : (e depth).runIn c w = _ := h depth hdepth
  show (e depth >>= k depth).runIn c w = _
  rw [Engine.runIn_bind, hfirst]

theorem speculate {e : Nat → Engine σ α} {a : α} {c fork : Context} {w w₁ : World σ}
    (h : EndsBy (fun depth => (e depth).runIn c.fork w) (.ok a, fork, w₁)) :
    EndsBy (fun depth => (Engine.speculate (e depth)).runIn c w)
      (.ok (a, fork.errors), { c with awaiting := c.awaiting || fork.awaiting }, w₁) := by
  obtain ⟨enough, h⟩ := h
  refine ⟨enough, fun depth hdepth => ?_⟩
  exact Engine.runIn_speculate_ok_iff.mpr ⟨fork, h depth hdepth, rfl, rfl⟩

theorem speculate_of_fault {e : Nat → Engine σ α} {f : Fault} {c fork : Context} {w w₁ : World σ}
    (h : EndsBy (fun depth => (e depth).runIn c.fork w) (.error f, fork, w₁)) :
    EndsBy (fun depth => (Engine.speculate (e depth)).runIn c w) (.error f, c, w₁) := by
  obtain ⟨enough, h⟩ := h
  refine ⟨enough, fun depth hdepth => ?_⟩
  have hfirst : (e depth).runIn c.fork w = _ := h depth hdepth
  show (Engine.speculate (e depth)).runIn c w = _
  rw [Engine.runIn_speculate, hfirst]

end EndsBy

/-- From each world in which something holds, acts end in one way from some depth on, in a
world in which it holds again. If they end by a fault, it is one of some. -/
def Act.Halts {σ α : Type} (I : World σ → Prop) (P : Fault → Prop) (act : Nat → Act σ α) : Prop :=
  ∀ w, I w → ∃ r w', I w' ∧ EndsBy (fun depth => (act depth).runIn w) (r, w') ∧
    ∀ f, r = .error f → P f

/-- From each world in which something holds, acts end by a value from some depth on, in a
world in which it holds again. -/
def Act.Ends {σ α : Type} (I : World σ → Prop) (act : Nat → Act σ α) : Prop :=
  ∀ w, I w → ∃ a w', I w' ∧ EndsBy (fun depth => (act depth).runIn w) (.ok a, w')

namespace Act

variable {σ α β : Type} {I : World σ → Prop} {P : Fault → Prop} {act : Nat → Act σ α}

namespace Halts

theorem pure (a : α) : Act.Halts I P fun _ => (Pure.pure a : Act σ α) :=
  fun w hw => ⟨.ok a, w, hw, .const _, nofun⟩

theorem of_succ (h : Act.Halts I P fun depth => act (depth + 1)) : Act.Halts I P act := by
  intro w hw
  obtain ⟨r, w', hw', hends, hfault⟩ := h w hw
  exact ⟨r, w', hw', .of_succ hends, hfault⟩

theorem bind {k : Nat → α → Act σ β} (h : Act.Halts I P act)
    (hk : ∀ a, Act.Halts I P fun depth => k depth a) :
    Act.Halts I P fun depth => act depth >>= k depth := by
  intro w hw
  obtain ⟨r, w₁, hw₁, hfirst, hfault⟩ := h w hw
  cases r with
  | error f =>
      refine ⟨.error f, w₁, hw₁, hfirst.act_of_fault k, ?_⟩
      rintro _ ⟨⟩
      exact hfault f rfl
  | ok a =>
      obtain ⟨b, w', hw', hrest, hfault⟩ := hk a w₁ hw₁
      exact ⟨b, w', hw', hfirst.act hrest, hfault⟩

/-- Without a fault, they end by a value. -/
theorem ends (h : Act.Halts I P act) (hP : ∀ f, ¬ P f) : Act.Ends I act := by
  intro w hw
  obtain ⟨r, w', hw', hends, hfault⟩ := h w hw
  cases r with
  | error f => exact absurd (hfault f rfl) (hP f)
  | ok a => exact ⟨a, w', hw', hends⟩

end Halts

namespace Ends

theorem halts (h : Act.Ends I act) : Act.Halts I P act := by
  intro w hw
  obtain ⟨a, w', hw', hends⟩ := h w hw
  exact ⟨.ok a, w', hw', hends, nofun⟩

theorem pure (a : α) : Act.Ends I fun _ => (Pure.pure a : Act σ α) :=
  (Halts.pure a).ends fun _ => id

theorem of_succ (h : Act.Ends I fun depth => act (depth + 1)) : Act.Ends I act :=
  (Halts.of_succ h.halts).ends fun _ => id

theorem bind {k : Nat → α → Act σ β} (h : Act.Ends I act)
    (hk : ∀ a, Act.Ends I fun depth => k depth a) :
    Act.Ends I fun depth => act depth >>= k depth :=
  (h.halts.bind fun a => (hk a).halts).ends fun _ => id

end Ends

end Act

/-! ## Guarded schemas -/

namespace Schema

/-- A schema hands an absent value on to another, or may stand for it. -/
inductive Unfolds (may : Nat → Schema → Prop) : Schema → Schema → Prop
  | passes {s t} (h : s.Passes t) : Unfolds may s t
  | deferred {id t} (h : may id t) : Unfolds may (.deferred id) t

/-- No way of handing a value on is endless. -/
def Guarded (may : Nat → Schema → Prop) (s : Schema) : Prop := Acc (fun t s => Unfolds may s t) s

end Schema

/-- The factories of deferred schemas always give schemas. -/
def Setting.Furnishes {σ : Type} (env : Setting σ) (may : Nat → Schema → Prop) : Prop :=
  ∀ id w, w.Stands may → ∃ s w', (env.produce id).runIn w = (.ok (.schema s), w')

/-- The templates in force give words, unless an integer in them cannot be written. -/
def Setting.Words {σ : Type} (env : Setting σ) : Prop :=
  ∀ st code words details, Spelled (env.catalog.format env.scope st code words details)

section Ends

variable {σ : Type} {env : Setting σ} {mode : Mode} {may : Nat → Schema → Prop} {s : Schema}

theorem Setting.Furnishes.resolve (hgives : env.Furnishes may) (id : Nat) {w : World σ}
    (hw : w.Stands may) : ∃ s w', (env.resolve id).runIn w = (.ok s, w') := by
  rw [Setting.runIn_resolve]
  cases w.built.lookup id with
  | some s => exact ⟨s, w, rfl⟩
  | none =>
      obtain ⟨s, w₁, hproduce⟩ := hgives id w hw
      exact ⟨s, _, by rw [hproduce]⟩

/-! ## The flag ends -/

/-- To resolve a deferred schema, which may stand for something, ends by a fault. -/
def Setting.FailsToResolve (env : Setting σ) (may : Nat → Schema → Prop) (f : Fault) : Prop :=
  ∃ id w w', w.Stands may ∧ (env.resolve id).runIn w = (.error f, w')

theorem Setting.Furnishes.not_failsToResolve (hgives : env.Furnishes may) (f : Fault) :
    ¬ env.FailsToResolve may f := by
  rintro ⟨id, w, w', hw, hfault⟩
  obtain ⟨s, w₁, hresolve⟩ := hgives.resolve id hw
  cases hfault.symm.trans hresolve

/-- What is done with a deferred schema after it has been resolved is done with something that
it may stand for. -/
theorem resolve_halts {α : Type} {I : World σ → Prop} {k : Nat → Schema → Act σ α} {id : Nat}
    (hstands : ∀ w, I w → w.Stands may) (hkeeps : (env.resolve id).Keeps I)
    (hk : ∀ t, may id t → Act.Halts I (env.FailsToResolve may) fun depth => k depth t) :
    Act.Halts I (env.FailsToResolve may) fun depth => env.resolve id >>= k depth := by
  intro w hw
  rcases hresolve : (env.resolve id).runIn w with ⟨f | t, w₁⟩
  · refine ⟨.error f, w₁, hkeeps.of_run hresolve hw, ?_, fun _ hf => ?_⟩
    · exact EndsBy.act_of_fault ⟨0, fun _ _ => hresolve⟩ k
    · cases hf
      exact ⟨id, w, w₁, hstands w hw, hresolve⟩
  · have hw₁ := hkeeps.of_run hresolve hw
    have hmay := hstands w₁ hw₁ id t (standing_of_resolve hresolve)
    obtain ⟨r, w', hw', hends, hfault⟩ := hk t hmay w₁ hw₁
    exact ⟨r, w', hw', EndsBy.act ⟨0, fun _ _ => hresolve⟩ hends, hfault⟩

section Flags

variable {I : World σ → Prop} {P : Fault → Prop} {p : Nat → Schema → Act σ Bool}

theorem anyOf_halts (ss : List Schema) (hss : ∀ s ∈ ss, Act.Halts I P fun depth => p depth s) :
    Act.Halts I P fun depth => Setting.anyOf (p depth) ss := by
  induction ss with
  | nil => exact .pure false
  | cons s ss ih =>
      refine .bind (hss s List.mem_cons_self) fun b => ?_
      cases b with
      | true => exact .pure true
      | false => exact ih fun t ht => hss t (List.mem_cons_of_mem _ ht)

theorem allOf_halts (ss : List Schema) (hss : ∀ s ∈ ss, Act.Halts I P fun depth => p depth s) :
    Act.Halts I P fun depth => Setting.allOf (p depth) ss := by
  induction ss with
  | nil => exact .pure true
  | cons s ss ih =>
      refine .bind (hss s List.mem_cons_self) fun b => ?_
      cases b with
      | false => exact .pure false
      | true => exact ih fun t ht => hss t (List.mem_cons_of_mem _ ht)

end Flags

/-- The flag of a guarded schema has an answer, unless a deferred schema fails to be
resolved. -/
theorem acceptsMissing_halts (henv : env.Builds may) (hguarded : s.Guarded may) :
    Act.Halts (World.Stands may) (env.FailsToResolve may)
      fun depth => env.acceptsMissing depth s := by
  induction hguarded with
  | intro s _ ih =>
      have hinside := fun t ht => ih t (.passes ht)
      refine .of_succ ?_
      cases s with
      | nullable inner => exact hinside inner .nullable
      | transform inner step => exact hinside inner .transform
      | refine inner id words code => exact hinside inner .refine
      | union first rest => exact anyOf_halts (first :: rest) fun t ht => hinside t (.option ht)
      | intersection first rest =>
          exact allOf_halts (first :: rest) fun t ht => hinside t (.member ht)
      | deferred id =>
          exact resolve_halts (fun _ hw => hw) (henv.stands id) fun t ht => ih t (.deferred ht)
      | optional inner => exact .pure true
      | withDefault inner default => exact .pure true
      | _ => exact .pure false

/-- The flag of a guarded schema has an answer. -/
theorem acceptsMissing_ends (henv : env.Builds may) (hgives : env.Furnishes may)
    (hguarded : s.Guarded may) :
    Act.Ends (World.Stands may) fun depth => env.acceptsMissing depth s :=
  (acceptsMissing_halts henv hguarded).ends hgives.not_failsToResolve

/-! ## The check ends -/

/-- A refusal ends by the marker of a failed check, if there are words for it. -/
theorem refuse_ends (hworded : env.Words) {x : Violation} (hx : Spelled x.words) (c : Context)
    (w : World σ) :
    ∃ out c', (Engine.refuse env x).runIn c w = (out, c', w) ∧ Spelled out := by
  rw [Engine.runIn_refuse]
  rcases (Violation.spelled_message hx (hworded w.store)).cases with ⟨message, h⟩ | h
  · simp only [h]
    exact ⟨_, _, rfl, .ok _⟩
  · simp only [h]
    exact ⟨_, _, rfl, .tooManyDigits⟩

/-- From some depth on, work ends in a world in which something holds, and by a value unless an
integer cannot be written. -/
def EndsSpelled {α : Type} (may : Nat → Schema → Prop)
    (run : Nat → Except Fault α × Context × World σ) :
    Prop :=
  ∃ out c' w', w'.Stands may ∧ EndsBy run (out, c', w') ∧ Spelled out

namespace EndsSpelled

variable {α β : Type} {c : Context} {w : World σ}

theorem of_run {e : Engine σ α} {out : Except Fault α} {c' : Context} {w' : World σ}
    (hw : w'.Stands may) (h : e.runIn c w = (out, c', w')) (hout : Spelled out) :
    EndsSpelled may fun _ : Nat => e.runIn c w :=
  ⟨out, c', w', hw, ⟨0, fun _ _ => h⟩, hout⟩

theorem of_succ {run : Nat → Except Fault α × Context × World σ}
    (h : EndsSpelled may fun depth => run (depth + 1)) : EndsSpelled may run := by
  obtain ⟨out, c', w', hw', hends, hout⟩ := h
  exact ⟨out, c', w', hw', .of_succ hends, hout⟩

/-- Work after work ends so if the first does and, after each value that it may give, the
second does. -/
theorem bind {e : Nat → Engine σ α} {k : Nat → α → Engine σ β}
    (h : EndsSpelled may fun depth => (e depth).runIn c w)
    (hk : ∀ a c₁ w₁, w₁.Stands may → EndsBy (fun depth => (e depth).runIn c w) (.ok a, c₁, w₁) →
      EndsSpelled may fun depth => (k depth a).runIn c₁ w₁) :
    EndsSpelled may fun depth => (e depth >>= k depth).runIn c w := by
  obtain ⟨out, c₁, w₁, hw₁, hfirst, hout⟩ := h
  rcases out with f | a
  · exact ⟨.error f, c₁, w₁, hw₁, hfirst.engine_of_fault k, fun g hg => hout g (by cases hg; rfl)⟩
  · obtain ⟨out', c', w', hw', hrest, hout'⟩ := hk a c₁ w₁ hw₁ hfirst
    exact ⟨out', c', w', hw', hfirst.engine hrest, hout'⟩

/-- An attempt ends so if what is attempted does on a fork. -/
theorem speculate {e : Nat → Engine σ α}
    (h : EndsSpelled may fun depth => (e depth).runIn c.fork w) :
    EndsSpelled may fun depth => (Engine.speculate (e depth)).runIn c w := by
  obtain ⟨out, fork, w₁, hw₁, hfirst, hout⟩ := h
  rcases out with f | a
  · exact ⟨.error f, c, w₁, hw₁, hfirst.speculate_of_fault,
      fun g hg => hout g (by cases hg; rfl)⟩
  · exact ⟨_, _, w₁, hw₁, hfirst.speculate, .ok _⟩

end EndsSpelled

/-- A check of an absent value ends so, wherever it starts. -/
def Finishes (env : Setting σ) (mode : Mode) (may : Nat → Schema → Prop) (s : Schema) : Prop :=
  ∀ c w, w.Stands may →
    EndsSpelled may fun depth => (check env mode depth s .missing).runIn c w

theorem tryOptions_ends (hworded : env.Words) (options : List Schema)
    (hoptions : ∀ s ∈ options, Finishes env mode may s) (groups : List (List ErrorRecord))
    (c : Context) (w : World σ) (hw : w.Stands may) :
    EndsSpelled may fun depth =>
      (tryOptions env (check env mode depth) .missing groups options).runIn c w := by
  induction options generalizing groups c w with
  | nil =>
      obtain ⟨out, c', hrefuse, hout⟩ := refuse_ends hworded (x :=
        { code := .unionInvalid, words := .ok "Input did not match any union member"
          details := failuresDetail "union_errors" groups }) (.ok _) c w
      exact .of_run hw hrefuse hout
  | cons option options ih =>
      have hmore := fun t ht => hoptions t (List.mem_cons_of_mem _ ht)
      refine .bind (hoptions option List.mem_cons_self c.fork w hw).speculate
        fun attempt c₁ w₁ hw₁ _ => ?_
      by_cases hempty : attempt.2.isEmpty
      · simp only [hempty, if_true]
        exact .of_run hw₁ rfl (.ok _)
      · simp only [hempty, Bool.false_eq_true, if_false]
        exact ih hmore _ c₁ w₁ hw₁

theorem tryMembers_ends (members : List Schema)
    (hmembers : ∀ s ∈ members, Finishes env mode may s) (c : Context) (w : World σ)
    (hw : w.Stands may) :
    EndsSpelled may fun depth =>
      (tryMembers (check env mode depth) .missing members).runIn c w := by
  induction members generalizing c w with
  | nil => exact .of_run hw rfl (.ok _)
  | cons member members ih =>
      have hmore := fun t ht => hmembers t (List.mem_cons_of_mem _ ht)
      refine .bind (hmembers member List.mem_cons_self c.fork w hw).speculate
        fun attempt c₁ w₁ hw₁ _ => ?_
      refine .bind (ih hmore c₁ w₁ hw₁) fun done c₂ w₂ hw₂ _ => ?_
      by_cases hempty : attempt.2.isEmpty
      · simp only [hempty, if_true]
        exact .of_run hw₂ rfl (.ok _)
      · simp only [hempty, Bool.false_eq_true, if_false]
        exact .of_run hw₂ rfl (.ok _)

/-- Markers are combined to the marker, and failures to one more. -/
theorem combine_ends (hworded : env.Words) {results : List Value}
    (hmissing : ∀ u ∈ results, u = .missing) (groups : List (List ErrorRecord)) (c : Context)
    (w : World σ) (hw : w.Stands may) :
    EndsSpelled may fun depth => (combine env depth results groups).runIn c w := by
  cases groups with
  | cons group groups =>
      obtain ⟨out, c', hrefuse, hout⟩ := refuse_ends hworded (x :=
        { code := .intersectionInvalid
          words := .ok "Input did not satisfy all intersection members"
          details := failuresDetail "intersection_errors" (group :: groups) }) (.ok _) c w
      exact .of_run hw hrefuse hout
  | nil =>
      cases results with
      | nil => exact .of_run hw rfl (.ok _)
      | cons first rest =>
          obtain ⟨rfl, hrest⟩ := List.forall_mem_cons.mp hmissing
          refine .of_succ ⟨.ok .missing, c, w, hw, ⟨0, fun depth _ => ?_⟩, .ok _⟩
          show (Engine.store >>= fun st => _).runIn c w = _
          rw [Engine.runIn_bind_of_ok _ (Engine.runIn_store c w), mergeAll_missing hrest]
          rfl

/-- Without defaults, a check of an absent value against a guarded schema ends, and by a value
unless words for an error cannot be written. -/
theorem check_missing_ends (henv : env.Builds may) (hgives : env.Furnishes may)
    (hworded : env.Words) (hmay : ∀ id t, may id t → t.DefaultFree)
    (hguarded : s.Guarded may) (hs : s.DefaultFree) : Finishes env mode may s := by
  induction hguarded with
  | intro s _ ih =>
      intro c w hw
      have hinside := fun t (ht : s.Passes t) => ih t (.passes ht) (hs.of_passes ht)
      refine .of_succ ?_
      by_cases htakes : s.takesMissing = true
      · exact ⟨.ok .missing, c, w, hw, ⟨0, fun _ _ => runIn_check_of_takesMissing htakes⟩, .ok _⟩
      by_cases hasks : s.asksForValue = true
      · obtain ⟨x, hspelled, hx⟩ := runIn_check_of_asksForValue hasks c w
        obtain ⟨out, c', hrefuse, hout⟩ := refuse_ends hworded hspelled c w
        exact ⟨out, c', w, hw, ⟨0, fun depth _ => (hx depth).trans hrefuse⟩, hout⟩
      cases s with
      | union first rest =>
          exact tryOptions_ends hworded (first :: rest) (fun t ht => hinside t (.option ht)) [] c w
            hw
      | intersection first rest =>
          refine .bind (tryMembers_ends (first :: rest) (fun t ht => hinside t (.member ht)) c w
            hw) fun done c₁ w₁ hw₁ hends => ?_
          have hmissing : ∀ u ∈ done.1, u = .missing := by
            obtain ⟨depth, hrun⟩ := hends.exists_eq
            exact (answers_of_tryMembers henv (fun t ht _ _ _ _ _ hw =>
              answers_of_check henv hmay (hs.of_passes (.member ht)) hw) hw hrun).2.2.1
          exact combine_ends hworded hmissing done.2 c₁ w₁ hw₁
      | optional inner => exact .of_run hw rfl (.ok _)
      | nullable inner => exact hinside inner .nullable c w hw
      | withDefault inner default => exact absurd .refl (hs inner default)
      | transform inner step =>
          refine .bind (hinside inner .transform c w hw) fun r c₁ w₁ hw₁ hends => ?_
          obtain ⟨depth, hrun⟩ := hends.exists_eq
          have hmarker := (answers_of_check henv hmay (hs.of_passes .transform) hw hrun).isMarker
          simp only [hmarker, if_true]
          exact .of_run hw₁ rfl (.ok _)
      | refine inner id words code =>
          refine .bind (hinside inner .refine c w hw) fun r c₁ w₁ hw₁ hends => ?_
          obtain ⟨depth, hrun⟩ := hends.exists_eq
          have hmarker := (answers_of_check henv hmay (hs.of_passes .refine) hw hrun).isMarker
          simp only [hmarker, if_true]
          exact .of_run hw₁ rfl (.ok _)
      | deferred id =>
          obtain ⟨t, w₁, hresolve⟩ := hgives.resolve id hw
          have hw₁ := (Resolves.of_run hresolve).stands henv hw
          have ht := hw₁ id t (standing_of_resolve hresolve)
          have hresolved : (Engine.ofAct (env.resolve id)).runIn c w = (.ok t, c, w₁) :=
            Engine.runIn_ofAct_ok_iff.mpr ⟨hresolve, rfl⟩
          obtain ⟨out, c', w', hw', hends, hout⟩ := ih t (.deferred ht) (hmay id t ht) c w₁ hw₁
          exact ⟨out, c', w', hw', EndsBy.engine ⟨0, fun _ _ => hresolved⟩ hends, hout⟩
      | any => exact absurd rfl htakes
      | enumeration first rest =>
          simp only [Schema.takesMissing, Bool.not_eq_true] at htakes
          simp [Schema.asksForValue, htakes] at hasks
      | _ => exact absurd rfl hasks

end Ends

/-! ## What is called -/

section Called

variable {σ : Type} {env : Setting σ} {may : Nat → Schema → Prop}

/-- A host that keeps a record builds the same deferred schemas. -/
theorem Setting.Builds.recorded (h : env.Builds may) : (env.recorded Event.mk).Builds may where
  remembers id j s w hw := by
    obtain ⟨r, w₁, es, hrun, hrun', -⟩ := Recorded.plain_resolve env id w
    have hkept := h.remembers id j s w.unrecorded hw
    rw [hrun] at hkept
    rw [hrun']
    exact hkept
  stands id w hw := by
    obtain ⟨r, w₁, es, hrun, hrun', -⟩ := Recorded.plain_resolve env id w
    have hkept := h.stands id w.unrecorded hw
    rw [hrun] at hkept
    rw [hrun']
    exact hkept

/-- What a host writes down is that some factories were called, and nothing
else. -/
def OnlyFactories (w w' : World (σ × List Event)) : Prop :=
  ∃ es, w'.record = w.record ++ es ∧ ∀ e ∈ es, ∃ id, e.callback = .factory id

theorem onlyFactories_of_resolve (env : Setting σ) (id : Nat) (w : World (σ × List Event)) :
    OnlyFactories w (((env.recorded Event.mk).resolve id).runIn w).2 := by
  rw [Setting.runIn_resolve]
  cases w.built.lookup id with
  | some s => exact ⟨[], (List.append_nil _).symm, by simp⟩
  | none =>
      have hproduce : ((env.recorded Event.mk).produce id).runIn w = _ :=
        Act.runIn_noted (fun _ => (⟨.factory id, false⟩ : Event)) (env.produce id) w
      rw [hproduce]
      refine ⟨[⟨.factory id, false⟩], ?_, by simp⟩
      cases ((env.produce id).runIn w.unrecorded).1 with
      | error f => rfl
      | ok o => cases o <;> rfl

theorem record_of_resolves {w w' : World (σ × List Event)}
    (h : Resolves (env.recorded Event.mk) w w') : OnlyFactories w w' := by
  induction h with
  | refl => exact ⟨[], (List.append_nil _).symm, by simp⟩
  | tail _ hstep ih =>
      obtain ⟨id, rfl⟩ := hstep
      obtain ⟨es, hes, hfactories⟩ := ih
      obtain ⟨fs, hfs, hmore⟩ := onlyFactories_of_resolve env id _
      refine ⟨es ++ fs, by rw [hfs, hes, List.append_assoc], fun e he => ?_⟩
      exact (List.mem_append.mp he).elim (hfactories e) (hmore e)

end Called

/-! ## The flag and the check -/

/-- A host whose callbacks leave the world as it is. -/
structure Setting.Still {σ : Type} (env : Setting σ) : Prop where
  apply (id : Nat) (v : Value) (w : World σ) : ((env.apply id v).runIn w).2 = w
  test (id : Nat) (v : Value) (w : World σ) : ((env.test id v).runIn w).2 = w
  later (id : Nat) (v : Value) {w w' : World σ} {later : Act σ Value}
    (h : (env.test id v).runIn w = (.ok (.pending later), w')) : (later.runIn w').2 = w'
  produce (id : Nat) (w : World σ) : ((env.produce id).runIn w).2 = w

section Still

variable {σ : Type} {env : Setting σ}

/-- It keeps what is kept when a deferred schema is built. -/
theorem Setting.Still.keeps (h : env.Still) {I : World σ → Prop}
    (hbuild : ∀ id w s, I w → w.standing id = none →
      (env.produce id).runIn w = (.ok (.schema s), w) → I { w with built := (id, s) :: w.built }) :
    env.Keeps I where
  apply id v w hw := by rwa [h.apply]
  test id v w hw := by rwa [h.test]
  later id v w w' later hw hrun := by
    have hsame := h.test id v w
    rw [hrun] at hsame
    obtain rfl : w' = w := hsame
    rwa [h.later id v hrun]
  resolve id := by
    refine Setting.keeps_resolve (fun w hw => by rwa [h.produce]) fun w w₁ s hnone hrun hw => ?_
    obtain rfl : w₁ = w := by simpa [hrun] using h.produce id w
    exact hbuild id w₁ s hw hnone hrun

/-- It upholds what its factories give. -/
theorem Setting.Still.upholds (h : env.Still) {may : Nat → Schema → Prop}
    (hgives : ∀ id w s, (env.produce id).runIn w = (.ok (.schema s), w) → may id s) :
    env.Upholds may where
  remembers id t := h.keeps fun _ _ s hw hnone _ => World.recalls_build s hnone id t hw
  stands := h.keeps fun j w s hw _ hrun => hw.build (hgives j w s hrun)

end Still

/-- The flag says of a check of an absent value what it does. Where it says no, the
check leaves errors whenever it ends by a value. Without defaults, it says yes
exactly where the check leaves no error; then the check gives the marker and leaves
its context as it was, and in any case no step and no predicate is called. The flag
of a guarded schema has an answer, and without defaults the check ends by a value, unless an
integer in the words for an error cannot be written. -/
theorem acceptsMissing_foretells_check {σ : Type} (env : Setting σ)
    (may : Nat → Schema → Prop) (s : Schema) (henv : env.Upholds may) (hs : s.Stocked)
    (hstocked : ∀ id t, may id t → t.Stocked) :
    (∀ mode depth depth' w w₁ c v r c' v', w.Stands may →
      (env.acceptsMissing depth s).runIn w = (.ok false, w₁) →
      (check env mode depth' s .missing).runIn c v = (.ok r, c', v') → w₁.Consistent v' →
      r = .invalid ∧ ∃ es ≠ [], c'.errors = c.errors ++ es) ∧
    (s.DefaultFree → (∀ id t, may id t → t.DefaultFree) →
      (∀ mode depth depth' w w₁ b c v r c' v', w.Stands may → v.Stands may →
        (env.acceptsMissing depth s).runIn w = (.ok b, w₁) →
        (check env mode depth' s .missing).runIn c v = (.ok r, c', v') → w₁.Consistent v' →
        (b = true ↔ c'.errors = c.errors) ∧ (b = true → r = .missing ∧ c' = c)) ∧
      (∀ mode depth c v r c' v', v.Stands may →
        (check (env.recorded Event.mk) mode depth s .missing).runIn c v = (.ok r, c', v') →
        OnlyFactories v v')) ∧
    (s.Guarded may → env.Furnishes may →
      (∀ w, w.Stands may → ∃ b w₁,
        EndsBy (fun depth => (env.acceptsMissing depth s).runIn w) (.ok b, w₁)) ∧
      (s.DefaultFree → (∀ id t, may id t → t.DefaultFree) → env.Words →
        ∀ mode c v, v.Stands may → ∃ out c' v',
          EndsBy (fun depth => (check env mode depth s .missing).runIn c v) (out, c', v') ∧
          ∀ f, out = .error f → f = .tooManyDigits)) := by
  refine ⟨?_, fun hfree hmay => ⟨?_, ?_⟩, fun hguarded hgives => ⟨?_, ?_⟩⟩
  · intro mode depth depth' w w₁ c v r c' v' hw hflag hcheck hsame
    have hdecides := (decides_of_acceptsMissing henv.builds hw hflag).2
    exact fails_of_refuses henv.remembers (hdecides hs hstocked) hcheck hsame
  · intro mode depth depth' w w₁ b c v r c' v' hw hv hflag hcheck hsame
    have hdecides := (decides_of_acceptsMissing henv.builds hw hflag).2
    cases answers_of_check henv.builds hmay hfree hv hcheck with
    | accepted hto haccepts =>
        cases b with
        | true => simp
        | false => exact absurd (hdecides hs hstocked) (haccepts.not_refuses fun id t t' ht ht' =>
            (hsame id t' t ht' ht).symm)
    | refused hto hrefuses hes =>
        cases b with
        | true => exact absurd hrefuses (Schema.Accepts.not_refuses hdecides hsame)
        | false => simp [hes]
  · intro mode depth c v r c' v' hv hcheck
    cases answers_of_check henv.builds.recorded hmay hfree hv hcheck with
    | accepted hto => exact record_of_resolves hto
    | refused hto => exact record_of_resolves hto
  · intro w hw
    obtain ⟨b, w₁, -, hends⟩ := acceptsMissing_ends henv.builds hgives hguarded w hw
    exact ⟨b, w₁, hends⟩
  · intro hfree hmay hworded mode c v hv
    obtain ⟨out, c', v', -, hends, hout⟩ :=
      check_missing_ends henv.builds hgives hworded hmay hguarded hfree c v hv
    exact ⟨out, c', v', hends, hout⟩

/-- A list of lists that may also be absent, with a further check. -/
def listOrAbsent : Schema :=
  .union (.deferred 0) [.refine (.optional (.deferred 0)) 0 none (.builtin .custom)]

/-- It must be a list as well. -/
def listAfterAll : Schema := .intersection listOrAbsent [.deferred 0]

theorem still_nestedListHost : nestedListHost.Still where
  apply _ _ _ := rfl
  test _ _ _ := rfl
  later _ _ _ _ _ h := by cases h
  produce _ _ := rfl

theorem upholds_nestedListHost : nestedListHost.Upholds fun _ t => t = nestedList :=
  still_nestedListHost.upholds fun _ _ _ h => by
    cases h
    rfl

theorem part_listAfterAll {t : Schema} (h : listAfterAll.Part t) :
    t = listAfterAll ∨ t = listOrAbsent ∨ t = .deferred 0 ∨ t = .optional (.deferred 0) ∨
      t = .refine (.optional (.deferred 0)) 0 none (.builtin .custom) := by
  induction h with
  | refl => exact .inl rfl
  | tail _ hstep ih =>
      rcases ih with rfl | rfl | rfl | rfl | rfl <;> rcases hstep with hstep | hstep <;>
        cases hstep <;> grind [listOrAbsent]

theorem stocked_listAfterAll : listAfterAll.Stocked := by
  intro t ht
  rcases part_listAfterAll ht with rfl | rfl | rfl | rfl | rfl <;> rfl

theorem defaultFree_listAfterAll : listAfterAll.DefaultFree := by
  intro inner default ht
  rcases part_listAfterAll ht with h | h | h | h | h <;> cases h

/-- The deferred schema comes back to itself only through the elements. -/
theorem guarded_deferred : Schema.Guarded (fun _ t => t = nestedList) (.deferred 0) := by
  refine .intro _ fun t ht => ?_
  cases ht with
  | passes h => cases h
  | deferred h =>
      subst h
      refine .intro _ fun t ht => ?_
      cases ht with
      | passes h => cases h

theorem guarded_listOrAbsent : listOrAbsent.Guarded fun _ t => t = nestedList := by
  have hoptional : Schema.Guarded (fun _ t => t = nestedList) (.optional (.deferred 0)) := by
    refine .intro _ fun t ht => ?_
    rcases ht with ⟨⟨⟩⟩
    exact guarded_deferred
  refine .intro _ fun t ht => ?_
  rcases ht with ⟨⟨hoption⟩⟩
  simp only [List.mem_cons, List.not_mem_nil, or_false] at hoption
  rcases hoption with rfl | rfl
  · exact guarded_deferred
  · refine .intro _ fun t ht => ?_
    rcases ht with ⟨⟨⟩⟩
    exact hoptional

/-- The flag is yes for a list that may be absent, and no if it must be a list after
all. The check of the one changes nothing, that of the other leaves an error. -/
theorem acceptsMissing_foretells_check_listOrAbsent :
    (∃ r c' v', (check nestedListHost .awaited 5 listOrAbsent .missing).runIn {} { host := () } =
      (.ok r, c', v') ∧ r = .missing ∧ c' = {}) ∧
    (∃ r c' v', (check nestedListHost .awaited 5 listAfterAll .missing).runIn {} { host := () } =
      (.ok r, c', v') ∧ r = .invalid ∧ ∃ es ≠ [], c'.errors = es) ∧
    (∃ out c' v', EndsBy (fun depth =>
      (check nestedListHost .immediate depth listOrAbsent .missing).runIn {} { host := () })
      (out, c', v') ∧ ∀ f, out = .error f → f = .tooManyDigits) := by
  have hmay : ∀ (id : Nat) t, t = nestedList → t.Stocked ∧ t.DefaultFree := by
    rintro id t rfl
    refine ⟨fun u hu => ?_, fun inner default hu => ?_⟩
    · rcases part_nestedList hu with rfl | rfl <;> rfl
    · rcases part_nestedList hu with h | h <;> cases h
  have hoption : listAfterAll.Passes listOrAbsent := .member List.mem_cons_self
  have hnothing : (⟨{}, [], [], ()⟩ : World Unit).Stands fun _ t => t = nestedList := by
    rintro id t ⟨⟩
  have hfirst := acceptsMissing_foretells_check nestedListHost (fun _ t => t = nestedList)
    listOrAbsent upholds_nestedListHost (stocked_listAfterAll.of_passes hoption)
    fun id t ht => (hmay id t ht).1
  have hsecond := acceptsMissing_foretells_check nestedListHost (fun _ t => t = nestedList)
    listAfterAll upholds_nestedListHost stocked_listAfterAll fun id t ht => (hmay id t ht).1
  have hfree := defaultFree_listAfterAll.of_passes hoption
  refine ⟨?_, ?_, ?_⟩
  · refine ⟨_, _, _, rfl, ?_⟩
    refine ((hfirst.2.1 hfree fun id t ht => (hmay id t ht).2).1 .awaited 5 5 { host := () }
      _ true {} { host := () } _ _ _ hnothing hnothing rfl rfl ?_).2 rfl
    rintro id s t hs ht
    exact Option.some.inj (hs.symm.trans ht)
  · refine ⟨_, _, _, rfl, ?_⟩
    exact hsecond.1 .awaited 5 5 { host := () } _ {} { host := () } _ _ _ hnothing rfl rfl
      fun id s t hs ht => Option.some.inj (hs.symm.trans ht)
  · refine (hfirst.2.2 guarded_listOrAbsent fun id w _ => ⟨_, _, rfl⟩).2 hfree
      (fun id t ht => (hmay id t ht).2) (fun st code words details => .ok words) .immediate {}
      { host := () } hnothing

end Conform
