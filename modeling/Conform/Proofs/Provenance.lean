import Conform.Proofs.Pairing

/-!
# Where errors come from

The errors of a run may hold the failures of attempts, and these may hold
failures again. Whatever the depth, each of them was told by a call of the run:
it is what that call adds to its context for a violation, for its failed attempts
or in the words of a callback. Only the rules for whole values add others.

That is a pairing that looks at the first of the two works only.

## Main results

* `Call.Tells.circular` — who tells of a circular reference is looking into the
  container already, or is a callback that was given the code.
* `Call.Tells.required` — who tells what is required does so at a key.
* `Call.tells_of_run` — every error record of a run, also in the failures of
  attempts, was told by a call of the run.
* `Validate.Found.told` — every error record in the refusal of a whole value was
  told by a call of the check, or has the code of a rule.
-/

namespace Conform

open Traverse

/-! ## Failures in errors -/

namespace ErrorRecord

/-- An error record gives another as a failure of an attempt. -/
def Gives (e x : ErrorRecord) : Prop :=
  ∃ ds, e.details = some ds ∧ ∃ name groups, (name, .failures groups) ∈ ds ∧
    ∃ g ∈ groups, x ∈ g

/-- An error record holds another: it is it, or gives one that holds it. -/
abbrev Holds : ErrorRecord → ErrorRecord → Prop := Relation.ReflTransGen Gives

theorem gives_failuresDetail_iff {p : Path} {message : Option String} {code : Code} {name : String}
    {groups : List (List ErrorRecord)} {x : ErrorRecord} :
    Gives ⟨p, message, code, failuresDetail name groups⟩ x ↔ ∃ g ∈ groups, x ∈ g := by
  simp [Gives, failuresDetail]

/-- An error record whose details are values holds no other. -/
theorem eq_of_holds_of_plain {p : Path} {message : Option String} {code : Code}
    {details : Option Details} {x : ErrorRecord}
    (hplain : ∀ ds, details = some ds → ∀ d ∈ ds, ∃ u, d.2 = .value u)
    (h : Holds ⟨p, message, code, details⟩ x) : x = ⟨p, message, code, details⟩ := by
  rcases h.cases_head with rfl | ⟨y, ⟨ds, hds, name, groups, hd, -⟩, -⟩
  · rfl
  · obtain ⟨u, hu⟩ := hplain ds hds _ hd
    cases hu

end ErrorRecord

/-! ## What a call tells -/

namespace Call

variable {σ : Type}

/-- The error records that a call may add to its context, what it reports being found in a
world that comes after its own. -/
inductive Tells (env : Setting σ) (f : Call σ) : ErrorRecord → Prop
  | violation {w₁ x p message} (h : f.Reports w₁ x p) (hfound : env.After f.world w₁) :
      Tells env f ⟨p, message, .builtin x.code, x.details⟩
  | failures {x name message groups} (h : f.Fails x name) :
      Tells env f ⟨f.context.path, message, .builtin x.code, failuresDetail name groups⟩
  | worded {code words} (h : f.Words code) : Tells env f ⟨f.context.path, words, code, none⟩

/-- Who tells of a circular reference does so at its own place. It is looking
into the container already, or is a callback that was given the code. -/
theorem Tells.circular {env : Setting σ} {f : Call σ} {e : ErrorRecord} (h : f.Tells env e)
    (hcode : e.code = .builtin .circularReference) :
    e.path = f.context.path ∧ e.details = none ∧
      (f.meets = true ∧ f.context.hasVisited f.value = true ∨
        f.Words (.builtin .circularReference)) := by
  cases h with
  | violation h =>
      obtain ⟨hmeets, hvisited, rfl, hpath⟩ := h.circular (Code.builtin.inj hcode)
      exact ⟨hpath, rfl, .inl ⟨hmeets, hvisited⟩⟩
  | failures h => cases h <;> cases hcode
  | worded h => exact ⟨rfl, rfl, .inr (hcode ▸ h)⟩

/-- Who tells what is required, and does not only use the code, does so at a key. -/
theorem Tells.required {env : Setting σ} {f : Call σ} {e : ErrorRecord} (h : f.Tells env e)
    (hcode : e.code = .builtin .required) (hdetails : e.details ≠ none) :
    ∃ k, e.path = f.context.path ++ [k] := by
  cases h with
  | violation h => exact h.required_key (Code.builtin.inj hcode)
  | failures h => cases h <;> cases hcode
  | worded h => exact absurd rfl hdetails

end Call

/-! ## Works that tell -/

variable {σ : Type} {Q : ErrorRecord → Prop}

/-- Work that, if it ends by a value, has only added errors of a kind, and so
that they hold only such, however deep. -/
def Telling (Q : ErrorRecord → Prop) {α β : Type} (R : α → β → Prop) (c : Context) (w : World σ)
    (e : Engine σ α) : Prop :=
  ∀ a c' w', e.runIn c w = (.ok a, c', w') →
    (∃ b, R a b) ∧ ∃ es, c'.errors = c.errors ++ es ∧ ∀ e ∈ es, ∀ x, e.Holds x → Q x

namespace Telling

variable {α β γ δ : Type} {R : α → β → Prop} {c : Context} {w : World σ} {e : Engine σ α}

/-- Work that leaves the errors as they are. -/
theorem of_eq (h : ∀ a c' w', e.runIn c w = (.ok a, c', w') →
    (∃ b, R a b) ∧ c'.errors = c.errors) : Telling Q R c w e := by
  intro a c' w' hrun
  obtain ⟨hb, hsame⟩ := h a c' w' hrun
  exact ⟨hb, [], by rw [hsame, List.append_nil], fun e he => by cases he⟩

theorem bind {S : γ → δ → Prop} {k : α → Engine σ γ} (h : Telling Q R c w e)
    (hk : ∀ a b c₁ w₁, e.runIn c w = (.ok a, c₁, w₁) → R a b → Telling Q S c₁ w₁ (k a)) :
    Telling Q S c w (e >>= k) := by
  intro r c' w' hrun
  obtain ⟨a, c₁, w₁, hfirst, hrest⟩ := Engine.runIn_bind_ok_iff.mp hrun
  obtain ⟨⟨b, hab⟩, es, hes, htold⟩ := h a c₁ w₁ hfirst
  obtain ⟨hd, fs, hfs, hmore⟩ := hk a b c₁ w₁ hfirst hab r c' w' hrest
  refine ⟨hd, es ++ fs, by rw [hfs, hes, List.append_assoc], fun x hx => ?_⟩
  rcases List.mem_append.mp hx with hx | hx
  · exact htold x hx
  · exact hmore x hx

theorem within (k : Key) (h : Telling Q R (c.push k) w e) :
    Telling Q R c w (Engine.within k e) := by
  intro a c' w' hrun
  obtain ⟨c₁, hinside, rfl⟩ := Engine.runIn_within_ok_iff.mp hrun
  exact h a c₁ w' hinside

theorem lookingInto {v : Value} (h : Telling Q R (c.mark v) w e) :
    Telling Q R c w (Engine.lookingInto v e) := by
  intro a c' w' hrun
  obtain ⟨c₁, hinside, rfl⟩ := Engine.runIn_lookingInto_ok_iff.mp hrun
  simpa using h a c₁ w' hinside

theorem onCopy (h : Telling Q R c.afresh w e) : Telling Q R c w (Engine.onCopy e) := by
  intro a c' w' hrun
  obtain ⟨c₁, hinside, rfl⟩ := Engine.runIn_onCopy_ok_iff.mp hrun
  exact h a c₁ w' hinside

/-- What was found on a fork is handed on. -/
theorem speculate (h : Telling Q R c.fork w e) :
    Telling Q (fun p (q : β × List ErrorRecord) =>
      R p.1 q.1 ∧ List.Forall₂ (fun e _ => ∀ x, e.Holds x → Q x) p.2 q.2) c w
      (Engine.speculate e) := by
  rintro ⟨a, found⟩ c' w' hrun
  obtain ⟨fork, hfork, rfl, rfl⟩ := Engine.runIn_speculate_ok_iff.mp hrun
  obtain ⟨⟨b, hab⟩, es, hes, htold⟩ := h a fork w' hfork
  have hes : fork.errors = es := hes
  refine ⟨⟨(b, fork.errors), hab, List.forall₂_same.mpr (hes ▸ htold)⟩, [], ?_, ?_⟩
  · rw [List.append_nil]
  · exact fun e he => by cases he

theorem enter {S : Value → Value → Prop} (v : Value) {refused : Engine σ Value}
    {k : α → Engine σ Value} (hrefused : c.hasVisited v = true → Telling Q S c w refused)
    (h : c.hasVisited v = false → Telling Q R (c.mark v) w e)
    (hk : c.hasVisited v = false → ∀ a b c₁ w₁,
      (Engine.lookingInto v e).runIn c w = (.ok a, c₁, w₁) → R a b → Telling Q S c₁ w₁ (k a)) :
    Telling Q S c w (Engine.context >>= fun c =>
      if c.hasVisited v then refused else Engine.lookingInto v e >>= k) := by
  intro r c' w' hrun
  rw [Engine.runIn_bind_of_ok _ (Engine.runIn_context c w)] at hrun
  cases hfresh : c.hasVisited v with
  | true =>
      simp only [hfresh, if_true] at hrun
      exact hrefused hfresh r c' w' hrun
  | false =>
      simp only [hfresh, Bool.false_eq_true, if_false] at hrun
      exact (lookingInto (h hfresh)).bind (hk hfresh) r c' w' hrun

/-- Work that adds one error. -/
theorem of_addError {e : Engine σ Unit} (h : ∀ u c' w', e.runIn c w = (.ok u, c', w') →
    ∃ y, c'.errors = c.errors ++ [y] ∧ ∀ x, y.Holds x → Q x) :
    Telling Q (· = ·) c w e := by
  intro u c' w' hrun
  obtain ⟨y, hy, htold⟩ := h u c' w' hrun
  exact ⟨⟨u, rfl⟩, [y], hy, by simpa using htold⟩

end Telling

/-- Telling as a pairing. -/
def telling (σ : Type) (Q : ErrorRecord → Prop) : Pairing σ where
  record e _ := ∀ x, e.Holds x → Q x
  apart _ := True
  fault _ := True
  work R c w e _ := Telling Q R c w e
  pure _ _ h := .of_eq fun _ _ _ hrun => by
    cases hrun
    exact ⟨⟨_, h⟩, rfl⟩
  bind := .bind
  exhausted := trivial
  throw _ _ _ _ _ _ _ _ hrun := by cases hrun
  store _ _ := .of_eq fun _ _ _ hrun => by
    cases hrun
    exact ⟨⟨_, rfl⟩, rfl⟩
  act _ _ _ _ := .of_eq fun _ _ _ hrun => by
    obtain ⟨-, rfl⟩ := Engine.runIn_ofAct_ok_iff.mp hrun
    exact ⟨⟨_, rfl⟩, rfl⟩
  attempt _ _ _ := .of_eq fun _ _ _ hrun => by
    cases hrun
    exact ⟨⟨_, rfl⟩, rfl⟩
  markAwaiting _ _ := .of_eq fun _ _ _ hrun => by
    cases hrun
    exact ⟨⟨_, rfl⟩, rfl⟩
  within k _ := .within k
  onCopy := .onCopy
  speculate := .speculate
  enter v _ _ _ _ _ _ _ := .enter v

theorem forall_of_forall₂ {α β : Type} {p : α → Prop} {as : List α} {bs : List β}
    (h : List.Forall₂ (fun a _ => p a) as bs) : ∀ a ∈ as, p a :=
  ((List.forall₂_and_left _ _).mp (h.imp fun _ _ ha => And.intro ha trivial)).1

/-- What a call adds is told by it. -/
theorem telling_settings {env : Setting σ} {mode : Mode} {f : Call σ}
    (h : ∀ e, f.Tells env e → Q e) : (telling σ Q).Settings env mode f where
  apart _ := trivial
  judged _ := trivial
  asked _ _ _ := trivial
  resolved _ _ := trivial
  uncopied _ _ _ := trivial
  violation {x c _} hreports hfound w _ := .of_addError fun u c' w' hrun => by
    obtain ⟨message, rfl, -⟩ := Engine.eq_addError_of_runIn_addViolation hrun
    refine ⟨_, rfl, fun y hy => ?_⟩
    rw [ErrorRecord.eq_of_holds_of_plain hreports.plain hy]
    exact h _ (.violation hreports hfound)
  failures {x name c} hfails hpath w _ groups groups' hgroups := .of_addError fun u c' w' hrun => by
    obtain ⟨message, rfl, -⟩ := Engine.eq_addError_of_runIn_addViolation hrun
    refine ⟨_, rfl, fun y hy => ?_⟩
    rcases hy.cases_head with rfl | ⟨z, hz, hy⟩
    · rw [hpath]
      exact h _ (.failures (x := x) hfails)
    · obtain ⟨g, hg, hz⟩ := ErrorRecord.gives_failuresDetail_iff.mp hz
      have htold := forall_of_forall₂ (hgroups.imp fun _ _ => forall_of_forall₂)
      exact htold g hg z hz y hy
  worded {code c} hwords hpath w words := .of_addError fun u c' w' hrun => by
    cases hrun
    refine ⟨_, rfl, fun y hy => ?_⟩
    rw [ErrorRecord.eq_of_holds_of_plain (fun ds hds => by cases hds) hy, hpath]
    exact h _ (.worded hwords)

/-! ## Whole runs -/

section Runs

variable {env : Setting σ} {mode : Mode}

/-- Every error record that a run adds, if it ends by a value, holds only what
was told by a call of the run. -/
theorem Call.tells_of_run {f : Call σ} {r : Value} {c' : Context} {w' : World σ}
    (h : f.run env mode = (.ok r, c', w')) :
    ∃ es, c'.errors = f.context.errors ++ es ∧ ∀ e ∈ es, ∀ x, e.Holds x →
      ∃ g, Call.Reaches env mode f g ∧ g.Tells env x := by
  have hwalks :
      (telling σ fun x => ∃ g, Call.Reaches env mode f g ∧ g.Tells env x).Walks env mode f :=
    Pairing.walks fun g hg => telling_settings fun x hx => ⟨g, hg, hx⟩
  exact (hwalks r c' w' h).2

namespace Validate

/-- Asking does not move. -/
theorem path_of_ask {test : Act σ (Reply σ)} {answer : Option (Except Fault Bool)}
    {c c' : Context} {w w' : World σ} (h : (ask mode test).runIn c w = (.ok answer, c', w')) :
    c'.path = c.path := by
  rw [runIn_ask] at h
  split at h
  · cases h
    rfl
  · cases h
    rfl
  · cases mode with
    | immediate =>
        cases h
        rfl
    | awaited =>
        simp only at h
        split at h <;> cases h <;> rfl

/-- A rule adds errors at the place of the context, of its code and without
details. -/
theorem telling_askRule {rule : Rule} {s : Schema} {v : Value} {c : Context} {w : World σ}
    (h : ∀ words, Q ⟨c.path, words, ruleCode rule, none⟩) :
    Telling Q (· = ·) c w (askRule env mode rule s v) := by
  have hworded : ∀ c₁ w₁ words, c₁.path = c.path → Telling Q (· = ·) c₁ w₁
      (Engine.addWorded (σ := σ) (ruleCode rule) words none) := by
    intro c₁ w₁ words hpath
    refine .of_addError fun u c' w' hrun => ?_
    cases hrun
    refine ⟨_, rfl, fun x hx => ?_⟩
    rw [ErrorRecord.eq_of_holds_of_plain (fun ds hds => by cases hds) hx, hpath]
    exact h words
  refine .bind (Pairing.ask (L := telling σ Q) mode _) fun answer _ c₁ w₁ hask _ => ?_
  have hpath := path_of_ask hask
  split
  · exact (telling σ Q).pure c₁ w₁ rfl
  · exact (telling σ Q).pure c₁ w₁ rfl
  · exact hworded c₁ w₁ _ hpath
  · exact hworded c₁ w₁ _ hpath

theorem path_of_askRule {rule : Rule} {s : Schema} {v : Value} {c c' : Context} {w w' : World σ}
    {u : Unit} (h : (askRule env mode rule s v).runIn c w = (.ok u, c', w')) :
    c'.path = c.path := by
  obtain ⟨answer, c₁, w₁, hask, hrest⟩ := Engine.runIn_bind_ok_iff.mp h
  rw [← path_of_ask hask]
  split at hrest <;> cases hrest <;> rfl

theorem telling_askRules {rules : List Rule} {s : Schema} {v : Value} {c : Context} {w : World σ}
    (h : ∀ rule ∈ rules, ∀ words, Q ⟨c.path, words, ruleCode rule, none⟩) :
    Telling Q (· = ·) c w (askRules env mode s v rules) := by
  induction rules generalizing c w with
  | nil => exact (telling σ Q).pure c w rfl
  | cons rule rules ih =>
      refine .bind (telling_askRule (h rule List.mem_cons_self)) fun _ _ c₁ w₁ hrule _ => ?_
      refine ih fun other hother => ?_
      rw [path_of_askRule hrule]
      exact h other (List.mem_cons_of_mem _ hother)

/-- A whole value is refused with some errors, from some entry point of the
mode. -/
def Refuses (env : Setting σ) (mode : Mode) (depth : Nat) (s : Schema) (v : Value) (w : World σ)
    (es : List ErrorRecord) : Prop :=
  match mode with
  | .immediate => ∃ entry w', (immediate env depth entry s v).runIn w = (.ok (.refused es), w')
  | .awaited => ∃ w', (awaited env depth s v).runIn w = (.ok (.refused es), w')

variable {depth : Nat} {s : Schema} {v : Value} {w : World σ} {es : List ErrorRecord}

theorem Refuses.exists_run (h : Refuses env mode depth s v w es) :
    ∃ r c w', (checkWhole env mode depth s v).runIn {} w = (.ok r, c, w') ∧ c.errors = es := by
  cases mode with
  | immediate =>
      obtain ⟨entry, w', h⟩ := h
      obtain ⟨r, c, hrun, -, hfinish⟩ := runIn_immediate_ok_iff.mp h
      exact ⟨r, c, w', hrun, (finish_eq_refused_iff.mp hfinish).2.2.symm⟩
  | awaited =>
      obtain ⟨w', h⟩ := h
      obtain ⟨r, c, hrun, hfinish⟩ := runIn_awaited_ok_iff.mp h
      exact ⟨r, c, w', hrun, (finish_eq_refused_iff.mp hfinish).2.2.symm⟩

/-- An error record stands in the refusal of a whole value, however deep. -/
def Found (env : Setting σ) (mode : Mode) (depth : Nat) (s : Schema) (v : Value) (w : World σ)
    (x : ErrorRecord) : Prop :=
  ∃ es, Refuses env mode depth s v w es ∧ ∃ e ∈ es, e.Holds x

/-- What stands in the refusal of a whole value is of a kind, if the check tells
only such, and the rules do, whose errors are at the root. -/
theorem Found.of_telling {Q : ErrorRecord → Prop} {x : ErrorRecord}
    (hcheck : Telling Q (· = ·) {} w (check env mode depth s v))
    (hrules : ∀ rule ∈ env.rules, ∀ words, Q ⟨[], words, ruleCode rule, none⟩)
    (h : Found env mode depth s v w x) : Q x := by
  obtain ⟨es, hrefuses, e, he, hx⟩ := h
  obtain ⟨r, c, w', hrun, rfl⟩ := hrefuses.exists_run
  obtain ⟨c₁, w₁, hrun, hrest⟩ := runIn_checkWhole_ok_iff.mp hrun
  obtain ⟨-, fs, hfs, htold⟩ := hcheck r c₁ w₁ hrun
  have hfs : c₁.errors = fs := hfs
  split at hrest
  · rename_i hclean
    have hpath : c₁.path = [] := (restored_of_check hrun).path
    have hasked : Telling Q (· = ·) c₁ w₁ (askRules env mode s v env.rules) :=
      telling_askRules fun rule hrule words => hpath ▸ hrules rule hrule words
    obtain ⟨-, gs, hgs, hcoded⟩ := hasked () c w' hrest
    rw [hgs, List.isEmpty_iff.mp hclean, List.nil_append] at he
    exact hcoded e he x hx
  · obtain ⟨rfl, rfl⟩ := hrest
    exact htold e (hfs ▸ he) x hx

/-- What stands in the refusal of a whole value was told by a call of the check,
or has the code of a rule. -/
theorem Found.told {x : ErrorRecord} (h : Found env mode depth s v w x) :
    (∃ g, Call.Reaches env mode ⟨depth, s, v, {}, w⟩ g ∧ g.Tells env x) ∨
      ∃ rule ∈ env.rules, x.code = ruleCode rule := by
  have hcheck : Telling (fun x =>
      (∃ g, Call.Reaches env mode ⟨depth, s, v, {}, w⟩ g ∧ g.Tells env x) ∨
        ∃ rule ∈ env.rules, x.code = ruleCode rule) (· = ·) {} w (check env mode depth s v) := by
    intro r c w' hrun
    obtain ⟨fs, hfs, htold⟩ := Call.tells_of_run (f := ⟨depth, s, v, {}, w⟩) hrun
    exact ⟨⟨r, rfl⟩, fs, hfs, fun e he y hy => .inl (htold e he y hy)⟩
  exact h.of_telling hcheck fun rule hrule _ => .inr ⟨rule, hrule, rfl⟩

end Validate

end Runs

end Conform
