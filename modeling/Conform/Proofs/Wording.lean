import Conform.Proofs.Foretelling
import Conform.Proofs.Record

/-!
# What templates can change

A template is looked up wherever a check fails, also in attempts whose errors are
never seen, and the number of errors of an attempt decides which option of a union
wins. Yet templates say nothing but words. An error record **without words** is the
record with no message, in which the failures of attempts, however deep, have no
messages either.

Two runs that differ in the templates alone are alike step by step: their contexts are
the same without words, and their worlds are equal. So they accept the same values as
the same results, end by the same faults, find the same errors but for the words, and
call the same callbacks on the same values in the same order.

A template that fails ends the check, also where the other run goes on. So the runs are
alike unless one of them ends by a fault that its templates can end by.

## Main results

* `Wording.settings` — a setting is like itself under other templates.
* `Setting.Texts.words` — templates that are texts give words, but for an integer that cannot
  be written.
* `templates_change_words_only` — whole values have the same outcome but for words.
-/

namespace Conform

open Traverse

/-! ## Error records without words -/

mutual

/-- An error record without words. -/
def ErrorRecord.unworded : RecordOf Detail → RecordOf Detail
  | ⟨path, _, code, details⟩ => ⟨path, none, code, unwordedDetails details⟩

/-- Error records without words. -/
def ErrorRecord.unwordedAll : List (RecordOf Detail) → List (RecordOf Detail)
  | [] => []
  | e :: es => unworded e :: unwordedAll es

/-- Groups of error records without words. -/
def ErrorRecord.unwordedGroups : List (List (RecordOf Detail)) → List (List (RecordOf Detail))
  | [] => []
  | g :: gs => unwordedAll g :: unwordedGroups gs

/-- A detail without words: a value is as it was. -/
def ErrorRecord.unwordedDetail : Detail → Detail
  | .value v => .value v
  | .failures groups => .failures (unwordedGroups groups)

/-- Details without words. -/
def ErrorRecord.unwordedDetails : Option (List (Key × Detail)) → Option (List (Key × Detail))
  | none => none
  | some ds => some (unwordedEntries ds)

/-- Details with their names, without words. -/
def ErrorRecord.unwordedEntries : List (Key × Detail) → List (Key × Detail)
  | [] => []
  | (k, d) :: ds => (k, unwordedDetail d) :: unwordedEntries ds

end

namespace ErrorRecord

theorem unwordedAll_eq_map (es : List ErrorRecord) : unwordedAll es = es.map unworded := by
  induction es with
  | nil => rfl
  | cons e es ih => rw [unwordedAll, ih, List.map_cons]

theorem unwordedGroups_eq_map (groups : List (List ErrorRecord)) :
    unwordedGroups groups = groups.map (List.map unworded) := by
  induction groups with
  | nil => rfl
  | cons g groups ih => rw [unwordedGroups, ih, unwordedAll_eq_map, List.map_cons]

/-- The failures of attempts lose their words one by one. -/
theorem unwordedDetails_failuresDetail (name : String) (groups : List (List ErrorRecord)) :
    unwordedDetails (failuresDetail name groups) =
      failuresDetail name (groups.map (List.map unworded)) := by
  simp [failuresDetail, unwordedDetails, unwordedEntries, unwordedDetail, unwordedGroups_eq_map]

/-- Lists of records are the same without words if they are so one by one. -/
theorem forall₂_unworded_iff {es es' : List ErrorRecord} :
    List.Forall₂ (fun e e' => unworded e = unworded e') es es' ↔
      es.map unworded = es'.map unworded := by
  rw [← List.forall₂_eq_eq_eq, List.forall₂_map_left_iff, List.forall₂_map_right_iff]

theorem forall₂_groups_iff {groups groups' : List (List ErrorRecord)} :
    List.Forall₂ (List.Forall₂ fun e e' => unworded e = unworded e') groups groups' ↔
      groups.map (List.map unworded) = groups'.map (List.map unworded) := by
  have hsame : List.Forall₂ (fun e e' => unworded e = unworded e') =
      fun es es' => es.map unworded = es'.map unworded :=
    funext₂ fun _ _ => propext forall₂_unworded_iff
  rw [← List.forall₂_eq_eq_eq, List.forall₂_map_left_iff, List.forall₂_map_right_iff, hsame]

end ErrorRecord

/-- An outcome whose errors are without words. -/
def Outcome.unworded : Outcome → Outcome
  | .accepted v => .accepted v
  | .refused es => .refused (es.map ErrorRecord.unworded)

/-! ## Contexts without words -/

namespace Context

/-- A context whose errors are without words. -/
def unworded (c : Context) : Context := { c with errors := c.errors.map ErrorRecord.unworded }

theorem unworded_push (c : Context) (k : Key) : (c.push k).unworded = c.unworded.push k := rfl

theorem unworded_pop (c : Context) : c.pop.unworded = c.unworded.pop := rfl

theorem unworded_afresh (c : Context) : c.afresh.unworded = c.unworded.afresh := rfl

theorem unworded_resume (c copied : Context) :
    (c.resume copied).unworded = c.unworded.resume copied.unworded := rfl

theorem unworded_markAwaiting (c : Context) :
    c.markAwaiting.unworded = c.unworded.markAwaiting := rfl

theorem unworded_fork (c : Context) : c.fork.unworded = c.unworded.fork := rfl

theorem unworded_mark (c : Context) (v : Value) : (c.mark v).unworded = c.unworded.mark v := by
  unfold mark
  cases v.identity? with
  | none => rfl
  | some i => exact apply_ite unworded _ _ _

theorem unworded_unmark (c : Context) (v : Value) :
    (c.unmark v).unworded = c.unworded.unmark v := by
  unfold unmark
  cases v.identity? <;> rfl

theorem unworded_addError (c : Context) (e : ErrorRecord) :
    (c.addError e).unworded = c.unworded.addError (ErrorRecord.unworded e) := by
  simp [unworded, addError]

theorem isEmpty_unworded (c : Context) : c.unworded.errors.isEmpty = c.errors.isEmpty := by
  simp [unworded]

section Same

variable {c c' : Context} (hc : c.unworded = c'.unworded)
include hc

theorem path_eq_of_unworded : c.path = c'.path := by
  have h : c.unworded.path = c'.unworded.path := by rw [hc]
  exact h

theorem awaiting_eq_of_unworded : c.awaiting = c'.awaiting := by
  have h : c.unworded.awaiting = c'.unworded.awaiting := by rw [hc]
  exact h

theorem errors_eq_of_unworded :
    c.errors.map ErrorRecord.unworded = c'.errors.map ErrorRecord.unworded := by
  have h : c.unworded.errors = c'.unworded.errors := by rw [hc]
  exact h

/-- Adding errors that are the same without words. -/
theorem unworded_addError_eq {x x' : ErrorRecord}
    (hx : ErrorRecord.unworded x = ErrorRecord.unworded x') :
    (c.addError x).unworded = (c'.addError x').unworded := by
  rw [unworded_addError, unworded_addError, hc, hx]

end Same

end Context

/-! ## Templates -/

/-- A setting under other templates. -/
def Setting.worded {σ : Type} (env : Setting σ) (catalog : Catalog) (scope : Scope) :
    Setting σ :=
  { env with catalog, scope }

namespace Template

theorem spelled_replacement (st : Store) (details : Details) (name : List Char) :
    Spelled (replacement st details name) := by
  unfold replacement
  split
  · split
    · exact .ok _
    · exact (Spelled.written _ _).map _
  · exact .ok _

theorem spelled_substitute (st : Store) (details : Details) (cs : List Char) :
    Spelled (substitute st details cs) := by
  fun_induction substitute st details cs with
  | case1 cs name rest h _ ih =>
      exact (spelled_replacement st details name).bind fun text => ih.bind fun _ => .ok _
  | case2 => exact .ok _
  | case3 c rest h ih => exact ih.bind fun _ => .ok _

/-- A text template gives words, unless an integer in them cannot be written. -/
theorem spelled_render_text (text : String) (st : Store) (details : Option Details) :
    Spelled ((Template.text text).render st details) := by
  rcases details with _ | _ | ⟨d, ds⟩
  · exact .ok _
  · exact .ok _
  · exact (spelled_substitute st _ _).map _

end Template

theorem Catalog.mem_of_lookup? {catalog : Catalog} {code : String} {t : Option Template}
    (h : catalog.lookup? code = some t) : (code, t) ∈ catalog.entries := by
  obtain ⟨before, after, hentries, -⟩ := List.lookup_eq_some_iff.mp h
  rw [hentries]
  exact List.mem_append_right before List.mem_cons_self

/-- A template in force is an entry of the scope or of the catalog. -/
theorem Catalog.mem_of_find? {catalog : Catalog} {scope : Scope} {code : String} {t : Template}
    (h : catalog.find? scope code = some t) :
    (code, some t) ∈ scope.entries ∨ (code, some t) ∈ catalog.entries := by
  unfold Catalog.find? at h
  split at h
  · rename_i hscope
    exact .inl (mem_of_lookup? (h ▸ hscope))
  · cases hlookup : catalog.lookup? code with
    | none => simp [hlookup] at h
    | some found =>
        have hfound : found = some t := by simpa [hlookup] using h
        exact .inr (mem_of_lookup? (hfound ▸ hlookup))

/-- All templates of the catalog and of the scope are texts. -/
def Setting.Texts {σ : Type} (env : Setting σ) : Prop :=
  ∀ e ∈ env.scope.entries ++ env.catalog.entries, ∀ t, e.2 = some t → ∃ text, t = .text text

/-- Templates that are all texts give words, unless an integer in them cannot be written. -/
theorem Setting.Texts.words {σ : Type} {env : Setting σ} (h : env.Texts) : env.Words := by
  intro st code words details
  unfold Catalog.format
  cases ht : env.catalog.find? env.scope code with
  | none => exact .ok words
  | some t =>
      obtain ⟨text, rfl⟩ := h _ (List.mem_append.mpr (Catalog.mem_of_find? ht)) t rfl
      exact Template.spelled_render_text text st details

/-- The templates in force can fail to give words, by a fault. -/
def Setting.Miswords {σ : Type} (env : Setting σ) (f : Fault) : Prop :=
  ∃ st code words details, env.catalog.format env.scope st code words details = .error f

namespace Wording

variable {σ : Type}

/-- Two runs end alike: by alike values or by the same fault, on contexts that are the
same without words, and in the same world; or one of them ends by a fault of its templates,
which are `P` and `P'`. -/
inductive EndAlike (P P' : Fault → Prop) {α β : Type} (R : α → β → Prop) :
    Except Fault α × Context × World σ → Except Fault β × Context × World σ → Prop
  | value {a : α} {b : β} (h : R a b) {c c' : Context} (hc : c.unworded = c'.unworded)
      (w : World σ) : EndAlike P P' R (.ok a, c, w) (.ok b, c', w)
  | fault (f : Fault) {c c' : Context} (hc : c.unworded = c'.unworded) (w : World σ) :
      EndAlike P P' R (.error f, c, w) (.error f, c', w)
  | left {f : Fault} (h : P f) (c : Context) (w : World σ)
      (out : Except Fault β × Context × World σ) : EndAlike P P' R (.error f, c, w) out
  | right {f : Fault} (h : P' f) (out : Except Fault α × Context × World σ) (c : Context)
      (w : World σ) : EndAlike P P' R out (.error f, c, w)

/-- Works that end alike when they start on contexts that are the same without words. -/
def Alike (P P' : Fault → Prop) {α β : Type} (R : α → β → Prop) (e : Engine σ α)
    (e' : Engine σ β) : Prop :=
  ∀ c c' w, c.unworded = c'.unworded → EndAlike P P' R (e.runIn c w) (e'.runIn c' w)

variable {P P' : Fault → Prop}

theorem Alike.bind {α β γ δ : Type} {R : α → β → Prop} {S : γ → δ → Prop} {e : Engine σ α}
    {e' : Engine σ β} {k : α → Engine σ γ} {k' : β → Engine σ δ} (h : Alike P P' R e e')
    (hk : ∀ a b, R a b → Alike P P' S (k a) (k' b)) : Alike P P' S (e >>= k) (e' >>= k') := by
  intro c c' w hc
  have hrun := h c c' w hc
  rw [Engine.runIn_bind, Engine.runIn_bind]
  generalize e.runIn c w = out, e'.runIn c' w = out' at hrun ⊢
  cases hrun with
  | value hab hc₁ w₁ => exact hk _ _ hab _ _ w₁ hc₁
  | fault f hc₁ w₁ => exact .fault f hc₁ w₁
  | left hf c₁ w₁ out => exact .left hf c₁ w₁ _
  | right hf out c₁ w₁ => exact .right hf _ c₁ w₁

/-- Work between two changes of the context that do not look at words. -/
theorem Alike.bracket {α β : Type} {R : α → β → Prop} {e : Engine σ α} {e' : Engine σ β}
    {enter leave : Context → Context} (henter : ∀ c, (enter c).unworded = enter c.unworded)
    (hleave : ∀ c, (leave c).unworded = leave c.unworded) (h : Alike P P' R e e') :
    Alike P P' R (Engine.bracket enter leave e) (Engine.bracket enter leave e') := by
  intro c c' w hc
  have hrun := h (enter c) (enter c') w (by rw [henter, henter, hc])
  rw [Engine.runIn_bracket, Engine.runIn_bracket]
  generalize e.runIn (enter c) w = out, e'.runIn (enter c') w = out' at hrun ⊢
  cases hrun with
  | value hab hc₁ w₁ => exact .value hab (by rw [hleave, hleave, hc₁]) w₁
  | fault f hc₁ w₁ => exact .fault f (by rw [hleave, hleave, hc₁]) w₁
  | left hf c₁ w₁ out => exact .left hf _ w₁ _
  | right hf out c₁ w₁ => exact .right hf _ _ w₁

theorem Alike.onCopy {α β : Type} {R : α → β → Prop} {e : Engine σ α} {e' : Engine σ β}
    (h : Alike P P' R e e') : Alike P P' R (Engine.onCopy e) (Engine.onCopy e') := by
  intro c c' w hc
  have hrun := h c.afresh c'.afresh w
    (by rw [Context.unworded_afresh, Context.unworded_afresh, hc])
  rw [Engine.runIn_onCopy, Engine.runIn_onCopy]
  generalize e.runIn c.afresh w = out, e'.runIn c'.afresh w = out' at hrun ⊢
  have hresume : ∀ {d d' : Context}, d.unworded = d'.unworded →
      (c.resume d).unworded = (c'.resume d').unworded := fun hd => by
    rw [Context.unworded_resume, Context.unworded_resume, hc, hd]
  cases hrun with
  | value hab hc₁ w₁ => exact .value hab (hresume hc₁) w₁
  | fault f hc₁ w₁ => exact .fault f (hresume hc₁) w₁
  | left hf c₁ w₁ out => exact .left hf _ w₁ _
  | right hf out c₁ w₁ => exact .right hf _ _ w₁

theorem Alike.speculate {α β : Type} {R : α → β → Prop} {e : Engine σ α} {e' : Engine σ β}
    (h : Alike P P' R e e') :
    Alike P P' (fun p q => R p.1 q.1 ∧
        List.Forall₂ (fun x y => ErrorRecord.unworded x = ErrorRecord.unworded y) p.2 q.2)
      (Engine.speculate e) (Engine.speculate e') := by
  intro c c' w hc
  have hrun := h c.fork c'.fork w (by rw [Context.unworded_fork, Context.unworded_fork, hc])
  rw [Engine.runIn_speculate, Engine.runIn_speculate]
  generalize e.runIn c.fork w = out, e'.runIn c'.fork w = out' at hrun ⊢
  cases hrun with
  | value hab hc₁ w₁ =>
      rename_i fork fork'
      have herrors := Context.errors_eq_of_unworded hc₁
      refine .value ⟨hab, ErrorRecord.forall₂_unworded_iff.mpr herrors⟩ ?_ w₁
      show { c.unworded with awaiting := c.awaiting || fork.awaiting } =
        { c'.unworded with awaiting := c'.awaiting || fork'.awaiting }
      rw [hc, Context.awaiting_eq_of_unworded hc, Context.awaiting_eq_of_unworded hc₁]
  | fault f hc₁ w₁ => exact .fault f hc w₁
  | left hf c₁ w₁ out => exact .left hf _ w₁ _
  | right hf out c₁ w₁ => exact .right hf _ _ w₁

/-- Work that depends on a test that does not look at words. -/
theorem Alike.branch {α β : Type} {R : α → β → Prop} {test : Context → Bool} {e k : Engine σ α}
    {e' k' : Engine σ β} (htest : ∀ c, test c.unworded = test c) (h : Alike P P' R e e')
    (hk : Alike P P' R k k') :
    Alike P P' R (Engine.context >>= fun c => if test c then e else k)
      (Engine.context >>= fun c => if test c then e' else k') := by
  intro c c' w hc
  rw [Engine.runIn_bind_of_ok _ (Engine.runIn_context c w),
    Engine.runIn_bind_of_ok _ (Engine.runIn_context c' w), ← htest c, hc, htest c']
  cases test c' with
  | true => exact h c c' w hc
  | false => exact hk c c' w hc

/-- Being the same but for words as a likeness. -/
def likeness (σ : Type) (P P' : Fault → Prop) : Likeness σ σ where
  record x y := ErrorRecord.unworded x = ErrorRecord.unworded y
  work := Alike P P'
  pure h _ _ w hc := .value h hc w
  bind := Alike.bind
  throw _ f _ _ w hc := .fault f hc w
  store _ _ w hc := .value rfl hc w
  addWorded _ _ _ _ _ w hc :=
    .value rfl (Context.unworded_addError_eq hc (by rw [Context.path_eq_of_unworded hc])) w
  within k := .bracket (fun c => c.unworded_push k) Context.unworded_pop
  onCopy := Alike.onCopy
  speculate := Alike.speculate
  enter v _ _ _ _ _ _ hrefused h hk :=
    .branch (fun _ => rfl) hrefused
      (.bind (.bracket (fun c => c.unworded_mark v) (fun c => c.unworded_unmark v) h) hk)
  clean := .branch Context.isEmpty_unworded

/-! ## A setting is like itself under other templates -/

/-- An act of the host does not see the context. -/
theorem alike_ofAct {α : Type} (act : Act σ α) :
    Alike P P' (· = ·) (Engine.ofAct act) (Engine.ofAct act) := by
  intro c c' w hc
  rw [Engine.runIn_ofAct, Engine.runIn_ofAct]
  rcases act.runIn w with ⟨f | a, w₁⟩
  · exact .fault f hc w₁
  · exact .value rfl hc w₁

section Settings

variable (env : Setting σ) (catalog : Catalog) (scope : Scope)

mutual

theorem applyTo_worded (step : Step) (v : Value) :
    step.applyTo (env.worded catalog scope) v = step.applyTo env v := by
  cases step with
  | pipeline steps => exact applyAll_worded steps v
  | _ => rfl

theorem applyAll_worded (steps : List Step) (v : Value) :
    Step.applyAll (env.worded catalog scope) steps v = Step.applyAll env steps v := by
  cases steps with
  | nil => rfl
  | cons step steps =>
      simp only [Step.applyAll, applyTo_worded step v]
      exact congrArg _ (funext fun u => applyAll_worded steps u)

end

end Settings

theorem alike_ask (mode : Mode) (test : Act σ (Reply σ)) :
    Alike P P' (· = ·) (ask mode test) (ask mode test) := by
  intro c c' w hc
  have hnoted : c.markAwaiting.unworded = c'.markAwaiting.unworded := by
    rw [Context.unworded_markAwaiting, Context.unworded_markAwaiting, hc]
  rw [runIn_ask, runIn_ask]
  rcases test.runIn w with ⟨f | v | later, w₁⟩
  · exact .value rfl hc w₁
  · exact .value rfl hc w₁
  · cases mode with
    | immediate => exact .value rfl hnoted w₁
    | awaited =>
        dsimp only
        rcases later.runIn w₁ with ⟨f | v, w₂⟩
        · exact .value rfl hnoted w₂
        · exact .value rfl hnoted w₂

variable {env env' : Setting σ}

/-- Errors for violations that are the same but for the words of the failures in them, under
two choices of templates. -/
theorem alike_addViolation {x x' : Violation} (hcode : x.code = x'.code) (hown : x.own = x'.own)
    (hwords : x.words = x'.words)
    (hdetails : ErrorRecord.unwordedDetails x.details = ErrorRecord.unwordedDetails x'.details) :
    Alike env.Miswords env'.Miswords (· = ·) (Engine.addViolation env x)
      (Engine.addViolation env' x') := by
  intro c c' w hc
  have hrecord : ∀ message message' : Option String,
      ErrorRecord.unworded ⟨c.path, message, .builtin x.code, x.details⟩ =
        ErrorRecord.unworded ⟨c'.path, message', .builtin x'.code, x'.details⟩ := fun _ _ => by
    rw [ErrorRecord.unworded, ErrorRecord.unworded, Context.path_eq_of_unworded hc, hcode, hdetails]
  rw [Engine.runIn_addViolation, Engine.runIn_addViolation, Violation.message, Violation.message,
    ← hown, ← hwords]
  cases x.words with
  | error f => exact .fault f hc w
  | ok default =>
      cases x.own with
      | some words => exact .value rfl (Context.unworded_addError_eq hc (hrecord _ _)) w
      | none =>
          dsimp only
          cases h : env.catalog.format env.scope w.store (Code.builtin x.code).text default
            x.details with
          | error f => exact .left ⟨_, _, _, _, h⟩ c w _
          | ok message =>
              cases h' : env'.catalog.format env'.scope w.store (Code.builtin x'.code).text default
                x'.details with
              | error f => exact .right ⟨_, _, _, _, h'⟩ _ c' w
              | ok message' =>
                  exact .value rfl (Context.unworded_addError_eq hc (hrecord _ _)) w

/-- A setting is like itself under other templates. -/
theorem settings (env : Setting σ) (catalog catalog' : Catalog) (scope scope' : Scope)
    (mode : Mode) :
    (likeness σ (env.worded catalog scope).Miswords (env.worded catalog' scope').Miswords).Settings
      (env.worded catalog scope) mode (env.worded catalog' scope') mode where
  resolve id := alike_ofAct (env.resolve id)
  applyStep step v := by
    intro c c' w hc
    rw [runIn_applyStep, runIn_applyStep, applyTo_worded, applyTo_worded]
    rcases (step.applyTo env v).runIn w with ⟨f | u, w₁⟩
    · have hrecord := Context.path_eq_of_unworded hc
      exact .value rfl (Context.unworded_addError_eq hc (by rw [hrecord])) w₁
    · exact .value rfl hc w₁
  ask id v := alike_ask mode (env.test id v)
  addViolation x := alike_addViolation rfl rfl rfl rfl
  addFailures x name groups groups' h := by
    refine alike_addViolation rfl rfl rfl ?_
    rw [ErrorRecord.unwordedDetails_failuresDetail, ErrorRecord.unwordedDetails_failuresDetail,
      ErrorRecord.forall₂_groups_iff.mp h]

end Wording

/-! ## Whole values -/

namespace Validate

variable {σ : Type}

/-- How validating ends, without words. -/
def unworded (r : Except Fault Outcome × World σ) : Except Fault Outcome × World σ :=
  (r.1.map Outcome.unworded, r.2)

theorem areWritable_unworded (es : List ErrorRecord) :
    ErrorRecord.areWritable (es.map ErrorRecord.unworded) = ErrorRecord.areWritable es := by
  unfold ErrorRecord.areWritable
  rw [List.all_map]
  refine congrArg es.all (funext fun e => ?_)
  cases e
  rfl

theorem unworded_finish (r : Value) {c c' : Context} (hc : c.unworded = c'.unworded) :
    (finish r c.errors).map Outcome.unworded = (finish r c'.errors).map Outcome.unworded := by
  have herrors := Context.errors_eq_of_unworded hc
  have hempty : c.errors.isEmpty = c'.errors.isEmpty := by
    rw [← c.isEmpty_unworded, hc, c'.isEmpty_unworded]
  have hwritable : ErrorRecord.areWritable c.errors = ErrorRecord.areWritable c'.errors := by
    rw [← areWritable_unworded, herrors, areWritable_unworded]
  unfold finish
  rw [hempty, hwritable]
  cases c'.errors.isEmpty with
  | true => rfl
  | false =>
      cases ErrorRecord.areWritable c'.errors with
      | true => exact congrArg (fun es => Except.ok (Outcome.refused es)) herrors
      | false => rfl

/-- Validating ends by a fault that the templates in force can end by. -/
def FailsToWord (env : Setting σ) (r : Except Fault Outcome × World σ) : Prop :=
  ∃ f, r.1 = .error f ∧ env.Miswords f

variable (env : Setting σ) (catalog catalog' : Catalog) (scope scope' : Scope)

theorem checkWhole_worded (mode : Mode) (depth : Nat) (s : Schema) (v : Value) :
    Wording.Alike (env.worded catalog scope).Miswords (env.worded catalog' scope').Miswords (· = ·)
      (checkWhole (env.worded catalog scope) mode depth s v)
      (checkWhole (env.worded catalog' scope') mode depth s v) :=
  Likeness.checkWhole (Wording.settings env catalog catalog' scope scope' mode) rfl
    (fun id => Wording.alike_ask mode (env.testRule id s v)) depth

theorem unworded_immediate (depth : Nat) (entry : Entry) (s : Schema) (v : Value) (w : World σ) :
    unworded ((immediate (env.worded catalog scope) depth entry s v).runIn w) =
      unworded ((immediate (env.worded catalog' scope') depth entry s v).runIn w) ∨
    FailsToWord (env.worded catalog scope)
      ((immediate (env.worded catalog scope) depth entry s v).runIn w) ∨
    FailsToWord (env.worded catalog' scope')
      ((immediate (env.worded catalog' scope') depth entry s v).runIn w) := by
  have hrun := checkWhole_worded env catalog catalog' scope scope' .immediate depth s v {} {} w rfl
  unfold immediate
  rw [Act.runIn_bind, Act.runIn_bind, runIn_fresh, runIn_fresh]
  generalize (checkWhole (env.worded catalog scope) .immediate depth s v).runIn {} w = out,
    (checkWhole (env.worded catalog' scope') .immediate depth s v).runIn {} w = out' at hrun ⊢
  cases hrun with
  | value h hc w₁ =>
      subst h
      rename_i c c'
      simp only [Context.awaiting_eq_of_unworded hc]
      cases c'.awaiting with
      | true => exact .inl rfl
      | false => exact .inl (Prod.ext (unworded_finish _ hc) rfl)
  | fault f hc w₁ => exact .inl rfl
  | left hf c w₁ out => exact .inr (.inl ⟨_, rfl, hf⟩)
  | right hf out c w₁ => exact .inr (.inr ⟨_, rfl, hf⟩)

theorem unworded_awaited (depth : Nat) (s : Schema) (v : Value) (w : World σ) :
    unworded ((awaited (env.worded catalog scope) depth s v).runIn w) =
      unworded ((awaited (env.worded catalog' scope') depth s v).runIn w) ∨
    FailsToWord (env.worded catalog scope)
      ((awaited (env.worded catalog scope) depth s v).runIn w) ∨
    FailsToWord (env.worded catalog' scope')
      ((awaited (env.worded catalog' scope') depth s v).runIn w) := by
  have hrun := checkWhole_worded env catalog catalog' scope scope' .awaited depth s v {} {} w rfl
  unfold awaited
  rw [Act.runIn_bind, Act.runIn_bind, runIn_fresh, runIn_fresh]
  generalize (checkWhole (env.worded catalog scope) .awaited depth s v).runIn {} w = out,
    (checkWhole (env.worded catalog' scope') .awaited depth s v).runIn {} w = out' at hrun ⊢
  cases hrun with
  | value h hc w₁ =>
      subst h
      exact .inl (Prod.ext (unworded_finish _ hc) rfl)
  | fault f hc w₁ => exact .inl rfl
  | left hf c w₁ out => exact .inr (.inl ⟨_, rfl, hf⟩)
  | right hf out c w₁ => exact .inr (.inr ⟨_, rfl, hf⟩)

end Validate

/-- Two ways of validating, under two choices of templates, end alike but for words, unless
one of them ends by a fault of its templates. -/
def Validate.SameButWords {σ : Type} (env env' : Setting σ) (act act' : Act σ Outcome) : Prop :=
  ∀ w, unworded (act.runIn w) = unworded (act'.runIn w) ∨
    FailsToWord env (act.runIn w) ∨ FailsToWord env' (act'.runIn w)

/-- Where all templates are texts, they fail by an integer that cannot be written. -/
theorem Validate.FailsToWord.of_texts {σ : Type} {env : Setting σ} (htexts : env.Texts)
    {r : Except Fault Outcome × World σ} (h : FailsToWord env r) :
    r.1 = .error .tooManyDigits := by
  obtain ⟨f, hfault, st, code, words, details, hformat⟩ := h
  rw [hfault, htexts.words st code words details f hformat]

open Validate in
/-- Templates change nothing but words. Under any two choices of templates, validating a
whole value, with or without waiting, ends in the same way: with the same result, with
errors that are the same without words, in the same order, or with the same fault. The worlds
left behind are equal, and if a record is kept of the callbacks that are called, the records
are equal. The exception is a run that ends by a fault by which its templates can fail; there is
none where templates never fail, and where they are texts the fault is that an integer cannot
be written. -/
theorem templates_change_words_only {σ : Type} (env : Setting σ) (depth : Nat) (entry : Entry)
    (s : Schema) (v : Value) (catalog catalog' : Catalog) (scope scope' : Scope) :
    SameButWords (env.worded catalog scope) (env.worded catalog' scope')
      (immediate (env.worded catalog scope) depth entry s v)
      (immediate (env.worded catalog' scope') depth entry s v) ∧
    SameButWords (env.worded catalog scope) (env.worded catalog' scope')
      (awaited (env.worded catalog scope) depth s v)
      (awaited (env.worded catalog' scope') depth s v) ∧
    SameButWords ((env.worded catalog scope).recorded Event.mk)
      ((env.worded catalog' scope').recorded Event.mk)
      (immediate ((env.worded catalog scope).recorded Event.mk) depth entry s v)
      (immediate ((env.worded catalog' scope').recorded Event.mk) depth entry s v) ∧
    SameButWords ((env.worded catalog scope).recorded Event.mk)
      ((env.worded catalog' scope').recorded Event.mk)
      (awaited ((env.worded catalog scope).recorded Event.mk) depth s v)
      (awaited ((env.worded catalog' scope').recorded Event.mk) depth s v) := by
  -- the record is kept by a host, so the last two are cases of the first two
  exact ⟨unworded_immediate env catalog catalog' scope scope' depth entry s v,
    unworded_awaited env catalog catalog' scope scope' depth s v,
    unworded_immediate (env.recorded Event.mk) catalog catalog' scope scope' depth entry s v,
    unworded_awaited (env.recorded Event.mk) catalog catalog' scope scope' depth s v⟩

/-- A list of lists, or a text. -/
def listsOrText : Schema := .union (.array (.array .any {}) {}) [.string {}]

/-- A template for values of the wrong kind, which tells the kind. -/
def kindCatalog : Catalog := ⟨[("invalid_type", some (.text "got \x7b\x7breceived\x7d\x7d"))]⟩

/-- A template for failed unions, which tells the failures of the options. -/
def optionsScope : Scope := ⟨[("union.invalid", some (.text "no: \x7b\x7bunion_errors\x7d\x7d"))]⟩

/-- A list with a number in it is neither. It is refused under both templates and under
none, with the errors of the options inside the one error. -/
theorem templates_change_words_only_listsOrText :
    ((Validate.immediate (idleHost.worded kindCatalog optionsScope) 3 .safeParse listsOrText
      (.list [.int 5])).runIn { host := () }).1.toOption.map Outcome.isAccepted = some false ∧
    Validate.unworded ((Validate.immediate (idleHost.worded kindCatalog optionsScope) 3 .safeParse
        listsOrText (.list [.int 5])).runIn { host := () }) =
      Validate.unworded ((Validate.immediate (idleHost.worded .empty .empty) 3 .safeParse
        listsOrText (.list [.int 5])).runIn { host := () }) := by
  have hrefused : ((Validate.immediate (idleHost.worded kindCatalog optionsScope) 3 .safeParse
      listsOrText (.list [.int 5])).runIn { host := () }).1.toOption.map Outcome.isAccepted =
        some false := by decide +kernel
  have halike := (templates_change_words_only idleHost 3 .safeParse listsOrText (.list [.int 5])
    kindCatalog .empty optionsScope .empty).1 { host := () }
  have htexts : (idleHost.worded kindCatalog optionsScope).Texts := by
    rintro e he t ht
    rcases List.mem_pair.mp he with rfl | rfl <;> exact ⟨_, (Option.some.inj ht).symm⟩
  refine ⟨hrefused, halike.resolve_right ?_⟩
  rintro (hfails | ⟨f, hfault, -⟩)
  · rw [hfails.of_texts htexts] at hrefused
    cases hrefused
  · cases hfault

end Conform
