import Conform.Proofs.Copying
import Conform.Proofs.Rechecking
import Conform.Proofs.Requiredness

/-!
# What stands in for an absent field

A schema of texts, numbers, truth values, dates or some texts and numbers may be wrapped any
number of times, in any order: it may be optional, take null, or have a default that the schema
inside accepts. What the check gives for an absent value depends on the whole row of wrappers. A
wrapper that takes null hands the absent value on, an optional one stops it, and one with a
default puts the default in its place.

The record model looks at the outermost wrappers only. It records the default of the outermost
one, and null for one that takes null or is optional. That is what stands in, with null for
nothing, but in two cases: inside a wrapper that takes null a default is lost, and the marker of
an absent value is recorded where it is the default, though nothing has that in its output.

## Main results

* `Schema.Yields` — what a wrapped schema gives for a value, without a run.
* `check_of_yields`, `yields_of_clears` — a check gives that, and nothing else.
* `recorded_default_is_stand_in` — what the record model and the output of the object have for an
  absent field.
* `default_lost_inside_nullable` — a default that the model does not have.
-/

namespace Conform

open Traverse Validate

variable {σ : Type} {env : Setting σ} {mode : Mode} {depth : Nat} {w w' : World σ}

/-! ## Single values -/

/-- A schema of texts, numbers, truth values, dates, or some texts and numbers. -/
inductive Schema.Scalar : Schema → Prop
  | string (checks : StringChecks) : Scalar (.string checks)
  | number (checks : NumberChecks) : Scalar (.number checks)
  | boolean : Scalar .boolean
  | date (checks : DateChecks) : Scalar (.date checks)
  | enumeration {first : Atom} {rest : List Atom}
      (h : ∀ a ∈ first :: rest, (∃ s, a = .text s) ∨ a.number?.isSome = true) :
      Scalar (.enumeration first rest)

/-- A value that has no parts, is no marker and is its own copy. -/
def Value.Solid (v : Value) : Prop := ∃ a, v = .atom a ∧ a.detach = a ∧ isMarker v = false

namespace Schema.Scalar

variable {s : Schema}

theorem plain (hs : s.Scalar) (st : Store) : s.Plain st := by
  cases hs <;> exact trivial

theorem wraps_eq_false (hs : s.Scalar) (f : Call σ) (hf : f.schema = s) : f.wraps = false := by
  cases hs <;> simp [Call.wraps, hf]

end Schema.Scalar

theorem ofClauses_eq_accepted {v : Value} {clauses : List (Except Fault (Option Violation))}
    (h : ∀ x ∈ clauses, x = .ok none) : Judgement.ofClauses v clauses = .ok (.accepted v) := by
  have hfirst : firstViolation clauses = .ok none := by
    induction clauses with
    | nil => rfl
    | cons x clauses ih =>
        obtain ⟨rfl, hrest⟩ := List.forall_mem_cons.mp h
        exact ih hrest
  rw [Judgement.ofClauses, hfirst]

/-- A check that is not violated for one reason is not for another that is no stronger. -/
theorem clause_eq_none_congr {α : Type} {check : Option (Check α)}
    {violated violated' : α → Except Fault Bool} {report report' : Check α → Violation}
    (h : clause check violated report = .ok none)
    (hsame : ∀ a, violated a = .ok false → violated' a = .ok false) :
    clause check violated' report' = .ok none := by
  cases check with
  | none => rfl
  | some c => simp [clause, hsame _ (eq_false_of_clause h rfl)]

/-- How a length compares with a bound does not depend on the store. -/
theorem compareSize_congr {k : Comparison} {st : Store} {size : Nat} {bound : Value} {b : Bool}
    (h : compareSize k st size bound = .ok b) (st' : Store) :
    compareSize k st' size bound = .ok b := by
  unfold compareSize compareBound at h ⊢
  split at h
  · exact h
  · cases h

/-- Whatever is of the kind of a text or a number is one. -/
theorem Atom.solid_of_sameKind {a b : Atom} (ha : (∃ s, a = .text s) ∨ a.number?.isSome = true)
    (h : a.sameKind b = true) : (Value.atom b).Solid := by
  refine ⟨b, rfl, ?_⟩
  rcases ha with ⟨s, rfl⟩ | ha
  · cases b <;> simp [sameKind, equal, count?, isBool] at h
    exact ⟨rfl, rfl⟩
  · cases a <;> simp [number?] at ha <;>
      cases b <;> simp [sameKind, equal, count?, isBool] at h <;> exact ⟨rfl, rfl⟩

/-- What is accepted as a single value is given as it is, and accepted with every store. -/
theorem Schema.Scalar.of_judge? {s : Schema} {st : Store} {v r : Value} (hs : s.Scalar)
    (h : s.judge? st v = some (.ok (.accepted r))) :
    r = v ∧ v.Solid ∧ ∀ st', s.judge? st' v = some (.ok (.accepted v)) := by
  obtain rfl := eq_of_judge? (hs.plain st) h
  refine ⟨rfl, ?_⟩
  cases hs with
  | string checks =>
      simp only [judge?, StringChecks.judge, Option.some.injEq] at h ⊢
      split at h
      · refine ⟨⟨_, rfl, rfl, rfl⟩, fun st' => ofClauses_eq_accepted fun x hx => ?_⟩
        have hnone := none_of_ofClauses h
        simp only [List.mem_cons, List.not_mem_nil, or_false, forall_eq_or_imp, forall_eq]
          at hnone hx
        obtain ⟨hmin, hmax, hlength, hpattern, hemail, hurl⟩ := hnone
        rcases hx with rfl | rfl | rfl | rfl | rfl | rfl
        · exact clause_eq_none_congr hmin fun _ h => compareSize_congr h st'
        · exact clause_eq_none_congr hmax fun _ h => compareSize_congr h st'
        · exact clause_eq_none_congr hlength fun _ h => h
        · exact hpattern
        · exact hemail
        · exact hurl
      · cases h
  | number checks =>
      simp only [judge?, NumberChecks.judge, Option.some.injEq] at h ⊢
      split at h
      · rename_i a
        split at h
        · rename_i n hn
          refine ⟨⟨a, rfl, ?_, ?_⟩, fun st' => h⟩
          · cases a <;> first | rfl | cases hn
          · cases a <;> first | rfl | cases hn
        · cases h
      · cases h
  | boolean =>
      simp only [judge?, judgeBoolean, Option.some.injEq, Except.ok.injEq] at h ⊢
      split at h
      · exact ⟨⟨_, rfl, rfl, rfl⟩, fun _ => h⟩
      · cases h
  | date checks =>
      simp only [judge?, DateChecks.judge, Option.some.injEq] at h ⊢
      split at h
      · rename_i a
        split at h
        · rename_i m hm
          refine ⟨⟨a, rfl, ?_, ?_⟩, fun st' => h⟩
          · cases a <;> first | rfl | cases hm
          · cases a <;> first | rfl | cases hm
        · cases h
      · cases h
  | enumeration hmembers =>
      simp only [judge?, judgeMember, Option.some.injEq, Except.ok.injEq] at h ⊢
      rw [ite_eq_iff] at h
      rcases h with ⟨hfound, -⟩ | ⟨-, h⟩
      · split at hfound
        · obtain ⟨b, hb, hsame⟩ := List.any_eq_true.mp hfound
          exact ⟨Atom.solid_of_sameKind (hmembers b hb) hsame, fun _ => if_pos hfound⟩
        · cases hfound
      · cases h

/-! ## Wrapped schemas -/

namespace Schema

/-- A schema of single values, wrapped any number of times. What is wrapped with a default
accepts that default. -/
inductive Wrapped (env : Setting σ) : Schema → Prop
  | scalar {s} (h : s.Scalar) : Wrapped env s
  | optional {inner} (h : Wrapped env inner) : Wrapped env (.optional inner)
  | nullable {inner} (h : Wrapped env inner) : Wrapped env (.nullable inner)
  | withDefault {inner default} (h : Wrapped env inner)
      (haccepted : ∃ mode depth w u, Gives env mode depth inner default w (.accepted u)) :
      Wrapped env (.withDefault inner default)

/-- Whether a wrapped schema gives something for an absent value. -/
def standsIn : Schema → Bool
  | optional _ => true
  | withDefault _ _ => true
  | nullable inner => inner.standsIn
  | _ => false

/-- What it gives, which may be the marker of an absent value: the default that is met first,
unless an optional schema is met before it. -/
def standIn : Schema → Value
  | nullable inner => inner.standIn
  | withDefault inner default => if isMissing default then inner.standIn else default
  | _ => .missing

/-- What a wrapped schema gives for a value that it accepts. -/
inductive Yields : Schema → Value → Value → Prop
  | scalar {s v} (hs : s.Scalar) (hv : v.Solid)
      (h : ∀ st, s.judge? st v = some (.ok (.accepted v))) : Yields s v v
  | absent {inner} : Yields (.optional inner) .missing .missing
  | optional {inner v r} (hv : isMissing v = false) (h : Yields inner v r) :
      Yields (.optional inner) v r
  | null {inner} : Yields (.nullable inner) .null .null
  | nullable {inner v r} (hv : v ≠ .null) (h : Yields inner v r) : Yields (.nullable inner) v r
  | default {inner default r} (h : Yields inner default r) :
      Yields (.withDefault inner default) .missing r
  | withDefault {inner default v r} (hv : isMissing v = false) (h : Yields inner v r) :
      Yields (.withDefault inner default) v r

namespace Yields

variable {s : Schema} {v r : Value}

/-- A value that is accepted has no parts. -/
theorem exists_atom (h : Yields s v r) : ∃ a, v = .atom a := by
  induction h with
  | scalar _ hv _ =>
      obtain ⟨a, rfl, -, -⟩ := hv
      exact ⟨a, rfl⟩
  | absent => exact ⟨_, rfl⟩
  | null => exact ⟨_, rfl⟩
  | default => exact ⟨_, rfl⟩
  | optional _ _ ih | nullable _ _ ih | withDefault _ _ ih => exact ih

/-- So there is a copy of it. -/
theorem isCopyable (h : Yields s v r) (st : Store) : st.isCopyable v = true := by
  obtain ⟨a, rfl⟩ := h.exists_atom
  refine (st.isCopyable_iff _).mpr fun u c hreaches hc => ?_
  rcases hreaches.cases_head with rfl | ⟨_, ⟨_, hnone, -⟩, -⟩
  · cases hc
  · cases hnone

/-- It is its own copy. -/
theorem detach_eq (h : Yields s v r) : v.detach = v := by
  induction h with
  | scalar _ hv _ =>
      obtain ⟨a, rfl, ha, -⟩ := hv
      exact congrArg Value.atom ha
  | absent => rfl
  | null => rfl
  | default => rfl
  | optional _ _ ih | nullable _ _ ih | withDefault _ _ ih => exact ih

/-- What is there is given as it is, and something stands in for what is not. -/
theorem result_eq (h : Yields s v r) : r = if isMissing v then s.standIn else v := by
  induction h with
  | scalar _ hv _ =>
      obtain ⟨a, rfl, -, hmarker⟩ := hv
      rw [(Bool.or_eq_false_iff.mp hmarker).2]
      rfl
  | absent => rfl
  | null => rfl
  | default _ ih => exact ih
  | nullable _ _ ih => exact ih
  | optional hv _ ih | withDefault hv _ ih => rw [ih, hv]; rfl

/-- The result is no mark of a failed check. -/
theorem isInvalid_eq (h : Yields s v r) : isInvalid r = false := by
  induction h with
  | scalar _ hv _ =>
      obtain ⟨a, rfl, -, hmarker⟩ := hv
      exact (Bool.or_eq_false_iff.mp hmarker).1
  | absent => rfl
  | null => rfl
  | default _ ih | optional _ _ ih | nullable _ _ ih | withDefault _ _ ih => exact ih

end Yields

end Schema

/-! ## Checks of wrapped schemas -/

section Checks

variable {s : Schema} {v r : Value}

/-- A check gives what the schema yields, and changes nothing. -/
theorem check_of_yields (h : s.Yields v r) (c : Context) (w : World σ) :
    EndsBy (fun depth => (check env mode depth s v).runIn c w) (.ok r, c, w) := by
  induction h generalizing c with
  | scalar _ _ h => exact .of_succ ⟨0, fun _ _ => runIn_checkLayer_of_judge? (h w.store)⟩
  | absent => exact .of_succ (.const _)
  | null => exact .of_succ (.const _)
  | optional hv _ ih =>
      refine .of_succ ?_
      simp only [check_optional_of_present hv]
      exact ih c
  | nullable hv _ ih =>
      refine .of_succ ?_
      simp only [check_nullable_of_ne_null hv]
      exact ih c
  | withDefault hv _ ih =>
      refine .of_succ ?_
      simp only [check_withDefault_of_present hv]
      exact ih c
  | default h ih =>
      -- the default is its own copy, and the context of a copy is left as it was
      obtain ⟨enough, hends⟩ := ih c.afresh
      refine .of_succ ⟨enough, fun depth hdepth => ?_⟩
      refine runIn_copied_ok_iff.mpr ⟨h.isCopyable w.store, c.afresh, ?_, rfl⟩
      rw [h.detach_eq]
      exact hends depth hdepth

/-- A check of a wrapped schema that finds nothing gives what the schema yields. -/
theorem yields_of_clears (hs : s.Wrapped env) {c : Context}
    (h : Call.Clears env mode ⟨depth, s, v, c, w⟩ r) : s.Yields v r := by
  induction hs generalizing mode depth v r c w with
  | @scalar s hs =>
      have hclearing := Call.clearing_of_clears h
      have hwraps := hs.wraps_eq_false ⟨depth, s, v, c, w⟩ rfl
      cases hclearing with
      | single hjudged =>
          obtain ⟨rfl, hsolid, hagain⟩ := hs.of_judge? hjudged
          exact .scalar hs hsolid hagain
      | inner _ hinner => simp [hwraps] at hinner
      | _ => cases hs
  | optional _ ih =>
      cases Call.clearing_of_clears h with
      | single hjudged => cases hjudged
      | absent => exact .absent
      | inner hsees _ =>
          obtain ⟨hmakes, hclears⟩ := hsees
          cases hmakes with
          | optional hv => exact .optional hv (ih hclears)
  | nullable _ ih =>
      cases Call.clearing_of_clears h with
      | single hjudged => cases hjudged
      | null => exact .null
      | inner hsees _ =>
          obtain ⟨hmakes, hclears⟩ := hsees
          cases hmakes with
          | nullable hv => exact .nullable hv (ih hclears)
  | withDefault _ haccepted ih =>
      cases Call.clearing_of_clears h with
      | single hjudged => cases hjudged
      | inner hsees _ =>
          obtain ⟨hmakes, hclears⟩ := hsees
          cases hmakes with
          | withDefault hv => exact .withDefault hv (ih hclears)
          | copy hmissing =>
              obtain rfl := eq_missing_of_isMissing hmissing
              obtain ⟨mode', depth', w', u, hgives⟩ := haccepted
              obtain ⟨r', hdefault, -⟩ := clears_of_accepted hgives
              rw [(ih hdefault).detach_eq] at hclears
              exact .default (ih hclears)

/-- A wrapped schema that gives something for an absent value yields it. -/
theorem Schema.Wrapped.yields_standIn (hs : s.Wrapped env) (h : s.standsIn = true) :
    s.Yields .missing s.standIn := by
  have hyields : ∃ r, s.Yields .missing r := by
    induction hs with
    | scalar hs => cases hs <;> cases h
    | optional => exact ⟨_, .absent⟩
    | nullable _ ih =>
        obtain ⟨r, hr⟩ := ih h
        exact ⟨r, .nullable nofun hr⟩
    | withDefault hinner haccepted =>
        obtain ⟨mode, depth, w, u, hgives⟩ := haccepted
        obtain ⟨r, hdefault, -⟩ := clears_of_accepted hgives
        exact ⟨r, .default (yields_of_clears hinner hdefault)⟩
  obtain ⟨r, hr⟩ := hyields
  have hresult : r = s.standIn := hr.result_eq
  exact hresult ▸ hr

/-- The flag of a wrapped schema says whether something stands in for an absent value. -/
theorem eq_standsIn_of_acceptsMissing (hs : s.Wrapped env) {b : Bool}
    (h : (env.acceptsMissing depth s).runIn w = (.ok b, w')) : b = s.standsIn ∧ w' = w := by
  induction depth generalizing s with
  | zero => cases h
  | succ depth ih =>
      cases hs with
      | scalar hs => cases hs <;> cases h <;> exact ⟨rfl, rfl⟩
      | optional => cases h; exact ⟨rfl, rfl⟩
      | nullable hinner =>
          obtain ⟨hb, hw⟩ := ih hinner h
          exact ⟨hb, hw⟩
      | withDefault => cases h; exact ⟨rfl, rfl⟩

theorem acceptsMissing_of_standsIn (hs : s.Wrapped env) (h : s.standsIn = true) (w : World σ) :
    EndsBy (fun depth => (env.acceptsMissing depth s).runIn w) (.ok true, w) := by
  induction hs with
  | scalar hs => cases hs <;> cases h
  | optional => exact .of_succ (.const _)
  | nullable _ ih => exact .of_succ (ih h)
  | withDefault => exact .of_succ (.const _)

/-- A field that is absent gives what stands in for it, and leaves no error. -/
theorem checkField_of_standsIn (hs : s.Wrapped env) (h : s.standsIn = true)
    {k : Key} (habsent : (w.store.entriesOf v).find? k = none) (c : Context) :
    EndsBy (fun depth => (checkField env (env.acceptsMissing depth) (check env mode depth) v k
        s).runIn c w)
      (.ok (if isMissing s.standIn then none else some s.standIn, false), c, w) := by
  have hyields := hs.yields_standIn h
  have hcheck : EndsBy (fun depth => (check env mode depth s .missing).runIn (c.push k) w)
      (.ok s.standIn, c.push k, w) := check_of_yields hyields _ w
  obtain ⟨enough, hflag⟩ := acceptsMissing_of_standsIn hs h w
  obtain ⟨more, hcheck⟩ := hcheck
  refine ⟨max enough more, fun depth hdepth => ?_⟩
  have haccepted := hflag depth ((le_max_left _ _).trans hdepth)
  have hinside := hcheck depth ((le_max_right _ _).trans hdepth)
  have houtcome : fieldOutcome s.standIn =
      (if isMissing s.standIn then none else some s.standIn, false) := by
    unfold fieldOutcome
    rw [hyields.isInvalid_eq]
    cases isMissing s.standIn <;> rfl
  beta_reduce at haccepted hinside ⊢
  rw [← houtcome, runIn_checkField, habsent]
  refine Engine.runIn_bind_ok_iff.mpr
    ⟨true, c, w, Engine.runIn_ofAct_ok_iff.mpr ⟨haccepted, rfl⟩, ?_⟩
  refine (Engine.runIn_bind_of_ok _ (Engine.runIn_store c w)).trans ?_
  rw [habsent]
  refine Engine.runIn_bind_ok_iff.mpr ⟨s.standIn, c, w, ?_, rfl⟩
  exact Engine.runIn_within_ok_iff.mpr ⟨_, hinside, (c.pop_push k).symm⟩

end Checks

/-! ## The record model -/

section Models

variable {s : Schema} {name : String} {type : FieldType}

/-- The default that the record model has for a wrapped schema. -/
def Schema.recorded : Schema → Value
  | .withDefault _ default => default
  | _ => .null

/-- The record model has something else than what stands in, or null for nothing: what stands
in is lost inside a wrapper that takes null, and the marker of an absent value is no value. -/
def Schema.LosesStandIn : Schema → Prop
  | .nullable inner => inner.standIn ≠ .missing ∧ inner.standIn ≠ .null
  | .withDefault _ default => default = .missing
  | _ => False

/-- A wrapped schema has a default in the record model exactly if something stands in for an
absent value. -/
theorem default_of_fieldEntry (hs : s.Wrapped env) {default : Option Value}
    (h : (env.fieldEntry depth name s).runIn w = (.ok (type, default), w')) :
    default = if s.standsIn then some s.recorded else none := by
  cases depth with
  | zero => cases h
  | succ depth =>
      cases hs with
      | scalar hs =>
          obtain ⟨t, w₁, -, hend⟩ : ∃ t w₁, (env.fieldType depth name s).runIn w = (.ok t, w₁) ∧
              ((pure (t, none) : Act σ _)).runIn w₁ = (.ok (type, default), w') := by
            cases hs <;> exact Act.runIn_bind_ok_iff.mp h
          cases hend
          cases hs <;> rfl
      | optional =>
          obtain ⟨t, w₁, -, h⟩ := Act.runIn_bind_ok_iff.mp h
          cases h
          rfl
      | withDefault =>
          obtain ⟨t, w₁, -, h⟩ := Act.runIn_bind_ok_iff.mp h
          cases h
          rfl
      | @nullable inner hinner =>
          obtain ⟨accepted, w₁, hflag, h⟩ := Act.runIn_bind_ok_iff.mp h
          obtain ⟨rfl, -⟩ := eq_standsIn_of_acceptsMissing hinner hflag
          cases hstands : inner.standsIn with
          | true =>
              rw [hstands] at h
              obtain ⟨entry, w₂, -, h⟩ := Act.runIn_bind_ok_iff.mp h
              cases h
              simp [Schema.standsIn, hstands, Schema.recorded]
          | false =>
              rw [hstands] at h
              obtain ⟨t, w₂, -, h⟩ := Act.runIn_bind_ok_iff.mp h
              cases h
              simp [Schema.standsIn, hstands]

/-- What is recorded is what stands in, or null for nothing, exactly unless it is lost. -/
theorem recorded_eq_iff (s : Schema) :
    s.recorded = (if isMissing s.standIn then .null else s.standIn) ↔ ¬ s.LosesStandIn := by
  cases s with
  | nullable inner =>
      cases hmissing : isMissing inner.standIn with
      | true =>
          have heq := eq_missing_of_isMissing hmissing
          simp [Schema.recorded, Schema.standIn, Schema.LosesStandIn, heq, isMissing]
      | false =>
          have hne : inner.standIn ≠ .missing := by
            intro heq
            rw [heq] at hmissing
            cases hmissing
          simp [Schema.recorded, Schema.standIn, Schema.LosesStandIn, hmissing, hne, eq_comm]
  | withDefault inner default =>
      cases hmissing : isMissing default with
      | true =>
          obtain rfl := eq_missing_of_isMissing hmissing
          simp only [Schema.recorded, Schema.standIn, Schema.LosesStandIn, hmissing, if_true,
            not_true_eq_false, iff_false]
          intro heq
          cases hstand : isMissing inner.standIn with
          | true => simp [hstand] at heq
          | false =>
              rw [hstand, if_neg Bool.false_ne_true] at heq
              rw [← heq] at hstand
              cases hstand
      | false =>
          have hne : default ≠ .missing := by
            rintro rfl
            cases hmissing
          simp [Schema.recorded, Schema.standIn, Schema.LosesStandIn, hmissing, hne]
  | _ => simp [Schema.recorded, Schema.standIn, Schema.LosesStandIn, isMissing]

end Models

/-! ## Objects -/

section Objects

variable {fields : Entries Schema} {unknown : UnknownKeys} {n : String} {s : Schema}

/-- Where all entries with a key have one value, that is found if the key is there. -/
theorem find?_of_forall_same {es : Entries Value} {k : Key} {v : Value}
    (h : ∀ e ∈ es, e.1.same k = true → e.2 = v) :
    es.find? k = if es.has k then some v else none := by
  rw [← Entries.isSome_find?]
  cases hfind : es.find? k with
  | none => rfl
  | some u =>
      obtain ⟨l, hsame, hl⟩ := Entries.exists_same_of_find? hfind
      exact congrArg some (h (l, u) hl hsame)

/-- In what an object gives, a field with a wrapped schema that is absent, and stays so, is what
stands in for it, and is not there if nothing does. -/
theorem find?_of_clears (hdistinct : fields.Distinct) {k : Key} (hfield : (k, s) ∈ fields)
    (hs : s.Wrapped env) {v : Value} {c : Context} {es : Entries Value}
    (habsent : ∀ w₁, env.After w w₁ → (w₁.store.entriesOf v).find? k = none)
    (h : Call.Clears env mode ⟨depth, .object fields unknown, v, c, w⟩ (.mapping false es)) :
    es.find? k = if isMissing s.standIn then none else some s.standIn := by
  obtain ⟨c', w', hrun, hclear⟩ := h
  obtain ⟨depth, rfl⟩ := exists_succ_of_check hrun
  obtain ⟨results, failed, w₂, -, -, -, hcleared, hresults, -, hr⟩ :=
    Call.clears_of_object hrun hclear
  -- the call for a field with that key is handed the marker of an absent value
  have hgives : ∀ l field u, (l, field) ∈ fields → l.same k = true →
      Call.FieldGives env mode ⟨depth + 1, .object fields unknown, v, c, w⟩ depth l field
        u → s.Yields .missing u := by
    rintro l field u hother hsame ⟨g, w₁, ⟨-, hclears⟩, hschema, hafter, hhanded⟩
    have hl := Entries.find?_of_mem hdistinct hother
    rw [Entries.find?_congr hsame, Entries.find?_of_mem hdistinct hfield] at hl
    obtain rfl := Option.some.inj hl
    have hmissing : ∀ u₁ w₃, Handed (env.acceptsMissing depth) v l s w₁ u₁ w₃ →
        u₁ = .missing := by
      intro u₁ w₃ hhanded
      cases hhanded with
      | present hfind =>
          rw [Entries.find?_congr hsame, habsent w₁ hafter] at hfind
          cases hfind
      | absent _ haccepts =>
          have hlater : env.After w w₃ := hafter.trans fun I hkeeps =>
            (keeps_acceptsMissing hkeeps depth s).of_run haccepts
          rw [Entries.find?_congr hsame, habsent w₃ hlater]
          rfl
    obtain ⟨d, s', u', c', w''⟩ := g
    obtain rfl : s' = s := hschema
    obtain rfl : u' = .missing := hmissing _ _ hhanded
    exact yields_of_clears hs hclears
  have hsame : ∀ e ∈ results, e.1.same k = true → e.2 = s.standIn := by
    intro e he hsame
    obtain ⟨-, field, hother, hu⟩ := hresults e he
    exact (hgives _ _ _ hother hsame hu).result_eq
  have hhas : Entries.has results k = !isMissing s.standIn := by
    cases hmissing : isMissing s.standIn with
    | true =>
        refine List.any_eq_false.mpr fun e he hsamekey => ?_
        have hmarker := (hresults e he).1
        rw [hsame e he hsamekey] at hmarker
        simp [isMarker, hmissing] at hmarker
    | false =>
        obtain ⟨u, hu, hin⟩ := hcleared _ hfield
        have hyields := hgives _ _ _ hfield (Key.same_self k) hu
        obtain rfl : u = s.standIn := hyields.result_eq
        have hentry := hin (Bool.or_eq_false_iff.mpr ⟨hyields.isInvalid_eq, hmissing⟩)
        exact List.any_eq_true.mpr ⟨(k, s.standIn), hentry, Key.same_self k⟩
  have hextra : Entries.find? (if unknown = .passthrough then
      undeclared fields (w₂.store.entriesOf v) else []) k = none := by
    split
    · exact find?_undeclared (List.mem_map_of_mem hfield)
    · rfl
  cases failed with
  | true => cases hr
  | false =>
      cases hr
      rw [Entries.find?_append, find?_of_forall_same hsame, hhas, hextra, Option.or_none]
      cases isMissing s.standIn <;> rfl

/-- **The default of a field in the record model is what the object gives for the field where it
is absent.** The field has a wrapped schema, each default of which is accepted by what it wraps.
If the model has a default for it, then the check of an object without the field finds nothing
for it, and gives one result or none; all objects that are accepted without it have that result,
if no callback puts something at its key meanwhile.
The default is that result, or null for none, unless it is lost: inside a wrapper that takes
null, or because it is the marker of an absent value. -/
theorem recorded_default_is_stand_in (env : Setting σ) (fields : Entries Schema)
    (unknown : UnknownKeys) (hdistinct : fields.Distinct) (n : String) (s : Schema)
    (hfield : (.text n, s) ∈ fields) (hs : s.Wrapped env) (depth : Nat) (name : String)
    (m : RecordModel) (w w' : World σ)
    (hmodel : (env.recordModel depth name (.schema (.object fields unknown))).runIn w = (.ok m, w'))
    (type : FieldType) (default : Value) (hrow : (n, type, some default) ∈ m.fields) :
    ∃ result : Option Value,
      (∀ mode v c (w₁ : World σ), (w₁.store.entriesOf v).find? (.text n) = none →
        EndsBy (fun depth => (checkField env (env.acceptsMissing depth) (check env mode depth)
          v (.text n) s).runIn c w₁) (.ok (result, false), c, w₁)) ∧
      (∀ mode depth v (w₁ : World σ) (es : Entries Value),
        (∀ w₂, env.After w₁ w₂ → (w₂.store.entriesOf v).find? (.text n) = none) →
        Gives env mode depth (.object fields unknown) v w₁ (.accepted (.mapping false es)) →
        es.find? (.text n) = result) ∧
      (default = result.getD .null ↔ ¬ s.LosesStandIn) := by
  obtain ⟨rows, hrows, hmem⟩ := mem_fields_iff_of_recordModel hmodel
  obtain ⟨⟨l, other⟩, hother, hl, d, name', w₁, w₂, hentry⟩ :=
    exists_right_of_mem (entries_of_modelFields hrows).flip ((hmem n _).mp hrow).2
  obtain rfl : .text n = l := hl
  have hsame := Entries.find?_of_mem hdistinct hfield
  obtain rfl : s = other :=
    Option.some.inj (hsame.symm.trans (Entries.find?_of_mem hdistinct hother))
  have hdefault := default_of_fieldEntry hs hentry
  have hstands : s.standsIn = true := by
    cases hstands : s.standsIn with
    | true => rfl
    | false =>
        rw [hstands] at hdefault
        cases hdefault
  obtain rfl : default = s.recorded := by
    rw [hstands] at hdefault
    exact Option.some.inj hdefault
  refine ⟨if isMissing s.standIn then none else some s.standIn, ?_, ?_, ?_⟩
  · intro mode v c w₁ habsent
    exact checkField_of_standsIn hs hstands habsent c
  · intro mode depth v w₁ es habsent hgives
    obtain ⟨r, hclears, hr⟩ := clears_of_accepted hgives
    obtain rfl : r = .mapping false es := by
      split at hr
      · cases hr
      · exact hr.symm
    exact find?_of_clears hdistinct hfield hs habsent hclears
  · rw [← recorded_eq_iff]
    cases isMissing s.standIn <;> rfl

/-- A text with a default, which may be left out and may be null inside. -/
def greeting : Schema := .withDefault (.optional (.nullable (.string {}))) (.text "hello")

/-- The default of a text that is left out is in the model and in the output. -/
theorem recorded_default_is_stand_in_greeting :
    ∃ m type default es,
      (idleHost.recordModel 8 "Letter" (.schema (.object [(.text "greeting", greeting)]
        .strip))).runIn { host := () } = (.ok m, { host := () }) ∧
      ("greeting", type, some default) ∈ m.fields ∧
      Gives idleHost .immediate 8 (.object [(.text "greeting", greeting)] .strip)
        (.mapping false []) { host := () } (.accepted (.mapping false es)) ∧
      default = (Entries.find? es (.text "greeting")).getD .null := by
  have hwrapped : greeting.Wrapped idleHost :=
    .withDefault (.optional (.nullable (.scalar (.string {}))))
      ⟨.immediate, 8, { host := () }, .text "hello", .safeParse, { host := () }, rfl⟩
  obtain ⟨result, -, hgiven, hresult⟩ := recorded_default_is_stand_in idleHost
    [(.text "greeting", greeting)] .strip (by decide) "greeting" greeting List.mem_cons_self
    hwrapped 8 "Letter" _ { host := () } _ rfl _ _ List.mem_cons_self
  have hgives : Gives idleHost .immediate 8 (.object [(.text "greeting", greeting)] .strip)
      (.mapping false []) { host := () }
      (.accepted (.mapping false [(.text "greeting", .text "hello")])) :=
    ⟨.safeParse, { host := () }, rfl⟩
  refine ⟨_, _, _, _, rfl, List.mem_cons_self, hgives, ?_⟩
  rw [hgiven .immediate 8 _ _ _ (fun _ _ => rfl) hgives]
  exact hresult.mpr nofun

/-- Wrapped once more to take null, a default is still in the output, but the model has null. -/
theorem default_lost_inside_nullable :
    let s := Schema.nullable (.withDefault (.string {}) (.text "x"))
    s.Wrapped idleHost ∧
    ∃ m type, (idleHost.recordModel 8 "Letter" (.schema (.object [(.text "a", s)] .strip))).runIn
        { host := () } = (.ok m, { host := () }) ∧
      ("a", type, some .null) ∈ m.fields ∧
      Gives idleHost .immediate 8 (.object [(.text "a", s)] .strip) (.mapping false [])
        { host := () } (.accepted (.mapping false [(.text "a", .text "x")])) := by
  refine ⟨.nullable (.withDefault (.scalar (.string {})) ?_), _, _, rfl, List.mem_cons_self,
    .safeParse, { host := () }, rfl⟩
  exact ⟨.immediate, 8, { host := () }, .text "x", .safeParse, { host := () }, rfl⟩

end Objects

end Conform
