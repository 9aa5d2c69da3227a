import Conform.Proofs.Call

/-!
# What a call adds

Besides making calls, a call adds errors of its own. `Reports` gives the
violations that it finds, each with the place, `Fails` what it says of attempts
that failed, and `Words` the code of an error that a callback has worded. There
is one constructor for each place of a layer that adds an error.

A violation that is reported gives values for details, and no error records;
only attempts that failed do that.

## Main results

* `Call.Reports.plain` — the details of a violation that is reported are values.
* `Call.Reports.spelled` — its words are there, unless an integer is too long.
* `Call.Reports.circular` — only a call whose container is being looked into
  reports a circular reference.
* `Call.Reports.required_key` — only an object reports that something is required.
-/

namespace Conform

open Traverse

/-- What is reported when all options have failed, without their failures. -/
def optionsFailed : Violation where
  code := .unionInvalid
  words := .ok "Input did not match any union member"

/-- What is reported when a member has failed, without the failures. -/
def membersFailed : Violation where
  code := .intersectionInvalid
  words := .ok "Input did not satisfy all intersection members"

namespace Call

variable {σ : Type}

/-- The violations that a call reports, each with the world in which it is found and the
place. What is reported of the keys and the number of the items of a container is read off the
container as it is then. -/
inductive Reports : Call σ → World σ → Violation → Path → Prop
  | notObject {depth fields unknown v c w} (h : (w.store.entries? v).isNone = true) :
      Reports ⟨depth + 1, .object fields unknown, v, c, w⟩ w
        (.wrongKind "object" (w.store.kindName v) "Expected object") c.path
  | objectAgain {depth fields unknown v c w} (hobject : (w.store.entries? v).isNone = false)
      (hvisited : c.hasVisited v = true) :
      Reports ⟨depth + 1, .object fields unknown, v, c, w⟩ w circular c.path
  | required {depth fields unknown v c w w₁ k field}
      (hobject : (w.store.entries? v).isNone = false) (hfresh : c.hasVisited v = false)
      (hfield : (k, field) ∈ fields) (habsent : (w₁.store.entriesOf v).find? k = none) :
      Reports ⟨depth + 1, .object fields unknown, v, c, w⟩ w₁ (requiredMissing k) (c.path ++ [k])
  | unknown {depth fields v c w w₁} (hobject : (w.store.entries? v).isNone = false)
      (hfresh : c.hasVisited v = false)
      (hextra : undeclared fields (w₁.store.entriesOf v) ≠ []) :
      Reports ⟨depth + 1, .object fields .strict, v, c, w⟩ w₁
        (unknownFound (undeclared fields (w₁.store.entriesOf v)).keys) c.path
  | notArray {depth element bounds v c w} (h : (w.store.items? v).isNone = true) :
      Reports ⟨depth + 1, .array element bounds, v, c, w⟩ w
        (.wrongKind "array" (w.store.kindName v) "Expected array") c.path
  | arrayAgain {depth element bounds v c w} (harray : (w.store.items? v).isNone = false)
      (hvisited : c.hasVisited v = true) :
      Reports ⟨depth + 1, .array element bounds, v, c, w⟩ w circular c.path
  | bound {depth element bounds v c w w₁ x} (harray : (w.store.items? v).isNone = false)
      (hfresh : c.hasVisited v = false)
      (hx : x ∈ violatedBounds bounds (w₁.store.itemsOf v).length) :
      Reports ⟨depth + 1, .array element bounds, v, c, w⟩ w₁ x c.path
  | conflict {depth first rest v c w w₁ path left right} :
      Reports ⟨depth + 1, .intersection first rest, v, c, w⟩ w₁ (conflictFound path left right)
        c.path
  | judged {depth s v c w x} (h : s.judge? w.store v = some (.ok (.violated x))) :
      Reports ⟨depth + 1, s, v, c, w⟩ w x c.path

/-- What a call reports when its attempts have failed, without their failures,
and the name under which it gives them. -/
inductive Fails : Call σ → Violation → String → Prop
  | union {depth first rest v c w} :
      Fails ⟨depth + 1, .union first rest, v, c, w⟩ optionsFailed "union_errors"
  | intersection {depth first rest v c w} :
      Fails ⟨depth + 1, .intersection first rest, v, c, w⟩ membersFailed "intersection_errors"

/-- The code of an error of a call that is worded by a callback. -/
inductive Words : Call σ → Code → Prop
  | transform {depth inner step v c w} :
      Words ⟨depth + 1, .transform inner step, v, c, w⟩ (.builtin .transformError)
  | refine {depth inner id words code v c w} :
      Words ⟨depth + 1, .refine inner id words code, v, c, w⟩ code

end Call

/-! ## Violations of single values -/

/-- The details of a violation are values. -/
def Violation.Plain (x : Violation) : Prop :=
  ∀ ds, x.details = some ds → ∀ d ∈ ds, ∃ u, d.2 = .value u

theorem Violation.Plain.ofValues {x : Violation} {ds : List (String × Value)}
    (h : x.details = some (.ofValues ds)) : x.Plain := by
  intro ds' hds d hd
  rw [h] at hds
  cases hds
  obtain ⟨⟨k, u⟩, -, rfl⟩ := List.mem_map.mp hd
  exact ⟨u, rfl⟩

theorem Violation.Plain.none {x : Violation} (h : x.details = none) : x.Plain := by
  intro ds hds
  rw [h] at hds
  cases hds

/-- The violation of a check that is made of a single value. -/
structure Violation.OfValue (x : Violation) : Prop where
  plain : x.Plain
  spelled : Spelled x.words
  code : x.code ≠ .circularReference
  present : x.code ≠ .required

theorem mem_of_firstViolation {clauses : List (Except Fault (Option Violation))} {x : Violation}
    (h : firstViolation clauses = .ok (some x)) : .ok (some x) ∈ clauses := by
  induction clauses with
  | nil => cases h
  | cons clause clauses ih =>
      rcases clause with f | _ | y
      · cases h
      · exact List.mem_cons_of_mem _ (ih h)
      · cases h
        exact List.mem_cons_self

theorem mem_of_ofClauses {v : Value} {clauses : List (Except Fault (Option Violation))}
    {x : Violation} (h : Judgement.ofClauses v clauses = .ok (.violated x)) :
    .ok (some x) ∈ clauses := by
  unfold Judgement.ofClauses at h
  split at h
  · cases h
  · cases h
    exact mem_of_firstViolation (by assumption)
  · cases h

/-- A clause that finds a violation reports its check. -/
theorem exists_of_clause {α : Type} {check : Option (Check α)} {violated : α → Except Fault Bool}
    {report : Check α → Violation} {x : Violation}
    (h : clause check violated report = .ok (some x)) : ∃ c, check = some c ∧ x = report c := by
  unfold clause at h
  split at h
  · cases h
  · rename_i c
    split at h
    · cases h
    · split at h
      · cases h
        exact ⟨c, rfl, rfl⟩
      · cases h

theorem ofValue_wrongKind (expected received words : String) :
    (Violation.wrongKind expected received words).OfValue :=
  ⟨.ofValues rfl, .ok _, nofun, nofun⟩

theorem ofValue_of_judgeString {c : StringChecks} {st : Store} {v : Value} {x : Violation}
    (h : c.judge st v = .ok (.violated x)) : x.OfValue := by
  unfold StringChecks.judge at h
  split at h
  · have hmem := mem_of_ofClauses h
    simp only [List.mem_cons, List.not_mem_nil, or_false] at hmem
    rcases hmem with h | h | h | h | h | h <;>
    · obtain ⟨check, -, rfl⟩ := exists_of_clause h.symm
      exact ⟨by first | exact .ofValues rfl | exact .none rfl,
        by first | exact .ok _ | exact .written _ _, nofun, nofun⟩
  · cases h
    exact ofValue_wrongKind ..

theorem ofValue_of_judgeNumber {c : NumberChecks} {st : Store} {v : Value} {x : Violation}
    (h : c.judge st v = .ok (.violated x)) : x.OfValue := by
  unfold NumberChecks.judge at h
  split at h
  · split at h
    · unfold NumberChecks.judgeNumber at h
      split at h
      · cases h
        exact ofValue_wrongKind ..
      · have hmem := mem_of_ofClauses h
        simp only [List.mem_cons, List.not_mem_nil, or_false] at hmem
        rcases hmem with h | h | h | h | h | h <;>
        · obtain ⟨check, -, rfl⟩ := exists_of_clause h.symm
          exact ⟨by first | exact .ofValues rfl | exact .none rfl,
            by first | exact .ok _ | exact .written _ _, nofun, nofun⟩
    · cases h
      exact ofValue_wrongKind ..
  · cases h
    exact ofValue_wrongKind ..

theorem ofValue_of_judgeDate {c : DateChecks} {st : Store} {v : Value} {x : Violation}
    (h : c.judge st v = .ok (.violated x)) : x.OfValue := by
  unfold DateChecks.judge at h
  dsimp only at h
  split at h
  · split at h
    · have hmem := mem_of_ofClauses h
      simp only [List.mem_cons, List.not_mem_nil, or_false] at hmem
      rcases hmem with h | h <;>
      · obtain ⟨check, -, rfl⟩ := exists_of_clause h.symm
        exact ⟨.ofValues rfl, .ok _, nofun, nofun⟩
    · cases h
      exact ofValue_wrongKind ..
  · cases h
    exact ofValue_wrongKind ..

theorem ofValue_of_judgeWritten {read : String → Option Value} {code : BuiltinCode}
    {what : String} {st : Store} {v : Value} {x : Violation} (hcode : code ≠ .circularReference)
    (hpresent : code ≠ .required) (h : judgeWritten read code what st v = .violated x) :
    x.OfValue := by
  unfold judgeWritten at h
  split at h
  · split at h
    · cases h
    · cases h
      exact ⟨.ofValues rfl, .ok _, hcode, hpresent⟩
  · cases h
    exact ⟨.ofValues rfl, .ok _, nofun, nofun⟩

theorem ofValue_of_judgeMember {members : List Atom} {v : Value} {x : Violation}
    (h : judgeMember members v = .violated x) : x.OfValue := by
  unfold judgeMember at h
  extract_lets found at h
  split at h
  · cases h
  · cases h
    exact ⟨.ofValues rfl, .written _ _, nofun, nofun⟩

/-- A schema without parts reports a violation of a check of its own. -/
theorem ofValue_of_judge? {s : Schema} {st : Store} {v : Value} {x : Violation}
    (h : s.judge? st v = some (.ok (.violated x))) : x.OfValue := by
  cases s with
  | any => cases h
  | string checks => exact ofValue_of_judgeString (Option.some.inj h)
  | number checks => exact ofValue_of_judgeNumber (Option.some.inj h)
  | boolean =>
      simp only [Schema.judge?, judgeBoolean, Option.some.injEq, Except.ok.injEq] at h
      split at h
      · cases h
      · cases h
        exact ofValue_wrongKind ..
  | date checks => exact ofValue_of_judgeDate (Option.some.inj h)
  | integerText =>
      simp only [Schema.judge?, Option.some.injEq, Except.ok.injEq] at h
      exact ofValue_of_judgeWritten (by decide) (by decide) h
  | decimalText =>
      simp only [Schema.judge?, Option.some.injEq, Except.ok.injEq] at h
      exact ofValue_of_judgeWritten (by decide) (by decide) h
  | enumeration first rest =>
      simp only [Schema.judge?, Option.some.injEq, Except.ok.injEq] at h
      exact ofValue_of_judgeMember h
  | _ => cases h

/-! ## Violations that calls report -/

namespace Call

variable {σ : Type} {f : Call σ} {w₁ : World σ} {x : Violation} {p : Path}

theorem exists_of_mem_violatedBounds {bounds : ArrayBounds} {size : Nat}
    (h : x ∈ violatedBounds bounds size) :
    ∃ code name relation c, code ∈ [BuiltinCode.arrayMin, .arrayMax, .arrayLength] ∧
      x = countViolation code name relation size c := by
  simp only [violatedBounds, List.mem_append, Option.mem_toList,
    Option.map_eq_some_iff] at h
  rcases h with (⟨c, -, rfl⟩ | ⟨c, -, rfl⟩) | ⟨c, -, rfl⟩ <;>
    exact ⟨_, _, _, c, by simp, rfl⟩

/-- The details of a violation that is reported are values. -/
theorem Reports.plain (h : f.Reports w₁ x p) : x.Plain := by
  cases h with
  | objectAgain => exact .none rfl
  | arrayAgain => exact .none rfl
  | bound hitems hfresh hx =>
      obtain ⟨code, name, relation, c, -, rfl⟩ := exists_of_mem_violatedBounds hx
      exact .ofValues rfl
  | judged h => exact (ofValue_of_judge? h).plain
  | _ => exact .ofValues rfl

/-- The default words of a violation that is reported are there, unless an integer in them has
too many digits. -/
theorem Reports.spelled (h : f.Reports w₁ x p) : Spelled x.words := by
  cases h with
  | required => exact .written _ _
  | unknown => exact .written _ _
  | conflict => exact .written _ _
  | bound harray hfresh hx =>
      obtain ⟨code, name, relation, c, -, rfl⟩ := exists_of_mem_violatedBounds hx
      exact .written _ _
  | judged h => exact (ofValue_of_judge? h).spelled
  | _ => exact .ok _

/-- Whether a call is for an object schema and a mapping, or for an array schema
and a sequence. -/
def meets (f : Call σ) : Bool :=
  match f.schema with
  | .object _ _ => (f.world.store.entries? f.value).isSome
  | .array _ _ => (f.world.store.items? f.value).isSome
  | _ => false

/-- Only a call whose container is being looked into reports a circular
reference, at its own place. -/
theorem Reports.circular (h : f.Reports w₁ x p) (hcode : x.code = .circularReference) :
    f.meets = true ∧ f.context.hasVisited f.value = true ∧ x = Traverse.circular ∧
      p = f.context.path := by
  cases h with
  | objectAgain hobject hvisited => exact ⟨by simpa [meets] using hobject, hvisited, rfl, rfl⟩
  | arrayAgain harray hvisited => exact ⟨by simpa [meets] using harray, hvisited, rfl, rfl⟩
  | bound hitems hfresh hx =>
      obtain ⟨code, name, relation, c, hmem, rfl⟩ := exists_of_mem_violatedBounds hx
      simp only [countViolation] at hcode
      simp [hcode] at hmem
  | judged h => exact absurd hcode (ofValue_of_judge? h).code
  | _ => cases hcode

/-- Only an object reports that something is required, at a key of its own. -/
theorem Reports.required_key (h : f.Reports w₁ x p) (hcode : x.code = .required) :
    ∃ k, p = f.context.path ++ [k] := by
  cases h with
  | required => exact ⟨_, rfl⟩
  | bound hitems hfresh hx =>
      obtain ⟨code, name, relation, c, hmem, rfl⟩ := exists_of_mem_violatedBounds hx
      simp only [countViolation] at hcode
      simp [hcode] at hmem
  | judged h => exact absurd hcode (ofValue_of_judge? h).present
  | _ => cases hcode

end Call

end Conform
