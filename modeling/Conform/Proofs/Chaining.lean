import Conform.Proofs.Containment
import Conform.Proofs.NumberLine
import Conform.Proofs.Ruling
import Conform.Proofs.Wording

/-!
# Constraints in a row

Constraints are put on the schemas of texts, of numbers, of dates and of arrays one after
another, and each call may refuse its bound. A row of calls that refuses none gives a
schema of the same kind, and each of its checks is one that some call has asked for.

The bounds of dates and of arrays are refused unless they can be compared with. The
bound of a text's length may be any value, and the bound of a number may be left open; a
pattern may be one of bytes; and a bound may be too long to be written into the words of
the error. What gets out of a check is a fault of such a bound. Nothing else does but what
the templates do, and what happens to an array while its elements are checked.

## Main results

* `Base.Built.addTo` — what one call gives.
* `Base.built_of_chain` — what a row of calls gives.
* `constrained_value_ends` — how whole values are validated against what a row of calls
  has built.
* `open_bound_faults`, `long_bound_faults` — two bounds that are taken and fault later.
-/

namespace Conform

open Traverse

/-! ## Rows of calls -/

/-- A call that adds a check to a schema. -/
inductive Constraint where
  | min (bound : Value) (words : Option String)
  | max (bound : Value) (words : Option String)
  | length (bound : Value) (words : Option String)
  | nonempty (words : Option String)
  /-- A pattern, or the fault of reading it. -/
  | pattern (p : Except Fault Sought) (words : Option String)
  | email (words : Option String)
  | url (words : Option String)
  | int (words : Option String)
  | positive (words : Option String)
  | negative (words : Option String)
  | finite (words : Option String)

/-- What a call gives. -/
def Constraint.addTo (st : Store) (s : Schema) : Constraint → Except Fault Schema
  | min bound words => s.min st bound words
  | max bound words => s.max st bound words
  | length bound words => s.length st bound words
  | nonempty words => s.nonempty words
  | pattern p words => s.pattern p words
  | email words => s.email words
  | url words => s.url words
  | int words => s.int words
  | positive words => s.positive words
  | negative words => s.negative words
  | finite words => s.finite words

namespace Constraint

/-- A bound below or above which does not count as a number. -/
def isOpen : Constraint → Bool
  | min bound _ => (boundNumber? bound).isNone
  | max bound _ => (boundNumber? bound).isNone
  | _ => false

/-- A pattern of bytes. -/
def isOfBytes : Constraint → Bool
  | pattern (.ok p) _ => !p.isText
  | _ => false

/-- A bound that cannot be written. -/
def isLong (st : Store) : Constraint → Bool
  | min bound _ => !st.isWritable bound
  | max bound _ => !st.isWritable bound
  | length bound _ => !st.isWritable bound
  | _ => false

end Constraint

/-- What a row of calls starts from. -/
inductive Base where
  | text
  | number
  | date
  | array (element : Schema)

namespace Base

/-- The schema without checks. -/
def schema : Base → Schema
  | text => .string {}
  | number => .number {}
  | date => .date {}
  | array element => .array element {}

/-- What calls one after another give. -/
def chain (st : Store) (base : Base) (calls : List Constraint) : Except Fault Schema :=
  calls.foldlM (Constraint.addTo st) base.schema

/-- The schema is the base with some checks, and each bound and each pattern is one that
some of the calls has asked for. -/
inductive Built (st : Store) (calls : List Constraint) : Base → Schema → Prop
  | text {c} (hmin : ∀ k, c.min = some k → .min k.value k.words ∈ calls)
      (hmax : ∀ k, c.max = some k → .max k.value k.words ∈ calls)
      (hlength : ∀ k, c.length = some k → .length k.value k.words ∈ calls)
      (hpattern : ∀ k, c.pattern = some k → .pattern (.ok k.value) k.words ∈ calls) :
      Built st calls .text (.string c)
  | number {c}
      (hmin : ∀ k, c.min = some k → ∃ bound, .min bound k.words ∈ calls ∧
        Schema.numberBound st "min" bound = .ok k.value)
      (hmax : ∀ k, c.max = some k → ∃ bound, .max bound k.words ∈ calls ∧
        Schema.numberBound st "max" bound = .ok k.value) : Built st calls .number (.number c)
  | date {c} : Built st calls .date (.date c)
  | array {element b}
      (hmin : ∀ k, b.min = some k → k.value = 1 ∨ .min (.int k.value) k.words ∈ calls)
      (hmax : ∀ k, b.max = some k → .max (.int k.value) k.words ∈ calls)
      (hlength : ∀ k, b.length = some k → .length (.int k.value) k.words ∈ calls) :
      Built st calls (.array element) (.array element b)

theorem built_schema (st : Store) (calls : List Constraint) (base : Base) :
    base.Built st calls base.schema := by
  cases base <;> constructor <;> exact nofun

end Base

/-- A bound is taken before the schema is put together. -/
theorem exists_of_bind_eq_ok {ε α β : Type} {x : Except ε α} {k : α → Except ε β} {b : β}
    (h : (x >>= k) = .ok b) : ∃ a, x = .ok a ∧ k a = .ok b := by
  cases x with
  | error e => cases h
  | ok a => exact ⟨a, rfl, h⟩

/-- A bound that counts elements is a natural number. -/
theorem Schema.eq_int_of_countBound {st : Store} {name : String} {bound : Value} {n : Nat}
    (h : Schema.countBound st name bound = .ok n) : bound = .int n := by
  unfold Schema.countBound at h
  split at h
  · cases h
    rfl
  · obtain ⟨text, -, hthrow⟩ := exists_of_bind_eq_ok h
    cases hthrow

namespace Base.Built

variable {st : Store} {calls : List Constraint} {base : Base} {s s' : Schema}

/-- One of the calls leaves each bound as it was, or sets it to its own. -/
theorem addTo {call : Constraint} (hs : Built st calls base s) (hcall : call ∈ calls)
    (h : call.addTo st s = .ok s') : Built st calls base s' := by
  cases hs with
  | text hmin hmax hlength hpattern =>
      cases call with
      | min bound words =>
          cases h
          exact .text (by rintro k ⟨⟩; exact hcall) hmax hlength hpattern
      | max bound words =>
          cases h
          exact .text hmin (by rintro k ⟨⟩; exact hcall) hlength hpattern
      | length bound words =>
          cases h
          exact .text hmin hmax (by rintro k ⟨⟩; exact hcall) hpattern
      | pattern p words =>
          obtain ⟨p, rfl, hs'⟩ := exists_of_bind_eq_ok h
          cases hs'
          exact .text hmin hmax hlength (by rintro k ⟨⟩; exact hcall)
      | email | url =>
          cases h
          exact .text hmin hmax hlength hpattern
      | nonempty | int | positive | negative | finite => cases h
  | number hmin hmax =>
      cases call with
      | min bound words =>
          obtain ⟨n, hn, hs'⟩ := exists_of_bind_eq_ok h
          cases hs'
          exact .number (by rintro k ⟨⟩; exact ⟨bound, hcall, hn⟩) hmax
      | max bound words =>
          obtain ⟨n, hn, hs'⟩ := exists_of_bind_eq_ok h
          cases hs'
          exact .number hmin (by rintro k ⟨⟩; exact ⟨bound, hcall, hn⟩)
      | int | positive | negative | finite =>
          cases h
          exact .number hmin hmax
      | length | nonempty | pattern | email | url => cases h
  | date =>
      cases call with
      | min | max =>
          obtain ⟨m, -, hs'⟩ := exists_of_bind_eq_ok h
          cases hs'
          exact .date
      | _ => cases h
  | array hmin hmax hlength =>
      cases call with
      | min bound words =>
          obtain ⟨n, hn, hs'⟩ := exists_of_bind_eq_ok h
          obtain rfl := Schema.eq_int_of_countBound hn
          cases hs'
          exact .array (by rintro k ⟨⟩; exact .inr hcall) hmax hlength
      | max bound words =>
          obtain ⟨n, hn, hs'⟩ := exists_of_bind_eq_ok h
          obtain rfl := Schema.eq_int_of_countBound hn
          cases hs'
          exact .array hmin (by rintro k ⟨⟩; exact hcall) hlength
      | length bound words =>
          obtain ⟨n, hn, hs'⟩ := exists_of_bind_eq_ok h
          obtain rfl := Schema.eq_int_of_countBound hn
          cases hs'
          exact .array hmin hmax (by rintro k ⟨⟩; exact hcall)
      | nonempty words =>
          cases h
          exact .array (by rintro k ⟨⟩; exact .inl rfl) hmax hlength
      | _ => cases h

/-- So do calls one after another. -/
theorem foldlM {row : List Constraint} (hs : Built st calls base s) (hrow : row ⊆ calls)
    (h : row.foldlM (Constraint.addTo st) s = .ok s') : Built st calls base s' := by
  induction row generalizing s with
  | nil =>
      cases h
      exact hs
  | cons call row ih =>
      rw [List.foldlM_cons] at h
      obtain ⟨t, hcall, hrest⟩ := exists_of_bind_eq_ok h
      exact ih (hs.addTo (hrow List.mem_cons_self) hcall)
        (fun _ h => hrow (List.mem_cons_of_mem _ h)) hrest

end Base.Built

theorem Base.built_of_chain {st : Store} {base : Base} {calls : List Constraint} {s : Schema}
    (h : base.chain st calls = .ok s) : base.Built st calls s :=
  (Base.built_schema st calls base).foldlM (fun _ h => h) h

/-! ## Bounds that fault -/

/-- The bound of a number is open, or counts as a number and can be written just as the number
can. -/
theorem Schema.numberBound_cases {st : Store} {name : String} {bound : Value} {n : Option Number}
    (h : Schema.numberBound st name bound = .ok n) :
    n.isSome = (boundNumber? bound).isSome ∧
      ∀ st' : Store, ((n.map Number.atom).getD .null).isWritable = st'.isWritable bound := by
  unfold Schema.numberBound at h
  split at h
  · cases h
    exact ⟨rfl, fun _ => rfl⟩
  · rename_i a _
    cases hm : a.number? with
    | none =>
        rw [hm] at h
        cases h
    | some m =>
        rw [hm] at h
        cases h
        cases a <;> cases hm <;> exact ⟨rfl, fun _ => rfl⟩
  · cases h

/-- The bounds of a schema can be written. -/
def Schema.legible (st : Store) : Schema → Bool
  | string c =>
    (c.min.all fun k => st.isWritable k.value) && (c.max.all fun k => st.isWritable k.value) &&
      c.length.all fun k => st.isWritable k.value
  | number c =>
    (c.min.all fun k => ((k.value.map Number.atom).getD .null).isWritable) &&
      c.max.all fun k => ((k.value.map Number.atom).getD .null).isWritable
  | array _ b =>
    (b.min.all fun k => Decimal.isWritable k.value) &&
      (b.max.all fun k => Decimal.isWritable k.value) &&
      b.length.all fun k => Decimal.isWritable k.value
  | _ => true

namespace Base.Built

variable {st : Store} {calls : List Constraint} {base : Base} {s : Schema}

/-- Bounds that do not count as numbers come from open ones. -/
theorem exists_open (hs : Built st calls base s) (h : s.comparable = false) :
    (base = .text ∨ base = .number) ∧ ∃ call ∈ calls, call.isOpen = true := by
  cases hs with
  | text hmin hmax =>
      simp only [Schema.comparable, Bool.and_eq_false_iff, Option.all_eq_false,
        Option.isSome_eq_false_iff] at h
      rcases h with ⟨k, hk, hopen⟩ | ⟨k, hk, hopen⟩
      · exact ⟨.inl rfl, _, hmin k hk, hopen⟩
      · exact ⟨.inl rfl, _, hmax k hk, hopen⟩
  | number hmin hmax =>
      simp only [Schema.comparable, Bool.and_eq_false_iff, Option.all_eq_false] at h
      rcases h with ⟨k, hk, hopen⟩ | ⟨k, hk, hopen⟩
      · obtain ⟨bound, hmem, hn⟩ := hmin k hk
        rw [(Schema.numberBound_cases hn).1, Option.isSome_eq_false_iff] at hopen
        exact ⟨.inr rfl, _, hmem, hopen⟩
      · obtain ⟨bound, hmem, hn⟩ := hmax k hk
        rw [(Schema.numberBound_cases hn).1, Option.isSome_eq_false_iff] at hopen
        exact ⟨.inr rfl, _, hmem, hopen⟩
  | date => cases h
  | array => cases h

/-- A pattern of bytes comes from one of bytes. -/
theorem exists_ofBytes (hs : Built st calls base s) (h : s.searchable = false) :
    base = .text ∧ ∃ call ∈ calls, call.isOfBytes = true := by
  cases hs with
  | text hmin hmax hlength hpattern =>
      simp only [Schema.searchable, Option.all_eq_false] at h
      obtain ⟨k, hk, hbytes⟩ := h
      exact ⟨rfl, _, hpattern k hk, by simp [Constraint.isOfBytes, hbytes]⟩
  | number | date | array => cases h

/-- Bounds that cannot be written come from such. -/
theorem exists_long (hs : Built st calls base s) {st' : Store} (h : s.legible st' = false) :
    ∃ call ∈ calls, call.isLong st' = true := by
  cases hs with
  | text hmin hmax hlength =>
      simp only [Schema.legible, Bool.and_eq_false_iff, Option.all_eq_false] at h
      rcases h with (⟨k, hk, hlong⟩ | ⟨k, hk, hlong⟩) | ⟨k, hk, hlong⟩
      · exact ⟨_, hmin k hk, by simp [Constraint.isLong, hlong]⟩
      · exact ⟨_, hmax k hk, by simp [Constraint.isLong, hlong]⟩
      · exact ⟨_, hlength k hk, by simp [Constraint.isLong, hlong]⟩
  | number hmin hmax =>
      simp only [Schema.legible, Bool.and_eq_false_iff, Option.all_eq_false] at h
      rcases h with ⟨k, hk, hlong⟩ | ⟨k, hk, hlong⟩
      · obtain ⟨bound, hmem, hn⟩ := hmin k hk
        rw [(Schema.numberBound_cases hn).2 st'] at hlong
        exact ⟨_, hmem, by simp [Constraint.isLong, hlong]⟩
      · obtain ⟨bound, hmem, hn⟩ := hmax k hk
        rw [(Schema.numberBound_cases hn).2 st'] at hlong
        exact ⟨_, hmem, by simp [Constraint.isLong, hlong]⟩
  | date => cases h
  | array hmin hmax hlength =>
      have hcount (n : Nat) (hlong : Decimal.isWritable n = false) :
          (!st'.isWritable (.int n)) = true := by
        rw [Bool.not_eq_true']
        exact hlong
      simp only [Schema.legible, Bool.and_eq_false_iff, Option.all_eq_false] at h
      rcases h with (⟨k, hk, hlong⟩ | ⟨k, hk, hlong⟩) | ⟨k, hk, hlong⟩
      · rcases hmin k hk with hone | hmem
        · rw [hone] at hlong
          cases hlong
        · exact ⟨_, hmem, hcount _ hlong⟩
      · exact ⟨_, hmax k hk, hcount _ hlong⟩
      · exact ⟨_, hlength k hk, hcount _ hlong⟩

end Base.Built

/-! ## Words that fail -/

theorem isWritable_of_written {writable : Bool} {text : String} {f : Fault}
    (h : written writable text = .error f) : writable = false := by
  cases writable with
  | true => cases h
  | false => rfl

theorem StringChecks.illegible_of_words {c : StringChecks} {st : Store} {v : Value}
    {x : Violation} {f : Fault} (h : c.judge st v = .ok (.violated x))
    (hwords : x.words = .error f) :
    (Schema.string c).legible st = false := by
  unfold StringChecks.judge at h
  split at h
  · have hmem := mem_of_ofClauses h
    simp only [List.mem_cons, List.not_mem_nil, or_false] at hmem
    rcases hmem with h | h | h | h | h | h <;>
      obtain ⟨k, hk, rfl⟩ := exists_of_clause h.symm
    · simp [Schema.legible, hk, isWritable_of_written hwords]
    · simp [Schema.legible, hk, isWritable_of_written hwords]
    · simp [Schema.legible, hk, isWritable_of_written hwords]
    all_goals cases hwords
  · cases h
    cases hwords

theorem NumberChecks.illegible_of_words {c : NumberChecks} {st : Store} {v : Value}
    {x : Violation} {f : Fault} (h : c.judge st v = .ok (.violated x))
    (hwords : x.words = .error f) :
    (Schema.number c).legible st = false := by
  unfold NumberChecks.judge at h
  split at h
  · split at h
    · unfold NumberChecks.judgeNumber at h
      split at h
      · cases h
        cases hwords
      · have hmem := mem_of_ofClauses h
        simp only [List.mem_cons, List.not_mem_nil, or_false] at hmem
        rcases hmem with h | h | h | h | h | h <;>
          obtain ⟨k, hk, rfl⟩ := exists_of_clause h.symm
        · cases hwords
        · simp [Schema.legible, hk, isWritable_of_written hwords]
        · simp [Schema.legible, hk, isWritable_of_written hwords]
        all_goals cases hwords
    · cases h
      cases hwords
  · cases h
    cases hwords

theorem DateChecks.words_ne_error {c : DateChecks} {st : Store} {v : Value} {x : Violation}
    (h : c.judge st v = .ok (.violated x)) (f : Fault) : x.words ≠ .error f := by
  intro hwords
  unfold DateChecks.judge at h
  dsimp only at h
  split at h
  · split at h
    · have hmem := mem_of_ofClauses h
      simp only [List.mem_cons, List.not_mem_nil, or_false] at hmem
      rcases hmem with h | h <;>
      · obtain ⟨k, -, rfl⟩ := exists_of_clause h.symm
        cases hwords
    · cases h
      cases hwords
  · cases h
    cases hwords

/-- There are default words for too few and too many elements, unless a bound of the array
cannot be written. -/
theorem illegible_of_mem_violatedBounds {element : Schema} {b : ArrayBounds} {size : Nat}
    {st : Store} {x : Violation} {f : Fault} (hx : x ∈ violatedBounds b size)
    (hwords : x.words = .error f) : (Schema.array element b).legible st = false := by
  simp only [violatedBounds, List.mem_append, Option.mem_toList, Option.map_eq_some_iff,
    Option.filter_eq_some_iff] at hx
  rcases hx with (⟨k, ⟨hk, -⟩, rfl⟩ | ⟨k, ⟨hk, -⟩, rfl⟩) | ⟨k, ⟨hk, -⟩, rfl⟩ <;>
    simp [Schema.legible, hk, isWritable_of_written hwords]

/-! ## Works that stop -/

section Stops

variable {σ α β : Type} {env : Setting σ} {mode : Mode} {depth : Nat} {P : Fault → World σ → Prop}

/-- Work that drops no promise, and that stops by certain faults only. -/
structure Engine.Stops (P : Fault → World σ → Prop) (e : Engine σ α) (c : Context)
    (w : World σ) : Prop where
  note {a c' w'} (h : e.runIn c w = (.ok a, c', w')) : c'.awaiting = c.awaiting
  fault {f c' w'} (h : e.runIn c w = (.error f, c', w')) : P f w'

namespace Engine.Stops

variable {e : Engine σ α} {c : Context} {w : World σ}

theorem of_ok {a : α} {c' : Context} {w' : World σ} (hrun : e.runIn c w = (.ok a, c', w'))
    (hnote : c'.awaiting = c.awaiting) : e.Stops P c w where
  note h := by
    rw [hrun] at h
    cases h
    exact hnote
  fault h := by
    rw [hrun] at h
    cases h

theorem mono {Q : Fault → World σ → Prop} (h : e.Stops P c w) (hPQ : ∀ f w', P f w' → Q f w') :
    e.Stops Q c w where
  note := h.note
  fault hrun := hPQ _ _ (h.fault hrun)

theorem bind {k : α → Engine σ β} (he : e.Stops P c w)
    (hk : ∀ a c₁ w₁, e.runIn c w = (.ok a, c₁, w₁) → (k a).Stops P c₁ w₁) :
    (e >>= k).Stops P c w where
  note h := by
    obtain ⟨a, c₁, w₁, hfirst, hrest⟩ := runIn_bind_ok_iff.mp h
    exact ((hk a c₁ w₁ hfirst).note hrest).trans (he.note hfirst)
  fault h := by
    rw [runIn_bind] at h
    rcases hfirst : e.runIn c w with ⟨f | a, c₁, w₁⟩
    · rw [hfirst] at h
      cases h
      exact he.fault hfirst
    · rw [hfirst] at h
      exact (hk a c₁ w₁ hfirst).fault h

theorem within {k : Key} (he : e.Stops P (c.push k) w) : (within k e).Stops P c w where
  note h := by
    obtain ⟨c₁, hrun, rfl⟩ := runIn_within_ok_iff.mp h
    have hnote : c₁.awaiting = c.awaiting := he.note hrun
    exact hnote
  fault h := by
    rw [runIn_within] at h
    rcases hrun : e.runIn (c.push k) w with ⟨f | a, c₁, w₁⟩ <;> rw [hrun] at h <;> cases h
    exact he.fault hrun

theorem lookingInto {v : Value} (he : e.Stops P (c.mark v) w) : (lookingInto v e).Stops P c w where
  note h := by
    obtain ⟨c₁, hrun, rfl⟩ := runIn_lookingInto_ok_iff.mp h
    rw [Context.awaiting_unmark, he.note hrun, Context.awaiting_mark]
  fault h := by
    rw [runIn_lookingInto] at h
    rcases hrun : e.runIn (c.mark v) w with ⟨f | a, c₁, w₁⟩ <;> rw [hrun] at h <;> cases h
    exact he.fault hrun

end Engine.Stops

/-- To add an error stops where there are no words for it. -/
theorem stops_addViolation {x : Violation} {c : Context} {w : World σ}
    (hwords : ∀ f, x.words = .error f → P f w) (hformat : ∀ f, env.Miswords f → P f w) :
    (Engine.addViolation env x).Stops P c w where
  note h := by
    obtain ⟨message, -, rfl, -⟩ := Engine.runIn_addViolation_ok_iff.mp h
    rfl
  fault {f c' w'} h := by
    rw [Engine.runIn_addViolation] at h
    cases hmessage : x.message env w.store with
    | ok words =>
        rw [hmessage] at h
        cases h
    | error g =>
        rw [hmessage] at h
        cases h
        unfold Violation.message at hmessage
        split at hmessage
        · rename_i g hg
          cases hmessage
          exact hwords _ hg
        · split at hmessage
          · cases hmessage
          · exact hformat _ ⟨_, _, _, _, hmessage⟩

theorem stops_refuse {x : Violation} {c : Context} {w : World σ}
    (hwords : ∀ f, x.words = .error f → P f w) (hformat : ∀ f, env.Miswords f → P f w) :
    (Engine.refuse env x).Stops P c w :=
  (stops_addViolation hwords hformat).bind fun _ _ _ _ => .of_ok (Engine.runIn_pure ..) rfl

theorem stops_addViolations {xs : List Violation} {c : Context} {w : World σ}
    (hwords : ∀ x ∈ xs, ∀ f, x.words = .error f → P f w) (hformat : ∀ f, env.Miswords f → P f w) :
    (addViolations env xs).Stops P c w := by
  induction xs generalizing c with
  | nil => exact .of_ok (Engine.runIn_pure ..) rfl
  | cons x xs ih =>
      refine (stops_addViolation (hwords x List.mem_cons_self) hformat).bind fun u c₁ w₁ hadd => ?_
      obtain ⟨-, -, -, rfl⟩ := Engine.runIn_addViolation_ok_iff.mp hadd
      exact ih fun y hy => hwords y (List.mem_cons_of_mem _ hy)

/-- To check items stops where there are more of them than are followed. -/
theorem stops_checkItems {child : Value → Engine σ Value} {v : Value}
    (hchild : ∀ u c w, (child u).Stops P c w) {more i : Nat}
    (hgrown : ∀ w', more + i < (w'.store.itemsOf v).length → P .exhausted w') (c : Context)
    (w : World σ) : (checkItems child v more i).Stops P c w := by
  induction more generalizing i c w with
  | zero =>
      refine .bind (.of_ok (Engine.runIn_store c w) rfl) ?_
      rintro _ _ _ ⟨⟩
      split
      · rename_i hmore
        exact ⟨nofun, by rintro _ _ _ ⟨⟩; exact hgrown w (by omega)⟩
      · exact .of_ok (Engine.runIn_pure ..) rfl
  | succ more ih =>
      refine .bind (.of_ok (Engine.runIn_store c w) rfl) ?_
      rintro _ _ _ ⟨⟩
      cases (w.store.itemsOf v)[i]? with
      | none => exact .of_ok (Engine.runIn_pure ..) rfl
      | some u =>
          refine .bind (.within (hchild u _ w)) fun result c₁ w₁ _ => ?_
          refine .bind (ih (fun w' h => hgrown w' (by omega)) c₁ w₁) ?_
          rintro ⟨results, failed⟩ c₂ w₂ -
          dsimp only
          split
          · exact .of_ok (Engine.runIn_pure ..) rfl
          · exact .of_ok (Engine.runIn_pure ..) rfl

/-! ## Checks against what is built -/

/-- The elements of what a row of calls starts from are checked without a fault. -/
def Base.Ends (env : Setting σ) (mode : Mode) (depth : Nat) : Base → Prop
  | array element => ∀ v c w, (check env mode depth element v).Stops (fun _ _ => False) c w
  | _ => True

/-- Why a check against what a row of calls has built stops by a fault: for a bound or a pattern
that some call has taken, for a template, or because there are more and more elements. -/
inductive Base.StopsBy (env : Setting σ) (base : Base) (calls : List Constraint) (depth : Nat)
    (v : Value) (w : World σ) : Fault → World σ → Prop
  | openBound {r left right w'} (hbase : base = .text ∨ base = .number)
      (hcalls : ∃ call ∈ calls, call.isOpen = true) :
      StopsBy env base calls depth v w (.incomparable r left right) w'
  | bytes {w'} (hbase : base = .text) (hcalls : ∃ call ∈ calls, call.isOfBytes = true) :
      StopsBy env base calls depth v w .bytesPattern w'
  | long {w'} (hcalls : ∃ call ∈ calls, call.isLong w'.store = true) :
      StopsBy env base calls depth v w .tooManyDigits w'
  | template {f w'} (h : env.Miswords f) : StopsBy env base calls depth v w f w'
  | grown {element w'} (hbase : base = .array element)
      (h : (w.store.itemsOf v).length + depth < (w'.store.itemsOf v).length) :
      StopsBy env base calls depth v w .exhausted w'

variable {st : Store} {calls : List Constraint} {base : Base} {s : Schema} {v : Value}
  {c : Context} {w : World σ}

/-- A judgement of a value that is no container stops for its own reasons. -/
theorem stops_of_judge? {j : Except Fault Judgement} (hj : s.judge? w.store v = some j)
    (hfault : ∀ f, j = .error f → P f w)
    (hwords : ∀ x f, j = .ok (.violated x) → x.words = .error f → P f w)
    (hformat : ∀ f, env.Miswords f → P f w) :
    (check env mode (depth + 1) s v).Stops P c w := by
  have hrun : (check env mode (depth + 1) s v).runIn c w = (settle env j).runIn c w :=
    runIn_checkLayer_of_judge? hj
  have hsettle : (settle env j).Stops P c w := by
    rcases j with f | u | x
    · exact ⟨nofun, by rintro _ _ _ ⟨⟩; exact hfault _ rfl⟩
    · exact .of_ok (Engine.runIn_pure ..) rfl
    · exact stops_refuse (fun f hf => hwords x f rfl hf) hformat
  exact ⟨fun h => hsettle.note (hrun ▸ h), fun h => hsettle.fault (hrun ▸ h)⟩

/-- A check against an array schema whose elements are checked without a fault stops for its
bounds, or where the array has grown. -/
theorem stops_checkArray {element : Schema} {b : ArrayBounds}
    (hchild : ∀ u c w, (check env mode depth element u).Stops (fun _ _ => False) c w)
    (hwords : ∀ x size f w', x ∈ violatedBounds b size → x.words = .error f → P f w')
    (hformat : ∀ f w', env.Miswords f → P f w')
    (hgrown : ∀ w', (w.store.itemsOf v).length + depth < (w'.store.itemsOf v).length →
      P .exhausted w') :
    (checkArray env depth (check env mode depth) element b v).Stops P c w := by
  refine .bind (.of_ok (Engine.runIn_store c w) rfl) ?_
  rintro _ _ _ ⟨⟩
  split
  · exact stops_refuse nofun fun f hf => hformat f w hf
  · refine .bind (.of_ok (Engine.runIn_context c w) rfl) ?_
    rintro _ _ _ ⟨⟩
    split
    · exact stops_refuse nofun fun f hf => hformat f w hf
    · have hitems := stops_checkItems (v := v) (i := 0)
        (fun u c w => (hchild u c w).mono (fun _ _ h => (h : False).elim)) hgrown (c.mark v) w
      refine hitems.lookingInto.bind fun done c₁ w₁ _ => ?_
      refine .bind (.of_ok (Engine.runIn_store c₁ w₁) rfl) ?_
      rintro _ _ _ ⟨⟩
      refine (stops_addViolations (fun x hx f hf => hwords x _ f w₁ hx hf)
        fun f hf => hformat f w₁ hf).bind fun _ _ _ _ => ?_
      exact .of_ok (Engine.runIn_pure ..) rfl

/-- A check against what a row of calls gives drops no promise, and stops for these reasons
only. -/
theorem stops_check (hs : base.Built st calls s) (hbase : base.Ends env mode depth) :
    (check env mode (depth + 1) s v).Stops (base.StopsBy env calls depth v w) c w := by
  have hlong {w' : World σ} {f : Fault} (hf : f = .tooManyDigits) (h : s.legible w'.store = false) :
      base.StopsBy env calls depth v w f w' := hf ▸ .long (hs.exists_long h)
  have hjudged {e : Fault} (h : s.judge? w.store v = some (.error e)) :
      base.StopsBy env calls depth v w e w := by
    rcases judge?_error h with hopen | hbytes
    · obtain ⟨hkind, hcalls⟩ := hs.exists_open hopen
      exact .openBound hkind hcalls
    · obtain ⟨hkind, hcalls⟩ := hs.exists_ofBytes hbytes
      exact .bytes hkind hcalls
  have hviolated {x : Violation} {f : Fault} (h : s.judge? w.store v = some (.ok (.violated x)))
      (hwords : x.words = .error f) : f = .tooManyDigits := (ofValue_of_judge? h).spelled f hwords
  cases hs with
  | text =>
      exact stops_of_judge? rfl (fun f hf => hjudged (congrArg some hf))
        (fun x f hx hf => hlong (hviolated (congrArg some hx) hf)
          (StringChecks.illegible_of_words hx hf)) fun f hf => .template hf
  | number =>
      exact stops_of_judge? rfl (fun f hf => hjudged (congrArg some hf))
        (fun x f hx hf => hlong (hviolated (congrArg some hx) hf)
          (NumberChecks.illegible_of_words hx hf)) fun f hf => .template hf
  | date =>
      exact stops_of_judge? rfl (fun f hf => hjudged (congrArg some hf))
        (fun x f hx hf => absurd hf (DateChecks.words_ne_error hx f)) fun f hf => .template hf
  | array =>
      refine stops_checkArray hbase (fun x size f w' hx hf => ?_) (fun f w' hf => .template hf)
        fun w' h => .grown rfl h
      obtain ⟨code, name, relation, k, -, rfl⟩ := Call.exists_of_mem_violatedBounds hx
      exact hlong (eq_tooManyDigits_of_written hf) (illegible_of_mem_violatedBounds hx hf)

/-- What a row of calls gives can stand in an array, if none has taken an open bound, one that
is too long or a pattern of bytes, and no template fails. -/
theorem ends_of_chain (hbuilt : base.chain st calls = .ok s) (hbase : base.Ends env mode depth)
    (hkind : ∀ element, base ≠ .array element) (hopen : ∀ call ∈ calls, call.isOpen = false)
    (hbytes : ∀ call ∈ calls, call.isOfBytes = false)
    (hlong : ∀ call ∈ calls, ∀ st', call.isLong st' = false) (hformat : ∀ f, ¬ env.Miswords f) :
    (Base.array s).Ends env mode (depth + 1) := by
  intro v c w
  refine (stops_check (Base.built_of_chain hbuilt) hbase).mono fun f w' h => ?_
  cases h with
  | openBound hbase hcalls =>
      obtain ⟨call, hmem, h⟩ := hcalls
      exact absurd (hopen call hmem) (by simp [h])
  | bytes hbase hcalls =>
      obtain ⟨call, hmem, h⟩ := hcalls
      exact absurd (hbytes call hmem) (by simp [h])
  | long hcalls =>
      obtain ⟨call, hmem, h⟩ := hcalls
      rw [hlong call hmem] at h
      cases h
  | template h => exact hformat _ h
  | grown hbase h => exact hkind _ hbase

/-! ## Whole values -/

/-- The rules answer at once. -/
def Setting.Prompt (env : Setting σ) : Prop :=
  ∀ rule ∈ env.rules, ∀ s v w later w',
    (env.testRule rule.check s v).runIn w ≠ (.ok (.pending later), w')

open Validate

/-- Rules that answer at once drop no promise. -/
theorem Rulings.answered (hprompt : env.Prompt) {rules : List Rule} (hrules : rules ⊆ env.rules)
    {xs : List Ruling} {w' : World σ} (h : Rulings env mode s v rules w xs w') :
    xs.any (·.2.isNone) = false := by
  induction h with
  | nil => rfl
  | cons hanswer _ ih =>
      rw [List.any_cons, ih fun _ h => hrules (List.mem_cons_of_mem _ h), Bool.or_false]
      cases hanswer with
      | dropped _ hpending =>
          exact absurd hpending (hprompt _ (hrules List.mem_cons_self) _ _ _ _ _)
      | _ => rfl

/-- The errors of a check of a value that is no container lie at the place of the context. -/
theorem areWritable_of_judge? {j : Except Fault Judgement} {r : Value} {c' : Context} {w' : World σ}
    (hj : s.judge? w.store v = some j)
    (h : (check env mode (depth + 1) s v).runIn {} w = (.ok r, c', w')) :
    ErrorRecord.areWritable c'.errors = true := by
  have hrun : (check env mode (depth + 1) s v).runIn {} w = (settle env j).runIn {} w :=
    runIn_checkLayer_of_judge? hj
  rw [hrun] at h
  rcases j with f | u | x
  · cases h
  · cases h
    rfl
  · obtain ⟨-, message, rfl, -⟩ := Engine.eq_addError_of_runIn_refuse h
    rfl

/-- Only an array has errors elsewhere than at its own place. -/
theorem exists_array_of_path (hs : base.Built st calls s) {r : Value} {c' : Context}
    {w' : World σ} (h : (check env mode (depth + 1) s v).runIn {} w = (.ok r, c', w'))
    (hpaths : ErrorRecord.areWritable c'.errors = false) : ∃ element, base = .array element := by
  cases hs with
  | array => exact ⟨_, rfl⟩
  | text => exact absurd hpaths (by simp [areWritable_of_judge? rfl h])
  | number => exact absurd hpaths (by simp [areWritable_of_judge? rfl h])
  | date => exact absurd hpaths (by simp [areWritable_of_judge? rfl h])

/-- A row of calls on the schema of texts, numbers, dates or arrays that refuses no bound
gives a schema against which every whole value is validated without a fault, but for these:
a text or a number is compared with a bound that does not count as a number, a text is
searched for a pattern of bytes, a bound is too long to be written into the words of the error,
a template fails, an array grows beyond all depth while its elements are checked, or the errors
of its elements have paths that cannot be written. -/
theorem constrained_value_ends (hprompt : env.Prompt) (hbuilt : base.chain st calls = .ok s)
    (hbase : base.Ends env mode depth) (entry : Entry) (v : Value) (w : World σ) :
    (∃ o w', (validate env mode (depth + 1) entry s v).runIn w = (.ok o, w')) ∨
      ∃ f w', (validate env mode (depth + 1) entry s v).runIn w = (.error f, w') ∧
        (base.StopsBy env calls depth v w f w' ∨
          f = .tooManyDigits ∧ (∃ element, base = .array element) ∧
            ∃ r c, (check env mode (depth + 1) s v).runIn {} w = (.ok r, c, w') ∧
              ErrorRecord.areWritable c.errors = false) := by
  have hs := Base.built_of_chain hbuilt
  have hstops : (check env mode (depth + 1) s v).Stops (base.StopsBy env calls depth v w) {} w :=
    stops_check hs hbase
  rcases hcheck : (check env mode (depth + 1) s v).runIn {} w with ⟨f | r, c₁, w₁⟩
  · exact .inr ⟨f, w₁, (validate_of_fault entry hcheck).2, .inl (hstops.fault hcheck)⟩
  · have hnote : c₁.awaiting = false := hstops.note hcheck
    by_cases hclean : c₁.errors = []
    · obtain ⟨-, xs, w₂, hxs, hrun⟩ := validate_of_clean entry hcheck hclean
      rw [hnote, Rulings.answered hprompt (fun _ h => h) hxs, Bool.or_false, ending_false,
        finish_rulingErrors] at hrun
      exact .inl ⟨_, w₂, hrun⟩
    · obtain ⟨-, hrun⟩ := validate_of_errors entry hcheck hclean
      rw [hnote, ending_false] at hrun
      cases hpaths : ErrorRecord.areWritable c₁.errors with
      | true =>
          rw [hpaths] at hrun
          exact .inl ⟨_, w₁, hrun⟩
      | false =>
          rw [hpaths] at hrun
          exact .inr ⟨_, w₁, hrun, .inr ⟨rfl, exists_array_of_path hs hcheck hpaths, r, c₁,
            rfl, hpaths⟩⟩

/-- Lists of texts that are not empty, and that are not empty themselves. -/
theorem constrained_value_ends_texts :
    ∃ text list, Base.text.chain {} [.min (.int 1) none] = .ok text ∧
      (Base.array text).chain {} [.max (.int 3) none, .nonempty none] = .ok list ∧
      ∃ o w', (validate idleHost .immediate 2 .safeParse list (.list [.text "", .null])).runIn
        { host := () } = (.ok o, w') := by
  obtain ⟨text, htext⟩ : ∃ s, Base.text.chain {} [.min (.int 1) none] = .ok s := ⟨_, rfl⟩
  obtain ⟨list, hlist⟩ : ∃ s, (Base.array text).chain {} [.max (.int 3) none, .nonempty none] =
    .ok s := ⟨_, rfl⟩
  have hformat (f : Fault) : ¬ idleHost.Miswords f := by
    rintro ⟨st, code, words, details, ⟨⟩⟩
  have helement : (Base.array text).Ends idleHost .immediate 1 :=
    ends_of_chain htext trivial nofun (List.forall_mem_singleton.mpr rfl)
      (List.forall_mem_singleton.mpr rfl) (List.forall_mem_singleton.mpr fun _ => rfl) hformat
  refine ⟨text, list, htext, hlist, ?_⟩
  have hprompt : idleHost.Prompt := fun _ h => by cases h
  rcases constrained_value_ends hprompt hlist helement .safeParse (.list [.text "", .null])
    { host := () } with hends | ⟨f, w', hrun, -⟩
  · exact hends
  · cases hlist
    cases htext
    have hnone : ((validate idleHost .immediate 2 .safeParse _ (.list [.text "", .null])).runIn
        { host := () }).1.toOption.isSome = false := congrArg (·.1.toOption.isSome) hrun
    exact absurd hnone (by decide +kernel)

/-- An open bound is taken, and the texts and the numbers that are compared with it are
not validated but fault. -/
theorem open_bound_faults :
    (∃ s, Base.text.chain {} [.min .null none] = .ok s ∧
      (validate idleHost .immediate 1 .safeParse s (.text "abc")).runIn { host := () } =
        (.error (.incomparable .less "int" "NoneType"), { host := () })) ∧
    ∃ s, Base.number.chain {} [.min .null none] = .ok s ∧
      (validate idleHost .immediate 1 .safeParse s (.int 5)).runIn { host := () } =
        (.error (.incomparable .less "int" "NoneType"), { host := () }) :=
  ⟨⟨_, rfl, rfl⟩, ⟨_, rfl, rfl⟩⟩

namespace Decimal

/-- The digits are not written down to be counted. -/
theorem fits_succ_iff (limit n : Nat) : fits (limit + 1) n = true ↔ n < 10 ^ (limit + 1) := by
  induction limit generalizing n with
  | zero => simp [fits]
  | succ limit ih =>
      rw [fits, Bool.or_eq_true, decide_eq_true_iff, ih, Nat.div_lt_iff_lt_mul (by decide),
        ← Nat.pow_succ]
      refine or_iff_right_of_imp fun hsmall => Nat.lt_of_lt_of_le hsmall ?_
      exact Nat.le_self_pow (by omega) 10

/-- An integer is written if it lies below the least one with too many digits. -/
theorem isWritable_iff (n : Int) : isWritable n = true ↔ n.natAbs < 10 ^ integerDigitLimit := by
  obtain ⟨k, hk⟩ : ∃ k, integerDigitLimit = k + 1 := ⟨_, rfl⟩
  rw [isWritable, hk]
  exact fits_succ_iff k n.natAbs

end Decimal

/-- A bound that is too long to be written is taken, and the numbers below it are not validated
but fault. -/
theorem long_bound_faults {n m : Int} (hlong : 10 ^ integerDigitLimit ≤ n) (hless : m < n)
    (st : Store) (entry : Entry) :
    ∃ s, Base.number.chain st [.min (.int n) none] = .ok s ∧
      (validate idleHost .immediate 1 entry s (.int m)).runIn { host := () } =
        (.error .tooManyDigits, { host := () }) := by
  refine ⟨_, rfl, ?_⟩
  have hbound : Decimal.isWritable n = false := by
    rw [← Bool.not_eq_true, Decimal.isWritable_iff, Nat.not_lt, ← Int.ofNat_le, Nat.cast_pow,
      Nat.cast_ofNat]
    exact hlong.trans Int.le_natAbs
  have hlt : (Number.int m).lt (.int n) = true := (Number.lt_int_iff m n).mpr hless
  have hjudged : ({ min := some ⟨some (.int n), none⟩ } : NumberChecks).judgeNumber (.int m) =
      .ok (.violated (boundViolation .numberMin "min" "at least" (.int m)
        ⟨some (.int n), none⟩)) := by
    simp [NumberChecks.judgeNumber, Judgement.ofClauses, firstViolation, clause, compareNumber,
      compareBound, Comparison.holds, Number.isNaN, hlt]
  have hjudge? : (Schema.number { min := some ⟨some (.int n), none⟩ }).judge? {} (.int m) =
      some (.ok (.violated _)) := congrArg some hjudged
  have hcheck : (check idleHost .immediate 1 (.number { min := some ⟨some (.int n), none⟩ })
      (.int m)).runIn {} { host := () } = (.error .tooManyDigits, {}, { host := () }) := by
    refine (runIn_checkLayer_of_judge? hjudge?).trans ?_
    show (Engine.refuse idleHost _).runIn {} { host := () } = _
    simp [Engine.runIn_refuse, Violation.message, boundViolation, Number.atom, Atom.isWritable,
      hbound]
  exact (validate_of_fault entry hcheck).2

end Stops

end Conform
