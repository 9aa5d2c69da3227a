import Mathlib.Data.List.Induction
import Conform.Proofs.Chaining
import Conform.Proofs.Chronology

/-!
# Windows of time

A schema of dates has a bound below or above, both or none. A bound may be a date or a
moment, with an offset or without one, and so may the value that is checked. All of them
stand for instants, and the schema accepts what lies in an interval of instants.

A bound that is given replaces the one that was there on its side.

## Main definitions

* `TimePoint` — a date or a moment that stands in the calendar, with its instant.
* `InWindow` — between two instants, either of which may be left open.
* `WindowBound` — a bound with its words, as a call on the schema.

## Main results

* `DateChecks.exists_judge?` — how a date or a moment is judged.
* `WindowBound.exists_chain` — what a row of bounds gives.
* `date_window_is_interval` — what the schema accepts.
-/

namespace Conform

/-! ## Points in time -/

/-- A date or a moment that stands in the calendar. -/
inductive TimePoint where
  | date (d : Date) (valid : d.Valid)
  | moment (m : Moment) (valid : m.Valid)

namespace TimePoint

/-- The value that is checked, or given as a bound. -/
def value : TimePoint → Value
  | date d _ => .atom (.date d)
  | moment m _ => .atom (.moment m)

/-- The microseconds since the first day of the calendar in universal time. A date is at its
midnight, and without an offset both are in universal time. -/
def instant : TimePoint → Int
  | date d _ => (d.ordinal : Int) * 86400 * 1000000
  | moment m _ => (m.localSeconds : Int) * 1000000 + m.micro - m.offset.getD 0

/-- What is compared. -/
def toMoment : TimePoint → Moment
  | date d _ => d.midnight
  | moment m _ => m

theorem instant_toMoment (t : TimePoint) : t.toMoment.instant = t.instant := by
  cases t with
  | date d valid => exact d.instant_midnight
  | moment m valid => rfl

theorem valid_toMoment (t : TimePoint) : t.toMoment.Valid := by
  cases t with
  | date d valid =>
      exact ⟨valid, Nat.zero_lt_succ _, Nat.zero_lt_succ _, Nat.zero_lt_succ _, Nat.zero_lt_succ _⟩
  | moment m valid => exact valid

theorem momentBound_value (st : Store) (name : String) (t : TimePoint) :
    Schema.momentBound st name t.value = .ok t.toMoment := by
  cases t <;> rfl

end TimePoint

/-! ## Windows -/

/-- Between two instants, either of which may be left open. -/
def InWindow (earliest latest : Option Int) (i : Int) : Prop :=
  (∀ e ∈ earliest, e ≤ i) ∧ ∀ l ∈ latest, i ≤ l

instance (earliest latest : Option Int) (i : Int) : Decidable (InWindow earliest latest i) :=
  inferInstanceAs (Decidable (_ ∧ _))

namespace DateChecks

/-- The bounds stand in the calendar. -/
structure Valid (c : DateChecks) : Prop where
  min : ∀ k ∈ c.min, k.value.Valid
  max : ∀ k ∈ c.max, k.value.Valid

/-- The instant of the lower bound. -/
def earliest (c : DateChecks) : Option Int := c.min.map (·.value.instant)

/-- The instant of the upper bound. -/
def latest (c : DateChecks) : Option Int := c.max.map (·.value.instant)

variable {c : DateChecks}

/-- A clause that compares finds its violation exactly where the comparison holds. -/
theorem clause_compare {α : Type} (check : Option (Check α)) (p : α → Bool)
    (report : Check α → Violation) :
    clause check (fun b => .ok (p b)) report = .ok ((check.filter (p ·.value)).map report) := by
  cases check with
  | none => rfl
  | some k => cases h : p k.value <;> simp [clause, Option.filter, h]

/-- No bound is broken exactly by what lies between their instants. -/
theorem inWindow_iff (hc : c.Valid) (t : TimePoint) :
    InWindow c.earliest c.latest t.instant ↔
      c.min.filter (t.toMoment.precedes ·.value) = none ∧
        c.max.filter (·.value.precedes t.toMoment) = none := by
  rw [InWindow, ← t.instant_toMoment]
  refine and_congr ?_ ?_
  · simp only [earliest, Option.mem_map, forall_exists_index, and_imp, forall_apply_eq_imp_iff₂,
      Option.filter_eq_none_iff]
    refine forall₂_congr fun k hk => ?_
    rw [Moment.precedes_iff t.valid_toMoment (hc.min k hk), Int.not_lt]
  · simp only [latest, Option.mem_map, forall_exists_index, and_imp, forall_apply_eq_imp_iff₂,
      Option.filter_eq_none_iff]
    refine forall₂_congr fun k hk => ?_
    rw [Moment.precedes_iff (hc.max k hk) t.valid_toMoment, Int.not_lt]

/-- The judgement of a date or a moment hangs on its instant only. -/
theorem exists_judge? (hc : c.Valid) (st : Store) (t : TimePoint) :
    ∃ x, (Schema.date c).judge? st t.value =
      some (.ok (if InWindow c.earliest c.latest t.instant then .accepted t.value else
        .violated x)) := by
  have hjudge : (Schema.date c).judge? st t.value = some (Judgement.ofClauses t.value [
      clause c.min (fun b => .ok (t.toMoment.precedes b))
        (momentViolation .dateMin "min" "after" t.toMoment),
      clause c.max (fun b => .ok (b.precedes t.toMoment))
        (momentViolation .dateMax "max" "before" t.toMoment)]) := by
    cases t <;> rfl
  rw [hjudge, clause_compare, clause_compare]
  have hin := inWindow_iff hc t
  cases hmin : c.min.filter (t.toMoment.precedes ·.value) with
  | some k => exact ⟨_, by rw [if_neg fun h => by simp [hin, hmin] at h]; rfl⟩
  | none =>
      cases hmax : c.max.filter (·.value.precedes t.toMoment) with
      | some k => exact ⟨_, by rw [if_neg fun h => by simp [hin, hmax] at h]; rfl⟩
      | none => exact ⟨⟨.dateMin, none, .ok "", none⟩, by rw [if_pos (hin.mpr ⟨hmin, hmax⟩)]; rfl⟩

end DateChecks

/-! ## Bounds one after another -/

/-- A call that bounds a window, with the words for what it leaves out. -/
inductive WindowBound where
  | min (t : TimePoint) (words : Option String)
  | max (t : TimePoint) (words : Option String)

namespace WindowBound

/-- The call on the schema. -/
def call : WindowBound → Constraint
  | min t words => .min t.value words
  | max t words => .max t.value words

/-- The instant that a bound below puts first. -/
def earliest? : WindowBound → Option Int
  | min t _ => some t.instant
  | max _ _ => none

/-- The instant that a bound above puts last. -/
def latest? : WindowBound → Option Int
  | min _ _ => none
  | max t _ => some t.instant

/-- The instant a row of bounds starts at: that of its last bound below. -/
def earliest (bounds : List WindowBound) : Option Int := (bounds.filterMap earliest?).getLast?

/-- The instant a row of bounds ends at: that of its last bound above. -/
def latest (bounds : List WindowBound) : Option Int := (bounds.filterMap latest?).getLast?

theorem earliest_concat (bounds : List WindowBound) (b : WindowBound) :
    earliest (bounds ++ [b]) = b.earliest?.or (earliest bounds) := by
  cases b <;> simp [earliest, earliest?, List.filterMap_cons]

theorem latest_concat (bounds : List WindowBound) (b : WindowBound) :
    latest (bounds ++ [b]) = b.latest?.or (latest bounds) := by
  cases b <;> simp [latest, latest?, List.filterMap_cons]

/-- A bound is never refused, and replaces the one that was there on its side. -/
theorem exists_addTo (st : Store) {c : DateChecks} (hc : c.Valid) (b : WindowBound) :
    ∃ c', b.call.addTo st (.date c) = .ok (.date c') ∧ c'.Valid ∧
      c'.earliest = b.earliest?.or c.earliest ∧ c'.latest = b.latest?.or c.latest := by
  cases b with
  | min t words =>
      refine ⟨{ c with min := some ⟨t.toMoment, words⟩ }, ?_, ⟨?_, hc.max⟩, ?_, rfl⟩
      · simp only [call, Constraint.addTo, Schema.min, t.momentBound_value]
        rfl
      · rintro k ⟨rfl⟩
        exact t.valid_toMoment
      · exact congrArg some t.instant_toMoment
  | max t words =>
      refine ⟨{ c with max := some ⟨t.toMoment, words⟩ }, ?_, ⟨hc.min, ?_⟩, rfl, ?_⟩
      · simp only [call, Constraint.addTo, Schema.max, t.momentBound_value]
        rfl
      · rintro k ⟨rfl⟩
        exact t.valid_toMoment
      · exact congrArg some t.instant_toMoment

/-- A row of bounds gives the schema of dates whose window lies between the last ones. -/
theorem exists_chain (st : Store) (bounds : List WindowBound) :
    ∃ c, Base.date.chain st (bounds.map call) = .ok (.date c) ∧ c.Valid ∧
      c.earliest = earliest bounds ∧ c.latest = latest bounds := by
  induction bounds using List.reverseRecOn with
  | nil => exact ⟨{}, rfl, ⟨nofun, nofun⟩, rfl, rfl⟩
  | append_singleton bounds b ih =>
      obtain ⟨c, hchain, hc, hearliest, hlatest⟩ := ih
      obtain ⟨c', hcall, hc', hearliest', hlatest'⟩ := exists_addTo st hc b
      refine ⟨c', ?_, hc', ?_, ?_⟩
      · rw [Base.chain] at hchain ⊢
        rw [List.map_append, List.foldlM_append, hchain]
        simp [hcall, bind, Except.bind, pure, Except.pure]
      · rw [hearliest', hearliest, earliest_concat]
      · rw [hlatest', hlatest, latest_concat]

end WindowBound

/-! ## The check -/

open Traverse Validate

/-- Without rules, a point in time is accepted as it is. -/
def Schema.TakesPoint {σ : Type} (s : Schema) (env : Setting σ) (mode : Mode) (depth : Nat)
    (entry : Entry) (w : World σ) (t : TimePoint) : Prop :=
  (validate { env with rules := [] } mode depth entry s t.value).runIn w =
    (.ok (.accepted t.value), w)

theorem TimePoint.isMissing_value (t : TimePoint) : isMissing t.value = false := by
  cases t <;> rfl

section Windows

variable {σ : Type} {env : Setting σ} {mode : Mode} {depth : Nat} {entry : Entry} {w w' : World σ}
  {c : DateChecks} {t : TimePoint} {u : Value}

/-- Without rules, what lies in the window is accepted as it is, and nothing else is. -/
theorem validate_date_iff (hc : c.Valid) :
    (validate { env with rules := [] } mode (depth + 1) entry (.date c) t.value).runIn w =
      (.ok (.accepted u), w') ↔ InWindow c.earliest c.latest t.instant ∧ u = t.value ∧ w' = w := by
  obtain ⟨x, hjudged⟩ := DateChecks.exists_judge? hc w.store t
  exact accepted_iff_of_judge? entry rfl t.isMissing_value hjudged

theorem takesPoint_date_iff (hc : c.Valid) :
    (Schema.date c).TakesPoint env mode (depth + 1) entry w t ↔
      InWindow c.earliest c.latest t.instant := by
  rw [Schema.TakesPoint, validate_date_iff hc]
  simp

end Windows

/-- What a row of bounds gives is a window of instants. It takes a date or a moment exactly
if its instant lies between those of the last bounds given, ends included. So it takes
whatever lies between two points that it takes, all that is later than one if there is no
bound above, and all that is earlier if there is none below; and how a point or a bound is
written makes no difference where its instant is the same. -/
theorem date_window_is_interval (st : Store) (bounds : List WindowBound) :
    ∃ s, Base.date.chain st (bounds.map WindowBound.call) = .ok s ∧
      ∀ {σ : Type} (env : Setting σ) (mode : Mode) (depth : Nat) (entry : Entry) (w : World σ),
        (∀ (t : TimePoint) u w' c c',
          (check env mode (depth + 1) s t.value).runIn c w = (.ok u, c', w') ∧
            c'.errors = c.errors ↔
          InWindow (WindowBound.earliest bounds) (WindowBound.latest bounds) t.instant ∧
            u = t.value ∧ c' = c ∧ w' = w) ∧
        (∀ (t : TimePoint) u w',
          (validate { env with rules := [] } mode (depth + 1) entry s t.value).runIn w =
            (.ok (.accepted u), w') ↔
          InWindow (WindowBound.earliest bounds) (WindowBound.latest bounds) t.instant ∧
            u = t.value ∧ w' = w) ∧
        (∀ t₁ t t₂ : TimePoint,
          (t₁.instant ≤ t.instant ∨ WindowBound.earliest bounds = none) →
          (t.instant ≤ t₂.instant ∨ WindowBound.latest bounds = none) →
          s.TakesPoint env mode (depth + 1) entry w t₁ →
          s.TakesPoint env mode (depth + 1) entry w t₂ →
          s.TakesPoint env mode (depth + 1) entry w t) ∧
        ∀ bounds' s', Base.date.chain st (bounds'.map WindowBound.call) = .ok s' →
          WindowBound.earliest bounds' = WindowBound.earliest bounds →
          WindowBound.latest bounds' = WindowBound.latest bounds →
          ∀ t t' : TimePoint, t.instant = t'.instant →
            (s.TakesPoint env mode (depth + 1) entry w t ↔
              s'.TakesPoint env mode (depth + 1) entry w t') := by
  obtain ⟨c, hchain, hc, hearliest, hlatest⟩ := WindowBound.exists_chain st bounds
  refine ⟨_, hchain, fun env mode depth entry w => ⟨?_, ?_, ?_, ?_⟩⟩
  · intro t u w' cx cx'
    obtain ⟨x, hjudged⟩ := DateChecks.exists_judge? hc w.store t
    rw [← hearliest, ← hlatest]
    exact check_finds_nothing_iff hjudged
  · intro t u w'
    rw [← hearliest, ← hlatest]
    exact validate_date_iff hc
  · intro t₁ t t₂ hlower hupper h₁ h₂
    rw [takesPoint_date_iff hc] at h₁ h₂ ⊢
    rw [← hearliest] at hlower
    rw [← hlatest] at hupper
    refine ⟨fun e he => ?_, fun l hl => ?_⟩
    · rcases hlower with hle | hnone
      · exact (h₁.1 e he).trans hle
      · exact absurd (hnone ▸ he) (Option.not_mem_none e)
    · rcases hupper with hle | hnone
      · exact hle.trans (h₂.2 l hl)
      · exact absurd (hnone ▸ hl) (Option.not_mem_none l)
  · intro bounds' s' hchain' hlower hupper t t' hinstant
    obtain ⟨c', hbuilt, hc', hearliest', hlatest'⟩ := WindowBound.exists_chain st bounds'
    obtain rfl : Schema.date c' = s' := Except.ok.inj (hbuilt.symm.trans hchain')
    rw [takesPoint_date_iff hc, takesPoint_date_iff hc', hearliest, hlatest, hearliest', hlatest',
      hlower, hupper, hinstant]

end Conform
