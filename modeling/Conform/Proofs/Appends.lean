import Conform.Proofs.Call

/-!
# Errors that are added

A check tells that it failed in two ways: it gives the marker `invalid`, and
it leaves errors on the context.

`Appends failed c c'` says that the errors of `c` stay in front of those of
`c'`, and that errors were added behind them exactly if `failed`. Every part
of a check keeps it, with `failed` read off what the part gives; here it is
proved for each part, given that the checks of what lies deeper keep it.

## Main results

* `appends_of_checkFields`, `appends_of_firstItems` — a loop over fields or
  elements adds errors exactly if it says that one failed.
* `appends_of_tryOptions`, `appends_of_tryMembers` — attempts leave the errors
  of their context alone.
* `isInvalid_of_mergeAll`, `isInvalid_of_judge?` — neither merging nor a
  judgement makes the marker.
-/

namespace Conform

/-- The errors of the first context are those of the second, with some added
behind them exactly if `failed`. -/
def Appends (failed : Bool) (c c' : Context) : Prop :=
  ∃ es, c'.errors = c.errors ++ es ∧ (failed = true ↔ es ≠ [])

namespace Appends

variable {a b : Bool} {c c₁ c' : Context}

theorem refl (c : Context) : Appends false c c := ⟨[], by simp, by simp⟩

/-- One more error. -/
theorem addError (c : Context) (e : ErrorRecord) : Appends true c (c.addError e) :=
  ⟨[e], rfl, by simp⟩

/-- What was added by one part and then by another was added by both. -/
theorem trans (h : Appends a c c₁) (h' : Appends b c₁ c') : Appends (a || b) c c' := by
  obtain ⟨es, hes, ha⟩ := h
  obtain ⟨fs, hfs, hb⟩ := h'
  refine ⟨es ++ fs, by rw [hfs, hes, List.append_assoc], ?_⟩
  rw [Bool.or_eq_true, ha, hb]
  simp only [ne_eq, List.append_eq_nil_iff, not_and_or]

/-- A change of the context that leaves the errors alone adds none. -/
theorem of_errors_eq (h : c'.errors = c.errors) : Appends false c c' := ⟨[], by simp [h], by simp⟩

theorem errors_eq (h : Appends false c c') : c'.errors = c.errors := by
  obtain ⟨es, hes, hnone⟩ := h
  have hnil : es = [] := by simpa using hnone
  rw [hes, hnil, List.append_nil]

/-- What is added one key further down is added. -/
theorem of_push {k : Key} (h : Appends a (c.push k) c') : Appends a c c'.pop := h

/-- What is added while a value is looked into is added. -/
theorem of_mark {v : Value} (h : Appends a (c.mark v) c') : Appends a c (c'.unmark v) := by
  simpa [Appends] using h

/-- An attempt that starts without errors has errors exactly if it failed. -/
theorem errors_isEmpty_eq (h : Appends a c.fork c') : c'.errors.isEmpty = !a := by
  obtain ⟨es, hes, ha⟩ := h
  have hes : c'.errors = es := by simpa [Context.fork] using hes
  rw [hes]
  cases a <;> cases es <;> simp_all

end Appends

namespace Traverse

variable {σ : Type} {env : Setting σ} {accepts : MissingTest σ} {child : Checker σ}
  {c c' : Context} {w w' : World σ}

@[simp] theorem isInvalid_eq_true_iff {v : Value} : isInvalid v = true ↔ v = .invalid := by
  unfold isInvalid
  split <;> simp_all

theorem isMissing_of_isInvalid {v : Value} (h : isInvalid v = true) : isMissing v = false := by
  rw [isInvalid_eq_true_iff.mp h]
  rfl

/-- A result that is the marker exactly where something failed. -/
theorem isInvalid_ite (failed : Bool) {u : Value} (hu : isInvalid u = false) :
    isInvalid (if failed then .invalid else u) = failed := by
  cases failed
  · exact hu
  · rfl

/-! ## Violations -/

theorem appends_of_addViolation {x : Violation} {u : Unit}
    (h : (Engine.addViolation env x).runIn c w = (.ok u, c', w')) : Appends true c c' := by
  obtain ⟨message, rfl, -⟩ := Engine.eq_addError_of_runIn_addViolation h
  exact .addError c _

theorem appends_of_refuse {x : Violation} {v : Value}
    (h : (Engine.refuse env x).runIn c w = (.ok v, c', w')) : Appends (isInvalid v) c c' := by
  obtain ⟨rfl, message, rfl, -⟩ := Engine.eq_addError_of_runIn_refuse h
  exact .addError c _

theorem appends_of_addViolations {xs : List Violation} {u : Unit}
    (h : (addViolations env xs).runIn c w = (.ok u, c', w')) : Appends (!xs.isEmpty) c c' := by
  induction xs generalizing c w with
  | nil =>
      simp only [addViolations, Engine.runIn_pure, Prod.mk.injEq] at h
      exact h.2.1 ▸ .refl c
  | cons x xs ih =>
      obtain ⟨u₁, c₁, w₁, hx, hxs⟩ := Engine.runIn_bind_ok_iff.mp h
      have happended := (appends_of_addViolation hx).trans (ih hxs)
      simpa using happended

/-! ## Objects and arrays -/

theorem appends_of_checkField {v : Value} {k : Key} {field : Schema}
    {out : Option Value × Bool}
    (hchild : ∀ u w₁ r c₁ w₂, Handed accepts v k field w u w₁ →
      (child field u).runIn (c.push k) w₁ = (.ok r, c₁, w₂) →
      Appends (isInvalid r) (c.push k) c₁)
    (h : (checkField env accepts child v k field).runIn c w = (.ok out, c', w')) :
    Appends out.2 c c' := by
  rcases cases_of_runIn_checkField h with
    ⟨u, w₁, r, c₁, hhanded, hrun, rfl, rfl⟩ | ⟨w₁, c₁, -, -, hadd, rfl, rfl⟩
  · have hfailed : (fieldOutcome r).2 = isInvalid r := by
      unfold fieldOutcome
      cases isInvalid r <;> cases isMissing r <;> rfl
    rw [hfailed]
    exact (hchild u w₁ r c₁ w' hhanded hrun).of_push
  · exact (appends_of_addViolation hadd).of_push

theorem appends_of_checkFields {v : Value} {fields : Entries Schema}
    (hchild : ∀ earlier k field later done c₁ w₁ u w₂ r c₂ w₃,
      fields = earlier ++ (k, field) :: later →
      (checkFields env accepts child v earlier).runIn c w = (.ok done, c₁, w₁) →
      Handed accepts v k field w₁ u w₂ →
      (child field u).runIn (c₁.push k) w₂ = (.ok r, c₂, w₃) →
      Appends (isInvalid r) (c₁.push k) c₂)
    {done : Entries Value × Bool}
    (h : (checkFields env accepts child v fields).runIn c w = (.ok done, c', w')) :
    Appends done.2 c c' := by
  induction fields using List.reverseRecOn generalizing done c' w' with
  | nil =>
      simp only [checkFields, Engine.runIn_pure, Prod.mk.injEq, Except.ok.injEq] at h
      obtain ⟨rfl, rfl, -⟩ := h
      exact .refl c
  | append_singleton fields e ih =>
      obtain ⟨k, field⟩ := e
      rw [checkFields_concat] at h
      obtain ⟨before, c₁, w₁, hbefore, h⟩ := Engine.runIn_bind_ok_iff.mp h
      obtain ⟨out, c₂, w₂, hout, h⟩ := Engine.runIn_bind_ok_iff.mp h
      simp only [Engine.runIn_pure, Prod.mk.injEq, Except.ok.injEq] at h
      obtain ⟨rfl, rfl, rfl⟩ := h
      have hfields := ih (fun earlier l other later done c₁ w₁ u w₂ r c₂ w₃ hsplit =>
        hchild earlier l other (later ++ [(k, field)]) done c₁ w₁ u w₂ r c₂ w₃
          (by simp [hsplit])) hbefore
      have hfield := appends_of_checkField
        (fun u w₂ r c₂ w₃ => hchild fields k field [] before c₁ w₁ u w₂ r c₂ w₃ rfl hbefore) hout
      exact hfields.trans hfield

theorem appends_of_firstItems {one : Value → Engine σ Value} {v : Value} {n : Nat}
    (hone : ∀ i u done c₁ w₁ r c₂ w₂, i < n →
      (firstItems one v i).runIn c w = (.ok done, c₁, w₁) →
      (w₁.store.itemsOf v)[i]? = some u →
      (one u).runIn (c₁.push (.index i)) w₁ = (.ok r, c₂, w₂) →
      Appends (isInvalid r) (c₁.push (.index i)) c₂)
    {done : List Value × Bool}
    (h : (firstItems one v n).runIn c w = (.ok done, c', w')) : Appends done.2 c c' := by
  induction n generalizing done c' w' with
  | zero =>
      simp only [firstItems, Engine.runIn_pure, Prod.mk.injEq, Except.ok.injEq] at h
      obtain ⟨rfl, rfl, -⟩ := h
      exact .refl c
  | succ n ih =>
      obtain ⟨before, c₁, w₁, hbefore, h⟩ := Engine.runIn_bind_ok_iff.mp h
      have hitems := ih (fun i u done c₁ w₁ r c₂ w₂ hi =>
        hone i u done c₁ w₁ r c₂ w₂ (Nat.lt_succ_of_lt hi)) hbefore
      rcases cases_of_runIn_nextItem h with
        ⟨-, rfl, rfl, rfl⟩ | ⟨u, r, c₂, hitem, hrun, rfl, rfl⟩
      · exact hitems
      · have hitem :=
          (hone n u before c₁ w₁ r c₂ w' (Nat.lt_succ_self n) hbefore hitem hrun).of_push
        have hfailed : (joinResult before r).2 = (before.2 || isInvalid r) := by
          unfold joinResult
          cases isInvalid r <;> simp
        rw [hfailed]
        exact hitems.trans hitem

theorem appends_of_finishObject {fields : Entries Schema} {unknown : UnknownKeys}
    {v : Value} {results : Entries Value} {failed : Bool} {c₁ : Context} {r : Value}
    (hfields : Appends failed c c₁)
    (h : (finishObject env fields unknown v results failed).runIn c₁ w = (.ok r, c', w')) :
    Appends (isInvalid r) c c' := by
  rcases cases_of_runIn_finishObject h with ⟨-, -, hrefuse⟩ | ⟨-, rfl, -, rfl⟩
  · obtain ⟨rfl, -⟩ := Engine.eq_addError_of_runIn_refuse hrefuse
    have happended := hfields.trans (appends_of_refuse hrefuse)
    simpa [isInvalid] using happended
  · rw [isInvalid_ite failed rfl]
    exact hfields

theorem appends_of_finishArray {bounds : ArrayBounds} {v : Value} {results : List Value}
    {failed : Bool} {c₁ : Context} {r : Value} (hitems : Appends failed c c₁)
    (h : (finishArray env bounds v results failed).runIn c₁ w = (.ok r, c', w')) :
    Appends (isInvalid r) c c' := by
  obtain ⟨hadd, rfl⟩ := runIn_finishArray_ok_iff.mp h
  rw [isInvalid_ite _ rfl]
  exact hitems.trans (appends_of_addViolations hadd)

/-! ## Unions and intersections -/

/-- An attempt leaves the errors of its context alone; its own errors tell
whether it failed. -/
theorem appends_of_speculate {work : Engine σ Value} {attempt : Value × List ErrorRecord}
    (hwork : ∀ r fork w₁, work.runIn c.fork w = (.ok r, fork, w₁) →
      Appends (isInvalid r) c.fork fork)
    (h : (Engine.speculate work).runIn c w = (.ok attempt, c', w')) :
    Appends false c c' ∧ attempt.2.isEmpty = !isInvalid attempt.1 := by
  obtain ⟨result, errors⟩ := attempt
  obtain ⟨fork, hrun, rfl, rfl⟩ := Engine.runIn_speculate_ok_iff.mp h
  exact ⟨.of_errors_eq rfl, (hwork result fork w' hrun).errors_isEmpty_eq⟩

theorem appends_of_tryOptions {v : Value} {options earlier : List Schema} {c₁ : Context}
    {w₁ : World σ} {failed : List (List ErrorRecord)}
    (hearlier : (tryMembers child v earlier).runIn c w = (.ok ([], failed), c₁, w₁))
    (hchild : ∀ before option later failed c₂ w₂ r fork w₃,
      earlier ++ options = before ++ option :: later →
      (tryMembers child v before).runIn c w = (.ok ([], failed), c₂, w₂) →
      (child option v).runIn c₂.fork w₂ = (.ok r, fork, w₃) → Appends (isInvalid r) c₂.fork fork)
    {groups : List (List ErrorRecord)} {r : Value}
    (h : (tryOptions env child v groups options).runIn c₁ w₁ = (.ok r, c', w')) :
    Appends (isInvalid r) c₁ c' := by
  induction options generalizing earlier c₁ w₁ failed groups with
  | nil => exact appends_of_refuse h
  | cons option options ih =>
      obtain ⟨attempt, c₂, w₂, hattempt, h⟩ := Engine.runIn_bind_ok_iff.mp h
      obtain ⟨hkept, hverdict⟩ := appends_of_speculate
        (hchild earlier option options failed c₁ w₁ · · · rfl hearlier) hattempt
      by_cases herrors : attempt.2.isEmpty
      · simp only [herrors, if_true, Engine.runIn_pure, Prod.mk.injEq, Except.ok.injEq] at h
        obtain ⟨rfl, rfl, -⟩ := h
        have hvalid : isInvalid attempt.1 = false := by simpa [herrors] using hverdict
        exact hvalid ▸ hkept
      · simp only [herrors, Bool.false_eq_true, if_false] at h
        have hfailed := runIn_tryMembers_failed hearlier hattempt (by simpa using herrors)
        have hmore := ih hfailed (fun before other later failed c₃ w₃ r fork w₄ hoptions =>
          hchild before other later failed c₃ w₃ r fork w₄ (by simpa using hoptions)) h
        simpa using hkept.trans hmore

/-- Members leave the errors of their context alone, and none of the results
that are kept is the marker. -/
theorem appends_of_tryMembers {v : Value} {members : List Schema}
    (hchild : ∀ earlier member later done c₁ w₁ r fork w₂,
      members = earlier ++ member :: later →
      (tryMembers child v earlier).runIn c w = (.ok done, c₁, w₁) →
      (child member v).runIn c₁.fork w₁ = (.ok r, fork, w₂) → Appends (isInvalid r) c₁.fork fork)
    {done : List Value × List (List ErrorRecord)}
    (h : (tryMembers child v members).runIn c w = (.ok done, c', w')) :
    Appends false c c' ∧ ∀ u ∈ done.1, isInvalid u = false := by
  induction members using List.reverseRecOn generalizing done c' w' with
  | nil =>
      simp only [tryMembers, Engine.runIn_pure, Prod.mk.injEq, Except.ok.injEq] at h
      obtain ⟨rfl, rfl, -⟩ := h
      exact ⟨.refl c, by simp⟩
  | append_singleton members member ih =>
      rw [tryMembers_concat] at h
      obtain ⟨before, c₁, w₁, hbefore, h⟩ := Engine.runIn_bind_ok_iff.mp h
      obtain ⟨attempt, c₂, w₂, hattempt, h⟩ := Engine.runIn_bind_ok_iff.mp h
      simp only [Engine.runIn_pure, Prod.mk.injEq, Except.ok.injEq] at h
      obtain ⟨rfl, rfl, rfl⟩ := h
      obtain ⟨hkept, hvalid⟩ := ih (fun earlier other later done c₁ w₁ r fork w₂ hsplit =>
        hchild earlier other (later ++ [member]) done c₁ w₁ r fork w₂ (by simp [hsplit])) hbefore
      obtain ⟨hkept', hverdict⟩ := appends_of_speculate
        (hchild members member [] before c₁ w₁ · · · rfl hbefore) hattempt
      refine ⟨hkept.trans hkept', fun u hu => ?_⟩
      unfold joinAttempt at hu
      by_cases herrors : attempt.2.isEmpty
      · simp only [herrors, if_true, List.mem_append, List.mem_singleton] at hu
        rcases hu with hu | rfl
        · exact hvalid u hu
        · simpa [herrors] using hverdict
      · simp only [herrors, Bool.false_eq_true, if_false] at hu
        exact hvalid u hu

/-- Merging makes no marker of a failed check. -/
theorem isInvalid_of_mergeValues {st : Store} {depth : Nat} {path : Path} {u v m : Value}
    (hu : isInvalid u = false) (hv : isInvalid v = false)
    (h : mergeValues st depth path u v = .ok m) : isInvalid m = false := by
  have hmapping : ∀ {merged : Except MergeFailure (Entries Value)},
      merged.map (Value.mapping false) = .ok m → isInvalid m = false := by
    rintro (_ | _) h <;> cases h
    rfl
  have hlist : ∀ {merged : Except MergeFailure (List Value)},
      merged.map Value.list = .ok m → isInvalid m = false := by
    rintro (_ | _) h <;> cases h
    rfl
  cases depth with
  | zero => cases h
  | succ depth =>
      unfold mergeValues at h
      split at h
      · cases h
        exact hv
      · cases h
        exact hu
      · split at h
        · cases h
          exact hu
        · cases h
      · split at h
        · exact hmapping h
        · split at h
          · split at h
            · exact hlist h
            · cases h
          · cases h

theorem isInvalid_of_mergeAll {st : Store} {depth : Nat} {first m : Value} {rest : List Value}
    (hfirst : isInvalid first = false) (hrest : ∀ u ∈ rest, isInvalid u = false)
    (h : mergeAll st depth first rest = .ok m) : isInvalid m = false := by
  induction rest generalizing first with
  | nil =>
      cases h
      exact hfirst
  | cons v rest ih =>
      simp only [mergeAll] at h
      split at h
      · rename_i merged hmerged
        have hvalid := isInvalid_of_mergeValues hfirst (hrest v (by simp)) hmerged
        exact ih hvalid (fun u hu => hrest u (by simp [hu])) h
      · cases h

theorem appends_of_combine {depth : Nat} {results : List Value}
    {groups : List (List ErrorRecord)} {r : Value} (hvalid : ∀ u ∈ results, isInvalid u = false)
    (h : (combine env depth results groups).runIn c w = (.ok r, c', w')) :
    Appends (isInvalid r) c c' := by
  unfold combine at h
  split at h
  · exact appends_of_refuse h
  · split at h
    · simp only [Engine.runIn_pure, Prod.mk.injEq, Except.ok.injEq] at h
      obtain ⟨rfl, rfl, -⟩ := h
      exact .refl c
    · rename_i first rest
      rw [Engine.runIn_bind_of_ok _ (Engine.runIn_store c w)] at h
      split at h
      · rename_i merged hmerged
        simp only [Engine.runIn_pure, Prod.mk.injEq, Except.ok.injEq] at h
        obtain ⟨rfl, rfl, -⟩ := h
        have hmerged := isInvalid_of_mergeAll (hvalid first (by simp))
          (fun u hu => hvalid u (by simp [hu])) hmerged
        exact hmerged ▸ .refl c
      · exact appends_of_refuse h
      · simp at h

/-! ## Single values and callbacks -/

theorem eq_of_ofClauses {v r : Value} {clauses : List (Except Fault (Option Violation))}
    (h : Judgement.ofClauses v clauses = .ok (.accepted r)) : r = v := by
  unfold Judgement.ofClauses at h
  split at h
  · cases h
  · cases h
  · cases h
    rfl

theorem eq_some_of_judgeWritten {read : String → Option Value} {code : BuiltinCode}
    {what : String} {st : Store} {v r : Value}
    (h : judgeWritten read code what st v = .accepted r) :
    ∃ text, v = .text text ∧ read text = some r := by
  unfold judgeWritten at h
  split at h
  · rename_i text
    split at h
    · rename_i hread
      cases h
      exact ⟨text, rfl, hread⟩
    · cases h
  · cases h

/-- Members of an enumeration are found among themselves, also the markers. -/
theorem mem_of_judgeMember {members : List Atom} {v r : Value}
    (h : judgeMember members v = .accepted r) :
    r = v ∧ ∃ a, v = .atom a ∧ (∃ b ∈ members, b.sameKind a = true) ∧
      (isMarker r = true → a ∈ members) := by
  cases v with
  | atom a =>
      simp only [judgeMember] at h
      split at h
      · rename_i hfound
        cases h
        obtain ⟨b, hb, hsame⟩ := List.any_eq_true.mp hfound
        refine ⟨rfl, a, rfl, ⟨b, hb, hsame⟩, fun hmarker => ?_⟩
        cases a <;> cases hmarker
        all_goals cases b <;> simp_all [Atom.sameKind, Atom.equal, Atom.count?, Atom.isBool]
      · cases h
  | _ => cases h

/-- What a schema without parts accepts is what it is handed if it takes any value, and an
atom else; a marker only if it is an enumeration that lists it. -/
theorem eq_or_atom_of_judge? {st : Store} {s : Schema} {v r : Value}
    (h : s.judge? st v = some (.ok (.accepted r))) :
    (s = .any ∧ r = v) ∨ ∃ a, r = .atom a ∧ (isMarker r = true →
      ∃ first rest, s = .enumeration first rest ∧ a ∈ first :: rest ∧ r = v) := by
  have hplain : ∀ a, r = .atom a → isMarker (.atom a) = false →
      (s = .any ∧ r = v) ∨ ∃ a, r = .atom a ∧ (isMarker r = true →
        ∃ first rest, s = .enumeration first rest ∧ a ∈ first :: rest ∧ r = v) := by
    rintro a rfl ha
    exact .inr ⟨a, rfl, fun hmarker => absurd hmarker (by simp [ha])⟩
  cases s with
  | any =>
      cases h
      exact .inl ⟨rfl, rfl⟩
  | string checks =>
      simp only [Schema.judge?, StringChecks.judge, Option.some.injEq] at h
      split at h
      · exact hplain _ (eq_of_ofClauses h) rfl
      · cases h
  | number checks =>
      simp only [Schema.judge?, NumberChecks.judge, NumberChecks.judgeNumber,
        Option.some.injEq] at h
      split at h
      · split at h
        · split at h
          · cases h
          · rename_i n _ _
            exact hplain _ (eq_of_ofClauses h) (by cases n <;> rfl)
        · cases h
      · cases h
  | boolean =>
      simp only [Schema.judge?, judgeBoolean, Option.some.injEq, Except.ok.injEq] at h
      split at h <;> cases h
      exact hplain _ rfl rfl
  | date checks =>
      simp only [Schema.judge?, DateChecks.judge, Option.some.injEq] at h
      split at h
      · rename_i a
        split at h
        · rename_i m hmoment
          exact hplain a (eq_of_ofClauses h) (by cases a <;> first | rfl | cases hmoment)
        · cases h
      · cases h
  | integerText =>
      simp only [Schema.judge?, Option.some.injEq, Except.ok.injEq] at h
      obtain ⟨text, -, hread⟩ := eq_some_of_judgeWritten h
      obtain ⟨n, -, rfl⟩ := Option.map_eq_some_iff.mp hread
      exact hplain _ rfl rfl
  | decimalText =>
      simp only [Schema.judge?, Option.some.injEq, Except.ok.injEq] at h
      obtain ⟨text, -, hread⟩ := eq_some_of_judgeWritten h
      obtain ⟨x, -, rfl⟩ := Option.map_eq_some_iff.mp hread
      exact hplain _ rfl rfl
  | enumeration first rest =>
      simp only [Schema.judge?, Option.some.injEq, Except.ok.injEq] at h
      obtain ⟨rfl, a, ha, -, hmarker⟩ := mem_of_judgeMember h
      exact .inr ⟨a, ha, fun h => ⟨first, rest, rfl, hmarker h, rfl⟩⟩
  | _ => cases h

/-- Only the leaf that takes any value, and an enumeration that lists it, can
accept the marker, and only if they are handed it. -/
theorem isInvalid_of_judge? {st : Store} {s : Schema} {v r : Value}
    (hany : s = .any → v ≠ .invalid)
    (hlisted : ∀ first rest, s = .enumeration first rest → v = .invalid → .invalid ∉ first :: rest)
    (h : s.judge? st v = some (.ok (.accepted r))) : isInvalid r = false := by
  refine Bool.eq_false_iff.mpr (isInvalid_eq_true_iff.not.mpr ?_)
  rintro rfl
  rcases eq_or_atom_of_judge? h with ⟨hs, hv⟩ | ⟨a, ha, hmarker⟩
  · exact hany hs hv.symm
  · obtain ⟨first, rest, hs, hmem, hv⟩ := hmarker rfl
    cases ha
    exact hlisted first rest hs hv.symm hmem

theorem appends_of_settle {j : Except Fault Judgement} {r : Value}
    (hvalid : ∀ u, j = .ok (.accepted u) → isInvalid u = false)
    (h : (settle env j).runIn c w = (.ok r, c', w')) : Appends (isInvalid r) c c' := by
  unfold settle at h
  split at h
  · simp at h
  · rename_i u
    simp only [Engine.runIn_pure, Prod.mk.injEq, Except.ok.injEq] at h
    obtain ⟨rfl, rfl, -⟩ := h
    exact hvalid u rfl ▸ .refl c
  · exact appends_of_refuse h

/-- A step keeps the errors before it; if it faults there is one more and the
result is the marker. -/
theorem appends_of_applyStep {step : Step} {v r : Value}
    (hstep : ∀ w₁, (step.applyTo env v).runIn w ≠ (.ok .invalid, w₁))
    (h : (applyStep env step v).runIn c w = (.ok r, c', w')) : Appends (isInvalid r) c c' := by
  rw [runIn_applyStep] at h
  rcases hrun : (step.applyTo env v).runIn w with ⟨f | u, w₁⟩
  · simp only [hrun, Prod.mk.injEq, Except.ok.injEq] at h
    obtain ⟨rfl, rfl, -⟩ := h
    exact .addError c _
  · simp only [hrun, Prod.mk.injEq, Except.ok.injEq] at h
    obtain ⟨rfl, rfl, -⟩ := h
    have hvalid : isInvalid u = false := by
      refine Bool.eq_false_iff.mpr (isInvalid_eq_true_iff.not.mpr ?_)
      rintro rfl
      exact hstep w₁ hrun
    exact hvalid ▸ .refl c

/-- Asking adds no error. -/
theorem appends_of_ask {mode : Mode} {test : Act σ (Reply σ)} {answer : Option (Except Fault Bool)}
    (h : (ask mode test).runIn c w = (.ok answer, c', w')) : Appends false c c' := by
  rw [runIn_ask] at h
  split at h
  · cases h
    exact .refl c
  · cases h
    exact .refl c
  · cases mode with
    | immediate =>
        cases h
        exact .of_errors_eq rfl
    | awaited =>
        simp only at h
        split at h <;>
        · cases h
          exact .of_errors_eq rfl

theorem appends_of_askAbout {mode : Mode} {id : Nat} {words : Option String} {code : Code}
    {v r : Value} (hv : isInvalid v = false)
    (h : (askAbout env mode id words code v).runIn c w = (.ok r, c', w')) :
    Appends (isInvalid r) c c' := by
  obtain ⟨answer, c₁, w₁, hask, hdone⟩ := Engine.runIn_bind_ok_iff.mp h
  have hasked := appends_of_ask hask
  have hfailed : ∀ message, (do
      Engine.addWorded code message none
      return .invalid : Engine σ Value).runIn c₁ w₁ = (.ok r, c', w') →
      Appends (isInvalid r) c c' := by
    intro message hrun
    cases hrun
    exact hasked.trans (.addError c₁ _)
  split at hdone
  · cases hdone
    exact hv ▸ hasked
  · cases hdone
    exact hv ▸ hasked
  · exact hfailed _ hdone
  · exact hfailed _ hdone

end Traverse

end Conform
