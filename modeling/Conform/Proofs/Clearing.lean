import Conform.Proofs.Appends
import Conform.Proofs.Capture
import Conform.Proofs.Merging

/-!
# Calls that clear

A call clears its value if it ends by a value and finds nothing. A value is accepted
exactly if the call for it clears it and no rule objects.

How a call clears is told by the calls that it makes, one constructor of `Call.Clearing`
for each way: every field and every element is cleared by a call of its own, and so is
every member of an intersection, while of the options of a union one is enough. Nothing
is said of the order of these calls, nor of calls that find something and whose errors
are dropped.

## Main results

* `Call.clearing_of_clears` — how a call clears.
* `Validate.clears_of_accepted` — a value that is accepted is cleared.
-/

namespace Conform

open Traverse

/-! ## Contexts to which nothing is added -/

/-- What has come back with no more errors had no more in between. -/
theorem eq_between {α : Type} {xs ys zs : List α} (h : xs <+: ys) (h' : ys <+: zs)
    (hsame : zs = xs) : ys = xs :=
  (h.eq_of_length_le ((hsame ▸ h').length_le)).symm

theorem eq_missing_of_isMissing {v : Value} (h : isMissing v = true) : v = .missing := by
  unfold isMissing at h
  split at h
  · rfl
  · cases h

theorem errors_ne_of_refuse {σ : Type} {env : Setting σ} {x : Violation} {r : Value}
    {c c' : Context} {w w' : World σ}
    (h : (Engine.refuse env x).runIn c w = (.ok r, c', w')) : c'.errors ≠ c.errors := by
  obtain ⟨-, message, rfl, -⟩ := Engine.eq_addError_of_runIn_refuse h
  simp [Context.addError]

theorem errors_ne_of_addViolations {σ : Type} {env : Setting σ} {x : Violation}
    {xs : List Violation} {u : Unit} {c c' : Context} {w w' : World σ}
    (h : (addViolations env (x :: xs)).runIn c w = (.ok u, c', w')) : c'.errors ≠ c.errors := by
  obtain ⟨_, c₁, w₁, hadd, hrest⟩ := Engine.runIn_bind_ok_iff.mp h
  obtain ⟨message, rfl, -⟩ := Engine.eq_addError_of_runIn_addViolation hadd
  have hback := (Carry.of_addViolations (Carry.restoring_settings env .immediate) hrest).errors
  intro hsame
  have hlength := hback.length_le
  simp [hsame, Context.addError] at hlength

namespace Call

variable {σ : Type} {env : Setting σ} {mode : Mode}

/-- A call clears its value: it ends by a value and adds no error. -/
def Clears (env : Setting σ) (mode : Mode) (f : Call σ) (r : Value) : Prop :=
  ∃ c' w', f.run env mode = (.ok r, c', w') ∧ c'.errors = f.context.errors

/-- A call makes a call that clears its value. -/
def SeesClear (env : Setting σ) (mode : Mode) (f g : Call σ) (r : Value) : Prop :=
  Makes env mode f g ∧ g.Clears env mode r

/-- A field is cleared, and this is what it gives: by a call for its value, or by one for its
absence if it accepts that where it is asked. -/
def FieldGives (env : Setting σ) (mode : Mode) (f : Call σ) (depth : Nat) (k : Key)
    (field : Schema) (r : Value) : Prop :=
  ∃ g w₁, f.SeesClear env mode g r ∧ g.schema = field ∧ env.After f.world w₁ ∧
    Handed (env.acceptsMissing depth) f.value k field w₁ g.value g.world

/-- The element at a place is cleared, as it is when its turn comes. -/
def ClearsElement (env : Setting σ) (mode : Mode) (f : Call σ) (element : Schema) (i : Nat) :
    Prop :=
  ∃ g r, f.SeesClear env mode g r ∧ g.schema = element ∧ env.After f.world g.world ∧
    (g.world.store.itemsOf f.value)[i]? = some g.value

/-- Whether a call hands its value, or the copy of a default, to one other call and gives
what this gives. -/
def wraps (f : Call σ) : Bool :=
  match f.schema with
  | .optional _ => true
  | .nullable _ => true
  | .withDefault _ _ => true
  | .refine _ _ _ _ => true
  | .deferred _ => true
  | _ => false

/-- How a call clears its value, by the calls that it makes. -/
inductive Clearing (env : Setting σ) (mode : Mode) : Call σ → Value → Prop
  | single {depth s v c w r} (h : s.judge? w.store v = some (.ok (.accepted r))) :
      Clearing env mode ⟨depth + 1, s, v, c, w⟩ r
  /-- If a field is marked as failed though nothing was found, so is the object. The keys
  that are not declared are those that are there in the end. -/
  | object {depth fields unknown v c w w₁ results} {failed : Bool}
      (hobject : (w.store.entries? v).isNone = false) (hafter : env.After w w₁)
      (hstrict : unknown = .strict → undeclared fields (w₁.store.entriesOf v) = [])
      (hfields : ∀ e ∈ fields,
        ∃ u, FieldGives env mode ⟨depth + 1, .object fields unknown, v, c, w⟩ depth e.1 e.2 u)
      (hresults : ∀ e ∈ results, e.1 ∈ fields.keys ∧ isMarker e.2 = false ∧
        ∃ g, SeesClear env mode ⟨depth + 1, .object fields unknown, v, c, w⟩ g e.2)
      (hfailed : failed = true →
        ∃ g, SeesClear env mode ⟨depth + 1, .object fields unknown, v, c, w⟩ g .invalid) :
      Clearing env mode ⟨depth + 1, .object fields unknown, v, c, w⟩
        (if failed then .invalid
          else .mapping false (results ++
            if unknown = .passthrough then undeclared fields (w₁.store.entriesOf v) else []))
  /-- The elements that count are those that are there in the end. -/
  | array {depth element bounds v c w w₁ results} {failed : Bool}
      (harray : (w.store.items? v).isNone = false) (hafter : env.After w w₁)
      (hbounds : violatedBounds bounds (w₁.store.itemsOf v).length = [])
      (hall : ∀ i < (w₁.store.itemsOf v).length,
        ClearsElement env mode ⟨depth + 1, .array element bounds, v, c, w⟩ element i)
      (hresults : ∀ x ∈ results, x = .null ∨ isMarker x = false ∧
        ∃ g, SeesClear env mode ⟨depth + 1, .array element bounds, v, c, w⟩ g x)
      (hfailed : failed = true →
        ∃ g, SeesClear env mode ⟨depth + 1, .array element bounds, v, c, w⟩ g .invalid) :
      Clearing env mode ⟨depth + 1, .array element bounds, v, c, w⟩
        (if failed then .invalid else .list results)
  | option {depth first rest v c w g r}
      (h : SeesClear env mode ⟨depth + 1, .union first rest, v, c, w⟩ g r)
      (hschema : g.schema ∈ first :: rest) (hvalue : g.value = v) :
      Clearing env mode ⟨depth + 1, .union first rest, v, c, w⟩ r
  | members {depth first rest v c w results w₁ r}
      (hall : ∀ s ∈ first :: rest, ∃ g u,
        SeesClear env mode ⟨depth + 1, .intersection first rest, v, c, w⟩ g u ∧ g.schema = s ∧
          g.value = v)
      (hresults : ∀ u ∈ results,
        ∃ g, SeesClear env mode ⟨depth + 1, .intersection first rest, v, c, w⟩ g u)
      (hafter : env.After w w₁)
      (hmerged : r = .missing ∨
        ∃ u us, results = u :: us ∧ mergeAll w₁.store depth u us = .ok r) :
      Clearing env mode ⟨depth + 1, .intersection first rest, v, c, w⟩ r
  | absent {depth inner c w} :
      Clearing env mode ⟨depth + 1, .optional inner, .missing, c, w⟩ .missing
  | null {depth inner c w} : Clearing env mode ⟨depth + 1, .nullable inner, .null, c, w⟩ .null
  | inner {f g r} (h : SeesClear env mode f g r) (hwraps : f.wraps = true) : Clearing env mode f r
  | kept {depth inner step v c w u}
      (h : SeesClear env mode ⟨depth + 1, .transform inner step, v, c, w⟩ ⟨depth, inner, v, c, w⟩ u)
      (hmarker : isMarker u = true) :
      Clearing env mode ⟨depth + 1, .transform inner step, v, c, w⟩ u
  | applied {depth inner step v c w u w₁ r w₂}
      (h : SeesClear env mode ⟨depth + 1, .transform inner step, v, c, w⟩ ⟨depth, inner, v, c, w⟩ u)
      (hmarker : isMarker u = false) (hafter : env.After w w₁)
      (hstep : (step.applyTo env u).runIn w₁ = (.ok r, w₂)) :
      Clearing env mode ⟨depth + 1, .transform inner step, v, c, w⟩ r

/-! ## Single values and callbacks -/

theorem accepted_of_settle {j : Except Fault Judgement} {r : Value} {c c' : Context}
    {w w' : World σ} (h : (settle env j).runIn c w = (.ok r, c', w'))
    (hclear : c'.errors = c.errors) : j = .ok (.accepted r) := by
  unfold settle at h
  split at h
  · cases h
  · cases h
    rfl
  · exact absurd hclear (errors_ne_of_refuse h)

/-- A predicate that leaves no error leaves the value that it was asked about. -/
theorem eq_of_askAbout {id : Nat} {words : Option String} {code : Code} {v r : Value}
    {c c' : Context} {w w' : World σ}
    (h : (askAbout env mode id words code v).runIn c w = (.ok r, c', w'))
    (hclear : c'.errors = c.errors) : r = v := by
  obtain ⟨answer, c₁, w₁, hask, hrest⟩ := Engine.runIn_bind_ok_iff.mp h
  obtain ⟨es, hkept, hes⟩ := appends_of_ask hask
  split at hrest
  · cases hrest
    rfl
  · cases hrest
    rfl
  · cases hrest
    simp [Context.addError, hkept] at hclear
  · cases hrest
    simp [Context.addError, hkept] at hclear

/-! ## Fields -/

section Layer

variable {depth : Nat} {v r : Value} {c c' c₁ : Context} {w w' w₁ : World σ}

theorem eq_of_mem_fieldOutcome {k : Key} {e : Key × Value}
    (h : e ∈ ((fieldOutcome r).1.map fun u => (k, u)).toList) :
    isMarker r = false ∧ e = (k, r) := by
  unfold fieldOutcome at h
  cases hinvalid : isInvalid r <;> cases hmissing : isMissing r <;>
    simp_all [isMarker]

theorem mem_fieldOutcome {k : Key} (h : isMarker r = false) :
    (k, r) ∈ ((fieldOutcome r).1.map fun u => (k, u)).toList := by
  obtain ⟨hinvalid, hmissing⟩ := Bool.or_eq_false_iff.mp h
  simp [fieldOutcome, hinvalid, hmissing]

theorem eq_invalid_of_fieldOutcome (h : (fieldOutcome r).2 = true) : r = .invalid := by
  unfold fieldOutcome at h
  cases hinvalid : isInvalid r with
  | true => exact isInvalid_eq_true_iff.mp hinvalid
  | false => cases hmissing : isMissing r <;> simp [hinvalid, hmissing] at h

/-- The fields of an object up to some place, of which nothing was found. -/
theorem clears_of_checkFields {fields earlier later : Entries Schema} (unknown : UnknownKeys)
    {done : Entries Value × Bool}
    (hobject : (w.store.entries? v).isNone = false) (hfresh : c.hasVisited v = false)
    (hfields : fields = earlier ++ later)
    (h : (checkFields env (env.acceptsMissing depth) (check env mode depth) v earlier).runIn
      (c.mark v) w = (.ok done, c', w')) (hclear : c'.errors = c.errors) :
    (∀ e ∈ earlier, ∃ u, FieldGives env mode ⟨depth + 1, .object fields unknown, v, c, w⟩ depth
      e.1 e.2 u ∧ (isMarker u = false → (e.1, u) ∈ done.1)) ∧
    (∀ e ∈ done.1, isMarker e.2 = false ∧ ∃ field, (e.1, field) ∈ earlier ∧
      FieldGives env mode ⟨depth + 1, .object fields unknown, v, c, w⟩ depth e.1 field e.2) ∧
    (done.2 = true →
      ∃ g, SeesClear env mode ⟨depth + 1, .object fields unknown, v, c, w⟩ g .invalid) := by
  induction earlier using List.reverseRecOn generalizing later done c' w' with
  | nil =>
      cases h
      exact ⟨by simp, by simp, by simp⟩
  | append_singleton earlier e ih =>
      obtain ⟨k, field⟩ := e
      rw [checkFields_concat] at h
      obtain ⟨before, c₁, w₁, hbefore, h⟩ := Engine.runIn_bind_ok_iff.mp h
      obtain ⟨out, c₂, w₂, hout, h⟩ := Engine.runIn_bind_ok_iff.mp h
      cases h
      have hback := restored_of_checkFields hbefore
      have hstart : c.errors <+: c₁.errors := by simpa using hback.errors
      rcases cases_of_runIn_checkField hout with
        ⟨u, w₃, r, d, hhanded, hrun, rfl, rfl⟩ | ⟨w₃, d, -, -, hadd, rfl, -⟩
      · -- nothing was found before this field, and nothing in it
        have hinside : c₁.errors <+: d.errors := (restored_of_check hrun).errors
        have hbetween : c₁.errors = c.errors := eq_between hstart hinside hclear
        obtain ⟨hcleared, hresults, hfailed⟩ :=
          ih (by simpa using hfields) hbefore hbetween
        have hsees : SeesClear env mode ⟨depth + 1, .object fields unknown, v, c, w⟩
            ⟨depth, field, u, c₁.push k, w₃⟩ r :=
          ⟨.field hobject hfresh (by simpa using hfields) hbefore hhanded, d, _, hrun,
            hclear.trans hbetween.symm⟩
        have hafter : env.After w w₁ := Pairing.after_of_checkFields hbefore
        have hgives : FieldGives env mode ⟨depth + 1, .object fields unknown, v, c, w⟩ depth k
            field r := ⟨_, w₁, hsees, rfl, hafter, hhanded⟩
        refine ⟨fun e he => ?_, fun e he => ?_, fun hany => ?_⟩
        · rcases List.mem_append.mp he with he | he
          · obtain ⟨u, hu, hin⟩ := hcleared e he
            exact ⟨u, hu, fun hmarker => List.mem_append_left _ (hin hmarker)⟩
          · obtain rfl := List.mem_singleton.mp he
            exact ⟨r, hgives, fun hmarker => List.mem_append_right _ (mem_fieldOutcome hmarker)⟩
        · rcases List.mem_append.mp he with he | he
          · obtain ⟨hmarker, other, hother, hu⟩ := hresults e he
            exact ⟨hmarker, other, List.mem_append_left _ hother, hu⟩
          · obtain ⟨hmarker, rfl⟩ := eq_of_mem_fieldOutcome he
            exact ⟨hmarker, field, by simp, hgives⟩
        · rcases Bool.or_eq_true_iff.mp hany with hany | hany
          · exact hfailed hany
          · exact ⟨_, eq_invalid_of_fieldOutcome hany ▸ hsees⟩
      · obtain ⟨message, rfl, -⟩ := Engine.eq_addError_of_runIn_addViolation hadd
        have hlength := hstart.length_le
        rw [← hclear] at hlength
        simp [Context.addError, Context.pop, Context.push] at hlength

/-! ## Elements -/

/-- The turns of the first elements of an array, in which nothing was found. -/
theorem clears_of_firstItems {element : Schema} (bounds : ArrayBounds) {n : Nat}
    {done : List Value × Bool} (harray : (w.store.items? v).isNone = false)
    (hfresh : c.hasVisited v = false) (hmore : n ≤ (w.store.itemsOf v).length + depth)
    (h : (firstItems (check env mode depth element) v n).runIn (c.mark v) w =
      (.ok done, c', w')) (hclear : c'.errors = c.errors) :
    (∀ i < n, i < (w'.store.itemsOf v).length →
      ClearsElement env mode ⟨depth + 1, .array element bounds, v, c, w⟩ element i) ∧
    (∀ x ∈ done.1, ∃ g r, SeesClear env mode ⟨depth + 1, .array element bounds, v, c, w⟩ g r ∧
      isInvalid r = false ∧ x = if isMissing r then .null else r) ∧
    (done.2 = true →
      ∃ g, SeesClear env mode ⟨depth + 1, .array element bounds, v, c, w⟩ g .invalid) := by
  induction n generalizing done c' w' with
  | zero =>
      cases h
      exact ⟨by simp, by simp, by simp⟩
  | succ n ih =>
      obtain ⟨before, c₁, w₁, hbefore, h⟩ := Engine.runIn_bind_ok_iff.mp h
      rcases cases_of_runIn_nextItem h with
        ⟨hended, rfl, rfl, rfl⟩ | ⟨u, r, d, hitem, hrun, rfl, rfl⟩
      · obtain ⟨hcleared, hrest⟩ := ih (by omega) hbefore hclear
        rw [List.getElem?_eq_none_iff] at hended
        exact ⟨fun i _ hi => hcleared i (by omega) hi, hrest⟩
      · have hstart : c.errors <+: c₁.errors := by
          simpa using (restored_of_firstItems hbefore).errors
        have hbetween : c₁.errors = c.errors :=
          eq_between hstart (restored_of_check hrun).errors hclear
        obtain ⟨hcleared, hresults, hfailed⟩ := ih (by omega) hbefore hbetween
        have hsees : SeesClear env mode ⟨depth + 1, .array element bounds, v, c, w⟩
            ⟨depth, element, u, c₁.push (.index n), w₁⟩ r :=
          ⟨.element harray hfresh (by omega) hbefore hitem, d, _, hrun,
            hclear.trans hbetween.symm⟩
        have hafter : env.After w w₁ := Pairing.after_of_firstItems hbefore
        refine ⟨fun i hi _ => ?_, ?_⟩
        · rcases Nat.lt_succ_iff_lt_or_eq.mp hi with hi | rfl
          · have hthere := (List.getElem?_eq_some_iff.mp hitem).1
            exact hcleared i hi (by omega)
          · exact ⟨_, r, hsees, rfl, hafter, hitem⟩
        · unfold joinResult
          cases hinvalid : isInvalid r with
          | true =>
              obtain rfl := isInvalid_eq_true_iff.mp hinvalid
              exact ⟨hresults, fun _ => ⟨_, hsees⟩⟩
          | false =>
              refine ⟨fun x hx => ?_, hfailed⟩
              rcases List.mem_append.mp hx with hx | hx
              · exact hresults x hx
              · exact ⟨_, r, hsees, hinvalid, List.mem_singleton.mp hx⟩

/-! ## Options and members -/

/-- The members of an intersection up to some place, none of which failed. -/
theorem clears_of_tryMembers {first : Schema} {rest earlier later : List Schema}
    {results : List Value} (hmembers : first :: rest = earlier ++ later)
    (h : (tryMembers (check env mode depth) v earlier).runIn c w = (.ok (results, []), c', w')) :
    (∀ s ∈ earlier, ∃ g, ∃ u ∈ results,
      SeesClear env mode ⟨depth + 1, .intersection first rest, v, c, w⟩ g u ∧ g.schema = s ∧
        g.value = v) ∧
    ∀ u ∈ results,
      ∃ g, SeesClear env mode ⟨depth + 1, .intersection first rest, v, c, w⟩ g u := by
  induction earlier using List.reverseRecOn generalizing later results c' w' with
  | nil =>
      cases h
      exact ⟨by simp, by simp⟩
  | append_singleton earlier member ih =>
      rw [tryMembers_concat] at h
      obtain ⟨⟨before, groups⟩, c₁, w₁, hbefore, h⟩ := Engine.runIn_bind_ok_iff.mp h
      obtain ⟨⟨r, errors⟩, c₂, w₂, hattempt, h⟩ := Engine.runIn_bind_ok_iff.mp h
      obtain ⟨fork, hrun, rfl, -⟩ := Engine.runIn_speculate_ok_iff.mp hattempt
      simp only [Engine.runIn_pure, Prod.mk.injEq, Except.ok.injEq] at h
      obtain ⟨hjoin, -, -⟩ := h
      unfold joinAttempt at hjoin
      cases hempty : fork.errors with
      | cons e es => simp [hempty] at hjoin
      | nil =>
          simp only [hempty, List.isEmpty_nil, if_true, Prod.mk.injEq] at hjoin
          obtain ⟨rfl, rfl⟩ := hjoin
          obtain ⟨hcleared, hresults⟩ := ih (by simpa using hmembers) hbefore
          have hsees : SeesClear env mode ⟨depth + 1, .intersection first rest, v, c, w⟩
              ⟨depth, member, v, c₁.fork, w₁⟩ r :=
            ⟨.member (by simpa using hmembers) hbefore, fork, w₂, hrun, hempty⟩
          refine ⟨fun s hs => ?_, fun u hu => ?_⟩
          · rcases List.mem_append.mp hs with hs | hs
            · obtain ⟨g, u, hu, hg⟩ := hcleared s hs
              exact ⟨g, u, List.mem_append_left _ hu, hg⟩
            · obtain rfl := List.mem_singleton.mp hs
              exact ⟨_, r, by simp, hsees, rfl, rfl⟩
          · rcases List.mem_append.mp hu with hu | hu
            · exact hresults u hu
            · obtain rfl := List.mem_singleton.mp hu
              exact ⟨_, hsees⟩

/-- A union that finds nothing has an option that does not, those before it having
failed. -/
theorem clears_of_tryOptions {first : Schema} {rest options earlier : List Schema}
    {failed groups : List (List ErrorRecord)} (hall : first :: rest = earlier ++ options)
    (hearlier : (tryMembers (check env mode depth) v earlier).runIn c w =
      (.ok ([], failed), c₁, w₁))
    (h : (tryOptions env (check env mode depth) v groups options).runIn c₁ w₁ =
      (.ok r, c', w')) (hclear : c'.errors = c₁.errors) :
    ∃ g, SeesClear env mode ⟨depth + 1, .union first rest, v, c, w⟩ g r ∧
      g.schema ∈ first :: rest ∧ g.value = v := by
  induction options generalizing earlier c₁ w₁ failed groups with
  | nil => exact absurd hclear (errors_ne_of_refuse h)
  | cons option options ih =>
      obtain ⟨⟨u, errors⟩, c₂, w₂, hattempt, h⟩ := Engine.runIn_bind_ok_iff.mp h
      obtain ⟨fork, hrun, rfl, rfl⟩ := Engine.runIn_speculate_ok_iff.mp hattempt
      by_cases hempty : fork.errors.isEmpty
      · simp only [hempty, if_true, Engine.runIn_pure, Prod.mk.injEq, Except.ok.injEq] at h
        obtain ⟨rfl, -, -⟩ := h
        refine ⟨⟨depth, option, v, c₁.fork, w₁⟩, ⟨.option hall hearlier, fork, w₂, hrun, ?_⟩, ?_,
          rfl⟩
        · exact List.isEmpty_iff.mp hempty
        · rw [hall]
          exact List.mem_append_right _ List.mem_cons_self
      · simp only [hempty, Bool.false_eq_true, if_false] at h
        have hfailed := runIn_tryMembers_failed hearlier hattempt (by simpa using hempty)
        exact ih (by simpa using hall) hfailed h hclear

/-! ## All schemas -/

/-- How an object clears its value: every field gives something, and what is no marker stands
at its key. -/
theorem clears_of_object {fields : Entries Schema} {unknown : UnknownKeys}
    (h : (checkObject env (env.acceptsMissing depth) (check env mode depth) fields unknown
      v).runIn c w = (.ok r, c', w')) (hclear : c'.errors = c.errors) :
    ∃ results failed w₁, (w.store.entries? v).isNone = false ∧ env.After w w₁ ∧
      (unknown = .strict → undeclared fields (w₁.store.entriesOf v) = []) ∧
      (∀ e ∈ fields, ∃ u, FieldGives env mode ⟨depth + 1, .object fields unknown, v, c, w⟩ depth
        e.1 e.2 u ∧ (isMarker u = false → (e.1, u) ∈ results)) ∧
      (∀ e ∈ results, isMarker e.2 = false ∧ ∃ field, (e.1, field) ∈ fields ∧
        FieldGives env mode ⟨depth + 1, .object fields unknown, v, c, w⟩ depth e.1 field e.2) ∧
      (failed = true →
        ∃ g, SeesClear env mode ⟨depth + 1, .object fields unknown, v, c, w⟩ g .invalid) ∧
      r = if failed then .invalid
        else .mapping false (results ++
          if unknown = .passthrough then undeclared fields (w₁.store.entriesOf v) else []) := by
  rcases cases_of_runIn_checkObject h with
    ⟨-, h⟩ | ⟨-, -, h⟩ | ⟨hobject, hfresh, done, c₁, w₁, hinside, hfinish⟩
  · exact absurd hclear (errors_ne_of_refuse h)
  · exact absurd hclear (errors_ne_of_refuse h)
  · have hstart : c.errors <+: c₁.errors := by
      simpa using (restored_of_checkFields hinside).errors
    have hback := (Carry.of_finishObject (Carry.restoring_settings env mode) hfinish).errors
    have hbetween : c₁.errors = c.errors := eq_between hstart (by simpa using hback) hclear
    obtain ⟨hcleared, hresults, hfailed⟩ := clears_of_checkFields unknown hobject hfresh
      (List.append_nil fields).symm hinside hbetween
    have hafter : env.After w w₁ := Pairing.after_of_checkFields hinside
    rcases cases_of_runIn_finishObject hfinish with ⟨-, -, hrefused⟩ | ⟨hstrict, -, -, hr⟩
    · refine absurd ?_ (errors_ne_of_refuse hrefused)
      simpa using hclear.trans hbetween.symm
    · exact ⟨done.1, done.2, w₁, hobject, hafter, hstrict, hcleared, hresults, hfailed, hr⟩

theorem clearing_of_object {fields : Entries Schema} {unknown : UnknownKeys}
    (h : (checkObject env (env.acceptsMissing depth) (check env mode depth) fields unknown
      v).runIn c w = (.ok r, c', w')) (hclear : c'.errors = c.errors) :
    Clearing env mode ⟨depth + 1, .object fields unknown, v, c, w⟩ r := by
  obtain ⟨results, failed, w₁, hobject, hafter, hstrict, hcleared, hresults, hfailed, rfl⟩ :=
    clears_of_object h hclear
  refine .object hobject hafter hstrict (fun e he => ?_) (fun e he => ?_) hfailed
  · obtain ⟨u, hu, -⟩ := hcleared e he
    exact ⟨u, hu⟩
  · obtain ⟨hmarker, field, hfield, g, -, hsees, -⟩ := hresults e he
    exact ⟨List.mem_map_of_mem hfield, hmarker, g, hsees⟩

/-- How an array clears its value: every element that is there in the end gave something, and
null stands for what is absent. -/
theorem clears_of_array {element : Schema} {bounds : ArrayBounds}
    (h : (checkArray env depth (check env mode depth) element bounds v).runIn c w =
      (.ok r, c', w')) (hclear : c'.errors = c.errors) :
    ∃ results failed w₁, (w.store.items? v).isNone = false ∧ env.After w w₁ ∧
      violatedBounds bounds (w₁.store.itemsOf v).length = [] ∧
      (∀ i < (w₁.store.itemsOf v).length,
        ClearsElement env mode ⟨depth + 1, .array element bounds, v, c, w⟩ element i) ∧
      (∀ x ∈ results, ∃ g q, SeesClear env mode ⟨depth + 1, .array element bounds, v, c, w⟩ g q ∧
        isInvalid q = false ∧ x = if isMissing q then .null else q) ∧
      (failed = true →
        ∃ g, SeesClear env mode ⟨depth + 1, .array element bounds, v, c, w⟩ g .invalid) ∧
      r = if failed then .invalid else .list results := by
  rcases cases_of_runIn_checkArray h with
    ⟨-, h⟩ | ⟨-, -, h⟩ | ⟨harray, hfresh, done, c₁, w₁, hinside, hlength, hfinish⟩
  · exact absurd hclear (errors_ne_of_refuse h)
  · exact absurd hclear (errors_ne_of_refuse h)
  · obtain ⟨hadded, rfl⟩ := runIn_finishArray_ok_iff.mp hfinish
    have hstart : c.errors <+: c₁.errors := by
      simpa using (restored_of_firstItems hinside).errors
    have hback := (Carry.of_addViolations (Carry.restoring_settings env mode) hadded).errors
    have hbetween : c₁.errors = c.errors := eq_between hstart (by simpa using hback) hclear
    have hbounds : violatedBounds bounds (w₁.store.itemsOf v).length = [] := by
      cases hviolated : violatedBounds bounds (w₁.store.itemsOf v).length with
      | nil => rfl
      | cons x xs =>
          rw [hviolated] at hadded
          refine absurd ?_ (errors_ne_of_addViolations hadded)
          simpa using hclear.trans hbetween.symm
    obtain ⟨hcleared, hresults, hfailed⟩ :=
      clears_of_firstItems bounds harray hfresh le_rfl hinside hbetween
    have hafter : env.After w w₁ := Pairing.after_of_firstItems hinside
    exact ⟨done.1, done.2, w₁, harray, hafter, hbounds,
      fun i hi => hcleared i (by omega) hi, hresults, hfailed, by simp [hbounds]⟩

theorem clearing_of_array {element : Schema} {bounds : ArrayBounds}
    (h : (checkArray env depth (check env mode depth) element bounds v).runIn c w =
      (.ok r, c', w')) (hclear : c'.errors = c.errors) :
    Clearing env mode ⟨depth + 1, .array element bounds, v, c, w⟩ r := by
  obtain ⟨results, failed, w₁, harray, hafter, hbounds, hcleared, hresults, hfailed, rfl⟩ :=
    clears_of_array h hclear
  refine .array harray hafter hbounds hcleared (fun x hx => ?_) hfailed
  obtain ⟨g, q, hsees, hinvalid, rfl⟩ := hresults x hx
  cases hmissing : isMissing q with
  | true => exact .inl rfl
  | false => exact .inr ⟨Bool.or_eq_false_iff.mpr ⟨hinvalid, hmissing⟩, g, hsees⟩

/-- How an intersection clears its value: every member gives something, and what they give is
merged. -/
theorem clears_of_intersection {first : Schema} {rest : List Schema}
    (h : (do
      let done ← tryMembers (check env mode depth) v (first :: rest)
      combine env depth done.1 done.2).runIn c w = (.ok r, c', w'))
    (hclear : c'.errors = c.errors) :
    ∃ u us w₁, env.After w w₁ ∧ mergeAll w₁.store depth u us = .ok r ∧
      (∀ s ∈ first :: rest, ∃ g x,
        SeesClear env mode ⟨depth + 1, .intersection first rest, v, c, w⟩ g x ∧ g.schema = s ∧
          g.value = v) ∧
      ∀ x ∈ u :: us,
        ∃ g, SeesClear env mode ⟨depth + 1, .intersection first rest, v, c, w⟩ g x := by
  obtain ⟨⟨results, groups⟩, c₁, w₁, hmembers, hcombine⟩ := Engine.runIn_bind_ok_iff.mp h
  have hstart : c.errors <+: c₁.errors := (restored_of_tryMembers hmembers).errors
  have hback := (Carry.of_combine (Carry.restoring_settings env mode) depth hcombine).errors
  have hbetween : c₁.errors = c.errors := eq_between hstart hback hclear
  have hsame : c'.errors = c₁.errors := hclear.trans hbetween.symm
  have hafter : env.After w w₁ := Pairing.after_of_tryMembers hmembers
  cases groups with
  | cons group groups => exact absurd hsame (errors_ne_of_refuse hcombine)
  | nil =>
      obtain ⟨hcleared, hresults⟩ := clears_of_tryMembers (List.append_nil _).symm hmembers
      cases results with
      | nil =>
          -- the first member has given something
          obtain ⟨g, u, hu, -⟩ := hcleared first List.mem_cons_self
          cases hu
      | cons u us =>
          change (combine env depth (u :: us) []).runIn c₁ w₁ = _ at hcombine
          rw [runIn_combine] at hcombine
          rcases hmerged : mergeAll w₁.store depth u us with ⟨path, left, right⟩ | merged
          · rw [hmerged] at hcombine
            exact absurd hsame (errors_ne_of_refuse hcombine)
          · rw [hmerged] at hcombine
            cases hcombine
          · rw [hmerged] at hcombine
            cases hcombine
            refine ⟨u, us, _, hafter, hmerged, fun s hs => ?_, hresults⟩
            obtain ⟨g, x, -, hg⟩ := hcleared s hs
            exact ⟨g, x, hg⟩

theorem clearing_of_intersection {first : Schema} {rest : List Schema}
    (h : (do
      let done ← tryMembers (check env mode depth) v (first :: rest)
      combine env depth done.1 done.2).runIn c w = (.ok r, c', w'))
    (hclear : c'.errors = c.errors) :
    Clearing env mode ⟨depth + 1, .intersection first rest, v, c, w⟩ r := by
  obtain ⟨u, us, w₁, hafter, hmerged, hcleared, hresults⟩ := clears_of_intersection h hclear
  exact .members hcleared hresults hafter (.inr ⟨u, us, rfl, hmerged⟩)

end Layer

/-- How a call clears its value. -/
theorem clearing_of_clears {f : Call σ} {r : Value} (h : f.Clears env mode r) :
    Clearing env mode f r := by
  obtain ⟨depth, s, v, c, w⟩ := f
  obtain ⟨c', w', hrun, hclear⟩ := h
  cases depth with
  | zero => cases hrun
  | succ depth =>
      change (checkLayer env mode depth (env.acceptsMissing depth) (check env mode depth) s v).runIn
        c w = (.ok r, c', w') at hrun
      cases s with
      | object fields unknown => exact clearing_of_object hrun hclear
      | array element bounds => exact clearing_of_array hrun hclear
      | union first rest =>
          have hnone : (tryMembers (check env mode depth) v []).runIn c w =
            (.ok ([], []), c, w) := rfl
          obtain ⟨g, hsees, hschema, hvalue⟩ := clears_of_tryOptions rfl hnone hrun hclear
          exact .option hsees hschema hvalue
      | intersection first rest => exact clearing_of_intersection hrun hclear
      | optional inner =>
          simp only [checkLayer] at hrun
          split at hrun
          · rename_i hmissing
            cases hrun
            obtain rfl := eq_missing_of_isMissing hmissing
            exact .absent
          · rename_i hmissing
            exact .inner ⟨.optional (by simpa using hmissing), c', w', hrun, hclear⟩ rfl
      | nullable inner =>
          simp only [checkLayer] at hrun
          split at hrun
          · cases hrun
            exact .null
          · rename_i hnull
            exact .inner ⟨.nullable hnull, c', w', hrun, hclear⟩ rfl
      | withDefault inner default =>
          simp only [checkLayer] at hrun
          split at hrun
          · rename_i hmissing
            obtain ⟨hcopyable, d, hcopy, rfl⟩ := runIn_copied_ok_iff.mp hrun
            exact .inner ⟨.copy hmissing hcopyable, d, w', hcopy, hclear⟩ rfl
          · rename_i hmissing
            exact .inner ⟨.withDefault (by simpa using hmissing), c', w', hrun, hclear⟩ rfl
      | transform inner step =>
          obtain ⟨u, c₁, w₁, hinner, hstep⟩ := Engine.runIn_bind_ok_iff.mp hrun
          have hstart := (restored_of_check hinner).errors
          have hafter : env.After w w₁ :=
            Carry.after mode fun _ hset => Carry.of_check hset depth hinner
          cases hmarker : isMarker u with
          | true =>
              simp only [hmarker, if_true] at hstep
              cases hstep
              exact .kept ⟨.transform, _, _, hinner, hclear⟩ hmarker
          | false =>
              simp only [hmarker, Bool.false_eq_true, if_false] at hstep
              have hback := (Carry.of_applyStep (Carry.restoring_settings env mode) hstep).errors
              have hbetween : c₁.errors = c.errors := eq_between hstart hback hclear
              rw [runIn_applyStep] at hstep
              rcases happlied : (step.applyTo env u).runIn w₁ with ⟨e | x, w₂⟩
              · rw [happlied] at hstep
                cases hstep
                simp [Context.addError, hbetween] at hclear
              · rw [happlied] at hstep
                cases hstep
                exact .applied ⟨.transform, _, w₁, hinner, hbetween⟩ hmarker hafter happlied
      | refine inner id words code =>
          obtain ⟨u, c₁, w₁, hinner, hask⟩ := Engine.runIn_bind_ok_iff.mp hrun
          have hstart := (restored_of_check hinner).errors
          have hend : r = u ∧ c₁.errors = c.errors := by
            cases hmarker : isMarker u with
            | true =>
                simp only [hmarker, if_true] at hask
                cases hask
                exact ⟨rfl, hclear⟩
            | false =>
                simp only [hmarker, Bool.false_eq_true, if_false] at hask
                have hback := (Carry.of_askAbout (Carry.restoring_settings env mode) hask).errors
                have hbetween : c₁.errors = c.errors := eq_between hstart hback hclear
                exact ⟨eq_of_askAbout hask (hclear.trans hbetween.symm), hbetween⟩
          obtain ⟨rfl, hbetween⟩ := hend
          exact .inner ⟨.refine, c₁, w₁, hinner, hbetween⟩ rfl
      | deferred id =>
          obtain ⟨s, c₁, w₁, hresolve, hinner⟩ := Engine.runIn_bind_ok_iff.mp hrun
          obtain ⟨hresolved, rfl⟩ := Engine.runIn_ofAct_ok_iff.mp hresolve
          exact .inner ⟨.deferred hresolved, c', w', hinner, hclear⟩ rfl
      | _ =>
          rw [runIn_checkLayer_of_judge? rfl] at hrun
          exact .single (congrArg some (accepted_of_settle hrun hclear))

end Call

/-! ## Whole values -/

/-- A value that is accepted is cleared by the call for it. What is accepted is the result,
or null in place of an absent one. -/
theorem Validate.clears_of_accepted {σ : Type} {env : Setting σ} {mode : Mode} {depth : Nat}
    {s : Schema} {v u : Value} {w : World σ}
    (h : Gives env mode depth s v w (.accepted u)) :
    ∃ r, Call.Clears env mode ⟨depth, s, v, {}, w⟩ r ∧
      u = if isMissing r then .null else r := by
  obtain ⟨r, c, w', hwhole, hfinish⟩ := h.exists_run
  obtain ⟨hnone, hu⟩ := finish_eq_accepted_iff.mp hfinish
  obtain ⟨c₁, w₁, hcheck, hrest⟩ := runIn_checkWhole_ok_iff.mp hwhole
  refine ⟨r, ⟨c₁, w₁, hcheck, ?_⟩, hu⟩
  cases hclean : c₁.errors.isEmpty with
  | true => exact List.isEmpty_iff.mp hclean
  | false =>
      simp only [hclean, Bool.false_eq_true, if_false] at hrest
      exact hrest.1 ▸ hnone

end Conform
