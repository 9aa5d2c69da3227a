import Conform.Proofs.Descent
import Conform.Proofs.Foretelling
import Conform.Proofs.Pairing

/-!
# Faults that get out

A check calls the host in many places, and the host may fault. The faults of steps,
of predicates and of what predicates have promised are taken in. What is left are
factories that give no schema, templates that fail to give words, bounds that cannot be
compared with and patterns of bytes. Without these a check ends by a value unless its depth
is used up, or a call of it stumbles: over an integer that is too long to be written into
the words of an error, or over a default that cannot be copied.

That is a pairing that looks at the first of the two works only, and takes the faults
as its result.

## Main results

* `contained_acceptsMissing` — the flag ends by no fault but for lack of depth.
* `contained_of_check` — nor does a check, unless a call of it stumbles.
* `Validate.contained_of_awaited`, `Validate.contained_of_immediate` — nor do the
  entry points; those that do not wait may fault for a promise.
-/

namespace Conform

open Traverse

/-! ## Bounds and patterns -/

/-- Whether a pattern is one of texts. -/
def Sought.isText : Sought → Bool
  | text _ => true
  | bytes _ => false

namespace Schema

/-- The bounds of a schema without parts count as numbers. -/
def comparable : Schema → Bool
  | string c =>
    c.min.all (fun b => (boundNumber? b.value).isSome) &&
      c.max.all fun b => (boundNumber? b.value).isSome
  | number c => c.min.all (fun b => b.value.isSome) && c.max.all fun b => b.value.isSome
  | _ => true

/-- What a schema without parts searches texts for is a pattern of texts. -/
def searchable : Schema → Bool
  | string c => c.pattern.all fun k => k.value.isText
  | _ => true

/-- All bounds that stand in a schema count as numbers, and all patterns are of texts. -/
def Comparable (s : Schema) : Prop :=
  ∀ t, s.Part t → t.comparable = true ∧ t.searchable = true

theorem Comparable.of_step {s t : Schema} (hs : s.Comparable) (h : s.Passes t ∨ s.Guards t) :
    t.Comparable :=
  fun u hu => hs u (.head h hu)

end Schema

/-- A fault of a judgement is that of a clause. -/
theorem mem_of_ofClauses_error {v : Value} {clauses : List (Except Fault (Option Violation))}
    {e : Fault} (h : Judgement.ofClauses v clauses = .error e) : .error e ∈ clauses := by
  have hfirst : firstViolation clauses = .error e := by
    unfold Judgement.ofClauses at h
    split at h
    · rename_i hfault
      rw [hfault]
      exact congrArg Except.error (Except.error.inj h)
    · cases h
    · cases h
  clear h
  induction clauses with
  | nil => cases hfirst
  | cons clause clauses ih =>
      rcases clause with f | _ | x
      · cases hfirst
        exact List.mem_cons_self
      · exact List.mem_cons_of_mem _ (ih hfirst)
      · cases hfirst

/-- A clause faults only where its comparison does. -/
theorem exists_of_clause_error {α : Type} {check : Option (Check α)}
    {violated : α → Except Fault Bool} {report : Check α → Violation} {e : Fault}
    (h : clause check violated report = .error e) :
    ∃ c, check = some c ∧ violated c.value = .error e := by
  unfold clause at h
  split at h
  · cases h
  · rename_i c
    split at h
    · rename_i f hviolated
      cases h
      exact ⟨c, rfl, hviolated⟩
    · cases h

/-- A comparison faults only with a bound that does not count as a number. -/
theorem compareBound_error {c : Comparison} {left right : String} {n : Number}
    {bound : Option Number} {e : Fault} (h : compareBound c left right n bound = .error e) :
    bound.isSome = false ∧ e = .incomparable c left right := by
  cases bound with
  | none =>
      cases h
      exact ⟨rfl, rfl⟩
  | some m => cases h

/-- Why a schema without parts judges a value by a fault: a bound does not count as a number,
or its pattern is one of bytes. -/
inductive JudgesBy (s : Schema) : Fault → Prop
  | bound {r left right} (h : s.comparable = false) : JudgesBy s (.incomparable r left right)
  | pattern (h : s.searchable = false) : JudgesBy s .bytesPattern

theorem judgeString_error {c : StringChecks} {st : Store} {v : Value} {e : Fault}
    (h : c.judge st v = .error e) : JudgesBy (.string c) e := by
  unfold StringChecks.judge at h
  split at h
  · have hmem := mem_of_ofClauses_error h
    simp only [List.mem_cons, List.not_mem_nil, or_false] at hmem
    rcases hmem with h | h | h | h | h | h <;>
      obtain ⟨check, hcheck, hfault⟩ := exists_of_clause_error h.symm
    · obtain ⟨hopen, rfl⟩ := compareBound_error hfault
      exact .bound (by simp [Schema.comparable, hcheck, hopen])
    · obtain ⟨hopen, rfl⟩ := compareBound_error hfault
      exact .bound (by simp [Schema.comparable, hcheck, hopen])
    · cases hfault
    · cases hsought : check.value with
      | text p => simp [Sought.missingIn, hsought] at hfault
      | bytes bs =>
          simp only [Sought.missingIn, hsought, Except.error.injEq] at hfault
          subst hfault
          exact .pattern (by simp [Schema.searchable, hcheck, hsought, Sought.isText])
    all_goals cases hfault
  · cases h

theorem judgeNumber_error {c : NumberChecks} {st : Store} {v : Value} {e : Fault}
    (h : c.judge st v = .error e) : JudgesBy (.number c) e := by
  unfold NumberChecks.judge at h
  split at h
  · split at h
    · unfold NumberChecks.judgeNumber at h
      split at h
      · cases h
      · have hmem := mem_of_ofClauses_error h
        simp only [List.mem_cons, List.not_mem_nil, or_false] at hmem
        rcases hmem with h | h | h | h | h | h <;>
          obtain ⟨check, hcheck, hfault⟩ := exists_of_clause_error h.symm
        · cases hfault
        · obtain ⟨hopen, rfl⟩ := compareBound_error hfault
          exact .bound (by simp [Schema.comparable, hcheck, hopen])
        · obtain ⟨hopen, rfl⟩ := compareBound_error hfault
          exact .bound (by simp [Schema.comparable, hcheck, hopen])
        all_goals cases hfault
    · cases h
  · cases h

theorem judgeDate_ne_error (c : DateChecks) (st : Store) (v : Value) (e : Fault) :
    c.judge st v ≠ .error e := by
  intro h
  unfold DateChecks.judge at h
  dsimp only at h
  split at h
  · split at h
    · have hmem := mem_of_ofClauses_error h
      simp only [List.mem_cons, List.not_mem_nil, or_false] at hmem
      rcases hmem with h | h <;>
      · obtain ⟨check, -, hfault⟩ := exists_of_clause_error h.symm
        cases hfault
    · cases h
  · cases h

/-- A schema without parts judges every value, but for its bounds and its pattern. -/
theorem judge?_error {s : Schema} {st : Store} {v : Value} {e : Fault}
    (h : s.judge? st v = some (.error e)) : JudgesBy s e := by
  cases s with
  | string c => exact judgeString_error (Option.some.inj h)
  | number c => exact judgeNumber_error (Option.some.inj h)
  | date c => exact absurd (Option.some.inj h) (judgeDate_ne_error c st v e)
  | _ => cases h

/-! ## Acts that are contained -/

section Acts

variable {σ α β : Type} {I : World σ → Prop}

/-- An act that keeps an invariant of the world and, where it holds, ends by no fault
but for lack of depth. -/
structure Act.Contained (I : World σ → Prop) (act : Act σ α) : Prop where
  keeps : act.Keeps I
  fault {w w' : World σ} {e : Fault} (hw : I w) (h : act.runIn w = (.error e, w')) :
    e = .exhausted

namespace Act.Contained

theorem pure (a : α) : Act.Contained I (Pure.pure a : Act σ α) where
  keeps _ hw := hw
  fault _ h := by cases h

theorem bind {act : Act σ α} {k : α → Act σ β} (h : act.Contained I)
    (hk : ∀ a, (k a).Contained I) : (act >>= k).Contained I where
  keeps := h.keeps.bind fun a => (hk a).keeps
  fault {w w' e} hw hrun := by
    rw [Act.runIn_bind] at hrun
    rcases hfirst : act.runIn w with ⟨f | a, w₁⟩
    · rw [hfirst] at hrun
      cases hrun
      exact h.fault hw hfirst
    · rw [hfirst] at hrun
      exact (hk a).fault (h.keeps.of_run hfirst hw) hrun

end Act.Contained

/-- To be contained is kept when one act is done after another. -/
def Act.Flow.containing (I : World σ → Prop) : Act.Flow σ where
  holds act := act.Contained I
  pure := .pure
  exhausted := ⟨fun _ hw => hw, fun _ h => by cases h; rfl⟩
  bind := .bind

variable {env : Setting σ} {may : Nat → Schema → Prop}

theorem contained_resolve (hkeeps : env.Keeps (World.Stands may)) (hgives : env.Furnishes may)
    (id : Nat) : (env.resolve id).Contained (World.Stands may) where
  keeps := hkeeps.resolve id
  fault hw h := by
    obtain ⟨s, w', hrun⟩ := hgives.resolve id hw
    rw [hrun] at h
    cases h

theorem contained_acceptsMissing (hkeeps : env.Keeps (World.Stands may))
    (hgives : env.Furnishes may) (depth : Nat) (s : Schema) :
    (env.acceptsMissing depth s).Contained (World.Stands may) :=
  (Act.Flow.containing _).acceptsMissing (contained_resolve hkeeps hgives) depth s

end Acts

/-! ## Works that are contained -/

section Works

variable {σ α β γ δ : Type} {P : Fault → Prop} {R : α → β → Prop} {c : Context} {w : World σ}
  {e : Engine σ α}

/-- Work that ends by a value, or by one of some faults. -/
def Contained (P : Fault → Prop) (R : α → β → Prop) (c : Context) (w : World σ)
    (e : Engine σ α) : Prop :=
  match (e.runIn c w).1 with
  | .ok a => ∃ b, R a b
  | .error f => P f

namespace Contained

theorem of_ok {a : α} {b : β} {c' : Context} {w' : World σ}
    (h : e.runIn c w = (.ok a, c', w')) (hab : R a b) : Contained P R c w e := by
  unfold Contained
  rw [h]
  exact ⟨b, hab⟩

theorem fault {f : Fault} {c' : Context} {w' : World σ} (h : Contained P R c w e)
    (hrun : e.runIn c w = (.error f, c', w')) : P f := by
  unfold Contained at h
  rwa [hrun] at h

theorem bind {S : γ → δ → Prop} {k : α → Engine σ γ} (h : Contained P R c w e)
    (hk : ∀ a b c₁ w₁, e.runIn c w = (.ok a, c₁, w₁) → R a b → Contained P S c₁ w₁ (k a)) :
    Contained P S c w (e >>= k) := by
  unfold Contained at h ⊢
  rw [Engine.runIn_bind]
  rcases hrun : e.runIn c w with ⟨f | a, c₁, w₁⟩
  · rw [hrun] at h
    exact h
  · rw [hrun] at h
    obtain ⟨b, hab⟩ := h
    exact hk a b c₁ w₁ hrun hab

/-- What was found on a fork is handed on. -/
theorem speculate (h : Contained P R c.fork w e) :
    Contained P (fun p (q : β × List ErrorRecord) =>
      R p.1 q.1 ∧ List.Forall₂ (fun _ _ => True) p.2 q.2) c w (Engine.speculate e) := by
  unfold Contained at h ⊢
  rw [Engine.runIn_speculate]
  rcases hrun : e.runIn c.fork w with ⟨f | a, fork, w₁⟩
  · rw [hrun] at h
    exact h
  · rw [hrun] at h
    obtain ⟨b, hab⟩ := h
    exact ⟨(b, fork.errors), hab, List.forall₂_same.mpr fun _ _ => trivial⟩

theorem enter {S : Value → Value → Prop} (v : Value) {refused : Engine σ Value}
    {k : α → Engine σ Value} (hrefused : c.hasVisited v = true → Contained P S c w refused)
    (h : c.hasVisited v = false → Contained P R (c.mark v) w e)
    (hk : c.hasVisited v = false → ∀ a b c₁ w₁,
      (Engine.lookingInto v e).runIn c w = (.ok a, c₁, w₁) → R a b → Contained P S c₁ w₁ (k a)) :
    Contained P S c w (Engine.context >>= fun c =>
      if c.hasVisited v then refused else Engine.lookingInto v e >>= k) := by
  unfold Contained
  rw [Engine.runIn_bind_of_ok _ (Engine.runIn_context c w)]
  cases hfresh : c.hasVisited v with
  | true => exact hrefused hfresh
  | false =>
      have hinside : Contained P R c w (Engine.lookingInto v e) := h hfresh
      exact hinside.bind (hk hfresh)

end Contained

/-- Being contained as a pairing. -/
def containing (σ : Type) (P : Fault → Prop) (hP : P .exhausted) : Pairing σ where
  record _ _ := True
  apart _ := True
  fault := P
  work R c w e _ := Contained P R c w e
  pure _ _ h := .of_ok rfl h
  bind := .bind
  exhausted := hP
  throw _ _ _ _ h := h
  store _ _ := .of_ok rfl rfl
  act c w act h := by
    unfold Contained
    rw [Engine.runIn_ofAct]
    rcases hrun : act.runIn w with ⟨f | a, w₁⟩
    · exact h f w₁ hrun
    · exact ⟨a, rfl⟩
  attempt _ _ _ := .of_ok rfl rfl
  markAwaiting _ _ := .of_ok rfl rfl
  within _ _ h := h
  onCopy h := h
  speculate := .speculate
  enter v _ _ _ _ _ _ _ := .enter v

/-- What is worded by templates is added, unless an integer in it is too long. -/
theorem contained_addViolation {env : Setting σ} (hworded : env.Words) {x : Violation}
    (hx : Spelled x.words)
    (hlong : x.message env w.store = .error .tooManyDigits → P .tooManyDigits) :
    Contained P (· = ·) c w (Engine.addViolation env x) := by
  unfold Contained
  rw [Engine.runIn_addViolation]
  rcases (Violation.spelled_message hx (hworded w.store)).cases with ⟨words, h⟩ | h
  · simp only [h]
    exact ⟨(), trivial⟩
  · simp only [h]
    exact hlong h

/-! ## Whole runs -/

variable {env : Setting σ} {mode : Mode} {may : Nat → Schema → Prop} {depth : Nat} {s : Schema}
  {v : Value}

/-- A call stumbles: an integer in the words for what it reports is too long to be written, or
the default that stands in for its value cannot be copied. -/
inductive Call.Stumbles (env : Setting σ) : Call σ → Fault → Prop
  | violation {f w₁ x p w} (h : f.Reports w₁ x p) (hfound : env.After f.world w₁)
      (hafter : env.After w₁ w) (hwords : x.message env w.store = .error .tooManyDigits) :
      Stumbles env f .tooManyDigits
  | failures {f x name groups w} (h : f.Fails x name) (hafter : env.After f.world w)
      (hwords : Violation.message { x with details := failuresDetail name groups } env w.store =
        .error .tooManyDigits) : Stumbles env f .tooManyDigits
  | copy {f inner default} (hs : f.schema = .withDefault inner default)
      (hmissing : isMissing f.value = true) (h : f.world.store.isCopyable default = false) :
      Stumbles env f (.uncopyable "mappingproxy")

/-- By which faults a run may end: its depth is used up, or a call of it stumbles. -/
def Call.StopsBy (env : Setting σ) (mode : Mode) (f₀ : Call σ) (e : Fault) : Prop :=
  e = .exhausted ∨ ∃ f, Call.Reaches env mode f₀ f ∧ f.Stumbles env e

/-- A call is contained if its bounds and its pattern are, and the host gives schemas and
words. -/
theorem containing_settings (hkeeps : env.Keeps (World.Stands may)) (hgives : env.Furnishes may)
    (hworded : env.Words) {f₀ f : Call σ} (hreaches : Call.Reaches env mode f₀ f)
    (hs : f.schema.comparable = true ∧ f.schema.searchable = true) (hw : f.world.Stands may) :
    (containing σ (f₀.StopsBy env mode) (.inl rfl)).Settings env mode f where
  apart _ := trivial
  judged h := by
    rcases judge?_error h with hbound | hpattern
    · exact absurd hs.1 (by simp [hbound])
    · exact absurd hs.2 (by simp [hpattern])
  asked _ hasks h := by
    cases hasks with
    | field hobject hfresh hfields hearlier habsent =>
        have hset := Carry.keeping_settings hkeeps mode
        have hw₁ := (Carry.of_checkFields hset _ hearlier).2 hw
        exact .inl ((contained_acceptsMissing hkeeps hgives _ _).fault hw₁ h)
  resolved _ h := .inl ((contained_resolve hkeeps hgives _).fault hw h)
  uncopied hs hmissing h := .inr ⟨f, hreaches, .copy hs hmissing h⟩
  violation {x c w₁} h hfound {w} hafter := contained_addViolation hworded h.spelled fun hlong =>
    .inr ⟨f, hreaches, .violation h hfound hafter hlong⟩
  failures {x name c} h _ {w} hafter groups groups' _ := by
    refine contained_addViolation hworded ?_ fun hlong =>
      .inr ⟨f, hreaches, .failures h hafter hlong⟩
    cases h <;> exact .ok _
  worded {code c} _ _ w words :=
    Contained.of_ok (P := f₀.StopsBy env mode) (Engine.runIn_addWorded code words none c w) rfl

/-- A check ends by a value unless its depth is used up or a call of it stumbles. -/
theorem contained_of_check (hkeeps : env.Keeps (World.Stands may)) (hgives : env.Furnishes may)
    (hworded : env.Words) (hmay : ∀ id t, may id t → t.Comparable) (hs : s.Comparable)
    (hw : w.Stands may) :
    Contained (Call.StopsBy env mode ⟨depth, s, v, c, w⟩) (· = ·) c w
      (check env mode depth s v) := by
  have hwalks : (containing σ (Call.StopsBy env mode ⟨depth, s, v, c, w⟩) (.inl rfl)).Walks env mode
      ⟨depth, s, v, c, w⟩ := by
    refine Pairing.walks fun g hg => containing_settings hkeeps hgives hworded hg ?_ ?_
    · refine Call.schema_of_reaches (P := Schema.Comparable) hkeeps hw
        (fun _ _ ht hpart => ht.of_step hpart) ?_ hs hg _ .refl
      intro id w t w' hw hresolve
      exact hmay id t (((hkeeps.resolve id).of_run hresolve hw) id t (standing_of_resolve hresolve))
    · exact Call.keeps_of_reaches hkeeps hg hw
  exact hwalks

namespace Validate

/-- Asking ends by a value, whatever the predicate does. -/
theorem contained_ask (hP : P .exhausted) (test : Act σ (Reply σ)) :
    Contained P (· = ·) c w (ask mode test) :=
  Pairing.ask (L := containing σ P hP) mode test

theorem contained_askRule (hP : P .exhausted) (rule : Rule) :
    Contained P (· = ·) c w (askRule env mode rule s v) := by
  refine .bind (contained_ask hP _) fun answer _ c₁ w₁ _ _ => ?_
  split <;> exact .of_ok rfl rfl

theorem contained_askRules (hP : P .exhausted) (rules : List Rule) :
    Contained P (· = ·) c w (askRules env mode s v rules) := by
  induction rules generalizing c w with
  | nil => exact .of_ok rfl rfl
  | cons rule rules ih => exact .bind (contained_askRule hP rule) fun _ _ c₁ w₁ _ _ => ih

/-- By which faults the validation of a whole value may end: its check does so, or the path of
an error that was found cannot be written. -/
inductive StopsBy (env : Setting σ) (mode : Mode) (depth : Nat) (s : Schema) (v : Value)
    (w : World σ) : Fault → Prop
  | check {f} (h : Call.StopsBy env mode ⟨depth, s, v, {}, w⟩ f) : StopsBy env mode depth s v w f
  | path {r d w' x} (h : (checkWhole env mode depth s v).runIn {} w = (.ok r, d, w'))
      (hx : x ∈ d.errors) (hpath : Key.allWritable x.path = false) :
      StopsBy env mode depth s v w .tooManyDigits

theorem contained_checkWhole (hkeeps : env.Keeps (World.Stands may)) (hgives : env.Furnishes may)
    (hworded : env.Words) (hmay : ∀ id t, may id t → t.Comparable) (hs : s.Comparable)
    (hw : w.Stands may) :
    Contained (Call.StopsBy env mode ⟨depth, s, v, {}, w⟩) (· = ·) {} w
      (checkWhole env mode depth s v) := by
  refine .bind (contained_of_check hkeeps hgives hworded hmay hs hw) fun r _ c₁ w₁ _ _ => ?_
  refine .bind (R := (· = ·)) (.of_ok (Engine.runIn_context c₁ w₁) rfl) fun _ _ c₂ w₂ _ _ => ?_
  split
  · exact .bind (contained_askRules (.inl rfl) _) fun _ _ c₃ w₃ _ _ => .of_ok rfl rfl
  · exact .of_ok rfl rfl

/-- Where no outcome can be put together, the path of an error cannot be written. -/
theorem stopsBy_of_finish {r : Value} {c : Context} {w' : World σ} {e : Fault}
    (hrun : (checkWhole env mode depth s v).runIn {} w = (.ok r, c, w'))
    (h : finish r c.errors = .error e) : StopsBy env mode depth s v w e := by
  obtain ⟨-, hpaths, rfl⟩ := finish_eq_error_iff.mp h
  obtain ⟨x, hx, hpath⟩ := List.all_eq_false.mp hpaths
  exact .path hrun hx (by simpa using hpath)

variable (hkeeps : env.Keeps (World.Stands may)) (hgives : env.Furnishes may) (hworded : env.Words)
  (hmay : ∀ id t, may id t → t.Comparable) (hs : s.Comparable) (hw : w.Stands may)

include hkeeps hgives hworded hmay hs hw

/-- The entry point that waits gives an outcome unless it stops by such a fault. -/
theorem contained_of_awaited : (∃ o w', (awaited env depth s v).runIn w = (.ok o, w')) ∨
    ∃ e w', (awaited env depth s v).runIn w = (.error e, w') ∧
      StopsBy env .awaited depth s v w e := by
  have hwhole : Contained (Call.StopsBy env .awaited ⟨depth, s, v, {}, w⟩) (· = ·) {} w
      (checkWhole env .awaited depth s v) := contained_checkWhole hkeeps hgives hworded hmay hs hw
  unfold awaited
  rw [Act.runIn_bind, runIn_fresh]
  rcases hrun : (checkWhole env .awaited depth s v).runIn {} w with ⟨f | r, c, w'⟩
  · exact .inr ⟨f, w', rfl, .check (hwhole.fault hrun)⟩
  · simp only [Act.runIn_ofExcept]
    rcases hfinish : finish r c.errors with f | o
    · exact .inr ⟨f, w', rfl, stopsBy_of_finish hrun hfinish⟩
    · exact .inl ⟨o, w', rfl⟩

/-- The entry points that do not wait give an outcome, or fault for a promise, unless they
stop so. -/
theorem contained_of_immediate (entry : Entry) :
    (∃ o w', (immediate env depth entry s v).runIn w = (.ok o, w')) ∨
      ∃ e w', (immediate env depth entry s v).runIn w = (.error e, w') ∧
        (e = .awaitRequired entry ∨ StopsBy env .immediate depth s v w e) := by
  have hwhole : Contained (Call.StopsBy env .immediate ⟨depth, s, v, {}, w⟩) (· = ·) {} w
      (checkWhole env .immediate depth s v) := contained_checkWhole hkeeps hgives hworded hmay hs hw
  unfold immediate
  rw [Act.runIn_bind, runIn_fresh]
  rcases hrun : (checkWhole env .immediate depth s v).runIn {} w with ⟨f | r, c, w'⟩
  · exact .inr ⟨f, w', rfl, .inr (.check (hwhole.fault hrun))⟩
  · cases hawaiting : c.awaiting with
    | true =>
        refine .inr ⟨.awaitRequired entry, w', ?_, .inl rfl⟩
        simp only [hawaiting, if_true]
        rfl
    | false =>
        simp only [hawaiting, Bool.false_eq_true, if_false, Act.runIn_ofExcept]
        rcases hfinish : finish r c.errors with f | o
        · exact .inr ⟨f, w', rfl, .inr (stopsBy_of_finish hrun hfinish)⟩
        · exact .inl ⟨o, w', rfl⟩

end Validate

end Works

end Conform
