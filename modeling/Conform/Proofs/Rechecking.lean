import Conform.Proofs.Absence
import Conform.Proofs.Fieldwise
import Conform.Proofs.Foretelling
import Conform.Proofs.Unmarked

/-!
# Checking again what was accepted

A check that does not convert gives values back in a plain form. Objects become mappings
with the keys in the order of the fields, arrays become lists, what is absent is left out or
replaced by a default, and undeclared keys are dropped or kept behind the others. That form
is stable: checked again, it is accepted as it is.

The second check meets other values than the first one, so the two are not compared step
by step. By induction on the depth, every part of what the first check gives is accepted
again, on every context and in every world that comes later. Two things are the same
in both: the answers of predicates, which are pure, and what the deferred schemas stand
for, which are built once.

## Main results

* `Act.Repeats` — an act that gives the same again and then changes nothing.
* `checksAgain` — what a check gives without an error, it gives again.
* `accepted_again` — a value that was accepted is accepted as it is.
-/

namespace Conform

open Traverse

variable {σ : Type} {env : Setting σ} {mode : Mode} {depth : Nat} {may : Nat → Schema → Prop}

/-! ## Acts that can be repeated -/

/-- An act that only resolves deferred schemas and, when it has given something, gives it
again in later worlds and leaves them alone. -/
def Act.Repeats {α : Type} (env : Setting σ) (act : Act σ α) : Prop :=
  ∀ w a w', act.runIn w = (.ok a, w') → Resolves env w w' ∧
    ∀ w₂, Resolves env w' w₂ → act.runIn w₂ = (.ok a, w₂)

namespace Act.Repeats

variable {α β : Type} {act : Act σ α}

protected theorem pure (a : α) : Act.Repeats env (Pure.pure a : Act σ α) := by
  intro w b w' h
  cases h
  exact ⟨.refl, fun _ _ => rfl⟩

protected theorem throw (f : Fault) : Act.Repeats env (MonadExcept.throw f : Act σ α) := by
  intro w a w' h
  cases h

theorem bind {k : α → Act σ β} (h : act.Repeats env) (hk : ∀ a, (k a).Repeats env) :
    (act >>= k).Repeats env := by
  intro w b w' hrun
  obtain ⟨a, w₁, hact, hrest⟩ := Act.runIn_bind_ok_iff.mp hrun
  obtain ⟨hto, hagain⟩ := h w a w₁ hact
  obtain ⟨hon, hrestAgain⟩ := hk a w₁ b w' hrest
  refine ⟨hto.trans hon, fun w₂ hlater => ?_⟩
  exact Act.runIn_bind_ok_iff.mpr ⟨a, w₂, hagain w₂ (hon.trans hlater), hrestAgain w₂ hlater⟩

end Act.Repeats

/-- A deferred schema that has been built is built. -/
theorem repeats_resolve (henv : env.Builds may) (id : Nat) : (env.resolve id).Repeats env := by
  intro w s w' h
  refine ⟨.of_run h, fun w₂ hlater => ?_⟩
  have hbuilt : w₂.built.lookup id = some s := hlater.recalls henv id s (standing_of_resolve h)
  rw [Setting.runIn_resolve, hbuilt]

/-- To repeat is kept when one act is done after another. -/
def Act.Flow.repeating (env : Setting σ) : Act.Flow σ where
  holds act := act.Repeats env
  pure := .pure
  exhausted := .throw .exhausted
  bind := .bind

/-- A schema that accepts an absent value accepts it again. -/
theorem repeats_acceptsMissing (henv : env.Builds may) (depth : Nat) (s : Schema) :
    (env.acceptsMissing depth s).Repeats env :=
  (Act.Flow.repeating env).acceptsMissing (repeats_resolve henv) depth s

/-! ## Hosts -/

/-- A host with pure predicates that answer at once: they leave the world alone, and their
answers depend on the value and on the shared containers. Its factories give only schemas
that the deferred ones may stand for, and write into no container. -/
structure Setting.Consults (env : Setting σ) (may : Nat → Schema → Prop) : Prop where
  builds : env.Builds may
  produce_store (id : Nat) (w : World σ) : ((env.produce id).runIn w).2.store = w.store
  test_world (id : Nat) (v : Value) (w : World σ) : ((env.test id v).runIn w).2 = w
  test_settled (id : Nat) (v : Value) (w : World σ) (later : Act σ Value) :
    ((env.test id v).runIn w).1 ≠ .ok (.pending later)
  test_answer (id : Nat) (v : Value) (w w' : World σ) (h : w'.store = w.store) :
    ((env.test id v).runIn w').1 = ((env.test id v).runIn w).1

namespace Setting.Consults

variable {w w' : World σ}

theorem resolve_store (h : env.Consults may) (id : Nat) (w : World σ) :
    ((env.resolve id).runIn w).2.store = w.store := by
  have hproduce := h.produce_store id w
  rw [Setting.runIn_resolve]
  cases w.built.lookup id with
  | some s => rfl
  | none =>
      rcases hrun : (env.produce id).runIn w with ⟨f | s | v, w₁⟩ <;> rw [hrun] at hproduce <;>
        exact hproduce

theorem store_eq (h : env.Consults may) (hto : Resolves env w w') : w'.store = w.store :=
  hto.keeps (I := fun w₁ => w₁.store = w.store)
    (fun id w₁ hw₁ => (h.resolve_store id w₁).trans hw₁) rfl

theorem keepsAt {st : Store} (h : env.Consults may) (hto : Resolves env w w')
    (hw : w.At st may) : w'.At st may :=
  ⟨(h.store_eq hto).trans hw.store_eq, hto.stands h.builds hw.stands⟩

/-- A predicate that leaves no error leaves nothing else, and none in later worlds. -/
theorem runIn_askAbout (h : env.Consults may) {id : Nat} {words : Option String} {code : Code}
    {v r : Value} {c c' : Context}
    (hrun : (askAbout env mode id words code v).runIn c w = (.ok r, c', w'))
    (hclear : c'.errors = c.errors) :
    r = v ∧ w' = w ∧ ∀ c₂ w₂, w₂.store = w.store →
      (askAbout env mode id words code v).runIn c₂ w₂ = (.ok v, c₂, w₂) := by
  have hasked : ∀ w₁, w₁.store = w.store →
      (env.test id v).runIn w₁ = (((env.test id v).runIn w).1, w₁) := fun w₁ hstore =>
    Prod.ext (h.test_answer id v w w₁ hstore) (h.test_world id v w₁)
  have hsettled := h.test_settled id v w
  unfold askAbout at hrun ⊢
  rw [Engine.runIn_bind, runIn_ask, hasked w rfl] at hrun
  generalize ((env.test id v).runIn w).1 = answer at hasked hsettled hrun
  rcases answer with f | u | later
  · cases hrun
    simp [Context.addError] at hclear
  · simp only at hrun
    cases htruthy : w.store.truthy u with
    | true =>
        rw [htruthy] at hrun
        cases hrun
        refine ⟨rfl, rfl, fun c₂ w₂ hstore => ?_⟩
        rw [Engine.runIn_bind, runIn_ask, hasked w₂ hstore]
        simp only [hstore, htruthy]
        rfl
    | false =>
        rw [htruthy] at hrun
        cases hrun
        simp [Context.addError] at hclear
  · exact absurd rfl (hsettled later)

end Setting.Consults

/-! ## Schemas that give values as they are -/

/-- No marker is a value or stands in it at any depth. -/
def Store.Markerless (st : Store) (v : Value) : Prop := ∀ x, st.Reaches v x → isMarker x = false

theorem Store.Markerless.of_holds {st : Store} {v u : Value} (h : st.Markerless v)
    (hu : st.Holds v u) : st.Markerless u :=
  fun x hx => h x (.head hu hx)

theorem Unmarked.markerless {I : World σ → Prop} {keys : Key → Prop} {w : World σ} {v : Value}
    (h : Unmarked I keys v) (hw : I w) : w.store.Markerless v :=
  fun _ hx => (h.of_reaches hw hx).isMarker_eq

/-- A schema does not convert and does not take a value for several things: it is no schema
of texts that write numbers, no union, intersection or transform. No key is declared twice,
and no marker stands in a default. -/
def Schema.Plain (st : Store) : Schema → Prop
  | .integerText => False
  | .decimalText => False
  | .object fields _ => Entries.Distinct fields
  | .union _ _ => False
  | .intersection _ _ => False
  | .withDefault _ default => st.Markerless default.detach
  | .transform _ _ => False
  | _ => True

/-- So are all parts of a schema. -/
def Schema.Retains (st : Store) (s : Schema) : Prop := ∀ t, s.Part t → t.Plain st

namespace Schema.Retains

variable {st : Store} {s t : Schema}

theorem plain (hs : s.Retains st) : s.Plain st := hs s .refl

theorem of_step (hs : s.Retains st) (h : s.Passes t ∨ s.Guards t) : t.Retains st :=
  fun u hu => hs u (.head h hu)

end Schema.Retains

/-- A number is the number of its atom. -/
theorem Atom.eq_of_number? {a : Atom} {n : Number} (h : a.number? = some n) : n.atom = a := by
  cases a <;> cases h <;> rfl

theorem eq_of_ofClauses {v r : Value} {clauses : List (Except Fault (Option Violation))}
    (h : Judgement.ofClauses v clauses = .ok (.accepted r)) : r = v := by
  unfold Judgement.ofClauses at h
  split at h <;> cases h
  rfl

/-- A single value that is accepted and not converted is given as it is. -/
theorem eq_of_judge? {st st' : Store} {s : Schema} {v r : Value} (hs : s.Plain st')
    (h : s.judge? st v = some (.ok (.accepted r))) : r = v := by
  cases s with
  | any =>
      cases h
      rfl
  | string checks =>
      simp only [Schema.judge?, StringChecks.judge, Option.some.injEq] at h
      split at h
      · exact eq_of_ofClauses h
      · cases h
  | number checks =>
      simp only [Schema.judge?, NumberChecks.judge, Option.some.injEq] at h
      split at h
      · split at h
        · rename_i a n hn
          unfold NumberChecks.judgeNumber at h
          split at h
          · cases h
          · rw [eq_of_ofClauses h, Atom.eq_of_number? hn]
        · cases h
      · cases h
  | boolean =>
      simp only [Schema.judge?, judgeBoolean, Option.some.injEq, Except.ok.injEq] at h
      split at h <;> cases h
      rfl
  | date checks =>
      simp only [Schema.judge?, DateChecks.judge, Option.some.injEq] at h
      split at h
      · split at h
        · exact eq_of_ofClauses h
        · cases h
      · cases h
  | enumeration first rest =>
      simp only [Schema.judge?, judgeMember, Option.some.injEq, Except.ok.injEq] at h
      rw [ite_eq_iff] at h
      rcases h with ⟨-, h⟩ | ⟨-, h⟩ <;> cases h
      rfl
  | integerText => exact hs.elim
  | decimalText => exact hs.elim
  | _ => cases h

/-! ## Entries with results -/

namespace Entries

variable {α : Type} {es : Entries α} {k l : Key}

theorem find?_eq_none_of_keys (h : ∀ m ∈ es.keys, m.same k = false) : es.find? k = none := by
  cases hfind : es.find? k with
  | none => rfl
  | some a =>
      obtain ⟨m, hsame, hm⟩ := exists_same_of_find? hfind
      exact absurd hsame (by simp [h m (List.mem_map_of_mem hm)])

theorem find?_append (es fs : Entries α) (k : Key) :
    find? (es ++ fs) k = (es.find? k).or (fs.find? k) := by
  induction es with
  | nil => rfl
  | cons e es ih =>
      obtain ⟨m, a⟩ := e
      by_cases hsame : m.same k = true <;> simp_all [find?]

theorem find?_toList_of_same (a : Option α) (h : k.same l = true) :
    find? (a.map fun b => (k, b)).toList l = a := by
  cases a <;> simp [find?, h]

theorem find?_toList_of_not_same (a : Option α) (h : k.same l = false) :
    find? (a.map fun b => (k, b)).toList l = none := by
  cases a <;> simp [find?, h]

end Entries

/-! ## Runs that are made again -/

/-- What a check of a value comes to, it gives again, on every context and in all later
worlds, and without an error or a promise. It is the marker of an absent value only if the
value was. -/
structure GivesAgain (env : Setting σ) (mode : Mode) (depth : Nat) (s : Schema) (v r : Value)
    (w w' : World σ) : Prop where
  resolves : Resolves env w w'
  valid : r ≠ .invalid
  absent (h : r = .missing) : v = .missing
  again (c : Context) (w₂ : World σ) (hlater : Resolves env w' w₂) :
    (check env mode depth s r).runIn c w₂ = (.ok r, c, w₂)

/-- What is there stays there. -/
theorem GivesAgain.isMissing_eq {s : Schema} {v r : Value} {w w' : World σ}
    (h : GivesAgain env mode depth s v r w w') (hv : isMissing v = false) :
    isMissing r = false := by
  refine Bool.eq_false_iff.mpr fun hmissing => ?_
  rw [h.absent (eq_missing_of_isMissing hmissing)] at hv
  cases hv

theorem GivesAgain.isInvalid_eq {s : Schema} {v r : Value} {w w' : World σ}
    (h : GivesAgain env mode depth s v r w w') : isInvalid r = false :=
  Bool.eq_false_iff.mpr (isInvalid_eq_true_iff.not.mpr h.valid)

/-- A part gives its result again at its place. -/
theorem GivesAgain.within {s : Schema} {v r : Value} {w w' w₂ : World σ}
    (h : GivesAgain env mode depth s v r w w') (k : Key) (c : Context)
    (hlater : Resolves env w' w₂) :
    (Engine.within k (check env mode depth s r)).runIn c w₂ = (.ok r, c, w₂) :=
  Engine.runIn_within_ok_iff.mpr ⟨_, h.again _ w₂ hlater, (c.pop_push k).symm⟩

/-- A schema that passes the result on gives it again if the one it is passed on to does. -/
theorem GivesAgain.through {s inner : Schema} {u v r : Value} {w w' : World σ}
    (h : GivesAgain env mode depth inner u r w w') (habsent : u = .missing → v = .missing)
    (hpass : ∀ c w₂, (check env mode depth inner r).runIn c w₂ = (.ok r, c, w₂) →
      (check env mode (depth + 1) s r).runIn c w₂ = (.ok r, c, w₂)) :
    GivesAgain env mode (depth + 1) s v r w w' :=
  ⟨h.resolves, h.valid, fun hr => habsent (h.absent hr), fun c w₂ hlater =>
    hpass c w₂ (h.again c w₂ hlater)⟩

/-- What schemas that give values as they are find no error in, they give again. -/
def ChecksAgain (env : Setting σ) (mode : Mode) (may : Nat → Schema → Prop) (st : Store)
    (depth : Nat) : Prop :=
  ∀ (s : Schema) (v r : Value) (c c' : Context) (w w' : World σ), s.Retains st →
    (v = .missing ∨ st.Markerless v) → w.At st may →
    (check env mode depth s v).runIn c w = (.ok r, c', w') → c'.errors = c.errors →
    GivesAgain env mode depth s v r w w'

section Layer

variable {st : Store} {v r : Value} {c c' : Context} {w w' : World σ}

theorem restored_of_checkField {k : Key} {field : Schema}
    {out : Except Fault (Option Value × Bool)}
    (h : (checkField env (env.acceptsMissing depth) (check env mode depth) v k field).runIn
      c w = (out, c', w')) : c.Restored c' := by
  have hset := (Carry.restoring_settings env mode).likeness
  have hcarried := (Likeness.checkField hset (Likeness.acceptsMissing hset depth)
    (Likeness.check hset depth) v k field c w).1
  rwa [h] at hcarried

/-- A declared key is none of those that are not. -/
theorem find?_undeclared {fields : Entries Schema} {entries : Entries Value} {k : Key}
    (h : k ∈ fields.keys) : (undeclared fields entries).find? k = none := by
  refine Entries.find?_eq_none_of_keys fun m hm => ?_
  obtain ⟨e, he, rfl⟩ := List.mem_map.mp hm
  obtain ⟨d, hd, rfl⟩ := List.mem_map.mp h
  have hhas : fields.has e.1 = false := by simpa using (List.mem_filter.mp he).2
  rw [Key.same_comm]
  exact Bool.eq_false_iff.mpr (List.any_eq_false.mp hhas d hd)

/-- Keys that are not declared are treated alike where the results of the fields stand in
front of them, if that leaves no error. -/
theorem finishObject_again {fields : Entries Schema} {unknown : UnknownKeys}
    {results : Entries Value} (hkeys : results.keys.Sublist fields.keys)
    (h : (finishObject env fields unknown v results false).runIn c w = (.ok r, c', w'))
    (hclear : c'.errors = c.errors) :
    w' = w ∧ ∃ given : Entries Value, r = .mapping false given ∧
      (∀ k ∈ fields.keys, given.find? k = results.find? k) ∧ ∀ c₂ w₂,
        (finishObject env fields unknown (.mapping false given) results false).runIn c₂ w₂ =
          (.ok r, c₂, w₂) := by
  have hdeclared : undeclared fields results = [] := by
    refine List.filter_eq_nil_iff.mpr fun e he => ?_
    obtain ⟨d, hd, hkey⟩ := List.mem_map.mp (hkeys.subset (List.mem_map_of_mem he))
    have hhas : fields.has e.1 = true := List.any_eq_true.mpr ⟨d, hd, by simp [hkey]⟩
    simp [hhas]
  have hagain : ∀ given c₂ w₂, (finishObject env fields unknown (.mapping false given) results
      false).runIn c₂ w₂ = _ := fun given c₂ w₂ =>
        Engine.runIn_bind_of_ok _ (Engine.runIn_store c₂ w₂)
  have hgiven : ∀ (given : Entries Value) (st : Store),
      st.entriesOf (.mapping false given) = given := fun _ _ => rfl
  simp only [hgiven] at hagain
  rcases cases_of_runIn_finishObject h with ⟨-, -, hrefused⟩ | ⟨-, -, rfl, rfl⟩
  · exact absurd hclear (errors_ne_of_refuse hrefused)
  cases unknown with
  | passthrough =>
      refine ⟨rfl, results ++ undeclared fields (w'.store.entriesOf v), rfl, fun k hk => ?_,
        fun c₂ w₂ => ?_⟩
      · rw [Entries.find?_append, find?_undeclared hk, Option.or_none]
      · have hsame : undeclared fields (results ++ undeclared fields (w'.store.entriesOf v)) =
            undeclared fields (w'.store.entriesOf v) := by
          rw [undeclared, List.filter_append, ← undeclared, ← undeclared, hdeclared,
            List.nil_append, undeclared, undeclared, List.filter_filter]
          simp
        rw [hagain, hsame]
        rfl
  | strip => exact ⟨rfl, results, by simp, fun _ _ => rfl, fun c₂ w₂ => by simp [hagain]⟩
  | strict =>
      refine ⟨rfl, results, by simp, fun _ _ => rfl, fun c₂ w₂ => ?_⟩
      rw [hagain, hdeclared]
      simp

section Wrappers

variable (hchild : ChecksAgain env mode may st depth)

include hchild

theorem checkOptional_again {inner : Schema} (hs : inner.Retains st)
    (hv : v = .missing ∨ st.Markerless v) (hw : w.At st may)
    (h : (check env mode (depth + 1) (.optional inner) v).runIn c w = (.ok r, c', w'))
    (hclear : c'.errors = c.errors) :
    GivesAgain env mode (depth + 1) (.optional inner) v r w w' := by
  cases hmissing : isMissing v with
  | true =>
      obtain rfl := eq_missing_of_isMissing hmissing
      cases h
      exact ⟨.refl, nofun, id, fun _ _ _ => rfl⟩
  | false =>
      rw [check_optional_of_present hmissing] at h
      have hagain := hchild inner v r c c' w w' hs hv hw h hclear
      refine hagain.through id fun c₂ w₂ hinside => ?_
      rwa [check_optional_of_present (hagain.isMissing_eq hmissing)]

theorem checkNullable_again {inner : Schema} (hs : inner.Retains st)
    (hv : v = .missing ∨ st.Markerless v) (hw : w.At st may)
    (h : (check env mode (depth + 1) (.nullable inner) v).runIn c w = (.ok r, c', w'))
    (hclear : c'.errors = c.errors) :
    GivesAgain env mode (depth + 1) (.nullable inner) v r w w' := by
  by_cases hnull : v = .null
  · subst hnull
    cases h
    exact ⟨.refl, nofun, id, fun _ _ _ => rfl⟩
  · rw [check_nullable_of_ne_null hnull] at h
    refine (hchild inner v r c c' w w' hs hv hw h hclear).through id fun c₂ w₂ hinside => ?_
    by_cases hnull : r = .null
    · subst hnull
      rfl
    · rwa [check_nullable_of_ne_null hnull]

/-- A default that was filled in is there the next time. -/
theorem checkWithDefault_again {inner : Schema} {default : Value}
    (hs : Schema.Retains st (.withDefault inner default)) (hv : v = .missing ∨ st.Markerless v)
    (hw : w.At st may)
    (h : (check env mode (depth + 1) (.withDefault inner default) v).runIn c w = (.ok r, c', w'))
    (hclear : c'.errors = c.errors) :
    GivesAgain env mode (depth + 1) (.withDefault inner default) v r w w' := by
  have hinner : inner.Retains st := hs.of_step (.inl .withDefault)
  have hdefault : st.Markerless default.detach := hs.plain
  cases hmissing : isMissing v with
  | true =>
      obtain rfl := eq_missing_of_isMissing hmissing
      obtain ⟨-, d, hinside, rfl⟩ := runIn_copied_ok_iff.mp h
      have hagain := hchild inner default.detach r _ d w w' hinner (.inr hdefault) hw hinside
        hclear
      have hpresent := hagain.isMissing_eq (Bool.or_eq_false_iff.mp (hdefault _ .refl)).2
      refine hagain.through (fun _ => rfl) fun c₂ w₂ hinside => ?_
      rwa [check_withDefault_of_present hpresent]
  | false =>
      rw [check_withDefault_of_present hmissing] at h
      have hagain := hchild inner v r c c' w w' hinner hv hw h hclear
      refine hagain.through id fun c₂ w₂ hinside => ?_
      rwa [check_withDefault_of_present (hagain.isMissing_eq hmissing)]

end Wrappers

variable (henv : env.Consults may) (hchild : ChecksAgain env mode may st depth)

include henv

/-- A single value. -/
theorem givesAgain_of_judge? {s : Schema} {j : Except Fault Judgement} (hs : s.Retains st)
    (hv : v = .missing ∨ st.Markerless v) (hj : s.judge? w.store v = some j)
    (h : (check env mode (depth + 1) s v).runIn c w = (.ok r, c', w'))
    (hclear : c'.errors = c.errors) : GivesAgain env mode (depth + 1) s v r w w' := by
  have hsettle : ∀ c₂ w₂, w₂.store = w.store →
      (check env mode (depth + 1) s v).runIn c₂ w₂ = (settle env j).runIn c₂ w₂ := by
    intro c₂ w₂ hstore
    exact runIn_checkLayer_of_judge? (hstore ▸ hj)
  rw [hsettle c w rfl] at h
  obtain rfl := Call.accepted_of_settle h hclear
  obtain rfl := eq_of_judge? hs.plain hj
  cases h
  refine ⟨.refl, ?_, id, fun c₂ w₂ hlater => hsettle c₂ w₂ (henv.store_eq hlater)⟩
  rintro rfl
  rcases hv with hv | hv
  · cases hv
  · cases hv _ .refl

/-- A field gives again what its check does, where its result, if any, stands at its key. The
flag accepted that there was none, if there was none, and does so again. -/
theorem checkField_of_givesAgain {k : Key} {field : Schema} {u : Value} {w₁ : World σ}
    (hagain : GivesAgain env mode depth field u r w₁ w')
    (haccepts : u = .missing → (env.acceptsMissing depth field).runIn w = (.ok true, w₁))
    {results : Entries Value} (hfind : results.find? k = (fieldOutcome r).1) (c₂ : Context)
    {w₂ : World σ} (hlater : Resolves env w' w₂) :
    (checkField env (env.acceptsMissing depth) (check env mode depth) (.mapping false results)
      k field).runIn c₂ w₂ = (.ok (fieldOutcome r), c₂, w₂) := by
  have hdone : (do return fieldOutcome (← Engine.within k (check env mode depth field r))).runIn
      c₂ w₂ = (.ok (fieldOutcome r), c₂, w₂) :=
    Engine.runIn_bind_ok_iff.mpr ⟨r, c₂, w₂, hagain.within k c₂ hlater, rfl⟩
  have hgiven : w₂.store.entriesOf (.mapping false results) = results := rfl
  rw [runIn_checkField, hgiven]
  cases hmissing : isMissing r with
  | false =>
      have hresult : fieldOutcome r = (some r, false) := by
        simp [fieldOutcome, hagain.isInvalid_eq, hmissing]
      rw [hresult] at hfind
      rw [hfind]
      exact hdone
  | true =>
      obtain rfl := eq_missing_of_isMissing hmissing
      have hnone : results.find? k = none := hfind
      rw [hnone]
      have haccepted := (repeats_acceptsMissing henv.builds depth field _ _ _
        (haccepts (hagain.absent rfl))).2 w₂ (hagain.resolves.trans hlater)
      refine Engine.runIn_bind_ok_iff.mpr
        ⟨true, c₂, w₂, Engine.runIn_ofAct_ok_iff.mpr ⟨haccepted, rfl⟩, ?_⟩
      refine (Engine.runIn_bind_of_ok _ (Engine.runIn_store c₂ w₂)).trans ?_
      rw [hgiven, hnone]
      exact hdone

include hchild

/-- A field that leaves no error leaves none where its result, if any, stands at its key. -/
theorem checkField_again {k : Key} {field : Schema} {out : Option Value × Bool}
    (hs : field.Retains st) (hentries : ∀ u, (st.entriesOf v).find? k = some u → st.Markerless u)
    (hw : w.At st may)
    (h : (checkField env (env.acceptsMissing depth) (check env mode depth) v k field).runIn
      c w = (.ok out, c', w')) (hclear : c'.errors = c.errors) :
    Resolves env w w' ∧ out.2 = false ∧ ∀ results : Entries Value, results.find? k = out.1 →
      ∀ c₂ w₂, Resolves env w' w₂ →
        (checkField env (env.acceptsMissing depth) (check env mode depth) (.mapping false results)
          k field).runIn c₂ w₂ = (.ok out, c₂, w₂) := by
  rcases cases_of_runIn_checkField h with
    ⟨u, w₁, r, d, hhanded, hrun, rfl, rfl⟩ | ⟨w₁, d, -, -, hadd, rfl, -⟩
  · have hto : Resolves env w w₁ := by
      cases hhanded with
      | present => exact .refl
      | absent _ haccepts => exact (repeats_acceptsMissing henv.builds depth field _ _ _ haccepts).1
    have hw₁ := henv.keepsAt hto hw
    have hu : u = .missing ∨ st.Markerless u := by
      cases hhanded with
      | present hfind => exact .inr (hentries u (hw.store_eq ▸ hfind))
      | absent hfind haccepts =>
          rw [hw.store_eq] at hfind
          exact .inl (by rw [hw₁.store_eq, hfind, Option.getD_none])
    have haccepts : u = .missing → (env.acceptsMissing depth field).runIn w = (.ok true, w₁) := by
      intro hmissing
      cases hhanded with
      | present hfind =>
          have hplain := hentries u (hw.store_eq ▸ hfind)
          cases (hmissing ▸ hplain) _ .refl
      | absent _ haccepts => exact haccepts
    have hagain := hchild field u r _ d w₁ w' hs hu hw₁ hrun hclear
    refine ⟨hto.trans hagain.resolves, ?_, fun results hfind c₂ w₂ hlater =>
      checkField_of_givesAgain henv hagain haccepts hfind c₂ hlater⟩
    cases hfailed : (fieldOutcome r).2 with
    | false => rfl
    | true => exact absurd (Call.eq_invalid_of_fieldOutcome hfailed) hagain.valid
  · obtain ⟨message, rfl, -⟩ := Engine.eq_addError_of_runIn_addViolation hadd
    simp [Context.addError, Context.pop, Context.push] at hclear

/-- So for all fields, whose results stand at their keys. -/
theorem checkFields_again {fields : Entries Schema} {results : Entries Value} {failed : Bool}
    (hdistinct : fields.Distinct) (hfields : ∀ e ∈ fields, e.2.Retains st)
    (hentries : ∀ k u, (st.entriesOf v).find? k = some u → st.Markerless u) (hw : w.At st may)
    (h : (checkFields env (env.acceptsMissing depth) (check env mode depth) v fields).runIn
      c w = (.ok (results, failed), c', w')) (hclear : c'.errors = c.errors) :
    Resolves env w w' ∧ failed = false ∧ results.keys.Sublist fields.keys ∧
      ∀ given : Entries Value, (∀ k ∈ fields.keys, given.find? k = results.find? k) →
      ∀ c₂ w₂, Resolves env w' w₂ →
        (checkFields env (env.acceptsMissing depth) (check env mode depth) (.mapping false given)
          fields).runIn c₂ w₂ = (.ok (results, false), c₂, w₂) := by
  induction fields generalizing c w results failed with
  | nil =>
      cases h
      exact ⟨.refl, rfl, .slnil, fun _ _ _ _ _ => rfl⟩
  | cons e fields ih =>
      obtain ⟨k, field⟩ := e
      obtain ⟨⟨result, failed₁⟩, c₁, w₁, hfirst, h⟩ := Engine.runIn_bind_ok_iff.mp h
      obtain ⟨⟨rest, failed₂⟩, c₂, w₂, hrest, hdone⟩ := Engine.runIn_bind_ok_iff.mp h
      cases hdone
      obtain ⟨hother, hlater⟩ := List.pairwise_cons.mp hdistinct
      have hbetween : c₁.errors = c.errors :=
        eq_between (restored_of_checkField hfirst).errors (restored_of_checkFields hrest).errors
          hclear
      obtain ⟨hto, rfl, hagain⟩ := checkField_again henv hchild
        (hfields _ List.mem_cons_self) (hentries k) hw hfirst hbetween
      obtain ⟨hon, rfl, hkeys, hagainRest⟩ := ih hlater
        (fun e he => hfields e (List.mem_cons_of_mem _ he)) (henv.keepsAt hto hw) hrest
        (hclear.trans hbetween.symm)
      have hrestNone : rest.find? k = none := by
        refine Entries.find?_eq_none_of_keys fun l hl => ?_
        obtain ⟨e, he, rfl⟩ := List.mem_map.mp (hkeys.subset hl)
        rw [Key.same_comm]
        exact hother e he
      refine ⟨hto.trans hon, rfl, ?_, fun given hgiven c₂ w₂ hlater => ?_⟩
      · cases result with
        | none => exact hkeys.cons k
        | some r => exact hkeys.cons_cons k
      · have hhere : given.find? k = result := by
          rw [hgiven k List.mem_cons_self, Entries.find?_append,
            Entries.find?_toList_of_same result (Key.same_self k), hrestNone, Option.or_none]
        have hthere : ∀ l ∈ Entries.keys fields, given.find? l = rest.find? l := by
          intro l hl
          obtain ⟨e, he, rfl⟩ := List.mem_map.mp hl
          rw [hgiven _ (List.mem_cons_of_mem _ hl), Entries.find?_append,
            Entries.find?_toList_of_not_same result (hother e he), Option.none_or]
        refine Engine.runIn_bind_ok_iff.mpr
          ⟨_, c₂, w₂, hagain given hhere c₂ w₂ (hon.trans hlater), ?_⟩
        exact Engine.runIn_bind_ok_iff.mpr ⟨_, c₂, w₂, hagainRest given hthere c₂ w₂ hlater, rfl⟩

/-- The first elements of a list that leave no error leave none in a list that begins with
their results. -/
theorem firstItems_again {element : Schema} {n : Nat} {results : List Value} {failed : Bool}
    (helement : element.Retains st) (hitems : ∀ u ∈ st.itemsOf v, st.Markerless u)
    (hw : w.At st may)
    (h : (firstItems (check env mode depth element) v n).runIn c w =
      (.ok (results, failed), c', w')) (hclear : c'.errors = c.errors) :
    Resolves env w w' ∧ failed = false ∧ results.length = min n (st.itemsOf v).length ∧
      ∀ given, results <+: given → ∀ c₂ w₂, Resolves env w' w₂ →
        (firstItems (check env mode depth element) (.list given) results.length).runIn c₂ w₂ =
          (.ok (results, false), c₂, w₂) := by
  induction n generalizing c' w' results failed with
  | zero =>
      cases h
      exact ⟨.refl, rfl, by simp, fun _ _ _ _ _ => rfl⟩
  | succ n ih =>
      obtain ⟨⟨before, failed₁⟩, c₁, w₁, hbefore, h⟩ := Engine.runIn_bind_ok_iff.mp h
      rcases cases_of_runIn_nextItem h with
        ⟨hended, hdone, rfl, rfl⟩ | ⟨u, r, d, hitem, hrun, rfl, hdone⟩
      · cases hdone
        obtain ⟨hto, rfl, hlength, hagain⟩ := ih hbefore hclear
        rw [(henv.keepsAt hto hw).store_eq, List.getElem?_eq_none_iff] at hended
        exact ⟨hto, rfl, by omega, hagain⟩
      · have hbetween : c₁.errors = c.errors :=
          eq_between (restored_of_firstItems hbefore).errors (restored_of_check hrun).errors hclear
        obtain ⟨hto, rfl, hlength, hagainBefore⟩ := ih hbefore hbetween
        have hw₁ := henv.keepsAt hto hw
        rw [hw₁.store_eq] at hitem
        obtain ⟨hthere, hu⟩ := List.getElem?_eq_some_iff.mp hitem
        have hu : st.Markerless u := hitems u (hu ▸ List.getElem_mem hthere)
        have hagain := hchild element u r _ d w₁ w' helement (.inr hu) hw₁ hrun
          (hclear.trans hbetween.symm)
        have hmissing : isMissing r = false :=
          hagain.isMissing_eq (Bool.or_eq_false_iff.mp (hu u .refl)).2
        have hjoined : ∀ given,
            joinResult (given, false) r = (given ++ [r], false) := fun given => by
          simp [joinResult, hagain.isInvalid_eq, hmissing]
        rw [hjoined] at hdone
        cases hdone
        have hsize : before.length = n := by omega
        refine ⟨hto.trans hagain.resolves, rfl, by rw [List.length_append]; simp; omega,
          fun given hgiven c₂ w₂ hlater => ?_⟩
        have hbeforeGiven := hagainBefore given ((List.prefix_append ..).trans hgiven) c₂ w₂
          (hagain.resolves.trans hlater)
        have hhere : (w₂.store.itemsOf (.list given))[before.length]? = some r := by
          obtain ⟨rest, rfl⟩ := hgiven
          show ((before ++ [r]) ++ rest)[before.length]? = some r
          simp
        have hnext := runIn_firstItems_succ hbeforeGiven hhere (hagain.within _ c₂ hlater)
        rw [hjoined] at hnext
        rwa [List.length_append]

theorem checkArray_again {element : Schema} {bounds : ArrayBounds}
    (helement : element.Retains st) (hv : v = .missing ∨ st.Markerless v) (hw : w.At st may)
    (h : (check env mode (depth + 1) (.array element bounds) v).runIn c w = (.ok r, c', w'))
    (hclear : c'.errors = c.errors) :
    GivesAgain env mode (depth + 1) (.array element bounds) v r w w' := by
  rcases cases_of_runIn_checkArray h with
    ⟨-, hrefused⟩ | ⟨-, -, hrefused⟩ | ⟨-, -, ⟨results, failed⟩, c₁, w₁, hinside, -, hfinish⟩
  · exact absurd hclear (errors_ne_of_refuse hrefused)
  · exact absurd hclear (errors_ne_of_refuse hrefused)
  · obtain ⟨hadded, hr⟩ := runIn_finishArray_ok_iff.mp hfinish
    have hstart : c.errors <+: c₁.errors := by
      simpa using (restored_of_firstItems hinside).errors
    have hback := (Carry.of_addViolations (Carry.restoring_settings env mode) hadded).errors
    have hbetween : c₁.errors = c.errors := eq_between hstart (by simpa using hback) hclear
    have hmarkless : ∀ u ∈ st.itemsOf v, st.Markerless u := by
      rcases hv with rfl | hv
      · nofun
      · intro u hu
        obtain ⟨i, hi⟩ := List.mem_iff_getElem?.mp hu
        exact hv.of_holds (Store.holds_of_child? (Store.child?_of_getElem? hi))
    obtain ⟨hto, rfl, hlength, hagain⟩ := firstItems_again henv hchild helement hmarkless
      hw hinside (by simpa using hbetween)
    have hlength : results.length = (w₁.store.itemsOf v).length := by
      rw [(henv.keepsAt hto hw).store_eq]
      rw [hw.store_eq] at hlength
      omega
    cases hbounds : violatedBounds bounds (w₁.store.itemsOf v).length with
    | cons x xs =>
        rw [hbounds] at hadded
        exact absurd (by simpa using hclear.trans hbetween.symm) (errors_ne_of_addViolations hadded)
    | nil =>
        rw [hbounds] at hadded hr
        cases hadded
        obtain rfl : r = .list results := by simpa using hr
        -- the list of the results is looked into in its turn, and marks nothing
        refine ⟨hto, nofun, nofun, fun c₄ w₄ hlater => ?_⟩
        have hfirst := hagain results (List.prefix_refl _) c₄ w₄ hlater
        have hended : (w₄.store.itemsOf (.list results))[results.length]? = none :=
          List.getElem?_eq_none_iff.mpr le_rfl
        have hall := runIn_checkItems_ok_iff.mpr
          ⟨runIn_firstItems_of_ended hfirst hended depth, Nat.le_add_right _ _⟩
        refine (runIn_checkArray env depth (check env mode depth) element bounds _ c₄ w₄).trans ?_
        refine Engine.runIn_bind_ok_iff.mpr ⟨(results, false), c₄, w₄, ?_, ?_⟩
        · exact Engine.runIn_lookingInto_ok_iff.mpr ⟨c₄, hall, rfl⟩
        · refine runIn_finishArray_ok_iff.mpr ?_
          rw [← hlength] at hbounds
          have hsame : (w₄.store.itemsOf (.list results)).length = results.length := rfl
          rw [hsame, hbounds]
          exact ⟨rfl, rfl⟩

theorem checkObject_again {fields : Entries Schema} {unknown : UnknownKeys}
    (hs : Schema.Retains st (.object fields unknown)) (hv : v = .missing ∨ st.Markerless v)
    (hw : w.At st may)
    (h : (check env mode (depth + 1) (.object fields unknown) v).runIn c w = (.ok r, c', w'))
    (hclear : c'.errors = c.errors) :
    GivesAgain env mode (depth + 1) (.object fields unknown) v r w w' := by
  rcases cases_of_runIn_checkObject h with
    ⟨-, hrefused⟩ | ⟨-, -, hrefused⟩ | ⟨-, -, ⟨results, failed⟩, c₁, w₁, hinside, hfinish⟩
  · exact absurd hclear (errors_ne_of_refuse hrefused)
  · exact absurd hclear (errors_ne_of_refuse hrefused)
  · have hstart : c.errors <+: c₁.errors := by
      simpa using (restored_of_checkFields hinside).errors
    have hback := (Carry.of_finishObject (Carry.restoring_settings env mode) hfinish).errors
    have hbetween : c₁.errors = c.errors := eq_between hstart (by simpa using hback) hclear
    have hmarkless : ∀ k u, (st.entriesOf v).find? k = some u → st.Markerless u := by
      rcases hv with rfl | hv
      · intro k u hu
        cases hu
      · exact fun k u hu => hv.of_holds (Store.holds_of_child? (Store.child?_of_find? hu))
    obtain ⟨hto, rfl, hkeys, hagain⟩ := checkFields_again henv hchild hs.plain
      (fun e he => hs.of_step (.inr (.field he))) hmarkless hw hinside (by simpa using hbetween)
    obtain ⟨rfl, given, rfl, hgiven, hfinishAgain⟩ := finishObject_again hkeys hfinish
      (by simpa using hclear.trans hbetween.symm)
    -- the mapping of the results is looked into in its turn, and marks nothing
    refine ⟨hto, nofun, nofun, fun c₄ w₄ hlater => ?_⟩
    refine (runIn_checkObject env (env.acceptsMissing depth) (check env mode depth) fields unknown
      _ c₄ w₄).trans ?_
    refine Engine.runIn_bind_ok_iff.mpr ⟨(results, false), c₄, w₄, ?_, hfinishAgain c₄ w₄⟩
    exact Engine.runIn_lookingInto_ok_iff.mpr ⟨c₄, hagain given hgiven c₄ w₄ hlater, rfl⟩

/-- The predicate is asked about the same value again, and answers as it did. -/
theorem checkRefine_again {inner : Schema} {id : Nat} {words : Option String} {code : Code}
    (hs : inner.Retains st) (hv : v = .missing ∨ st.Markerless v) (hw : w.At st may)
    (h : (check env mode (depth + 1) (.refine inner id words code) v).runIn c w = (.ok r, c', w'))
    (hclear : c'.errors = c.errors) :
    GivesAgain env mode (depth + 1) (.refine inner id words code) v r w w' := by
  obtain ⟨u, c₁, w₁, hinside, hrest⟩ := Engine.runIn_bind_ok_iff.mp h
  cases hmarker : isMarker u with
  | true =>
      simp only [hmarker, if_true] at hrest
      cases hrest
      refine (hchild inner v r c c' w w' hs hv hw hinside hclear).through (fun h => h)
        fun c₂ w₂ hinside => Engine.runIn_bind_ok_iff.mpr ⟨r, c₂, w₂, hinside, ?_⟩
      simp only [hmarker, if_true]
      rfl
  | false =>
      simp only [hmarker, Bool.false_eq_true, if_false] at hrest
      have hbetween : c₁.errors = c.errors :=
        eq_between (restored_of_check hinside).errors
          (Carry.of_askAbout (Carry.restoring_settings env mode) hrest).errors hclear
      have hagain := hchild inner v u c c₁ w w₁ hs hv hw hinside hbetween
      obtain ⟨rfl, rfl, hasked⟩ := henv.runIn_askAbout hrest (hclear.trans hbetween.symm)
      refine ⟨hagain.resolves, hagain.valid, hagain.absent, fun c₂ w₂ hlater => ?_⟩
      refine Engine.runIn_bind_ok_iff.mpr ⟨r, c₂, w₂, hagain.again c₂ w₂ hlater, ?_⟩
      simp only [hmarker, Bool.false_eq_true, if_false]
      exact hasked c₂ w₂ (henv.store_eq hlater)

/-- A deferred schema that has been built gives what it stands for. -/
theorem checkDeferred_again {id : Nat} (hmay : ∀ id t, may id t → t.Retains st)
    (hv : v = .missing ∨ st.Markerless v) (hw : w.At st may)
    (h : (check env mode (depth + 1) (.deferred id) v).runIn c w = (.ok r, c', w'))
    (hclear : c'.errors = c.errors) :
    GivesAgain env mode (depth + 1) (.deferred id) v r w w' := by
  obtain ⟨s, c₁, w₁, hresolve, hinside⟩ := Engine.runIn_bind_ok_iff.mp h
  obtain ⟨hresolved, rfl⟩ := Engine.runIn_ofAct_ok_iff.mp hresolve
  obtain ⟨hto, hrepeats⟩ := repeats_resolve henv.builds id _ _ _ hresolved
  have hw₁ := henv.keepsAt hto hw
  have hs := hmay id s (hw₁.stands id s (standing_of_resolve hresolved))
  have hagain := hchild s v r _ _ w₁ w' hs hv hw₁ hinside hclear
  refine ⟨hto.trans hagain.resolves, hagain.valid, hagain.absent, fun c₂ w₂ hlater => ?_⟩
  have hbuilt := hrepeats w₂ (hagain.resolves.trans hlater)
  exact Engine.runIn_bind_ok_iff.mpr
    ⟨s, c₂, w₂, Engine.runIn_ofAct_ok_iff.mpr ⟨hbuilt, rfl⟩, hagain.again c₂ w₂ hlater⟩

end Layer

/-- **Values that a schema gives are given again.** -/
theorem checksAgain (henv : env.Consults may) (st : Store)
    (hmay : ∀ id t, may id t → t.Retains st) (depth : Nat) :
    ChecksAgain env mode may st depth := by
  induction depth with
  | zero =>
      intro s v r c c' w w' _ _ _ h
      cases h
  | succ depth ih =>
      intro s v r c c' w w' hs hv hw h hclear
      cases s with
      | object fields unknown => exact checkObject_again henv ih hs hv hw h hclear
      | array element bounds =>
          exact checkArray_again henv ih (hs.of_step (.inr .element)) hv hw h hclear
      | union first rest => exact hs.plain.elim
      | intersection first rest => exact hs.plain.elim
      | transform inner step => exact hs.plain.elim
      | optional inner =>
          exact checkOptional_again ih (hs.of_step (.inl .optional)) hv hw h hclear
      | nullable inner =>
          exact checkNullable_again ih (hs.of_step (.inl .nullable)) hv hw h hclear
      | withDefault inner default => exact checkWithDefault_again ih hs hv hw h hclear
      | refine inner id words code =>
          exact checkRefine_again henv ih (hs.of_step (.inl .refine)) hv hw h hclear
      | deferred id => exact checkDeferred_again henv ih hmay hv hw h hclear
      | _ => exact givesAgain_of_judge? henv hs hv rfl h hclear

/-- What is accepted is what the check has found nothing against, which it finds nothing
against again. -/
theorem accepts_of_run {st : Store} {s : Schema} {v u r : Value} {c : Context} {w w' : World σ}
    (hrules : env.rules = []) (hagain : ChecksAgain env mode may st depth) (hs : s.Retains st)
    (hv : st.Markerless v) (hw : w.At st may)
    (h : (Validate.checkWhole env mode depth s v).runIn {} w = (.ok r, c, w'))
    (hfinish : Validate.finish r c.errors = .ok (.accepted u)) :
    ∀ w₂, Resolves env w' w₂ →
      (Validate.checkWhole env mode depth s u).runIn {} w₂ = (.ok u, {}, w₂) ∧
        Validate.finish u [] = .ok (.accepted u) := by
  rw [Validate.runIn_checkWhole_of_no_rules hrules] at h
  obtain ⟨hclean, hu⟩ := Validate.finish_eq_accepted_iff.mp hfinish
  have hagain := hagain s v r {} c w w' hs (.inr hv) hw h hclean
  have hpresent := hagain.isMissing_eq (Bool.or_eq_false_iff.mp (hv _ .refl)).2
  obtain rfl : u = r := by simpa [hpresent] using hu
  intro w₂ hlater
  rw [Validate.runIn_checkWhole_of_no_rules hrules]
  exact ⟨hagain.again {} w₂ hlater, by simp [Validate.finish, hpresent]⟩

/-- **A value that was accepted is accepted as it is.** The schema does not convert, asks
only pure predicates that answer at once, and may be recursive; objects may treat undeclared
keys in any way; no marker stands in the value or in a default, and there are no rules for
whole values. The value is checked again by the same schema in any later world, with or
without waiting for answers. Nothing changes in the world then. -/
theorem accepted_again {σ : Type} (env : Setting σ) {may : Nat → Schema → Prop} (depth : Nat)
    {s : Schema} {v u : Value} {w w' : World σ} (henv : env.Consults may)
    (hmay : ∀ id t, may id t → t.Retains w.store) (hs : s.Retains w.store)
    (hstands : w.Stands may) (hv : w.store.Markerless v) (hrules : env.rules = []) :
    (∀ entry, (Validate.immediate env depth entry s v).runIn w = (.ok (.accepted u), w') →
      ∀ entry w₂, Resolves env w' w₂ →
        (Validate.immediate env depth entry s u).runIn w₂ = (.ok (.accepted u), w₂)) ∧
    ((Validate.awaited env depth s v).runIn w = (.ok (.accepted u), w') →
      ∀ w₂, Resolves env w' w₂ →
        (Validate.awaited env depth s u).runIn w₂ = (.ok (.accepted u), w₂)) := by
  have hchecks (mode : Mode) : ChecksAgain env mode may w.store depth :=
    checksAgain henv w.store hmay depth
  constructor
  · intro _ h entry w₂ hlater
    obtain ⟨r, c, hrun, -, ho⟩ := Validate.runIn_immediate_ok_iff.mp h
    obtain ⟨hagain, hfinish⟩ := accepts_of_run hrules (hchecks _) hs hv ⟨rfl, hstands⟩ hrun
      ho w₂ hlater
    exact Validate.runIn_immediate_ok_iff.mpr ⟨u, {}, hagain, rfl, hfinish⟩
  · intro h w₂ hlater
    obtain ⟨r, c, hrun, ho⟩ := Validate.runIn_awaited_ok_iff.mp h
    obtain ⟨hagain, hfinish⟩ := accepts_of_run hrules (hchecks _) hs hv ⟨rfl, hstands⟩ hrun
      ho w₂ hlater
    exact Validate.runIn_awaited_ok_iff.mpr ⟨u, {}, hagain, hfinish⟩

/-- Chains of numbers that a predicate is asked about, with tags and whatever else stands
in a link. -/
def numberChain : Schema :=
  .object [(.text "value", .refine (.number {}) 0 none (.custom "odd")),
    (.text "next", .optional (.deferred 0)),
    (.text "tags", .withDefault (.array (.string {}) {}) (.list []))] .passthrough

/-- A host whose deferred schemas stand for such chains, and whose predicate asks for even
numbers. -/
def evenChainHost : Setting Unit :=
  { idleHost with
    produce := fun _ => return .schema numberChain
    test := fun _ v => return .settled (.bool (match v with | .int n => n % 2 == 0 | _ => false)) }

theorem consults_evenChainHost : evenChainHost.Consults fun _ t => t = numberChain where
  builds := by
    have hstill : evenChainHost.Still :=
      { apply := fun _ _ _ => rfl
        test := fun _ _ _ => rfl
        later := fun _ _ _ _ _ h => by cases h
        produce := fun _ _ => rfl }
    refine (hstill.upholds fun _ _ _ h => ?_).builds
    cases h
    rfl
  produce_store _ _ := rfl
  test_world _ _ _ := rfl
  test_settled _ _ _ _ := nofun
  test_answer _ _ _ _ _ := rfl

theorem retains_numberChain (st : Store) : numberChain.Retains st := by
  intro t ht
  have hparts : t = numberChain ∨ t = .refine (.number {}) 0 none (.custom "odd") ∨
      t = .number {} ∨ t = .optional (.deferred 0) ∨ t = .deferred 0 ∨
      t = .withDefault (.array (.string {}) {}) (.list []) ∨ t = .array (.string {}) {} ∨
      t = .string {} := by
    induction ht with
    | refl => exact .inl rfl
    | tail _ hstep ih =>
        rcases ih with rfl | rfl | rfl | rfl | rfl | rfl | rfl | rfl <;>
          rcases hstep with hstep | hstep <;> cases hstep <;> grind [numberChain]
  have hlist : Unmarked (fun _ : World Unit => True) (fun _ => True) (.list []) :=
    unmarked_list nofun
  rcases hparts with rfl | rfl | rfl | rfl | rfl | rfl | rfl | rfl
  · show Entries.Distinct _
    decide
  · trivial
  · trivial
  · trivial
  · trivial
  · exact hlist.markerless (w := ⟨st, [], [], ()⟩) trivial
  · trivial
  · trivial

/-- A chain of two numbers, with a note, in a mapping that cannot be written to. -/
def shuffledChain : Value :=
  .mapping true [(.text "note", .null),
    (.text "next", .mapping false [(.text "tags", .list [.text "a"]), (.text "value", .int 4)]),
    (.text "value", .int 2)]

/-- The keys are brought in order and the tags are filled in, and the note is kept behind
them. That is accepted again. -/
theorem accepted_again_shuffledChain :
    let u : Value := .mapping false [(.text "value", .int 2),
      (.text "next", .mapping false [(.text "value", .int 4), (.text "tags", .list [.text "a"])]),
      (.text "tags", .list []), (.text "note", .null)]
    ∃ w', (Validate.immediate evenChainHost 8 .safeParse numberChain shuffledChain).runIn
        { host := () } = (.ok (.accepted u), w') ∧
      (Validate.immediate evenChainHost 8 .safeParse numberChain u).runIn w' =
        (.ok (.accepted u), w') := by
  have hvalue : Unmarked (fun _ : World Unit => True) (fun _ => True) shuffledChain := by
    refine unmarked_mapping (fun _ _ => trivial) fun e he => ?_
    simp only [List.mem_cons, List.not_mem_nil, or_false] at he
    rcases he with rfl | rfl | rfl
    · exact unmarked_atom rfl
    · refine unmarked_mapping (fun _ _ => trivial) fun e he => ?_
      simp only [List.mem_cons, List.not_mem_nil, or_false] at he
      rcases he with rfl | rfl
      · refine unmarked_list fun x hx => ?_
        rw [List.mem_singleton.mp hx]
        exact unmarked_atom rfl
      · exact unmarked_atom rfl
    · exact unmarked_atom rfl
  refine ⟨_, rfl, (accepted_again evenChainHost 8 consults_evenChainHost
    (fun _ t ht => ht ▸ retains_numberChain {}) (retains_numberChain {}) ?_
    (hvalue.markerless (w := { host := () }) trivial) rfl).1 .safeParse rfl .safeParse _ .refl⟩
  rintro id t ⟨⟩

end Conform
