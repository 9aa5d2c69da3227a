import Conform.Proofs.Record
import Conform.Proofs.Report
import Conform.Proofs.SchemaGraph
import Conform.Proofs.Restoration

/-!
# Absent values

Whether a schema accepts an absent value is told twice. `acceptsMissing` is a
flag that an object schema looks at before it checks a field whose key is not
there; the check itself may also be given the marker of an absent value. The
flag asks for some option of a union and for all members of an intersection,
while the check tries options in order and merges what the members give.

`Schema.Accepts` and `Schema.Refuses` say what both come to, given what the
deferred schemas stand for. The flag decides between them. A check of the marker
ends by the marker and leaves its context alone where the schema accepts it, and
leaves an error where the schema refuses it. Only a default ends otherwise, as the
check goes on with a copy of it.

Deferred schemas are built when they are first met, by the flag or by a check. So
what they stand for is that of a world, as far as it has been built.

## Main results

* `decides_of_acceptsMissing` — the flag decides whether a schema accepts.
* `answers_of_check` — without defaults, a check of an absent value changes
  nothing where the schema accepts it, and leaves an error where it refuses it.
* `fails_of_refuses` — what refuses an absent value leaves an error, whatever
  defaults stand in it.
-/

namespace Conform

open Traverse

/-! ## Schemas that accept an absent value -/

namespace Schema

/-- A schema without parts accepts an absent value: it takes anything, or has the
marker among its members. -/
def takesMissing : Schema → Bool
  | any => true
  | enumeration first rest => (first :: rest).any (·.sameKind .missing)
  | _ => false

/-- A schema asks for a value: of some kind, or out of some that are there. -/
def asksForValue : Schema → Bool
  | enumeration first rest => !(first :: rest).any (·.sameKind .missing)
  | any | union _ _ | intersection _ _ | optional _ | nullable _ | withDefault _ _ => false
  | transform _ _ | refine _ _ _ _ | deferred _ => false
  | string _ | number _ | boolean | date _ | integerText | decimalText => true
  | object _ _ | array _ _ => true

/-- An absent value is accepted, given what the deferred schemas stand for. -/
inductive Accepts (built : Nat → Option Schema) : Schema → Prop
  | single {s} (h : s.takesMissing = true) : Accepts built s
  | optional {inner} : Accepts built (.optional inner)
  | withDefault {inner default} : Accepts built (.withDefault inner default)
  | nullable {inner} (h : Accepts built inner) : Accepts built (.nullable inner)
  | transform {inner step} (h : Accepts built inner) : Accepts built (.transform inner step)
  | refine {inner id words code} (h : Accepts built inner) :
      Accepts built (.refine inner id words code)
  | union {first rest s} (hs : s ∈ first :: rest) (h : Accepts built s) :
      Accepts built (.union first rest)
  | intersection {first rest} (h : ∀ s ∈ first :: rest, Accepts built s) :
      Accepts built (.intersection first rest)
  | deferred {id s} (hbuilt : built id = some s) (h : Accepts built s) :
      Accepts built (.deferred id)

/-- An absent value is refused, given what the deferred schemas stand for. -/
inductive Refuses (built : Nat → Option Schema) : Schema → Prop
  | single {s} (h : s.asksForValue = true) : Refuses built s
  | nullable {inner} (h : Refuses built inner) : Refuses built (.nullable inner)
  | transform {inner step} (h : Refuses built inner) : Refuses built (.transform inner step)
  | refine {inner id words code} (h : Refuses built inner) :
      Refuses built (.refine inner id words code)
  | union {first rest} (h : ∀ s ∈ first :: rest, Refuses built s) :
      Refuses built (.union first rest)
  | intersection {first rest s} (hs : s ∈ first :: rest) (h : Refuses built s) :
      Refuses built (.intersection first rest)
  | deferred {id s} (hbuilt : built id = some s) (h : Refuses built s) :
      Refuses built (.deferred id)

variable {built built' : Nat → Option Schema} {s : Schema}

theorem Accepts.mono (h : s.Accepts built)
    (hmore : ∀ id t, built id = some t → built' id = some t) :
    s.Accepts built' := by
  induction h with
  | single h => exact .single h
  | optional => exact .optional
  | withDefault => exact .withDefault
  | nullable _ ih => exact .nullable ih
  | transform _ ih => exact .transform ih
  | refine _ ih => exact .refine ih
  | union hs _ ih => exact .union hs ih
  | intersection _ ih => exact .intersection ih
  | deferred hbuilt _ ih => exact .deferred (hmore _ _ hbuilt) ih

theorem Refuses.mono (h : s.Refuses built)
    (hmore : ∀ id t, built id = some t → built' id = some t) :
    s.Refuses built' := by
  induction h with
  | single h => exact .single h
  | nullable _ ih => exact .nullable ih
  | transform _ ih => exact .transform ih
  | refine _ ih => exact .refine ih
  | union _ ih => exact .union ih
  | intersection hs _ ih => exact .intersection hs ih
  | deferred hbuilt _ ih => exact .deferred (hmore _ _ hbuilt) ih

theorem asksForValue_eq_false (h : s.takesMissing = true) : s.asksForValue = false := by
  cases s with
  | enumeration first rest =>
      simp only [takesMissing] at h
      simp only [asksForValue, h, Bool.not_true]
  | any => rfl
  | _ => cases h

/-- No schema does both, if no deferred schema stands for two different ones. -/
theorem Accepts.not_refuses (h : s.Accepts built)
    (hsame : ∀ id t t', built id = some t → built' id = some t' → t = t') :
    ¬ s.Refuses built' := by
  induction h with
  | @single s htakes =>
      intro hrefuses
      cases hrefuses with
      | single hasks => simp [asksForValue_eq_false htakes] at hasks
      | _ => cases htakes
  | optional =>
      rintro ⟨⟨⟩⟩
  | withDefault =>
      rintro ⟨⟨⟩⟩
  | nullable _ ih =>
      rintro (⟨⟨⟩⟩ | h)
      exact ih h
  | transform _ ih =>
      intro hrefuses
      cases hrefuses with
      | single h => cases h
      | transform h => exact ih h
  | refine _ ih =>
      intro hrefuses
      cases hrefuses with
      | single h => cases h
      | refine h => exact ih h
  | union hs _ ih =>
      intro hrefuses
      cases hrefuses with
      | single h => cases h
      | union h => exact ih (h _ hs)
  | intersection _ ih =>
      intro hrefuses
      cases hrefuses with
      | single h => cases h
      | intersection hs h => exact ih _ hs h
  | deferred hbuilt _ ih =>
      intro hrefuses
      cases hrefuses with
      | single h => cases h
      | deferred hbuilt' h =>
          obtain rfl := hsame _ _ _ hbuilt hbuilt'
          exact ih h

theorem Accepts.not_refuses_self (h : s.Accepts built) : ¬ s.Refuses built :=
  h.not_refuses fun _ _ _ hs ht => Option.some.inj (hs.symm.trans ht)

/-- A schema of the library's making: no schema without parts in it accepts an
absent value. -/
def Stocked (s : Schema) : Prop := ∀ t, s.Part t → t.takesMissing = false

/-- No default stands in a schema. -/
def DefaultFree (s : Schema) : Prop := ∀ inner default, ¬ s.Part (.withDefault inner default)

theorem Stocked.of_passes {t : Schema} (hs : s.Stocked) (h : s.Passes t) : t.Stocked :=
  fun u hu => hs u (.head (.inl h) hu)

theorem Stocked.of_parts (h : s.takesMissing = false)
    (hparts : ∀ t, s.Passes t ∨ s.Guards t → t.Stocked) : s.Stocked := by
  intro u hu
  rcases hu.cases_head with rfl | ⟨t, ht, hu⟩
  · exact h
  · exact hparts t ht u hu

theorem DefaultFree.of_passes {t : Schema} (hs : s.DefaultFree) (h : s.Passes t) :
    t.DefaultFree :=
  fun inner default hu => hs inner default (.head (.inl h) hu)

theorem DefaultFree.of_guards {t : Schema} (hs : s.DefaultFree) (h : s.Guards t) :
    t.DefaultFree :=
  fun inner default hu => hs inner default (.head (.inr h) hu)

end Schema

/-! ## Deferred schemas -/

namespace World

variable {σ : Type}

/-- What the deferred schemas that have been built stand for. -/
def standing (w : World σ) (id : Nat) : Option Schema := w.built.lookup id

/-- All deferred schemas that have been built are such as they may stand for. -/
def Stands (may : Nat → Schema → Prop) (w : World σ) : Prop :=
  ∀ id s, w.standing id = some s → may id s

/-- A world with some shared containers, in which the deferred schemas that have been built
are such as they may stand for. -/
structure At (st : Store) (may : Nat → Schema → Prop) (w : World σ) : Prop where
  store_eq : w.store = st
  stands : w.Stands may

/-- What has been built is still there. -/
def Recalls (w w' : World σ) : Prop := ∀ id s, w.standing id = some s → w'.standing id = some s

/-- No deferred schema has been built as two different ones. -/
def Consistent (w w' : World σ) : Prop :=
  ∀ id s t, w.standing id = some s → w'.standing id = some t → s = t

theorem Recalls.trans {w w₁ w' : World σ} (h : w.Recalls w₁) (h' : w₁.Recalls w') :
    w.Recalls w' :=
  fun id s hs => h' id s (h id s hs)

theorem Recalls.consistent {w w' : World σ} (h : w.Recalls w') : w.Consistent w' :=
  fun id s _ hs ht => Option.some.inj ((h id s hs).symm.trans ht)

/-- To build what was not there leaves what was. -/
theorem recalls_build {w : World σ} {id : Nat} (s : Schema) (h : w.standing id = none) :
    w.Recalls { w with built := (id, s) :: w.built } := by
  intro j t ht
  have hne : (j == id) = false := by
    rw [beq_eq_false_iff_ne]
    rintro rfl
    cases h.symm.trans ht
  simpa [standing, List.lookup_cons, hne] using ht

theorem Stands.build {may : Nat → Schema → Prop} {w : World σ} {id : Nat} {s : Schema}
    (hw : w.Stands may) (hs : may id s) : Stands may { w with built := (id, s) :: w.built } := by
  intro j t ht
  simp only [standing, List.lookup_cons] at ht
  split at ht
  · rename_i hsame
    obtain rfl := beq_iff_eq.mp hsame
    cases ht
    exact hs
  · exact hw j t ht

end World

section Deferred

variable {σ : Type} {env : Setting σ} {may : Nat → Schema → Prop} {w w' : World σ}

/-- To resolve deferred schemas builds only such as they may stand for, and leaves
those that have been built. -/
structure Setting.Builds (env : Setting σ) (may : Nat → Schema → Prop) : Prop where
  remembers (id j : Nat) (s : Schema) :
    (env.resolve id).Keeps fun w => w.standing j = some s
  stands (id : Nat) : (env.resolve id).Keeps (World.Stands may)

/-- A host that has nothing built but what deferred schemas may stand for, and
leaves alone what has been built. -/
structure Setting.Upholds (env : Setting σ) (may : Nat → Schema → Prop) : Prop where
  remembers (id : Nat) (s : Schema) : env.Keeps fun w => w.standing id = some s
  stands : env.Keeps (World.Stands may)

theorem Setting.Upholds.builds (h : env.Upholds may) : env.Builds may where
  remembers id j s := (h.remembers j s).resolve id
  stands := h.stands.resolve

/-- One world comes from another by resolving deferred schemas, and by nothing
else. -/
def Resolves (env : Setting σ) : World σ → World σ → Prop :=
  Relation.ReflTransGen fun w w' => ∃ id, w' = ((env.resolve id).runIn w).2

theorem Resolves.of_run {id : Nat} {r : Except Fault Schema}
    (h : (env.resolve id).runIn w = (r, w')) : Resolves env w w' :=
  .single ⟨id, by rw [h]⟩

theorem Resolves.keeps {I : World σ → Prop} (hI : ∀ id, (env.resolve id).Keeps I)
    (h : Resolves env w w') (hw : I w) : I w' := by
  induction h with
  | refl => exact hw
  | tail _ hstep ih =>
      obtain ⟨id, rfl⟩ := hstep
      exact hI id _ ih

theorem Resolves.recalls (henv : env.Builds may) (h : Resolves env w w') : w.Recalls w' :=
  fun id s hs => h.keeps (fun j => henv.remembers j id s) hs

theorem Resolves.stands (henv : env.Builds may) (h : Resolves env w w')
    (hw : w.Stands may) : w'.Stands may :=
  h.keeps henv.stands hw

/-- What a deferred schema is resolved to has been built. -/
theorem standing_of_resolve {id : Nat} {s : Schema}
    (h : (env.resolve id).runIn w = (.ok s, w')) : w'.standing id = some s := by
  rw [Setting.runIn_resolve] at h
  cases hbuilt : w.built.lookup id with
  | some t =>
      rw [hbuilt] at h
      cases h
      exact hbuilt
  | none =>
      rw [hbuilt] at h
      rcases hproduce : (env.produce id).runIn w with ⟨f | t | u, w₁⟩
      · simp only [hproduce] at h
        cases h
      · simp only [hproduce] at h
        cases h
        simp [World.standing]
      · simp only [hproduce] at h
        cases h

/-- To resolve a deferred schema keeps what its factory keeps, if that is kept when what the
factory gives is built. -/
theorem Setting.keeps_resolve {I : World σ → Prop} {id : Nat} (hproduce : (env.produce id).Keeps I)
    (hbuild : ∀ w w₁ s, w.standing id = none → (env.produce id).runIn w = (.ok (.schema s), w₁) →
      I w₁ → I { w₁ with built := (id, s) :: w₁.built }) : (env.resolve id).Keeps I := by
  intro w hw
  rw [Setting.runIn_resolve]
  cases hbuilt : w.built.lookup id with
  | some s => exact hw
  | none =>
      have hkept := hproduce w hw
      rcases hrun : (env.produce id).runIn w with ⟨f | s | u, w₁⟩ <;> rw [hrun] at hkept
      · exact hkept
      · exact hbuild w w₁ s hbuilt hrun hkept
      · exact hkept

end Deferred

/-! ## The flag -/

section Flag

variable {σ : Type} {env : Setting σ} {may : Nat → Schema → Prop} {w w' : World σ}
  {s : Schema} {b : Bool}

/-- What an answer of the flag says of a schema, given what deferred schemas
stand for. The flag says no of schemas that are not of the library's making. -/
def Decides (may : Nat → Schema → Prop) (built : Nat → Option Schema) (s : Schema) :
    Bool → Prop
  | true => s.Accepts built
  | false => s.Stocked → (∀ id t, may id t → t.Stocked) → s.Refuses built

theorem Decides.mono {built built' : Nat → Option Schema} (h : Decides may built s b)
    (hmore : ∀ id t, built id = some t → built' id = some t) : Decides may built' s b := by
  cases b with
  | true => exact Schema.Accepts.mono h hmore
  | false => exact fun hs hmay => (h hs hmay).mono hmore

/-- Some schema of a row is accepted, or all are refused. -/
theorem decides_of_anyOf (henv : env.Builds may) {p : Schema → Act σ Bool} {ss : List Schema}
    (hp : ∀ s ∈ ss, ∀ w b w', w.Stands may → (p s).runIn w = (.ok b, w') →
      Resolves env w w' ∧ Decides may w'.standing s b)
    (hw : w.Stands may) (h : (Setting.anyOf p ss).runIn w = (.ok b, w')) :
    Resolves env w w' ∧ (b = true → ∃ s ∈ ss, Decides may w'.standing s true) ∧
      (b = false → ∀ s ∈ ss, Decides may w'.standing s false) := by
  induction ss generalizing w with
  | nil =>
      cases h
      exact ⟨.refl, by simp, by simp⟩
  | cons s ss ih =>
      obtain ⟨first, w₁, hfirst, hrest⟩ := Act.runIn_bind_ok_iff.mp h
      obtain ⟨hto, hdecides⟩ := hp s List.mem_cons_self w first w₁ hw hfirst
      cases first with
      | true =>
          cases hrest
          exact ⟨hto, fun _ => ⟨s, List.mem_cons_self, hdecides⟩, by simp⟩
      | false =>
          have hmore := fun t ht => hp t (List.mem_cons_of_mem _ ht)
          obtain ⟨hon, hsome, hall⟩ := ih hmore (hto.stands henv hw) hrest
          refine ⟨hto.trans hon, fun hb => ?_, fun hb => ?_⟩
          · obtain ⟨t, ht, haccepts⟩ := hsome hb
            exact ⟨t, List.mem_cons_of_mem _ ht, haccepts⟩
          · exact List.forall_mem_cons.mpr ⟨hdecides.mono (hon.recalls henv), hall hb⟩

/-- All schemas of a row are accepted, or some is refused. -/
theorem decides_of_allOf (henv : env.Builds may) {p : Schema → Act σ Bool} {ss : List Schema}
    (hp : ∀ s ∈ ss, ∀ w b w', w.Stands may → (p s).runIn w = (.ok b, w') →
      Resolves env w w' ∧ Decides may w'.standing s b)
    (hw : w.Stands may) (h : (Setting.allOf p ss).runIn w = (.ok b, w')) :
    Resolves env w w' ∧ (b = true → ∀ s ∈ ss, Decides may w'.standing s true) ∧
      (b = false → ∃ s ∈ ss, Decides may w'.standing s false) := by
  induction ss generalizing w with
  | nil =>
      cases h
      exact ⟨.refl, by simp, by simp⟩
  | cons s ss ih =>
      obtain ⟨first, w₁, hfirst, hrest⟩ := Act.runIn_bind_ok_iff.mp h
      obtain ⟨hto, hdecides⟩ := hp s List.mem_cons_self w first w₁ hw hfirst
      cases first with
      | false =>
          cases hrest
          exact ⟨hto, by simp, fun _ => ⟨s, List.mem_cons_self, hdecides⟩⟩
      | true =>
          have hmore := fun t ht => hp t (List.mem_cons_of_mem _ ht)
          obtain ⟨hon, hall, hsome⟩ := ih hmore (hto.stands henv hw) hrest
          refine ⟨hto.trans hon, fun hb => ?_, fun hb => ?_⟩
          · exact List.forall_mem_cons.mpr ⟨hdecides.mono (hon.recalls henv), hall hb⟩
          · obtain ⟨t, ht, hrefuses⟩ := hsome hb
            exact ⟨t, List.mem_cons_of_mem _ ht, hrefuses⟩

/-- The flag decides whether an absent value is accepted, and only resolves
deferred schemas. -/
theorem decides_of_acceptsMissing (henv : env.Builds may) {depth : Nat} (hw : w.Stands may)
    (h : (env.acceptsMissing depth s).runIn w = (.ok b, w')) :
    Resolves env w w' ∧ Decides may w'.standing s b := by
  induction depth generalizing s w b w' with
  | zero => cases h
  | succ depth ih =>
      have hinside : ∀ t, ∀ w b w', w.Stands may →
          (env.acceptsMissing depth t).runIn w = (.ok b, w') →
          Resolves env w w' ∧ Decides may w'.standing t b := fun t _ _ _ hw => ih hw
      change (env.acceptsLayer (env.acceptsMissing depth) s).runIn w = _ at h
      cases s with
      | optional inner =>
          cases h
          exact ⟨.refl, .optional⟩
      | withDefault inner default =>
          cases h
          exact ⟨.refl, .withDefault⟩
      | nullable inner =>
          obtain ⟨hto, hdecides⟩ := hinside inner _ _ _ hw h
          cases b with
          | true => exact ⟨hto, .nullable hdecides⟩
          | false => exact ⟨hto, fun hs hmay => .nullable (hdecides (hs.of_passes .nullable) hmay)⟩
      | transform inner step =>
          obtain ⟨hto, hdecides⟩ := hinside inner _ _ _ hw h
          cases b with
          | true => exact ⟨hto, .transform hdecides⟩
          | false =>
              exact ⟨hto, fun hs hmay => .transform (hdecides (hs.of_passes .transform) hmay)⟩
      | refine inner id words code =>
          obtain ⟨hto, hdecides⟩ := hinside inner _ _ _ hw h
          cases b with
          | true => exact ⟨hto, .refine hdecides⟩
          | false => exact ⟨hto, fun hs hmay => .refine (hdecides (hs.of_passes .refine) hmay)⟩
      | union first rest =>
          obtain ⟨hto, hsome, hall⟩ := decides_of_anyOf henv (fun t _ => hinside t) hw h
          cases b with
          | true =>
              obtain ⟨t, ht, haccepts⟩ := hsome rfl
              exact ⟨hto, .union ht haccepts⟩
          | false =>
              exact ⟨hto, fun hs hmay => .union fun t ht =>
                hall rfl t ht (hs.of_passes (.option ht)) hmay⟩
      | intersection first rest =>
          obtain ⟨hto, hall, hsome⟩ := decides_of_allOf henv (fun t _ => hinside t) hw h
          cases b with
          | true => exact ⟨hto, .intersection (hall rfl)⟩
          | false =>
              obtain ⟨t, ht, hrefuses⟩ := hsome rfl
              exact ⟨hto, fun hs hmay => .intersection ht
                (hrefuses (hs.of_passes (.member ht)) hmay)⟩
      | deferred id =>
          obtain ⟨t, w₁, hresolve, h⟩ := Act.runIn_bind_ok_iff.mp h
          have hto := Resolves.of_run hresolve
          have hw₁ := hto.stands henv hw
          have hbuilt := standing_of_resolve hresolve
          obtain ⟨hon, hdecides⟩ := ih hw₁ h
          have hstill := hon.recalls henv id t hbuilt
          cases b with
          | true => exact ⟨hto.trans hon, .deferred hstill hdecides⟩
          | false =>
              exact ⟨hto.trans hon, fun _ hmay => .deferred hstill
                (hdecides (hmay id t (hw₁ id t hbuilt)) hmay)⟩
      | any =>
          cases h
          exact ⟨.refl, fun hs => by cases hs .any .refl⟩
      | enumeration first rest =>
          cases h
          refine ⟨.refl, fun hs _ => .single ?_⟩
          have htakes : Schema.takesMissing (.enumeration first rest) = false := hs _ .refl
          simpa [Schema.asksForValue, Schema.takesMissing] using htakes
      | _ =>
          cases h
          exact ⟨.refl, fun _ _ => .single rfl⟩

end Flag

/-! ## Checks of an absent value -/

section Check

variable {σ : Type} {env : Setting σ} {mode : Mode} {may : Nat → Schema → Prop} {depth : Nat}
  {s : Schema} {c c' : Context} {w w' : World σ} {r : Value}

theorem runIn_check_of_takesMissing (h : s.takesMissing = true) :
    (check env mode (depth + 1) s .missing).runIn c w = (.ok .missing, c, w) := by
  cases s with
  | any => rfl
  | enumeration first rest =>
      have hjudged : judgeMember (first :: rest) .missing = .accepted .missing := by
        simp only [Schema.takesMissing] at h
        simp only [judgeMember, h, if_true]
      show (checkLayer env mode depth _ _ _ _).runIn c w = _
      rw [runIn_checkLayer_of_judge? (j := .ok (judgeMember (first :: rest) .missing)) rfl,
        hjudged]
      rfl
  | _ => cases h

theorem exists_violated_of_asksForValue (h : s.asksForValue = true) (st : Store) :
    s.judge? st .missing = none ∨ ∃ x, s.judge? st .missing = some (.ok (.violated x)) := by
  cases s with
  | enumeration first rest =>
      simp only [Schema.asksForValue, Bool.not_eq_true'] at h
      simp only [Schema.judge?, judgeMember, h, Bool.false_eq_true, if_false]
      exact .inr ⟨_, rfl⟩
  | any => cases h
  | object | array | union | intersection | optional | nullable | withDefault | transform | refine
  | deferred => exact .inl rfl
  | _ => exact .inr ⟨_, rfl⟩

theorem runIn_check_of_asksForValue (h : s.asksForValue = true) (c : Context) (w : World σ) :
    ∃ x, Spelled x.words ∧ ∀ depth, (check env mode (depth + 1) s .missing).runIn c w =
      (Engine.refuse env x).runIn c w := by
  rcases exists_violated_of_asksForValue h w.store with hparts | ⟨x, hx⟩
  · cases s with
    | object fields unknown =>
        exact ⟨_, .ok _, fun depth => runIn_checkObject env (env.acceptsMissing depth)
          (check env mode depth) fields unknown .missing c w⟩
    | array element bounds =>
        exact ⟨_, .ok _, fun depth =>
          runIn_checkArray env depth (check env mode depth) element bounds
          .missing c w⟩
    | any | union | intersection | optional | nullable | withDefault | transform | refine
    | deferred => cases h
    | _ => cases hparts
  · exact ⟨x, (ofValue_of_judge? hx).spelled, fun _ => runIn_checkLayer_of_judge? hx⟩

/-- How a check of an absent value without defaults ends: by the marker and on the
same context where the schema accepts, and with errors where it refuses. In either
case deferred schemas have been resolved, and nothing else has been done. -/
inductive Answers (env : Setting σ) (s : Schema) (c : Context) (w : World σ) :
    Value → Context → World σ → Prop
  | accepted {w₁ : World σ} (hto : Resolves env w w₁) (h : s.Accepts w₁.standing) :
      Answers env s c w .missing c w₁
  | refused {w₁ : World σ} {es : List ErrorRecord} (hto : Resolves env w w₁)
      (h : s.Refuses w₁.standing) (hes : es ≠ []) :
      Answers env s c w .invalid { c with errors := c.errors ++ es } w₁

/-- A schema that accepts and refuses as another does. -/
theorem Answers.imp {t : Schema} (h : Answers env t c w r c' w')
    (haccepts : t.Accepts w'.standing → s.Accepts w'.standing)
    (hrefuses : t.Refuses w'.standing → s.Refuses w'.standing) :
    Answers env s c w r c' w' := by
  cases h with
  | accepted hto h => exact .accepted hto (haccepts h)
  | refused hto h hes => exact .refused hto (hrefuses h) hes

theorem Answers.isMarker (h : Answers env s c w r c' w') : isMarker r = true := by
  cases h <;> rfl

/-- An error is added. -/
theorem answers_of_refuse {w₀ : World σ} {x : Violation} (hto : Resolves env w₀ w)
    (h : s.Refuses w.standing) (hrun : (Engine.refuse env x).runIn c w = (.ok r, c', w')) :
    Answers env s c w₀ r c' w' := by
  obtain ⟨rfl, message, rfl, rfl⟩ := Engine.eq_addError_of_runIn_refuse hrun
  exact .refused hto h (List.cons_ne_nil _ _)

/-- An attempt on an absent value has errors exactly if the schema refuses. -/
theorem answers_of_speculate {child : Checker σ} {es : List ErrorRecord}
    (hchild : ∀ c w r c' w', w.Stands may → (child s .missing).runIn c w = (.ok r, c', w') →
      Answers env s c w r c' w')
    (hw : w.Stands may)
    (h : (Engine.speculate (child s .missing)).runIn c w = (.ok (r, es), c', w')) :
    Resolves env w w' ∧ c' = c ∧ (es = [] ∧ r = .missing ∧ s.Accepts w'.standing ∨
      es ≠ [] ∧ s.Refuses w'.standing) := by
  obtain ⟨fork, hfork, rfl, rfl⟩ := Engine.runIn_speculate_ok_iff.mp h
  cases hchild _ _ _ _ _ hw hfork with
  | accepted hto h => exact ⟨hto, by simp [Context.fork], .inl ⟨rfl, rfl, h⟩⟩
  | refused hto h hes =>
      exact ⟨hto, by simp [Context.fork], .inr ⟨by simpa [Context.fork], h⟩⟩

/-- Options are tried until one accepts. -/
theorem answers_of_tryOptions (henv : env.Builds may) {child : Checker σ} {options : List Schema}
    (hchild : ∀ s ∈ options, ∀ c w r c' w', w.Stands may →
      (child s .missing).runIn c w = (.ok r, c', w') → Answers env s c w r c' w')
    {groups : List (List ErrorRecord)} (hw : w.Stands may)
    (h : (tryOptions env child .missing groups options).runIn c w = (.ok r, c', w')) :
    Resolves env w w' ∧ ((∃ t ∈ options, t.Accepts w'.standing) ∧ r = .missing ∧ c' = c ∨
      (∀ t ∈ options, t.Refuses w'.standing) ∧ r = .invalid ∧
        ∃ es ≠ [], c' = { c with errors := c.errors ++ es }) := by
  induction options generalizing w groups with
  | nil =>
      obtain ⟨rfl, message, rfl, rfl⟩ := Engine.eq_addError_of_runIn_refuse h
      exact ⟨.refl, .inr ⟨by simp, rfl, _, List.cons_ne_nil _ _, rfl⟩⟩
  | cons option options ih =>
      obtain ⟨⟨result, errors⟩, c₁, w₁, hattempt, hrest⟩ := Engine.runIn_bind_ok_iff.mp h
      obtain ⟨hto, rfl, ⟨rfl, rfl, haccepted⟩ | ⟨herrors, hrefused⟩⟩ :=
        answers_of_speculate (hchild option List.mem_cons_self) hw hattempt
      · cases hrest
        exact ⟨hto, .inl ⟨⟨option, List.mem_cons_self, haccepted⟩, rfl, rfl⟩⟩
      · simp only [List.isEmpty_eq_false_iff.mpr herrors, Bool.false_eq_true, if_false] at hrest
        have hmore := fun t ht => hchild t (List.mem_cons_of_mem _ ht)
        obtain ⟨hon, hends⟩ := ih hmore (hto.stands henv hw) hrest
        refine ⟨hto.trans hon, ?_⟩
        rcases hends with ⟨⟨t, ht, haccepts⟩, hends⟩ | ⟨hall, hends⟩
        · exact .inl ⟨⟨t, List.mem_cons_of_mem _ ht, haccepts⟩, hends⟩
        · exact .inr ⟨List.forall_mem_cons.mpr ⟨hrefused.mono (hon.recalls henv), hall⟩, hends⟩

/-- Members are all tried; those that accept give the marker. -/
theorem answers_of_tryMembers (henv : env.Builds may) {child : Checker σ} {members : List Schema}
    (hchild : ∀ s ∈ members, ∀ c w r c' w', w.Stands may →
      (child s .missing).runIn c w = (.ok r, c', w') → Answers env s c w r c' w')
    {results : List Value} {groups : List (List ErrorRecord)} (hw : w.Stands may)
    (h : (tryMembers child .missing members).runIn c w = (.ok (results, groups), c', w')) :
    Resolves env w w' ∧ c' = c ∧ (∀ u ∈ results, u = .missing) ∧
      (groups = [] ∧ (∀ t ∈ members, t.Accepts w'.standing) ∨
        groups ≠ [] ∧ ∃ t ∈ members, t.Refuses w'.standing) := by
  induction members generalizing w c' w' results groups with
  | nil =>
      cases h
      exact ⟨.refl, rfl, by simp, .inl ⟨rfl, by simp⟩⟩
  | cons member members ih =>
      obtain ⟨⟨result, errors⟩, c₁, w₁, hattempt, hrest⟩ := Engine.runIn_bind_ok_iff.mp h
      obtain ⟨⟨results₁, groups₁⟩, c₂, w₂, hmembers, hjoin⟩ := Engine.runIn_bind_ok_iff.mp hrest
      have hmore := fun t ht => hchild t (List.mem_cons_of_mem _ ht)
      obtain ⟨hto, rfl, hfirst⟩ :=
        answers_of_speculate (hchild member List.mem_cons_self) hw hattempt
      obtain ⟨hon, rfl, hmissing, hothers⟩ := ih hmore (hto.stands henv hw) hmembers
      have hrecalls := hon.recalls henv
      rcases hfirst with ⟨rfl, rfl, haccepted⟩ | ⟨herrors, hrefused⟩
      · cases hjoin
        refine ⟨hto.trans hon, rfl, List.forall_mem_cons.mpr ⟨rfl, hmissing⟩, ?_⟩
        rcases hothers with ⟨hnone, hall⟩ | ⟨hsome, t, ht, hrefuses⟩
        · exact .inl ⟨hnone, List.forall_mem_cons.mpr ⟨haccepted.mono hrecalls, hall⟩⟩
        · exact .inr ⟨hsome, t, List.mem_cons_of_mem _ ht, hrefuses⟩
      · simp only [List.isEmpty_eq_false_iff.mpr herrors, Bool.false_eq_true, if_false] at hjoin
        cases hjoin
        exact ⟨hto.trans hon, rfl, hmissing,
          .inr ⟨List.cons_ne_nil _ _, member, List.mem_cons_self, hrefused.mono hrecalls⟩⟩

/-- Results that are all missing are merged to what is missing. -/
theorem mergeAll_missing {st : Store} {rest : List Value} (hrest : ∀ u ∈ rest, u = .missing) :
    mergeAll st (depth + 1) .missing rest = .ok .missing := by
  induction rest with
  | nil => rfl
  | cons u rest ih =>
      obtain ⟨rfl, hmore⟩ := List.forall_mem_cons.mp hrest
      simpa only [mergeAll, mergeValues_missing_left] using ih hmore

theorem answers_of_combine {w₀ : World σ} (hto : Resolves env w₀ w) {results : List Value}
    {groups : List (List ErrorRecord)} (hmissing : ∀ u ∈ results, u = .missing)
    (haccepts : groups = [] → s.Accepts w.standing)
    (hrefuses : groups ≠ [] → s.Refuses w.standing)
    (h : (combine env depth results groups).runIn c w = (.ok r, c', w')) :
    Answers env s c w₀ r c' w' := by
  cases groups with
  | cons group groups => exact answers_of_refuse hto (hrefuses (List.cons_ne_nil _ _)) h
  | nil =>
      cases results with
      | nil =>
          cases h
          exact .accepted hto (haccepts rfl)
      | cons first rest =>
          obtain ⟨rfl, hrest⟩ := List.forall_mem_cons.mp hmissing
          obtain ⟨st, c₁, w₁, hst, h⟩ := Engine.runIn_bind_ok_iff.mp h
          cases hst
          cases depth with
          | succ depth =>
              rw [mergeAll_missing hrest] at h
              cases h
              exact .accepted hto (haccepts rfl)
          | zero =>
              -- nothing is merged without depth
              cases rest with
              | nil =>
                  cases h
                  exact .accepted hto (haccepts rfl)
              | cons u rest => cases h

/-- Without defaults, a check of an absent value ends by the marker where the
schema accepts, and by an error where it refuses. -/
theorem answers_of_check (henv : env.Builds may) (hmay : ∀ id t, may id t → t.DefaultFree)
    (hs : s.DefaultFree) (hw : w.Stands may)
    (h : (check env mode depth s .missing).runIn c w = (.ok r, c', w')) :
    Answers env s c w r c' w' := by
  induction depth generalizing s c w r c' w' with
  | zero => cases h
  | succ depth ih =>
      have hinside : ∀ t, s.Passes t → ∀ c w r c' w', w.Stands may →
          (check env mode depth t .missing).runIn c w = (.ok r, c', w') →
          Answers env t c w r c' w' :=
        fun t ht _ _ _ _ _ hw => ih (hs.of_passes ht) hw
      by_cases htakes : s.takesMissing = true
      · rw [runIn_check_of_takesMissing htakes] at h
        cases h
        exact .accepted .refl (.single htakes)
      by_cases hasks : s.asksForValue = true
      · obtain ⟨x, -, hx⟩ := runIn_check_of_asksForValue hasks c w
        exact answers_of_refuse .refl (.single hasks) (hx depth ▸ h)
      cases s with
      | union first rest =>
          obtain ⟨hto, ⟨⟨t, ht, haccepts⟩, rfl, rfl⟩ | ⟨hall, rfl, es, hes, rfl⟩⟩ :=
            answers_of_tryOptions henv (fun t ht => hinside t (.option ht)) hw h
          · exact .accepted hto (.union ht haccepts)
          · exact .refused hto (.union hall) hes
      | intersection first rest =>
          obtain ⟨⟨results, groups⟩, c₁, w₁, hmembers, hcombine⟩ := Engine.runIn_bind_ok_iff.mp h
          obtain ⟨hto, rfl, hmissing, hgroups⟩ :=
            answers_of_tryMembers henv (fun t ht => hinside t (.member ht)) hw hmembers
          refine answers_of_combine hto hmissing (fun hnone => ?_) (fun hsome => ?_) hcombine
          · exact .intersection (hgroups.resolve_right fun h => h.1 hnone).2
          · obtain ⟨t, ht, hrefuses⟩ := (hgroups.resolve_left fun h => hsome h.1).2
            exact .intersection ht hrefuses
      | optional inner =>
          cases h
          exact .accepted .refl .optional
      | nullable inner =>
          exact (hinside inner .nullable _ _ _ _ _ hw h).imp .nullable .nullable
      | withDefault inner default => exact absurd .refl (hs inner default)
      | transform inner step =>
          obtain ⟨result, c₁, w₁, hinner, hrest⟩ := Engine.runIn_bind_ok_iff.mp h
          have hends := hinside inner .transform _ _ _ _ _ hw hinner
          simp only [hends.isMarker, if_true] at hrest
          cases hrest
          exact hends.imp .transform .transform
      | refine inner id words code =>
          obtain ⟨result, c₁, w₁, hinner, hrest⟩ := Engine.runIn_bind_ok_iff.mp h
          have hends := hinside inner .refine _ _ _ _ _ hw hinner
          simp only [hends.isMarker, if_true] at hrest
          cases hrest
          exact hends.imp .refine .refine
      | deferred id =>
          obtain ⟨t, c₁, w₁, hresolve, hinner⟩ := Engine.runIn_bind_ok_iff.mp h
          obtain ⟨hresolved, rfl⟩ := Engine.runIn_ofAct_ok_iff.mp hresolve
          have hto := Resolves.of_run hresolved
          have hw₁ := hto.stands henv hw
          have hbuilt := standing_of_resolve hresolved
          cases ih (hmay id t (hw₁ id t hbuilt)) hw₁ hinner with
          | accepted hon h =>
              exact .accepted (hto.trans hon) (.deferred (hon.recalls henv id t hbuilt) h)
          | refused hon h hes =>
              exact .refused (hto.trans hon) (.deferred (hon.recalls henv id t hbuilt) h) hes
      | any => exact absurd rfl htakes
      | enumeration first rest =>
          simp only [Schema.takesMissing, Bool.not_eq_true] at htakes
          simp [Schema.asksForValue, htakes] at hasks
      | _ => exact absurd rfl hasks

/-- An absent value of which the flag says that it is accepted changes nothing. -/
theorem eq_of_accepted (henv : env.Builds may) (hmay : ∀ id t, may id t → t.DefaultFree)
    (hs : s.DefaultFree) {depth' : Nat} {w₁ : World σ} (hw : w.Stands may)
    (hflag : (env.acceptsMissing depth' s).runIn w = (.ok true, w₁))
    (h : (check env mode depth s .missing).runIn c w₁ = (.ok r, c', w')) :
    r = .missing ∧ c' = c := by
  obtain ⟨hto, haccepts⟩ := decides_of_acceptsMissing henv hw hflag
  have haccepts : s.Accepts w₁.standing := haccepts
  cases answers_of_check henv hmay hs (hto.stands henv hw) h with
  | accepted => exact ⟨rfl, rfl⟩
  | refused hon hrefuses =>
      exact absurd hrefuses (haccepts.not_refuses (hon.recalls henv).consistent)

/-! ## Errors in spite of defaults -/

/-- A later check keeps what has been built. -/
theorem recalls_of_check (hkeeps : ∀ id t, env.Keeps fun w => w.standing id = some t) {v : Value}
    {q : Except Fault Value} (h : (check env mode depth s v).runIn c w = (q, c', w')) :
    w.Recalls w' :=
  fun id t => (Carry.of_check (Carry.keeping_settings (hkeeps id t) mode) depth h).2

theorem recalls_of_tryMembers (hkeeps : ∀ id t, env.Keeps fun w => w.standing id = some t)
    {v : Value} {members : List Schema}
    {q : Except Fault (List Value × List (List ErrorRecord))}
    (h : (tryMembers (check env mode depth) v members).runIn c w = (q, c', w')) : w.Recalls w' :=
  fun id t => (Carry.of_tryMembers (Carry.keeping_settings (hkeeps id t) mode) depth h).2

theorem recalls_of_tryOptions (hkeeps : ∀ id t, env.Keeps fun w => w.standing id = some t)
    {v : Value} {groups : List (List ErrorRecord)} {options : List Schema} {q : Except Fault Value}
    (h : (tryOptions env (check env mode depth) v groups options).runIn c w = (q, c', w')) :
    w.Recalls w' :=
  fun id t => (Carry.of_tryOptions (Carry.keeping_settings (hkeeps id t) mode) depth h).2

variable {built : Nat → Option Schema}

/-- The deferred schemas of a world are as in a table, as far as both go. -/
def World.Within (built : Nat → Option Schema) (w : World σ) : Prop :=
  ∀ id s t, built id = some s → w.standing id = some t → s = t

theorem World.Within.of_recalls (h : w'.Within built) (hrecalls : w.Recalls w') :
    w.Within built :=
  fun id s t hs ht => h id s t hs (hrecalls id t ht)

/-- A check ends by a value only with errors, and by the marker of a failed one. -/
def Fails (c : Context) (r : Value) (c' : Context) : Prop :=
  r = .invalid ∧ ∃ es ≠ [], c'.errors = c.errors ++ es

theorem fails_of_refuse {x : Violation}
    (h : (Engine.refuse env x).runIn c w = (.ok r, c', w')) : Fails c r c' := by
  obtain ⟨rfl, message, rfl, -⟩ := Engine.eq_addError_of_runIn_refuse h
  exact ⟨rfl, _, List.cons_ne_nil _ _, rfl⟩

theorem errors_of_speculate {child : Engine σ Value} {es : List ErrorRecord}
    (hchild : ∀ c w r c' w', child.runIn c w = (.ok r, c', w') → w'.Within built → Fails c r c')
    (h : (Engine.speculate child).runIn c w = (.ok (r, es), c', w')) (hw : w'.Within built) :
    es ≠ [] ∧ c'.errors = c.errors := by
  obtain ⟨fork, hfork, rfl, rfl⟩ := Engine.runIn_speculate_ok_iff.mp h
  obtain ⟨-, es, hes, herrors⟩ := hchild _ _ _ _ _ hfork hw
  exact ⟨by simpa [herrors, Context.fork] using hes, rfl⟩

/-- Options that refuse leave an error each, and the union one more. -/
theorem fails_of_tryOptions (hkeeps : ∀ id t, env.Keeps fun w => w.standing id = some t)
    {options : List Schema}
    (hoptions : ∀ s ∈ options, ∀ c w r c' w',
      (check env mode depth s .missing).runIn c w = (.ok r, c', w') → w'.Within built →
        Fails c r c')
    {groups : List (List ErrorRecord)}
    (h : (tryOptions env (check env mode depth) .missing groups options).runIn c w =
      (.ok r, c', w'))
    (hw : w'.Within built) : Fails c r c' := by
  induction options generalizing c w groups with
  | nil => exact fails_of_refuse h
  | cons option options ih =>
      obtain ⟨⟨result, errors⟩, c₁, w₁, hattempt, hrest⟩ := Engine.runIn_bind_ok_iff.mp h
      have hlast : w₁.Within built := by
        obtain ⟨fork, hfork, rfl, rfl⟩ := Engine.runIn_speculate_ok_iff.mp hattempt
        simp only at hrest
        split at hrest
        · cases hrest
          exact hw
        · exact hw.of_recalls (recalls_of_tryOptions hkeeps hrest)
      obtain ⟨herrors, hsame⟩ :=
        errors_of_speculate (hoptions option List.mem_cons_self) hattempt hlast
      simp only [List.isEmpty_eq_false_iff.mpr herrors, Bool.false_eq_true, if_false] at hrest
      have hmore := fun t ht => hoptions t (List.mem_cons_of_mem _ ht)
      obtain ⟨rfl, es, hes, hc'⟩ := ih hmore hrest
      exact ⟨rfl, es, hes, by rw [hc', hsame]⟩

/-- A member that refuses leaves a group of errors. -/
theorem failed_of_tryMembers (hkeeps : ∀ id t, env.Keeps fun w => w.standing id = some t)
    {members : List Schema} {member : Schema} (hmem : member ∈ members)
    (hmember : ∀ c w r c' w',
      (check env mode depth member .missing).runIn c w = (.ok r, c', w') → w'.Within built →
        Fails c r c')
    {results : List Value} {groups : List (List ErrorRecord)}
    (h : (tryMembers (check env mode depth) .missing members).runIn c w =
      (.ok (results, groups), c', w'))
    (hw : w'.Within built) : groups ≠ [] := by
  induction members generalizing c w results groups with
  | nil => cases hmem
  | cons other members ih =>
      obtain ⟨⟨result, errors⟩, c₁, w₁, hattempt, hrest⟩ := Engine.runIn_bind_ok_iff.mp h
      obtain ⟨⟨results₁, groups₁⟩, c₂, w₂, hmembers, hjoin⟩ := Engine.runIn_bind_ok_iff.mp hrest
      have hlater : c₂ = c' ∧ w₂ = w' ∧ (errors ≠ [] ∨ groups₁ ≠ [] → groups ≠ []) := by
        cases errors with
        | nil =>
            cases hjoin
            exact ⟨rfl, rfl, fun h => h.resolve_left fun h => h rfl⟩
        | cons e errors =>
            cases hjoin
            exact ⟨rfl, rfl, fun _ => List.cons_ne_nil _ _⟩
      obtain ⟨rfl, rfl, hsome⟩ := hlater
      rcases List.mem_cons.mp hmem with rfl | hmem
      · have hlast := hw.of_recalls (recalls_of_tryMembers hkeeps hmembers)
        exact hsome (.inl (errors_of_speculate hmember hattempt hlast).1)
      · exact hsome (.inr (ih hmem hmembers))

theorem exists_succ_of_check {v : Value}
    (h : (check env mode depth s v).runIn c w = (.ok r, c', w')) : ∃ d, depth = d + 1 := by
  cases depth with
  | zero => cases h
  | succ d => exact ⟨d, rfl⟩

/-- A schema that refuses an absent value leaves errors whenever a check of one
ends by a value, whatever defaults stand in it. -/
theorem fails_of_refuses (hkeeps : ∀ id t, env.Keeps fun w => w.standing id = some t)
    (hrefuses : s.Refuses built)
    (h : (check env mode depth s .missing).runIn c w = (.ok r, c', w')) (hw : w'.Within built) :
    Fails c r c' := by
  induction hrefuses generalizing depth c w r c' w' with
  | single hasks =>
      obtain ⟨depth, rfl⟩ := exists_succ_of_check h
      obtain ⟨x, -, hx⟩ := runIn_check_of_asksForValue hasks c w
      exact fails_of_refuse (hx depth ▸ h)
  | nullable _ ih =>
      obtain ⟨depth, rfl⟩ := exists_succ_of_check h
      exact ih h hw
  | transform _ ih =>
      obtain ⟨depth, rfl⟩ := exists_succ_of_check h
      obtain ⟨result, c₁, w₁, hinner, hrest⟩ := Engine.runIn_bind_ok_iff.mp h
      have hlast : w₁.Within built := by
        split at hrest
        · cases hrest
          exact hw
        · refine hw.of_recalls fun id t => ?_
          exact (Carry.of_applyStep (Carry.keeping_settings (hkeeps id t) mode) hrest).2
      obtain ⟨rfl, hfails⟩ := ih hinner hlast
      cases hrest
      exact ⟨rfl, hfails⟩
  | refine _ ih =>
      obtain ⟨depth, rfl⟩ := exists_succ_of_check h
      obtain ⟨result, c₁, w₁, hinner, hrest⟩ := Engine.runIn_bind_ok_iff.mp h
      have hlast : w₁.Within built := by
        split at hrest
        · cases hrest
          exact hw
        · refine hw.of_recalls fun id t => ?_
          exact (Carry.of_askAbout (Carry.keeping_settings (hkeeps id t) mode) hrest).2
      obtain ⟨rfl, hfails⟩ := ih hinner hlast
      cases hrest
      exact ⟨rfl, hfails⟩
  | union _ ih =>
      obtain ⟨depth, rfl⟩ := exists_succ_of_check h
      exact fails_of_tryOptions hkeeps (fun t ht _ _ _ _ _ => ih t ht) h hw
  | intersection hs _ ih =>
      obtain ⟨depth, rfl⟩ := exists_succ_of_check h
      obtain ⟨⟨results, groups⟩, c₁, w₁, hmembers, hcombine⟩ := Engine.runIn_bind_ok_iff.mp h
      have hlast : w₁.Within built := hw.of_recalls fun id t =>
        (Carry.of_combine (Carry.keeping_settings (hkeeps id t) mode) depth hcombine).2
      have hgroups := failed_of_tryMembers hkeeps hs (fun _ _ _ _ _ => ih) hmembers hlast
      obtain ⟨es, herrors⟩ := (restored_of_tryMembers hmembers).errors
      cases groups with
      | nil => exact absurd rfl hgroups
      | cons group groups =>
          obtain ⟨rfl, fs, hfs, hc'⟩ := fails_of_refuse hcombine
          refine ⟨rfl, es ++ fs, by simp [hfs], ?_⟩
          rw [hc', ← herrors, List.append_assoc]
  | deferred hbuilt _ ih =>
      obtain ⟨depth, rfl⟩ := exists_succ_of_check h
      obtain ⟨t, c₁, w₁, hresolve, hinner⟩ := Engine.runIn_bind_ok_iff.mp h
      obtain ⟨hresolved, rfl⟩ := Engine.runIn_ofAct_ok_iff.mp hresolve
      have hstanding := standing_of_resolve hresolved
      obtain rfl := hw _ _ _ hbuilt (recalls_of_check hkeeps hinner _ _ hstanding)
      exact ih hinner hw

end Check
end Conform
