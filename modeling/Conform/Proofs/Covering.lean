import Conform.Proofs.Requiredness
import Conform.Proofs.StandIn
import Conform.Proofs.Summing
import Conform.Proofs.TypeMeaning
import Conform.Proofs.Verdict

/-!
# What a schema gives is of its type

The record model has a type for each schema, made by a look at the schema alone. It covers what
the schema gives for the values that it accepts, with null for what is absent: each way in which
a call clears its value has its counterpart among the types.

There is one exception. The type of an intersection is that of dictionaries, whatever its members
are. An intersection of texts gives a text. So it is asked of the intersections that can be seen
in the result that they give dictionaries. Those of objects with texts for keys do, if they give
nothing but what they declare.

## Main results

* `givesOfType_of_clears` — what a call gives is of the type of its schema.
* `mergesDictionaries_of_records` — intersections that give dictionaries.
* `fieldType_ends` — there is a type.
* `results_are_of_type` — what is given for a value that is accepted is of the type.
* `text_not_of_type` — an intersection of texts gives a text, and its type is dictionaries.
-/

namespace Conform

open Traverse Validate

variable {σ : Type} {env : Setting σ} {mode : Mode} {depth : Nat} {w w' : World σ} {st : Store}
  {name : String} {t : FieldType}

/-! ## The type of a field -/

/-- The type that a field has in a model is one that its schema has. -/
theorem exists_fieldType_of_fieldEntry {s : Schema} {default : Option Value}
    (h : (env.fieldEntry depth name s).runIn w = (.ok (t, default), w')) :
    ∃ depth w₁ w₂, (env.fieldType depth name s).runIn w₁ = (.ok t, w₂) := by
  induction depth generalizing s t default w w' with
  | zero => cases h
  | succ depth ih =>
      have hplain : ∀ act : Act σ FieldType,
          (act >>= fun t => pure (t, none)).runIn w = (.ok (t, default), w') →
          ∃ w₁, act.runIn w = (.ok t, w₁) := by
        intro act hact
        obtain ⟨t', w₁, ht, hend⟩ := Act.runIn_bind_ok_iff.mp hact
        cases hend
        exact ⟨_, ht⟩
      cases s with
      | optional inner =>
          obtain ⟨t', w₁, ht, hend⟩ := Act.runIn_bind_ok_iff.mp h
          cases hend
          exact ⟨depth + 1, w, _, Act.runIn_bind_ok_iff.mpr ⟨t', _, ht, rfl⟩⟩
      | withDefault inner value =>
          obtain ⟨t', w₁, ht, hend⟩ := Act.runIn_bind_ok_iff.mp h
          cases hend
          exact ⟨depth + 1, w, _, ht⟩
      | nullable inner =>
          obtain ⟨accepted, w₁, -, h⟩ := Act.runIn_bind_ok_iff.mp h
          cases accepted with
          | true =>
              obtain ⟨⟨t', inside⟩, w₂, hentry, hend⟩ := Act.runIn_bind_ok_iff.mp h
              cases hend
              obtain ⟨depth', w₃, w₄, ht⟩ := ih hentry
              exact ⟨depth' + 1, w₃, w₄, Act.runIn_bind_ok_iff.mpr ⟨t', w₄, ht, rfl⟩⟩
          | false =>
              obtain ⟨t', w₂, ht, hend⟩ := Act.runIn_bind_ok_iff.mp h
              cases hend
              exact ⟨depth, w₁, _, ht⟩
      | _ =>
          obtain ⟨w₁, ht⟩ := hplain _ h
          exact ⟨depth, w, w₁, ht⟩

/-- Each type of a row of types is that of its schema. -/
theorem forall₂_of_typeEach {child : Schema → Act σ FieldType} {ss : List Schema}
    {ts : List FieldType} (h : (Setting.typeEach child ss).runIn w = (.ok ts, w')) :
    List.Forall₂ (fun s t => ∃ w₁ w₂, (child s).runIn w₁ = (.ok t, w₂)) ss ts := by
  induction ss generalizing w ts with
  | nil =>
      cases h
      exact .nil
  | cons s ss ih =>
      obtain ⟨t, w₁, ht, h⟩ := Act.runIn_bind_ok_iff.mp h
      obtain ⟨ts', w₂, hts, h⟩ := Act.runIn_bind_ok_iff.mp h
      cases h
      exact .cons ⟨_, _, ht⟩ (ih hts)

/-! ## Single values -/

namespace Schema

/-- A schema as the library makes it: no key is declared twice, and the members of an
enumeration are values. -/
def Tidy : Schema → Prop
  | .object fields _ => Entries.Distinct fields
  | .enumeration first rest => ∀ a ∈ first :: rest, a.sameKind .missing = false
  | _ => True

end Schema

/-- A number that is accepted is of the type of its schema. -/
theorem admits_of_judgeNumber {checks : NumberChecks} {st' : Store} {v r : Value}
    (h : checks.judge st' v = .ok (.accepted r)) :
    (if checks.int.isSome then FieldType.integer else .decimal).admits st r = true := by
  unfold NumberChecks.judge at h
  split at h
  · rename_i a
    split at h
    · rename_i n hn
      unfold NumberChecks.judgeNumber at h
      split at h
      · cases h
      · obtain rfl := eq_of_ofClauses h
        have hnumber : (Value.atom n.atom).number? = some n := by cases n <;> rfl
        cases hint : checks.int with
        | none => simp [FieldType.admits, hnumber]
        | some c =>
            have hclause := none_of_ofClauses h _ (List.mem_cons_of_mem _ <|
              List.mem_cons_of_mem _ <| List.mem_cons_of_mem _ List.mem_cons_self)
            have hwhole := eq_false_of_clause hclause hint
            simpa [FieldType.admits, hnumber] using hwhole
    · cases h
  · cases h

/-- What is accepted as what a text writes has been read from the text. -/
theorem exists_of_judgeWritten {α : Type} {read : String → Option α} {atom : α → Value}
    {code : BuiltinCode} {what : String} {st' : Store} {v r : Value}
    (h : judgeWritten (fun s => (read s).map atom) code what st' v = .accepted r) :
    ∃ a, r = atom a := by
  unfold judgeWritten at h
  split at h
  · split at h
    · rename_i hread
      obtain ⟨a, -, ha⟩ := Option.map_eq_some_iff.mp hread
      cases h
      exact ⟨a, ha.symm⟩
    · cases h
  · cases h

/-- A single value that is accepted is of the type of its schema. -/
theorem admits_of_judge? {s : Schema} {st' : Store} {v r : Value} (hs : s.Tidy)
    (hj : s.judge? st' v = some (.ok (.accepted r)))
    (h : (env.fieldType depth name s).runIn w = (.ok t, w')) : t.admits st (orNull r) = true := by
  cases depth with
  | zero => cases h
  | succ depth =>
      cases s with
      | string checks =>
          cases h
          simp only [Schema.judge?, StringChecks.judge, Option.some.injEq] at hj
          split at hj
          · rw [eq_of_ofClauses hj]
            simp [FieldType.admits, orNull, isMissing, Value.text?]
          · cases hj
      | number checks =>
          obtain rfl : (if checks.int.isSome then FieldType.integer else .decimal) = t := by
            simp only [Setting.fieldType] at h
            split at h <;> cases h <;> simp [*]
          have hr : FieldType.admits st _ r = true := admits_of_judgeNumber (Option.some.inj hj)
          have hvalue : orNull r = r := by
            refine if_neg fun hmissing => ?_
            obtain rfl := eq_missing_of_isMissing hmissing
            split at hr <;> simp [FieldType.admits, Value.number?, Atom.number?] at hr
          rw [hvalue]
          exact hr
      | boolean =>
          cases h
          simp only [Schema.judge?, judgeBoolean, Option.some.injEq, Except.ok.injEq] at hj
          split at hj <;> cases hj
          simp [FieldType.admits, orNull, isMissing]
      | date checks =>
          cases h
          simp only [Schema.judge?, DateChecks.judge, Option.some.injEq] at hj
          split at hj
          · rename_i a
            split at hj
            · rename_i m hm
              obtain rfl := eq_of_ofClauses hj
              cases a <;> cases hm <;> simp [FieldType.admits, orNull, isMissing, Atom.moment?]
            · cases hj
          · cases hj
      | integerText =>
          cases h
          obtain ⟨n, rfl⟩ := exists_of_judgeWritten (Except.ok.inj (Option.some.inj hj))
          simp [FieldType.admits, orNull, isMissing, Value.number?, Atom.number?, Number.isWhole]
      | decimalText =>
          cases h
          obtain ⟨x, rfl⟩ := exists_of_judgeWritten (Except.ok.inj (Option.some.inj hj))
          simp [FieldType.admits, orNull, isMissing, Value.number?, Atom.number?]
      | enumeration first rest =>
          cases h
          simp only [Schema.judge?, Option.some.injEq, Except.ok.injEq] at hj
          obtain ⟨rfl, a, rfl, ⟨b, hb, hsame⟩, -⟩ := mem_of_judgeMember hj
          have hvalue : orNull (.atom a) = .atom a := by
            refine if_neg fun hmissing => ?_
            obtain rfl := Value.atom.inj (eq_missing_of_isMissing hmissing)
            simp [hs b hb] at hsame
          rw [hvalue]
          exact FieldType.admits_literalOf hb hsame
      | any =>
          cases h
          rw [FieldType.admits]
      | _ => cases hj

/-! ## All schemas -/

/-- Whether a schema is an intersection. -/
def Schema.isIntersection : Schema → Bool
  | .intersection _ _ => true
  | _ => false

namespace Call

/-- The result of a call that is made is part of the result of the call that makes it, or is
that. -/
def Displays (f : Call σ) (r : Value) : Prop :=
  match f.schema with
  | .object _ _ => isMarker r = false
  | .intersection _ _ | .transform _ _ | .deferred _ => False
  | _ => True

/-- A call that clears makes another that clears, and what this gives can be seen in what it
gives itself. -/
def Shows (env : Setting σ) (mode : Mode) (p q : Call σ × Value) : Prop :=
  p.1.SeesClear env mode q.1 q.2 ∧ p.1.Displays q.2

/-- What can be seen in the result of a call is the result of a part of its schema. -/
theorem step_of_displays {f g : Call σ} {q : Value} (hmakes : Makes env mode f g)
    (h : f.Displays q) : f.schema.Passes g.schema ∨ f.schema.Guards g.schema := by
  refine hmakes.schema_cases.resolve_right ?_
  rintro ⟨id, hid, -⟩
  rw [Displays, hid] at h
  exact h

/-- What a call gives is of each type that its schema has, with null for what is absent. -/
def GivesOfType (env : Setting σ) (st : Store) (f : Call σ) (r : Value) : Prop :=
  ∀ depth name w t w', (env.fieldType depth name f.schema).runIn w = (.ok t, w') →
    t.admits st (orNull r) = true

/-- A call to which the marker of a failed check is not handed does not give it without an
error. -/
theorem not_clears_invalid {f : Call σ} (hfree : ∀ g, Reaches env mode f g → g.MarkerFree env) :
    ¬ f.Clears env mode .invalid := by
  rintro ⟨c', w', hrun, hclear⟩
  obtain ⟨es, hes, hmarker⟩ := judged hfree _ c' w' hrun
  have hnone : es = [] := by simpa [hclear] using hes
  exact hmarker.mp rfl hnone

theorem not_seesClear_invalid {f : Call σ} (hfree : ∀ g, Reaches env mode f g → g.MarkerFree env)
    (g : Call σ) : ¬ f.SeesClear env mode g .invalid :=
  fun hsees => not_clears_invalid (fun _ hreaches => hfree _ (.head hsees.1 hreaches)) hsees.2

section Layers

variable {v r : Value} {c : Context}

/-- An object gives a mapping that is of its model, if its fields give what is of their types. -/
theorem givesOfType_of_object {fields : Entries Schema} {unknown : UnknownKeys}
    (hdistinct : fields.Distinct)
    (hclears : Clears env mode ⟨depth, .object fields unknown, v, c, w⟩ r)
    (hvalid : ∀ g, ¬ SeesClear env mode ⟨depth, .object fields unknown, v, c, w⟩ g .invalid)
    (hmade : ∀ g q, SeesClear env mode ⟨depth, .object fields unknown, v, c, w⟩ g q →
      isMarker q = false → g.GivesOfType env st q) :
    GivesOfType env st ⟨depth, .object fields unknown, v, c, w⟩ r := by
  intro d name w₁ t w₂ htype
  obtain ⟨c', w', hrun, hclear⟩ := hclears
  obtain ⟨depth, rfl⟩ := exists_succ_of_check hrun
  obtain ⟨results, failed, later, -, -, -, -, hresults, hfailed, rfl⟩ :=
    clears_of_object hrun hclear
  obtain rfl : failed = false := by
    cases failed with
    | true =>
        obtain ⟨g, hg⟩ := hfailed rfl
        exact absurd hg (hvalid g)
    | false => rfl
  cases d with
  | zero => cases htype
  | succ d =>
      obtain ⟨rows, w₃, hrows, htype⟩ := Act.runIn_bind_ok_iff.mp htype
      obtain ⟨named, w₄, hnamed, htype⟩ := Act.runIn_bind_ok_iff.mp htype
      cases htype
      rw [FieldType.admits]
      refine FieldType.fieldsAdmit_iff.mpr fun row hrow u hu => ?_
      -- the row is that of a field, and what is at its key is given by that field
      obtain ⟨n, t, default⟩ := row
      obtain ⟨⟨k, s⟩, hfield, hk, d', name', w₅, w₆, hentry⟩ :=
        exists_right_of_mem (entries_of_modelFields hrows).flip
          ((mem_iff_of_fieldsOfModel hnamed n _).mp hrow).2
      obtain rfl : .text n = k := hk
      have hextra : Entries.find? (if unknown = .passthrough then
          undeclared fields (later.store.entriesOf v) else []) (.text n) = none := by
        split
        · exact find?_undeclared (List.mem_map_of_mem hfield)
        · rfl
      rw [Entries.find?_append, hextra, Option.or_none] at hu
      obtain ⟨l, hsame, hl⟩ := Entries.exists_same_of_find? hu
      obtain ⟨hmarker, other, hother, g, w₇, hsees, hschema, -⟩ := hresults _ hl
      obtain rfl : s = other := by
        have hfind := Entries.find?_of_mem hdistinct hother
        rw [Entries.find?_congr hsame, Entries.find?_of_mem hdistinct hfield] at hfind
        exact Option.some.inj hfind
      obtain ⟨d'', w₈, w₉, ht⟩ := exists_fieldType_of_fieldEntry hentry
      have hadmits := hmade g u hsees hmarker d'' name' w₈ t w₉ (hschema ▸ ht)
      have hthere : orNull u = u := by simp [orNull, (Bool.or_eq_false_iff.mp hmarker).2]
      rwa [hthere] at hadmits

/-- An array gives a list of what is of its type, if its elements do. -/
theorem givesOfType_of_array {element : Schema} {bounds : ArrayBounds}
    (hclears : Clears env mode ⟨depth, .array element bounds, v, c, w⟩ r)
    (hvalid : ∀ g, ¬ SeesClear env mode ⟨depth, .array element bounds, v, c, w⟩ g .invalid)
    (hmade : ∀ g q, SeesClear env mode ⟨depth, .array element bounds, v, c, w⟩ g q →
      g.GivesOfType env st q) :
    GivesOfType env st ⟨depth, .array element bounds, v, c, w⟩ r := by
  intro d name w₁ t w₂ htype
  obtain ⟨c', w', hrun, hclear⟩ := hclears
  obtain ⟨depth, rfl⟩ := exists_succ_of_check hrun
  obtain ⟨results, failed, later, -, -, -, -, hresults, hfailed, rfl⟩ :=
    clears_of_array hrun hclear
  obtain rfl : failed = false := by
    cases failed with
    | true =>
        obtain ⟨g, hg⟩ := hfailed rfl
        exact absurd hg (hvalid g)
    | false => rfl
  cases d with
  | zero => cases htype
  | succ d =>
      obtain ⟨item, w₃, hitem, htype⟩ := Act.runIn_bind_ok_iff.mp htype
      cases htype
      rw [FieldType.admits]
      refine List.all_eq_true.mpr fun x hx => ?_
      obtain ⟨g, q, hsees, -, rfl⟩ := hresults x hx
      have hadmits := hmade g q hsees
      obtain ⟨hmakes, -⟩ := hsees
      cases hmakes with
      | element => exact hadmits _ _ _ _ _ hitem

/-- One layer: a call gives what is of its type if the calls that it makes do. -/
theorem givesOfType_of_makes {f : Call σ} (htidy : f.schema.Tidy) (hclears : f.Clears env mode r)
    (hvalid : ∀ g, ¬ f.SeesClear env mode g .invalid)
    (hmerged : f.schema.isIntersection = true → st.isDictionary r = true)
    (hmade : ∀ g q, f.SeesClear env mode g q → f.Displays q → g.GivesOfType env st q) :
    f.GivesOfType env st r := by
  obtain ⟨depth, s, v, c, w⟩ := f
  -- the type of a schema with parts is made one layer at a time
  have hlayer : ∀ {P : FieldType → Prop},
      (∀ d name w₁ t w₂, (env.fieldType (d + 1) name s).runIn w₁ = (.ok t, w₂) → P t) →
      ∀ d name w₁ t w₂, (env.fieldType d name s).runIn w₁ = (.ok t, w₂) → P t := by
    intro P hsucc d name w₁ t w₂ htype
    cases d with
    | zero => cases htype
    | succ d => exact hsucc d name w₁ t w₂ htype
  cases s with
  | object fields unknown => exact givesOfType_of_object htidy hclears hvalid hmade
  | array element bounds =>
      exact givesOfType_of_array hclears hvalid fun g q hsees => hmade g q hsees trivial
  | union first rest =>
      refine hlayer fun d name w₁ t w₂ htype => ?_
      obtain ⟨ts, w₃, hts, htype⟩ := Act.runIn_bind_ok_iff.mp htype
      cases htype
      cases clearing_of_clears hclears with
      | single hjudged => cases hjudged
      | inner _ hwraps => cases hwraps
      | @option _ _ _ _ _ _ g _ hsees hoption =>
          obtain ⟨t, ht, w₄, w₅, hrun⟩ :=
            exists_right_of_mem (forall₂_of_typeEach hts) hoption
          exact FieldType.admits_unionOf ht (hmade g r hsees trivial _ _ _ _ _ hrun)
  | intersection first rest =>
      refine hlayer fun d name w₁ t w₂ htype => ?_
      cases htype
      have hdictionary := hmerged rfl
      have hthere : orNull r = r := by
        refine if_neg fun hmissing => ?_
        obtain rfl := eq_missing_of_isMissing hmissing
        cases hdictionary
      rw [FieldType.admits, hthere]
      exact hdictionary
  | optional inner =>
      refine hlayer fun d name w₁ t w₂ htype => ?_
      obtain ⟨t, w₃, ht, htype⟩ := Act.runIn_bind_ok_iff.mp htype
      cases htype
      cases clearing_of_clears hclears with
      | single hjudged => cases hjudged
      | absent => exact FieldType.admits_orNothing_null t
      | @inner _ g _ hsees _ =>
          have hinner := hmade g r hsees trivial
          cases hsees.1 with
          | optional => exact FieldType.admits_orNothing (hinner _ _ _ _ _ ht)
  | nullable inner =>
      refine hlayer fun d name w₁ t w₂ htype => ?_
      obtain ⟨t, w₃, ht, htype⟩ := Act.runIn_bind_ok_iff.mp htype
      cases htype
      cases clearing_of_clears hclears with
      | single hjudged => cases hjudged
      | null => exact FieldType.admits_orNothing_null t
      | @inner _ g _ hsees _ =>
          have hinner := hmade g r hsees trivial
          cases hsees.1 with
          | nullable => exact FieldType.admits_orNothing (hinner _ _ _ _ _ ht)
  | withDefault inner default =>
      refine hlayer fun d name w₁ t w₂ htype => ?_
      cases clearing_of_clears hclears with
      | single hjudged => cases hjudged
      | @inner _ g _ hsees _ =>
          have hinner := hmade g r hsees trivial
          cases hsees.1 with
          | withDefault => exact hinner _ _ _ _ _ htype
          | copy => exact hinner _ _ _ _ _ htype
  | refine inner id words code =>
      refine hlayer fun d name w₁ t w₂ htype => ?_
      cases clearing_of_clears hclears with
      | single hjudged => cases hjudged
      | @inner _ g _ hsees _ =>
          have hinner := hmade g r hsees trivial
          cases hsees.1 with
          | refine => exact hinner _ _ _ _ _ htype
  | transform inner step =>
      refine hlayer fun d name w₁ t w₂ htype => ?_
      cases htype
      rw [FieldType.admits]
  | deferred id =>
      refine hlayer fun d name w₁ t w₂ htype => ?_
      cases htype
      rw [FieldType.admits]
  | _ =>
      intro d name w₁ t w₂ htype
      cases clearing_of_clears hclears with
      | single hjudged => exact admits_of_judge? htidy hjudged htype
      | inner _ hwraps => cases hwraps

end Layers

end Call

section Covers

variable {f : Call σ} {r : Value}

/-- What a call gives is of the type of its schema, with null for what is absent, if each
intersection that can be seen in it gives a dictionary. -/
theorem givesOfType_of_clears (htidy : ∀ s, f.schema.Part s → s.Tidy)
    (hfree : ∀ g, Call.Reaches env mode f g → g.MarkerFree env)
    (hmerged : ∀ g q, Relation.ReflTransGen (Call.Shows env mode) (f, r) (g, q) →
      g.schema.isIntersection = true → st.isDictionary q = true)
    (hclears : f.Clears env mode r) : f.GivesOfType env st r := by
  induction f using Call.induct env mode generalizing r with
  | h f ih =>
      refine Call.givesOfType_of_makes (htidy _ .refl) hclears (Call.not_seesClear_invalid hfree)
        (hmerged f r .refl) fun g q hsees hdisplays => ?_
      refine ih g hsees.1 ?_ ?_ ?_ hsees.2
      · exact fun s hs => htidy s (.head (Call.step_of_displays hsees.1 hdisplays) hs)
      · exact fun h hreaches => hfree h (.head hsees.1 hreaches)
      · exact fun h x hshows => hmerged h x (.head ⟨hsees, hdisplays⟩ hshows)

end Covers

/-! ## Intersections of records -/

/-- A mapping of its own, with texts for keys. -/
def Value.IsRecord (v : Value) : Prop :=
  ∃ es : Entries Value, v = .mapping false es ∧ es.keys.all Key.isText = true

/-- An object that gives nothing but what it declares, at texts. -/
def Schema.IsRecord : Schema → Prop
  | .object fields unknown => unknown ≠ .passthrough ∧ (Entries.keys fields).all Key.isText = true
  | _ => False

section Records

variable {u v m r : Value}

theorem Value.IsRecord.isDictionary (h : v.IsRecord) (st : Store) : st.isDictionary v = true := by
  obtain ⟨es, rfl, hkeys⟩ := h
  exact hkeys

theorem isRecord_of_mergeValues {path : Path} (hu : u.IsRecord) (hv : v.IsRecord)
    (h : mergeValues st depth path u v = .ok m) : m.IsRecord := by
  obtain ⟨es, rfl, hes⟩ := hu
  obtain ⟨fs, rfl, hfs⟩ := hv
  cases depth with
  | zero => cases h
  | succ depth =>
      rw [Store.mergeValues_of_entries? rfl rfl] at h
      obtain ⟨ds, hds, rfl⟩ := map_eq_ok_iff.mp h
      obtain ⟨-, hkeys⟩ := Store.builds_mergeEntries (P := fun _ => True) (fun _ _ => trivial)
        (fun _ _ => trivial) (fun _ _ _ _ _ _ _ => trivial) hds
      refine ⟨ds, rfl, List.all_eq_true.mpr fun k hk => ?_⟩
      rcases hkeys k hk with hk | hk
      · exact List.all_eq_true.mp hes k hk
      · exact List.all_eq_true.mp hfs k hk

theorem isRecord_of_mergeAll {us : List Value} (hu : u.IsRecord) (hus : ∀ v ∈ us, v.IsRecord)
    (h : mergeAll st depth u us = .ok m) : m.IsRecord := by
  induction us generalizing u with
  | nil =>
      cases h
      exact hu
  | cons v us ih =>
      rw [mergeAll_cons] at h
      obtain ⟨x, hx, h⟩ := bind_eq_ok_iff.mp h
      obtain ⟨hv, hus⟩ := List.forall_mem_cons.mp hus
      exact ih (isRecord_of_mergeValues hu hv hx) hus h

/-- An object of that kind gives a record. -/
theorem isRecord_of_object {f : Call σ} (hs : f.schema.IsRecord)
    (hfree : ∀ g, Call.Reaches env mode f g → g.MarkerFree env) (hclears : f.Clears env mode r) :
    r.IsRecord := by
  obtain ⟨depth, s, v, c, w⟩ := f
  cases s with
  | object fields unknown =>
      obtain ⟨hunknown, hkeys⟩ := hs
      obtain ⟨c', w', hrun, hclear⟩ := hclears
      obtain ⟨depth, rfl⟩ := exists_succ_of_check hrun
      obtain ⟨results, failed, later, -, -, -, -, hresults, hfailed, rfl⟩ :=
        Call.clears_of_object hrun hclear
      cases failed with
      | true =>
          obtain ⟨g, hg⟩ := hfailed rfl
          exact absurd hg (Call.not_seesClear_invalid hfree g)
      | false =>
          refine ⟨results, by simp [hunknown], List.all_eq_true.mpr fun k hk => ?_⟩
          obtain ⟨e, he, rfl⟩ := List.mem_map.mp hk
          obtain ⟨-, field, hfield, -⟩ := hresults e he
          exact List.all_eq_true.mp hkeys _ (List.mem_map_of_mem hfield)
  | _ => exact hs.elim

/-- An intersection of such objects gives a record. -/
theorem isRecord_of_intersection {first : Schema} {rest : List Schema} {c : Context}
    (hs : ∀ s ∈ first :: rest, s.IsRecord)
    (hfree : ∀ g, Call.Reaches env mode ⟨depth, .intersection first rest, v, c, w⟩ g →
      g.MarkerFree env)
    (hclears : Call.Clears env mode ⟨depth, .intersection first rest, v, c, w⟩ r) :
    r.IsRecord := by
  obtain ⟨c', w', hrun, hclear⟩ := hclears
  obtain ⟨depth, rfl⟩ := exists_succ_of_check hrun
  obtain ⟨u, us, w₁, -, hmerged, -, hresults⟩ := Call.clears_of_intersection hrun hclear
  have hrecord : ∀ x ∈ u :: us, x.IsRecord := by
    intro x hx
    obtain ⟨g, hmakes, hclears⟩ := hresults x hx
    have hmember : g.schema.IsRecord := by
      cases hmakes with
      | member hmembers => exact hs _ (by simp [hmembers])
    exact isRecord_of_object hmember (fun h hreaches => hfree h (.head hmakes hreaches)) hclears
  obtain ⟨hu, hus⟩ := List.forall_mem_cons.mp hrecord
  exact isRecord_of_mergeAll hu hus hmerged

end Records

/-! ## Whole values -/

/-- Each intersection that can be seen in what a call gives has merged dictionaries. -/
def Call.MergesDictionaries (env : Setting σ) (mode : Mode) (st : Store) (f : Call σ) : Prop :=
  ∀ r g q, f.Clears env mode r → Relation.ReflTransGen (Call.Shows env mode) (f, r) (g, q) →
    g.schema.isIntersection = true → st.isDictionary q = true

/-- What can be seen in what a call gives is given by a call for a part of its schema. -/
theorem clears_of_shows {p q : Call σ × Value}
    (hshows : Relation.ReflTransGen (Call.Shows env mode) p q) (hclears : p.1.Clears env mode p.2) :
    Call.Reaches env mode p.1 q.1 ∧ p.1.schema.Part q.1.schema ∧ q.1.Clears env mode q.2 := by
  induction hshows with
  | refl => exact ⟨.refl, .refl, hclears⟩
  | tail _ hshows ih =>
      obtain ⟨hreaches, hpart, -⟩ := ih
      obtain ⟨⟨hmakes, hclears⟩, hdisplays⟩ := hshows
      exact ⟨hreaches.tail hmakes, hpart.tail (Call.step_of_displays hmakes hdisplays), hclears⟩

/-- Intersections of objects that give nothing but what they declare merge dictionaries. -/
theorem mergesDictionaries_of_records {f : Call σ}
    (hs : ∀ first rest, f.schema.Part (.intersection first rest) → ∀ s ∈ first :: rest, s.IsRecord)
    (hfree : ∀ g, Call.Reaches env mode f g → g.MarkerFree env) (st : Store) :
    f.MergesDictionaries env mode st := by
  rintro r ⟨depth, s, v, c, w⟩ q hclears hshows hintersection
  obtain ⟨hreaches, hpart, hclears⟩ := clears_of_shows hshows hclears
  cases s with
  | intersection first rest =>
      exact (isRecord_of_intersection (hs first rest hpart)
        (fun g hg => hfree g (hreaches.trans hg)) hclears).isDictionary st
  | _ => cases hintersection

/-! ## There is a type -/

/-- The keys of the objects in a schema are texts, and no part of it hands values on
endlessly. -/
structure Schema.Typable (may : Nat → Schema → Prop) (s : Schema) : Prop where
  named (fields : Entries Schema) (unknown : UnknownKeys) (h : s.Part (.object fields unknown)) :
    fields.keys.all Key.isText = true
  guarded (t : Schema) (h : s.Part t) : t.Guarded may

theorem Schema.Typable.of_step {may : Nat → Schema → Prop} {s t : Schema} (hs : s.Typable may)
    (h : s.Passes t ∨ s.Guards t) : t.Typable may where
  named fields unknown hpart := hs.named fields unknown (.head h hpart)
  guarded u hpart := hs.guarded u (.head h hpart)

section Ends

variable {may : Nat → Schema → Prop} {I : World σ → Prop}

theorem typeEach_ends {child : Nat → Schema → Act σ FieldType} (ss : List Schema)
    (hss : ∀ s ∈ ss, Act.Ends I fun depth => child depth s) :
    Act.Ends I fun depth => Setting.typeEach (child depth) ss := by
  induction ss with
  | nil => exact .pure []
  | cons s ss ih =>
      refine .bind (hss s List.mem_cons_self) fun t => ?_
      exact .bind (ih fun u hu => hss u (List.mem_cons_of_mem _ hu)) fun ts => .pure (t :: ts)

theorem modelFields_ends (fields : Entries Schema) (htexts : ∀ e ∈ fields, e.1.isText = true)
    (hfields : ∀ e ∈ fields, ∀ name, Act.Ends I fun depth => env.fieldEntry depth name e.2)
    (name : String) : Act.Ends I fun depth => env.modelFields depth name fields := by
  induction fields with
  | nil => exact .of_succ (.pure [])
  | cons e fields ih =>
      obtain ⟨n, hn⟩ := Key.isText_iff.mp (htexts e List.mem_cons_self)
      have hnested :
          Act.Ends I fun _ => (Act.ofExcept (Setting.nestedName name e.1) : Act σ _) := by
        rw [hn]
        exact .pure (name ++ "_" ++ (Key.text n).plain)
      refine .of_succ (.bind hnested fun nested => ?_)
      refine .bind (hfields e List.mem_cons_self _) fun field => ?_
      exact .bind (ih (fun e he => htexts e (List.mem_cons_of_mem _ he)) fun e he =>
        hfields e (List.mem_cons_of_mem _ he)) fun rows => .pure ((e.1, field) :: rows)

/-- Rows at texts are fields of a model. -/
theorem exists_fieldsOfModel {β : Type} {rows : List (Key × β)}
    (h : ∀ row ∈ rows, row.1.isText = true) :
    ∃ named, env.fieldsOfModel rows = pure named := by
  have hnamed : ∃ named, Setting.namedFields rows = .ok named := by
    induction rows with
    | nil => exact ⟨[], rfl⟩
    | cons row rows ih =>
        obtain ⟨hrow, hrows⟩ := List.forall_mem_cons.mp h
        obtain ⟨named, hnamed⟩ := ih hrows
        obtain ⟨k, b⟩ := row
        obtain ⟨n, rfl⟩ := Key.isText_iff.mp hrow
        refine ⟨(n, b) :: named, ?_⟩
        rw [Setting.namedFields, List.mapM_cons]
        show (Setting.namedFields rows).bind _ = _
        rw [hnamed]
        rfl
  obtain ⟨named, hnamed⟩ := hnamed
  exact ⟨_, by simp only [Setting.fieldsOfModel, hnamed]; rfl⟩

/-- A schema has a type, and a field with it has one in a model. -/
theorem fieldType_ends (henv : env.Builds may) (hgives : env.Furnishes may) {s : Schema}
    (hs : s.Typable may) :
    (∀ name, Act.Ends (World.Stands may) fun depth => env.fieldType depth name s) ∧
      ∀ name, Act.Ends (World.Stands may) fun depth => env.fieldEntry depth name s := by
  induction hsize : sizeOf s using Nat.strong_induction_on generalizing s with
  | _ size ih =>
      have hpasses := fun t (ht : s.Passes t) =>
        ih _ (hsize ▸ Schema.sizeOf_lt_of_passes ht) (hs.of_step (.inl ht)) rfl
      have hguards := fun t (ht : s.Guards t) =>
        ih _ (hsize ▸ Schema.sizeOf_lt_of_guards ht) (hs.of_step (.inr ht)) rfl
      have htype : ∀ name, Act.Ends (World.Stands may) fun depth => env.fieldType depth name s := by
        intro name
        cases s with
        | object fields unknown =>
            have hkeys := List.all_eq_true.mp (hs.named fields unknown .refl)
            refine .of_succ fun w hw => ?_
            have hfields : Act.Ends (World.Stands may) fun depth =>
                env.modelFields depth name fields :=
              modelFields_ends fields (List.forall_mem_map.mp hkeys)
                (fun e he name => (hguards e.2 (.field he)).2 name) name
            obtain ⟨rows, w₁, hw₁, hends⟩ := hfields w hw
            obtain ⟨depth, hrun⟩ := hends.exists_eq
            have htexts : ∀ row ∈ rows, row.1.isText = true := by
              intro row hrow
              obtain ⟨f, hf, hkey, -⟩ := exists_right_of_mem (entries_of_modelFields hrun).flip hrow
              exact hkey ▸ hkeys _ (List.mem_map_of_mem hf)
            obtain ⟨named, hnamed⟩ := exists_fieldsOfModel htexts
            refine ⟨.model name named, w₁, hw₁, hends.act ?_⟩
            rw [hnamed]
            exact .const _
        | array element bounds =>
            exact .of_succ (.bind ((hguards element .element).1 _) fun t => .pure _)
        | union first rest =>
            refine .of_succ (.bind ?_ fun ts => .pure _)
            exact typeEach_ends (first :: rest) fun t ht => (hpasses t (.option ht)).1 name
        | optional inner =>
            exact .of_succ (.bind ((hpasses inner .optional).1 name) fun t => .pure _)
        | nullable inner =>
            exact .of_succ (.bind ((hpasses inner .nullable).1 name) fun t => .pure _)
        | withDefault inner default => exact .of_succ ((hpasses inner .withDefault).1 name)
        | refine inner id words code => exact .of_succ ((hpasses inner .refine).1 name)
        | _ => exact .of_succ (.pure _)
      refine ⟨htype, fun name => ?_⟩
      cases s with
      | optional inner =>
          exact .of_succ (.bind ((hpasses inner .optional).1 name) fun t => .pure _)
      | withDefault inner default =>
          exact .of_succ (.bind ((hpasses inner .withDefault).1 name) fun t => .pure _)
      | nullable inner =>
          refine .of_succ (.bind ?_ fun accepted => ?_)
          · exact acceptsMissing_ends henv hgives (hs.guarded inner (.single (.inl .nullable)))
          · cases accepted with
            | true => exact .bind ((hpasses inner .nullable).2 name) fun entry => .pure _
            | false => exact .bind (htype name) fun t => .pure _
      | _ => exact .of_succ (.bind (htype name) fun t => .pure _)

end Ends

/-- **What a schema gives for a value that it accepts is of its type**, with null for what is
absent, in every store in which what the intersections give, as far as it can be seen in the
result, are dictionaries. No object of the schema declares a key twice, the marker of an absent
value is no member of an enumeration, and that of a failed check comes from nothing but failed
checks. And if the keys of the objects are texts, and deferred schemas always stand for
something, there is a type. -/
theorem results_are_of_type (env : Setting σ) (s : Schema) (htidy : ∀ t, s.Part t → t.Tidy) :
    (∀ mode depth v w u,
      (∀ g, Call.Reaches env mode ⟨depth, s, v, {}, w⟩ g → g.MarkerFree env) →
      Gives env mode depth s v w (.accepted u) →
      ∀ st, Call.MergesDictionaries env mode st ⟨depth, s, v, {}, w⟩ →
      ∀ depth name w₁ t w₂, (env.fieldType depth name s).runIn w₁ = (.ok t, w₂) →
        t.admits st u = true) ∧
    ∀ may, env.Builds may → env.Furnishes may → s.Typable may → ∀ name w, w.Stands may →
      ∃ t w', EndsBy (fun depth => (env.fieldType depth name s).runIn w) (.ok t, w') := by
  constructor
  · intro mode depth v w u hfree hgives st hmerged depth' name w₁ t w₂ htype
    obtain ⟨r, hclears, rfl⟩ := clears_of_accepted hgives
    exact givesOfType_of_clears htidy hfree (fun g q => hmerged r g q hclears) hclears depth' name
      w₁ t w₂ htype
  · intro may henv hgives hs name w hw
    obtain ⟨t, w', -, hends⟩ := (fieldType_ends henv hgives hs).1 name w hw
    exact ⟨t, w', hends⟩

/-- Trees with their owner, or nothing. -/
def orchards : Schema :=
  .array (.nullable (.intersection (.object [(.text "owner", .string {})] .strip)
    [.object [(.text "trees", .array (.deferred 0) {})] .strip])) {}

theorem part_orchards {t : Schema} (h : orchards.Part t) :
    t ∈ [orchards, .nullable (.intersection (.object [(.text "owner", .string {})] .strip)
        [.object [(.text "trees", .array (.deferred 0) {})] .strip]),
      .intersection (.object [(.text "owner", .string {})] .strip)
        [.object [(.text "trees", .array (.deferred 0) {})] .strip],
      .object [(.text "owner", .string {})] .strip, .string {},
      .object [(.text "trees", .array (.deferred 0) {})] .strip, .array (.deferred 0) {},
      .deferred 0] := by
  induction h with
  | refl => exact List.mem_cons_self
  | tail _ hstep ih =>
      simp only [List.mem_cons, List.not_mem_nil, or_false] at ih
      rcases ih with rfl | rfl | rfl | rfl | rfl | rfl | rfl | rfl <;>
        rcases hstep with hstep | hstep <;> cases hstep <;> grind [orchards]

/-- All that is checked with orchards are parts of them and of the trees in them. -/
theorem part_of_reaches_orchards {v : Value} {g : Call Unit}
    (h : Call.Reaches labelledTreeHost .immediate ⟨8, orchards, v, {}, { host := () }⟩ g) :
    orchards.Part g.schema ∨ labelledTree.Part g.schema := by
  have hstands := upholds_labelledTreeHost.stands
  have hnothing : (⟨{}, [], [], ()⟩ : World Unit).Stands fun _ t => t = labelledTree := by
    rintro id t ⟨⟩
  refine Call.schema_of_reaches (P := fun t => orchards.Part t ∨ labelledTree.Part t) hstands
    hnothing (fun s t hs hstep => hs.imp (·.tail hstep) (·.tail hstep)) ?_ ?_ h
  case refine_2 => exact .inl .refl
  intro id w t w' hw hresolve
  have hw' := (hstands.resolve id).of_run hresolve hw
  obtain rfl := hw' id t (standing_of_resolve hresolve)
  exact .inr .refl

theorem typable_orchards : orchards.Typable fun _ t => t = labelledTree where
  named fields unknown h := by
    have hpart := part_orchards h
    simp only [List.mem_cons, List.not_mem_nil, or_false] at hpart
    rcases hpart with h | h | h | h | h | h | h | h <;> cases h <;> rfl
  guarded t ht := by
    have hmerged : Schema.Guarded (fun _ t => t = labelledTree)
        (.intersection (.object [(.text "owner", .string {})] .strip)
          [.object [(.text "trees", .array (.deferred 0) {})] .strip]) := by
      refine .intro _ fun t ht => ?_
      cases ht with
      | passes h =>
          cases h with
          | member hmember =>
              simp only [List.mem_cons, List.not_mem_nil, or_false] at hmember
              rcases hmember with rfl | rfl <;> exact .intro _ nofun
    have hpart := part_orchards ht
    simp only [List.mem_cons, List.not_mem_nil, or_false] at hpart
    rcases hpart with rfl | rfl | rfl | rfl | rfl | rfl | rfl | rfl
    case inr.inl =>
      refine .intro _ fun t ht => ?_
      rcases ht with ⟨⟨⟩⟩
      exact hmerged
    case inr.inr.inl => exact hmerged
    case inr.inr.inr.inr.inr.inr.inr =>
      refine .intro _ fun t ht => ?_
      rcases ht with ⟨⟨⟩⟩ | rfl
      exact exportable_labelledTree.guarded _ .refl
    all_goals exact .intro _ nofun

/-- An orchard with its owner and a tree, and nothing in the place of another, are of the type of
orchards. -/
theorem results_are_of_type_orchards :
    let orchard := Value.mapping false [(.text "owner", .text "Ada"),
      (.text "trees", .list [.mapping false [(.text "label", .text "7")]])]
    let checked := Value.mapping false [(.text "owner", .text "Ada"),
      (.text "trees", .list [.mapping false [(.text "label", .int 7)]])]
    Gives labelledTreeHost .immediate 8 orchards (.list [orchard, .null]) { host := () }
        (.accepted (.list [checked, .null])) ∧
      ∃ t w', EndsBy (fun depth => (labelledTreeHost.fieldType depth "Orchards" orchards).runIn
          { host := () }) (.ok t, w') ∧
        t.admits {} (.list [checked, .null]) = true := by
  intro orchard checked
  have hgives : Gives labelledTreeHost .immediate 8 orchards (.list [orchard, .null]) { host := () }
      (.accepted (.list [checked, .null])) := by
    set_option maxRecDepth 4000 in exact ⟨.safeParse, _, rfl⟩
  have hnothing : (⟨{}, [], [], ()⟩ : World Unit).Stands fun _ t => t = labelledTree := by
    rintro id t ⟨⟩
  have htidy : ∀ t, orchards.Part t → t.Tidy := by
    intro t ht
    have hpart := part_orchards ht
    simp only [List.mem_cons, List.not_mem_nil, or_false] at hpart
    rcases hpart with rfl | rfl | rfl | rfl | rfl | rfl | rfl | rfl <;>
      first | trivial | (unfold Schema.Tidy; decide)
  have hfree : ∀ g, Call.Reaches labelledTreeHost .immediate
      ⟨8, orchards, .list [orchard, .null], {}, { host := () }⟩ g →
      g.MarkerFree labelledTreeHost := by
    intro g hg
    unfold Call.MarkerFree
    rcases part_of_reaches_orchards hg with hpart | hpart
    · have hpart := part_orchards hpart
      simp only [List.mem_cons, List.not_mem_nil, or_false] at hpart
      rcases hpart with h | h | h | h | h | h | h | h <;> rw [h] <;> trivial
    · rcases part_labelledTree hpart with h | h | h | h | h <;> rw [h] <;> trivial
  obtain ⟨hadmits, hends⟩ := results_are_of_type labelledTreeHost orchards htidy
  obtain ⟨t, w', hends⟩ := hends _ upholds_labelledTreeHost.builds (fun id w _ => ⟨_, _, rfl⟩)
    typable_orchards "Orchards" { host := () } hnothing
  refine ⟨hgives, t, w', hends, ?_⟩
  obtain ⟨depth, htype⟩ := hends.exists_eq
  refine hadmits .immediate 8 _ _ _ hfree hgives {} ?_ depth _ _ t _ htype
  refine mergesDictionaries_of_records (fun first rest h => ?_) hfree {}
  have hpart := part_orchards h
  simp only [List.mem_cons, List.not_mem_nil, or_false] at hpart
  rcases hpart with h | h | h | h | h | h | h | h <;> cases h
  intro s hs
  simp only [List.mem_cons, List.not_mem_nil, or_false] at hs
  rcases hs with rfl | rfl <;> exact ⟨by decide, by decide⟩

/-- An intersection of texts gives a text, which is not of its type. -/
theorem text_not_of_type :
    let s := Schema.intersection (.string {}) [.string {}]
    Gives idleHost .immediate 4 s (.text "a") { host := () } (.accepted (.text "a")) ∧
      ∃ t, (idleHost.fieldType 4 "Letter" s).runIn { host := () } = (.ok t, { host := () }) ∧
        ∀ st, t.admits st (.text "a") = false := by
  refine ⟨⟨.safeParse, _, rfl⟩, _, rfl, fun st => ?_⟩
  rw [FieldType.admits]
  rfl

end Conform
