import Conform.Proofs.Agreement
import Conform.Proofs.Circular
import Conform.RecordModel

/-!
# Which fields are required

Three things say which fields of an object are required: the check, which reports the key
of a required field that is missing, the export, which lists it, and the record model, in
which its field has no default.

The check and the export ask the same flag whether a field accepts an absent value. So they
agree, whatever the field is made of: both say what `Schema.Refuses` says of it. The record
model looks at the outermost wrapper of the field, and asks the flag only inside one that
takes null. What accepts an absent value further inside, it does not see: an optional field
that is refined is required by the model, though neither by the check nor by the export.

## Main results

* `reported_iff_refuses` — a missing key is reported if its field refuses an absent value.
* `listed_iff_refuses` — the export lists the keys of those fields.
* `defaultless_iff_refuses` — the model has no default for those fields, nor for those
  that hide from it that they accept an absent value.
* `required_in_check_export_and_model` — how the three agree, and where they do not.
-/

namespace Conform

open Traverse

variable {σ : Type} {env : Setting σ} {may : Nat → Schema → Prop} {depth : Nat}
  {w w' last : World σ}

/-! ## Worlds that come after -/

theorem Setting.Upholds.stands_of_after (henv : env.Upholds may) (h : env.After w w')
    (hw : w.Stands may) : w'.Stands may :=
  h _ henv.stands hw

theorem Setting.Upholds.recalls_of_after (henv : env.Upholds may) (h : env.After w w') :
    w.Recalls w' :=
  fun id t => h _ (henv.remembers id t)

/-- A key of an object has one field. -/
theorem eq_of_mem_fields {fields : Entries Schema} (hkeys : fields.keys.Nodup) {k : Key}
    {s t : Schema} (hs : (k, s) ∈ fields) (ht : (k, t) ∈ fields) : s = t :=
  congrArg Prod.snd (List.inj_on_of_nodup_map hkeys hs ht rfl)

/-! ## The check -/

/-- An error record says that the value at a key is missing. -/
structure ErrorRecord.TellsMissing (e : ErrorRecord) (p : Path) (k : Key) : Prop where
  path : e.path = p ++ [k]
  code : e.code = .builtin (requiredMissing k).code
  details : e.details = (requiredMissing k).details

section Checks

variable {mode : Mode} {c c' : Context} {v : Value} {k : Key}

/-- A check at a key tells of no key at that level that it is missing, but of keys further
down. -/
theorem not_tellsMissing_of_check {s : Schema} {r : Value} {e : ErrorRecord} {l : Key}
    (h : (check env mode depth s v).runIn (c.push k) w = (.ok r, c', w')) (he : e ∈ c'.errors)
    (hnew : e ∉ c.errors) : ¬ e.TellsMissing c.path l := by
  intro htells
  obtain ⟨es, hes, htold⟩ := Call.tells_of_run (f := ⟨depth, s, v, c.push k, w⟩) h
  rw [hes] at he
  obtain ⟨g, hg, hgtells⟩ := htold e ((List.mem_append.mp he).resolve_left hnew) e .refl
  obtain ⟨q, hq⟩ := Call.path_of_reaches hg
  obtain ⟨l', hl'⟩ := hgtells.required htells.code (by simp [htells.details, requiredMissing])
  have hlength := congrArg List.length (htells.path.symm.trans hl')
  simp [hq] at hlength

/-- An error of the loop over the fields is one of some turn of it. -/
theorem exists_turn_of_mem_errors {fields : Entries Schema} {done : Entries Value × Bool}
    {e : ErrorRecord}
    (h : (checkFields env (env.acceptsMissing depth) (check env mode depth) v
      fields).runIn c w = (.ok done, c', w')) (he : e ∈ c'.errors) (hnew : e ∉ c.errors) :
    ∃ l field c₁ w₁ out c₂ w₂, (l, field) ∈ fields ∧ c₁.path = c.path ∧ env.After w w₁ ∧
      (checkField env (env.acceptsMissing depth) (check env mode depth) v l field).runIn
        c₁ w₁ = (.ok out, c₂, w₂) ∧
      env.After w₂ w' ∧ e ∈ c₂.errors ∧ e ∉ c₁.errors := by
  induction fields using List.reverseRecOn generalizing done c' w' with
  | nil =>
      cases h
      exact absurd he hnew
  | append_singleton fields f ih =>
      obtain ⟨k, field⟩ := f
      rw [checkFields_concat] at h
      obtain ⟨before, c₁, w₁, hbefore, h⟩ := Engine.runIn_bind_ok_iff.mp h
      obtain ⟨out, c₂, w₂, hout, h⟩ := Engine.runIn_bind_ok_iff.mp h
      cases h
      by_cases hearlier : e ∈ c₁.errors
      · obtain ⟨l, other, c₃, w₃, out', c₄, w₄, hmem, hpath, hto, hturn, hafter, hin, hout'⟩ :=
          ih hbefore hearlier
        exact ⟨l, other, c₃, w₃, out', c₄, w₄, List.mem_append_left _ hmem, hpath, hto, hturn,
          hafter.trans (Pairing.after_of_checkField hout), hin, hout'⟩
      · exact ⟨k, field, c₁, w₁, out, c', w', by simp, (restored_of_checkFields hbefore).path,
          Pairing.after_of_checkFields hbefore, hout, .refl env w', he, hearlier⟩

/-- A key that the loop over the fields says is missing is that of a field that refuses an
absent value. -/
theorem exists_refuses_of_tellsMissing (henv : env.Upholds may)
    (hmay : ∀ id t, may id t → t.Stocked) {fields : Entries Schema}
    {done : Entries Value × Bool} {e : ErrorRecord} (hstocked : ∀ f ∈ fields, f.2.Stocked)
    (hw : w.Stands may)
    (h : (checkFields env (env.acceptsMissing depth) (check env mode depth) v
      fields).runIn c w = (.ok done, c', w'))
    (hlast : w'.Recalls last) (he : e ∈ c'.errors) (hnew : e ∉ c.errors)
    (htells : e.TellsMissing c.path k) :
    ∃ field, (k, field) ∈ fields ∧ field.Refuses last.standing := by
  obtain ⟨l, field, c₁, w₁, out, c₂, w₂, hfield, hpath, hto, hturn, hafter, hin, hout⟩ :=
    exists_turn_of_mem_errors h he hnew
  rcases cases_of_runIn_checkField hturn with
    ⟨u, w₃, r, d, -, hchild, rfl, -⟩ | ⟨w₃, d, -, hflag, hadd, rfl, -⟩
  · exact absurd (hpath ▸ htells) (not_tellsMissing_of_check hchild hin hout)
  · -- the error is the one for this field, so its key is the one that is missing
    obtain ⟨message, rfl, rfl⟩ := Engine.eq_addError_of_runIn_addViolation hadd
    obtain rfl := List.mem_singleton.mp ((List.mem_append.mp hin).resolve_left hout)
    obtain rfl : l = k := by simpa [hpath] using htells.path
    refine ⟨field, hfield, ?_⟩
    exact (flag_iff_refuses henv hmay (hstocked _ hfield) (henv.stands_of_after hto hw) hflag
      ((henv.recalls_of_after hafter).trans hlast)).mp rfl

/-- The loop over the fields says that a key is missing if its field refuses an absent
value, and the key is not there when its turn comes. -/
theorem exists_tellsMissing_of_refuses (henv : env.Upholds may)
    (hmay : ∀ id t, may id t → t.Stocked) {fields : Entries Schema} {field : Schema}
    {done : Entries Value × Bool} (hfield : (k, field) ∈ fields) (hstocked : field.Stocked)
    (habsent : ∀ w₁, env.After w w₁ → (w₁.store.entriesOf v).find? k = none) (hw : w.Stands may)
    (h : (checkFields env (env.acceptsMissing depth) (check env mode depth) v
      fields).runIn c w = (.ok done, c', w'))
    (hlast : w'.Recalls last) (hrefuses : field.Refuses last.standing) :
    ∃ e ∈ c'.errors, e.TellsMissing c.path k := by
  obtain ⟨earlier, later, rfl⟩ := List.append_of_mem hfield
  obtain ⟨before, c₁, w₁, out, c₂, w₂, after, hbefore, hturn, hrest⟩ := exists_of_checkFields h
  have hto : env.After w w₁ := Pairing.after_of_checkFields hbefore
  have hafter : env.After w₂ w' := Pairing.after_of_checkFields hrest
  rcases cases_of_runIn_checkField hturn with
    ⟨u, w₃, r, d, hhanded, hchild, -, -⟩ | ⟨w₃, d, -, -, hadd, rfl, -⟩
  · have haccepts := hhanded.accepted_of_absent (habsent w₁ hto)
    have hchildAfter : env.After w₃ w₂ := Carry.after mode fun K hset =>
      Carry.of_check hset depth hchild
    have hrecalls := (henv.recalls_of_after (hchildAfter.trans hafter)).trans hlast
    have hflag := (flag_iff_refuses henv hmay hstocked (henv.stands_of_after hto hw) haccepts
      hrecalls).mpr hrefuses
    cases hflag
  · obtain ⟨message, rfl, rfl⟩ := Engine.eq_addError_of_runIn_addViolation hadd
    obtain ⟨e, he, htells⟩ : ∃ e ∈ ((c₁.push k).addError ⟨(c₁.push k).path, message,
        .builtin (requiredMissing k).code, (requiredMissing k).details⟩).pop.errors,
        e.TellsMissing c₁.path k :=
      ⟨_, List.mem_append_right _ (List.mem_singleton_self _), rfl, rfl, rfl⟩
    have hpath := (restored_of_checkFields hbefore).path
    exact ⟨e, (restored_of_checkFields hrest).errors.subset he, hpath ▸ htells⟩

/-- The check of an object looks into its fields. What it adds afterwards does not say that
something is required. -/
theorem exists_checkFields_of_check {fields : Entries Schema} {unknown : UnknownKeys}
    {r : Value} (hobject : (w.store.entries? v).isNone = false)
    (h : (check env mode (depth + 1) (.object fields unknown) v).runIn {} w = (.ok r, c', w')) :
    ∃ done c₁ w₁, (checkFields env (env.acceptsMissing depth) (check env mode depth) v
        fields).runIn (Context.mark {} v) w = (.ok done, c₁, w₁) ∧ env.After w₁ w' ∧
      ∀ e : ErrorRecord, e.code = .builtin .required → (e ∈ c'.errors ↔ e ∈ c₁.errors) := by
  rcases cases_of_runIn_checkObject h with
    ⟨hnone, -⟩ | ⟨-, hvisited, -⟩ | ⟨-, -, done, c₁, w₁, hfields, hfinish⟩
  · cases hobject.symm.trans hnone
  · cases (Context.hasVisited_at [] v).symm.trans hvisited
  · refine ⟨done, c₁, w₁, hfields,
      Carry.after mode fun K hset => Carry.of_finishObject hset hfinish, fun e hcode => ?_⟩
    rcases cases_of_runIn_finishObject hfinish with ⟨-, -, hrefused⟩ | ⟨-, rfl, -, -⟩
    · obtain ⟨-, message, rfl, -⟩ := Engine.eq_addError_of_runIn_refuse hrefused
      simp only [Context.addError, Context.errors_unmark, List.mem_append, List.mem_singleton]
      refine or_iff_left ?_
      rintro rfl
      cases hcode
    · rw [Context.errors_unmark]

/-- The check of an object says that a key is missing only if its field refuses an absent
value, and says so if the key stays missing while the object is checked. -/
theorem reported_iff_refuses (henv : env.Upholds may) (hmay : ∀ id t, may id t → t.Stocked)
    {fields : Entries Schema} {unknown : UnknownKeys} {field : Schema} {r : Value}
    (hstocked : ∀ f ∈ fields, f.2.Stocked) (hkeys : fields.keys.Nodup)
    (hfield : (k, field) ∈ fields) (hobject : (w.store.entries? v).isNone = false)
    (hw : w.Stands may)
    (h : (check env mode depth (.object fields unknown) v).runIn {} w = (.ok r, c', w'))
    (hlast : w'.Recalls last) :
    ((∃ e ∈ c'.errors, e.TellsMissing [] k) → field.Refuses last.standing) ∧
      ((∀ w₁, env.After w w₁ → (w₁.store.entriesOf v).find? k = none) →
        field.Refuses last.standing → ∃ e ∈ c'.errors, e.TellsMissing [] k) := by
  obtain ⟨depth, rfl⟩ := exists_succ_of_check h
  obtain ⟨done, c₁, w₁, hfields, hfinish, herrors⟩ := exists_checkFields_of_check hobject h
  have hlast₁ : w₁.Recalls last := (henv.recalls_of_after hfinish).trans hlast
  have hroot : (Context.mark {} v).path = [] := Context.path_mark {} v
  constructor
  · rintro ⟨e, he, htells⟩
    obtain ⟨other, hother, hrefuses⟩ := exists_refuses_of_tellsMissing henv hmay hstocked hw hfields
      hlast₁ ((herrors e htells.code).mp he) (by simp) (hroot ▸ htells)
    rwa [eq_of_mem_fields hkeys hfield hother]
  · intro habsent hrefuses
    obtain ⟨e, he, htells⟩ := exists_tellsMissing_of_refuses henv hmay hfield (hstocked _ hfield)
      habsent hw hfields hlast₁ hrefuses
    exact ⟨e, (herrors e htells.code).mpr he, hroot ▸ htells⟩

end Checks

/-! ## The export -/

section Exports

variable {k : Key}

/-- The document of an object lists the keys that are required. -/
theorem mem_required_objectDocument_iff {documents : Entries Document} {keys : List Key}
    {unknown : UnknownKeys} :
    (∃ ks, .required ks ∈ objectDocument documents keys unknown ∧ k ∈ ks) ↔ k ∈ keys := by
  unfold objectDocument
  cases keys with
  | nil => simp
  | cons l keys => simp

/-- The export of an object lists a key as required exactly if its field refuses an absent
value. -/
theorem listed_iff_refuses (henv : env.Upholds may) (hmay : ∀ id t, may id t → t.Stocked)
    {fields : Entries Schema} {unknown : UnknownKeys} {field : Schema} {d : Document}
    (hstocked : ∀ f ∈ fields, f.2.Stocked) (hkeys : fields.keys.Nodup)
    (hfield : (k, field) ∈ fields) (hw : w.Stands may)
    (h : (env.exportSchema depth (.object fields unknown)).runIn w = (.ok d, w'))
    (hlast : w'.Recalls last) :
    (∃ ks, .required ks ∈ d ∧ k ∈ ks) ↔ field.Refuses last.standing := by
  cases depth with
  | zero => cases h
  | succ depth =>
      obtain ⟨documents, w₁, hdocuments, h⟩ := Act.runIn_bind_ok_iff.mp h
      obtain ⟨keys, w₂, hrequired, h⟩ := Act.runIn_bind_ok_iff.mp h
      cases h
      have hw₁ := (Setting.keeps_exportFields (stands_exportSchema henv depth) fields).of_run
        hdocuments hw
      rw [← objectDocument, mem_required_objectDocument_iff,
        mem_requiredKeys_iff henv hmay hstocked hw₁ hrequired hlast]
      constructor
      · rintro ⟨t, ht, hrefuses⟩
        rwa [eq_of_mem_fields hkeys hfield ht]
      · exact fun hrefuses => ⟨field, hfield, hrefuses⟩

end Exports

/-! ## The record model -/

namespace Setting

section Keeps

variable {I : World σ → Prop}

theorem keeps_typeEach {child : Schema → Act σ FieldType} (h : ∀ s, (child s).Keeps I)
    (ss : List Schema) : (typeEach child ss).Keeps I := by
  induction ss with
  | nil => exact fun _ hw => hw
  | cons s ss ih => exact .bind (h s) fun _ => .bind ih fun _ _ hw => hw

theorem keeps_fieldsOfModel {β : Type} (fields : List (Key × β)) :
    (env.fieldsOfModel fields).Keeps I := by
  unfold fieldsOfModel
  split <;> exact fun _ hw => hw

/-- Making a record model keeps what the host keeps. -/
theorem keeps_recordModel (henv : env.Keeps I) (depth : Nat) :
    (∀ name s, (env.fieldType depth name s).Keeps I) ∧
      (∀ name s, (env.fieldEntry depth name s).Keeps I) ∧
      ∀ name fields, (env.modelFields depth name fields).Keeps I := by
  induction depth with
  | zero => exact ⟨fun _ _ _ hw => hw, fun _ _ _ hw => hw, fun _ _ _ hw => hw⟩
  | succ depth ih =>
      obtain ⟨htype, hentry, hfields⟩ := ih
      have hnow : ∀ name s, (env.fieldType (depth + 1) name s).Keeps I := by
        intro name s
        cases s with
        | array element bounds => exact .bind (htype _ element) fun _ _ hw => hw
        | object fields unknown =>
            exact .bind (hfields name fields) fun rows => .bind (keeps_fieldsOfModel rows)
              fun _ _ hw => hw
        | union first rest => exact .bind (keeps_typeEach (htype name) _) fun _ _ hw => hw
        | nullable inner => exact .bind (htype name inner) fun _ _ hw => hw
        | optional inner => exact .bind (htype name inner) fun _ _ hw => hw
        | withDefault inner default => exact htype name inner
        | refine inner id words code => exact htype name inner
        | _ => exact fun _ hw => hw
      refine ⟨hnow, fun name s => ?_, fun name fields => ?_⟩
      · cases s with
        | optional inner => exact .bind (htype name inner) fun _ _ hw => hw
        | withDefault inner default => exact .bind (htype name inner) fun _ _ hw => hw
        | nullable inner =>
            refine .bind (keeps_acceptsMissing henv depth inner) fun accepted => ?_
            cases accepted with
            | true => exact .bind (hentry name inner) fun _ _ hw => hw
            | false => exact .bind (htype name _) fun _ _ hw => hw
        | _ => exact .bind (htype name _) fun _ _ hw => hw
      · cases fields with
        | nil => exact fun _ hw => hw
        | cons f fields =>
            exact .bind (fun _ hw => hw) fun nested => .bind (hentry nested f.2) fun _ =>
              .bind (hfields name fields) fun _ _ hw => hw

end Keeps

end Setting

/-- A schema whose form keeps the record model from seeing whether it accepts an absent
value. -/
def Schema.hidesAbsence : Schema → Bool
  | .union _ _ | .intersection _ _ | .transform _ _ | .refine _ _ _ _ | .deferred _ => true
  | _ => false

section Models

variable {name : String} {k : Key}

theorem Schema.refuses_nullable_iff {table : Nat → Option Schema} {inner : Schema} :
    Schema.Refuses table (.nullable inner) ↔ inner.Refuses table := by
  refine ⟨fun h => ?_, .nullable⟩
  cases h with
  | single h => cases h
  | nullable h => exact h

/-- The entry of a field in the model has no default exactly if the field refuses an absent
value, or hides that it accepts one. -/
theorem defaultless_iff_refuses (henv : env.Upholds may) (hmay : ∀ id t, may id t → t.Stocked)
    {s : Schema} {type : FieldType} {default : Option Value} (hs : s.Stocked) (hw : w.Stands may)
    (h : (env.fieldEntry depth name s).runIn w = (.ok (type, default), w'))
    (hlast : w'.Recalls last) :
    default = none ↔ s.Refuses last.standing ∨ s.hidesAbsence = true := by
  cases depth with
  | zero => cases h
  | succ depth =>
      -- all but three kinds of schemas get no default, whatever their type is
      have hnone : ∀ act : Act σ FieldType,
          (act >>= fun t => pure (t, none)).runIn w = (.ok (type, default), w') →
          (s.Refuses last.standing ∨ s.hidesAbsence = true) →
          (default = none ↔ s.Refuses last.standing ∨ s.hidesAbsence = true) := by
        intro act hact hright
        obtain ⟨t, w₁, -, hact⟩ := Act.runIn_bind_ok_iff.mp hact
        cases hact
        simp [hright]
      cases s with
      | optional inner =>
          obtain ⟨t, w₁, -, h⟩ := Act.runIn_bind_ok_iff.mp h
          cases h
          simp [Schema.hidesAbsence, Schema.Accepts.optional.not_refuses_self]
      | withDefault inner value =>
          obtain ⟨t, w₁, -, h⟩ := Act.runIn_bind_ok_iff.mp h
          cases h
          simp [Schema.hidesAbsence, Schema.Accepts.withDefault.not_refuses_self]
      | nullable inner =>
          obtain ⟨accepted, w₁, hflag, h⟩ := Act.runIn_bind_ok_iff.mp h
          have hinner : w₁.Recalls w' → (accepted = false ↔ inner.Refuses last.standing) :=
            fun hrecalls => flag_iff_refuses henv hmay (hs.of_passes .nullable) hw hflag
              (hrecalls.trans hlast)
          rw [Schema.refuses_nullable_iff]
          cases accepted with
          | true =>
              obtain ⟨entry, w₂, hentry, h⟩ := Act.runIn_bind_ok_iff.mp h
              cases h
              have hrecalls := recalls_of_keeps (fun id t =>
                (Setting.keeps_recordModel (henv.remembers id t) depth).2.1 name inner) hentry
              simp [Schema.hidesAbsence, ← hinner hrecalls]
          | false =>
              obtain ⟨t, w₂, htype, h⟩ := Act.runIn_bind_ok_iff.mp h
              cases h
              have hrecalls := recalls_of_keeps (fun id t =>
                (Setting.keeps_recordModel (henv.remembers id t) depth).1 name _) htype
              simp [Schema.hidesAbsence, ← hinner hrecalls]
      | any => cases hs _ .refl
      | enumeration first rest =>
          have htakes := hs _ .refl
          exact hnone _ h (.inl (.single (by
            simpa [Schema.asksForValue, Schema.takesMissing] using htakes)))
      | union first rest => exact hnone _ h (.inr rfl)
      | intersection first rest => exact hnone _ h (.inr rfl)
      | transform inner step => exact hnone _ h (.inr rfl)
      | refine inner id words code => exact hnone _ h (.inr rfl)
      | deferred id => exact hnone _ h (.inr rfl)
      | _ => exact hnone _ h (.inl (.single rfl))

/-- The rows of a model are those of the fields, in their order. -/
theorem rows_of_modelFields (henv : env.Upholds may) (hmay : ∀ id t, may id t → t.Stocked)
    {fields : Entries Schema} {rows : List (Key × FieldType × Option Value)}
    (hstocked : ∀ f ∈ fields, f.2.Stocked) (hw : w.Stands may)
    (h : (env.modelFields depth name fields).runIn w = (.ok rows, w')) (hlast : w'.Recalls last) :
    List.Forall₂ (fun f row => row.1 = f.1 ∧
      (row.2.2 = none ↔ f.2.Refuses last.standing ∨ f.2.hidesAbsence = true)) fields rows := by
  induction depth generalizing fields rows w with
  | zero => cases h
  | succ depth ih =>
      cases fields with
      | nil =>
          cases h
          exact .nil
      | cons f fields =>
          obtain ⟨k, s⟩ := f
          obtain ⟨nested, w₀, hnested, hrow⟩ := Act.runIn_bind_ok_iff.mp h
          rw [Act.runIn_ofExcept] at hnested
          obtain ⟨-, rfl⟩ := Prod.mk.inj hnested
          obtain ⟨⟨type, default⟩, w₁, hentry, hrow⟩ := Act.runIn_bind_ok_iff.mp hrow
          obtain ⟨rest, w₂, hrest, hrow⟩ := Act.runIn_bind_ok_iff.mp hrow
          cases hrow
          have hstands : w₁.Stands may :=
            ((Setting.keeps_recordModel henv.stands depth).2.1 _ s).of_run hentry hw
          have hrecalls : w₁.Recalls w' := recalls_of_keeps (fun id t =>
            (Setting.keeps_recordModel (henv.remembers id t) depth).2.2 name fields) hrest
          have hmore : ∀ f ∈ fields, f.2.Stocked :=
            fun f hf => hstocked f (List.mem_cons_of_mem _ hf)
          refine .cons ⟨rfl, ?_⟩ (ih hmore hstands hrest)
          exact defaultless_iff_refuses henv hmay (hstocked _ List.mem_cons_self) hw hentry
            (hrecalls.trans hlast)

/-- The row of each field is the entry that was made of it. -/
theorem entries_of_modelFields {fields : Entries Schema}
    {rows : List (Key × FieldType × Option Value)}
    (h : (env.modelFields depth name fields).runIn w = (.ok rows, w')) :
    List.Forall₂ (fun f row => row.1 = f.1 ∧ ∃ depth name w₁ w₂,
      (env.fieldEntry depth name f.2).runIn w₁ = (.ok row.2, w₂)) fields rows := by
  induction depth generalizing fields rows w with
  | zero => cases h
  | succ depth ih =>
      cases fields with
      | nil =>
          cases h
          exact .nil
      | cons f fields =>
          obtain ⟨nested, w₀, -, h⟩ := Act.runIn_bind_ok_iff.mp h
          obtain ⟨entry, w₁, hentry, h⟩ := Act.runIn_bind_ok_iff.mp h
          obtain ⟨rest, w₂, hrest, h⟩ := Act.runIn_bind_ok_iff.mp h
          cases h
          exact .cons ⟨rfl, _, _, _, _, hentry⟩ (ih hrest)

/-- A key that is a name keeps its row. -/
theorem mem_namedFields_iff {β : Type} {rows : List (Key × β)} {named : List (String × β)}
    (h : Setting.namedFields rows = .ok named) {n : String} {b : β} :
    (n, b) ∈ named ↔ (.text n, b) ∈ rows := by
  induction rows generalizing named with
  | nil =>
      cases h
      simp
  | cons row rows ih =>
      obtain ⟨k, b'⟩ := row
      rw [Setting.namedFields, List.mapM_cons] at h
      simp only [bind, Except.bind] at h
      split at h
      · cases h
      · rename_i first hfirst
        split at hfirst
        · cases hfirst
          split at h
          · cases h
          · rename_i rest hrest
            cases h
            simp [ih hrest]
        · cases hfirst

/-- The fields of a model are the rows at keys that are names of fields. -/
theorem mem_iff_of_fieldsOfModel {β : Type} {rows : List (Key × β)} {named : List (String × β)}
    (h : (env.fieldsOfModel rows).runIn w = (.ok named, w')) (n : String) (b : β) :
    (n, b) ∈ named ↔ env.isFieldName n = true ∧ (.text n, b) ∈ rows := by
  unfold Setting.fieldsOfModel at h
  split at h
  · rename_i all hall
    cases h
    rw [List.mem_filter, mem_namedFields_iff hall, and_comm]
  · cases h

/-- What a record model has for a name is the row of that key. -/
theorem mem_fields_iff_of_recordModel {fields : Entries Schema} {unknown : UnknownKeys}
    {m : RecordModel} (h : (env.recordModel depth name (.schema (.object fields unknown))).runIn w =
      (.ok m, w')) :
    ∃ rows, (env.modelFields depth name fields).runIn w = (.ok rows, w') ∧
      ∀ n field, (n, field) ∈ m.fields ↔
        env.isFieldName n = true ∧ (.text n, field) ∈ rows := by
  obtain ⟨rows, w₁, hrows, h⟩ := Act.runIn_bind_ok_iff.mp h
  obtain ⟨named, w₂, hnamed, h⟩ := Act.runIn_bind_ok_iff.mp h
  cases h
  have hmem := mem_iff_of_fieldsOfModel hnamed
  unfold Setting.fieldsOfModel at hnamed
  split at hnamed
  · cases hnamed
    exact ⟨rows, hrows, hmem⟩
  · cases hnamed

end Models

/-! ## All three -/

/-- How the library that makes models takes names: those with an underscore in front are
private, one configures the model, and all others are names of fields. -/
def Setting.FollowsNaming (env : Setting σ) : Prop :=
  ∀ n, n.toList.head? ≠ some '_' → n ≠ "model_config" → env.isFieldName n = true

/-- **The check, the export and the record model agree on which fields are required**, as far
as the model sees it. For an object of the library's schemas and a key of it, three things are
the same: the check of a mapping that is without the key says that it is missing; the export
lists it as required; its field refuses an absent value. The field of that name in the model has
no default in the same case, and also if its form hides from the model that it accepts an absent
value. A mapping is without a key if callbacks do not put it there either while the mapping is
checked; that the key is missing is never said of another field.

The three may be run in any order and in different worlds, if in the end there is one that
recalls what deferred schemas have been built as. -/
theorem required_in_check_export_and_model (env : Setting σ) (may : Nat → Schema → Prop)
    (henv : env.Upholds may) (hmay : ∀ id t, may id t → t.Stocked) (fields : Entries Schema)
    (unknown : UnknownKeys) (hstocked : ∀ f ∈ fields, f.2.Stocked) (hkeys : fields.keys.Nodup)
    (k : Key) (field : Schema) (hfield : (k, field) ∈ fields) (last : World σ) :
    (∀ mode depth v r c w w', w.Stands may → w'.Recalls last →
      (w.store.entries? v).isNone = false →
      (check env mode depth (.object fields unknown) v).runIn {} w = (.ok r, c, w') →
      ((∃ e ∈ c.errors, e.TellsMissing [] k) → field.Refuses last.standing) ∧
      ((∀ w₁, env.After w w₁ → (w₁.store.entriesOf v).find? k = none) →
        field.Refuses last.standing → ∃ e ∈ c.errors, e.TellsMissing [] k)) ∧
    (∀ depth d w w', w.Stands may → w'.Recalls last →
      (env.exportSchema depth (.object fields unknown)).runIn w = (.ok d, w') →
      ((∃ ks, .required ks ∈ d ∧ k ∈ ks) ↔ field.Refuses last.standing)) ∧
    ∀ depth name m w w', w.Stands may → w'.Recalls last →
      (env.recordModel depth name (.schema (.object fields unknown))).runIn w = (.ok m, w') →
      ∀ n, k = .text n →
        (env.FollowsNaming → n.toList.head? ≠ some '_' → n ≠ "model_config" →
          ∃ type default, (n, type, default) ∈ m.fields) ∧
        ∀ type default, (n, type, default) ∈ m.fields →
          (default = none ↔ field.Refuses last.standing ∨ field.hidesAbsence = true) := by
  refine ⟨fun mode depth v r c w w' hw hlast hobject hcheck => ?_,
    fun depth d w w' hw hlast hexport => ?_, fun depth name m w w' hw hlast hmodel n hn => ?_⟩
  · exact reported_iff_refuses henv hmay hstocked hkeys hfield hobject hw hcheck hlast
  · exact listed_iff_refuses henv hmay hstocked hkeys hfield hw hexport hlast
  · subst hn
    obtain ⟨rows, hrows, hmem⟩ := mem_fields_iff_of_recordModel hmodel
    have hrow := rows_of_modelFields henv hmay hstocked hw hrows hlast
    refine ⟨fun hnames hprivate hconfig => ?_, fun type default hin => ?_⟩
    · obtain ⟨⟨l, type, default⟩, hin, hl, -⟩ := exists_right_of_mem hrow hfield
      obtain rfl : l = .text n := hl
      exact ⟨type, default, (hmem n _).mpr ⟨hnames n hprivate hconfig, hin⟩⟩
    · obtain ⟨⟨l, other⟩, hother, hl, hdefault⟩ :=
        exists_right_of_mem hrow.flip ((hmem n _).mp hin).2
      obtain rfl : .text n = l := hl
      rwa [eq_of_mem_fields hkeys hfield hother]

/-- An account has a name, and a nickname that may be left out and is asked about. -/
def account : Schema :=
  .object [(.text "name", .string {}),
    (.text "nickname", .refine (.optional (.string {})) 0 none (.custom "taken"))] .strip

theorem upholds_idleHost : idleHost.Upholds fun _ _ => False where
  remembers _ _ := keeps_idleHost _
  stands := keeps_idleHost _

/-- All three require the name of an account. -/
theorem required_in_check_export_and_model_name :
    ∃ c d m w, (check idleHost .immediate 8 account (.mapping false [])).runIn {}
        { host := () } = (.ok .invalid, c, w) ∧
      (idleHost.exportSchema 8 account).runIn { host := () } = (.ok d, w) ∧
      (idleHost.recordModel 8 "Account" (.schema account)).runIn { host := () } = (.ok m, w) ∧
      (∃ e ∈ c.errors, e.TellsMissing [] (.text "name")) ∧
      (∃ ks, .required ks ∈ d ∧ .text "name" ∈ ks) ∧
      ∃ type, ("name", type, none) ∈ m.fields := by
  have hstocked : ∀ f ∈ [(Key.text "name", Schema.string {}),
      (.text "nickname", .refine (.optional (.string {})) 0 none (.custom "taken"))],
      f.2.Stocked := by
    have hstring : (Schema.string {}).Stocked := .of_parts rfl (by rintro t (h | h) <;> cases h)
    simp only [List.mem_cons, List.not_mem_nil, or_false, forall_eq_or_imp, forall_eq]
    refine ⟨hstring, .of_parts rfl ?_⟩
    rintro t (h | h) <;> cases h
    refine .of_parts rfl ?_
    rintro t (h | h) <;> cases h
    exact hstring
  obtain ⟨hchecked, hexported, hmodelled⟩ := required_in_check_export_and_model idleHost
    (fun _ _ => False) upholds_idleHost (fun _ _ h => h.elim) _ .strip hstocked
    (by simp [Entries.keys]) (.text "name") (.string {}) List.mem_cons_self { host := () }
  have hrefuses : Schema.Refuses (World.standing { host := () }) (.string {}) := .single rfl
  have hstands : World.Stands (fun _ _ => False) { host := () } := by
    simp [World.Stands, World.standing]
  have hrecalls : World.Recalls { host := () } { host := () } := fun _ _ h => h
  obtain ⟨hnamed, hdefaultless⟩ :=
    hmodelled 8 "Account" _ _ _ hstands hrecalls rfl "name" rfl
  obtain ⟨type, default, hin⟩ := hnamed (fun _ _ _ => rfl) (by decide) (by decide)
  obtain rfl := (hdefaultless type default hin).mpr (.inl hrefuses)
  exact ⟨_, _, _, _, rfl, rfl, rfl,
    (hchecked .immediate 8 (.mapping false []) .invalid _ _ _ hstands hrecalls rfl rfl).2
      (fun _ _ => rfl) hrefuses,
    (hexported 8 _ _ _ hstands hrecalls rfl).mpr hrefuses, type, hin⟩

/-- An account without a nickname is accepted and the export lists no nickname as required,
but the model has no default for it: the predicate hides from it that the text inside may be
left out. -/
theorem nickname_required_by_model_only :
    ∃ r c d m w type, (check idleHost .immediate 8 account
        (.mapping false [(.text "name", .text "Ann")])).runIn {} { host := () } = (.ok r, c, w) ∧
      (idleHost.exportSchema 8 account).runIn { host := () } = (.ok d, w) ∧
      (idleHost.recordModel 8 "Account" (.schema account)).runIn { host := () } = (.ok m, w) ∧
      (¬ ∃ e ∈ c.errors, e.TellsMissing [] (.text "nickname")) ∧
      (¬ ∃ ks, .required ks ∈ d ∧ .text "nickname" ∈ ks) ∧
      ("nickname", type, none) ∈ m.fields := by
  refine ⟨_, {}, _, _, _, _, rfl, rfl, rfl, by simp, ?_, List.mem_cons_of_mem _ List.mem_cons_self⟩
  exact mem_required_objectDocument_iff.not.mpr (by simp)

end Conform
