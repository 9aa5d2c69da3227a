import Conform.Proofs.Admission
import Conform.Proofs.Foretelling

/-!
# How documents come about

The export of a schema calls no step and no predicate. It resolves deferred schemas, and
asks the flag of the fields of an object whether they accept an absent value. So what the
deferred schemas stand for tells the document: `Schema.Exports` says which documents a
schema may be exported as, one constructor for each kind of schema.

A deferred schema that is being exported already is exported as the empty document. There
are finitely many deferred schemas, and each time one is looked into there is one less
that is not being exported. So the export ends, as long as the flags do.

## Main results

* `Act.Law.exportSchema` — a law of acts holds of exports.
* `keeps_exportSchema` — so the export keeps what the host keeps.
* `exports_of_exportSchema` — every document that is exported is one of those.
* `exportSchema_halts`, `exportSchema_ends` — the export ends, by a document if all deferred
  schemas can be resolved.
-/

namespace Conform

/-! ## Documents of schemas -/

/-- The document of an object, given those of its fields and the keys that are required. -/
def objectDocument (documents : Entries Document) (keys : List Key) (unknown : UnknownKeys) :
    Document :=
  (if keys.isEmpty then [.type "object", .properties documents]
    else [.type "object", .properties documents] ++ [.required keys]) ++
      [.additionalProperties (unknown != .strict)]

/-- A schema is exported as a document, given what the deferred schemas stand for. The keys
that are required are those of fields that refuse an absent value. A deferred schema may
also be cut off. -/
inductive Schema.Exports (table : Nat → Option Schema) : Schema → Document → Prop
  | single {s d} (h : s.ownDocument? = some d) : Exports table s d
  | any : Exports table .any []
  | object {fields : Entries Schema} {unknown ds} {keys : List Key}
      (h : List.Forall₂ (Exports table) (fields.map Prod.snd) ds)
      (hkeys : ∀ k ∈ keys, ∃ t, (k, t) ∈ fields ∧ t.Refuses table) :
      Exports table (.object fields unknown) (objectDocument (fields.keys.zip ds) keys unknown)
  | array {element bounds d} (h : Exports table element d) :
      Exports table (.array element bounds) (bounds.document d)
  | union {first rest ds} (h : List.Forall₂ (Exports table) (first :: rest) ds) :
      Exports table (.union first rest) [.anyOf ds]
  | intersection {first rest ds} (h : List.Forall₂ (Exports table) (first :: rest) ds) :
      Exports table (.intersection first rest) [.allOf ds]
  | optional {inner d} (h : Exports table inner d) : Exports table (.optional inner) d
  | nullable {inner d} (h : Exports table inner d) :
      Exports table (.nullable inner) [.anyOf [d, [.type "null"]]]
  | withDefault {inner default d} (h : Exports table inner d) :
      Exports table (.withDefault inner default) (d.put (.default default))
  | transform {inner step d} (h : Exports table inner d) : Exports table (.transform inner step) d
  | refine {inner id words code d} (h : Exports table inner d) :
      Exports table (.refine inner id words code) d
  | cut {id} : Exports table (.deferred id) []
  | deferred {id s d} (htable : table id = some s) (h : Exports table s d) :
      Exports table (.deferred id) d

/-! ## Laws of exports -/

/-- Fields are exported as their schemas are. -/
theorem Setting.exportFields_eq {σ : Type} (child : Schema → Act σ Document)
    (fields : Entries Schema) :
    exportFields child fields =
      exportAll child (fields.map Prod.snd) >>= fun ds => pure (fields.keys.zip ds) := by
  induction fields with
  | nil => rfl
  | cons e fields ih => simp [exportFields, exportAll, ih]

namespace Act.Law

variable {σ : Type} (L : Act.Law σ) {env : Setting σ}

theorem exportAll {child : Schema → Act σ Document} (h : ∀ s, L.holds (child s))
    (ss : List Schema) : L.holds (Setting.exportAll child ss) := by
  induction ss with
  | nil => exact L.pure []
  | cons s ss ih => exact L.bind (h s) fun d => L.bind ih fun ds => L.pure (d :: ds)

theorem exportFields {child : Schema → Act σ Document} (h : ∀ s, L.holds (child s))
    (fields : Entries Schema) : L.holds (Setting.exportFields child fields) := by
  rw [Setting.exportFields_eq]
  exact L.bind (L.exportAll h _) fun ds => L.pure _

theorem requiredKeys {accepts : Schema → Act σ Bool} (h : ∀ s, L.holds (accepts s))
    (fields : Entries Schema) : L.holds (Setting.requiredKeys accepts fields) := by
  induction fields with
  | nil => exact L.pure []
  | cons e fields ih => exact L.bind (h e.2) fun accepted => L.bind ih fun keys => L.pure _

/-- The law holds of every export if it holds of resolving deferred schemas, and keeps holding when
something is done while a deferred schema is being exported. -/
theorem exportSchema (hresolve : ∀ id, L.holds (env.resolve id))
    (hdeferred : ∀ id (act : Act σ Document), L.holds act →
      L.holds (get >>= fun w : World σ =>
        if w.exporting.contains id then Pure.pure [] else Setting.whileExporting id act))
    (depth : Nat) (s : Schema) : L.holds (env.exportSchema depth s) := by
  induction depth generalizing s with
  | zero => exact L.throw .exhausted
  | succ depth ih =>
      cases s with
      | object fields unknown =>
          exact L.bind (L.exportFields ih fields) fun documents =>
            L.bind (L.requiredKeys (L.acceptsMissing hresolve depth) fields) fun keys => L.pure _
      | array element bounds => exact L.bind (ih element) fun d => L.pure _
      | union first rest => exact L.bind (L.exportAll ih (first :: rest)) fun ds => L.pure _
      | intersection first rest => exact L.bind (L.exportAll ih (first :: rest)) fun ds => L.pure _
      | optional inner => exact ih inner
      | nullable inner => exact L.bind (ih inner) fun d => L.pure _
      | withDefault inner default => exact L.bind (ih inner) fun d => L.pure _
      | transform inner step => exact ih inner
      | refine inner id words code => exact ih inner
      | deferred id => exact hdeferred id _ (L.bind (hresolve id) ih)
      | _ => exact L.pure _

end Act.Law

/-! ## Worlds -/

namespace Setting

section Keeps

variable {σ : Type} {env : Setting σ} {I : World σ → Prop}

theorem keeps_exportAll {child : Schema → Act σ Document} (h : ∀ s, (child s).Keeps I)
    (ss : List Schema) : (exportAll child ss).Keeps I :=
  (Act.Law.keeping I).exportAll h ss

theorem keeps_exportFields {child : Schema → Act σ Document} (h : ∀ s, (child s).Keeps I)
    (fields : Entries Schema) : (exportFields child fields).Keeps I :=
  (Act.Law.keeping I).exportFields h fields

theorem keeps_requiredKeys {accepts : Schema → Act σ Bool} (h : ∀ s, (accepts s).Keeps I)
    (fields : Entries Schema) : (requiredKeys accepts fields).Keeps I :=
  (Act.Law.keeping I).requiredKeys h fields

theorem runIn_whileExporting {α : Type} (id : Nat) (act : Act σ α) (w : World σ) :
    (whileExporting id act).runIn w =
      ((act.runIn { w with exporting := id :: w.exporting }).1,
        { (act.runIn { w with exporting := id :: w.exporting }).2 with
          exporting := w.exporting }) := rfl

/-- What is done unless a deferred schema is being exported. -/
theorem runIn_unlessExporting (id : Nat) (act : Act σ Document) (w : World σ) :
    (get >>= fun w' : World σ => if w'.exporting.contains id then (pure [] : Act σ Document)
      else act).runIn w = if w.exporting.contains id then (.ok [], w) else act.runIn w := by
  rw [Act.runIn_bind]
  show (if w.exporting.contains id then (pure [] : Act σ Document) else act).runIn w = _
  split <;> rfl

theorem runIn_exportSchema_deferred (env : Setting σ) (depth id : Nat) (w : World σ) :
    (env.exportSchema (depth + 1) (.deferred id)).runIn w =
      if w.exporting.contains id then (.ok [], w)
      else (whileExporting id (env.resolve id >>= env.exportSchema depth)).runIn w :=
  runIn_unlessExporting id _ w

/-- The export keeps what the host keeps, if to say what is being exported keeps that too. -/
theorem keeps_exportSchema_of_whileExporting (henv : env.Keeps I)
    (hwhile : ∀ id (act : Act σ Document), act.Keeps I → (whileExporting id act).Keeps I)
    (depth : Nat) (s : Schema) : (env.exportSchema depth s).Keeps I := by
  refine (Act.Law.keeping I).exportSchema henv.resolve (fun id act hact w hw => ?_) depth s
  rw [runIn_unlessExporting]
  split
  · exact hw
  · exact hwhile id act hact w hw

/-- The export keeps what the host keeps, if it does not tell what is being exported. -/
theorem keeps_exportSchema (henv : env.Keeps I)
    (hexporting : ∀ w ids, I w → I { w with exporting := ids }) (depth : Nat) (s : Schema) :
    (env.exportSchema depth s).Keeps I :=
  keeps_exportSchema_of_whileExporting henv
    (fun id _ hact w hw => hexporting _ w.exporting (hact _ (hexporting w (id :: w.exporting) hw)))
    depth s

/-- However the export ends, the same deferred schemas are being exported as before. -/
theorem keeps_exporting_exportSchema {E : List Nat} (henv : env.Keeps fun w => w.exporting = E)
    (depth : Nat) (s : Schema) : (env.exportSchema depth s).Keeps fun w => w.exporting = E :=
  keeps_exportSchema_of_whileExporting henv (fun _ _ _ _ hw => hw) depth s

end Keeps

end Setting

/-! ## Documents that are exported -/

section Runs

variable {σ : Type} {env : Setting σ} {may : Nat → Schema → Prop}
  {depth : Nat} {w w' last : World σ}

theorem recalls_of_keeps {α : Type} {act : Act σ α} {r : Except Fault α}
    (h : ∀ id t, act.Keeps fun w => w.standing id = some t) (hrun : act.runIn w = (r, w')) :
    w.Recalls w' :=
  fun id t => (h id t).of_run hrun

/-- Exporting one schema, or a loop over several, leaves what has been built. -/
theorem remembers_exportSchema (henv : env.Upholds may) (depth : Nat) (s : Schema) (id : Nat)
    (t : Schema) : (env.exportSchema depth s).Keeps fun w => w.standing id = some t :=
  Setting.keeps_exportSchema (henv.remembers id t) (fun _ _ hw => hw) depth s

theorem stands_exportSchema (henv : env.Upholds may) (depth : Nat) (s : Schema) :
    (env.exportSchema depth s).Keeps (World.Stands may) :=
  Setting.keeps_exportSchema henv.stands (fun _ _ hw => hw) depth s

theorem exports_of_exportAll (henv : env.Upholds may) {ss : List Schema} {ds : List Document}
    (hss : ∀ s ∈ ss, ∀ w d w', w.Stands may → (env.exportSchema depth s).runIn w = (.ok d, w') →
      w'.Recalls last → s.Exports last.standing d)
    (hw : w.Stands may) (h : (Setting.exportAll (env.exportSchema depth) ss).runIn w = (.ok ds, w'))
    (hlast : w'.Recalls last) : List.Forall₂ (Schema.Exports last.standing) ss ds := by
  induction ss generalizing w ds with
  | nil =>
      cases h
      exact .nil
  | cons s ss ih =>
      obtain ⟨d, w₁, hfirst, h⟩ := Act.runIn_bind_ok_iff.mp h
      obtain ⟨ds, w₂, hrest, h⟩ := Act.runIn_bind_ok_iff.mp h
      cases h
      have hrecalls : w₁.Recalls w' := recalls_of_keeps
        (fun id t => Setting.keeps_exportAll (remembers_exportSchema henv depth · id t) ss) hrest
      refine .cons (hss s List.mem_cons_self w d w₁ hw hfirst (hrecalls.trans hlast)) ?_
      exact ih (fun t ht => hss t (List.mem_cons_of_mem _ ht))
        ((stands_exportSchema henv depth s).of_run hfirst hw) hrest

/-- The flag says no of what refuses an absent value, given what the deferred schemas stand
for in a world that recalls what had been built. -/
theorem flag_iff_refuses (henv : env.Upholds may) (hmay : ∀ id t, may id t → t.Stocked)
    {s : Schema} {accepted : Bool} (hs : s.Stocked) (hw : w.Stands may)
    (h : (env.acceptsMissing depth s).runIn w = (.ok accepted, w')) (hlast : w'.Recalls last) :
    accepted = false ↔ s.Refuses last.standing := by
  obtain ⟨-, hdecides⟩ := decides_of_acceptsMissing henv.builds hw h
  cases accepted with
  | true =>
      have haccepts : s.Accepts last.standing := Schema.Accepts.mono hdecides hlast
      simpa using haccepts.not_refuses_self
  | false => simpa using (hdecides hs hmay).mono hlast

/-- The keys that are required are those of the fields that refuse an absent value. -/
theorem mem_requiredKeys_iff (henv : env.Upholds may) (hmay : ∀ id t, may id t → t.Stocked)
    {fields : Entries Schema} {keys : List Key} {k : Key} (hstocked : ∀ f ∈ fields, f.2.Stocked)
    (hw : w.Stands may)
    (h : (Setting.requiredKeys (env.acceptsMissing depth) fields).runIn w = (.ok keys, w'))
    (hlast : w'.Recalls last) :
    k ∈ keys ↔ ∃ t, (k, t) ∈ fields ∧ t.Refuses last.standing := by
  induction fields generalizing w keys with
  | nil =>
      cases h
      simp
  | cons e fields ih =>
      obtain ⟨l, s⟩ := e
      obtain ⟨accepted, w₁, hflag, h⟩ := Act.runIn_bind_ok_iff.mp h
      obtain ⟨rest, w₂, hrest, h⟩ := Act.runIn_bind_ok_iff.mp h
      cases h
      obtain ⟨hto, -⟩ := decides_of_acceptsMissing henv.builds hw hflag
      have hmore := ih (fun e he => hstocked e (List.mem_cons_of_mem _ he))
        (hto.stands henv.builds hw) hrest
      have hrecalls : w₁.Recalls w' := recalls_of_keeps (fun id t => Setting.keeps_requiredKeys
        (keeps_acceptsMissing (henv.remembers id t) depth) fields) hrest
      have hfirst := flag_iff_refuses henv hmay (hstocked _ List.mem_cons_self) hw hflag
        (hrecalls.trans hlast)
      have hhere : (∃ t, (k, t) ∈ (l, s) :: fields ∧ t.Refuses last.standing) ↔
          k = l ∧ accepted = false ∨ k ∈ rest := by
        rw [hmore, hfirst]
        simp only [List.mem_cons, Prod.mk.injEq]
        constructor
        · rintro ⟨t, ⟨rfl, rfl⟩ | ht, hrefuses⟩
          · exact .inl ⟨rfl, hrefuses⟩
          · exact .inr ⟨t, ht, hrefuses⟩
        · rintro (⟨rfl, hrefuses⟩ | ⟨t, ht, hrefuses⟩)
          · exact ⟨s, .inl ⟨rfl, rfl⟩, hrefuses⟩
          · exact ⟨t, .inr ht, hrefuses⟩
      rw [hhere]
      cases accepted <;> simp

/-- What the deferred schemas stand for in a world that recalls what has been built when the
export ends tells the document. -/
theorem exports_of_exportSchema (henv : env.Upholds may) (hmay : ∀ id t, may id t → t.Stocked)
    {s : Schema} {d : Document} (hs : s.Stocked) (hw : w.Stands may)
    (h : (env.exportSchema depth s).runIn w = (.ok d, w')) (hlast : w'.Recalls last) :
    s.Exports last.standing d := by
  induction depth generalizing s d w w' with
  | zero => cases h
  | succ depth ih =>
      have hpasses : ∀ t, s.Passes t → ∀ w d w', w.Stands may →
          (env.exportSchema depth t).runIn w = (.ok d, w') → w'.Recalls last →
          t.Exports last.standing d :=
        fun t ht _ _ _ => ih (hs.of_passes ht)
      cases s with
      | any =>
          cases h
          exact .any
      | object fields unknown =>
          obtain ⟨documents, w₁, hdocuments, h⟩ := Act.runIn_bind_ok_iff.mp h
          obtain ⟨keys, w₂, hkeys, h⟩ := Act.runIn_bind_ok_iff.mp h
          cases h
          have hfields : ∀ e ∈ fields, e.2.Stocked :=
            fun e he t ht => hs t (.head (.inr (.field he)) ht)
          have hrecalls : w₁.Recalls w' := recalls_of_keeps (fun id t => Setting.keeps_requiredKeys
            (keeps_acceptsMissing (henv.remembers id t) depth) fields) hkeys
          have hw₁ := (Setting.keeps_exportFields (stands_exportSchema henv depth) fields).of_run
            hdocuments hw
          rw [Setting.exportFields_eq] at hdocuments
          obtain ⟨ds, w₂, hall, hdocuments⟩ := Act.runIn_bind_ok_iff.mp hdocuments
          cases hdocuments
          refine .object (exports_of_exportAll henv (fun t ht => ?_) hw hall
            (hrecalls.trans hlast)) fun k =>
              (mem_requiredKeys_iff henv hmay hfields hw₁ hkeys hlast).mp
          obtain ⟨e, he, rfl⟩ := List.mem_map.mp ht
          exact fun _ _ _ => ih (hfields e he)
      | array element bounds =>
          obtain ⟨d, w₁, helement, h⟩ := Act.runIn_bind_ok_iff.mp h
          cases h
          exact .array (ih (fun t ht => hs t (.head (.inr .element) ht)) hw helement hlast)
      | union first rest =>
          obtain ⟨ds, w₁, hall, h⟩ := Act.runIn_bind_ok_iff.mp h
          cases h
          exact .union
            (exports_of_exportAll henv (fun t ht => hpasses t (.option ht)) hw hall hlast)
      | intersection first rest =>
          obtain ⟨ds, w₁, hall, h⟩ := Act.runIn_bind_ok_iff.mp h
          cases h
          exact .intersection
            (exports_of_exportAll henv (fun t ht => hpasses t (.member ht)) hw hall hlast)
      | optional inner => exact .optional (hpasses inner .optional _ _ _ hw h hlast)
      | nullable inner =>
          obtain ⟨d, w₁, hinner, h⟩ := Act.runIn_bind_ok_iff.mp h
          cases h
          exact .nullable (hpasses inner .nullable _ _ _ hw hinner hlast)
      | withDefault inner default =>
          obtain ⟨d, w₁, hinner, h⟩ := Act.runIn_bind_ok_iff.mp h
          cases h
          exact .withDefault (hpasses inner .withDefault _ _ _ hw hinner hlast)
      | transform inner step => exact .transform (hpasses inner .transform _ _ _ hw h hlast)
      | refine inner id words code => exact .refine (hpasses inner .refine _ _ _ hw h hlast)
      | deferred id =>
          rw [Setting.runIn_exportSchema_deferred] at h
          split at h
          · cases h
            exact .cut
          · rw [Setting.runIn_whileExporting] at h
            obtain ⟨hrun, rfl⟩ := Prod.mk.inj h
            rcases hinside : (env.resolve id >>= env.exportSchema depth).runIn
              { w with exporting := id :: w.exporting } with ⟨r, w₂⟩
            rw [hinside] at hrun hlast
            obtain rfl : r = .ok d := hrun
            obtain ⟨t, w₁, hresolve, hexport⟩ := Act.runIn_bind_ok_iff.mp hinside
            have hto := Resolves.of_run hresolve
            have hw₁ := hto.stands henv.builds hw
            have hbuilt := standing_of_resolve hresolve
            have hrecalls : w₁.Recalls w₂ :=
              recalls_of_keeps (remembers_exportSchema henv depth t) hexport
            have hlast₂ : w₂.Recalls last := hlast
            exact .deferred (hrecalls.trans hlast₂ id t hbuilt)
              (ih (hmay id t (hw₁ id t hbuilt)) hw₁ hexport hlast₂)
      | _ =>
          cases h
          exact .single rfl

end Runs

/-! ## The export ends -/

/-- No part of a schema hands values on endlessly, and the deferred schemas among its parts
are some of finitely many. -/
structure Schema.Exportable (may : Nat → Schema → Prop) (ids : Finset Nat) (s : Schema) : Prop where
  guarded (t : Schema) (h : s.Part t) : t.Guarded may
  deferred (id : Nat) (h : s.Mentions id) : id ∈ ids

theorem Schema.Exportable.of_step {may : Nat → Schema → Prop} {ids : Finset Nat} {s t : Schema}
    (hs : s.Exportable may ids) (h : s.Passes t ∨ s.Guards t) : t.Exportable may ids where
  guarded u hu := hs.guarded u (.head h hu)
  deferred id hid := hs.deferred id (.head h hid)

section Ends

variable {σ : Type} {env : Setting σ} {may : Nat → Schema → Prop} {ids : Finset Nat}
  {I : World σ → Prop} {P : Fault → Prop}

theorem exportAll_halts {child : Nat → Schema → Act σ Document} (ss : List Schema)
    (hss : ∀ s ∈ ss, Act.Halts I P fun depth => child depth s) :
    Act.Halts I P fun depth => Setting.exportAll (child depth) ss := by
  induction ss with
  | nil => exact .pure []
  | cons s ss ih =>
      refine .bind (hss s List.mem_cons_self) fun d => ?_
      exact .bind (ih fun t ht => hss t (List.mem_cons_of_mem _ ht)) fun ds => .pure (d :: ds)

theorem requiredKeys_halts {accepts : Nat → Schema → Act σ Bool} (fields : Entries Schema)
    (hfields : ∀ e ∈ fields, Act.Halts I P fun depth => accepts depth e.2) :
    Act.Halts I P fun depth => Setting.requiredKeys (accepts depth) fields := by
  induction fields with
  | nil => exact .pure []
  | cons e fields ih =>
      refine .bind (hfields e List.mem_cons_self) fun accepted => ?_
      exact .bind (ih fun e he => hfields e (List.mem_cons_of_mem _ he)) fun keys =>
        .pure (if accepted then keys else e.1 :: keys)

/-- The worlds in which some deferred schemas are being exported. -/
def World.Exporting {σ : Type} (may : Nat → Schema → Prop) (E : List Nat) (w : World σ) : Prop :=
  w.Stands may ∧ w.exporting = E

/-- What ends does so also while the same deferred schemas are being exported, if it leaves
them as they are. -/
theorem Act.Halts.exporting {α : Type} {act : Nat → Act σ α} {E : List Nat}
    (h : Act.Halts (World.Stands may) P act)
    (hkeeps : ∀ depth, (act depth).Keeps fun w => w.exporting = E) :
    Act.Halts (World.Exporting may E) P act := by
  rintro w ⟨hw, hexporting⟩
  obtain ⟨r, w', hw', hends, hfault⟩ := h w hw
  obtain ⟨depth, hrun⟩ := hends.exists_eq
  exact ⟨r, w', ⟨hw', (hkeeps depth).of_run hrun hexporting⟩, hends, hfault⟩

/-- A deferred schema that is not being exported yet is exported as what it stands for is
while it is. -/
theorem exportSchema_deferred_halts (henv : env.Builds may)
    (hexporting : ∀ E, env.Keeps fun w => w.exporting = E) {E : List Nat} {id : Nat}
    (hid : id ∉ E) (h : ∀ t, may id t → Act.Halts (World.Exporting may (id :: E))
      (env.FailsToResolve may) fun depth => env.exportSchema depth t) :
    Act.Halts (World.Exporting may E) (env.FailsToResolve may)
      fun depth => env.exportSchema depth (.deferred id) := by
  refine .of_succ ?_
  rintro w ⟨hw, rfl⟩
  have hkeeps : (env.resolve id).Keeps (World.Exporting may (id :: w.exporting)) :=
    fun v hv => ⟨henv.stands id v hv.1, (hexporting _).resolve id v hv.2⟩
  obtain ⟨r, w₁, ⟨hw₁, -⟩, ⟨enough, hends⟩, hfault⟩ := resolve_halts (fun _ hv => hv.1) hkeeps h
    { w with exporting := id :: w.exporting } ⟨hw, rfl⟩
  refine ⟨r, { w₁ with exporting := w.exporting }, ⟨hw₁, rfl⟩, ⟨enough, fun depth hdepth => ?_⟩,
    hfault⟩
  have hrun : (env.resolve id >>= env.exportSchema depth).runIn
      { w with exporting := id :: w.exporting } = (r, w₁) := hends depth hdepth
  refine (Setting.runIn_exportSchema_deferred env depth id w).trans ?_
  have hnot : w.exporting.contains id = false := by simpa using hid
  rw [hnot, if_neg Bool.false_ne_true, Setting.runIn_whileExporting, hrun]

/-- The export of a schema ends, by a fault only if a deferred schema fails to be resolved: by
induction on how many deferred schemas are not being exported, and within one of them on the
schema. -/
theorem exportSchema_halts (henv : env.Builds may)
    (hexporting : ∀ E, env.Keeps fun w => w.exporting = E)
    (hmay : ∀ id ∈ ids, ∀ t, may id t → t.Exportable may ids) (E : List Nat) {s : Schema}
    (hs : s.Exportable may ids) :
    Act.Halts (World.Exporting may E) (env.FailsToResolve may)
      fun depth => env.exportSchema depth s := by
  induction hleft : (ids \ E.toFinset).card using Nat.strong_induction_on generalizing E s with
  | _ left ihLeft =>
      induction hsize : sizeOf s using Nat.strong_induction_on generalizing s with
      | _ size ih =>
          have hpasses : ∀ t, s.Passes t → Act.Halts (World.Exporting may E)
              (env.FailsToResolve may) fun depth => env.exportSchema depth t :=
            fun t ht => ih _ (hsize ▸ Schema.sizeOf_lt_of_passes ht) (hs.of_step (.inl ht)) rfl
          have hguards : ∀ t, s.Guards t → Act.Halts (World.Exporting may E)
              (env.FailsToResolve may) fun depth => env.exportSchema depth t :=
            fun t ht => ih _ (hsize ▸ Schema.sizeOf_lt_of_guards ht) (hs.of_step (.inr ht)) rfl
          cases s with
          | object fields unknown =>
              have hall : Act.Halts (World.Exporting may E) (env.FailsToResolve may) fun depth =>
                  Setting.exportAll (env.exportSchema depth) (fields.map Prod.snd) := by
                refine exportAll_halts _ fun t ht => ?_
                obtain ⟨e, he, rfl⟩ := List.mem_map.mp ht
                exact hguards e.2 (.field he)
              refine .of_succ (.bind ?_ fun documents =>
                .bind (requiredKeys_halts fields fun e he => ?_) fun keys => .pure _)
              · simp only [Setting.exportFields_eq]
                exact .bind hall fun ds => .pure _
              have hflag := acceptsMissing_halts henv
                (hs.guarded e.2 (.single (.inr (.field he))))
              exact hflag.exporting fun depth => keeps_acceptsMissing (hexporting E) depth e.2
          | array element bounds =>
              exact .of_succ (.bind (hguards element .element) fun d => .pure _)
          | union first rest =>
              refine .of_succ (.bind ?_ fun ds => .pure _)
              exact exportAll_halts (first :: rest) fun t ht => hpasses t (.option ht)
          | intersection first rest =>
              refine .of_succ (.bind ?_ fun ds => .pure _)
              exact exportAll_halts (first :: rest) fun t ht => hpasses t (.member ht)
          | optional inner => exact .of_succ (hpasses inner .optional)
          | nullable inner => exact .of_succ (.bind (hpasses inner .nullable) fun d => .pure _)
          | withDefault inner default =>
              exact .of_succ (.bind (hpasses inner .withDefault) fun d => .pure _)
          | transform inner step => exact .of_succ (hpasses inner .transform)
          | refine inner id words code => exact .of_succ (hpasses inner .refine)
          | deferred id =>
              by_cases hid : id ∈ E
              · -- it is exported as the empty document
                refine .of_succ ?_
                rintro w ⟨hw, rfl⟩
                refine ⟨.ok [], w, ⟨hw, rfl⟩, ⟨0, fun depth _ => ?_⟩, nofun⟩
                refine (Setting.runIn_exportSchema_deferred env depth id w).trans ?_
                rw [if_pos (by simpa using hid)]
              · refine exportSchema_deferred_halts henv hexporting hid fun t ht => ?_
                have hids := hs.deferred id .refl
                refine ihLeft _ ?_ (id :: E) (hmay id hids t ht) rfl
                have hmem : id ∈ ids \ E.toFinset :=
                  Finset.mem_sdiff.mpr ⟨hids, by simpa using hid⟩
                rw [← hleft, List.toFinset_cons, Finset.sdiff_insert]
                exact Finset.card_erase_lt_of_mem hmem
          | _ => exact .of_succ (.pure _)

/-- The export of a schema ends by a document, if all deferred schemas can be resolved. -/
theorem exportSchema_ends (henv : env.Builds may) (hgives : env.Furnishes may)
    (hexporting : ∀ E, env.Keeps fun w => w.exporting = E)
    (hmay : ∀ id ∈ ids, ∀ t, may id t → t.Exportable may ids) (E : List Nat) {s : Schema}
    (hs : s.Exportable may ids) :
    Act.Ends (World.Exporting may E) fun depth => env.exportSchema depth s :=
  (exportSchema_halts henv hexporting hmay E hs).ends hgives.not_failsToResolve

end Ends

end Conform
