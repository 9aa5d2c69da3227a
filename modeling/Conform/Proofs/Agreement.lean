import Conform.Proofs.Clearing
import Conform.Proofs.Exporting
import Conform.Proofs.Keeping

/-!
# Documents agree with checks

A schema is read in two ways. A check looks into a value, as deep as the value goes, and the
export makes a document of the schema, in which a deferred schema is cut off where it comes
back to itself. The two never meet: what they have in common is only what the deferred
schemas stand for, and that an object asks the same flag which keys may be left out.

They agree in one direction. What the check finds nothing against the document admits:
by induction on the calls of the check, with one case for each way in which a call clears its
value, and in each of them the document that the schema of the call is exported as. The
document looks at the value handed in, also where a step or a coercion gives another one.
In the other direction they need not agree, for the document leaves out what predicates ask
and what is cut off.

## Main results

* `Call.admits_of_clears` — the document of a schema admits what calls for it clear.
* `admits_of_accepted` — an exported document admits every value that is accepted, and the
  export ends.
-/

namespace Conform

open Traverse

/-! ## Documents of containers -/

section Containers

variable {st : Store} {v : Value}

theorem Store.JsonKind.isMissing_eq (h : st.JsonKind v) : isMissing v = false := by
  cases h with
  | list h => cases v <;> first | rfl | cases h
  | mapping h => cases v <;> first | rfl | cases h
  | _ => rfl

theorem Store.isOfType_object {entries : Entries Value} (h : st.entries? v = some entries) :
    st.isOfType v "object" = true := by
  cases v with
  | atom a => cases h
  | _ => simp [isOfType, h]

theorem Store.isOfType_array {items : List Value} (h : st.items? v = some items) :
    st.isOfType v "array" = true := by
  cases v with
  | atom a => cases h
  | _ => simp [isOfType, h]

/-- The document of an array admits a list whose length is in the bounds and whose elements
the document of the elements admits. -/
theorem admits_arrayDocument {bounds : ArrayBounds} {d : Document} {items : List Value}
    (hitems : st.items? v = some items) (hbounds : violatedBounds bounds items.length = [])
    (h : ∀ u ∈ items, d.admits st u = true) : (bounds.document d).admits st v = true := by
  unfold violatedBounds at hbounds
  simp only [List.append_eq_nil_iff, Option.toList_eq_nil_iff, Option.map_eq_none_iff,
    Option.filter_eq_none_iff] at hbounds
  obtain ⟨⟨hmin, hmax⟩, hlength⟩ := hbounds
  have hbase : Document.admits st [.type "array", .items d] v = true := by
    refine Document.admits_iff.mpr fun k hk => ?_
    rcases List.mem_cons.mp hk with rfl | hk
    · exact Store.isOfType_array hitems
    · obtain rfl := List.mem_singleton.mp hk
      simp only [Keyword.admits, hitems, Option.all_some]
      exact List.all_eq_true.mpr h
  unfold ArrayBounds.document
  refine Document.admits_putOption (Document.admits_putOption (Document.admits_putOption
    (Document.admits_putOption hbase ?_) ?_) ?_) ?_
  · refine Keyword.admits_of_map fun c hc => ⟨by simp [Keyword.name], fun _ => ?_⟩
    simpa [Keyword.admits, hitems] using hmin c hc
  · refine Keyword.admits_of_map fun c hc => ⟨by simp [Keyword.name], fun _ => ?_⟩
    simpa [Keyword.admits, hitems] using hmax c hc
  · refine Keyword.admits_of_map fun c hc => ⟨by simp [Keyword.name], fun _ => ?_⟩
    have hsame : items.length = c.value := by simpa using hlength c hc
    simp [Keyword.admits, hitems, hsame]
  · refine Keyword.admits_of_map fun c hc => ⟨by simp [Keyword.name], fun _ => ?_⟩
    have hsame : items.length = c.value := by simpa using hlength c hc
    simp [Keyword.admits, hitems, hsame]

/-- The document of an object admits a mapping if the documents of the fields admit what
stands at their keys, the keys that are required are there, and, where others are not
allowed, all keys are declared. -/
theorem admits_objectDocument {fields : Entries Schema} {unknown : UnknownKeys}
    {documents : Entries Document} {keys : List Key} {entries : Entries Value}
    (hentries : st.entries? v = some entries) (hdeclared : documents.keys = fields.keys)
    (hdocuments : ∀ e ∈ documents, ∀ u, entries.find? e.1 = some u → e.2.admits st u = true)
    (hkeys : ∀ k ∈ keys, entries.has k = true)
    (hstrict : unknown = .strict → undeclared fields entries = []) :
    (objectDocument documents keys unknown).admits st v = true := by
  have hproperties : (objectDocument documents keys unknown).declared = fields.keys := by
    rw [← hdeclared]
    unfold objectDocument
    split <;> rfl
  refine Document.admits_iff.mpr fun k hk => ?_
  rw [hproperties]
  have hcases : k = .type "object" ∨ k = .properties documents ∨ k = .required keys ∨
      k = .additionalProperties (unknown != .strict) := by
    unfold objectDocument at hk
    split at hk <;> simp at hk <;> tauto
  rcases hcases with rfl | rfl | rfl | rfl
  · exact Store.isOfType_object hentries
  · simpa [Keyword.admits, hentries] using Keyword.propertiesAdmit_iff.mpr hdocuments
  · simpa [Keyword.admits, hentries, List.all_eq_true] using hkeys
  · by_cases hunknown : unknown = .strict
    · have hnone := List.filter_eq_nil_iff.mp (hstrict hunknown)
      simp only [Keyword.admits, hentries, Option.all_some, Bool.or_eq_true]
      refine .inr (List.all_eq_true.mpr fun k hk => ?_)
      obtain ⟨e, he, rfl⟩ := List.mem_map.mp hk
      have hhas : fields.has e.1 = true := by simpa using hnone e he
      simpa [Entries.keys, Entries.has, Function.comp_def] using hhas
    · simp [Keyword.admits, hunknown]

end Containers

/-! ## Schemas that documents can tell -/

/-- Documents can tell what a schema and its parts ask for. -/
def Schema.Documentable (s : Schema) : Prop := ∀ t, s.Part t → t.Documented

namespace Schema.Documentable

variable {s t : Schema}

theorem documented (hs : s.Documentable) : s.Documented := hs s .refl

theorem of_step (hs : s.Documentable) (h : s.Passes t ∨ s.Guards t) : t.Documentable :=
  fun u hu => hs u (.head h hu)

/-- No part of it takes an absent value for one that is there. -/
theorem stocked (hs : s.Documentable) : s.Stocked := by
  intro t ht
  have hdocumented := hs t ht
  cases t with
  | any => exact hdocumented.elim
  | enumeration first rest =>
      refine List.any_eq_false.mpr fun a ha => ?_
      rcases hdocumented a ha with ⟨text, rfl⟩ | hnumber
      · exact nofun
      · cases a <;> cases hnumber <;> exact nofun
  | _ => rfl

end Schema.Documentable

theorem exists_right_of_mem {α β : Type} {R : α → β → Prop} {as : List α} {bs : List β}
    (h : List.Forall₂ R as bs) {a : α} (ha : a ∈ as) : ∃ b ∈ bs, R a b := by
  induction h with
  | nil => cases ha
  | @cons a' b' as bs hfirst _ ih =>
      rcases List.mem_cons.mp ha with rfl | ha
      · exact ⟨b', List.mem_cons_self, hfirst⟩
      · obtain ⟨b, hb, hab⟩ := ih ha
        exact ⟨b, List.mem_cons_of_mem _ hb, hab⟩

/-- The document of a field is that of a schema that is declared at its key. -/
theorem exists_field_of_mem {R : Schema → Document → Prop} {fields : Entries Schema}
    {ds : List Document} (h : List.Forall₂ R (fields.map Prod.snd) ds) {e : Key × Document}
    (he : e ∈ fields.keys.zip ds) : ∃ t, (e.1, t) ∈ fields ∧ R t e.2 := by
  induction fields generalizing ds with
  | nil => cases he
  | cons field fields ih =>
      cases h with
      | cons hfirst hrest =>
          rcases List.mem_cons.mp he with rfl | he
          · exact ⟨field.2, List.mem_cons_self, hfirst⟩
          · obtain ⟨t, ht, hd⟩ := ih hrest he
            exact ⟨t, List.mem_cons_of_mem _ ht, hd⟩

/-! ## Calls on values that documents know -/

section Runs

variable {σ : Type} {env : Setting σ} {mode : Mode} {may : Nat → Schema → Prop}
  {table : Nat → Option Schema} {st : Store} {v : Value}

/-- What the calls of a run on a value have in common: documents can tell their schemas, the
containers of the value are as they were, and the deferred schemas that have been built are as
in a table. -/
structure Call.Legible (env : Setting σ) (mode : Mode) (may : Nat → Schema → Prop)
    (table : Nat → Option Schema) (st : Store) (v : Value) (f : Call σ) : Prop where
  documentable : f.schema.Documentable
  unchanged : st.Unchanged v f.world
  stands : f.world.Stands may
  within (g : Call σ) (h : Reaches env mode f g) : g.world.Within table

namespace Call

variable {f g : Call σ}

theorem Legible.of_makes (henv : env.Upholds may) (hvalue : env.Keeps (st.Unchanged v))
    (hmay : ∀ id t, may id t → t.Documentable) (hf : f.Legible env mode may table st v)
    (h : Makes env mode f g) : g.Legible env mode may table st v where
  documentable := by
    rcases h.schema with hstep | ⟨id, hresolve⟩
    · exact hf.documentable.of_step hstep
    · exact hmay id _ (h.keeps henv.stands hf.stands id _ (standing_of_resolve hresolve))
  unchanged := h.keeps hvalue hf.unchanged
  stands := h.keeps henv.stands hf.stands
  within k hk := hf.within k (.head h hk)

/-- A field that refuses an absent value is cleared only if its key is there. -/
theorem has_of_fieldGives {depth : Nat} {k : Key} {t : Schema} {r : Value}
    (henv : env.Upholds may) (hvalue : env.Keeps (st.Unchanged v))
    (hf : f.Legible env mode may table st v) (hsame : st.references f.value ⊆ st.references v)
    (h : f.FieldGives env mode depth k t r) (hrefuses : t.Refuses table) :
    (st.entriesOf f.value).has k = true := by
  obtain ⟨g, w₁, hg, rfl, hafter, hhanded⟩ := h
  have hentries := (hafter _ hvalue hf.unchanged).entriesOf_eq hsame
  cases hfind : (st.entriesOf f.value).find? k with
  | some u => rw [← Entries.isSome_find?, hfind, Option.isSome_some]
  | none =>
      -- else it would have been asked, and have accepted that its key is not there
      rw [← hentries] at hfind
      have hflag := hhanded.accepted_of_absent hfind
      have hw₁ : w₁.Stands may := hafter _ henv.stands hf.stands
      have haccepts := (decides_of_acceptsMissing henv.builds hw₁ hflag).2
      have hwithin := hf.within g (.single hg.1)
      refine absurd hrefuses (Schema.Accepts.not_refuses haccepts fun id s t hs ht => ?_)
      exact (hwithin id t s ht hs).symm

/-- The document of a schema admits the value that a call for it clears. -/
theorem admits_of_clears (henv : env.Upholds may) (hvalue : env.Keeps (st.Unchanged v))
    (hmay : ∀ id t, may id t → t.Documentable) (hjson : st.Json v) {r : Value} {d : Document}
    (hf : f.Legible env mode may table st v) (hreaches : st.Reaches v f.value)
    (hd : f.schema.Exports table d) (h : f.Clears env mode r) : d.admits st f.value = true := by
  induction f using Call.induct env mode generalizing r d with
  | h f ih =>
  have hsees : ∀ {g u x e}, SeesClear env mode f g u → g.value = x → st.Reaches v x →
      g.schema.Exports table e → e.admits st x = true := by
    rintro g u _ e ⟨hmakes, hclear⟩ rfl hg he
    exact ih g hmakes (hf.of_makes henv hvalue hmay hmakes) hg he hclear
  have hkind := hjson f.value hreaches
  have hsame := Store.references_subset_of_reaches hreaches
  cases clearing_of_clears h with
  | single hjudged =>
      cases hd with
      | single hown => exact Schema.admits_of_judge? hf.documentable.documented hkind hown hjudged
      | any => exact hf.documentable.documented.elim
      | _ => cases hjudged
  | @object _ fields _ w _ _ _ _ _ hobject hafter hstrict hfields hresults hfailed =>
      cases hd with
      | single hown => cases hown
      | @object _ _ ds _ hdocuments hkeys =>
      have hentries := Store.entries?_eq_entriesOf hobject
      rw [hf.unchanged.entries?_eq hsame, hf.unchanged.entriesOf_eq hsame] at hentries
      rw [(hafter _ hvalue hf.unchanged).entriesOf_eq hsame] at hstrict
      have hdeclared : Entries.keys (fields.keys.zip ds) = fields.keys :=
        List.map_fst_zip (by simpa [Entries.keys] using hdocuments.length_eq.le)
      refine admits_objectDocument hentries hdeclared (fun e he u hu => ?_) (fun k hk => ?_) hstrict
      · obtain ⟨t, ht, hexports⟩ := exists_field_of_mem hdocuments he
        obtain ⟨r, g, w₁, hg, rfl, hafter, hhanded⟩ := hfields _ ht
        have hheld := Store.holds_of_entries? hentries hu
        rw [← (hafter _ hvalue hf.unchanged).entriesOf_eq hsame] at hu
        exact hsees hg (hhanded.eq_of_find? hu) (hreaches.tail hheld) hexports
      · obtain ⟨t, ht, hrefuses⟩ := hkeys k hk
        obtain ⟨r, hr⟩ := hfields _ ht
        exact has_of_fieldGives henv hvalue hf hsame hr hrefuses
  | array harray hafter hbounds hall hresults hfailed =>
      cases hd with
      | single hown => cases hown
      | array hd =>
      have hitems := Store.items?_eq_itemsOf harray
      rw [hf.unchanged.items?_eq hsame, hf.unchanged.itemsOf_eq hsame] at hitems
      rw [(hafter _ hvalue hf.unchanged).itemsOf_eq hsame] at hbounds hall
      refine admits_arrayDocument hitems hbounds fun u hu => ?_
      obtain ⟨i, hi, rfl⟩ := List.mem_iff_getElem.mp hu
      obtain ⟨g, r, hg, rfl, hafter, hitem⟩ := hall i hi
      rw [(hafter _ hvalue hf.unchanged).itemsOf_eq hsame, List.getElem?_eq_getElem hi] at hitem
      have hheld := Store.holds_of_items? hitems hu
      exact hsees hg (Option.some.inj hitem).symm (hreaches.tail hheld) hd
  | option hg hschema hgiven =>
      cases hd with
      | single hown => cases hown
      | union hds =>
      obtain ⟨d, hd, hexports⟩ := exists_right_of_mem hds hschema
      exact Document.admits_anyOf_iff.mpr ⟨d, hd, hsees hg hgiven hreaches hexports⟩
  | members hall hresults hafter hmerged =>
      cases hd with
      | single hown => cases hown
      | intersection hds =>
      refine Document.admits_allOf_iff.mpr fun d hd => ?_
      obtain ⟨s, hs, hexports⟩ := exists_right_of_mem hds.flip hd
      obtain ⟨g, u, hg, rfl, hgiven⟩ := hall s hs
      exact hsees hg hgiven hreaches hexports
  | absent => cases hkind.isMissing_eq
  | null =>
      cases hd with
      | single hown => cases hown
      | nullable hd => exact Document.admits_anyOf_iff.mpr ⟨[.type "null"], by simp, rfl⟩
  | inner hg hwraps =>
      have hmakes := hg.1
      cases hmakes with
      | optional h =>
          cases hd with
          | single hown => cases hown
          | optional hd => exact hsees hg rfl hreaches hd
      | nullable h =>
          cases hd with
          | single hown => cases hown
          | nullable hd =>
              exact Document.admits_anyOf_iff.mpr ⟨_, List.mem_cons_self, hsees hg rfl hreaches hd⟩
      | copy hmissing => cases hkind.isMissing_eq.symm.trans hmissing
      | withDefault h =>
          cases hd with
          | single hown => cases hown
          | withDefault hd =>
              have hinner := hsees hg rfl hreaches hd
              exact Document.admits_put hinner ⟨by simp [Keyword.name], fun _ => rfl⟩
      | refine =>
          cases hd with
          | single hown => cases hown
          | refine hd => exact hsees hg rfl hreaches hd
      | deferred hresolve =>
          cases hd with
          | single hown => cases hown
          | cut => rfl
          | deferred htable hd =>
              have hwithin := hf.within _ (.single (.deferred hresolve))
              obtain rfl := hwithin _ _ _ htable (standing_of_resolve hresolve)
              exact hsees hg rfl hreaches hd
      | _ => cases hwraps
  | kept hg hmarker =>
      cases hd with
      | single hown => cases hown
      | transform hd => exact hsees hg rfl hreaches hd
  | applied hg hmarker hafter hstep =>
      cases hd with
      | single hown => cases hown
      | transform hd => exact hsees hg rfl hreaches hd

end Call

/-- The document that a schema is exported as admits every value that the schema accepts. The
value is one that documents know, callbacks leave its containers alone, and documents can tell
what the schema asks for, and what those do that deferred schemas may stand for. The export
may come before the check or after it, and may start inside of other exports, as long as no
deferred schema is built as two different ones. It ends with a document if the schemas are
guarded, the deferred ones among them finitely many, and the factories give schemas. -/
theorem admits_of_accepted {depth : Nat} {s : Schema} {v u : Value} {w : World σ}
    (henv : env.Upholds may) (hvalue : env.Keeps (w.store.Unchanged v))
    (hmay : ∀ id t, may id t → t.Documentable) (hs : s.Documentable) (hw : w.Stands may)
    (hjson : w.store.Json v) (h : Validate.Gives env mode depth s v w (.accepted u)) :
    (∃ r c w₁, (check env mode depth s v).runIn {} w = (.ok r, c, w₁) ∧
      ∀ more w₂ d w₃, w₂.Stands may → (env.exportSchema more s).runIn w₂ = (.ok d, w₃) →
        w₁.Consistent w₃ → d.admits w.store v = true) ∧
    (env.Furnishes may → (∀ E, env.Keeps fun w => w.exporting = E) →
      ∀ ids, s.Exportable may ids → (∀ id t, may id t → t.Exportable may ids) →
        ∀ w₂, w₂.Stands may → ∃ d w₃,
          EndsBy (fun more => (env.exportSchema more s).runIn w₂) (.ok d, w₃)) := by
  refine ⟨?_, fun hgives hexporting ids hexportable hmay w₂ hw₂ => ?_⟩
  · obtain ⟨r, ⟨c, w₁, hrun, hclear⟩, -⟩ := Validate.clears_of_accepted h
    refine ⟨r, c, w₁, hrun, fun more w₂ d w₃ hw₂ hexport hsame => ?_⟩
    have hd : s.Exports w₃.standing d := exports_of_exportSchema henv
      (fun id t ht => (hmay id t ht).stocked) hs.stocked hw₂ hexport fun _ _ ht => ht
    refine Call.admits_of_clears (f := ⟨depth, s, v, {}, w⟩) henv hvalue hmay hjson ?_ .refl hd
      ⟨c, w₁, hrun, hclear⟩
    exact
      { documentable := hs
        unchanged := Store.unchanged_self v w
        stands := hw
        within := fun g hg id t t' ht ht' => by
          have hlater := Call.after_of_reaches hg hrun _ (henv.remembers id t') ht'
          exact (hsame id t' t hlater ht).symm }
  · obtain ⟨d, w₃, -, hends⟩ := exportSchema_ends henv.builds hgives hexporting
      (fun id _ => hmay id) w₂.exporting hexportable w₂ ⟨hw₂, rfl⟩
    exact ⟨d, w₃, hends⟩

end Runs

/-- Trees with the text of an integer for a label, and branches that may be left out. -/
def labelledTree : Schema :=
  .object [(.text "label", .integerText), (.text "branches", .optional (.array (.deferred 0) {}))]
    .strict

/-- A host whose deferred schemas stand for such trees. -/
def labelledTreeHost : Setting Unit :=
  { nestedListHost with produce := fun _ => return .schema labelledTree }

theorem still_labelledTreeHost : labelledTreeHost.Still where
  apply _ _ _ := rfl
  test _ _ _ := rfl
  later _ _ _ _ _ h := by cases h
  produce _ _ := rfl

theorem upholds_labelledTreeHost : labelledTreeHost.Upholds fun _ t => t = labelledTree :=
  still_labelledTreeHost.upholds fun _ _ _ h => by
    cases h
    rfl

theorem part_labelledTree {t : Schema} (h : labelledTree.Part t) :
    t = labelledTree ∨ t = .integerText ∨ t = .optional (.array (.deferred 0) {}) ∨
      t = .array (.deferred 0) {} ∨ t = .deferred 0 := by
  induction h with
  | refl => exact .inl rfl
  | tail _ hstep ih =>
      rcases ih with rfl | rfl | rfl | rfl | rfl <;> rcases hstep with hstep | hstep <;>
        cases hstep <;> grind [labelledTree]

theorem documentable_labelledTree : labelledTree.Documentable := by
  intro t ht
  rcases part_labelledTree ht with rfl | rfl | rfl | rfl | rfl <;> trivial

theorem exportable_labelledTree : labelledTree.Exportable (fun _ t => t = labelledTree) {0} where
  guarded t ht := by
    have htree : labelledTree.Guarded fun _ t => t = labelledTree := .intro _ nofun
    have harray : (Schema.array (.deferred 0) {}).Guarded fun _ t => t = labelledTree :=
      .intro _ nofun
    rcases part_labelledTree ht with rfl | rfl | rfl | rfl | rfl
    · exact htree
    · exact .intro _ nofun
    · refine .intro _ fun t ht => ?_
      rcases ht with ⟨⟨⟩⟩
      exact harray
    · exact harray
    · refine .intro _ fun t ht => ?_
      rcases ht with ⟨⟨⟩⟩ | rfl
      exact htree
  deferred id hid := by
    rcases part_labelledTree hid with h | h | h | h | h <;> cases h
    exact Finset.mem_singleton_self 0

/-- A tree with one branch, the label of which is written with blanks. -/
def smallTree : Value :=
  .mapping false [(.text "label", .text "7"),
    (.text "branches", .list [.mapping false [(.text "label", .text " -8 ")]])]

theorem json_smallTree (st : Store) : st.Json smallTree := by
  intro u hu
  have hparts : u = smallTree ∨ u = .text "7" ∨ u = .text " -8 " ∨
      u = .list [.mapping false [(.text "label", .text " -8 ")]] ∨
      u = .mapping false [(.text "label", .text " -8 ")] := by
    induction hu with
    | refl => exact .inl rfl
    | tail _ hheld ih =>
        obtain ⟨c, hc, hu⟩ := hheld
        rcases ih with rfl | rfl | rfl | rfl | rfl <;> cases hc <;>
          simp [Contents.values] at hu <;> grind [smallTree]
  rcases hparts with rfl | rfl | rfl | rfl | rfl
  · exact .mapping rfl (by simp)
  · exact .text _
  · exact .text _
  · exact .list rfl
  · exact .mapping rfl (by simp)

/-- The tree is accepted, its labels made integers. The export of the schema ends, and the
document admits the tree as it was. -/
theorem admits_of_accepted_labelledTree :
    Validate.Gives labelledTreeHost .immediate 8 labelledTree smallTree { host := () }
      (.accepted (.mapping false [(.text "label", .int 7),
        (.text "branches", .list [.mapping false [(.text "label", .int (-8))]])])) ∧
    ∃ d w₃, EndsBy
        (fun more => (labelledTreeHost.exportSchema more labelledTree).runIn { host := () })
        (.ok d, w₃) ∧
      d.admits {} smallTree = true := by
  have hgives : Validate.Gives labelledTreeHost .immediate 8 labelledTree smallTree { host := () }
      (.accepted (.mapping false [(.text "label", .int 7),
        (.text "branches", .list [.mapping false [(.text "label", .int (-8))]])])) :=
    ⟨.safeParse, _, rfl⟩
  have hnothing : (⟨{}, [], [], ()⟩ : World Unit).Stands fun _ t => t = labelledTree := by
    rintro id t ⟨⟩
  have hkeeps : ∀ I : World Unit → Prop, (∀ w built, I w → I { w with built := built }) →
      labelledTreeHost.Keeps I := fun I hI =>
    still_labelledTreeHost.keeps fun id w s hw _ _ => hI w _ hw
  have hstands := upholds_labelledTreeHost.stands
  obtain ⟨⟨r, c, w₁, hrun, hadmits⟩, hends⟩ := admits_of_accepted upholds_labelledTreeHost
    (hkeeps _ fun _ _ hw => hw) (fun id t ht => ht ▸ documentable_labelledTree)
    documentable_labelledTree hnothing (json_smallTree {}) hgives
  obtain ⟨d, w₃, hends⟩ := hends (fun id w _ => ⟨_, _, rfl⟩) (fun E => hkeeps _ fun _ _ hw => hw)
    {0} exportable_labelledTree (fun id t ht => ht ▸ exportable_labelledTree) { host := () }
    hnothing
  refine ⟨hgives, d, w₃, hends, ?_⟩
  obtain ⟨more, hexport⟩ := hends.exists_eq
  refine hadmits more { host := () } d w₃ hnothing hexport fun id s t hs ht => ?_
  have hw₁ := (Carry.of_check (Carry.keeping_settings hstands .immediate) 8 hrun).2 hnothing
  have hw₃ :=
    (stands_exportSchema upholds_labelledTreeHost more labelledTree).of_run hexport hnothing
  exact (hw₁ id s hs).trans (hw₃ id t ht).symm

/-- A tree without a label is not admitted. -/
example :
    ((labelledTreeHost.exportSchema 9 labelledTree).runIn { host := () }).1.toOption.map
      (·.admits {} (.mapping false [(.text "branches", .list [])])) = some false := by
  rfl

end Conform
