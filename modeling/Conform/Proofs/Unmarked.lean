import Conform.Proofs.Clearing

/-!
# No markers in what is accepted

The marker `missing` is a result of checks like any other: an optional schema gives it,
and so do unions, intersections and defaults that come down to one. It is taken out where
it would come to stand in something. An object leaves the field out, an array puts null in
its place, merging takes the other side, and a whole value becomes null. The marker
`invalid` is a result of calls that found something, and of no others.

So what a call makes of a value that it clears is the marker `missing` as a whole, or a
value in which no marker stands at any depth. That the value handed in, a default or the
store hold markers does not matter, for no schema but those that let keys through, and
the one that takes any value, gives on what it does not look at.

Containers may be shared, and the host may change them. What stands in a value is
therefore told for all worlds of an invariant that the host keeps, and for ways down
through several of them.

## Main results

* `builds_unmarked` — merging builds such values of such values.
* `Call.unmarked_of_clears` — what calls that clear give.
* `accepted_unmarked` — no marker stands in a value that is accepted.
-/

namespace Conform

open Traverse

/-! ## Values without markers -/

section Values

variable {σ : Type} {I : World σ → Prop} {keys : Key → Prop} {w : World σ} {u x : Value}

/-- A value stands in a container, in some world of an invariant. -/
def Holding (I : World σ → Prop) (u x : Value) : Prop := ∃ w, I w ∧ w.store.Holds u x

/-- No marker is a value or stands in it at any depth, and its mappings have keys of a
kind. Each container on the way down may be looked up in another world of the invariant. -/
def Unmarked (I : World σ → Prop) (keys : Key → Prop) (u : Value) : Prop :=
  ∀ x, Relation.ReflTransGen (Holding I) u x → isMarker x = false ∧
    ∀ w entries, I w → w.store.entries? x = some entries → ∀ k ∈ entries.keys, keys k

theorem Unmarked.isMarker_eq (h : Unmarked I keys u) : isMarker u = false := (h u .refl).1

theorem Unmarked.of_holds (h : Unmarked I keys u) (hw : I w) (hx : w.store.Holds u x) :
    Unmarked I keys x :=
  fun y hy => h y (.head ⟨w, hw, hx⟩ hy)

/-- In one world, what can be reached is on some way down. -/
theorem Unmarked.of_reaches (h : Unmarked I keys u) (hw : I w) (hx : w.store.Reaches u x) :
    Unmarked I keys x := by
  induction hx with
  | refl => exact h
  | tail _ hx ih => exact ih.of_holds hw hx

theorem unmarked_of_holds (hmarker : isMarker u = false)
    (hkeys : ∀ w entries, I w → w.store.entries? u = some entries → ∀ k ∈ entries.keys, keys k)
    (hrest : ∀ w x, I w → w.store.Holds u x → Unmarked I keys x) : Unmarked I keys u := by
  intro x hx
  rcases hx.cases_head with rfl | ⟨y, ⟨w, hw, hy⟩, hx⟩
  · exact ⟨hmarker, hkeys⟩
  · exact hrest w y hw hy x hx

theorem unmarked_atom {a : Atom} (h : isMarker (.atom a) = false) : Unmarked I keys (.atom a) := by
  refine unmarked_of_holds h (fun w entries _ hentries => ?_) fun w x _ hx => ?_
  · cases hentries
  · obtain ⟨c, hc, -⟩ := hx
    cases hc

theorem unmarked_list {items : List Value} (h : ∀ x ∈ items, Unmarked I keys x) :
    Unmarked I keys (.list items) := by
  refine unmarked_of_holds rfl (fun w entries _ hentries => ?_) fun w x _ hx => ?_
  · cases hentries
  · obtain ⟨c, hc, hx⟩ := hx
    cases hc
    exact h x hx

theorem unmarked_mapping {readOnly : Bool} {entries : Entries Value}
    (hkeys : ∀ k ∈ entries.keys, keys k) (h : ∀ e ∈ entries, Unmarked I keys e.2) :
    Unmarked I keys (.mapping readOnly entries) := by
  refine unmarked_of_holds rfl (fun w es _ hes => ?_) fun w x _ hx => ?_
  · cases hes
    exact hkeys
  · obtain ⟨c, hc, hx⟩ := hx
    cases hc
    obtain ⟨e, he, rfl⟩ := List.mem_map.mp hx
    exact h e he

/-! ## Merging -/

/-- Merging builds values without markers of values without markers. -/
theorem builds_unmarked (hw : I w) : w.store.Builds (Unmarked I keys) where
  holds hu hx := hu.of_holds hw hx
  mapping hu hv hes hfs hdone hkeys := by
    refine unmarked_mapping (fun k hk => ?_) hdone
    rcases hkeys k hk with hk | hk
    · exact (hu _ .refl).2 w _ hw hes k hk
    · exact (hv _ .refl).2 w _ hw hfs k hk
  list := unmarked_list

/-- An absent result leaves the other side, so that the merged one is absent only if all
are. -/
theorem unmarked_of_mergeAll {depth : Nat} {first m : Value} {rest : List Value} (hw : I w)
    (hall : ∀ u ∈ first :: rest, u = .missing ∨ Unmarked I keys u)
    (h : mergeAll w.store depth first rest = .ok m) : m = .missing ∨ Unmarked I keys m := by
  induction rest generalizing first with
  | nil =>
      cases h
      exact hall _ List.mem_cons_self
  | cons v rest ih =>
      rw [mergeAll_cons] at h
      obtain ⟨x, hx, h⟩ := bind_eq_ok_iff.mp h
      have hmerged : x = .missing ∨ Unmarked I keys x := by
        cases depth with
        | zero => cases hx
        | succ depth =>
            rcases hall first List.mem_cons_self with rfl | hfirst
            · cases hx
              exact hall _ (List.mem_cons_of_mem _ List.mem_cons_self)
            · rcases hall v (List.mem_cons_of_mem _ List.mem_cons_self) with rfl | hv
              · rw [mergeValues_missing_right] at hx
                cases hx
                exact .inr hfirst
              · exact .inr ((builds_unmarked hw).mergeValues hfirst hv hx)
      refine ih (fun u hu => ?_) h
      rcases List.mem_cons.mp hu with rfl | hu
      · exact hmerged
      · exact hall u (List.mem_cons_of_mem _ (List.mem_cons_of_mem _ hu))

end Values

/-! ## Schemas that give no markers -/

/-- A schema lets no marker into its results. It is not the schema that takes any value,
the members of an enumeration are none, objects do not let undeclared keys through and
declare keys of a kind, and steps make no markers of values without them. -/
def Schema.Unmarking {σ : Type} (env : Setting σ) (I : World σ → Prop) (keys : Key → Prop) :
    Schema → Prop
  | .any => False
  | .enumeration first rest => ∀ a ∈ first :: rest, isMarker (.atom a) = false
  | .object fields unknown => unknown ≠ .passthrough ∧ ∀ k ∈ Entries.keys fields, keys k
  | .transform _ step => ∀ x r w w', Unmarked I keys x → I w →
      (step.applyTo env x).runIn w = (.ok r, w') → Unmarked I keys r
  | _ => True

section Runs

variable {σ : Type} {env : Setting σ} {mode : Mode} {I : World σ → Prop} {keys : Key → Prop}

/-- What a call gives for a value that it clears: the marker of an absent value as a whole,
or a value without markers. -/
theorem Call.unmarked_of_clears (hkeeps : env.Keeps I) {f : Call σ} {r : Value}
    (hschemas : ∀ g, Reaches env mode f g → g.schema.Unmarking env I keys) (hworld : I f.world)
    (h : f.Clears env mode r) : r = .missing ∨ Unmarked I keys r := by
  induction f using Call.induct env mode generalizing r with
  | h f ih =>
  have hself := hschemas f .refl
  have hsees : ∀ {g u}, SeesClear env mode f g u → u = .missing ∨ Unmarked I keys u :=
    fun {g u} ⟨hmakes, hclear⟩ => ih g hmakes (fun k hk => hschemas k (.head hmakes hk))
      (hmakes.keeps hkeeps hworld) hclear
  have hsound : ∀ {g u}, SeesClear env mode f g u → isMarker u = false → Unmarked I keys u := by
    intro g u hu hmarker
    rcases hsees hu with rfl | hu
    · cases hmarker
    · exact hu
  -- an object or an array fails if one of its calls gives the marker of a failed check
  have hfailed : ∀ {failed : Bool}, (failed = true → ∃ g, SeesClear env mode f g .invalid) →
      failed = false := by
    intro failed hfailed
    cases failed with
    | false => rfl
    | true =>
        obtain ⟨g, hg⟩ := hfailed rfl
        rcases hsees hg with hinvalid | hinvalid
        · cases hinvalid
        · exact absurd hinvalid.isMarker_eq (by decide)
  cases clearing_of_clears h with
  | single hjudged =>
      rcases eq_or_atom_of_judge? hjudged with ⟨rfl, -⟩ | ⟨a, rfl, hlisted⟩
      · exact hself.elim
      · refine .inr (unmarked_atom (Bool.eq_false_iff.mpr fun hmarker => ?_))
        obtain ⟨first, rest, rfl, ha, -⟩ := hlisted hmarker
        rw [hself a ha] at hmarker
        cases hmarker
  | object hobject hafter hstrict hfields hresults hany =>
      obtain ⟨hunknown, hkeys⟩ := hself
      simp only [hfailed hany, Bool.false_eq_true, if_false, hunknown, List.append_nil]
      refine .inr (unmarked_mapping (fun k hk => ?_) fun e he => ?_)
      · obtain ⟨e, he, rfl⟩ := List.mem_map.mp hk
        exact hkeys _ (hresults e he).1
      · obtain ⟨-, hmarker, g, hg⟩ := hresults e he
        exact hsound hg hmarker
  | array harray hafter hbounds hall hresults hany =>
      simp only [hfailed hany, Bool.false_eq_true, if_false]
      refine .inr (unmarked_list fun x hx => ?_)
      rcases hresults x hx with rfl | ⟨hmarker, g, hg⟩
      · exact unmarked_atom rfl
      · exact hsound hg hmarker
  | option hg hschema hvalue => exact hsees hg
  | members hall hresults hafter hmerged =>
      rcases hmerged with rfl | ⟨u, us, rfl, hmerged⟩
      · exact .inl rfl
      · refine unmarked_of_mergeAll (hafter I hkeeps hworld) (fun x hx => ?_) hmerged
        obtain ⟨g, hg⟩ := hresults x hx
        exact hsees hg
  | absent => exact .inl rfl
  | null => exact .inr (unmarked_atom rfl)
  | inner hg hwraps => exact hsees hg
  | kept hg hmarker => exact hsees hg
  | applied hg hmarker hafter hstep =>
      exact .inr (hself _ _ _ _ (hsound hg hmarker) (hafter I hkeeps hworld) hstep)

/-- No marker is a value that is accepted, or stands in it at any depth, and the keys of its
mappings are of the kind that objects declare and steps make. The value handed in, the
defaults and the store may hold markers. Objects that let undeclared keys through are left
out, and steps must not make markers. What is accepted is looked up in any world of an
invariant that the host keeps; for the invariant that every world has, this asks nothing of
the host. -/
theorem accepted_unmarked {depth : Nat} {s : Schema} {v u : Value} {w : World σ}
    (hkeeps : env.Keeps I) (hworld : I w)
    (hschemas : ∀ g, Call.Reaches env mode ⟨depth, s, v, {}, w⟩ g →
      g.schema.Unmarking env I keys)
    (h : Validate.Gives env mode depth s v w (.accepted u)) :
    ∀ w₁, I w₁ → ∀ x, w₁.store.Reaches u x → isMarker x = false ∧
      ∀ entries, w₁.store.entries? x = some entries → ∀ k ∈ entries.keys, keys k := by
  obtain ⟨r, hclears, rfl⟩ := Validate.clears_of_accepted h
  have hunmarked : Unmarked I keys (if isMissing r then .null else r) := by
    rcases Call.unmarked_of_clears hkeeps hschemas hworld hclears with rfl | hr
    · exact unmarked_atom rfl
    · split
      · exact unmarked_atom rfl
      · exact hr
  intro w₁ hw₁ x hx
  have hx := hunmarked.of_reaches hw₁ hx
  exact ⟨hx.isMarker_eq, fun entries hentries => (hx x .refl).2 w₁ entries hw₁ hentries⟩

end Runs

/-- A host whose steps put what they get into a list. -/
def wrappingHost : Setting Unit where
  apply _ v := return .list [v]
  test _ _ := return .settled (.bool true)
  testRule _ _ _ := return .settled (.bool true)
  produce _ := throw (.raised "ValueError" "no such schema")

theorem keeps_wrappingHost (I : World Unit → Prop) : wrappingHost.Keeps I where
  apply _ _ _ hw := hw
  test _ _ _ hw := hw
  later _ _ _ _ _ _ h := by cases h
  resolve id w hw := by
    rw [Setting.runIn_resolve]
    cases w.built.lookup id <;> exact hw

/-- Records with a name that may be absent, as may the records, put into a list. -/
def wrappedRecords : Schema :=
  .transform (.array (.optional (.object [(.text "name", .optional (.string {}))] .strip)) {})
    (.callback 0)

/-- A list of both markers, one of them as such and one under a key that is not declared. -/
def markedRecords : World Unit where
  store := ⟨#[.list [.missing,
    .mapping false [(.text "name", .missing), (.text "note", .invalid)]]]⟩
  host := ()

/-- The schemas of a run are the parts of the schema, for no deferred one is among them. -/
theorem unmarking_wrappedRecords {g : Call Unit}
    (h : Call.Reaches wrappingHost .immediate
      ⟨6, wrappedRecords, .shared 0 false, {}, markedRecords⟩ g) :
    g.schema.Unmarking wrappingHost (fun w => w.built = []) (· = .text "name") := by
  have hschema : g.schema ∈ [wrappedRecords,
      .array (.optional (.object [(.text "name", .optional (.string {}))] .strip)) {},
      .optional (.object [(.text "name", .optional (.string {}))] .strip),
      .object [(.text "name", .optional (.string {}))] .strip, .optional (.string {}),
      .string {}] := by
    refine Call.schema_of_reaches (keeps_wrappingHost fun w => w.built = []) rfl ?_ ?_ ?_ h
    · intro s t hs ht
      simp only [List.mem_cons, List.not_mem_nil, or_false] at hs
      rcases hs with rfl | rfl | rfl | rfl | rfl | rfl <;> rcases ht with ⟨⟨⟩⟩ | ⟨⟨⟩⟩ <;> simp_all
    · intro id w t w' hw hresolve
      rw [Setting.runIn_resolve, hw] at hresolve
      cases hresolve
    · exact List.mem_cons_self
  simp only [List.mem_cons, List.not_mem_nil, or_false] at hschema
  rcases hschema with hs | hs | hs | hs | hs | hs <;> rw [hs]
  · intro x r w w' hx _ hrun
    cases hrun
    exact unmarked_list fun y hy => List.mem_singleton.mp hy ▸ hx
  · trivial
  · trivial
  · exact ⟨by decide, by simp⟩
  · trivial
  · trivial

/-- Records with both markers in them are accepted, and none is left in what comes out. -/
theorem accepted_unmarked_markedRecords :
    Validate.Gives wrappingHost .immediate 6 wrappedRecords (.shared 0 false) markedRecords
      (.accepted (.list [.list [.null, .mapping false []]])) ∧
    ∀ x, markedRecords.store.Reaches (.list [.list [.null, .mapping false []]]) x →
      isMarker x = false := by
  have hgives : Validate.Gives wrappingHost .immediate 6 wrappedRecords (.shared 0 false)
      markedRecords (.accepted (.list [.list [.null, .mapping false []]])) :=
    ⟨.safeParse, _, rfl⟩
  refine ⟨hgives, fun x hx => ?_⟩
  exact (accepted_unmarked (keeps_wrappingHost fun w => w.built = []) rfl
    (fun g => unmarking_wrappedRecords) hgives markedRecords rfl x hx).1

end Conform
