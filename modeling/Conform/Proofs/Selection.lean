import Conform.Proofs.Disjoint
import Conform.Proofs.MemberGrouping
import Conform.Proofs.Provenance

/-!
# Some fields of an object

Picking some keys of an object schema and leaving out the others gives two objects whose
fields are those of the first. If what is found in a field does not depend on the fields
that were checked before it, so are the findings: each of the two finds what the whole
object finds below its keys, and nothing else. Every error that is found in a field lies
below its key, so the errors can be told apart by their paths.

## Main results

* `prefix_of_finds` — every error of a check lies at its place or below.
* `fieldsOnFork_of_steady` — the findings of fields, each taken by itself.
* `selection_splits_object` — an object, the fields picked from it, and the others.
-/

namespace Conform

open Traverse

variable {σ : Type} {env : Setting σ} {mode : Mode} {depth : Nat} {c : Context}
  {w w' w₁ : World σ}

/-! ## Where errors lie -/

namespace Call

variable {f g : Call σ}

theorem Reports.at_or_below {x : Violation} {p : Path} (h : f.Reports w x p) :
    f.context.path <+: p := by
  cases h with
  | required => exact List.prefix_append ..
  | _ => exact List.prefix_refl _

/-- What a call tells lies at its place or below. -/
theorem Tells.at_or_below {e : ErrorRecord} (h : f.Tells env e) :
    f.context.path <+: e.path := by
  cases h with
  | violation h => exact h.at_or_below
  | failures => exact List.prefix_refl _
  | worded => exact List.prefix_refl _

/-- Calls lead down. -/
theorem prefix_of_reaches (h : Reaches env mode f g) : f.context.path <+: g.context.path := by
  induction h with
  | refl => exact List.prefix_refl _
  | tail _ hmakes ih =>
      refine ih.trans ?_
      cases hmakes.step with
      | down _ hpath => exact hpath ▸ List.prefix_append ..
      | level _ _ hpath => exact hpath ▸ List.prefix_refl _
      | copy _ _ hcontext => exact hcontext ▸ List.prefix_refl _

end Call

/-- Every error of a check lies at its place or below. -/
theorem prefix_of_finds {s : Schema} {v : Value} {f : Finding}
    (h : Finds env mode depth s v c w f w') : ∀ e ∈ f.errors, c.path <+: e.path := by
  intro e he
  obtain ⟨es, hes, htold⟩ := Call.tells_of_run (f := ⟨depth, s, v, c, w⟩) h
  have herrors : f.errors = es := by simpa [Context.adding] using hes
  obtain ⟨g, hreaches, htells⟩ := htold e (herrors ▸ he) e .refl
  exact (Call.prefix_of_reaches hreaches).trans htells.at_or_below

/-- The error of a violated check lies at its place. -/
theorem Violation.path_of_recordAt {x : Violation} {p : Path} {e : ErrorRecord}
    (h : (x.recordAt env p).runIn w = (.ok e, w')) : e.path = p := by
  rw [Violation.runIn_recordAt] at h
  split at h <;> cases h
  rfl

theorem finds_of_onFork {s : Schema} {v : Value} {f : Finding}
    (h : (onFork env mode depth c s v).runIn w = (.ok f, w')) :
    Finds env mode depth s v c w f w' := by
  unfold Finds
  rw [← Engine.runIn_actFrom_ok_iff, actFrom_check_eq_onFork, Act.runIn_bind, h]
  rfl

/-- Every error of a field lies at its key or below. -/
theorem prefix_of_fieldOnFork {v : Value} {k : Key} {field : Schema} {f : Finding}
    (h : (fieldOnFork env mode depth c v k field).runIn w = (.ok f, w')) :
    ∀ e ∈ f.errors, c.path ++ [k] <+: e.path := by
  rw [fieldOnFork, Act.runIn_bind, Act.runIn_store] at h
  simp only at h
  cases hfind : (w.store.entriesOf v).find? k with
  | some u =>
      rw [hfind] at h
      exact prefix_of_finds (finds_of_onFork h)
  | none =>
      rw [hfind] at h
      obtain ⟨accepted, w₂, -, h⟩ := Act.runIn_bind_ok_iff.mp h
      cases accepted with
      | true =>
          obtain ⟨st, w₃, hstore, h⟩ := Act.runIn_bind_ok_iff.mp h
          exact prefix_of_finds (finds_of_onFork h)
      | false =>
          obtain ⟨e, w₃, he, hdone⟩ := Act.runIn_bind_ok_iff.mp h
          cases hdone
          intro e' he'
          rw [List.mem_singleton.mp he', Violation.path_of_recordAt he]

/-! ## Fields that are checked in other company -/

section Steady

variable {v : Value}

/-- What is found in a field, if its check ends by a value. -/
def foundAt (env : Setting σ) (mode : Mode) (depth : Nat) (c : Context) (v : Value)
    (w : World σ) (e : Key × Schema) : Option (Key × Finding) :=
  match (fieldOnFork env mode depth c v e.1 e.2).runIn w with
  | (.ok f, _) => some (e.1, f)
  | (.error _, _) => none

theorem foundAt_eq_some_iff {e : Key × Schema} {x : Key × Finding} :
    foundAt env mode depth c v w e = some x ↔
      x.1 = e.1 ∧ ((fieldOnFork env mode depth c v e.1 e.2).runIn w).1 = .ok x.2 := by
  unfold foundAt
  rcases (fieldOnFork env mode depth c v e.1 e.2).runIn w with ⟨f | f, w₁⟩
  · simp
  · obtain ⟨k, g⟩ := x
    simp [eq_comm]

/-- The findings of some fields, each taken by itself. -/
def foundIn (env : Setting σ) (mode : Mode) (depth : Nat) (c : Context) (v : Value)
    (w : World σ) (fields : Entries Schema) : Entries Finding :=
  fields.filterMap (foundAt env mode depth c v w)

theorem foundIn_cons_some {e : Key × Schema} {x : Key × Finding}
    (h : foundAt env mode depth c v w e = some x) (fields : Entries Schema) :
    foundIn env mode depth c v w (e :: fields) =
      x :: foundIn env mode depth c v w fields :=
  List.filterMap_cons_some h

theorem foundIn_append (fields more : Entries Schema) :
    foundIn env mode depth c v w (fields ++ more) =
      foundIn env mode depth c v w fields ++ foundIn env mode depth c v w more :=
  List.filterMap_append

/-- Fields that are steady are found as each of them is by itself, wherever they stand. -/
theorem fieldsOnFork_of_steady {fields : Entries Schema} {found : Entries Finding}
    (hsteady : ∀ e ∈ fields, env.Steady w (fieldOnFork env mode depth c v e.1 e.2))
    (hafter : env.After w w₁) :
    (∃ w', (fieldsOnFork env mode depth c v fields).runIn w₁ = (.ok found, w')) ↔
      (∀ e ∈ fields, ∃ x, foundAt env mode depth c v w e = some x) ∧
        found = foundIn env mode depth c v w fields := by
  induction fields generalizing w₁ found with
  | nil =>
      constructor
      · rintro ⟨w', h⟩
        cases h
        exact ⟨by simp, rfl⟩
      · rintro ⟨-, rfl⟩
        exact ⟨w₁, rfl⟩
  | cons e fields ih =>
      have hlater : ∀ d ∈ fields, env.Steady w (fieldOnFork env mode depth c v d.1 d.2) :=
        fun d hd => hsteady d (List.mem_cons_of_mem _ hd)
      have hhere := hsteady e List.mem_cons_self w₁ hafter
      constructor
      · rintro ⟨w', h⟩
        obtain ⟨f, w₂, hf, h⟩ := Act.runIn_bind_ok_iff.mp h
        obtain ⟨rest, w₃, hrest, h⟩ := Act.runIn_bind_ok_iff.mp h
        cases h
        have hfirst : foundAt env mode depth c v w e = some (e.1, f) :=
          foundAt_eq_some_iff.mpr ⟨rfl, by rw [← hhere, hf]⟩
        obtain ⟨hall, rfl⟩ := (ih hlater (hafter.trans (after_of_fieldOnFork hf))).mp ⟨w', hrest⟩
        exact ⟨List.forall_mem_cons.mpr ⟨⟨_, hfirst⟩, hall⟩,
          (foundIn_cons_some hfirst fields).symm⟩
      · rintro ⟨hall, rfl⟩
        obtain ⟨⟨x, hfirst⟩, hall⟩ := List.forall_mem_cons.mp hall
        obtain ⟨hkey, hfound⟩ := foundAt_eq_some_iff.mp hfirst
        rw [← hhere] at hfound
        obtain ⟨w₂, hf⟩ : ∃ w₂, (fieldOnFork env mode depth c v e.1 e.2).runIn w₁ =
            (.ok x.2, w₂) := ⟨_, Prod.ext hfound rfl⟩
        obtain ⟨w', hrest⟩ := (ih hlater (hafter.trans (after_of_fieldOnFork hf))).mpr ⟨hall, rfl⟩
        refine ⟨w', Act.runIn_bind_ok_iff.mpr ⟨x.2, w₂, hf,
          Act.runIn_bind_ok_iff.mpr ⟨_, w', hrest, ?_⟩⟩⟩
        rw [foundIn_cons_some hfirst, ← Prod.mk.eta (p := x), hkey]
        rfl

/-- Findings stand at the keys of their fields, and their errors below. -/
theorem prefix_of_mem_foundIn {fields : Entries Schema} {x : Key × Finding}
    (hx : x ∈ foundIn env mode depth c v w fields) :
    ∀ e ∈ x.2.errors, c.path ++ [x.1] <+: e.path := by
  obtain ⟨d, -, hd⟩ := List.mem_filterMap.mp hx
  obtain ⟨hkey, hfound⟩ := foundAt_eq_some_iff.mp hd
  rw [hkey]
  exact prefix_of_fieldOnFork (Prod.ext hfound rfl)

/-- Fields that are chosen by their keys have the findings that are chosen so. -/
theorem foundIn_filter (chosen : Key → Bool) (fields : Entries Schema) :
    foundIn env mode depth c v w (fields.filter fun e => chosen e.1) =
      (foundIn env mode depth c v w fields).filter fun x => chosen x.1 := by
  rw [foundIn, foundIn, List.filterMap_filter, List.filter_filterMap]
  refine List.filterMap_congr fun e _ => ?_
  cases hfound : foundAt env mode depth c v w e with
  | none => simp
  | some x =>
      rw [(foundAt_eq_some_iff.mp hfound).1.symm, Option.filter_some]

end Steady

/-! ## Picking and leaving out -/

/-- An error lies below one of some keys of the object at a place. -/
def ErrorRecord.under (p : Path) (keys : List Key) (e : ErrorRecord) : Bool :=
  (e.path.drop p.length).head?.any fun k => keys.any (·.same k)

theorem ErrorRecord.under_of_prefix {p : Path} {keys : List Key} {k : Key} {e : ErrorRecord}
    (h : p ++ [k] <+: e.path) : e.under p keys = keys.any (·.same k) := by
  obtain ⟨q, hq⟩ := h
  simp [under, ← hq]

/-- Errors below some keys are those of the fields at these keys. -/
theorem filter_errors_of_below {p : Path} {keys : List Key} {found : Entries Finding}
    (hfound : ∀ x ∈ found, ∀ e ∈ x.2.errors, p ++ [x.1] <+: e.path) (keep : Bool → Bool) :
    (found.flatMap fun x => x.2.errors).filter (fun e => keep (e.under p keys)) =
      (found.filter fun x => keep (keys.any (·.same x.1))).flatMap fun x => x.2.errors := by
  induction found with
  | nil => rfl
  | cons x found ih =>
      have hhere : x.2.errors.filter (fun e => keep (e.under p keys)) =
          if keep (keys.any (·.same x.1)) then x.2.errors else [] := by
        have hsame : ∀ e ∈ x.2.errors, e.under p keys = keys.any (·.same x.1) := fun e he =>
          ErrorRecord.under_of_prefix (hfound x List.mem_cons_self e he)
        split
        · refine List.filter_eq_self.mpr fun e he => ?_
          rwa [hsame e he]
        · refine List.filter_eq_nil_iff.mpr fun e he => ?_
          rwa [hsame e he]
      rw [List.flatMap_cons, List.filter_append, hhere, List.filter_cons,
        ih fun y hy => hfound y (List.mem_cons_of_mem _ hy)]
      split <;> simp

theorem resultsOf_filter (chosen : Key → Bool) (found : Entries Finding) :
    resultsOf (found.filter fun x => chosen x.1) =
      (resultsOf found).filter fun e => chosen e.1 := by
  rw [resultsOf, resultsOf, List.filterMap_filter, List.filter_filterMap]
  refine List.filterMap_congr fun x _ => ?_
  cases isMarker x.2.result <;> simp [Option.filter_some]

namespace Schema

/-- The keys that are picked and those that are left out have none in common. -/
theorem apart_pickKeys_omitKeys (fields : Entries Schema) (keys : List Key) :
    Entries.Apart (pickKeys fields keys) (omitKeys fields keys) := by
  intro k hk
  obtain ⟨e, he, rfl⟩ := List.mem_map.mp hk
  have hout : ∀ l ∈ keys, l.same e.1 = false := by simpa using (List.mem_filter.mp he).2
  rw [Entries.has, List.any_eq_false]
  intro d hd hsame
  obtain ⟨l, hl, hin⟩ := List.any_eq_true.mp (List.mem_filter.mp hd).2
  exact Bool.false_ne_true ((hout l hl).symm.trans (Key.same_trans hin hsame))

/-- The fields at some keys, put together again with the others. -/
def rejoined (fields : Entries Schema) (keys : List Key) : Entries Schema :=
  pickKeys fields keys ++ omitKeys fields keys

theorem merge_pickKeys_omitKeys {fields : Entries Schema} (h : fields.Distinct) (keys : List Key)
    (st : Store) (unknown other : UnknownKeys) :
    merge st (.object (pickKeys fields keys) unknown)
        (.schema (.object (omitKeys fields keys) other)) =
      .ok (.object (rejoined fields keys) unknown) := by
  have hdistinct : Entries.Distinct (omitKeys fields keys) :=
    h.of_sublist (List.filter_sublist.map Prod.fst)
  rw [merge, Entries.putAll_of_apart (apart_pickKeys_omitKeys fields keys) hdistinct]
  rfl

end Schema

open Schema

/-- An object, and a mapping that it is given on a context in which the mapping is not
being looked into, so that what is found in a field does not depend on the checks before
it. -/
structure FieldsSteady (env : Setting σ) (mode : Mode) (depth : Nat) (fields : Entries Schema)
    (v : Value) (c : Context) (w : World σ) : Prop where
  distinct : fields.Distinct
  isObject : (w.store.entries? v).isNone = false
  fresh : c.hasVisited v = false
  steady : ∀ e ∈ fields, env.Steady w (fieldOnFork env mode depth (c.mark v) v e.1 e.2)

/-- How what is found in an object, `whole`, stands to what is found in the object with the
fields at some keys, in the one with the others, and in the one that has them behind each
other. -/
structure SplitBy (p : Path) (keys : List Key) (whole picked others joined : Finding) : Prop where
  picked_errors : picked.errors = whole.errors.filter (·.under p keys)
  others_errors : others.errors = whole.errors.filter (!·.under p keys)
  joined_errors : joined.errors = picked.errors ++ others.errors
  invalid_iff : whole.result = .invalid ↔ picked.result = .invalid ∨ others.result = .invalid
  joined_invalid_iff : joined.result = .invalid ↔ whole.result = .invalid
  results : whole.result ≠ .invalid → ∃ es, whole.result = .mapping false es ∧
    picked.result = .mapping false (es.filter fun e => keys.any (·.same e.1)) ∧
    others.result = .mapping false (es.filter fun e => !keys.any (·.same e.1)) ∧
    joined.result = .mapping false ((es.filter fun e => keys.any (·.same e.1)) ++
      es.filter fun e => !keys.any (·.same e.1))

/-- The findings of fields are split by the keys. -/
theorem splitBy_objectFinding {p : Path} {found : Entries Finding}
    (hfound : ∀ x ∈ found, ∀ e ∈ x.2.errors, p ++ [x.1] <+: e.path) (keys : List Key) :
    SplitBy p keys (objectFinding found)
      (objectFinding (found.filter fun x => keys.any (·.same x.1)))
      (objectFinding (found.filter fun x => !keys.any (·.same x.1)))
      (objectFinding ((found.filter fun x => keys.any (·.same x.1)) ++
        found.filter fun x => !keys.any (·.same x.1))) := by
  set picked := found.filter fun x => keys.any (·.same x.1) with hpicked
  set others := found.filter fun x => !keys.any (·.same x.1) with hothers
  have hinvalid : objectOf found = .invalid ↔
      objectOf picked = .invalid ∨ objectOf others = .invalid := by
    simp only [objectOf_eq_invalid_iff, ← Bool.or_eq_true, ← List.any_append]
    have hperm : (picked ++ others).Perm found := List.filter_append_perm _ found
    rw [hperm.any_eq]
  have hjoined : objectOf (picked ++ others) = .invalid ↔ objectOf found = .invalid := by
    rw [hinvalid]
    simp only [objectOf_eq_invalid_iff, ← Bool.or_eq_true, ← List.any_append]
  refine ⟨(filter_errors_of_below hfound id).symm, (filter_errors_of_below hfound not).symm,
    List.flatMap_append, hinvalid, hjoined, fun hvalue => ?_⟩
  obtain ⟨hin, hout⟩ := not_or.mp (mt hinvalid.mpr hvalue)
  refine ⟨resultsOf found, objectOf_eq_mapping hvalue, ?_, ?_, ?_⟩
  · rw [← resultsOf_filter fun k => keys.any (·.same k)]
    exact objectOf_eq_mapping hin
  · rw [← resultsOf_filter fun k => !keys.any (·.same k)]
    exact objectOf_eq_mapping hout
  · rw [← resultsOf_filter fun k => keys.any (·.same k),
      ← resultsOf_filter fun k => !keys.any (·.same k)]
    exact objectOf_append hin hout

namespace FieldsSteady

variable {fields : Entries Schema} {v : Value} {f : Finding}

/-- With pure callbacks, every field finds the same wherever it is checked. -/
theorem of_isPure (hpure : env.IsPure) (hdistinct : fields.Distinct)
    (hobject : (w.store.entries? v).isNone = false) (hfresh : c.hasVisited v = false) :
    FieldsSteady env mode depth fields v c w where
  distinct := hdistinct
  isObject := hobject
  fresh := hfresh
  steady e _ := hpure.steady_fieldOnFork (c.mark v) v e.1 e.2

/-- Every field that the object has comes to a finding. -/
def Ends (env : Setting σ) (mode : Mode) (depth : Nat) (c : Context) (v : Value)
    (w : World σ) (fields : Entries Schema) : Prop :=
  ∀ e ∈ fields, ∃ x, foundAt env mode depth c v w e = some x

/-- Fields come to a finding exactly if some of them do, and the others. -/
theorem ends_iff_split (fields : Entries Schema) {chosen : Key × Schema → Bool} :
    Ends env mode depth c v w fields ↔
      Ends env mode depth c v w (fields.filter chosen) ∧
        Ends env mode depth c v w (fields.filter (!chosen ·)) := by
  constructor
  · intro h
    exact ⟨fun e he => h e (List.mem_filter.mp he).1, fun e he => h e (List.mem_filter.mp he).1⟩
  · rintro ⟨hin, hout⟩ e he
    cases hchosen : chosen e with
    | true => exact hin e (List.mem_filter.mpr ⟨he, hchosen⟩)
    | false => exact hout e (List.mem_filter.mpr ⟨he, by rw [hchosen]; rfl⟩)

/-- An object with some of the fields ends by a value exactly if each of them comes to a
finding. -/
theorem finds_iff_ends (h : FieldsSteady env mode depth fields v c w)
    {some : Entries Schema} (hsome : some ⊆ fields) :
    (∃ f w', Finds env mode (depth + 1) (.object some .strip) v c w f w') ↔
      Ends env mode depth (c.mark v) v w some := by
  have hsteady := fun e he => h.steady e (hsome he)
  constructor
  · rintro ⟨f, w', hf⟩
    obtain ⟨found, hfound, -, -⟩ := hf.exists_fields h.isObject h.fresh
    exact ((fieldsOnFork_of_steady hsteady (.refl env w)).mp ⟨w', hfound⟩).1
  · intro hall
    obtain ⟨w', hfound⟩ := (fieldsOnFork_of_steady hsteady (.refl env w)).mpr ⟨hall, rfl⟩
    exact ⟨_, w', finds_object_strip h.isObject h.fresh hfound⟩

/-- It finds what they find. -/
theorem eq_objectFinding (h : FieldsSteady env mode depth fields v c w)
    {some : Entries Schema} (hsome : some ⊆ fields)
    (hf : Finds env mode (depth + 1) (.object some .strip) v c w f w') :
    let found := objectFinding (foundIn env mode depth (c.mark v) v w some)
    f = ⟨found.result, found.errors, f.awaiting⟩ := by
  obtain ⟨found, hfound, hresult, hadded⟩ := hf.exists_fields h.isObject h.fresh
  obtain ⟨-, rfl⟩ := (fieldsOnFork_of_steady (fun e he => h.steady e (hsome he))
    (.refl env w)).mp ⟨w', hfound⟩
  have herrors := congrArg Context.errors hadded
  simp only [Context.adding, List.flatMap_singleton, List.append_cancel_left_eq] at herrors
  exact congrArg₂ (Finding.mk · · f.awaiting) hresult herrors

end FieldsSteady

/-- **Picking some keys of an object and leaving them out splits the object.** The object
drops what it does not declare; the keys may be any that a value runs through, also ones
that are not declared. On the same context, which is not looking into the mapping, the
object ends by a value exactly if the one with the picked fields and the one with the
others do, and exactly if the object does that has these behind each other. Then the errors
below the keys are those of the picked fields, in order, and the others those of the other
fields. The object succeeds exactly if both do, and its entries at the keys are what the
one gives, its other entries what the other one gives; the object put together again
accepts what it accepts, with the picked entries first.

What is found in a field does not depend on the fields checked before it, as with pure
callbacks. -/
theorem selection_splits_object {σ : Type} (env : Setting σ) (mode : Mode) (depth : Nat)
    {fields : Entries Schema} {v : Value} {c : Context} {w : World σ}
    (h : FieldsSteady env mode depth fields v c w) {st : Store} {keys : Value}
    {ks : List Key} (hkeys : (st.runThrough keys >>= fun us => us.mapM st.key) = .ok ks) :
    ∃ picked others joined,
      Schema.pick st (.object fields .strip) keys = .ok picked ∧
      Schema.dropKeys st (.object fields .strip) keys = .ok others ∧
      Schema.merge st picked (.schema others) = .ok joined ∧
      ((∃ f w', Finds env mode (depth + 1) (.object fields .strip) v c w f w') ↔
        (∃ f w', Finds env mode (depth + 1) picked v c w f w') ∧
        (∃ f w', Finds env mode (depth + 1) others v c w f w')) ∧
      ((∃ f w', Finds env mode (depth + 1) joined v c w f w') ↔
        ∃ f w', Finds env mode (depth + 1) (.object fields .strip) v c w f w') ∧
      ∀ f w₀ p w₁ o w₂ j w₃,
        Finds env mode (depth + 1) (.object fields .strip) v c w f w₀ →
        Finds env mode (depth + 1) picked v c w p w₁ →
        Finds env mode (depth + 1) others v c w o w₂ →
        Finds env mode (depth + 1) joined v c w j w₃ →
        SplitBy c.path ks f p o j := by
  have hin : pickKeys fields ks ⊆ fields := List.filter_subset_self fields
  have hout : omitKeys fields ks ⊆ fields := List.filter_subset_self fields
  have hjoined : rejoined fields ks ⊆ fields := List.append_subset.mpr ⟨hin, hout⟩
  refine ⟨.object (pickKeys fields ks) .strip, .object (omitKeys fields ks) .strip,
    .object (rejoined fields ks) .strip, ?_, ?_, merge_pickKeys_omitKeys h.distinct ks st _ _,
    ?_, ?_, ?_⟩
  · rw [pick, ← bind_assoc, hkeys]
    rfl
  · rw [dropKeys, ← bind_assoc, hkeys]
    rfl
  · rw [h.finds_iff_ends (List.Subset.refl fields), h.finds_iff_ends hin, h.finds_iff_ends hout]
    exact FieldsSteady.ends_iff_split fields
  · rw [h.finds_iff_ends (List.Subset.refl fields), h.finds_iff_ends hjoined,
      FieldsSteady.ends_iff_split fields]
    exact List.forall_mem_append
  · intro f w₀ p w₁ o w₂ j w₃ hf hp ho hj
    have hbelow : ∀ x ∈ foundIn env mode depth (c.mark v) v w fields,
        ∀ e ∈ x.2.errors, c.path ++ [x.1] <+: e.path := fun x hx => by
      simpa using prefix_of_mem_foundIn hx
    have hsplit := splitBy_objectFinding hbelow ks
    rw [← foundIn_filter fun k => ks.any (·.same k), ← foundIn_filter fun k => !ks.any (·.same k),
      ← foundIn_append] at hsplit
    rw [h.eq_objectFinding (List.Subset.refl fields) hf, h.eq_objectFinding hin hp,
      h.eq_objectFinding hout ho, h.eq_objectFinding hjoined hj]
    exact ⟨hsplit.picked_errors, hsplit.others_errors, hsplit.joined_errors, hsplit.invalid_iff,
      hsplit.joined_invalid_iff, hsplit.results⟩

/-- On a fresh context, what is found are the errors that the check leaves. -/
theorem exists_finds_at_start (env : Setting σ) (mode : Mode) (depth : Nat) {s : Schema}
    {v r : Value} {c' : Context}
    (h : (check env mode depth s v).runIn {} w = (.ok r, c', w')) :
    ∃ f, Finds env mode depth s v {} w f w' ∧ f.result = r ∧ f.errors = c'.errors := by
  obtain ⟨f, hf, hresult, rfl⟩ := exists_finds_of_run h
  exact ⟨f, hf, hresult, by simp [Context.adding]⟩

/-- Asks for a name, the mapping in itself, and a note that may be absent. -/
def selfFields : Entries Schema :=
  [(.text "name", .string {}), (.text "self", .object [] .strip), (.text "note", .optional .any)]

/-- The mapping holds itself, and its name is a number. Of the keys one is not declared. The
picked fields have the error of the name, the others that of the mapping in itself. -/
theorem selection_splits_object_namedSelf :
    ∃ picked others joined,
      Schema.pick {} (.object selfFields .strip) (.list [.text "name", .text "nick"]) = .ok picked ∧
      Schema.dropKeys {} (.object selfFields .strip) (.list [.text "name", .text "nick"]) =
        .ok others ∧
      Schema.merge {} picked (.schema others) = .ok joined ∧
      ∃ f p o j w',
        Finds idleHost .immediate 3 (.object selfFields .strip) (.shared 0 false) {} namedSelf f
          w' ∧
        Finds idleHost .immediate 3 picked (.shared 0 false) {} namedSelf p w' ∧
        Finds idleHost .immediate 3 others (.shared 0 false) {} namedSelf o w' ∧
        Finds idleHost .immediate 3 joined (.shared 0 false) {} namedSelf j w' ∧
        p.errors.map (·.path) = [[.text "name"]] ∧ o.errors.map (·.path) = [[.text "self"]] ∧
        SplitBy [] [.text "name", .text "nick"] f p o j := by
  have hsteady : FieldsSteady idleHost .immediate 2 selfFields (.shared 0 false) {} namedSelf :=
    .of_isPure pure_idleHost (by decide) rfl rfl
  have hkeys : (Store.runThrough {} (.list [.text "name", .text "nick"]) >>=
      fun us => us.mapM (Store.key {})) = .ok [.text "name", .text "nick"] := rfl
  obtain ⟨picked, others, joined, hpick, hdrop, hmerge, -, -, hsplit⟩ :=
    selection_splits_object idleHost .immediate 2 hsteady hkeys
  refine ⟨picked, others, joined, hpick, hdrop, hmerge, ?_⟩
  cases hpick
  cases hdrop
  cases hmerge
  obtain ⟨f, hf, -, -⟩ := exists_finds_at_start idleHost .immediate 3
    (s := .object selfFields .strip) (v := .shared 0 false) (w := namedSelf) rfl
  obtain ⟨p, hp, -, hpicked⟩ := exists_finds_at_start idleHost .immediate 3
    (s := .object (pickKeys selfFields [.text "name", .text "nick"]) .strip)
    (v := .shared 0 false) (w := namedSelf) rfl
  obtain ⟨o, ho, -, hothers⟩ := exists_finds_at_start idleHost .immediate 3
    (s := .object (omitKeys selfFields [.text "name", .text "nick"]) .strip)
    (v := .shared 0 false) (w := namedSelf) rfl
  obtain ⟨j, hj, -, -⟩ := exists_finds_at_start idleHost .immediate 3
    (s := .object (rejoined selfFields [.text "name", .text "nick"]) .strip)
    (v := .shared 0 false) (w := namedSelf) rfl
  refine ⟨f, p, o, j, _, hf, hp, ho, hj, ?_, ?_, hsplit f _ p _ o _ j _ hf hp ho hj⟩
  · rw [hpicked]
    rfl
  · rw [hothers]
    rfl

/-- Asks for an item that a step adds to one list, and then for two items in another. -/
def growingFields : Entries Schema :=
  [(.text "tags", .transform .any (.callback 0)),
    (.text "same", .array .any { min := some ⟨2, none⟩ })]

/-- A mapping that has the same list of one item twice. -/
def twiceTagged : Value :=
  .mapping false [(.text "tags", .shared 0 false), (.text "same", .shared 0 false)]

/-- A host whose steps add that item. -/
def taggingHost : Setting Unit := changingHost (.list [.text "a", .text "b"])

/-- If a step changes a list that another field is given as well, the object accepts, but
not the one without the field of the step. -/
theorem selection_of_dependent_fields :
    ∃ others, Schema.dropKeys {} (.object growingFields .strip) (.list [.text "tags"]) =
        .ok others ∧
      (∃ f w', Finds taggingHost .immediate 3 (.object growingFields .strip) twiceTagged {}
          { store := ⟨#[.list [.text "a"]]⟩, host := () } f w' ∧
        f.result ≠ .invalid ∧ f.errors = []) ∧
      ∀ f w', Finds taggingHost .immediate 3 others twiceTagged {}
          { store := ⟨#[.list [.text "a"]]⟩, host := () } f w' → f.result = .invalid := by
  refine ⟨_, rfl, ?_, fun f w' hf => ?_⟩
  · obtain ⟨f, hf, hresult, herrors⟩ := exists_finds_at_start taggingHost .immediate 3
      (s := .object growingFields .strip) (v := twiceTagged)
      (w := { store := ⟨#[.list [.text "a"]]⟩, host := () }) rfl
    refine ⟨f, _, hf, ?_, herrors.trans rfl⟩
    rw [hresult]
    exact Value.noConfusion
  · exact (Except.ok.inj (congrArg Prod.fst hf)).symm

end Conform
