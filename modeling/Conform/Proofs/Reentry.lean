import Mathlib.Data.Fintype.Card
import Conform.Proofs.Agreement

/-!
# Exports of schemas that come back to themselves

A deferred schema may stand in what it stands for. Its export looks into that once: the world
remembers which deferred schemas are being exported, and one that is met again is exported as
the empty document. The flag, which is asked of the fields of an object, has no such guard. It
ends as it does not look into fields and elements, and each way round passes through one.

What is being exported is restored however an export ends, so that one export leaves nothing
behind that another could see, but for what has been built. As each deferred schema stands for
one schema only, that does not change the document either.

## Main definitions

* `DeferralGraph` — finitely many deferred schemas, with what they stand for.
* `ExportCall`, `ExportCall.Makes` — the exports that an export makes inside.

## Main results

* `DeferralGraph.Holds.exportable` — what mentions deferred schemas of a graph only has an end.
* `ExportCall.runIn_exportLayer_congr` — an export makes no others than those.
* `ExportCall.countP_expands_le` — along a branch a deferred schema is looked into once.
* `ExportCall.reentry_is_empty` — below itself it is exported as the empty document.
* `concur_exportSchema` — the document does not depend on what has been built.
* `export_ends_and_restores` — all this of one export, and of one after others.
-/

namespace Conform

open Setting

/-! ## Graphs -/

/-- Finitely many deferred schemas, with what they stand for. No deferred schema comes back to
itself but through a field or an element. Other than in a `SchemaGraph`, there may be defaults:
to export one checks nothing. -/
structure DeferralGraph where
  ids : Finset Nat
  schemas : Nat → Schema
  closed (id : Nat) (h : id ∈ ids) (j : Nat) (hj : (schemas id).Mentions j) : j ∈ ids
  guarded (id : Nat) (h : id ∈ ids) :
    ¬ Relation.TransGen (fun i j => (schemas i).Exposes j) id id

namespace DeferralGraph

variable (G : DeferralGraph)

/-- A deferred schema stands for its schema in the graph only. -/
def May (id : Nat) (t : Schema) : Prop := t = G.schemas id

/-- A schema mentions deferred schemas of the graph only. -/
def Holds (s : Schema) : Prop := ∀ id, s.Mentions id → id ∈ G.ids

variable {G}

theorem Holds.of_part {s t : Schema} (hs : G.Holds s) (h : s.Part t) : G.Holds t :=
  fun id ht => hs id (h.trans ht)

/-- What hands values on to guarded deferred schemas only is guarded: by induction on the
schema. -/
theorem guarded_of_exposed {t : Schema}
    (h : ∀ id, t.Exposes id → (Schema.deferred id).Guarded G.May) : t.Guarded G.May := by
  induction hsize : sizeOf t using Nat.strong_induction_on generalizing t with
  | _ size ih =>
      refine .intro _ fun u hu => ?_
      cases hu with
      | passes hpasses =>
          exact ih _ (hsize ▸ Schema.sizeOf_lt_of_passes hpasses)
            (fun id hid => h id (.head hpasses hid)) rfl
      | deferred hmay => exact (h _ .refl).inv (.deferred hmay)

/-- A deferred schema of the graph is guarded: there are finitely many, and none comes back to
itself. -/
theorem guarded_deferred {id : Nat} (hid : id ∈ G.ids) : (Schema.deferred id).Guarded G.May := by
  let leads : G.ids → G.ids → Prop :=
    fun j i => Relation.TransGen (fun i j => (G.schemas i).Exposes j) i.1 j.1
  have : IsTrans G.ids leads := ⟨fun _ _ _ hij hjk => hjk.trans hij⟩
  have : Std.Irrefl leads := ⟨fun i => G.guarded i.1 i.2⟩
  have hwf : WellFounded leads := Finite.wellFounded_of_trans_of_irrefl leads
  suffices hall : ∀ i : G.ids, (Schema.deferred i.1).Guarded G.May from hall ⟨id, hid⟩
  intro i
  induction i using hwf.induction with
  | _ i ih =>
      refine .intro _ fun t ht => ?_
      cases ht with
      | passes hpasses => cases hpasses
      | deferred hmay =>
          obtain rfl : t = G.schemas i.1 := hmay
          refine guarded_of_exposed fun j hj => ?_
          have hmem : j ∈ G.ids := G.closed i.1 i.2 j (Schema.mentions_of_exposes hj)
          exact ih ⟨j, hmem⟩ (.single hj)

/-- So is all that mentions deferred schemas of the graph only. -/
theorem Holds.exportable {s : Schema} (hs : G.Holds s) : s.Exportable G.May G.ids where
  guarded _ ht := guarded_of_exposed fun id hid =>
    guarded_deferred (hs.of_part ht id (Schema.mentions_of_exposes hid))
  deferred := hs

end DeferralGraph

/-! ## The exports that an export makes -/

/-- The schemas that a schema has exported one after another. -/
def Schema.row? : Schema → Option (List Schema)
  | .object fields _ => some (fields.map Prod.snd)
  | .union first rest => some (first :: rest)
  | .intersection first rest => some (first :: rest)
  | _ => none

/-- The one schema that a schema has exported. -/
def Schema.inside? : Schema → Option Schema
  | .array element _ => some element
  | .optional inner => some inner
  | .nullable inner => some inner
  | .withDefault inner _ => some inner
  | .transform inner _ => some inner
  | .refine inner _ _ _ => some inner
  | _ => none

/-- One layer of the export, given how the schemas inside are exported. -/
def Setting.exportLayer {σ : Type} (env : Setting σ) (accepts : Schema → Act σ Bool)
    (child : Schema → Act σ Document) (s : Schema) : Act σ Document :=
  match s with
  | .object fields unknown => do
    let documents ← exportAll child (fields.map Prod.snd)
    let keys ← requiredKeys accepts fields
    return objectDocument (Entries.keys fields |>.zip documents) keys unknown
  | .array element bounds => return bounds.document (← child element)
  | .union first rest => return [.anyOf (← exportAll child (first :: rest))]
  | .intersection first rest => return [.allOf (← exportAll child (first :: rest))]
  | .optional inner => child inner
  | .nullable inner => return [.anyOf [← child inner, [.type "null"]]]
  | .withDefault inner default => return (← child inner).put (.default default)
  | .transform inner _ => child inner
  | .refine inner _ _ _ => child inner
  | .deferred id => do
    if (← get).exporting.contains id then return []
    else whileExporting id (env.resolve id >>= child)
  | s => return s.ownDocument?.getD []

theorem Setting.exportSchema_succ {σ : Type} (env : Setting σ) (depth : Nat) (s : Schema) :
    env.exportSchema (depth + 1) s =
      env.exportLayer (env.acceptsMissing depth) (env.exportSchema depth) s := by
  cases s with
  | object fields unknown => simp [exportSchema, exportLayer, exportFields_eq, objectDocument]
  | _ => rfl

theorem exportAll_concat {σ : Type} (child : Schema → Act σ Document) (ss : List Schema)
    (s : Schema) :
    exportAll child (ss ++ [s]) = do
      let ds ← exportAll child ss
      let d ← child s
      return ds ++ [d] := by
  induction ss with
  | nil => simp [exportAll]
  | cons t ss ih => simp [exportAll, ih]

/-- An export that is made: the depth that is left to it, its schema, and the world in which it
is made. -/
structure ExportCall (σ : Type) where
  depth : Nat
  schema : Schema
  world : World σ

namespace ExportCall

variable {σ : Type} {env : Setting σ}

/-- How an export ends. -/
def run (env : Setting σ) (f : ExportCall σ) : Except Fault Document × World σ :=
  (env.exportSchema f.depth f.schema).runIn f.world

/-- The exports that an export makes. Those of a row are made one after another; that of what a
deferred schema stands for is made if this is not being exported yet. -/
inductive Makes (env : Setting σ) : ExportCall σ → ExportCall σ → Prop
  | among {depth s ss w earlier t later ds w₁} (hrow : s.row? = some ss)
      (hsplit : ss = earlier ++ t :: later)
      (hearlier : (exportAll (env.exportSchema depth) earlier).runIn w = (.ok ds, w₁)) :
      Makes env ⟨depth + 1, s, w⟩ ⟨depth, t, w₁⟩
  | inside {depth s t w} (hinside : s.inside? = some t) :
      Makes env ⟨depth + 1, s, w⟩ ⟨depth, t, w⟩
  | deferred {depth id w t w₁} (hnew : id ∉ w.exporting)
      (hresolve : (env.resolve id).runIn { w with exporting := id :: w.exporting } = (.ok t, w₁)) :
      Makes env ⟨depth + 1, .deferred id, w⟩ ⟨depth, t, w₁⟩

/-- Exports each of which is made by the one before it. -/
abbrev Branch (env : Setting σ) : List (ExportCall σ) → Prop := List.IsChain (Makes env)

/-- An export looks into what a deferred schema stands for. -/
def expands (f : ExportCall σ) (id : Nat) : Bool :=
  match f.schema with
  | .deferred j => j = id && !f.world.exporting.contains id
  | _ => false

section Layers

variable {depth : Nat} {s : Schema} {w : World σ} {child : Schema → Act σ Document}

theorem runIn_exportAll_congr {ss : List Schema}
    (hchild : ∀ earlier t later ds w₁, ss = earlier ++ t :: later →
      (exportAll (env.exportSchema depth) earlier).runIn w = (.ok ds, w₁) →
      (child t).runIn w₁ = (env.exportSchema depth t).runIn w₁) :
    (exportAll child ss).runIn w = (exportAll (env.exportSchema depth) ss).runIn w := by
  induction ss using List.reverseRecOn with
  | nil => rfl
  | append_singleton ss t ih =>
      rw [exportAll_concat, exportAll_concat]
      have hbefore := ih fun earlier u later ds w₁ hsplit =>
        hchild earlier u (later ++ [t]) ds w₁ (by simp [hsplit])
      refine Act.runIn_bind_congr hbefore fun ds w₁ hds => ?_
      exact Act.runIn_bind_congr (hchild ss t [] ds w₁ rfl (hbefore ▸ hds)) fun _ _ _ => rfl

/-- A layer depends on the exports inside only through those that it makes: `Makes` leaves none
out. -/
theorem runIn_exportLayer_congr
    (hchild : ∀ g, Makes env ⟨depth + 1, s, w⟩ g →
      (child g.schema).runIn g.world = (env.exportSchema depth g.schema).runIn g.world) :
    (env.exportLayer (env.acceptsMissing depth) child s).runIn w =
      (env.exportSchema (depth + 1) s).runIn w := by
  rw [exportSchema_succ]
  have hall : ∀ ss, s.row? = some ss →
      (exportAll child ss).runIn w = (exportAll (env.exportSchema depth) ss).runIn w :=
    fun ss hrow => runIn_exportAll_congr fun earlier t later ds w₁ hsplit hearlier =>
      hchild _ (.among hrow hsplit hearlier)
  have hone : ∀ t, s.inside? = some t →
      (child t).runIn w = (env.exportSchema depth t).runIn w :=
    fun t hinside => hchild _ (.inside hinside)
  cases s with
  | object fields unknown => exact Act.runIn_bind_congr (hall _ rfl) fun _ _ _ => rfl
  | array element bounds => exact Act.runIn_bind_congr (hone _ rfl) fun _ _ _ => rfl
  | union first rest => exact Act.runIn_bind_congr (hall _ rfl) fun _ _ _ => rfl
  | intersection first rest => exact Act.runIn_bind_congr (hall _ rfl) fun _ _ _ => rfl
  | optional inner => exact hone _ rfl
  | nullable inner => exact Act.runIn_bind_congr (hone _ rfl) fun _ _ _ => rfl
  | withDefault inner default => exact Act.runIn_bind_congr (hone _ rfl) fun _ _ _ => rfl
  | transform inner step => exact hone _ rfl
  | refine inner id words code => exact hone _ rfl
  | deferred id =>
      refine (runIn_unlessExporting id _ w).trans (.trans ?_ (runIn_unlessExporting id _ w).symm)
      by_cases hid : id ∈ w.exporting
      · rw [if_pos (by simpa using hid), if_pos (by simpa using hid)]
      · rw [if_neg (by simpa using hid), if_neg (by simpa using hid), runIn_whileExporting,
          runIn_whileExporting]
        have hsame : (env.resolve id >>= child).runIn { w with exporting := id :: w.exporting } =
            (env.resolve id >>= env.exportSchema depth).runIn
              { w with exporting := id :: w.exporting } :=
          Act.runIn_bind_congr rfl fun t w₁ hresolve => hchild _ (.deferred hid hresolve)
        rw [hsame]
  | _ => rfl

end Layers

section Branches

variable {f g : ExportCall σ}

theorem expands_iff {id : Nat} :
    f.expands id = true ↔ f.schema = .deferred id ∧ id ∉ f.world.exporting := by
  unfold expands
  split
  · rename_i j hschema
    simp only [hschema, Bool.and_eq_true, decide_eq_true_eq, Schema.deferred.injEq]
    refine and_congr_right ?_
    rintro rfl
    simp
  · rename_i hschema
    simp only [Bool.false_eq_true, false_iff, not_and]
    exact fun h => absurd h (hschema id)

theorem expands_eq_false {id : Nat} (h : id ∈ f.world.exporting) : f.expands id = false :=
  Bool.eq_false_iff.mpr fun hexpands => (expands_iff.mp hexpands).2 h

/-- What is being exported in an export that is made: what was, and what is looked into. -/
theorem mem_exporting_of_makes (hexporting : ∀ E, env.Keeps fun w => w.exporting = E)
    (h : Makes env f g) (id : Nat) :
    id ∈ g.world.exporting ↔ id ∈ f.world.exporting ∨ f.expands id = true := by
  cases h with
  | @among depth s ss w earlier t later ds w₁ hrow _ hearlier =>
      have hkept : w₁.exporting = w.exporting :=
        (keeps_exportAll (keeps_exporting_exportSchema (hexporting _) depth) earlier).of_run
          hearlier rfl
      have hnot : expands (⟨depth + 1, s, w⟩ : ExportCall σ) id = false := by
        cases s <;> first | rfl | cases hrow
      simp [hkept, hnot]
  | @inside depth s t w hinside =>
      have hnot : expands (⟨depth + 1, s, w⟩ : ExportCall σ) id = false := by
        cases s <;> first | rfl | cases hinside
      simp [hnot]
  | @deferred depth j w t w₁ hnew hresolve =>
      have hkept : w₁.exporting = j :: w.exporting :=
        ((hexporting _).resolve j).of_run hresolve rfl
      rw [expands_iff, hkept, List.mem_cons, or_comm]
      refine or_congr_right ⟨?_, fun h => (Schema.deferred.inj h.1).symm⟩
      rintro rfl
      exact ⟨rfl, hnew⟩

/-- What is being exported goes on being exported further down. -/
theorem mem_exporting_of_reaches (hexporting : ∀ E, env.Keeps fun w => w.exporting = E)
    (h : Relation.ReflTransGen (Makes env) f g) {id : Nat} (hid : id ∈ f.world.exporting) :
    id ∈ g.world.exporting := by
  induction h with
  | refl => exact hid
  | tail _ hmakes ih => exact (mem_exporting_of_makes hexporting hmakes id).mpr (.inl ih)

/-- Along a branch a deferred schema is looked into once, and not if it is being exported
already. -/
theorem countP_expands_le (hexporting : ∀ E, env.Keeps fun w => w.exporting = E) (id : Nat)
    {calls : List (ExportCall σ)} (h : Branch env (f :: calls)) :
    (f :: calls).countP (·.expands id) ≤ if id ∈ f.world.exporting then 0 else 1 := by
  induction calls generalizing f with
  | nil =>
      rw [List.countP_cons, List.countP_nil]
      by_cases hid : id ∈ f.world.exporting
      · simp [hid, expands_eq_false hid]
      · simp only [hid, if_false, zero_add]
        split <;> omega
  | cons g calls ih =>
      obtain ⟨hmakes, hrest⟩ := List.isChain_cons_cons.mp h
      have hbelow := ih hrest
      have hmem := mem_exporting_of_makes hexporting hmakes id
      rw [List.countP_cons]
      by_cases hid : id ∈ f.world.exporting
      · simpa [expands_eq_false hid, hid, hmem.mpr (.inl hid)] using hbelow
      · cases hexpands : f.expands id with
        | true => simpa [hid, hmem.mpr (.inr hexpands)] using hbelow
        | false =>
            have hnot : id ∉ g.world.exporting := by simp [hmem, hid, hexpands]
            simpa [hid, hnot, hexpands] using hbelow

/-- Below a deferred schema the same one is exported as the empty document, and nothing further
is looked into. -/
theorem reentry_is_empty (hexporting : ∀ E, env.Keeps fun w => w.exporting = E) {id : Nat}
    (hf : f.schema = .deferred id) (hg : g.schema = .deferred id)
    (h : Relation.TransGen (Makes env) f g) :
    (∀ depth, (env.exportSchema (depth + 1) g.schema).runIn g.world = (.ok [], g.world)) ∧
      ∀ k, ¬ Makes env g k := by
  obtain ⟨first, hmakes, hreaches⟩ := Relation.TransGen.head'_iff.mp h
  have hfirst : id ∈ first.world.exporting :=
    (mem_exporting_of_makes hexporting hmakes id).mpr
      (or_iff_not_imp_left.mpr fun hnew => expands_iff.mpr ⟨hf, hnew⟩)
  have hid : id ∈ g.world.exporting := mem_exporting_of_reaches hexporting hreaches hfirst
  refine ⟨fun depth => ?_, fun k hk => ?_⟩
  · rw [hg, runIn_exportSchema_deferred, if_pos (by simpa using hid)]
  · cases hk with
    | among hrow =>
        obtain rfl := hg
        cases hrow
    | inside hinside =>
        obtain rfl := hg
        cases hinside
    | deferred hnew _ =>
        obtain rfl := Schema.deferred.inj hg
        exact hnew hid

end Branches

end ExportCall

/-! ## One export and another -/

/-- Two worlds in which deferred schemas stand for what they may stand for, and the same are
being exported. -/
structure World.Matched {σ : Type} (may : Nat → Schema → Prop) (w v : World σ) : Prop where
  left : w.Stands may
  right : v.Stands may
  exporting : w.exporting = v.exporting

/-- Started in matched worlds, two acts that end by values end by the same one, in matched
worlds. -/
def Act.Concur {σ α : Type} (may : Nat → Schema → Prop) (act act' : Act σ α) : Prop :=
  ∀ w v a b w' v', World.Matched may w v → act.runIn w = (.ok a, w') → act'.runIn v = (.ok b, v') →
    a = b ∧ World.Matched may w' v'

namespace Act.Concur

variable {σ α β : Type} {may : Nat → Schema → Prop} {act act' : Act σ α}

protected theorem pure (a : α) : Act.Concur may (Pure.pure a : Act σ α) (Pure.pure a) := by
  intro w v b b' w' v' hmatched hw hv
  cases hw
  cases hv
  exact ⟨rfl, hmatched⟩

protected theorem throw (f : Fault) : Act.Concur may (MonadExcept.throw f : Act σ α) act' := by
  intro w v b b' w' v' hmatched hw hv
  cases hw

theorem bind {k k' : α → Act σ β} (h : Act.Concur may act act')
    (hk : ∀ a, Act.Concur may (k a) (k' a)) : Act.Concur may (act >>= k) (act' >>= k') := by
  intro w v b b' w' v' hmatched hw hv
  obtain ⟨a, w₁, hact, hw⟩ := Act.runIn_bind_ok_iff.mp hw
  obtain ⟨a', v₁, hact', hv⟩ := Act.runIn_bind_ok_iff.mp hv
  obtain ⟨rfl, hmatched⟩ := h w v a a' w₁ v₁ hmatched hact hact'
  exact hk a w₁ v₁ b b' w' v' hmatched hw hv

end Act.Concur

section Concurs

variable {σ : Type} {env : Setting σ} {may : Nat → Schema → Prop}

theorem concur_anyOf {p p' : Schema → Act σ Bool} (hp : ∀ s, Act.Concur may (p s) (p' s))
    (ss : List Schema) : Act.Concur may (anyOf p ss) (anyOf p' ss) := by
  induction ss with
  | nil => exact .pure false
  | cons s ss ih =>
      refine .bind (hp s) fun b => ?_
      cases b with
      | true => exact .pure true
      | false => exact ih

theorem concur_allOf {p p' : Schema → Act σ Bool} (hp : ∀ s, Act.Concur may (p s) (p' s))
    (ss : List Schema) : Act.Concur may (allOf p ss) (allOf p' ss) := by
  induction ss with
  | nil => exact .pure true
  | cons s ss ih =>
      refine .bind (hp s) fun b => ?_
      cases b with
      | true => exact ih
      | false => exact .pure false

theorem concur_exportAll {child child' : Schema → Act σ Document}
    (h : ∀ s, Act.Concur may (child s) (child' s)) (ss : List Schema) :
    Act.Concur may (exportAll child ss) (exportAll child' ss) := by
  induction ss with
  | nil => exact .pure []
  | cons s ss ih => exact .bind (h s) fun d => .bind ih fun ds => .pure (d :: ds)

theorem concur_requiredKeys {accepts accepts' : Schema → Act σ Bool}
    (h : ∀ s, Act.Concur may (accepts s) (accepts' s)) (fields : Entries Schema) :
    Act.Concur may (requiredKeys accepts fields) (requiredKeys accepts' fields) := by
  induction fields with
  | nil => exact .pure []
  | cons e fields ih => exact .bind (h e.2) fun b => .bind ih fun keys => .pure _

theorem concur_whileExporting {act act' : Act σ Document} (id : Nat)
    (h : Act.Concur may act act') :
    Act.Concur may (whileExporting id act) (whileExporting id act') := by
  intro w v a b w' v' hmatched hw hv
  have hinside : World.Matched may { w with exporting := id :: w.exporting }
      { v with exporting := id :: v.exporting } :=
    ⟨hmatched.left, hmatched.right, congrArg (id :: ·) hmatched.exporting⟩
  rw [runIn_whileExporting] at hw hv
  rcases hrun : act.runIn { w with exporting := id :: w.exporting } with ⟨r, w₁⟩
  rcases hrun' : act'.runIn { v with exporting := id :: v.exporting } with ⟨r', v₁⟩
  rw [hrun] at hw
  rw [hrun'] at hv
  obtain ⟨rfl, rfl⟩ := Prod.mk.inj hw
  obtain ⟨rfl, rfl⟩ := Prod.mk.inj hv
  obtain ⟨hsame, hafter⟩ := h _ _ a b w₁ v₁ hinside hrun hrun'
  exact ⟨hsame, hafter.left, hafter.right, hmatched.exporting⟩

theorem concur_unlessExporting {act act' : Act σ Document} (id : Nat)
    (h : Act.Concur may act act') :
    Act.Concur may
      (get >>= fun w : World σ => if w.exporting.contains id then pure [] else act)
      (get >>= fun w : World σ => if w.exporting.contains id then pure [] else act') := by
  intro w v a b w' v' hmatched hw hv
  rw [runIn_unlessExporting] at hw hv
  rw [hmatched.exporting] at hw
  cases hid : v.exporting.contains id with
  | true =>
      simp only [hid, if_true] at hw hv
      cases hw
      cases hv
      exact ⟨rfl, hmatched⟩
  | false =>
      simp only [hid, Bool.false_eq_true, if_false] at hw hv
      exact h w v a b w' v' hmatched hw hv

variable (henv : env.Upholds may) (hexporting : ∀ E, env.Keeps fun w => w.exporting = E)
  (hone : ∀ id s t, may id s → may id t → s = t)

include henv hexporting hone

/-- A deferred schema is resolved to the one schema that it may stand for. -/
theorem concur_resolve (id : Nat) : Act.Concur may (env.resolve id) (env.resolve id) := by
  intro w v s t w' v' hmatched hw hv
  have hleft := (henv.stands.resolve id).of_run hw hmatched.left
  have hright := (henv.stands.resolve id).of_run hv hmatched.right
  refine ⟨hone id s t (hleft id s (standing_of_resolve hw)) (hright id t (standing_of_resolve hv)),
    hleft, hright, ?_⟩
  rw [((hexporting _).resolve id).of_run hw rfl, ((hexporting _).resolve id).of_run hv rfl,
    hmatched.exporting]

/-- The flag does not depend on what has been built. -/
theorem concur_acceptsMissing (depth depth' : Nat) (s : Schema) :
    Act.Concur may (env.acceptsMissing depth s) (env.acceptsMissing depth' s) := by
  induction depth generalizing depth' s with
  | zero => exact .throw _
  | succ depth ih =>
      cases depth' with
      | zero =>
          intro w v a b w' v' _ _ hv
          cases hv
      | succ depth' =>
          cases s with
          | optional inner => exact .pure true
          | withDefault inner default => exact .pure true
          | nullable inner => exact ih depth' inner
          | transform inner step => exact ih depth' inner
          | refine inner id words code => exact ih depth' inner
          | union first rest => exact concur_anyOf (ih depth') (first :: rest)
          | intersection first rest => exact concur_allOf (ih depth') (first :: rest)
          | deferred id => exact .bind (concur_resolve henv hexporting hone id) (ih depth')
          | _ => exact .pure false

/-- Nor does the document. -/
theorem concur_exportSchema (depth depth' : Nat) (s : Schema) :
    Act.Concur may (env.exportSchema depth s) (env.exportSchema depth' s) := by
  induction depth generalizing depth' s with
  | zero => exact .throw _
  | succ depth ih =>
      cases depth' with
      | zero =>
          intro w v a b w' v' _ _ hv
          cases hv
      | succ depth' =>
          rw [exportSchema_succ, exportSchema_succ]
          cases s with
          | object fields unknown =>
              exact .bind (concur_exportAll (ih depth') _) fun ds =>
                .bind (concur_requiredKeys (concur_acceptsMissing henv hexporting hone depth depth')
                  fields) fun keys => .pure _
          | array element bounds => exact .bind (ih depth' element) fun d => .pure _
          | union first rest => exact .bind (concur_exportAll (ih depth') _) fun ds => .pure _
          | intersection first rest =>
              exact .bind (concur_exportAll (ih depth') _) fun ds => .pure _
          | optional inner => exact ih depth' inner
          | nullable inner => exact .bind (ih depth' inner) fun d => .pure _
          | withDefault inner default => exact .bind (ih depth' inner) fun d => .pure _
          | transform inner step => exact ih depth' inner
          | refine inner id words code => exact ih depth' inner
          | deferred id =>
              exact concur_unlessExporting id (concur_whileExporting id
                (.bind (concur_resolve henv hexporting hone id) (ih depth')))
          | _ => exact .pure _

/-- While the same are being exported, an export that ends by a document ends by the same one
from everywhere. -/
theorem exists_document {E : List Nat} {s : Schema}
    (hends : Act.Ends (World.Exporting may E) fun depth => env.exportSchema depth s)
    {w v : World σ} (hw : w.Exporting may E) (hv : v.Exporting may E) :
    ∃ d w' v', EndsBy (fun depth => (env.exportSchema depth s).runIn w) (.ok d, w') ∧
      EndsBy (fun depth => (env.exportSchema depth s).runIn v) (.ok d, v') := by
  obtain ⟨d, w', -, hwends⟩ := hends w hw
  obtain ⟨d', v', -, hvends⟩ := hends v hv
  obtain ⟨depth, hrun⟩ := hwends.exists_eq
  obtain ⟨depth', hrun'⟩ := hvends.exists_eq
  have hmatched : World.Matched may w v := ⟨hw.1, hv.1, hw.2.trans hv.2.symm⟩
  obtain ⟨rfl, -⟩ := concur_exportSchema henv hexporting hone depth depth' s w v d d' w' v'
    hmatched hrun hrun'
  exact ⟨d, w', v', hwends, hvends⟩

end Concurs

/-! ## One export after others -/

section Exports

variable {σ : Type} {env : Setting σ} {may : Nat → Schema → Prop} {w w' : World σ}

/-- A world comes from another by an export, whichever way that ends. -/
def Setting.Exported (env : Setting σ) (w w' : World σ) : Prop :=
  ∃ depth t, w' = ((env.exportSchema depth t).runIn w).2

/-- Exports leave what is being exported, and what deferred schemas stand for. -/
theorem exporting_of_exported (henv : env.Upholds may)
    (hexporting : ∀ E, env.Keeps fun w => w.exporting = E) {E : List Nat}
    (h : Relation.ReflTransGen env.Exported w w') (hw : w.Exporting may E) :
    w'.Exporting may E := by
  induction h with
  | refl => exact hw
  | tail _ hstep ih =>
      obtain ⟨depth, t, rfl⟩ := hstep
      exact ⟨stands_exportSchema henv depth t _ ih.1,
        keeps_exporting_exportSchema (hexporting E) depth t _ ih.2⟩

end Exports

/-- **The export of schemas that come back to themselves ends, and leaves nothing behind.** There
are finitely many deferred schemas, and each way round through them passes through a field or an
element. Then the export of a schema ends from some depth on, and by a fault only if a deferred
schema fails to be resolved. Along each branch of an export a deferred schema is looked into at
most once, and below itself it is exported as the empty document. What is being exported is after
an export, whichever way it ends, what it was before. So an export after any others gives the
document that a first one gives, and both give one if deferred schemas never fail to be
resolved. -/
theorem export_ends_and_restores {σ : Type} (G : DeferralGraph) (env : Setting σ)
    (henv : env.Upholds G.May) (hexporting : ∀ E, env.Keeps fun w => w.exporting = E) (s : Schema)
    (hs : G.Holds s) :
    (∀ w, w.Stands G.May → ∃ r w',
      EndsBy (fun depth => (env.exportSchema depth s).runIn w) (r, w') ∧
        ∀ f, r = .error f → env.FailsToResolve G.May f) ∧
    (∀ f calls, ExportCall.Branch env (f :: calls) →
      ∀ id, (f :: calls).countP (·.expands id) ≤ 1) ∧
    (∀ f g id, f.schema = .deferred id → g.schema = .deferred id →
      Relation.TransGen (ExportCall.Makes env) f g →
      (∀ depth, (env.exportSchema (depth + 1) g.schema).runIn g.world = (.ok [], g.world)) ∧
        ∀ k, ¬ ExportCall.Makes env g k) ∧
    (∀ depth w, ((env.exportSchema depth s).runIn w).2.exporting = w.exporting) ∧
    ∀ w w₁ v, w.Stands G.May → v.Stands G.May → v.exporting = w.exporting →
      Relation.ReflTransGen env.Exported w w₁ →
      (∀ depth depth' d d' w₂ v', (env.exportSchema depth s).runIn w₁ = (.ok d, w₂) →
        (env.exportSchema depth' s).runIn v = (.ok d', v') → d = d') ∧
      (env.Furnishes G.May → ∃ d w₂ v',
        EndsBy (fun depth => (env.exportSchema depth s).runIn w₁) (.ok d, w₂) ∧
          EndsBy (fun depth => (env.exportSchema depth s).runIn v) (.ok d, v')) := by
  have hmay : ∀ id ∈ G.ids, ∀ t, G.May id t → t.Exportable G.May G.ids := by
    rintro id hid t rfl
    exact DeferralGraph.Holds.exportable (G.closed id hid)
  refine ⟨?_, ?_, ?_, ?_, ?_⟩
  · intro w hw
    obtain ⟨r, w', -, hends, hfault⟩ :=
      exportSchema_halts henv.builds hexporting hmay w.exporting hs.exportable w ⟨hw, rfl⟩
    exact ⟨r, w', hends, hfault⟩
  · intro f calls hbranch id
    have hcount := ExportCall.countP_expands_le hexporting id hbranch
    split at hcount <;> omega
  · exact fun f g id hf hg h => ExportCall.reentry_is_empty hexporting hf hg h
  · exact fun depth w => keeps_exporting_exportSchema (hexporting w.exporting) depth s w rfl
  · intro w w₁ v hw hv hsame hexported
    have hw₁ := exporting_of_exported henv hexporting hexported ⟨hw, rfl⟩
    have hone : ∀ id t t', G.May id t → G.May id t' → t = t' :=
      fun id t t' (ht : t = _) (ht' : t' = _) => ht.trans ht'.symm
    refine ⟨fun depth depth' d d' w₂ v' hrun hrun' => ?_, fun hgives => ?_⟩
    · have hmatched : World.Matched G.May w₁ v := ⟨hw₁.1, hv, hw₁.2.trans hsame.symm⟩
      exact (concur_exportSchema henv hexporting hone depth depth' s w₁ v d d' w₂ v' hmatched
        hrun hrun').1
    · have hends := exportSchema_ends henv.builds hgives hexporting hmay w.exporting hs.exportable
      exact exists_document henv hexporting hone hends hw₁ ⟨hv, hsame⟩

/-- Labelled trees come back to themselves through a field and an element. -/
def labelledTreeGraph : DeferralGraph where
  ids := {0}
  schemas _ := labelledTree
  closed _ _ := exportable_labelledTree.deferred
  guarded id _ h := by
    obtain ⟨j, hj, -⟩ := Relation.TransGen.head'_iff.mp h
    rcases hj.cases_head with h | ⟨t, h, -⟩ <;> cases h

theorem holds_labelledTreeGraph : labelledTreeGraph.Holds (.deferred 0) := by
  intro id h
  rcases h.cases_head with h | ⟨t, ⟨⟨⟩⟩ | ⟨⟨⟩⟩, -⟩
  obtain rfl := Schema.deferred.inj h
  exact Finset.mem_singleton_self 0

/-- A host that cannot build such trees when it is asked first, and can from then on. -/
def unreadyHost : Setting Bool where
  apply _ v := return v
  test _ _ := return .settled (.bool true)
  testRule _ _ _ := return .settled (.bool true)
  produce _ := do
    if (← get).host then return .schema labelledTree
    else
      modify fun w => { w with host := true }
      throw (.raised "ValueError" "not yet")

theorem runIn_produce_unreadyHost (id : Nat) (w : World Bool) :
    (unreadyHost.produce id).runIn w =
      if w.host then (.ok (.schema labelledTree), w)
      else (.error (.raised "ValueError" "not yet"), { w with host := true }) := by
  obtain ⟨store, built, exporting, ready⟩ := w
  cases ready <;> rfl

theorem keeps_unreadyHost {I : World Bool → Prop} (hready : ∀ w, I w → I { w with host := true })
    (hbuild : ∀ w id, w.standing id = none → I w →
      I { w with built := (id, labelledTree) :: w.built }) : unreadyHost.Keeps I where
  apply _ _ _ hw := hw
  test _ _ _ hw := hw
  later _ _ _ _ _ hw h := by cases h
  resolve id := by
    refine Setting.keeps_resolve (fun w hw => ?_) fun w w₁ s hnone hrun hw => ?_
    · rw [runIn_produce_unreadyHost]
      split
      · exact hw
      · exact hready w hw
    · rw [runIn_produce_unreadyHost] at hrun
      split at hrun <;> cases hrun
      exact hbuild w id hnone hw

theorem upholds_unreadyHost : unreadyHost.Upholds labelledTreeGraph.May where
  remembers id t := keeps_unreadyHost (fun _ hw => hw) fun _ _ hnone hw =>
    World.recalls_build labelledTree hnone id t hw
  stands := keeps_unreadyHost (fun _ hw => hw) fun _ _ _ hw => hw.build rfl

/-- The factory raises in the first export. Nothing is being exported afterwards, and the next
export gives the document that a first one gives to a host that is ready. In that one the tree
is met again in its branches, and exported as the empty document there. -/
theorem export_ends_and_restores_unreadyHost :
    (∃ r w', EndsBy (fun depth =>
      (unreadyHost.exportSchema depth (.deferred 0)).runIn { host := false }) (r, w')) ∧
    ((unreadyHost.exportSchema 9 (.deferred 0)).runIn { host := false }).1 =
      .error (.raised "ValueError" "not yet") ∧
    ((unreadyHost.exportSchema 9 (.deferred 0)).runIn { host := false }).2.exporting = [] ∧
    (∃ d w₂ v',
      (unreadyHost.exportSchema 9 (.deferred 0)).runIn
        ((unreadyHost.exportSchema 9 (.deferred 0)).runIn { host := false }).2 = (.ok d, w₂) ∧
      (unreadyHost.exportSchema 12 (.deferred 0)).runIn { host := true } = (.ok d, v')) ∧
    (∃ g : ExportCall Bool,
      Relation.TransGen (ExportCall.Makes unreadyHost) ⟨12, .deferred 0, { host := true }⟩ g ∧
      g.schema = .deferred 0 ∧
      (unreadyHost.exportSchema g.depth g.schema).runIn g.world = (.ok [], g.world)) ∧
    ∃ d w₂, EndsBy (fun depth =>
      (labelledTreeHost.exportSchema depth (.deferred 0)).runIn { host := () }) (.ok d, w₂) := by
  have hnothing : ∀ ready, (⟨{}, [], [], ready⟩ : World Bool).Stands labelledTreeGraph.May := by
    rintro ready id t ⟨⟩
  obtain ⟨hends, -, hreentry, hrestored, hlater⟩ := export_ends_and_restores labelledTreeGraph
    unreadyHost upholds_unreadyHost (fun E => keeps_unreadyHost (fun _ hw => hw) fun _ _ _ hw => hw)
    (.deferred 0) holds_labelledTreeGraph
  refine ⟨?_, rfl, hrestored 9 _, ?_, ?_, ?_⟩
  · obtain ⟨r, w', hr, -⟩ := hends { host := false } (hnothing false)
    exact ⟨r, w', hr⟩
  · obtain ⟨d, w₂, hd⟩ : ∃ d w₂, (unreadyHost.exportSchema 9 (.deferred 0)).runIn
        ((unreadyHost.exportSchema 9 (.deferred 0)).runIn { host := false }).2 = (.ok d, w₂) :=
      ⟨_, _, rfl⟩
    obtain ⟨d', v', hd'⟩ : ∃ d' v', (unreadyHost.exportSchema 12 (.deferred 0)).runIn
        { host := true } = (.ok d', v') := ⟨_, _, rfl⟩
    obtain ⟨hsame, -⟩ := hlater { host := false } _ { host := true } (hnothing false)
      (hnothing true) rfl (.single ⟨9, .deferred 0, rfl⟩)
    obtain rfl := hsame 9 12 d d' w₂ v' hd hd'
    exact ⟨d, w₂, v', hd, hd'⟩
  · have htree : ExportCall.Makes unreadyHost ⟨12, .deferred 0, { host := true }⟩
        ⟨11, labelledTree, ⟨{}, [(0, labelledTree)], [0], true⟩⟩ := .deferred (by simp) rfl
    have hrow : labelledTree.row? =
        some ([.integerText] ++ [.optional (.array (.deferred 0) {})]) := rfl
    have hbranches : ExportCall.Makes unreadyHost
        ⟨11, labelledTree, ⟨{}, [(0, labelledTree)], [0], true⟩⟩
        ⟨10, .optional (.array (.deferred 0) {}), ⟨{}, [(0, labelledTree)], [0], true⟩⟩ :=
      .among hrow rfl rfl
    have hbelow : Relation.TransGen (ExportCall.Makes unreadyHost)
        ⟨12, .deferred 0, { host := true }⟩
        ⟨8, .deferred 0, ⟨{}, [(0, labelledTree)], [0], true⟩⟩ :=
      .tail (.tail (.tail (.single htree) hbranches) (.inside rfl)) (.inside rfl)
    exact ⟨_, hbelow, rfl, (hreentry _ _ 0 rfl rfl hbelow).1 7⟩
  · obtain ⟨-, -, -, -, hready⟩ := export_ends_and_restores labelledTreeGraph labelledTreeHost
      upholds_labelledTreeHost (fun E => still_labelledTreeHost.keeps fun _ _ _ hw _ _ => hw)
      (.deferred 0) holds_labelledTreeGraph
    have hfirst : (⟨{}, [], [], ()⟩ : World Unit).Stands labelledTreeGraph.May := by
      rintro id t ⟨⟩
    obtain ⟨d, w₂, -, hd, -⟩ := (hready _ _ _ hfirst hfirst rfl .refl).2 fun _ _ _ => ⟨_, _, rfl⟩
    exact ⟨d, w₂, hd⟩

end Conform
