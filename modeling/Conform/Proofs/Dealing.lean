import Conform.Proofs.Exporting
import Conform.Proofs.Finding

/-!
# Dealing with one deferred schema

The host and its callbacks may do anything, also look whether a deferred schema has been built, or
build it by themselves. Those that do not meddle with it in such a way either use it, which is to
resolve it, or overlook it: what has been built for it is neither read nor changed. A *dealing*
splits a run into such parts, so it tells in which worlds the schema was used, one use after
another. A use that fails need not end the run, as what is done next may depend on how it ended.

How often a factory has been called can only be told by the host, which may count the calls or
record their answers. This is its *tally* of them.

## Main definitions

* `Overlooks` — a run neither reads nor changes what has been built for a deferred schema.
* `Dealing`, `Dealing.uses` — a run as uses and what overlooks the schema, and its uses.
* `Setting.BuiltOnce` — the uses fail until one of them builds the schema, and all that come after
  it find what it has built.

## Main results

* `Setting.fails_or_builds` — what one use does to a schema that has not been built.
* `Dealing.finds` — once the schema has been built, uses find it, and the factory is not called.
* `Dealing.builtOnce` — so whatever is done, the schema is built once.
-/

namespace Conform

variable {σ ν α β γ : Type}

/-! ## Runs that overlook a deferred schema -/

/-- A world without what has been built for a deferred schema. -/
def World.without (w : World σ) (id : Nat) : World σ :=
  { w with built := w.built.filter fun entry => entry.1 != id }

/-- A run neither reads nor changes what has been built for a deferred schema. -/
structure Overlooks (id : Nat) (run : World σ → β × World σ) : Prop where
  same (w v : World σ) (h : w.without id = v.without id) :
    (run w).1 = (run v).1 ∧ (run w).2.without id = (run v).2.without id
  standing (w : World σ) : (run w).2.standing id = w.standing id

theorem World.store_congr {w v : World σ} {id : Nat} (h : w.without id = v.without id) :
    w.store = v.store :=
  (World.mk.inj h).1

theorem World.exporting_congr {w v : World σ} {id : Nat} (h : w.without id = v.without id) :
    w.exporting = v.exporting :=
  (World.mk.inj h).2.2.1

theorem World.lookup_built_congr {w v : World σ} {id j : Nat} (hne : j ≠ id)
    (h : w.without id = v.without id) : w.built.lookup j = v.built.lookup j := by
  have hbuilt : (w.without id).built = (v.without id).built := congrArg World.built h
  exact (Catalog.lookup_filter_ne hne _).symm.trans
    ((congrArg (List.lookup j) hbuilt).trans (Catalog.lookup_filter_ne hne _))

/-- To answer from what can be seen without the schema is to overlook it. -/
theorem Overlooks.reads {id : Nat} {run : World σ → β × World σ} {answer : World σ → β}
    (hrun : ∀ w, run w = (answer w, w))
    (hanswer : ∀ w v, w.without id = v.without id → answer w = answer v) : Overlooks id run where
  same w v h := by
    rw [hrun, hrun]
    exact ⟨hanswer w v h, h⟩
  standing w := by rw [hrun]

/-! ## Dealings -/

/-- What a host tells of the calls of a factory, such as their number or the row of their answers:
how it is read off the host, and what one more answer makes of it. -/
structure Tally (σ ν : Type) where
  read : σ → ν
  add : ν → Except Fault Operand → ν

/-- A run as uses of a deferred schema and what overlooks it, with a tally of the calls of its
factory. What is done next depends on what the first part ends by, be it a fault. -/
inductive Dealing (env : Setting σ) (id : Nat) (tally : Tally σ ν) :
    {β : Type} → (World σ → β × World σ) → Type 1
  | aside {β : Type} {run : World σ → β × World σ} (h : Overlooks id run)
      (htally : ∀ w, tally.read (run w).2.host = tally.read w.host) : Dealing env id tally run
  | use : Dealing env id tally (env.resolve id).runIn
  | andThen {β γ : Type} (run : World σ → β × World σ) (next : β → World σ → γ × World σ)
      (first : Dealing env id tally run) (rest : ∀ b, Dealing env id tally (next b)) :
      Dealing env id tally fun w => next (run w).1 (run w).2

/-- The worlds in which a run uses the deferred schema, in order. -/
def Dealing.uses {env : Setting σ} {id : Nat} {tally : Tally σ ν} {β : Type}
    {run : World σ → β × World σ} : Dealing env id tally run → World σ → List (World σ)
  | .aside _ _, _ => []
  | .use, w => [w]
  | .andThen run _ first rest, w => first.uses w ++ (rest (run w).1).uses (run w).2

namespace Setting

/-- A use in vain: the factory is called, and faults or gives no schema. The use ends by that fault,
and nothing has been built. -/
inductive UseFails (env : Setting σ) (id : Nat) (u : World σ) : Prop
  | raised {f w'} (hproduce : (env.produce id).runIn u = (.error f, w'))
      (hresolve : (env.resolve id).runIn u = (.error f, w')) (hafter : w'.standing id = none)
  | unfit {v w'} (hproduce : (env.produce id).runIn u = (.ok (.value v), w'))
      (hresolve : (env.resolve id).runIn u =
        (.error (.notSchema .deferred (w'.store.className v)), w'))
      (hafter : w'.standing id = none)

/-- A use that builds: the factory is called and gives a schema, which is built. -/
inductive UseBuilds (env : Setting σ) (id : Nat) (s : Schema) (u : World σ) : Prop
  | intro {w'} (hproduce : (env.produce id).runIn u = (.ok (.schema s), w'))
      (hresolve : (env.resolve id).runIn u =
        (.ok s, { w' with built := (id, s) :: w'.built }))

/-- A use that finds what has been built: it changes nothing, so the factory is not called. -/
def UseFinds (env : Setting σ) (id : Nat) (s : Schema) (u : World σ) : Prop :=
  (env.resolve id).runIn u = (.ok s, u)

/-- The tally after the factory has been called in some worlds. -/
def tallied (env : Setting σ) (id : Nat) (tally : Tally σ ν) (n : ν) (us : List (World σ)) : ν :=
  us.foldl (fun n u => tally.add n ((env.produce id).runIn u).1) n

/-- The uses that lead from a world to another in which the deferred schema was not built at first.
The factory is called by each use up to the first that builds the schema, and by none after it. -/
inductive BuiltOnce (env : Setting σ) (id : Nat) (tally : Tally σ ν) (w : World σ) :
    List (World σ) → World σ → Prop
  | never {failed w'} (hfailed : ∀ u ∈ failed, env.UseFails id u) (hafter : w'.standing id = none)
      (htally : tally.read w'.host = env.tallied id tally (tally.read w.host) failed) :
      BuiltOnce env id tally w failed w'
  | once {failed first later s w'} (hfailed : ∀ u ∈ failed, env.UseFails id u)
      (hfirst : env.UseBuilds id s first) (hlater : ∀ u ∈ later, env.UseFinds id s u)
      (hafter : w'.standing id = some s)
      (htally : tally.read w'.host =
        env.tallied id tally (tally.read w.host) (failed ++ [first])) :
      BuiltOnce env id tally w (failed ++ first :: later) w'

/-- The factory of a deferred schema does without the schema, and each call of it is tallied. -/
structure MakesAlone (env : Setting σ) (id : Nat) (tally : Tally σ ν) : Prop where
  overlooks : Overlooks id (env.produce id).runIn
  tallied (w : World σ) : tally.read ((env.produce id).runIn w).2.host =
    tally.add (tally.read w.host) ((env.produce id).runIn w).1

end Setting

section Uses

variable {env : Setting σ} {id : Nat} {tally : Tally σ ν} {s : Schema} {u w w' : World σ}
  {run : World σ → β × World σ}

/-- What one use does to a schema that has not been built. -/
theorem Setting.fails_or_builds (halone : env.MakesAlone id tally) (hopen : u.standing id = none) :
    (env.UseFails id u ∧ ((env.resolve id).runIn u).2.standing id = none ∨
      ∃ s, env.UseBuilds id s u ∧ ((env.resolve id).runIn u).2.standing id = some s) ∧
    tally.read ((env.resolve id).runIn u).2.host =
      tally.add (tally.read u.host) ((env.produce id).runIn u).1 := by
  have hleft := (halone.overlooks.standing u).trans hopen
  have htally := halone.tallied u
  have hresolve := env.runIn_resolve id u
  rw [show u.built.lookup id = none from hopen] at hresolve
  rcases hproduce : (env.produce id).runIn u with ⟨f | t | v, w'⟩ <;>
    rw [hproduce] at hleft htally hresolve <;> simp only at hresolve <;> rw [hresolve]
  · exact ⟨.inl ⟨.raised hproduce hresolve hleft, hleft⟩, htally⟩
  · have hstanding := standing_of_resolve hresolve
    exact ⟨.inr ⟨t, .intro hproduce hresolve, hstanding⟩, htally⟩
  · exact ⟨.inl ⟨.unfit hproduce hresolve hleft, hleft⟩, htally⟩

theorem Setting.useFinds_of_standing (h : u.standing id = some s) : env.UseFinds id s u := by
  rw [UseFinds, runIn_resolve, show u.built.lookup id = some s from h]

/-- Once the schema has been built, all uses find it, it stays as it is, and the factory is not
called: by induction on the dealing. -/
theorem Dealing.finds (d : Dealing env id tally run) (h : w.standing id = some s) :
    (∀ u ∈ d.uses w, env.UseFinds id s u) ∧ (run w).2.standing id = some s ∧
      tally.read (run w).2.host = tally.read w.host := by
  induction d generalizing w with
  | aside hoverlooks htally => exact ⟨nofun, (hoverlooks.standing w).trans h, htally w⟩
  | use =>
      have hfinds : env.UseFinds id s w := Setting.useFinds_of_standing h
      rw [hfinds]
      exact ⟨List.forall_mem_singleton.mpr hfinds, h, rfl⟩
  | andThen run next first rest ihfirst ihrest =>
      obtain ⟨hbefore, hstanding, htally⟩ := ihfirst h
      obtain ⟨hafter, hend, htally'⟩ := ihrest _ hstanding
      exact ⟨List.forall_mem_append.mpr ⟨hbefore, hafter⟩, hend, htally'.trans htally⟩

theorem Setting.tallied_append (n : ν) (us vs : List (World σ)) :
    env.tallied id tally n (us ++ vs) = env.tallied id tally (env.tallied id tally n us) vs :=
  List.foldl_append

/-- More uses, after which come to what was left: either they are the uses of a schema that has not
been built, or all of them find it. -/
theorem Setting.BuiltOnce.append {us more : List (World σ)} {w₁ : World σ}
    (h : env.BuiltOnce id tally w us w₁)
    (hopen : w₁.standing id = none → env.BuiltOnce id tally w₁ more w')
    (hbuilt : ∀ s, w₁.standing id = some s → (∀ u ∈ more, env.UseFinds id s u) ∧
      w'.standing id = some s ∧ tally.read w'.host = tally.read w₁.host) :
    env.BuiltOnce id tally w (us ++ more) w' := by
  cases h with
  | never hfailed hafter htally =>
      rcases hopen hafter with ⟨hmore, hend, htally'⟩ | ⟨hmore, hfirst, hlater, hend, htally'⟩
      · refine .never (List.forall_mem_append.mpr ⟨hfailed, hmore⟩) hend ?_
        rw [htally', htally, tallied_append]
      · rw [← List.append_assoc]
        refine .once (List.forall_mem_append.mpr ⟨hfailed, hmore⟩) hfirst hlater hend ?_
        rw [htally', htally, ← tallied_append, List.append_assoc]
  | once hfailed hfirst hlater hafter htally =>
      obtain ⟨hmore, hend, htally'⟩ := hbuilt _ hafter
      rw [List.append_assoc, List.cons_append]
      exact .once hfailed hfirst (List.forall_mem_append.mpr ⟨hlater, hmore⟩) hend
        (htally'.trans htally)

/-- Whatever is done with a deferred schema that has not been built, it is built once: by induction
on the dealing. -/
theorem Dealing.builtOnce (halone : env.MakesAlone id tally) (d : Dealing env id tally run)
    (hopen : w.standing id = none) : env.BuiltOnce id tally w (d.uses w) (run w).2 := by
  induction d generalizing w with
  | aside hoverlooks htally =>
      exact .never nofun ((hoverlooks.standing w).trans hopen) (htally w)
  | use =>
      obtain ⟨⟨hfails, hafter⟩ | ⟨s, hbuilds, hafter⟩, htally⟩ :=
        Setting.fails_or_builds halone hopen
      · exact .never (List.forall_mem_singleton.mpr hfails) hafter htally
      · show env.BuiltOnce id tally w ([] ++ w :: []) _
        exact .once nofun hbuilds nofun hafter htally
  | andThen run next first rest ihfirst ihrest =>
      exact (ihfirst hopen).append (ihrest _) fun s hs => (rest _).finds hs

end Uses

/-! ## Acts that deal with a deferred schema -/

section Parts

variable {env : Setting σ} {id : Nat} {tally : Tally σ ν}

/-- A run can be split where it goes on from what its first part ended by. -/
theorem Dealing.nonempty_andThen {run : World σ → β × World σ} {next : β → World σ → γ × World σ}
    {whole : World σ → γ × World σ} (hwhole : ∀ w, whole w = next (run w).1 (run w).2)
    (h : Nonempty (Dealing env id tally run))
    (hrest : ∀ b, Nonempty (Dealing env id tally (next b))) :
    Nonempty (Dealing env id tally whole) := by
  rw [show whole = fun w => next (run w).1 (run w).2 from funext hwhole]
  exact ⟨.andThen run next h.some fun b => (hrest b).some⟩

/-- To see which deferred schemas are being exported, and to change that, overlooks the schema. -/
theorem Dealing.nonempty_exporting (answer : List Nat → β) (ids : List Nat → List Nat) :
    Nonempty (Dealing env id tally fun w : World σ =>
      (answer w.exporting, { w with exporting := ids w.exporting })) := by
  refine ⟨.aside ⟨fun w v h => ?_, fun w => rfl⟩ fun w => rfl⟩
  obtain ⟨hstore, hbuilt, hexporting, hhost⟩ := World.mk.inj h
  simp only [World.without, hstore, hbuilt, hexporting, hhost, and_self]

/-- An act uses a deferred schema or overlooks it. -/
def Act.Deals (env : Setting σ) (id : Nat) (tally : Tally σ ν) (act : Act σ α) : Prop :=
  Nonempty (Dealing env id tally act.runIn)

namespace Act.Deals

theorem reads {act : Act σ α} {answer : World σ → Except Fault α}
    (hrun : ∀ w, act.runIn w = (answer w, w))
    (hanswer : ∀ w v, w.without id = v.without id → answer w = answer v) :
    act.Deals env id tally :=
  ⟨.aside (.reads hrun hanswer) fun w => by rw [hrun]⟩

protected theorem pure (a : α) : Act.Deals env id tally (Pure.pure a) :=
  .reads (fun _ => rfl) fun _ _ _ => rfl

protected theorem throw (f : Fault) :
    Act.Deals env id tally (MonadExcept.throw f : Act σ α) :=
  .reads (fun _ => rfl) fun _ _ _ => rfl

theorem store : Act.Deals env id tally (Act.store : Act σ Store) :=
  .reads (fun _ => rfl) fun _ _ h => congrArg Except.ok (World.store_congr h)

/-- What is done next may depend on what the first act ended by. -/
theorem bind {act : Act σ α} {k : α → Act σ β} (h : act.Deals env id tally)
    (hk : ∀ a, (k a).Deals env id tally) : (act >>= k).Deals env id tally := by
  -- What is left to do once the first act has ended, by a value or a fault.
  let next : Except Fault α → Act σ β := fun r => ExceptT.mk (Pure.pure r) >>= k
  have hwhole : ∀ w, (act >>= k).runIn w = (next (act.runIn w).1).runIn (act.runIn w).2 :=
    fun _ => rfl
  refine Dealing.nonempty_andThen hwhole h fun r => ?_
  cases r with
  | error f => exact Deals.throw f
  | ok a => exact hk a

/-- Where a fault is caught, more can be done. -/
theorem rescue {act : Act σ α} {k : Fault → Act σ α} (h : act.Deals env id tally)
    (hk : ∀ f, (k f).Deals env id tally) : (tryCatch act k).Deals env id tally := by
  let next : Except Fault α → Act σ α := fun r => tryCatch (ExceptT.mk (Pure.pure r)) k
  have hwhole : ∀ w, (tryCatch act k).runIn w = (next (act.runIn w).1).runIn (act.runIn w).2 :=
    fun _ => rfl
  refine Dealing.nonempty_andThen hwhole h fun r => ?_
  cases r with
  | error f => exact hk f
  | ok a => exact Deals.pure a

/-- What is done next may depend on what can be seen of the world without the schema. -/
theorem look (answer : World σ → β) {k : World σ → Act σ α}
    (hanswer : ∀ w v, w.without id = v.without id → answer w = answer v)
    (hk : ∀ b, ∃ act, Act.Deals env id tally act ∧ ∀ w, answer w = b → k w = act) :
    Act.Deals env id tally (get >>= k) := by
  choose next hnext hsame using hk
  have hwhole : ∀ w, (get >>= k).runIn w = (next (answer w)).runIn w := by
    intro w
    show (k w).runIn w = _
    rw [hsame (answer w) w rfl]
  have hlook : Overlooks id fun w : World σ => (answer w, w) := .reads (fun _ => rfl) hanswer
  exact Dealing.nonempty_andThen hwhole ⟨.aside hlook fun _ => rfl⟩ hnext

/-- To build another deferred schema overlooks the schema. -/
theorem builds {j : Nat} (hne : j ≠ id) (s : Schema) :
    Act.Deals env id tally (modify fun w : World σ => { w with built := (j, s) :: w.built }) := by
  refine ⟨.aside ⟨fun w v h => ⟨rfl, ?_⟩, fun w => ?_⟩ fun w => rfl⟩
  · obtain ⟨hstore, hbuilt, hexporting, hhost⟩ := World.mk.inj h
    show World.without { w with built := (j, s) :: w.built } id =
      World.without { v with built := (j, s) :: v.built } id
    simp only [World.without, List.filter_cons, hstore, hbuilt, hexporting, hhost]
  · have hother : (id == j) = false := by simpa using hne.symm
    show List.lookup id ((j, s) :: w.built) = w.built.lookup id
    rw [List.lookup_cons, hother]

/-- To resolve another deferred schema is to deal with the schema as far as its factory does. -/
theorem resolve_other {host : Setting σ} {j : Nat} (hne : j ≠ id)
    (hproduce : (host.produce j).Deals env id tally) : (host.resolve j).Deals env id tally := by
  refine look (fun w => w.built.lookup j) (fun _ _ h => World.lookup_built_congr hne h)
    fun found => ?_
  cases found with
  | some s => exact ⟨_, Deals.pure s, fun w hfound => by rw [hfound]⟩
  | none =>
      refine ⟨_, bind hproduce fun o => ?_, fun w hfound => by rw [hfound]⟩
      cases o with
      | schema s => exact bind (builds hne s) fun _ => Deals.pure s
      | value v => exact bind store fun st => Deals.throw _

/-- To mark a deferred schema as being exported overlooks the schema. -/
theorem whileExporting (j : Nat) {act : Act σ α} (h : act.Deals env id tally) :
    (Setting.whileExporting j act).Deals env id tally := by
  -- Three parts: what is being exported is noted and added to, the act is run, the note is
  -- put back.
  let enter : World σ → List Nat × World σ :=
    fun w => (w.exporting, { w with exporting := j :: w.exporting })
  let leave : List Nat → Except Fault α → World σ → Except Fault α × World σ :=
    fun ids r w => (r, { w with exporting := ids })
  let inside : List Nat → World σ → Except Fault α × World σ :=
    fun ids w => leave ids (act.runIn w).1 (act.runIn w).2
  have hinside : ∀ ids, Nonempty (Dealing env id tally (inside ids)) := fun ids =>
    Dealing.nonempty_andThen (fun _ => rfl) h fun r =>
      Dealing.nonempty_exporting (fun _ => r) fun _ => ids
  have hrun : ∀ w, (Setting.whileExporting j act).runIn w = inside (enter w).1 (enter w).2 :=
    fun _ => rfl
  exact Dealing.nonempty_andThen hrun (Dealing.nonempty_exporting (fun ids => ids) _) hinside

/-- So does to do something unless a deferred schema is being exported already. -/
theorem unlessExporting (j : Nat) {act : Act σ Document} (h : act.Deals env id tally) :
    Act.Deals env id tally (get >>= fun w : World σ =>
      if w.exporting.contains j then Pure.pure [] else Setting.whileExporting j act) := by
  refine look (fun w => w.exporting.contains j)
    (fun _ _ h => congrArg (List.contains · j) (World.exporting_congr h)) fun again => ?_
  cases again with
  | true => exact ⟨_, Deals.pure [], fun w hagain => if_pos hagain⟩
  | false => exact ⟨_, h.whileExporting j, fun w hagain => if_neg (Bool.eq_false_iff.mp hagain)⟩

end Act.Deals

end Parts

end Conform
