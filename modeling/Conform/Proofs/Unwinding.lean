import Conform.Proofs.Reentry
import Conform.Proofs.Ruling

/-!
# Where deferred schemas are used, and faults there

A check, a flag or an export comes to a deferred schema by the calls that it makes, or by a flag
that it asks. There it has to be resolved. Nothing but a callback of the host catches a fault, so
if that fails, all that led there ends by the same fault: no error record is left in its place, and
no other option or member is tried.

An export does not use a deferred schema that is being exported.

## Main definitions

* `FlagCall`, `FlagCall.Makes` — the flags that a flag asks.
* `Call.Uses`, `FlagCall.Uses`, `ExportCall.Uses` — the worlds in which one is used.

## Main results

* `Call.fault_of_uses`, `FlagCall.fault_of_uses`, `ExportCall.fault_of_uses` — a use in vain ends
  the check, the flag or the export by its fault.
-/

namespace Conform

open Traverse Setting

variable {σ α β : Type} {env : Setting σ} {mode : Mode} {x : Fault}

/-! ## Faults of parts -/

namespace Act

variable {act : Act σ α} {w : World σ}

theorem fault_bind (h : (act.runIn w).1 = .error x) (k : α → Act σ β) :
    ((act >>= k).runIn w).1 = .error x := by
  rw [runIn_bind]
  rcases hrun : act.runIn w with ⟨f | a, w₁⟩ <;> rw [hrun] at h <;> cases h
  rfl

theorem fault_bind_of_ok {k : α → Act σ β} {a : α} {w₁ : World σ}
    (h : act.runIn w = (.ok a, w₁)) (hk : ((k a).runIn w₁).1 = .error x) :
    ((act >>= k).runIn w).1 = .error x := by
  rw [runIn_bind, h]
  exact hk

end Act

namespace Engine

variable {e : Engine σ α} {c : Context} {w : World σ}

theorem fault_bind (h : (e.runIn c w).1 = .error x) (k : α → Engine σ β) :
    ((e >>= k).runIn c w).1 = .error x := by
  rw [runIn_bind]
  rcases hrun : e.runIn c w with ⟨f | a, c₁, w₁⟩ <;> rw [hrun] at h <;> cases h
  rfl

theorem fault_ofAct {act : Act σ α} (h : (act.runIn w).1 = .error x) (c : Context) :
    ((ofAct act).runIn c w).1 = .error x := by
  rw [runIn_ofAct]
  exact h

theorem fault_within {k : Key} (h : (e.runIn (c.push k) w).1 = .error x) :
    ((within k e).runIn c w).1 = .error x := by
  rw [runIn_within]
  exact h

theorem fault_speculate (h : (e.runIn c.fork w).1 = .error x) :
    ((speculate e).runIn c w).1 = .error x := by
  rw [runIn_speculate]
  rcases hrun : e.runIn c.fork w with ⟨f | a, c₁, w₁⟩ <;> rw [hrun] at h <;> cases h
  rfl

end Engine

/-! ## Flags that a flag asks -/

/-- A flag that is asked: the depth that is left to it, its schema, and the world in which it is
asked. -/
structure FlagCall (σ : Type) where
  depth : Nat
  schema : Schema
  world : World σ

namespace FlagCall

/-- How a flag is answered. -/
def run (env : Setting σ) (f : FlagCall σ) : Except Fault Bool × World σ :=
  (env.acceptsMissing f.depth f.schema).runIn f.world

/-- The flags that a flag asks. Options are asked as long as none has accepted, members as long as
all have. -/
inductive Makes (env : Setting σ) : FlagCall σ → FlagCall σ → Prop
  | nullable {depth inner w} : Makes env ⟨depth + 1, .nullable inner, w⟩ ⟨depth, inner, w⟩
  | transform {depth inner step w} :
      Makes env ⟨depth + 1, .transform inner step, w⟩ ⟨depth, inner, w⟩
  | refine {depth inner id words code w} :
      Makes env ⟨depth + 1, .refine inner id words code, w⟩ ⟨depth, inner, w⟩
  | option {depth first rest w earlier option later w₁}
      (hoptions : first :: rest = earlier ++ option :: later)
      (hearlier : (anyOf (env.acceptsMissing depth) earlier).runIn w = (.ok false, w₁)) :
      Makes env ⟨depth + 1, .union first rest, w⟩ ⟨depth, option, w₁⟩
  | member {depth first rest w earlier member later w₁}
      (hmembers : first :: rest = earlier ++ member :: later)
      (hearlier : (allOf (env.acceptsMissing depth) earlier).runIn w = (.ok true, w₁)) :
      Makes env ⟨depth + 1, .intersection first rest, w⟩ ⟨depth, member, w₁⟩
  | deferred {depth id w s w₁} (hresolve : (env.resolve id).runIn w = (.ok s, w₁)) :
      Makes env ⟨depth + 1, .deferred id, w⟩ ⟨depth, s, w₁⟩

/-- A flag uses a deferred schema in a world. -/
inductive Uses (env : Setting σ) (id : Nat) : FlagCall σ → World σ → Prop
  | here {depth w} : Uses env id ⟨depth + 1, .deferred id, w⟩ w
  | further {f g u} (h : Makes env f g) (hg : Uses env id g u) : Uses env id f u

section Faults

variable {p : Schema → Act σ Bool} {ss earlier later : List Schema} {s : Schema} {w w₁ : World σ}

theorem fault_anyOf (hss : ss = earlier ++ s :: later)
    (h : (anyOf p earlier).runIn w = (.ok false, w₁)) (hs : ((p s).runIn w₁).1 = .error x) :
    ((anyOf p ss).runIn w).1 = .error x := by
  subst hss
  induction earlier generalizing w with
  | nil =>
      cases h
      exact Act.fault_bind hs _
  | cons t earlier ih =>
      obtain ⟨accepted, w₂, ht, hrest⟩ := Act.runIn_bind_ok_iff.mp h
      refine Act.fault_bind_of_ok ht ?_
      cases accepted with
      | true => cases hrest
      | false => exact ih hrest

theorem fault_allOf (hss : ss = earlier ++ s :: later)
    (h : (allOf p earlier).runIn w = (.ok true, w₁)) (hs : ((p s).runIn w₁).1 = .error x) :
    ((allOf p ss).runIn w).1 = .error x := by
  subst hss
  induction earlier generalizing w with
  | nil =>
      cases h
      exact Act.fault_bind hs _
  | cons t earlier ih =>
      obtain ⟨accepted, w₂, ht, hrest⟩ := Act.runIn_bind_ok_iff.mp h
      refine Act.fault_bind_of_ok ht ?_
      cases accepted with
      | true => exact ih hrest
      | false => cases hrest

/-- A flag that is asked by another ends it by its fault. -/
theorem fault_of_makes {f g : FlagCall σ} (h : Makes env f g) (hg : (g.run env).1 = .error x) :
    (f.run env).1 = .error x := by
  cases h with
  | nullable => exact hg
  | transform => exact hg
  | refine => exact hg
  | option hoptions hearlier => exact fault_anyOf hoptions hearlier hg
  | member hmembers hearlier => exact fault_allOf hmembers hearlier hg
  | deferred hresolve => exact Act.fault_bind_of_ok hresolve hg

/-- A use in vain ends the flag by its fault. -/
theorem fault_of_uses {id : Nat} {f : FlagCall σ} {u : World σ} (h : f.Uses env id u)
    (hu : ((env.resolve id).runIn u).1 = .error x) : (f.run env).1 = .error x := by
  induction h with
  | here => exact Act.fault_bind hu _
  | further h _ ih => exact fault_of_makes h (ih hu)

end Faults

end FlagCall

/-! ## Checks -/

namespace Call

/-- A check uses a deferred schema in a world, by itself or by a flag that it asks. -/
inductive Uses (env : Setting σ) (mode : Mode) (id : Nat) : Call σ → World σ → Prop
  | here {depth v c w} : Uses env mode id ⟨depth + 1, .deferred id, v, c, w⟩ w
  | asks {depth s v c w field w₁ u} (h : Asks env mode ⟨depth + 1, s, v, c, w⟩ field w₁)
      (hflag : FlagCall.Uses env id ⟨depth, field, w₁⟩ u) :
      Uses env mode id ⟨depth + 1, s, v, c, w⟩ u
  | further {f g u} (h : Makes env mode f g) (hg : Uses env mode id g u) : Uses env mode id f u

section Faults

variable {depth : Nat} {v : Value} {c c₁ : Context} {w w₁ : World σ}

/-- An object is checked no further than to a field whose check faults. -/
theorem fault_object {fields earlier later : Entries Schema} {unknown : UnknownKeys}
    {k : Key} {field : Schema} {done : Entries Value × Bool}
    (hobject : (w.store.entries? v).isNone = false) (hfresh : c.hasVisited v = false)
    (hfields : fields = earlier ++ (k, field) :: later)
    (hearlier : (checkFields env (env.acceptsMissing depth) (check env mode depth) v earlier).runIn
      (c.mark v) w = (.ok done, c₁, w₁))
    (hfield : ((checkField env (env.acceptsMissing depth) (check env mode depth) v k field).runIn
      c₁ w₁).1 = .error x) :
    (run env mode ⟨depth + 1, .object fields unknown, v, c, w⟩).1 = .error x := by
  show ((checkObject env _ _ fields unknown v).runIn c w).1 = _
  simp only [runIn_checkObject, hobject, hfresh, Bool.false_eq_true, if_false]
  refine Engine.fault_bind ?_ _
  rw [Engine.runIn_lookingInto, hfields, checkFields_append, Engine.runIn_bind_of_ok _ hearlier]
  exact Engine.fault_bind (Engine.fault_bind hfield _) _

/-- The items of a container are checked no further than to one whose check faults. -/
theorem fault_checkItems {one : Value → Engine σ Value} {u : Value} {i n : Nat}
    {done : List Value × Bool} (hmore : i < n)
    (hearlier : (firstItems one v i).runIn c w = (.ok done, c₁, w₁))
    (hitem : (w₁.store.itemsOf v)[i]? = some u)
    (hu : ((one u).runIn (c₁.push (.index i)) w₁).1 = .error x) :
    ((checkItems one v n 0).runIn c w).1 = .error x := by
  have hturn : ((firstItems one v (i + 1)).runIn c w).1 = .error x := by
    rw [firstItems, Engine.runIn_bind_of_ok _ hearlier, runIn_nextItem, hitem]
    exact Engine.fault_bind (Engine.fault_within hu) _
  rcases hrun : (firstItems one v (i + 1)).runIn c w with ⟨f | first, c₂, w₂⟩ <;>
    rw [hrun] at hturn <;> cases hturn
  obtain ⟨more, rfl⟩ := Nat.exists_eq_add_of_lt hmore
  rw [Nat.add_right_comm, runIn_checkItems]
  refine Engine.fault_bind ?_ _
  rw [runIn_firstItems_of_error hrun]

/-- A check that is made by another ends it by its fault. -/
theorem fault_of_makes {f g : Call σ} (h : Makes env mode f g)
    (hg : (g.run env mode).1 = .error x) : (f.run env mode).1 = .error x := by
  cases h with
  | field hobject hfresh hfields hearlier hhanded =>
      refine fault_object hobject hfresh hfields hearlier ?_
      rw [runIn_checkField]
      cases hhanded with
      | present hfind =>
          simp only [hfind]
          exact Engine.fault_bind (Engine.fault_within hg) _
      | absent hfind haccepts =>
          simp only [hfind]
          rw [Engine.runIn_bind_of_ok _ (Engine.runIn_ofAct_ok_iff.mpr ⟨haccepts, rfl⟩)]
          simp only [if_true]
          rw [Engine.runIn_bind_of_ok _ (Engine.runIn_store ..)]
          exact Engine.fault_bind (Engine.fault_within hg) _
  | element harray hfresh hmore hearlier hitem =>
      show ((checkArray env _ _ _ _ _).runIn _ _).1 = _
      simp only [runIn_checkArray, harray, hfresh, Bool.false_eq_true, if_false]
      refine Engine.fault_bind ?_ _
      rw [Engine.runIn_lookingInto]
      exact fault_checkItems hmore hearlier hitem hg
  | option hoptions hearlier =>
      show ((tryOptions env _ _ [] (_ :: _)).runIn _ _).1 = _
      rw [hoptions, tryOptions_of_failed hearlier]
      exact Engine.fault_bind (Engine.fault_speculate hg) _
  | member hmembers hearlier =>
      refine Engine.fault_bind ?_ _
      rw [hmembers, tryMembers_append, Engine.runIn_bind_of_ok _ hearlier]
      exact Engine.fault_bind (Engine.fault_bind (Engine.fault_speculate hg) _) _
  | @optional depth inner v c w h =>
      show ((if isMissing v then pure v else check env mode depth inner v).runIn c w).1 = _
      rw [h]
      exact hg
  | nullable h =>
      simp only [run, check, checkLayer]
      exact hg
  | copy hmissing hcopyable =>
      simp only [run, check, checkLayer, hmissing, if_true]
      have hcopy := Act.runIn_copyOf_ok_iff.mpr ⟨hcopyable, rfl, rfl⟩
      rw [Engine.runIn_bind_of_ok _ (Engine.runIn_ofAct_ok_iff.mpr ⟨hcopy, rfl⟩)]
      exact hg
  | withDefault hmissing =>
      simp only [run, check, checkLayer, hmissing, Bool.false_eq_true, if_false]
      exact hg
  | transform => exact Engine.fault_bind hg _
  | refine => exact Engine.fault_bind hg _
  | deferred hresolve =>
      refine (congrArg Prod.fst (Engine.runIn_bind_of_ok _ ?_)).trans hg
      exact Engine.runIn_ofAct_ok_iff.mpr ⟨hresolve, rfl⟩

/-- A use in vain ends the check by its fault. -/
theorem fault_of_uses {id : Nat} {f : Call σ} {u : World σ} (h : f.Uses env mode id u)
    (hu : ((env.resolve id).runIn u).1 = .error x) : (f.run env mode).1 = .error x := by
  induction h with
  | here => exact Engine.fault_bind (Engine.fault_ofAct hu _) _
  | asks h hflag =>
      cases h with
      | field hobject hfresh hfields hearlier habsent =>
          refine fault_object hobject hfresh hfields hearlier ?_
          rw [runIn_checkField]
          simp only [habsent]
          exact Engine.fault_bind (Engine.fault_ofAct (FlagCall.fault_of_uses hflag hu) _) _
  | further h _ ih => exact fault_of_makes h (ih hu)

/-- A fault of the check is one of the entry points. -/
theorem fault_validate {depth : Nat} {s : Schema} {v : Value} {w : World σ} (entry : Entry)
    (h : (run env mode ⟨depth, s, v, {}, w⟩).1 = .error x) :
    ((Validate.validate env mode depth entry s v).runIn w).1 = .error x := by
  rw [Validate.runIn_validate]
  rcases hcheck : run env mode ⟨depth, s, v, {}, w⟩ with ⟨f | r, c, w₁⟩ <;>
    rw [hcheck] at h <;> cases h
  rw [Validate.runIn_checkWhole_of_fault hcheck]

end Faults

end Call

/-! ## Exports -/

namespace ExportCall

/-- An export asks a flag in a world: that of a field, once all fields have been exported. -/
inductive Asks (env : Setting σ) : ExportCall σ → FlagCall σ → Prop
  | field {depth fields unknown w documents w₁ earlier k field later keys w₂}
      (hdocuments : (exportFields (env.exportSchema depth) fields).runIn w = (.ok documents, w₁))
      (hfields : fields = earlier ++ (k, field) :: later)
      (hearlier : (requiredKeys (env.acceptsMissing depth) earlier).runIn w₁ = (.ok keys, w₂)) :
      Asks env ⟨depth + 1, .object fields unknown, w⟩ ⟨depth, field, w₂⟩

/-- An export uses a deferred schema in a world, by itself or by a flag that it asks. -/
inductive Uses (env : Setting σ) (id : Nat) : ExportCall σ → World σ → Prop
  | here {depth w} (hnew : id ∉ w.exporting) :
      Uses env id ⟨depth + 1, .deferred id, w⟩ { w with exporting := id :: w.exporting }
  | asks {f g u} (h : Asks env f g) (hflag : g.Uses env id u) : Uses env id f u
  | further {f g u} (h : Makes env f g) (hg : Uses env id g u) : Uses env id f u

section Faults

variable {w w₁ : World σ}

theorem fault_exportAll {child : Schema → Act σ Document} {ss earlier later : List Schema}
    {s : Schema} {documents : List Document} (hss : ss = earlier ++ s :: later)
    (h : (exportAll child earlier).runIn w = (.ok documents, w₁))
    (hs : ((child s).runIn w₁).1 = .error x) : ((exportAll child ss).runIn w).1 = .error x := by
  subst hss
  induction earlier generalizing w documents with
  | nil =>
      cases h
      exact Act.fault_bind hs _
  | cons t earlier ih =>
      obtain ⟨d, w₂, ht, hrest⟩ := Act.runIn_bind_ok_iff.mp h
      obtain ⟨ds, w₃, hds, hend⟩ := Act.runIn_bind_ok_iff.mp hrest
      cases hend
      refine Act.fault_bind_of_ok ht ?_
      exact Act.fault_bind (ih hds) _

theorem fault_requiredKeys {accepts : Schema → Act σ Bool} {fields earlier later : Entries Schema}
    {k : Key} {field : Schema} {keys : List Key} (hfields : fields = earlier ++ (k, field) :: later)
    (h : (requiredKeys accepts earlier).runIn w = (.ok keys, w₁))
    (hfield : ((accepts field).runIn w₁).1 = .error x) :
    ((requiredKeys accepts fields).runIn w).1 = .error x := by
  subst hfields
  induction earlier generalizing w keys with
  | nil =>
      cases h
      exact Act.fault_bind hfield _
  | cons e earlier ih =>
      obtain ⟨accepted, w₂, he, hrest⟩ := Act.runIn_bind_ok_iff.mp h
      obtain ⟨ks, w₃, hks, hend⟩ := Act.runIn_bind_ok_iff.mp hrest
      cases hend
      refine Act.fault_bind_of_ok he ?_
      exact Act.fault_bind (ih hks) _

theorem fault_whileExporting {id : Nat} {act : Act σ Document}
    (h : (act.runIn { w with exporting := id :: w.exporting }).1 = .error x) :
    ((whileExporting id act).runIn w).1 = .error x := by
  rw [runIn_whileExporting]
  exact h

theorem run_deferred {depth id : Nat} (hnew : id ∉ w.exporting) :
    run env ⟨depth + 1, .deferred id, w⟩ =
      (whileExporting id (env.resolve id >>= env.exportSchema depth)).runIn w := by
  refine (runIn_exportSchema_deferred env depth id w).trans ?_
  rw [if_neg (by simpa using hnew)]

/-- An export that is made by another ends it by its fault. -/
theorem fault_of_makes {f g : ExportCall σ} (h : Makes env f g) (hg : (g.run env).1 = .error x) :
    (f.run env).1 = .error x := by
  cases h with
  | @among depth s ss w earlier t later ds w₁ hrow hsplit hearlier =>
      have hall := fault_exportAll hsplit hearlier hg
      rw [run, exportSchema_succ]
      cases s <;> cases hrow <;> exact Act.fault_bind hall _
  | @inside depth s t w hinside =>
      rw [run, exportSchema_succ]
      cases s <;> cases hinside <;> first | exact hg | exact Act.fault_bind hg _
  | @deferred depth id w t w₁ hnew hresolve =>
      rw [run_deferred hnew]
      exact fault_whileExporting (Act.fault_bind_of_ok hresolve hg)

/-- A use in vain ends the export by its fault. -/
theorem fault_of_uses {id : Nat} {f : ExportCall σ} {u : World σ} (h : f.Uses env id u)
    (hu : ((env.resolve id).runIn u).1 = .error x) : (f.run env).1 = .error x := by
  induction h with
  | here hnew =>
      rw [run_deferred hnew]
      exact fault_whileExporting (Act.fault_bind hu _)
  | asks h hflag =>
      cases h with
      | field hdocuments hfields hearlier =>
          have hflags := fault_requiredKeys hfields hearlier (FlagCall.fault_of_uses hflag hu)
          exact Act.fault_bind_of_ok hdocuments (Act.fault_bind hflags _)
  | further h _ ih => exact fault_of_makes h (ih hu)

end Faults

end ExportCall

end Conform
