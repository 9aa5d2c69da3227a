import Conform.Proofs.Descent
import Conform.Proofs.Pairing

/-!
# Checks at another place

A check may be made in the middle of a descent: at a place below the root, with
errors behind it, and while containers are being looked into. What it finds is
then what it would find from a fresh context, put at that place. Every path of
an error is led to by the path of the place, also in the failures of attempts,
however deep; nothing else about an error changes.

Two things must not tell the places apart: a template must not look at the paths
of the failures that it is given, and no container that the check comes to may be
one that is being looked into already. The containers in a copy of a default are
new, so what the check comes to there is apart from all others.

## Main results

* `relocating_settings` — what a call adds is the same at another place.
* `check_relocated` — so is what a whole check does.
-/

namespace Conform

open Traverse

/-! ## Errors at another place -/

mutual

/-- An error record put at a place. -/
def ErrorRecord.placed (p : Path) : RecordOf Detail → RecordOf Detail
  | ⟨path, message, code, details⟩ => ⟨p ++ path, message, code, placedDetails p details⟩

/-- Error records put at a place. -/
def ErrorRecord.placedAll (p : Path) : List (RecordOf Detail) → List (RecordOf Detail)
  | [] => []
  | e :: es => placed p e :: placedAll p es

/-- Groups of error records put at a place. -/
def ErrorRecord.placedGroups (p : Path) :
    List (List (RecordOf Detail)) → List (List (RecordOf Detail))
  | [] => []
  | g :: gs => placedAll p g :: placedGroups p gs

/-- A detail put at a place: a value is as it was. -/
def ErrorRecord.placedDetail (p : Path) : Detail → Detail
  | .value v => .value v
  | .failures groups => .failures (placedGroups p groups)

/-- Details put at a place. -/
def ErrorRecord.placedDetails (p : Path) :
    Option (List (Key × Detail)) → Option (List (Key × Detail))
  | none => none
  | some ds => some (placedEntries p ds)

/-- Details with their names put at a place. -/
def ErrorRecord.placedEntries (p : Path) : List (Key × Detail) → List (Key × Detail)
  | [] => []
  | (k, d) :: ds => (k, placedDetail p d) :: placedEntries p ds

end

namespace ErrorRecord

theorem placedAll_eq_map (p : Path) (es : List ErrorRecord) :
    placedAll p es = es.map (placed p) := by
  induction es with
  | nil => rfl
  | cons e es ih => rw [placedAll, ih, List.map_cons]

theorem placedGroups_eq_map (p : Path) (groups : List (List ErrorRecord)) :
    placedGroups p groups = groups.map (List.map (placed p)) := by
  induction groups with
  | nil => rfl
  | cons g groups ih => rw [placedGroups, ih, placedAll_eq_map, List.map_cons]

/-- The failures of attempts at another place are put there one by one. -/
theorem placedDetails_failuresDetail (p : Path) (name : String) (groups : List (List ErrorRecord)) :
    placedDetails p (failuresDetail name groups) =
      failuresDetail name (groups.map (List.map (placed p))) := by
  simp [failuresDetail, placedDetails, placedEntries, placedDetail, placedGroups_eq_map]

mutual

/-- At the root, an error record is as it was. -/
@[simp] theorem placed_root : (e : RecordOf Detail) → placed [] e = e
  | ⟨path, message, code, details⟩ => by rw [placed, placedDetails_root details, List.nil_append]

@[simp] theorem placedAll_root : (es : List (RecordOf Detail)) → placedAll [] es = es
  | [] => rfl
  | e :: es => by rw [placedAll, placed_root e, placedAll_root es]

@[simp] theorem placedGroups_root : (gs : List (List (RecordOf Detail))) → placedGroups [] gs = gs
  | [] => rfl
  | g :: gs => by rw [placedGroups, placedAll_root g, placedGroups_root gs]

@[simp] theorem placedDetail_root : (d : Detail) → placedDetail [] d = d
  | .value v => rfl
  | .failures groups => by rw [placedDetail, placedGroups_root groups]

@[simp] theorem placedDetails_root : (ds : Option (List (Key × Detail))) → placedDetails [] ds = ds
  | none => rfl
  | some ds => by rw [placedDetails, placedEntries_root ds]

@[simp] theorem placedEntries_root : (ds : List (Key × Detail)) → placedEntries [] ds = ds
  | [] => rfl
  | (k, d) :: ds => by rw [placedEntries, placedDetail_root d, placedEntries_root ds]

end

theorem map_placed_root (es : List ErrorRecord) : es.map (placed []) = es := by
  rw [← placedAll_eq_map, placedAll_root]

theorem placedEntries_eq_self (p : Path) {ds : Details} (h : ∀ d ∈ ds, ∃ u, d.2 = .value u) :
    placedEntries p ds = ds := by
  induction ds with
  | nil => rfl
  | cons d ds ih =>
      obtain ⟨k, d⟩ := d
      obtain ⟨u, rfl⟩ : ∃ u, d = .value u := h _ List.mem_cons_self
      rw [placedEntries, placedDetail, ih fun e he => h e (List.mem_cons_of_mem _ he)]

end ErrorRecord

/-- A violation whose details are values tells of no place but its own. -/
theorem Violation.Plain.placedDetails_eq {x : Violation} (h : x.Plain) (p : Path) :
    ErrorRecord.placedDetails p x.details = x.details := by
  cases hds : x.details with
  | none => rfl
  | some ds => rw [ErrorRecord.placedDetails, ErrorRecord.placedEntries_eq_self p (h ds hds)]

/-! ## Contexts at another place -/

namespace Context

variable {b c : Context}

/-- What was found in a context, put at the place of another. -/
def place (b c : Context) : Context where
  path := b.path ++ c.path
  errors := b.errors ++ c.errors.map (ErrorRecord.placed b.path)
  awaiting := b.awaiting || c.awaiting
  visited := c.visited ++ b.visited

@[simp] theorem place_fresh (b : Context) : b.place {} = b := by simp [place]

theorem place_push (b c : Context) (k : Key) : (b.place c).push k = b.place (c.push k) := by
  simp [place, push]

theorem place_pop (b : Context) (h : c.path ≠ []) : (b.place c).pop = b.place c.pop := by
  simp [place, pop, List.dropLast_append_of_ne_nil h]

theorem place_afresh (b c : Context) : (b.place c).afresh = b.afresh.place c.afresh := by
  simp [place, afresh]

theorem place_resume (b c copied : Context) :
    (b.place c).resume (b.afresh.place copied) = b.place (c.resume copied) := by
  simp [place, afresh, resume]

theorem place_fork (b c : Context) : (b.place c).fork = b.fork.place c.fork := by
  simp [place, fork]

theorem place_addError (b c : Context) (e : ErrorRecord) :
    (b.place c).addError (ErrorRecord.placed b.path e) = b.place (c.addError e) := by
  simp [place, addError]

theorem place_markAwaiting (b c : Context) :
    (b.place c).markAwaiting = b.place c.markAwaiting := by
  simp [place, markAwaiting]

theorem hasVisited_place {v : Value} (h : b.hasVisited v = false) (c : Context) :
    (b.place c).hasVisited v = c.hasVisited v := by
  unfold hasVisited at h ⊢
  cases hi : v.identity? with
  | none => rfl
  | some i =>
      rw [hi] at h
      simp_all [place]

theorem place_mark {v : Value} (h : b.hasVisited v = false) (c : Context) :
    (b.place c).mark v = b.place (c.mark v) := by
  unfold hasVisited at h
  unfold mark
  cases hi : v.identity? with
  | none => rfl
  | some i =>
      rw [hi] at h
      by_cases hc : c.visited.contains i = true <;> simp_all [place]

theorem place_unmark {v : Value} (h : b.hasVisited v = false) (c : Context) :
    (b.place c).unmark v = b.place (c.unmark v) := by
  unfold hasVisited at h
  unfold unmark
  cases hi : v.identity? with
  | none => rfl
  | some i =>
      have hout : i ∉ b.visited := by simpa [hi] using h
      have hkept : b.visited.filter (· != i) = b.visited := by
        refine List.filter_eq_self.mpr fun j hj => ?_
        simp only [bne_iff_ne, ne_eq]
        rintro rfl
        exact hout hj
      simp [place, hkept]

end Context

/-! ## Works at another place -/

variable {σ : Type}

/-- Two runs end alike: by alike values or by the same fault, in the same world,
what the first found being put at the place of a context by the second. -/
inductive PlacedEnd {α β : Type} (b : Context) (R : α → β → Prop) :
    Except Fault α × Context × World σ → Except Fault β × Context × World σ → Prop
  | value {a : α} {a' : β} {c c' : Context} {w : World σ} (h : R a a') (hc : c' = b.place c) :
      PlacedEnd b R (.ok a, c, w) (.ok a', c', w)
  | fault {f : Fault} {c c' : Context} {w : World σ} (hc : c' = b.place c) :
      PlacedEnd b R (.error f, c, w) (.error f, c', w)

/-- Works that end alike when the second starts at a place, while no containers but
some are being looked into, whatever was found there before. -/
def Relocates {α β : Type} (p : Path) (visited : List Identity) (R : α → β → Prop) (c : Context)
    (w : World σ) (e : Engine σ α) (e' : Engine σ β) : Prop :=
  ∀ b : Context, b.path = p → b.visited ⊆ visited →
    PlacedEnd b R (e.runIn c w) (e'.runIn (b.place c) w)

namespace Relocates

variable {p : Path} {visited : List Identity} {α β γ δ : Type} {R : α → β → Prop} {c : Context}
  {w : World σ} {e : Engine σ α} {e' : Engine σ β}

theorem bind {S : γ → δ → Prop} {k : α → Engine σ γ} {k' : β → Engine σ δ}
    (h : Relocates p visited R c w e e')
    (hk : ∀ a a' c₁ w₁, e.runIn c w = (.ok a, c₁, w₁) → R a a' →
      Relocates p visited S c₁ w₁ (k a) (k' a')) :
    Relocates p visited S c w (e >>= k) (e' >>= k') := by
  intro b hp hvisited
  have hend := h b hp hvisited
  rw [Engine.runIn_bind, Engine.runIn_bind]
  generalize hrun : e.runIn c w = out, e'.runIn (b.place c) w = out' at hend ⊢
  cases hend with
  | value ha hc => exact hc ▸ hk _ _ _ _ hrun ha b hp hvisited
  | fault hc => exact .fault hc

theorem within (k : Key) (hback : (c.push k).Restored (e.runIn (c.push k) w).2.1)
    (h : Relocates p visited R (c.push k) w e e') :
    Relocates p visited R c w (Engine.within k e) (Engine.within k e') := by
  intro b hp hvisited
  have hend := h b hp hvisited
  have hpath : (e.runIn (c.push k) w).2.1.path ≠ [] := by simp [hback.path]
  rw [Engine.runIn_within, Engine.runIn_within, Context.place_push]
  generalize e.runIn (c.push k) w = out, e'.runIn (b.place (c.push k)) w = out' at hend hpath ⊢
  cases hend with
  | value ha hc => exact .value ha (hc ▸ Context.place_pop b hpath)
  | fault hc => exact .fault (hc ▸ Context.place_pop b hpath)

theorem speculate (h : Relocates p visited R c.fork w e e') :
    Relocates p visited (fun q q' => R q.1 q'.1 ∧
        List.Forall₂ (fun x y => y = ErrorRecord.placed p x) q.2 q'.2) c w
      (Engine.speculate e) (Engine.speculate e') := by
  intro b hp hvisited
  have hend := h b.fork hp hvisited
  rw [Engine.runIn_speculate, Engine.runIn_speculate, Context.place_fork]
  generalize e.runIn c.fork w = out, e'.runIn (b.fork.place c.fork) w = out' at hend ⊢
  cases hend with
  | @value _ _ fork _ w₁ ha hc =>
      subst hc
      refine .value ⟨ha, ?_⟩ ?_
      · have herrors : (b.fork.place fork).errors = fork.errors.map (ErrorRecord.placed p) := by
          simp [Context.place, Context.fork, hp]
        simp only [herrors, List.forall₂_map_right_iff]
        exact List.forall₂_same.mpr fun _ _ => rfl
      · simp [Context.place, Context.fork, Bool.or_assoc]
  | fault hc => exact .fault rfl

/-- In a copy, nothing is being looked into. -/
theorem onCopy (h : Relocates p [] R c.afresh w e e') :
    Relocates p visited R c w (Engine.onCopy e) (Engine.onCopy e') := by
  intro b hp _
  have hend := h b.afresh hp (List.Subset.refl [])
  rw [Engine.runIn_onCopy, Engine.runIn_onCopy, Context.place_afresh]
  generalize e.runIn c.afresh w = out, e'.runIn (b.afresh.place c.afresh) w = out' at hend ⊢
  cases hend with
  | value ha hc => exact .value ha (hc ▸ Context.place_resume b c _)
  | fault hc => exact .fault (hc ▸ Context.place_resume b c _)

theorem mono {visited' : List Identity} (hsubset : visited' ⊆ visited)
    (h : Relocates p visited R c w e e') : Relocates p visited' R c w e e' :=
  fun b hp hvisited => h b hp (List.Subset.trans hvisited hsubset)

theorem hasVisited_eq_false {b : Context} {v : Value} (hvisited : b.visited ⊆ visited)
    (hapart : v.identity?.any visited.contains = false) : b.hasVisited v = false := by
  unfold Context.hasVisited
  cases hi : v.identity? with
  | none => rfl
  | some i =>
      have hout : i ∉ visited := by simpa [hi] using hapart
      simpa using fun hin => hout (hvisited hin)

theorem lookingInto {v : Value} (hapart : v.identity?.any visited.contains = false)
    (h : Relocates p visited R (c.mark v) w e e') :
    Relocates p visited R c w (Engine.lookingInto v e) (Engine.lookingInto v e') := by
  intro b hp hvisited
  have hend := h b hp hvisited
  have hb : b.hasVisited v = false := hasVisited_eq_false hvisited hapart
  rw [Engine.runIn_lookingInto, Engine.runIn_lookingInto, Context.place_mark hb]
  generalize e.runIn (c.mark v) w = out, e'.runIn (b.place (c.mark v)) w = out' at hend ⊢
  cases hend with
  | value ha hc => exact .value ha (hc ▸ Context.place_unmark hb _)
  | fault hc => exact .fault (hc ▸ Context.place_unmark hb _)

theorem enter {S : Value → Value → Prop} (v : Value) {refused refused' : Engine σ Value}
    {k : α → Engine σ Value} {k' : β → Engine σ Value}
    (hapart : v.identity?.any visited.contains = false)
    (hrefused : c.hasVisited v = true → Relocates p visited S c w refused refused')
    (h : c.hasVisited v = false → Relocates p visited R (c.mark v) w e e')
    (hk : c.hasVisited v = false → ∀ a a' c₁ w₁,
      (Engine.lookingInto v e).runIn c w = (.ok a, c₁, w₁) → R a a' →
      Relocates p visited S c₁ w₁ (k a) (k' a')) :
    Relocates p visited S c w
      (Engine.context >>= fun c =>
        if c.hasVisited v then refused else Engine.lookingInto v e >>= k)
      (Engine.context >>= fun c =>
        if c.hasVisited v then refused' else Engine.lookingInto v e' >>= k') := by
  intro b hp hvisited
  have hb : b.hasVisited v = false := hasVisited_eq_false hvisited hapart
  rw [Engine.runIn_bind_of_ok _ (Engine.runIn_context c w),
    Engine.runIn_bind_of_ok _ (Engine.runIn_context (b.place c) w), Context.hasVisited_place hb]
  cases hfresh : c.hasVisited v with
  | true => exact hrefused hfresh b hp hvisited
  | false => exact (lookingInto hapart (h hfresh)).bind (hk hfresh) b hp hvisited

end Relocates

/-- Being alike at another place as a pairing. -/
def relocating (σ : Type) (p : Path) (visited : List Identity) : Pairing σ where
  record e e' := e' = ErrorRecord.placed p e
  apart v := v.identity?.any visited.contains = false
  fault _ := True
  work := Relocates p visited
  pure _ _ h _ _ _ := .value h rfl
  bind := Relocates.bind
  exhausted := trivial
  throw _ _ _ _ _ _ _ _ := .fault rfl
  store _ _ _ _ _ := .value rfl rfl
  act {_} c {w act} _ b _ _ := by
    rw [Engine.runIn_ofAct, Engine.runIn_ofAct]
    rcases act.runIn w with ⟨f | a, w₁⟩
    · exact .fault rfl
    · exact .value rfl rfl
  attempt _ _ _ _ _ _ := .value rfl rfl
  markAwaiting c _ b _ _ := .value rfl (b.place_markAwaiting c)
  within := Relocates.within
  onCopy h := .onCopy (h.mono (List.nil_subset _))
  speculate := Relocates.speculate
  enter v _ _ _ _ _ _ := Relocates.enter v

/-- No template looks at whether the failures of attempts are put at a place. -/
def Setting.BlindTo (env : Setting σ) (p : Path) : Prop :=
  ∀ code ∈ [BuiltinCode.unionInvalid, .intersectionInvalid],
    ∀ (st : Store) (words name : String) (groups : List (List ErrorRecord)),
      env.catalog.format env.scope st code.text words
          (failuresDetail name (groups.map (List.map (ErrorRecord.placed p)))) =
        env.catalog.format env.scope st code.text words (failuresDetail name groups)

/-- No template looks at the paths of the failures of attempts: it gives the same
words wherever they are. -/
def Setting.PathBlind (env : Setting σ) : Prop := ∀ p, env.BlindTo p

variable {env : Setting σ} {p : Path} {visited : List Identity} {c : Context}

/-- What is put at the root stays where it is. -/
theorem Setting.blindTo_root (env : Setting σ) : env.BlindTo [] := by
  intro code _ st words name groups
  rw [← ErrorRecord.placedGroups_eq_map, ErrorRecord.placedGroups_root]

theorem relocates_addWorded (code : Code) (words : Option String) (w : World σ) :
    Relocates p visited (· = ·) c w (Engine.addWorded code words none)
      (Engine.addWorded code words none) := by
  rintro b rfl _
  exact .value rfl (b.place_addError c ⟨c.path, words, code, none⟩)

/-- A violation is reported alike at another place if its details are put there,
and worded alike. -/
theorem relocates_addViolation {x x' : Violation} (w : World σ)
    (hsame : x' = { x with details := ErrorRecord.placedDetails p x.details })
    (hwords : ∀ words, env.catalog.format env.scope w.store (Code.builtin x.code).text words
        (ErrorRecord.placedDetails p x.details) =
      env.catalog.format env.scope w.store (Code.builtin x.code).text words x.details) :
    Relocates p visited (· = ·) c w (Engine.addViolation env x) (Engine.addViolation env x') := by
  rintro b rfl _
  have hmessage : x'.message env w.store = x.message env w.store := by
    simp only [hsame, Violation.message, hwords]
  rw [Engine.runIn_addViolation, Engine.runIn_addViolation, hmessage]
  cases x.message env w.store with
  | error f => exact .fault rfl
  | ok words =>
      subst hsame
      exact .value rfl (b.place_addError c ⟨c.path, some words, .builtin x.code, x.details⟩)

theorem eq_map_of_forall₂ {α β : Type} {f : α → β} {as : List α} {bs : List β}
    (h : List.Forall₂ (fun a b => b = f a) as bs) : bs = as.map f := by
  induction h with
  | nil => rfl
  | cons hab _ ih => rw [hab, ih, List.map_cons]

/-- What a call adds is the same at another place. -/
theorem relocating_settings (hblind : env.BlindTo p) {mode : Mode} {f : Call σ}
    (hapart : f.meets = true → f.value.identity?.any visited.contains = false) :
    (relocating σ p visited).Settings env mode f where
  apart := hapart
  judged _ := trivial
  asked _ _ _ := trivial
  resolved _ _ := trivial
  uncopied _ _ _ := trivial
  violation {x _ _} h _ w _ := by
    have hplain := h.plain.placedDetails_eq p
    exact relocates_addViolation w (by rw [hplain]) fun words => by rw [hplain]
  failures {x name _} h _ w _ groups groups' hgroups := by
    obtain rfl : groups' = groups.map (List.map (ErrorRecord.placed p)) :=
      eq_map_of_forall₂ (hgroups.imp fun _ _ => eq_map_of_forall₂)
    refine relocates_addViolation w ?_ fun words => ?_
    · rw [ErrorRecord.placedDetails_failuresDetail]
    · rw [ErrorRecord.placedDetails_failuresDetail]
      cases h with
      | union => exact hblind .unionInvalid (by decide) ..
      | intersection => exact hblind .intersectionInvalid (by decide) ..
  worded _ _ w words := relocates_addWorded _ words w

/-! ## What is not being looked into -/

/-- A call whose value is a container has a container for a value that may be
looked into, unless it is one of those that are. -/
theorem Call.not_visited_of_meets {f : Call σ} (hmeets : f.meets = true)
    (h : ∀ a copied, f.value = .shared a copied → .shared a copied ∉ visited) :
    f.value.identity?.any visited.contains = false := by
  obtain ⟨depth, s, v, c, w⟩ := f
  cases v with
  | atom a => cases s <;> cases hmeets
  | shared a copied => simpa [Value.identity?] using h a copied rfl
  | _ => rfl

/-- With a host that leaves the containers of a value alone, a call in which no
copy is made, for a value among them, comes to nothing but what its value holds. -/
theorem Call.references_subset {mode : Mode} {st : Store} {v : Value} {f g : Call σ}
    (hkeeps : env.Keeps (st.Unchanged v)) (hworld : st.Unchanged v f.world)
    (hvalue : st.references f.value ⊆ st.references v)
    (h : Relation.ReflTransGen (Call.GoesOn env mode) f g) :
    st.references g.value ⊆ st.references f.value := by
  induction h with
  | refl => exact subset_rfl
  | @tail g h hreaches hgoes ih =>
      have hmade := Relation.ReflTransGen.mono (fun _ _ h => And.right h) _ _ hreaches
      have hstill := keeps_of_reaches hkeeps hmade hworld
      cases hgoes.2.step with
      | down _ _ _ hchild =>
          rcases hchild with ⟨w, hafter, hchild⟩ | ⟨-, -, hmissing⟩
          · rw [(hafter _ hkeeps hstill).child?_eq (ih.trans hvalue)] at hchild
            exact (Store.references_subset (Store.holds_of_child? hchild)).trans ih
          · simp [hmissing]
      | level _ _ _ _ hsame => rwa [hsame]
      | copy _ hcopies _ => simp [hgoes.1] at hcopies

/-- A call is alike at another place if no container is being looked into there
that it comes to before a copy is made: in a copy, all containers are new. -/
theorem relocating_walks (hblind : env.BlindTo p) {mode : Mode} {f : Call σ}
    (h : ∀ g, Relation.ReflTransGen (Call.GoesOn env mode) f g → ∀ a copied,
      g.value = .shared a copied → .shared a copied ∉ visited) :
    (relocating σ p visited).Walks env mode f := by
  induction f using Call.induct env mode with
  | h f ih =>
      have hset : (relocating σ p visited).Settings env mode f :=
        relocating_settings hblind fun hmeets => Call.not_visited_of_meets hmeets (h f .refl)
      refine Pairing.walks_of_makes hset (fun g hg => ?_) fun hcopies g hg => ?_
      · exact ih g hg.2 fun k hk => h k (.head hg hk)
      · have hcopied : (relocating σ p []).Walks env mode g :=
          Pairing.walks fun k _ => relocating_settings hblind fun _ => by
            cases k.value.identity? <;> rfl
        obtain ⟨hcontext, hworld⟩ := hg.of_copies hcopies
        rw [Pairing.Walks, Pairing.Checks, hcontext, hworld] at hcopied
        exact Relocates.onCopy hcopied

/-- So what it finds at another place is what it finds, put there. -/
theorem check_placed_of_apart {b : Context} (hblind : env.BlindTo b.path) {mode : Mode}
    {depth : Nat} {s : Schema} {v : Value} {w : World σ}
    (h : ∀ g, Relation.ReflTransGen (Call.GoesOn env mode) ⟨depth, s, v, c, w⟩ g →
      ∀ a copied, g.value = .shared a copied → .shared a copied ∉ b.visited) :
    (check env mode depth s v).runIn (b.place c) w =
      (((check env mode depth s v).runIn c w).1, b.place ((check env mode depth s v).runIn c w).2.1,
        ((check env mode depth s v).runIn c w).2.2) := by
  have hwalks : (relocating σ b.path b.visited).Walks env mode ⟨depth, s, v, c, w⟩ :=
    relocating_walks hblind h
  have hend := hwalks b rfl (List.Subset.refl _)
  simp only at hend
  generalize (check env mode depth s v).runIn c w = out,
    (check env mode depth s v).runIn (b.place c) w = out' at hend ⊢
  cases hend with
  | value hr hc => rw [hr, hc]
  | fault hc => rw [hc]

theorem check_relocated_of_apart (hblind : env.BlindTo c.path) {mode : Mode} {depth : Nat}
    {s : Schema} {v : Value} {w : World σ}
    (h : ∀ g, Relation.ReflTransGen (Call.GoesOn env mode) ⟨depth, s, v, {}, w⟩ g →
      ∀ a copied, g.value = .shared a copied → .shared a copied ∉ c.visited) :
    (check env mode depth s v).runIn c w =
      (((check env mode depth s v).runIn {} w).1,
        { c with
          errors := c.errors ++
            ((check env mode depth s v).runIn {} w).2.1.errors.map (ErrorRecord.placed c.path)
          awaiting := c.awaiting || ((check env mode depth s v).runIn {} w).2.1.awaiting },
        ((check env mode depth s v).runIn {} w).2.2) := by
  have hplaced := check_placed_of_apart hblind h
  have hback := check_restores_context env mode depth s v {} w
  rw [Context.place_fresh] at hplaced
  rw [hplaced]
  generalize (check env mode depth s v).runIn {} w = out at hback
  obtain ⟨hpath, hvisited, -, -⟩ := hback
  simp only at hpath hvisited
  simp [Context.place, hpath, hvisited]

end Conform
