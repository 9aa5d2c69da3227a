import Mathlib.Data.List.Chain
import Mathlib.Logic.Relation
import Conform.Proofs.Run

/-!
# The calls of a descent

Checking a value against a schema calls the check again for what lies
deeper. A `Call` is one such check: the depth that is left to it, its schema
and value, and the context and the world in which it is made. `Makes` says
which calls a call makes, one constructor for each place of a layer that
calls. Fields, elements, options and members are checked one after another,
so a call among them is made where the check of those before it has ended.

A *descent* is a chain of calls each of which is made by the one before it.
The calls of a whole run are those that a descent from its first call
reaches.

## Main results

* `checkFields_concat`, `tryMembers_concat` — a loop over a longer list is the
  loop over the shorter one and one more turn.
* `runIn_checkItems` — the items of a container are checked turn by turn, each
  as it is when its turn comes; `firstItems` are the turns of the first ones.
* `tryOptions_of_failed` — options that failed are done with; only their
  errors remain.
* `runIn_checkLayer_congr` — a layer depends on the check of what lies deeper
  only through the calls it makes, so `Makes` leaves no call out.
-/

namespace Conform

namespace Traverse

variable {σ : Type} {env : Setting σ} {accepts accepts' : MissingTest σ}
  {child child' : Checker σ}

/-! ## Loops, one turn after another -/

/-- The outcome of a field joined to the outcomes of those before it. -/
def joinOutcome (done : Entries Value × Bool) (k : Key) (out : Option Value × Bool) :
    Entries Value × Bool :=
  (done.1 ++ (out.1.map fun v => (k, v)).toList, done.2 || out.2)

/-- The result of an element joined to the results of those before it. -/
def joinResult (done : List Value × Bool) (result : Value) : List Value × Bool :=
  if isInvalid result then (done.1, true)
  else (done.1 ++ [if isMissing result then .null else result], done.2)

/-- The result or the errors of a member joined to those of the members
before it. -/
def joinAttempt (done : List Value × List (List ErrorRecord)) (attempt : Value × List ErrorRecord) :
    List Value × List (List ErrorRecord) :=
  if attempt.2.isEmpty then (done.1 ++ [attempt.1], done.2) else (done.1, done.2 ++ [attempt.2])

theorem checkFields_append (v : Value) (fields more : Entries Schema) :
    checkFields env accepts child v (fields ++ more) = do
      let done ← checkFields env accepts child v fields
      let rest ← checkFields env accepts child v more
      return (done.1 ++ rest.1, done.2 || rest.2) := by
  induction fields with
  | nil => simp [checkFields]
  | cons e fields ih =>
      obtain ⟨k, field⟩ := e
      simp only [List.cons_append, checkFields, ih, bind_assoc, pure_bind, List.append_assoc,
        Bool.or_assoc]

theorem checkFields_concat (v : Value) (fields : Entries Schema) (k : Key) (field : Schema) :
    checkFields env accepts child v (fields ++ [(k, field)]) = do
      let done ← checkFields env accepts child v fields
      let out ← checkField env accepts child v k field
      return joinOutcome done k out := by
  rw [checkFields_append]
  simp [checkFields, joinOutcome]

/-- The turn of the item at a place, joined to the results of those before it; nothing is
joined where there is no such item by then. -/
def nextItem (one : Value → Engine σ Value) (v : Value) (done : List Value × Bool) (i : Nat) :
    Engine σ (List Value × Bool) := do
  match ((← Engine.store).itemsOf v)[i]? with
  | none => return done
  | some u => return joinResult done (← Engine.within (.index i) (one u))

/-- The turns of the first items of a container. -/
def firstItems (one : Value → Engine σ Value) (v : Value) : Nat → Engine σ (List Value × Bool)
  | 0 => return ([], false)
  | n + 1 => do nextItem one v (← firstItems one v n) n

theorem runIn_nextItem (one : Value → Engine σ Value) (v : Value) (done : List Value × Bool)
    (i : Nat) (c : Context) (w : World σ) :
    (nextItem one v done i).runIn c w =
      match (w.store.itemsOf v)[i]? with
      | none => (.ok done, c, w)
      | some u => (do return joinResult done (← Engine.within (.index i) (one u))).runIn c w := by
  rw [nextItem, Engine.runIn_bind_of_ok _ (Engine.runIn_store c w)]
  cases (w.store.itemsOf v)[i]? <;> rfl

/-- A turn either finds that the container has ended, or checks its item. -/
theorem cases_of_runIn_nextItem {one : Value → Engine σ Value} {v : Value} {i : Nat}
    {done done' : List Value × Bool} {c c' : Context} {w w' : World σ}
    (h : (nextItem one v done i).runIn c w = (.ok done', c', w')) :
    ((w.store.itemsOf v)[i]? = none ∧ done' = done ∧ c' = c ∧ w' = w) ∨
    ∃ u r c₁, (w.store.itemsOf v)[i]? = some u ∧
      (one u).runIn (c.push (.index i)) w = (.ok r, c₁, w') ∧ c' = c₁.pop ∧
      done' = joinResult done r := by
  rw [runIn_nextItem] at h
  cases hitem : (w.store.itemsOf v)[i]? with
  | none =>
      simp only [hitem, Prod.mk.injEq, Except.ok.injEq] at h
      exact .inl ⟨rfl, h.1.symm, h.2.1.symm, h.2.2.symm⟩
  | some u =>
      rw [hitem] at h
      obtain ⟨r, c₂, w₂, hwithin, hpure⟩ := Engine.runIn_bind_ok_iff.mp h
      obtain ⟨c₁, hinside, rfl⟩ := Engine.runIn_within_ok_iff.mp hwithin
      cases hpure
      exact .inr ⟨u, r, c₁, rfl, hinside, rfl, rfl⟩

/-- Where a container has ended, there are no further turns. -/
theorem runIn_firstItems_of_ended {one : Value → Engine σ Value} {v : Value} {n : Nat}
    {done : List Value × Bool} {c c₁ : Context} {w w₁ : World σ}
    (h : (firstItems one v n).runIn c w = (.ok done, c₁, w₁))
    (hended : (w₁.store.itemsOf v)[n]? = none) (more : Nat) :
    (firstItems one v (n + more)).runIn c w = (.ok done, c₁, w₁) := by
  induction more with
  | zero => exact h
  | succ more ih =>
      have hlater : (w₁.store.itemsOf v)[n + more]? = none := by
        rw [List.getElem?_eq_none_iff] at hended ⊢
        omega
      rw [← Nat.add_assoc, firstItems, Engine.runIn_bind_of_ok _ ih, runIn_nextItem, hlater]

/-- One more turn. -/
theorem runIn_firstItems_turn {one : Value → Engine σ Value} {v u : Value} {n : Nat}
    {done : List Value × Bool} {c c₁ : Context} {w w₁ : World σ}
    (h : (firstItems one v n).runIn c w = (.ok done, c₁, w₁))
    (hitem : (w₁.store.itemsOf v)[n]? = some u) :
    (firstItems one v (n + 1)).runIn c w =
      (Engine.within (.index n) (one u) >>= fun r => pure (joinResult done r)).runIn c₁ w₁ := by
  rw [firstItems, Engine.runIn_bind_of_ok _ h, runIn_nextItem, hitem]

theorem runIn_firstItems_succ {one : Value → Engine σ Value} {v u r : Value} {n : Nat}
    {done : List Value × Bool} {c c₁ c₂ : Context} {w w₁ w₂ : World σ}
    (h : (firstItems one v n).runIn c w = (.ok done, c₁, w₁))
    (hitem : (w₁.store.itemsOf v)[n]? = some u)
    (hrun : (Engine.within (.index n) (one u)).runIn c₁ w₁ = (.ok r, c₂, w₂)) :
    (firstItems one v (n + 1)).runIn c w = (.ok (joinResult done r), c₂, w₂) :=
  (runIn_firstItems_turn h hitem).trans (Engine.runIn_bind_of_ok _ hrun)

/-- After a turn that faulted there are no further turns. -/
theorem runIn_firstItems_of_error {one : Value → Engine σ Value} {v : Value} {n : Nat}
    {f : Fault} {c c₁ : Context} {w w₁ : World σ}
    (h : (firstItems one v n).runIn c w = (.error f, c₁, w₁)) (more : Nat) :
    (firstItems one v (n + more)).runIn c w = (.error f, c₁, w₁) := by
  induction more with
  | zero => exact h
  | succ more ih => rw [← Nat.add_assoc, firstItems, Engine.runIn_bind, ih]

/-- The items from some place on, those before it having had their turns. -/
theorem runIn_checkItems_of_first {one : Value → Engine σ Value} {v : Value} {n : Nat}
    {done : List Value × Bool} {c c₁ : Context} {w w₁ : World σ}
    (h : (firstItems one v n).runIn c w = (.ok done, c₁, w₁)) (more : Nat) :
    (do
      let rest ← checkItems one v more n
      return (done.1 ++ rest.1, done.2 || rest.2)).runIn c₁ w₁ =
      (do
        let done ← firstItems one v (n + more)
        if n + more < ((← Engine.store).itemsOf v).length then throw Fault.exhausted
        else return done).runIn c w := by
  induction more generalizing n done c₁ w₁ with
  | zero =>
      rw [Nat.add_zero, Engine.runIn_bind_of_ok _ h, checkItems, bind_assoc,
        Engine.runIn_bind_of_ok _ (Engine.runIn_store c₁ w₁),
        Engine.runIn_bind_of_ok _ (Engine.runIn_store c₁ w₁)]
      by_cases hmore : n < (w₁.store.itemsOf v).length
      · simp only [hmore, if_true]
        rfl
      · simp [hmore]
  | succ more ih =>
      rw [checkItems, bind_assoc, Engine.runIn_bind_of_ok _ (Engine.runIn_store c₁ w₁)]
      cases hitem : (w₁.store.itemsOf v)[n]? with
      | none =>
          have hall := runIn_firstItems_of_ended h hitem (more + 1)
          have hend : ¬ n + (more + 1) < (w₁.store.itemsOf v).length := by
            rw [List.getElem?_eq_none_iff] at hitem
            omega
          rw [Engine.runIn_bind_of_ok _ hall,
            Engine.runIn_bind_of_ok _ (Engine.runIn_store c₁ w₁)]
          simp [hend]
      | some u =>
          have hsucc : n + (more + 1) = n + 1 + more := by omega
          rw [hsucc]
          rcases hrun : (Engine.within (.index n) (one u)).runIn c₁ w₁ with ⟨f | result, c₂, w₂⟩
          · have hturn : (firstItems one v (n + 1)).runIn c w = (.error f, c₂, w₂) := by
              rw [runIn_firstItems_turn h hitem, Engine.runIn_bind, hrun]
            simp only [bind_assoc]
            rw [Engine.runIn_bind, hrun, Engine.runIn_bind, runIn_firstItems_of_error hturn]
          · rw [← ih (runIn_firstItems_succ h hitem hrun), bind_assoc,
              Engine.runIn_bind_of_ok _ hrun]
            simp only [bind_assoc]
            refine Engine.runIn_bind_congr rfl fun rest c₃ w₃ _ => ?_
            cases hinvalid : isInvalid result <;> simp [joinResult, hinvalid]

/-- The check of the items of a container is that of its first ones, of which there may
not be more. -/
theorem runIn_checkItems (one : Value → Engine σ Value) (v : Value) (n : Nat) (c : Context)
    (w : World σ) :
    (checkItems one v n 0).runIn c w =
      (do
        let done ← firstItems one v n
        if n < ((← Engine.store).itemsOf v).length then throw Fault.exhausted
        else return done).runIn c w := by
  have hnone : (firstItems one v 0).runIn c w = (.ok ([], false), c, w) := rfl
  have hall := runIn_checkItems_of_first hnone n
  rw [Nat.zero_add] at hall
  rw [← hall]
  simp

theorem runIn_checkItems_ok_iff {one : Value → Engine σ Value} {v : Value} {n : Nat}
    {c c' : Context} {w w' : World σ} {done : List Value × Bool} :
    (checkItems one v n 0).runIn c w = (.ok done, c', w') ↔
      (firstItems one v n).runIn c w = (.ok done, c', w') ∧ (w'.store.itemsOf v).length ≤ n := by
  rw [runIn_checkItems, Engine.runIn_bind_ok_iff]
  constructor
  · rintro ⟨first, c₁, w₁, hfirst, hrest⟩
    rw [Engine.runIn_bind_of_ok _ (Engine.runIn_store c₁ w₁)] at hrest
    split at hrest
    · cases hrest
    · cases hrest
      exact ⟨hfirst, by omega⟩
  · rintro ⟨hfirst, hlength⟩
    refine ⟨done, c', w', hfirst, ?_⟩
    rw [Engine.runIn_bind_of_ok _ (Engine.runIn_store c' w'), if_neg (by omega)]
    rfl

theorem tryMembers_append (v : Value) (members more : List Schema) :
    tryMembers child v (members ++ more) = do
      let done ← tryMembers child v members
      let rest ← tryMembers child v more
      return (done.1 ++ rest.1, done.2 ++ rest.2) := by
  induction members with
  | nil => simp [tryMembers]
  | cons m members ih =>
      simp only [List.cons_append, tryMembers, ih, bind_assoc]
      refine congrArg _ (funext fun attempt => ?_)
      refine congrArg _ (funext fun done => ?_)
      by_cases h : attempt.2.isEmpty <;> simp [h]

theorem tryMembers_concat (v : Value) (members : List Schema) (member : Schema) :
    tryMembers child v (members ++ [member]) = do
      let done ← tryMembers child v members
      let attempt ← Engine.speculate (child member v)
      return joinAttempt done attempt := by
  rw [tryMembers_append]
  refine congrArg _ (funext fun done => ?_)
  simp only [tryMembers, bind_assoc, pure_bind]
  refine congrArg _ (funext fun attempt => ?_)
  by_cases h : attempt.2.isEmpty <;> simp [h, joinAttempt]

/-- Members that all failed, and one more that failed. -/
theorem runIn_tryMembers_failed {v : Value} {members : List Schema} {member : Schema}
    {c c₁ c₂ : Context} {w w₁ w₂ : World σ} {failed : List (List ErrorRecord)}
    {attempt : Value × List ErrorRecord}
    (h : (tryMembers child v members).runIn c w = (.ok ([], failed), c₁, w₁))
    (hattempt : (Engine.speculate (child member v)).runIn c₁ w₁ = (.ok attempt, c₂, w₂))
    (herrors : attempt.2.isEmpty = false) :
    (tryMembers child v (members ++ [member])).runIn c w =
      (.ok ([], failed ++ [attempt.2]), c₂, w₂) := by
  rw [tryMembers_concat, Engine.runIn_bind_of_ok _ h, Engine.runIn_bind_of_ok _ hattempt]
  simp [joinAttempt, herrors]

/-- Options that failed are done with; only their errors remain. -/
theorem tryOptions_of_failed {v : Value} {options : List Schema} {c c₁ : Context}
    {w w₁ : World σ} {failed : List (List ErrorRecord)}
    (h : (tryMembers child v options).runIn c w = (.ok ([], failed), c₁, w₁))
    (groups : List (List ErrorRecord)) (more : List Schema) :
    (tryOptions env child v groups (options ++ more)).runIn c w =
      (tryOptions env child v (groups ++ failed) more).runIn c₁ w₁ := by
  induction options generalizing c w groups failed with
  | nil =>
      simp only [tryMembers, Engine.runIn_pure, Prod.mk.injEq, Except.ok.injEq] at h
      obtain ⟨⟨-, rfl⟩, rfl, rfl⟩ := h
      simp
  | cons option options ih =>
      simp only [tryMembers] at h
      obtain ⟨⟨result, errors⟩, c₂, w₂, hattempt, h⟩ := Engine.runIn_bind_ok_iff.mp h
      obtain ⟨⟨results, rest⟩, c₃, w₃, hrest, h⟩ := Engine.runIn_bind_ok_iff.mp h
      by_cases herrors : errors.isEmpty
      · simp [herrors] at h
      · simp only [herrors, Bool.false_eq_true, if_false, Engine.runIn_pure, Prod.mk.injEq,
          Except.ok.injEq] at h
        obtain ⟨⟨rfl, rfl⟩, rfl, rfl⟩ := h
        simp only [List.cons_append, tryOptions]
        rw [Engine.runIn_bind_of_ok _ hattempt]
        simp only [herrors, Bool.false_eq_true, if_false]
        rw [ih hrest, List.append_assoc, List.singleton_append]

/-- What a field is handed: the value at its key. Where the key is not there and the field
accepts that, it is looked for once more; if it is still not there, the field is handed the
marker of an absent value. -/
inductive Handed (accepts : MissingTest σ) (v : Value) (k : Key) (field : Schema)
    (w : World σ) : Value → World σ → Prop
  | present {u : Value} (h : (w.store.entriesOf v).find? k = some u) :
      Handed accepts v k field w u w
  | absent {w' : World σ} (h : (w.store.entriesOf v).find? k = none)
      (haccepts : (accepts field).runIn w = (.ok true, w')) :
      Handed accepts v k field w (((w'.store.entriesOf v).find? k).getD .missing) w'

theorem Handed.eq_of_find? {accepts : MissingTest σ} {v : Value} {k : Key}
    {field : Schema} {w w' : World σ} {u u' : Value} (h : Handed accepts v k field w u w')
    (hfind : (w.store.entriesOf v).find? k = some u') : u = u' := by
  cases h with
  | present h => exact Option.some.inj (h.symm.trans hfind)
  | absent h _ => cases h.symm.trans hfind

theorem Handed.accepted_of_absent {accepts : MissingTest σ} {v : Value} {k : Key}
    {field : Schema} {w w' : World σ} {u : Value} (h : Handed accepts v k field w u w')
    (hfind : (w.store.entriesOf v).find? k = none) :
    (accepts field).runIn w = (.ok true, w') := by
  cases h with
  | present h => cases h.symm.trans hfind
  | absent _ haccepts => exact haccepts

/-- A field is handed one thing. -/
theorem Handed.unique {accepts : MissingTest σ} {v : Value} {k : Key} {field : Schema}
    {w w₁ w₂ : World σ} {u u' : Value} (h : Handed accepts v k field w u w₁)
    (h' : Handed accepts v k field w u' w₂) : u = u' ∧ w₁ = w₂ := by
  cases h with
  | present hfind =>
      cases h' with
      | present hfind' => exact ⟨Option.some.inj (hfind.symm.trans hfind'), rfl⟩
      | absent hfind' _ => cases hfind.symm.trans hfind'
  | absent hfind haccepts =>
      cases h' with
      | present hfind' => cases hfind.symm.trans hfind'
      | absent _ haccepts' =>
          cases haccepts.symm.trans haccepts'
          exact ⟨rfl, rfl⟩

/-- Where to ask for the flag puts nothing into the container, a field that is not there is
handed the marker. -/
theorem Handed.cases_of_same {accepts : MissingTest σ} {v : Value} {k : Key} {field : Schema}
    {w w' : World σ} {u : Value} (h : Handed accepts v k field w u w')
    (hsame : (accepts field).runIn w = (.ok true, w') →
      w'.store.entriesOf v = w.store.entriesOf v) :
    ((w.store.entriesOf v).find? k = some u ∧ w' = w) ∨
    ((w.store.entriesOf v).find? k = none ∧ u = .missing ∧
      (accepts field).runIn w = (.ok true, w')) := by
  cases h with
  | present hfind => exact .inl ⟨hfind, rfl⟩
  | absent hfind haccepts =>
      refine .inr ⟨hfind, ?_, haccepts⟩
      rw [hsame haccepts, hfind, Option.getD_none]

/-! ## Layers that end by a value -/

/-- A value checked against an object schema is refused, or its fields are checked while it
is looked into. -/
theorem cases_of_runIn_checkObject {fields : Entries Schema} {unknown : UnknownKeys} {v r : Value}
    {c c' : Context} {w w' : World σ}
    (h : (checkObject env accepts child fields unknown v).runIn c w = (.ok r, c', w')) :
    ((w.store.entries? v).isNone = true ∧
      (Engine.refuse env (.wrongKind "object" (w.store.kindName v) "Expected object")).runIn c w =
        (.ok r, c', w')) ∨
    ((w.store.entries? v).isNone = false ∧ c.hasVisited v = true ∧
      (Engine.refuse env circular).runIn c w = (.ok r, c', w')) ∨
    ((w.store.entries? v).isNone = false ∧ c.hasVisited v = false ∧ ∃ done c₁ w₁,
      (checkFields env accepts child v fields).runIn (c.mark v) w = (.ok done, c₁, w₁) ∧
      (finishObject env fields unknown v done.1 done.2).runIn (c₁.unmark v) w₁ =
        (.ok r, c', w')) := by
  rw [runIn_checkObject] at h
  cases hobject : (w.store.entries? v).isNone with
  | true =>
      simp only [hobject, if_true] at h
      exact .inl ⟨rfl, h⟩
  | false =>
      simp only [hobject, Bool.false_eq_true, if_false] at h
      cases hvisited : c.hasVisited v with
      | true =>
          simp only [hvisited, if_true] at h
          exact .inr (.inl ⟨rfl, rfl, h⟩)
      | false =>
          simp only [hvisited, Bool.false_eq_true, if_false] at h
          obtain ⟨done, c₁, w₁, hlook, hrest⟩ := Engine.runIn_bind_ok_iff.mp h
          obtain ⟨c₂, hfields, rfl⟩ := Engine.runIn_lookingInto_ok_iff.mp hlook
          exact .inr (.inr ⟨rfl, rfl, done, c₂, w₁, hfields, hrest⟩)

/-- A value checked against an array schema is refused, or its items are checked while it is
looked into, all that there are in the end. -/
theorem cases_of_runIn_checkArray {depth : Nat} {element : Schema} {bounds : ArrayBounds}
    {v r : Value} {c c' : Context} {w w' : World σ}
    (h : (checkArray env depth child element bounds v).runIn c w = (.ok r, c', w')) :
    ((w.store.items? v).isNone = true ∧
      (Engine.refuse env (.wrongKind "array" (w.store.kindName v) "Expected array")).runIn c w =
        (.ok r, c', w')) ∨
    ((w.store.items? v).isNone = false ∧ c.hasVisited v = true ∧
      (Engine.refuse env circular).runIn c w = (.ok r, c', w')) ∨
    ((w.store.items? v).isNone = false ∧ c.hasVisited v = false ∧ ∃ done c₁ w₁,
      (firstItems (child element) v ((w.store.itemsOf v).length + depth)).runIn (c.mark v) w =
        (.ok done, c₁, w₁) ∧
      (w₁.store.itemsOf v).length ≤ (w.store.itemsOf v).length + depth ∧
      (finishArray env bounds v done.1 done.2).runIn (c₁.unmark v) w₁ = (.ok r, c', w')) := by
  rw [runIn_checkArray] at h
  cases harray : (w.store.items? v).isNone with
  | true =>
      simp only [harray, if_true] at h
      exact .inl ⟨rfl, h⟩
  | false =>
      simp only [harray, Bool.false_eq_true, if_false] at h
      cases hvisited : c.hasVisited v with
      | true =>
          simp only [hvisited, if_true] at h
          exact .inr (.inl ⟨rfl, rfl, h⟩)
      | false =>
          simp only [hvisited, Bool.false_eq_true, if_false] at h
          obtain ⟨done, c₁, w₁, hlook, hrest⟩ := Engine.runIn_bind_ok_iff.mp h
          obtain ⟨c₂, hitems, rfl⟩ := Engine.runIn_lookingInto_ok_iff.mp hlook
          obtain ⟨hfirst, hlength⟩ := runIn_checkItems_ok_iff.mp hitems
          exact .inr (.inr ⟨rfl, rfl, done, c₂, w₁, hfirst, hlength, hrest⟩)

/-- In the end an object schema refuses the keys that it does not declare, if it is strict and
there are any, and otherwise gives the results, with the entries at such keys if it passes
them through. -/
theorem cases_of_runIn_finishObject {fields : Entries Schema} {unknown : UnknownKeys}
    {v r : Value} {results : Entries Value} {failed : Bool} {c c' : Context} {w w' : World σ}
    (h : (finishObject env fields unknown v results failed).runIn c w = (.ok r, c', w')) :
    (unknown = .strict ∧ undeclared fields (w.store.entriesOf v) ≠ [] ∧
      (Engine.refuse env (unknownFound (undeclared fields (w.store.entriesOf v)).keys)).runIn c w =
        (.ok r, c', w')) ∨
    ((unknown = .strict → undeclared fields (w.store.entriesOf v) = []) ∧ c' = c ∧ w' = w ∧
      r = if failed then .invalid else .mapping false (results ++
        if unknown = .passthrough then undeclared fields (w.store.entriesOf v) else [])) := by
  rw [finishObject, Engine.runIn_bind_of_ok _ (Engine.runIn_store c w)] at h
  cases unknown with
  | strip =>
      cases h
      exact .inr ⟨nofun, rfl, rfl, by simp⟩
  | passthrough =>
      cases h
      exact .inr ⟨nofun, rfl, rfl, by simp⟩
  | strict =>
      simp only at h
      split at h
      · rename_i hnone
        cases h
        exact .inr ⟨fun _ => List.isEmpty_iff.mp hnone, rfl, rfl, by simp⟩
      · rename_i hsome
        exact .inl ⟨rfl, by simpa using hsome, h⟩

/-- In the end an array schema reports the bounds that are violated, and gives the results
unless there are any. -/
theorem runIn_finishArray_ok_iff {bounds : ArrayBounds} {v r : Value} {results : List Value}
    {failed : Bool} {c c' : Context} {w w' : World σ} :
    (finishArray env bounds v results failed).runIn c w = (.ok r, c', w') ↔
      (addViolations env (violatedBounds bounds (w.store.itemsOf v).length)).runIn c w =
        (.ok (), c', w') ∧
      r = if failed || !(violatedBounds bounds (w.store.itemsOf v).length).isEmpty then .invalid
        else .list results := by
  rw [finishArray, Engine.runIn_bind_of_ok _ (Engine.runIn_store c w), Engine.runIn_bind_ok_iff]
  constructor
  · rintro ⟨u, c₁, w₁, hadd, hend⟩
    cases hend
    exact ⟨hadd, rfl⟩
  · rintro ⟨hadd, rfl⟩
    exact ⟨(), c', w', hadd, rfl⟩

/-- What stands in for an absent value is checked on a copy, if it can be copied. -/
theorem runIn_copied_ok_iff {inner : Schema} {default r : Value} {c c' : Context}
    {w w' : World σ} :
    (Engine.ofAct (Act.copyOf default) >>= fun copy =>
      Engine.onCopy (child inner copy)).runIn c w = (.ok r, c', w') ↔
      w.store.isCopyable default = true ∧
        ∃ d, (child inner default.detach).runIn c.afresh w = (.ok r, d, w') ∧
          c' = c.resume d := by
  rw [Engine.runIn_bind_ok_iff]
  constructor
  · rintro ⟨copy, c₁, w₁, hact, hrun⟩
    obtain ⟨hcopy, rfl⟩ := Engine.runIn_ofAct_ok_iff.mp hact
    obtain ⟨hcopyable, rfl, rfl⟩ := Act.runIn_copyOf_ok_iff.mp hcopy
    exact ⟨hcopyable, Engine.runIn_onCopy_ok_iff.mp hrun⟩
  · rintro ⟨hcopyable, hrun⟩
    exact ⟨default.detach, c, w,
      Engine.runIn_ofAct_ok_iff.mpr ⟨Act.runIn_copyOf_ok_iff.mpr ⟨hcopyable, rfl, rfl⟩, rfl⟩,
      Engine.runIn_onCopy_ok_iff.mpr hrun⟩

/-! ## A layer depends on the calls it makes -/

theorem runIn_checkField (v : Value) (k : Key) (field : Schema) (c : Context) (w : World σ) :
    (checkField env accepts child v k field).runIn c w =
      match (w.store.entriesOf v).find? k with
      | some u => (do return fieldOutcome (← Engine.within k (child field u))).runIn c w
      | none =>
        (Engine.ofAct (accepts field) >>= fun accepted =>
          if accepted then do
            let u := (((← Engine.store).entriesOf v).find? k).getD .missing
            return fieldOutcome (← Engine.within k (child field u))
          else do
            Engine.within k (Engine.addViolation env (requiredMissing k))
            return (none, true)).runIn c w := by
  rw [checkField, Engine.runIn_bind_of_ok _ (Engine.runIn_store c w)]
  cases (w.store.entriesOf v).find? k <;> rfl

/-- A field either is handed something that is checked, or is found to be required. -/
theorem cases_of_runIn_checkField {v : Value} {k : Key} {field : Schema}
    {out : Option Value × Bool} {c c' : Context} {w w' : World σ}
    (h : (checkField env accepts child v k field).runIn c w = (.ok out, c', w')) :
    (∃ u w₁ r c₁, Handed accepts v k field w u w₁ ∧
      (child field u).runIn (c.push k) w₁ = (.ok r, c₁, w') ∧ c' = c₁.pop ∧
      out = fieldOutcome r) ∨
    ∃ w₁ c₁, (w.store.entriesOf v).find? k = none ∧
      (accepts field).runIn w = (.ok false, w₁) ∧
      (Engine.addViolation env (requiredMissing k)).runIn (c.push k) w₁ = (.ok (), c₁, w') ∧
      c' = c₁.pop ∧ out = (none, true) := by
  have hdone : ∀ u w₁, Handed accepts v k field w u w₁ →
      (do return fieldOutcome (← Engine.within k (child field u))).runIn c w₁ =
        (.ok out, c', w') → ∃ u w₁ r c₁, Handed accepts v k field w u w₁ ∧
          (child field u).runIn (c.push k) w₁ = (.ok r, c₁, w') ∧ c' = c₁.pop ∧
          out = fieldOutcome r := by
    intro u w₁ hhanded hrun
    obtain ⟨r, c₁, w₂, hr, hout⟩ := Engine.runIn_bind_ok_iff.mp hrun
    obtain ⟨c₂, hinside, rfl⟩ := Engine.runIn_within_ok_iff.mp hr
    cases hout
    exact ⟨u, w₁, r, c₂, hhanded, hinside, rfl, rfl⟩
  rw [runIn_checkField] at h
  cases hfind : (w.store.entriesOf v).find? k with
  | some u =>
      rw [hfind] at h
      exact .inl (hdone u w (.present hfind) h)
  | none =>
      rw [hfind] at h
      obtain ⟨accepted, c₁, w₁, hasked, h⟩ := Engine.runIn_bind_ok_iff.mp h
      obtain ⟨haccepted, rfl⟩ := Engine.runIn_ofAct_ok_iff.mp hasked
      cases accepted with
      | true =>
          simp only [if_true] at h
          rw [Engine.runIn_bind_of_ok _ (Engine.runIn_store c₁ w₁)] at h
          exact .inl (hdone _ w₁ (.absent hfind haccepted) h)
      | false =>
          simp only [Bool.false_eq_true, if_false] at h
          obtain ⟨u, c₂, w₂, hadd, hout⟩ := Engine.runIn_bind_ok_iff.mp h
          obtain ⟨c₃, hinside, rfl⟩ := Engine.runIn_within_ok_iff.mp hadd
          cases hout
          exact .inr ⟨w₁, c₃, rfl, haccepted, hinside, rfl, rfl⟩

theorem runIn_checkField_congr {v : Value} {k : Key} {field : Schema} {c : Context}
    {w : World σ}
    (haccepts : (w.store.entriesOf v).find? k = none →
      (accepts' field).runIn w = (accepts field).runIn w)
    (hchild : ∀ u w₁, Handed accepts v k field w u w₁ →
      (child' field u).runIn (c.push k) w₁ = (child field u).runIn (c.push k) w₁) :
    (checkField env accepts' child' v k field).runIn c w =
      (checkField env accepts child v k field).runIn c w := by
  rw [runIn_checkField, runIn_checkField]
  cases hfind : (w.store.entriesOf v).find? k with
  | some u =>
      refine Engine.runIn_bind_congr ?_ fun _ _ _ _ => rfl
      simp only [Engine.runIn_within, hchild u w (.present hfind)]
  | none =>
      refine Engine.runIn_bind_congr ?_ fun accepted c₁ w₁ hasked => ?_
      · rw [Engine.runIn_ofAct, Engine.runIn_ofAct, haccepts hfind]
      · obtain ⟨haccepted, rfl⟩ := Engine.runIn_ofAct_ok_iff.mp hasked
        cases accepted with
        | false => rfl
        | true =>
            simp only [if_true]
            rw [Engine.runIn_bind_of_ok _ (Engine.runIn_store c₁ w₁),
              Engine.runIn_bind_of_ok _ (Engine.runIn_store c₁ w₁)]
            refine Engine.runIn_bind_congr ?_ fun _ _ _ _ => rfl
            simp only [Engine.runIn_within, hchild _ w₁ (.absent hfind haccepted)]

theorem runIn_checkFields_congr {v : Value} {fields : Entries Schema} {c : Context}
    {w : World σ}
    (haccepts : ∀ earlier k field later done c₁ w₁, fields = earlier ++ (k, field) :: later →
      (checkFields env accepts child v earlier).runIn c w = (.ok done, c₁, w₁) →
      (w₁.store.entriesOf v).find? k = none →
      (accepts' field).runIn w₁ = (accepts field).runIn w₁)
    (hchild : ∀ earlier k field later done c₁ w₁ u w₂,
      fields = earlier ++ (k, field) :: later →
      (checkFields env accepts child v earlier).runIn c w = (.ok done, c₁, w₁) →
      Handed accepts v k field w₁ u w₂ →
      (child' field u).runIn (c₁.push k) w₂ = (child field u).runIn (c₁.push k) w₂) :
    (checkFields env accepts' child' v fields).runIn c w =
      (checkFields env accepts child v fields).runIn c w := by
  induction fields using List.reverseRecOn with
  | nil => rfl
  | append_singleton fields e ih =>
      obtain ⟨k, field⟩ := e
      rw [checkFields_concat, checkFields_concat]
      refine Engine.runIn_bind_congr (ih ?_ ?_) fun done c₁ w₁ hdone => ?_
      · intro earlier l other later done c₁ w₁ hfields
        exact haccepts earlier l other (later ++ [(k, field)]) done c₁ w₁ (by simp [hfields])
      · intro earlier l other later done c₁ w₁ u w₂ hfields
        exact hchild earlier l other (later ++ [(k, field)]) done c₁ w₁ u w₂ (by simp [hfields])
      · refine Engine.runIn_bind_congr ?_ fun _ _ _ _ => rfl
        exact runIn_checkField_congr (haccepts fields k field [] done c₁ w₁ rfl hdone)
          fun u w₂ => hchild fields k field [] done c₁ w₁ u w₂ rfl hdone

theorem runIn_firstItems_congr {one one' : Value → Engine σ Value} {v : Value} {n : Nat}
    {c : Context} {w : World σ}
    (hone : ∀ i u done c₁ w₁, i < n → (firstItems one v i).runIn c w = (.ok done, c₁, w₁) →
      (w₁.store.itemsOf v)[i]? = some u →
      (one' u).runIn (c₁.push (.index i)) w₁ = (one u).runIn (c₁.push (.index i)) w₁) :
    (firstItems one' v n).runIn c w = (firstItems one v n).runIn c w := by
  induction n with
  | zero => rfl
  | succ n ih =>
      refine Engine.runIn_bind_congr (ih fun i u done c₁ w₁ hi => hone i u done c₁ w₁ (by omega))
        fun done c₁ w₁ hdone => ?_
      rw [runIn_nextItem, runIn_nextItem]
      cases hitem : (w₁.store.itemsOf v)[n]? with
      | none => rfl
      | some u =>
          refine Engine.runIn_bind_congr ?_ fun _ _ _ _ => rfl
          simp only [Engine.runIn_within, hone n u done c₁ w₁ (by omega) hdone hitem]

theorem runIn_checkItems_congr {one one' : Value → Engine σ Value} {v : Value} {n : Nat}
    {c : Context} {w : World σ}
    (hone : ∀ i u done c₁ w₁, i < n → (firstItems one v i).runIn c w = (.ok done, c₁, w₁) →
      (w₁.store.itemsOf v)[i]? = some u →
      (one' u).runIn (c₁.push (.index i)) w₁ = (one u).runIn (c₁.push (.index i)) w₁) :
    (checkItems one' v n 0).runIn c w = (checkItems one v n 0).runIn c w := by
  rw [runIn_checkItems, runIn_checkItems]
  exact Engine.runIn_bind_congr (runIn_firstItems_congr hone) fun _ _ _ _ => rfl

theorem runIn_tryMembers_congr {v : Value} {members : List Schema} {c : Context} {w : World σ}
    (hchild : ∀ earlier member later done c₁ w₁, members = earlier ++ member :: later →
      (tryMembers child v earlier).runIn c w = (.ok done, c₁, w₁) →
      (child' member v).runIn c₁.fork w₁ = (child member v).runIn c₁.fork w₁) :
    (tryMembers child' v members).runIn c w = (tryMembers child v members).runIn c w := by
  induction members using List.reverseRecOn with
  | nil => rfl
  | append_singleton members member ih =>
      rw [tryMembers_concat, tryMembers_concat]
      refine Engine.runIn_bind_congr (ih ?_) fun done c₁ w₁ hdone => ?_
      · intro earlier other later done c₁ w₁ hmembers
        exact hchild earlier other (later ++ [member]) done c₁ w₁ (by simp [hmembers])
      · refine Engine.runIn_bind_congr ?_ fun _ _ _ _ => rfl
        have hmember := hchild members member [] done c₁ w₁ rfl hdone
        simp only [Engine.runIn_speculate, hmember]

/-- The options from some place on, those before it having failed. -/
theorem runIn_tryOptions_congr {v : Value} {options earlier : List Schema} {c c₁ : Context}
    {w w₁ : World σ} {failed : List (List ErrorRecord)}
    (hearlier : (tryMembers child v earlier).runIn c w = (.ok ([], failed), c₁, w₁))
    (hchild : ∀ before option later failed c₂ w₂,
      earlier ++ options = before ++ option :: later →
      (tryMembers child v before).runIn c w = (.ok ([], failed), c₂, w₂) →
      (child' option v).runIn c₂.fork w₂ = (child option v).runIn c₂.fork w₂)
    (groups : List (List ErrorRecord)) :
    (tryOptions env child' v groups options).runIn c₁ w₁ =
      (tryOptions env child v groups options).runIn c₁ w₁ := by
  induction options generalizing earlier c₁ w₁ failed groups with
  | nil => rfl
  | cons option options ih =>
      have hoption := hchild earlier option options failed c₁ w₁ rfl hearlier
      refine Engine.runIn_bind_congr ?_ fun attempt c₂ w₂ hattempt => ?_
      · simp only [Engine.runIn_speculate, hoption]
      · by_cases herrors : attempt.2.isEmpty
        · simp only [herrors, if_true]
        · simp only [herrors, Bool.false_eq_true, if_false]
          refine ih (runIn_tryMembers_failed hearlier hattempt (by simpa using herrors)) ?_ _
          intro before other later failed c₃ w₃ hoptions
          exact hchild before other later failed c₃ w₃ (by simpa using hoptions)

end Traverse

open Traverse

/-! ## Calls -/

/-- A check that is made: the depth left to it, its schema and value, and the
context and the world in which it is made. -/
structure Call (σ : Type) where
  depth : Nat
  schema : Schema
  value : Value
  context : Context
  world : World σ

namespace Call

variable {σ : Type}

/-- How a call ends. -/
def run (env : Setting σ) (mode : Mode) (f : Call σ) : Except Fault Value × Context × World σ :=
  (check env mode f.depth f.schema f.value).runIn f.context f.world

/-- The calls that a call makes. -/
inductive Makes (env : Setting σ) (mode : Mode) : Call σ → Call σ → Prop
  | field {depth fields unknown v c w earlier k field later done c₁ w₁ u w₂}
      (hobject : (w.store.entries? v).isNone = false) (hfresh : c.hasVisited v = false)
      (hfields : fields = earlier ++ (k, field) :: later)
      (hearlier : (checkFields env (env.acceptsMissing depth) (check env mode depth) v
        earlier).runIn (c.mark v) w = (.ok done, c₁, w₁))
      (hhanded : Handed (env.acceptsMissing depth) v k field w₁ u w₂) :
      Makes env mode ⟨depth + 1, .object fields unknown, v, c, w⟩ ⟨depth, field, u, c₁.push k, w₂⟩
  | element {depth element bounds v c w i u done c₁ w₁}
      (harray : (w.store.items? v).isNone = false) (hfresh : c.hasVisited v = false)
      (hmore : i < (w.store.itemsOf v).length + depth)
      (hearlier : (firstItems (check env mode depth element) v i).runIn (c.mark v) w =
        (.ok done, c₁, w₁))
      (hitem : (w₁.store.itemsOf v)[i]? = some u) :
      Makes env mode ⟨depth + 1, .array element bounds, v, c, w⟩
        ⟨depth, element, u, c₁.push (.index i), w₁⟩
  | option {depth first rest v c w earlier option later failed c₁ w₁}
      (hoptions : first :: rest = earlier ++ option :: later)
      (hearlier : (tryMembers (check env mode depth) v earlier).runIn c w =
        (.ok ([], failed), c₁, w₁)) :
      Makes env mode ⟨depth + 1, .union first rest, v, c, w⟩ ⟨depth, option, v, c₁.fork, w₁⟩
  | member {depth first rest v c w earlier member later done c₁ w₁}
      (hmembers : first :: rest = earlier ++ member :: later)
      (hearlier : (tryMembers (check env mode depth) v earlier).runIn c w = (.ok done, c₁, w₁)) :
      Makes env mode ⟨depth + 1, .intersection first rest, v, c, w⟩
        ⟨depth, member, v, c₁.fork, w₁⟩
  | optional {depth inner v c w} (h : isMissing v = false) :
      Makes env mode ⟨depth + 1, .optional inner, v, c, w⟩ ⟨depth, inner, v, c, w⟩
  | nullable {depth inner v c w} (h : v ≠ .null) :
      Makes env mode ⟨depth + 1, .nullable inner, v, c, w⟩ ⟨depth, inner, v, c, w⟩
  | copy {depth inner default v c w} (h : isMissing v = true)
      (hcopyable : w.store.isCopyable default = true) :
      Makes env mode ⟨depth + 1, .withDefault inner default, v, c, w⟩
        ⟨depth, inner, default.detach, c.afresh, w⟩
  | withDefault {depth inner default v c w} (h : isMissing v = false) :
      Makes env mode ⟨depth + 1, .withDefault inner default, v, c, w⟩ ⟨depth, inner, v, c, w⟩
  | transform {depth inner step v c w} :
      Makes env mode ⟨depth + 1, .transform inner step, v, c, w⟩ ⟨depth, inner, v, c, w⟩
  | refine {depth inner id words code v c w} :
      Makes env mode ⟨depth + 1, .refine inner id words code, v, c, w⟩ ⟨depth, inner, v, c, w⟩
  | deferred {depth id v c w s w₁} (hresolve : (env.resolve id).runIn w = (.ok s, w₁)) :
      Makes env mode ⟨depth + 1, .deferred id, v, c, w⟩ ⟨depth, s, v, c, w₁⟩

/-- Whether a call puts a copy of a default in the place of its value. -/
def copies (f : Call σ) : Bool :=
  match f.schema with
  | .withDefault _ _ => isMissing f.value
  | _ => false

/-- The calls that a call makes, but not on a copy. -/
def GoesOn (env : Setting σ) (mode : Mode) (f g : Call σ) : Prop :=
  f.copies = false ∧ Makes env mode f g

/-- A call asks whether a schema accepts an absent value, in a world. -/
inductive Asks (env : Setting σ) (mode : Mode) : Call σ → Schema → World σ → Prop
  | field {depth fields unknown v c w earlier k field later done c₁ w₁}
      (hobject : (w.store.entries? v).isNone = false) (hfresh : c.hasVisited v = false)
      (hfields : fields = earlier ++ (k, field) :: later)
      (hearlier : (checkFields env (env.acceptsMissing depth) (check env mode depth) v
        earlier).runIn (c.mark v) w = (.ok done, c₁, w₁))
      (habsent : (w₁.store.entriesOf v).find? k = none) :
      Asks env mode ⟨depth + 1, .object fields unknown, v, c, w⟩ field w₁

/-- The calls of the run that starts with a call. -/
abbrev Reaches (env : Setting σ) (mode : Mode) : Call σ → Call σ → Prop :=
  Relation.ReflTransGen (Makes env mode)

/-- A chain of calls each of which is made by the one before it. -/
abbrev Descent (env : Setting σ) (mode : Mode) : List (Call σ) → Prop :=
  List.IsChain (Makes env mode)

/-- Each call uses up one of the depth. -/
theorem Makes.depth_eq {env : Setting σ} {mode : Mode} {f g : Call σ} (h : Makes env mode f g) :
    f.depth = g.depth + 1 := by
  cases h <;> rfl

/-- A copy is looked into at the same place in the same world. -/
theorem Makes.of_copies {env : Setting σ} {mode : Mode} {f g : Call σ} (h : Makes env mode f g)
    (hcopies : f.copies = true) : g.context = f.context.afresh ∧ g.world = f.world := by
  cases h with
  | copy => exact ⟨rfl, rfl⟩
  | withDefault h => simp [copies, h] at hcopies
  | _ => cases hcopies

/-- What every call inherits from the calls it makes, every call has. -/
theorem induct (env : Setting σ) (mode : Mode) {P : Call σ → Prop}
    (h : ∀ f, (∀ g, Makes env mode f g → P g) → P f) (f : Call σ) : P f := by
  generalize hdepth : f.depth = depth
  induction depth generalizing f with
  | zero =>
      refine h f fun g hg => ?_
      have hg := hg.depth_eq
      omega
  | succ depth ih =>
      refine h f fun g hg => ih g ?_
      have hg := hg.depth_eq
      omega

/-- A layer depends on the check of what lies deeper, and on whether schemas
accept an absent value, only where its call makes a call or asks. -/
theorem runIn_checkLayer_congr {env : Setting σ} {mode : Mode} {depth : Nat} {s : Schema}
    {v : Value} {c : Context} {w : World σ} {accepts : MissingTest σ} {child : Checker σ}
    (haccepts : ∀ field w₁, Asks env mode ⟨depth + 1, s, v, c, w⟩ field w₁ →
      (accepts field).runIn w₁ = (env.acceptsMissing depth field).runIn w₁)
    (hchild : ∀ g, Makes env mode ⟨depth + 1, s, v, c, w⟩ g →
      (child g.schema g.value).runIn g.context g.world = g.run env mode) :
    (checkLayer env mode depth accepts child s v).runIn c w =
      (check env mode (depth + 1) s v).runIn c w := by
  show _ = (checkLayer env mode depth (env.acceptsMissing depth) (check env mode depth) s v).runIn
    c w
  cases s with
  | object fields unknown =>
      simp only [checkLayer, runIn_checkObject]
      cases hobject : (w.store.entries? v).isNone with
      | true => simp only [if_true]
      | false =>
          cases hfresh : c.hasVisited v with
          | true => simp only [Bool.false_eq_true, if_false, if_true]
          | false =>
              simp only [Bool.false_eq_true, if_false]
              refine Engine.runIn_bind_congr ?_ fun _ _ _ _ => rfl
              rw [Engine.runIn_lookingInto, Engine.runIn_lookingInto, runIn_checkFields_congr]
              · intro earlier k field later done c₁ w₁ hfields hearlier habsent
                exact haccepts field w₁ (.field hobject hfresh hfields hearlier habsent)
              · intro earlier k field later done c₁ w₁ u w₂ hfields hearlier hhanded
                exact hchild _ (.field hobject hfresh hfields hearlier hhanded)
  | array element bounds =>
      simp only [checkLayer, runIn_checkArray]
      cases harray : (w.store.items? v).isNone with
      | true => simp only [if_true]
      | false =>
          cases hfresh : c.hasVisited v with
          | true => simp only [Bool.false_eq_true, if_false, if_true]
          | false =>
              simp only [Bool.false_eq_true, if_false]
              refine Engine.runIn_bind_congr ?_ fun _ _ _ _ => rfl
              rw [Engine.runIn_lookingInto, Engine.runIn_lookingInto, runIn_checkItems_congr]
              intro i u done c₁ w₁ hmore hearlier hitem
              exact hchild _ (.element harray hfresh hmore hearlier hitem)
  | union first rest =>
      have hnone : (tryMembers (check env mode depth) v []).runIn c w = (.ok ([], []), c, w) := rfl
      refine runIn_tryOptions_congr hnone ?_ []
      intro before option later failed c₂ w₂ hoptions hbefore
      exact hchild _ (.option hoptions hbefore)
  | intersection first rest =>
      refine Engine.runIn_bind_congr ?_ fun _ _ _ _ => rfl
      refine runIn_tryMembers_congr fun earlier member later done c₁ w₁ hmembers hearlier => ?_
      exact hchild _ (.member hmembers hearlier)
  | optional inner =>
      simp only [checkLayer]
      cases h : isMissing v with
      | true => rfl
      | false => exact hchild _ (.optional h)
  | nullable inner =>
      simp only [checkLayer]
      split
      · rfl
      · rename_i h
        exact hchild _ (.nullable h)
  | withDefault inner default =>
      simp only [checkLayer]
      cases h : isMissing v with
      | true =>
          refine Engine.runIn_bind_congr rfl fun copy c₁ w₁ hrun => ?_
          obtain ⟨hcopy, rfl⟩ := Engine.runIn_ofAct_ok_iff.mp hrun
          obtain ⟨hcopyable, rfl, rfl⟩ := Act.runIn_copyOf_ok_iff.mp hcopy
          have hmade := hchild _ (.copy h hcopyable)
          simp only [Engine.runIn_onCopy, hmade]
          rfl
      | false => exact hchild _ (.withDefault h)
  | transform inner step =>
      exact Engine.runIn_bind_congr (hchild _ .transform) fun _ _ _ _ => rfl
  | refine inner id words code =>
      exact Engine.runIn_bind_congr (hchild _ .refine) fun _ _ _ _ => rfl
  | deferred id =>
      refine Engine.runIn_bind_congr rfl fun s c₁ w₁ hrun => ?_
      obtain ⟨hresolve, rfl⟩ := Engine.runIn_ofAct_ok_iff.mp hrun
      exact hchild _ (.deferred hresolve)
  | _ => rfl

end Call

end Conform
