import Conform.Proofs.Containment
import Conform.Proofs.Keeping

/-!
# Faults of callbacks

A step or a predicate of the host may fault, and so may what a predicate has
promised when it is waited for. Such a fault ends neither the check nor the rule that
called: it is one error, in the context of the caller and at its place, in the words of
the fault, or in other words where it has none.

What no callback does, the library does by itself. An integer that is too long to be
written ends the check whose words it stands in, and so does a default that cannot be
copied.

## Main results

* `Call.run_of_faults`, `Validate.runIn_askRule_of_faults` — a fault is one error.
* `callback_faults_are_captured` — no callback ends a validation by a fault; each fault
  is one error, and everything else is still checked.
* `readonly_default_faults` — what ends a validation by a fault all the same.
-/

namespace Conform

open Traverse

section Faults

variable {σ : Type} {env : Setting σ} {mode : Mode}

/-- A predicate that is asked faults: at once, or when its promise is waited for. It
leaves a context and a world behind. -/
inductive AskFaults (test : Act σ (Reply σ)) (c : Context) (w : World σ) :
    Mode → Fault → Context → World σ → Prop
  | called {mode e w'} (h : test.runIn w = (.error e, w')) : AskFaults test c w mode e c w'
  | waited {later w₁ e w'} (h : test.runIn w = (.ok (.pending later), w₁))
      (hlater : later.runIn w₁ = (.error e, w')) :
      AskFaults test c w .awaited e c.markAwaiting w'

theorem AskFaults.runIn_ask {test : Act σ (Reply σ)} {c c' : Context} {w w' : World σ} {e : Fault}
    (h : AskFaults test c w mode e c' w') :
    (ask mode test).runIn c w = (.ok (some (.error e)), c', w') := by
  rw [Traverse.runIn_ask]
  cases h with
  | called h => rw [h]
  | waited h hlater =>
      rw [h]
      simp only [hlater]

/-- Asking changes nothing but the note that an answer was promised. -/
theorem AskFaults.context {test : Act σ (Reply σ)} {c c' : Context} {w w' : World σ} {e : Fault}
    (h : AskFaults test c w mode e c' w') : c' = c ∨ c' = c.markAwaiting := by
  cases h with
  | called => exact .inl rfl
  | waited => exact .inr rfl

/-- A callback of a call faults: its step or its predicate, which are called with the
result of the schema inside. With the fault stand the words that are used where it has
none, the code, and the context and the world that it leaves behind. -/
inductive Call.Faults (env : Setting σ) (mode : Mode) :
    Call σ → Fault → Option String → Code → Context → World σ → Prop
  | transform {depth inner step v c w r c₁ w₁ e w₂}
      (hinner : (check env mode depth inner v).runIn c w = (.ok r, c₁, w₁))
      (hr : isMarker r = false) (h : (step.applyTo env r).runIn w₁ = (.error e, w₂)) :
      Faults env mode ⟨depth + 1, .transform inner step, v, c, w⟩ e (some "Transformation failed")
        (.builtin .transformError) c₁ w₂
  | refine {depth inner id words code v c w r c₁ w₁ e c₂ w₂}
      (hinner : (check env mode depth inner v).runIn c w = (.ok r, c₁, w₁))
      (hr : isMarker r = false) (h : AskFaults (env.test id r) c₁ w₁ mode e c₂ w₂) :
      Faults env mode ⟨depth + 1, .refine inner id words code, v, c, w⟩ e words code c₂ w₂

/-- A fault of a callback is one error in the context of the call and at its place, in
its own words if it has any. -/
theorem Call.run_of_faults {f : Call σ} {e : Fault} {words : Option String} {code : Code}
    {c' : Context} {w' : World σ} (h : f.Faults env mode e words code c' w') :
    f.run env mode =
        (.ok .invalid, c'.addError ⟨f.context.path, orWords e.text words, code, none⟩, w') ∧
      f.context.Restored c' := by
  cases h with
  | @transform depth inner step v c w r c₁ w₁ e w₂ hinner hr h =>
      have hback := restored_of_check hinner
      refine ⟨?_, hback⟩
      change (check env mode depth inner v >>= fun r => _).runIn c w = _
      rw [Engine.runIn_bind_of_ok _ hinner]
      simp only [hr, Bool.false_eq_true, if_false, runIn_applyStep, h, hback.path]
  | @refine depth inner id words code v c w r c₁ w₁ e c₂ w₂ hinner hr h =>
      have hback := restored_of_check hinner
      have hasked : c₁.Restored c' := by
        rcases h.context with rfl | rfl
        · exact .refl _
        · exact .markAwaiting _
      refine ⟨?_, hback.trans hasked⟩
      change (check env mode depth inner v >>= fun r => _).runIn c w = _
      rw [Engine.runIn_bind_of_ok _ hinner]
      simp only [hr, Bool.false_eq_true, if_false]
      unfold askAbout
      rw [Engine.runIn_bind_of_ok _ h.runIn_ask]
      show (Engine.addWorded code _ none >>= fun _ => _).runIn c' w' = _
      rw [Engine.runIn_bind_of_ok _ (Engine.runIn_addWorded ..), hasked.path, hback.path]
      rfl

/-! ## Rules and whole values -/

namespace Validate

variable {depth : Nat} {s : Schema} {v : Value} {c c' : Context} {w w' : World σ}

/-- A fault of a rule is one error at the place of the context, in its own words if it
has any. -/
theorem runIn_askRule_of_faults {rule : Rule} {e : Fault}
    (h : AskFaults (env.testRule rule.check s v) c w mode e c' w') :
    (askRule env mode rule s v).runIn c w =
      (.ok (), c'.addError ⟨c.path, orWords e.text rule.words, ruleCode rule, none⟩, w') := by
  have hpath : c'.path = c.path := by
    rcases h.context with rfl | rfl <;> rfl
  unfold askRule
  rw [Engine.runIn_bind_of_ok _ h.runIn_ask, ← hpath]
  rfl

/-- Rules are asked one after another, and only add errors. -/
theorem exists_of_askRules {earlier later : List Rule} {rule : Rule}
    (h : (askRules env mode s v (earlier ++ rule :: later)).runIn c w = (.ok (), c', w')) :
    ∃ c₁ w₁ c₂ w₂, (askRules env mode s v earlier).runIn c w = (.ok (), c₁, w₁) ∧
      (askRule env mode rule s v).runIn c₁ w₁ = (.ok (), c₂, w₂) ∧ c₁.path = c.path ∧
      c₂.errors ⊆ c'.errors := by
  induction earlier generalizing c w with
  | nil =>
      obtain ⟨_, c₂, w₂, hrule, hlater⟩ := Engine.runIn_bind_ok_iff.mp h
      refine ⟨c, w, c₂, w₂, rfl, hrule, rfl, ?_⟩
      have htold : Telling (fun _ => True) (· = ·) c₂ w₂ (askRules env mode s v later) :=
        telling_askRules fun _ _ _ => trivial
      obtain ⟨-, es, hes, -⟩ := htold () c' w' hlater
      exact hes ▸ List.subset_append_left _ _
  | cons first earlier ih =>
      obtain ⟨_, c₁, w₁, hfirst, hrest⟩ := Engine.runIn_bind_ok_iff.mp h
      obtain ⟨c₂, w₂, c₃, w₃, hearlier, hrule, hpath, herrors⟩ := ih hrest
      refine ⟨c₂, w₂, c₃, w₃, ?_, hrule, hpath.trans (path_of_askRule hfirst), herrors⟩
      exact (Engine.runIn_bind_of_ok _ hfirst).trans hearlier

/-- An entry point of the mode gives an outcome for a whole value. -/
def Gives (env : Setting σ) (mode : Mode) (depth : Nat) (s : Schema) (v : Value) (w : World σ)
    (o : Outcome) : Prop :=
  match mode with
  | .immediate => ∃ entry w', (immediate env depth entry s v).runIn w = (.ok o, w')
  | .awaited => ∃ w', (awaited env depth s v).runIn w = (.ok o, w')

theorem Gives.exists_run {o : Outcome} (h : Gives env mode depth s v w o) :
    ∃ r c w', (checkWhole env mode depth s v).runIn {} w = (.ok r, c, w') ∧
      finish r c.errors = .ok o := by
  cases mode with
  | immediate =>
      obtain ⟨entry, w', h⟩ := h
      obtain ⟨r, c, hrun, -, hfinish⟩ := runIn_immediate_ok_iff.mp h
      exact ⟨r, c, w', hrun, hfinish⟩
  | awaited =>
      obtain ⟨w', h⟩ := h
      obtain ⟨r, c, hrun, hfinish⟩ := runIn_awaited_ok_iff.mp h
      exact ⟨r, c, w', hrun, hfinish⟩

/-- Where errors are left, the outcome is a refusal with them. -/
theorem eq_refused_of_finish {r : Value} {errors : List ErrorRecord} {o : Outcome}
    (h : finish r errors = .ok o) (hsome : errors ≠ []) : o = .refused errors := by
  unfold finish at h
  simp only [List.isEmpty_eq_false_iff.mpr hsome, Bool.false_eq_true, if_false] at h
  split at h
  · exact (Except.ok.inj h).symm
  · cases h

/-- The errors of a call stand in the refusal of the whole value, unless a union drops
them. -/
theorem refused_of_reaches {g : Call σ} {q : Value} {d : Context} {w₁ : World σ} {o : Outcome}
    (hreaches : Call.Reaches env mode ⟨depth, s, v, {}, w⟩ g)
    (hrun : g.run env mode = (.ok q, d, w₁)) (hsome : d.errors ≠ [])
    (ho : Gives env mode depth s v w o) :
    (∃ es, o = .refused es ∧ HeldBy d.errors es) ∨
      Call.Dropped env mode ⟨depth, s, v, {}, w⟩ g := by
  obtain ⟨r, c, w', hwhole, hfinish⟩ := ho.exists_run
  obtain ⟨c₁, w₂, hcheck, hrest⟩ := runIn_checkWhole_ok_iff.mp hwhole
  obtain ⟨q', d', w₃, hrun', hheld⟩ := Call.held_of_reaches hreaches hcheck
  rw [hrun] at hrun'
  cases hrun'
  refine hheld.imp_left fun hheld => ?_
  obtain ⟨x, hx⟩ := List.exists_mem_of_ne_nil _ hsome
  obtain ⟨e, he, -⟩ := hheld x hx
  have herrors : c₁.errors ≠ [] := List.ne_nil_of_mem he
  -- no rule is asked, so the errors are those of the check
  simp only [List.isEmpty_eq_false_iff.mpr herrors, Bool.false_eq_true, if_false] at hrest
  obtain ⟨rfl, -⟩ := hrest
  exact ⟨c.errors, eq_refused_of_finish hfinish herrors, hheld⟩

/-- If the check leaves no error, every rule is asked, whatever came of those before it.
A fault of it is one error, with which the whole value is refused. -/
theorem asked_of_gives {earlier later : List Rule} {rule : Rule} {o : Outcome} {r : Value}
    {c₁ : Context} {w₁ : World σ} (hrules : env.rules = earlier ++ rule :: later)
    (ho : Gives env mode depth s v w o)
    (hcheck : (check env mode depth s v).runIn {} w = (.ok r, c₁, w₁)) (hclean : c₁.errors = []) :
    ∃ c₂ w₂, (askRules env mode s v earlier).runIn c₁ w₁ = (.ok (), c₂, w₂) ∧
      ∀ e c₃ w₃, AskFaults (env.testRule rule.check s v) c₂ w₂ mode e c₃ w₃ →
        (askRule env mode rule s v).runIn c₂ w₂ =
          (.ok (), c₃.addError ⟨[], orWords e.text rule.words, ruleCode rule, none⟩, w₃) ∧
        ∃ es, o = .refused es ∧ ⟨[], orWords e.text rule.words, ruleCode rule, none⟩ ∈ es := by
  obtain ⟨r', c, w', hwhole, hfinish⟩ := ho.exists_run
  obtain ⟨c₁', w₁', hcheck', hrest⟩ := runIn_checkWhole_ok_iff.mp hwhole
  rw [hcheck] at hcheck'
  cases hcheck'
  simp only [hclean, List.isEmpty_nil, if_true, hrules] at hrest
  obtain ⟨c₂, w₂, c₃, w₃, hearlier, hrule, hpath, herrors⟩ := exists_of_askRules hrest
  have hroot : c₂.path = [] := hpath.trans (restored_of_check hcheck).path
  refine ⟨c₂, w₂, hearlier, fun e c₄ w₄ hfaults => ?_⟩
  have hone := runIn_askRule_of_faults hfaults
  rw [hroot] at hone
  refine ⟨hone, c.errors, ?_⟩
  rw [hone] at hrule
  cases hrule
  have hmem := herrors (List.mem_append_right _ (List.mem_singleton_self _))
  exact ⟨eq_refused_of_finish hfinish (List.ne_nil_of_mem hmem), hmem⟩

end Validate

end Faults

open Validate in
/-- No callback ends a validation by a fault. With factories that give schemas, templates
that give words, bounds that count as numbers and patterns of texts, the entry point that
waits gives an outcome, and the others give one or fault for a promise, unless the depth is
used up or the library stumbles by itself: over an integer that is too long to be written
into the words or the path of an error, or over a default that cannot be copied. Each fault
of a callback is one error in the context of the call and at its place; it stands in the
refusal of the whole value, unless a union drops it. Whatever comes of a part, the other
parts are seen to, and so are the rules. -/
theorem callback_faults_are_captured {σ : Type} (env : Setting σ) (may : Nat → Schema → Prop)
    (depth : Nat) (s : Schema) (v : Value) (w : World σ) (hkeeps : env.Keeps (World.Stands may))
    (hgives : env.Furnishes may) (hworded : env.Words) (hs : s.Comparable)
    (hmay : ∀ id t, may id t → t.Comparable) (hw : w.Stands may) :
    ((∃ o w', (awaited env depth s v).runIn w = (.ok o, w')) ∨
      ∃ e w', (awaited env depth s v).runIn w = (.error e, w') ∧
        StopsBy env .awaited depth s v w e) ∧
    (∀ entry, (∃ o w', (immediate env depth entry s v).runIn w = (.ok o, w')) ∨
      ∃ e w', (immediate env depth entry s v).runIn w = (.error e, w') ∧
        (e = .awaitRequired entry ∨ StopsBy env .immediate depth s v w e)) ∧
    (∀ mode g e words code c' w', Call.Reaches env mode ⟨depth, s, v, {}, w⟩ g →
      g.Faults env mode e words code c' w' →
      g.run env mode =
        (.ok .invalid, c'.addError ⟨g.context.path, orWords e.text words, code, none⟩, w') ∧
      g.context.Restored c' ∧
      ∀ o, Gives env mode depth s v w o →
        (∃ es, o = .refused es ∧
          HeldBy (c'.addError ⟨g.context.path, orWords e.text words, code, none⟩).errors es) ∨
        Call.Dropped env mode ⟨depth, s, v, {}, w⟩ g) ∧
    (∀ mode f r c' w' p t u, Call.Reaches env mode ⟨depth, s, v, {}, w⟩ f →
      f.run env mode = (.ok r, c', w') → f.Part f.world p t u →
      f.SeesTo env mode c' p t ∨ f.Drops env mode) ∧
    (∀ mode earlier rule later o r c₁ w₁, env.rules = earlier ++ rule :: later →
      Gives env mode depth s v w o →
      (check env mode depth s v).runIn {} w = (.ok r, c₁, w₁) → c₁.errors = [] →
      ∃ c₂ w₂, (askRules env mode s v earlier).runIn c₁ w₁ = (.ok (), c₂, w₂) ∧
        ∀ e c₃ w₃, AskFaults (env.testRule rule.check s v) c₂ w₂ mode e c₃ w₃ →
          (askRule env mode rule s v).runIn c₂ w₂ =
            (.ok (), c₃.addError ⟨[], orWords e.text rule.words, ruleCode rule, none⟩, w₃) ∧
          ∃ es, o = .refused es ∧
            ⟨[], orWords e.text rule.words, ruleCode rule, none⟩ ∈ es) := by
  refine ⟨contained_of_awaited hkeeps hgives hworded hmay hs hw,
    contained_of_immediate hkeeps hgives hworded hmay hs hw, ?_, ?_, ?_⟩
  · intro mode g e words code c' w' hreaches hfaults
    obtain ⟨hrun, hback⟩ := Call.run_of_faults hfaults
    refine ⟨hrun, hback, fun o ho => refused_of_reaches hreaches hrun ?_ ho⟩
    exact List.append_ne_nil_of_right_ne_nil _ (List.cons_ne_nil _ _)
  · intro mode f r c' w' p t u _ hrun hpart
    exact Call.seesTo_of_part hpart hrun
  · intro mode earlier rule later o r c₁ w₁ hrules ho hcheck hclean
    exact asked_of_gives hrules ho hcheck hclean

/-- A host whose steps and predicates fault, these only when they are waited for, and
whose rules fault without a word. -/
def raisingHost : Setting Unit where
  apply _ _ := throw (.raised "ValueError" "no such unit")
  test _ _ := return .pending (throw (.raised "ValueError" "no such answer"))
  testRule _ _ _ := throw (.raised "ValueError" "")
  produce _ := return .schema .any
  rules := [⟨"totals", 0, some "totals differ", .custom "totals"⟩]

/-- A list of values to which a step is applied. -/
def convertedList : Schema := .array (.transform .any (.callback 0)) {}

theorem keeps_raisingHost : raisingHost.Keeps (World.Stands fun _ t => t = .any) where
  apply _ _ _ hw := hw
  test _ _ _ hw := hw
  later _ _ _ _ _ hw h := by
    cases h
    exact hw
  resolve id := Setting.keeps_resolve (fun _ hw => hw) fun w w₁ s _ hrun hw => by
    cases hrun
    exact hw.build rfl

/-- No union is met in the run of a list. -/
theorem not_dropped_convertedList {v : Value} {g : Call Unit} :
    ¬ Call.Dropped raisingHost .awaited ⟨3, convertedList, v, {}, { host := () }⟩ g := by
  have hnothing : (⟨{}, [], [], ()⟩ : World Unit).Stands fun _ t => t = .any := by
    rintro id t ⟨⟩
  rintro ⟨k, k', hk, -, -, first, rest, hunion, -⟩
  have hschema : k.schema = convertedList ∨ k.schema = .transform .any (.callback 0) ∨
      k.schema = .any := by
    refine Call.schema_of_reaches (P := fun t => t = convertedList ∨
      t = .transform .any (.callback 0) ∨ t = .any) keeps_raisingHost hnothing ?_ ?_ (.inl rfl) hk
    · rintro s t (rfl | rfl | rfl) (⟨⟨⟩⟩ | ⟨⟨⟩⟩)
      · exact .inr (.inl rfl)
      · exact .inr (.inr rfl)
    · intro id w t w' hw hresolve
      have hw' := (keeps_raisingHost.resolve id).of_run hresolve hw
      exact .inr (.inr (hw' id t (standing_of_resolve hresolve)))
  rcases hschema with h | h | h <;> rw [h] at hunion <;> cases hunion

theorem comparable_convertedList : convertedList.Comparable := by
  intro t ht
  rcases ht.cases_head with rfl | ⟨u, ⟨⟨⟩⟩ | ⟨⟨⟩⟩, ht⟩
  · exact ⟨rfl, rfl⟩
  · rcases ht.cases_head with rfl | ⟨u, ⟨⟨⟩⟩ | ⟨⟨⟩⟩, ht⟩
    · exact ⟨rfl, rfl⟩
    · rcases ht.cases_head with rfl | ⟨u, ⟨⟨⟩⟩ | ⟨⟨⟩⟩, ht⟩
      exact ⟨rfl, rfl⟩

/-- The second value of the list is there in any world. -/
theorem second_of_part {w w₁ : World Unit} {t : Schema} {u : Option Value}
    (h : Call.Part ⟨3, convertedList, .list [.int 1, .int 2], {}, w⟩ w₁ [.index 1] t u) :
    u = some (.int 2) := by
  cases h
  rfl

/-- The first value of a list is not converted, which is an error of the whole list, and
the second one is still checked. For any value that is accepted, the rule faults in its
turn, and its words are used. -/
theorem callback_faults_are_captured_convertedList :
    (∃ es, Validate.Gives raisingHost .awaited 3 convertedList (.list [.int 1, .int 2])
        { host := () } (.refused es) ∧
      HeldBy [⟨[.index 0], some "no such unit", .builtin .transformError, none⟩] es) ∧
    (∃ g, Call.Makes raisingHost .awaited ⟨3, convertedList, .list [.int 1, .int 2], {},
      { host := () }⟩ g ∧ g.schema = .transform .any (.callback 0) ∧ g.value = .int 2) ∧
    ∃ es, Validate.Gives raisingHost .awaited 1 .any .null { host := () } (.refused es) ∧
      ⟨[], some "totals differ", .custom "totals", none⟩ ∈ es := by
  have hnothing : (⟨{}, [], [], ()⟩ : World Unit).Stands fun _ t => t = .any := by
    rintro id t ⟨⟩
  have hany : Schema.any.Comparable := by
    intro t ht
    rcases ht.cases_head with rfl | ⟨u, ⟨⟨⟩⟩ | ⟨⟨⟩⟩, ht⟩
    exact ⟨rfl, rfl⟩
  have hlist := callback_faults_are_captured raisingHost (fun _ t => t = .any) 3 convertedList
    (.list [.int 1, .int 2]) { host := () } keeps_raisingHost (fun id w _ => ⟨_, _, rfl⟩)
    (fun st code words details => .ok words) comparable_convertedList
    (fun id t ht => ht ▸ hany) hnothing
  have hnull := callback_faults_are_captured raisingHost (fun _ t => t = .any) 1 .any .null
    { host := () } keeps_raisingHost (fun id w _ => ⟨_, _, rfl⟩)
    (fun st code words details => .ok words) hany (fun id t ht => ht ▸ hany) hnothing
  refine ⟨?_, ?_, ?_⟩
  · have hmakes : Call.Makes raisingHost .awaited
        ⟨2 + 1, .array (.transform .any (.callback 0)) {}, .list [.int 1, .int 2], {},
          { host := () }⟩
        ⟨2, .transform .any (.callback 0), .int 1,
          ({} : Context).push (.index 0), { host := () }⟩ :=
      .element rfl rfl (by decide) rfl rfl
    have hgives : Validate.Gives raisingHost .awaited 3 convertedList (.list [.int 1, .int 2])
        { host := () } _ := ⟨_, rfl⟩
    rcases (hlist.2.2.1 .awaited _ _ _ _ _ _ (.single hmakes) (.transform rfl rfl rfl)).2.2 _ hgives
      with ⟨es, hes, hheld⟩ | hdropped
    · exact ⟨es, hes ▸ hgives, hheld⟩
    · exact absurd hdropped not_dropped_convertedList
  · rcases hlist.2.2.2.1 .awaited _ _ _ _ [.index 1] (.transform .any (.callback 0))
      (some (.int 2)) .refl rfl (.element rfl rfl (by decide)) with hsees | ⟨_, _, ⟨⟩, -⟩
    rcases hsees with ⟨hmakes, hschema, -, hpart, hvalue, -⟩ | ⟨-, hpart, -⟩ | ⟨-, hpart, ⟨⟩, -⟩
    · exact ⟨_, hmakes, hschema, by rw [hvalue, second_of_part hpart]; rfl⟩
    · cases second_of_part hpart
    · cases second_of_part hpart
  · have hgives : Validate.Gives raisingHost .awaited 1 .any .null { host := () } _ := ⟨_, rfl⟩
    obtain ⟨c₂, w₂, hearlier, hrule⟩ := hnull.2.2.2.2 .awaited []
      ⟨"totals", 0, some "totals differ", .custom "totals"⟩ [] _ _ _ _ rfl hgives rfl rfl
    cases hearlier
    obtain ⟨-, es, hes, hmem⟩ := hrule _ _ _ (.called rfl)
    exact ⟨es, hes ▸ hgives, hmem⟩

/-- A default that is a read-only mapping cannot be copied: an absent value has no outcome. -/
theorem readonly_default_faults :
    ((Validate.awaited idleHost 2 (.withDefault .any (.shared 0 false)) .missing).runIn
      { store := ⟨#[.mapping true [(.text "a", .int 1)]]⟩, host := () }).1 =
        .error (.uncopyable "mappingproxy") := by
  rfl

end Conform
