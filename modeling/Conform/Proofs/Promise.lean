import Conform.Proofs.Record

/-!
# Promised answers

The entry points that do not wait fault if an answer was promised anywhere on
the way. Attempts are made on forks, so the note that an answer was promised
has to come up from wherever it was made: from options that lost, from members
that failed, and past errors.

That it does is read off the record of the run, which knows nothing of
contexts: the fault is there exactly if the calls of the run include one whose
answer was promised. And where no promise was dropped nothing was lost: a run
that does not wait and ends without the note is, step by step, the run that
waits.

## Main results

* `Undropped.settings` — not waiting and waiting are alike as long as nothing
  is promised.
* `awaitRequired_iff_promised` — the entry points that do not wait fault
  exactly if an answer was promised, and otherwise have the outcome of those
  that wait.
-/

namespace Conform

open Traverse

namespace Undropped

variable {σ : Type}

/-- How a run that does not wait compares to one that does: if it ends by a
value and without the note, the other ends by an alike value, on the same
context and in the same world. The note is never taken back. -/
structure EndAlike {α β : Type} (R : α → β → Prop) (c : Context) (a : α) (c' : Context)
    (w' : World σ) (out : Except Fault β × Context × World σ) : Prop where
  like : ∃ b, R a b
  kept : c.awaiting = true → c'.awaiting = true
  same : c'.awaiting = false → ∃ b, R a b ∧ out = (.ok b, c', w')

/-- Works of which the second is the first where nothing is promised. -/
def Alike {α β : Type} (R : α → β → Prop) (e : Engine σ α) (e' : Engine σ β) : Prop :=
  ∀ c w a c' w', e.runIn c w = (.ok a, c', w') → EndAlike R c a c' w' (e'.runIn c w)

/-- Work that leaves the note alone is alike to itself. -/
theorem Alike.refl {α : Type} {e : Engine σ α}
    (h : ∀ c w a c' w', e.runIn c w = (.ok a, c', w') → c'.awaiting = c.awaiting) :
    Alike (· = ·) e e := by
  intro c w a c' w' hrun
  refine ⟨⟨a, rfl⟩, fun hc => (h c w a c' w' hrun).trans hc, fun _ => ⟨a, rfl, hrun⟩⟩

theorem Alike.bind {α β γ δ : Type} {R : α → β → Prop} {S : γ → δ → Prop} {e : Engine σ α}
    {e' : Engine σ β} {k : α → Engine σ γ} {k' : β → Engine σ δ} (h : Alike R e e')
    (hk : ∀ a b, R a b → Alike S (k a) (k' b)) : Alike S (e >>= k) (e' >>= k') := by
  intro c w d c' w' hrun
  obtain ⟨a, c₁, w₁, hfirst, hrest⟩ := Engine.runIn_bind_ok_iff.mp hrun
  have hstart := h c w a c₁ w₁ hfirst
  obtain ⟨b, hab⟩ := hstart.like
  have hend := hk a b hab c₁ w₁ d c' w' hrest
  refine ⟨hend.like, fun hc => hend.kept (hstart.kept hc), fun hc' => ?_⟩
  have hc₁ : c₁.awaiting = false := by
    cases hnoted : c₁.awaiting with
    | false => rfl
    | true => exact absurd (hend.kept hnoted) (by simp [hc'])
  obtain ⟨b', hab', hrun'⟩ := hstart.same hc₁
  rw [Engine.runIn_bind_of_ok _ hrun']
  exact (hk a b' hab' c₁ w₁ d c' w' hrest).same hc'

/-- Work between two changes of the context neither of which touches the
note. -/
theorem Alike.bracket {α β : Type} {R : α → β → Prop} {e : Engine σ α} {e' : Engine σ β}
    {enter leave : Context → Context} (henter : ∀ c, (enter c).awaiting = c.awaiting)
    (hleave : ∀ c, (leave c).awaiting = c.awaiting) (h : Alike R e e') :
    Alike R (Engine.bracket enter leave e) (Engine.bracket enter leave e') := by
  intro c w a c' w' hrun
  obtain ⟨c₁, hinside, rfl⟩ := Engine.runIn_bracket_ok_iff.mp hrun
  have hend := h (enter c) w a c₁ w' hinside
  refine ⟨hend.like, fun hc => ?_, fun hc' => ?_⟩
  · rw [hleave]
    exact hend.kept ((henter c).trans hc)
  · obtain ⟨b, hab, hrun'⟩ := hend.same ((hleave c₁).symm.trans hc')
    exact ⟨b, hab, Engine.runIn_bracket_ok_iff.mpr ⟨c₁, hrun', rfl⟩⟩

theorem Alike.onCopy {α β : Type} {R : α → β → Prop} {e : Engine σ α} {e' : Engine σ β}
    (h : Alike R e e') : Alike R (Engine.onCopy e) (Engine.onCopy e') :=
  fun c => Alike.bracket (fun d => (rfl : d.afresh.awaiting = d.awaiting))
    (fun d => (rfl : (c.resume d).awaiting = d.awaiting)) h c

theorem Alike.speculate {α β : Type} {R : α → β → Prop} {e : Engine σ α} {e' : Engine σ β}
    (h : Alike R e e') :
    Alike (fun p q => R p.1 q.1 ∧ List.Forall₂ (· = ·) p.2 q.2) (Engine.speculate e)
      (Engine.speculate e') := by
  rintro c w ⟨a, errors⟩ c' w' hrun
  obtain ⟨fork, hinside, rfl, rfl⟩ := Engine.runIn_speculate_ok_iff.mp hrun
  have hend := h c.fork w a fork w' hinside
  have herrors : List.Forall₂ (· = ·) fork.errors fork.errors :=
    List.forall₂_same.mpr fun _ _ => rfl
  refine ⟨?_, fun hc => by simp [hc], fun hc' => ?_⟩
  · obtain ⟨b, hab⟩ := hend.like
    exact ⟨(b, fork.errors), hab, herrors⟩
  · obtain ⟨b, hab, hrun'⟩ := hend.same (Bool.or_eq_false_iff.mp hc').2
    refine ⟨(b, fork.errors), ⟨hab, herrors⟩, ?_⟩
    exact Engine.runIn_speculate_ok_iff.mpr ⟨fork, hrun', rfl, rfl⟩

/-- Work that depends on a test of the context. -/
theorem Alike.branch {α β : Type} {R : α → β → Prop} {test : Context → Bool} {e k : Engine σ α}
    {e' k' : Engine σ β} (h : Alike R e e') (hk : Alike R k k') :
    Alike R (Engine.context >>= fun c => if test c then e else k)
      (Engine.context >>= fun c => if test c then e' else k') := by
  intro c w
  rw [Engine.runIn_bind_of_ok _ (Engine.runIn_context c w),
    Engine.runIn_bind_of_ok _ (Engine.runIn_context c w)]
  cases test c with
  | true => exact h c w
  | false => exact hk c w

/-- Not waiting and waiting as a likeness. -/
def likeness (σ : Type) : Likeness σ σ where
  record := (· = ·)
  work := Alike
  pure {α β R a b} h := by
    intro c w a' c' w' hrun
    cases hrun
    exact ⟨⟨b, h⟩, id, fun _ => ⟨b, h, rfl⟩⟩
  bind := Alike.bind
  throw _ f c w a c' w' hrun := by cases hrun
  store := .refl fun c w a c' w' hrun => by cases hrun; rfl
  addWorded code words details := .refl fun c w a c' w' hrun => by cases hrun; rfl
  within _ := .bracket (fun _ => rfl) (fun _ => rfl)
  onCopy := Alike.onCopy
  speculate := Alike.speculate
  enter v _ _ _ _ _ _ hrefused h hk :=
    .branch hrefused
      (.bind (.bracket (fun c => c.awaiting_mark v) (fun c => c.awaiting_unmark v) h) hk)
  clean := .branch

/-! ## The two modes are alike -/

variable (env : Setting σ)

theorem alike_ofAct {α : Type} (act : Act σ α) :
    Alike (· = ·) (Engine.ofAct act) (Engine.ofAct act) := by
  refine .refl fun c w a c' w' hrun => ?_
  rw [(Engine.runIn_ofAct_ok_iff.mp hrun).2]

theorem alike_applyStep (step : Step) (v : Value) :
    Alike (· = ·) (applyStep env step v) (applyStep env step v) := by
  refine .refl fun c w a c' w' hrun => ?_
  rw [runIn_applyStep] at hrun
  generalize (step.applyTo env v).runIn w = out at hrun
  obtain ⟨f | u, w₁⟩ := out <;>
  · cases hrun
    rfl

/-- Asking is the same in both modes unless the answer is promised, and then
that is noted. -/
theorem alike_ask (test : Act σ (Reply σ)) :
    Alike (· = ·) (ask .immediate test) (ask .awaited test) := by
  intro c w answer c' w' hrun
  rw [runIn_ask] at hrun ⊢
  generalize test.runIn w = out at hrun ⊢
  obtain ⟨f | v | later, w₁⟩ := out
  · cases hrun
    exact ⟨⟨_, rfl⟩, id, fun _ => ⟨_, rfl, rfl⟩⟩
  · cases hrun
    exact ⟨⟨_, rfl⟩, id, fun _ => ⟨_, rfl, rfl⟩⟩
  · cases hrun
    exact ⟨⟨_, rfl⟩, fun _ => rfl, fun hc' => by cases hc'⟩

theorem alike_addViolation (x : Violation) :
    Alike (· = ·) (Engine.addViolation env x) (Engine.addViolation env x) := by
  refine .refl fun c w a c' w' hrun => ?_
  obtain ⟨message, rfl, -⟩ := Engine.eq_addError_of_runIn_addViolation hrun
  rfl

theorem settings : (likeness σ).Settings env .immediate env .awaited where
  resolve id := alike_ofAct (env.resolve id)
  applyStep := alike_applyStep env
  ask id v := alike_ask (env.test id v)
  addViolation := alike_addViolation env
  addFailures x name groups groups' h := by
    have hgroups : groups = groups' := by simpa [likeness] using h
    exact hgroups ▸ alike_addViolation env _

end Undropped

/-! ## Whole values -/

namespace Validate

variable {σ : Type} (env : Setting σ) (depth : Nat) (entry : Entry) (s : Schema) (v : Value)

/-- The calls of callbacks, in order, of validating a whole value without
waiting. They are read off the record of a host that keeps one; by
`runIn_immediate_recorded` that is the same run. -/
def calls (w : World σ) : List Event :=
  ((immediate (env.recorded Event.mk) depth entry s v).runIn w.recording).2.record

/-- A run that does not wait and ends by a value has noted a promised answer
exactly if a call of a callback was answered so. -/
theorem awaiting_iff_promised {r : Value} {c : Context} {w w' : World σ}
    (h : (checkWhole env .immediate depth s v).runIn {} w = (.ok r, c, w')) :
    c.awaiting = true ↔ ∃ e ∈ calls env depth entry s v w, e.promised = true := by
  have hrun := checkWhole_recorded env depth s v .immediate {} w.recording
  change Recorded.EndAlike _ _ _ ((checkWhole env .immediate depth s v).runIn {} w) _ at hrun
  rw [h] at hrun
  generalize hout : (checkWhole (env.recorded Event.mk) .immediate depth s v).runIn {} w.recording =
    out at hrun
  cases hrun with
  | value hr es hrecord hnoted =>
      rename_i r' w₁
      have hcalls : calls env depth entry s v w = es := by
        unfold calls immediate
        rw [Act.runIn_bind, runIn_fresh, hout]
        simp only
        cases c.awaiting <;> exact hrecord
      rw [hcalls, hnoted]
      simp

end Validate

open Validate in
/-- An entry point that does not wait faults exactly if some callback of the
run promised its answer, provided nothing else faults; and an outcome that it
gives is the outcome of the entry point that waits, with the same world left
behind. -/
theorem awaitRequired_iff_promised {σ : Type} (env : Setting σ) (depth : Nat) (entry : Entry)
    (s : Schema) (v : Value) (w : World σ) :
    (∀ x w', (fresh (checkWhole env .immediate depth s v)).runIn w = (.ok x, w') →
      ((immediate env depth entry s v).runIn w = (.error (.awaitRequired entry), w') ↔
        ∃ e ∈ calls env depth entry s v w, e.promised = true)) ∧
    (∀ o w', (immediate env depth entry s v).runIn w = (.ok o, w') →
      (awaited env depth s v).runIn w = (.ok o, w')) := by
  constructor
  · rintro ⟨r, c⟩ w' hfresh
    rw [← awaiting_iff_promised env depth entry s v (runIn_fresh_ok_iff.mp hfresh)]
    unfold immediate
    rw [Act.runIn_bind, hfresh]
    simp only
    cases c.awaiting with
    | true => exact ⟨fun _ => rfl, fun _ => rfl⟩
    | false =>
        refine ⟨fun h => ?_, nofun⟩
        obtain ⟨-, -, hfault⟩ := finish_eq_error_iff.mp (congrArg Prod.fst h)
        cases hfault
  · intro o w' h
    obtain ⟨r, c, hrun, hawaiting, hfinish⟩ := runIn_immediate_ok_iff.mp h
    have hwhole : Undropped.Alike (· = ·) (checkWhole env .immediate depth s v)
        (checkWhole env .awaited depth s v) :=
      Likeness.checkWhole (Undropped.settings env) rfl
        (fun id => Undropped.alike_ask (env.testRule id s v)) depth
    obtain ⟨_, rfl, hsame⟩ := (hwhole {} w r c w' hrun).same hawaiting
    exact runIn_awaited_ok_iff.mpr ⟨r, c, hsame, hfinish⟩

/-- A host whose predicates promise to agree on integers, and agree on
anything else at once. -/
def promisingHost : Setting Unit where
  apply _ v := return v
  test _ v :=
    match v with
    | .int _ => return .pending (return .bool true)
    | _ => return .settled (.bool true)
  testRule _ _ _ := return .settled (.bool true)
  produce _ := throw (.raised "ValueError" "no such schema")

/-- The first option asks a predicate, and then fails in its other member; the
second accepts. -/
def losingOption : Schema :=
  .union (.intersection (.refine .any 0 none (.custom "even")) [.boolean]) [.any]

open Validate in
/-- The integer is accepted, but in the option that lost an answer was
promised, so there is a fault; the text is accepted by both entry points. -/
theorem awaitRequired_iff_promised_losingOption :
    (immediate promisingHost 5 .parse losingOption (.int 2)).runIn { host := () } =
        (.error (.awaitRequired .parse), { host := () }) ∧
      (awaited promisingHost 5 losingOption (.text "2")).runIn { host := () } =
        (.ok (.accepted (.text "2")), { host := () }) := by
  constructor
  · refine ((awaitRequired_iff_promised promisingHost 5 .parse losingOption (.int 2)
      { host := () }).1 (.int 2, _) _ rfl).mpr ?_
    exact ⟨⟨.predicate 0 (.int 2), true⟩, .head _, rfl⟩
  · exact (awaitRequired_iff_promised promisingHost 5 .parse losingOption (.text "2")
      { host := () }).2 _ _ rfl

end Conform
