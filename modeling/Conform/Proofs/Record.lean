import Conform.Proofs.Likeness

/-!
# Runs on record

A host can keep a record of what it is asked to do. `Setting.recorded` gives a
setting such a host: every call of a callback is handed on to the host itself,
and once it has ended an entry for it is written behind the others. What is
written depends on the callback and on whether its answer was promised. To do
what was promised is no further call.

Keeping a record changes nothing: a check in the recorded setting has the end
that it has in the setting itself, and leaves the same world but for the
record. And the record tells what the context tells: an answer is noted as
promised exactly if the calls of the run include one whose answer was.

## Main results

* `Recorded.settings` — a setting and its recorded copy are alike.
* `Validate.runIn_immediate_recorded`, `Validate.runIn_awaited_recorded` —
  whole values have the same outcomes in both.
-/

namespace Conform

/-- A callback of the host, with what it is called on. -/
inductive Callback where
  | step (id : Nat) (v : Value)
  | predicate (id : Nat) (v : Value)
  | rule (id : Nat) (s : Schema) (v : Value)
  | factory (id : Nat)

/-- The call of a callback, and whether its answer was promised. -/
structure Event where
  callback : Callback
  promised : Bool

namespace World

variable {σ τ ρ : Type}

/-- The world with another host. -/
def withHost (w : World σ) (host : τ) : World τ :=
  { store := w.store, built := w.built, exporting := w.exporting, host := host }

/-- The world of the host itself. -/
def unrecorded (w : World (σ × List ρ)) : World σ := w.withHost w.host.1

/-- The record that is kept. -/
def record (w : World (σ × List ρ)) : List ρ := w.host.2

/-- A world from which on a record is kept. -/
def recording (w : World σ) : World (σ × List ρ) := w.withHost (w.host, [])

@[simp] theorem unrecorded_withHost (w : World σ) (entries : List ρ) :
    (w.withHost (w.host, entries)).unrecorded = w := rfl

@[simp] theorem record_withHost (w : World σ) (host : τ) (entries : List ρ) :
    (w.withHost (host, entries)).record = entries := rfl

end World

/-- Whether an answer is promised. -/
def promises {σ : Type} : Except Fault (Reply σ) → Bool
  | .ok (.pending _) => true
  | _ => false

namespace Act

variable {σ ρ α : Type}

/-- An act of the host of which nothing is recorded. -/
def unnoted (act : Act σ α) : Act (σ × List ρ) α :=
  ExceptT.mk fun w =>
    let (r, w₁) := act.runIn w.unrecorded
    (r, w₁.withHost (w₁.host, w.record))

/-- An act of the host, for which an entry is written when it has ended. -/
def noted (entry : Except Fault α → ρ) (act : Act σ α) : Act (σ × List ρ) α :=
  ExceptT.mk fun w =>
    let (r, w₁) := act.runIn w.unrecorded
    (r, w₁.withHost (w₁.host, w.record ++ [entry r]))

theorem runIn_unnoted (act : Act σ α) (w : World (σ × List ρ)) :
    act.unnoted.runIn w =
      ((act.runIn w.unrecorded).1,
        (act.runIn w.unrecorded).2.withHost ((act.runIn w.unrecorded).2.host, w.record)) := rfl

theorem runIn_noted (entry : Except Fault α → ρ) (act : Act σ α) (w : World (σ × List ρ)) :
    (act.noted entry).runIn w =
      ((act.runIn w.unrecorded).1, (act.runIn w.unrecorded).2.withHost
        ((act.runIn w.unrecorded).2.host, w.record ++ [entry (act.runIn w.unrecorded).1])) := rfl

end Act

/-- An answer of the host, what is promised being done without an entry. -/
def Reply.unnoted {σ ρ : Type} : Reply σ → Reply (σ × List ρ)
  | .settled v => .settled v
  | .pending later => .pending later.unnoted

/-- The setting whose host keeps a record. -/
def Setting.recorded {σ ρ : Type} (write : Callback → Bool → ρ) (env : Setting σ) :
    Setting (σ × List ρ) where
  apply id v := (env.apply id v).noted fun _ => write (.step id v) false
  test id v := do
    return (← (env.test id v).noted fun r => write (.predicate id v) (promises r)).unnoted
  testRule id s v := do
    return (← (env.testRule id s v).noted fun r => write (.rule id s v) (promises r)).unnoted
  produce id := (env.produce id).noted fun _ => write (.factory id) false
  catalog := env.catalog
  scope := env.scope
  rules := env.rules

open Traverse

namespace Recorded

variable {σ : Type}

/-- A run and its recorded copy end alike: by alike values or by the same
fault, on the same context and in the same world but for the record, to which
entries were added. If they end by values, an answer is noted as promised
exactly if it was before or one of these entries says so. -/
inductive EndAlike {α β : Type} (R : α → β → Prop) (c : Context) (w : World (σ × List Event)) :
    Except Fault α × Context × World σ →
      Except Fault β × Context × World (σ × List Event) → Prop
  | value {a : α} {b : β} (h : R a b) {c' : Context} {w' : World (σ × List Event)}
      (es : List Event) (hrecord : w'.record = w.record ++ es)
      (hnoted : c'.awaiting = true ↔ c.awaiting = true ∨ ∃ e ∈ es, e.promised = true) :
      EndAlike R c w (.ok a, c', w'.unrecorded) (.ok b, c', w')
  | fault (f : Fault) (c' : Context) (w' : World (σ × List Event)) :
      EndAlike R c w (.error f, c', w'.unrecorded) (.error f, c', w')

namespace EndAlike

variable {α β : Type} {R : α → β → Prop} {c c₁ : Context} {w w₁ : World (σ × List Event)}
  {out : Except Fault α × Context × World σ}
  {out' : Except Fault β × Context × World (σ × List Event)}

/-- Nothing was written, and nothing noted. -/
theorem same {a : α} {b : β} (h : R a b) (c c' : Context) (hnoted : c'.awaiting = c.awaiting)
    (w : World (σ × List Event)) : EndAlike R c w (.ok a, c', w.unrecorded) (.ok b, c', w) :=
  .value h [] (by simp) (by simp [hnoted])

/-- One entry was written. -/
theorem written {a : α} {b : β} (h : R a b) (c' : Context) (w' : World (σ × List Event))
    (e : Event) (hrecord : w'.record = w.record ++ [e])
    (hnoted : c'.awaiting = true ↔ c.awaiting = true ∨ e.promised = true) :
    EndAlike R c w (.ok a, c', w'.unrecorded) (.ok b, c', w') :=
  .value h [e] hrecord (by simpa using hnoted)

/-- What was written by one run and then by another was written by both. -/
theorem after {es : List Event} (hrecord : w₁.record = w.record ++ es)
    (hnoted : c₁.awaiting = true ↔ c.awaiting = true ∨ ∃ e ∈ es, e.promised = true)
    (h : EndAlike R c₁ w₁ out out') : EndAlike R c w out out' := by
  cases h with
  | value hab fs hrecord' hnoted' =>
      refine .value hab (es ++ fs) (by rw [hrecord', hrecord, List.append_assoc]) ?_
      rw [hnoted', hnoted]
      simp only [List.mem_append, or_and_right, exists_or, or_assoc]
  | fault f c' w' => exact .fault f c' w'

end EndAlike

/-- Works that end alike, the second one recorded. -/
def Alike {α β : Type} (R : α → β → Prop) (e : Engine σ α)
    (e' : Engine (σ × List Event) β) : Prop :=
  ∀ c w, EndAlike R c w (e.runIn c w.unrecorded) (e'.runIn c w)

theorem Alike.bind {α β γ δ : Type} {R : α → β → Prop} {S : γ → δ → Prop} {e : Engine σ α}
    {e' : Engine (σ × List Event) β} {k : α → Engine σ γ} {k' : β → Engine (σ × List Event) δ}
    (h : Alike R e e') (hk : ∀ a b, R a b → Alike S (k a) (k' b)) :
    Alike S (e >>= k) (e' >>= k') := by
  intro c w
  have hrun := h c w
  rw [Engine.runIn_bind, Engine.runIn_bind]
  generalize e.runIn c w.unrecorded = out, e'.runIn c w = out' at hrun ⊢
  cases hrun with
  | value hab es hrecord hnoted => exact .after hrecord hnoted (hk _ _ hab _ _)
  | fault f c₁ w₁ => exact .fault f c₁ w₁

/-- Work between two changes of the context neither of which touches the
note. -/
theorem Alike.bracket {α β : Type} {R : α → β → Prop} {e : Engine σ α}
    {e' : Engine (σ × List Event) β} {enter leave : Context → Context}
    (henter : ∀ c, (enter c).awaiting = c.awaiting)
    (hleave : ∀ c, (leave c).awaiting = c.awaiting) (h : Alike R e e') :
    Alike R (Engine.bracket enter leave e) (Engine.bracket enter leave e') := by
  intro c w
  have hrun := h (enter c) w
  rw [Engine.runIn_bracket, Engine.runIn_bracket]
  generalize e.runIn (enter c) w.unrecorded = out, e'.runIn (enter c) w = out' at hrun ⊢
  cases hrun with
  | value hab es hrecord hnoted =>
      exact .value hab es hrecord (by rw [hleave, hnoted, henter])
  | fault f c₁ w₁ => exact .fault f (leave c₁) w₁

theorem Alike.onCopy {α β : Type} {R : α → β → Prop} {e : Engine σ α}
    {e' : Engine (σ × List Event) β} (h : Alike R e e') :
    Alike R (Engine.onCopy e) (Engine.onCopy e') :=
  fun c => Alike.bracket (fun d => (rfl : d.afresh.awaiting = d.awaiting))
    (fun d => (rfl : (c.resume d).awaiting = d.awaiting)) h c

theorem Alike.speculate {α β : Type} {R : α → β → Prop} {e : Engine σ α}
    {e' : Engine (σ × List Event) β} (h : Alike R e e') :
    Alike (fun p q => R p.1 q.1 ∧ List.Forall₂ (· = ·) p.2 q.2) (Engine.speculate e)
      (Engine.speculate e') := by
  intro c w
  have hrun := h c.fork w
  rw [Engine.runIn_speculate, Engine.runIn_speculate]
  generalize e.runIn c.fork w.unrecorded = out, e'.runIn c.fork w = out' at hrun ⊢
  cases hrun with
  | value hab es hrecord hnoted =>
      refine .value ⟨hab, List.forall₂_same.mpr fun _ _ => rfl⟩ es hrecord ?_
      -- the fork started without the note
      rw [Bool.or_eq_true, hnoted]
      simp [Context.fork]
  | fault f fork w₁ => exact .fault f c w₁

/-- Work that depends on a test of the context. -/
theorem Alike.branch {α β : Type} {R : α → β → Prop} {test : Context → Bool} {e k : Engine σ α}
    {e' k' : Engine (σ × List Event) β} (h : Alike R e e') (hk : Alike R k k') :
    Alike R (Engine.context >>= fun c => if test c then e else k)
      (Engine.context >>= fun c => if test c then e' else k') := by
  intro c w
  rw [Engine.runIn_bind_of_ok _ (Engine.runIn_context c w.unrecorded),
    Engine.runIn_bind_of_ok _ (Engine.runIn_context c w)]
  cases test c with
  | true => exact h c w
  | false => exact hk c w

/-- Being recorded as a likeness. -/
def likeness (σ : Type) : Likeness σ (σ × List Event) where
  record := (· = ·)
  work := Alike
  pure h c w := .same h c c rfl w
  bind := Alike.bind
  throw _ f c w := .fault f c w
  store c w := .same rfl c c rfl w
  addWorded code words details c w :=
    .same rfl c (c.addError ⟨c.path, words, code, details⟩) rfl w
  within _ := .bracket (fun _ => rfl) (fun _ => rfl)
  onCopy := Alike.onCopy
  speculate := Alike.speculate
  enter v _ _ _ _ _ _ hrefused h hk :=
    .branch hrefused
      (.bind (.bracket (fun c => c.awaiting_mark v) (fun c => c.awaiting_unmark v) h) hk)
  clean := .branch

/-! ## Acts -/

/-- Acts that end alike, the second one recorded, with no entry of a promised
answer. -/
def Plain {α : Type} (act : Act σ α) (act' : Act (σ × List Event) α) : Prop :=
  ∀ w, ∃ r w₁ es, act.runIn w.unrecorded = (r, w₁.unrecorded) ∧ act'.runIn w = (r, w₁) ∧
    w₁.record = w.record ++ es ∧ ∀ e ∈ es, e.promised = false

theorem Plain.pure {α : Type} (a : α) :
    Plain (Pure.pure a : Act σ α) (Pure.pure a : Act (σ × List Event) α) :=
  fun w => ⟨.ok a, w, [], rfl, rfl, by simp, by simp⟩

theorem Plain.throw {α : Type} (f : Fault) :
    Plain (MonadExcept.throw f : Act σ α) (MonadExcept.throw f : Act (σ × List Event) α) :=
  fun w => ⟨.error f, w, [], rfl, rfl, by simp, by simp⟩

theorem Plain.store : Plain (Act.store : Act σ Store) (Act.store : Act (σ × List Event) Store) :=
  fun w => ⟨.ok w.store, w, [], rfl, rfl, by simp, by simp⟩

theorem Plain.bind {α β : Type} {act : Act σ α} {act' : Act (σ × List Event) α}
    {k : α → Act σ β} {k' : α → Act (σ × List Event) β} (h : Plain act act')
    (hk : ∀ a, Plain (k a) (k' a)) : Plain (act >>= k) (act' >>= k') := by
  intro w
  obtain ⟨r, w₁, es, hrun, hrun', hrecord, hes⟩ := h w
  rw [Act.runIn_bind, Act.runIn_bind, hrun, hrun']
  cases r with
  | error f => exact ⟨.error f, w₁, es, rfl, rfl, hrecord, hes⟩
  | ok a =>
      obtain ⟨r₁, w₂, fs, hmore, hmore', hrecord', hfs⟩ := hk a w₁
      refine ⟨r₁, w₂, es ++ fs, hmore, hmore', by rw [hrecord', hrecord, List.append_assoc], ?_⟩
      intro e he
      rcases List.mem_append.mp he with he | he
      · exact hes e he
      · exact hfs e he

theorem plain_unnoted {α : Type} (act : Act σ α) : Plain act act.unnoted := by
  intro w
  refine ⟨_, _, [], ?_, act.runIn_unnoted w, (List.append_nil _).symm, by simp⟩
  rfl

/-- A callback that does not promise leaves an entry that says so. -/
theorem plain_noted {α : Type} (act : Act σ α) (callback : Callback) :
    Plain act (act.noted fun _ => ⟨callback, false⟩) := by
  intro w
  refine ⟨_, _, [⟨callback, false⟩], ?_, act.runIn_noted _ w, rfl, by simp⟩
  rfl

/-- Entries without a promise leave the note as it was. -/
theorem noted_iff {es : List Event} (hes : ∀ e ∈ es, e.promised = false) {noted : Prop} :
    noted ↔ noted ∨ ∃ e ∈ es, e.promised = true := by
  refine ⟨.inl, ?_⟩
  rintro (h | ⟨e, he, hpromised⟩)
  · exact h
  · simp [hes e he] at hpromised

theorem Plain.alike {α : Type} {act : Act σ α} {act' : Act (σ × List Event) α}
    (h : Plain act act') : Alike (· = ·) (Engine.ofAct act) (Engine.ofAct act') := by
  intro c w
  obtain ⟨r, w₁, es, hrun, hrun', hrecord, hes⟩ := h w
  rw [Engine.runIn_ofAct, Engine.runIn_ofAct, hrun, hrun']
  cases r with
  | error f => exact .fault f c w₁
  | ok a => exact .value rfl es hrecord (noted_iff hes)

theorem Plain.alike_attempt {α : Type} {act : Act σ α} {act' : Act (σ × List Event) α}
    (h : Plain act act') : Alike (· = ·) (Engine.attempt act) (Engine.attempt act') := by
  intro c w
  obtain ⟨r, w₁, es, hrun, hrun', hrecord, hes⟩ := h w
  rw [Engine.runIn_attempt, Engine.runIn_attempt, hrun, hrun']
  exact .value rfl es hrecord (noted_iff hes)

/-! ## The two settings are alike -/

variable (env : Setting σ)

theorem plain_resolve (id : Nat) :
    Plain (env.resolve id) ((env.recorded Event.mk).resolve id) := by
  intro w
  have hbuilt : w.unrecorded.built = w.built := rfl
  rw [Setting.runIn_resolve, Setting.runIn_resolve, hbuilt]
  cases w.built.lookup id with
  | some s => exact ⟨.ok s, w, [], rfl, rfl, by simp, by simp⟩
  | none =>
      obtain ⟨r, w₁, es, hrun, hrun', hrecord, hes⟩ :=
        plain_noted (env.produce id) (.factory id) w
      change ((env.recorded Event.mk).produce id).runIn w = (r, w₁) at hrun'
      simp only [hrun, hrun']
      rcases r with f | s | v
      · exact ⟨.error f, w₁, es, rfl, rfl, hrecord, hes⟩
      · exact ⟨.ok s, { w₁ with built := (id, s) :: w₁.built }, es, rfl, rfl, hrecord, hes⟩
      · exact ⟨_, w₁, es, rfl, rfl, hrecord, hes⟩

theorem plain_onText (operation : String) (f : String → String) (v : Value) :
    Plain (onText (σ := σ) operation f v) (onText operation f v) := by
  unfold onText
  split
  · exact .pure _
  · exact .bind .store fun st => .throw _

mutual

theorem plain_applyTo (step : Step) (v : Value) :
    Plain (step.applyTo env v) (step.applyTo (env.recorded Event.mk) v) := by
  cases step with
  | callback id => exact plain_noted (env.apply id v) (.step id v)
  | pipeline steps => exact plain_applyAll steps v
  | trim => exact plain_onText _ _ v
  | lower => exact plain_onText _ _ v
  | upper => exact plain_onText _ _ v

theorem plain_applyAll (steps : List Step) (v : Value) :
    Plain (Step.applyAll env steps v) (Step.applyAll (env.recorded Event.mk) steps v) := by
  cases steps with
  | nil => exact .pure v
  | cons step steps => exact .bind (plain_applyTo step v) fun u => plain_applyAll steps u

end

theorem alike_applyStep (step : Step) (v : Value) :
    Alike (· = ·) (applyStep env step v) (applyStep (env.recorded Event.mk) step v) := by
  refine Alike.bind (plain_applyTo env step v).alike_attempt ?_
  rintro r _ rfl
  cases r with
  | ok u => exact (likeness σ).pure rfl
  | error f => exact Likeness.bind_eq ((likeness σ).addWorded _ _ _) fun _ => (likeness σ).pure rfl

/-- A predicate leaves an entry that says whether it promised its answer, and
just that is noted on the context. -/
theorem alike_ask (mode : Mode) (callback : Callback) (test : Act σ (Reply σ)) :
    Alike (· = ·) (ask mode test)
      (ask mode (do return (← test.noted fun r => ⟨callback, promises r⟩).unnoted)) := by
  intro c w
  rw [runIn_ask, runIn_ask, Act.runIn_bind, Act.runIn_noted]
  generalize test.runIn w.unrecorded = out
  obtain ⟨f | v | later, w₁⟩ := out
  · exact .written rfl c (w₁.withHost (w₁.host, _)) ⟨callback, false⟩ rfl (by simp)
  · exact .written rfl c (w₁.withHost (w₁.host, _)) ⟨callback, false⟩ rfl (by simp)
  · cases mode with
    | immediate =>
        exact .written rfl c.markAwaiting (w₁.withHost (w₁.host, _)) ⟨callback, true⟩ rfl
          (by simp [Context.markAwaiting])
    | awaited =>
        obtain ⟨r, w₂, es, hrun, hrun', hrecord, hes⟩ :=
          plain_unnoted later (w₁.withHost (w₁.host, w.record ++ [⟨callback, true⟩]))
        change later.runIn w₁ = _ at hrun
        simp only [hrun, Act.runIn_pure, Reply.unnoted, promises, hrun']
        have hboth : w₂.record = w.record ++ ([⟨callback, true⟩] ++ es) :=
          hrecord.trans (List.append_assoc ..)
        rcases r with f | v
        · exact .value rfl _ hboth (by simp [Context.markAwaiting])
        · exact .value rfl _ hboth (by simp [Context.markAwaiting])

theorem alike_addViolation (x : Violation) :
    Alike (· = ·) (Engine.addViolation env x)
      (Engine.addViolation (env.recorded Event.mk) x) := by
  intro c w
  have hmessage : x.message (env.recorded Event.mk) w.store =
      x.message env w.unrecorded.store := rfl
  rw [Engine.runIn_addViolation, Engine.runIn_addViolation, hmessage]
  cases x.message env w.unrecorded.store with
  | error f => exact .fault f c w
  | ok words => exact .same rfl c (c.addError _) rfl w

theorem settings (mode : Mode) :
    (likeness σ).Settings env mode (env.recorded Event.mk) mode where
  resolve id := (plain_resolve env id).alike
  applyStep := alike_applyStep env
  ask id v := alike_ask mode (.predicate id v) (env.test id v)
  addViolation := alike_addViolation env
  addFailures x name groups groups' h := by
    have hgroups : groups = groups' := by simpa [likeness] using h
    exact hgroups ▸ alike_addViolation env _

end Recorded

/-! ## Whole values -/

namespace Validate

variable {σ : Type} (env : Setting σ) (depth : Nat) (s : Schema) (v : Value)

theorem checkWhole_recorded (mode : Mode) :
    Recorded.Alike (· = ·) (checkWhole env mode depth s v)
      (checkWhole (env.recorded Event.mk) mode depth s v) :=
  Likeness.checkWhole (Recorded.settings env mode) rfl
    (fun id => Recorded.alike_ask mode (.rule id s v) (env.testRule id s v)) depth

/-- Keeping a record changes neither the outcome for a whole value nor the
world that is left. -/
theorem runIn_immediate_recorded (entry : Entry) (w : World (σ × List Event)) :
    (immediate env depth entry s v).runIn w.unrecorded =
      (((immediate (env.recorded Event.mk) depth entry s v).runIn w).1,
        ((immediate (env.recorded Event.mk) depth entry s v).runIn w).2.unrecorded) := by
  have hrun := checkWhole_recorded env depth s v .immediate {} w
  unfold immediate
  rw [Act.runIn_bind, Act.runIn_bind, runIn_fresh, runIn_fresh]
  generalize (checkWhole env .immediate depth s v).runIn {} w.unrecorded = out,
    (checkWhole (env.recorded Event.mk) .immediate depth s v).runIn {} w = out' at hrun ⊢
  cases hrun with
  | value h es hrecord hnoted =>
      subst h
      rename_i c _
      simp only
      cases c.awaiting <;> rfl
  | fault f c₁ w₁ => rfl

theorem runIn_awaited_recorded (w : World (σ × List Event)) :
    (awaited env depth s v).runIn w.unrecorded =
      (((awaited (env.recorded Event.mk) depth s v).runIn w).1,
        ((awaited (env.recorded Event.mk) depth s v).runIn w).2.unrecorded) := by
  have hrun := checkWhole_recorded env depth s v .awaited {} w
  unfold awaited
  rw [Act.runIn_bind, Act.runIn_bind, runIn_fresh, runIn_fresh]
  generalize (checkWhole env .awaited depth s v).runIn {} w.unrecorded = out,
    (checkWhole (env.recorded Event.mk) .awaited depth s v).runIn {} w = out' at hrun ⊢
  cases hrun with
  | value h es hrecord hnoted =>
      subst h
      rfl
  | fault f c₁ w₁ => rfl

end Validate

end Conform
