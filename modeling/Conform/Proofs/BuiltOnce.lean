import Conform.Proofs.Dealing
import Conform.Proofs.Lawful
import Conform.Proofs.Unwinding

/-!
# Deferred schemas are built once

The entry points, the flag, exports and record models come to a deferred schema in many ways: at
any place of a schema or a value, on the forks of unions, where a key is not there, or from a
callback that checks something by itself and goes on where that faults. All of them use it by
resolving it. So a *session*, which is a row of such tasks with what the host does between them,
is a dealing with the schema.

Until the factory first gives a schema, every use calls it again and ends by a fault, which nothing
but a callback catches; then it is built, and the factory is not called any more.

## Main definitions

* `Setting.Deals` — the callbacks and the other factories of a host use a deferred schema or
  overlook it.
* `Task`, `runAll` — what can be done in a session, and a session.
* `Task.Uses` — the worlds in which a task uses a deferred schema, callbacks aside.

## Main results

* `Task.act_deals` — tasks deal with the schema as far as their hosts do.
* `standing_of_reentry` — an export that is cut off finds the schema built.
* `deferred_schema_is_built_once` — a session of any tasks builds it at most once.
-/

namespace Conform

variable {σ ν : Type} {env : Setting σ} {id : Nat} {tally : Tally σ ν}

/-! ## Hosts -/

/-- To use a deferred schema or overlook it is a law. -/
def Act.Law.dealing (env : Setting σ) (id : Nat) (tally : Tally σ ν) : Act.Law σ where
  holds act := act.Deals env id tally
  pure := .pure
  throw := .throw
  store := .store
  bind := .bind
  rescue := .rescue

/-- A host uses a deferred schema or overlooks it, in its callbacks and in the factories of other
deferred schemas. The factory of the schema is the one given. -/
structure Setting.Deals (host env : Setting σ) (id : Nat) (tally : Tally σ ν) : Prop where
  factory : host.produce id = env.produce id
  produce (j : Nat) (hne : j ≠ id) : (host.produce j).Deals env id tally
  callbacks : (Act.Law.dealing env id tally).Governs host

theorem Setting.resolve_congr {host : Setting σ} (h : host.produce id = env.produce id) :
    host.resolve id = env.resolve id := by
  unfold resolve
  rw [h]

/-- Once the schema has been built, it stays as it is. -/
theorem Act.Deals.keeps_standing {α : Type} {act : Act σ α} (h : act.Deals env id tally)
    (s : Schema) : act.Keeps fun w => w.standing id = some s := by
  obtain ⟨d⟩ := h
  exact fun w hw => (d.finds hw).2.1

namespace Setting.Deals

variable {host : Setting σ} (h : host.Deals env id tally)

include h

theorem resolve (j : Nat) : (host.resolve j).Deals env id tally := by
  by_cases hj : j = id
  · rw [hj, resolve_congr h.factory]
    exact ⟨.use⟩
  · exact .resolve_other hj (h.produce j hj)

theorem acceptsMissing (depth : Nat) (s : Schema) :
    (host.acceptsMissing depth s).Deals env id tally :=
  (Act.Law.dealing env id tally).acceptsMissing h.resolve depth s

theorem exportSchema (depth : Nat) (s : Schema) :
    (host.exportSchema depth s).Deals env id tally :=
  (Act.Law.dealing env id tally).exportSchema h.resolve (fun j _ hact => .unlessExporting j hact)
    depth s

theorem validate (mode : Mode) (depth : Nat) (entry : Entry) (s : Schema) (v : Value) :
    (Validate.validate host mode depth entry s v).Deals env id tally := by
  cases mode with
  | immediate => exact Act.Law.immediate h.callbacks h.resolve depth entry s v
  | awaited => exact Act.Law.awaited h.callbacks h.resolve depth s v

theorem parse (mode : Mode) (depth : Nat) (s : Schema) (v : Value) :
    (Validate.validate host mode depth .parse s v >>= Validate.valueOf).Deals env id tally := by
  refine .bind (h.validate mode depth .parse s v) fun o => ?_
  cases o with
  | accepted u => exact .pure u
  | refused errors => exact .throw _

end Setting.Deals

/-! ## Exports that are cut off -/

namespace ExportCall

/-- What exports keep holds where an export makes another one. -/
theorem keeps_of_makes {I : World σ → Prop}
    (hexport : ∀ depth s, (env.exportSchema depth s).Keeps I)
    (hresolve : ∀ j, (env.resolve j).Keeps I)
    (hexporting : ∀ w ids, I w → I { w with exporting := ids }) {f g : ExportCall σ}
    (h : Makes env f g) (hf : I f.world) : I g.world := by
  cases h with
  | among hrow hsplit hearlier =>
      exact (Setting.keeps_exportAll (hexport _) _).of_run hearlier hf
  | inside => exact hf
  | deferred hnew hrun => exact (hresolve _).of_run hrun (hexporting _ _ hf)

/-- Below an export of the deferred schema it has been built, so that an export that is cut off
there does without it. -/
theorem standing_of_reentry {host : Setting σ} (h : host.Deals env id tally) {f g : ExportCall σ}
    (hf : f.schema = .deferred id) (hbelow : Relation.TransGen (Makes host) f g) :
    g.world.standing id ≠ none := by
  obtain ⟨first, hmakes, hreaches⟩ := Relation.TransGen.head'_iff.mp hbelow
  obtain ⟨s, hs⟩ : ∃ s, first.world.standing id = some s := by
    cases hmakes with
    | among hrow =>
        obtain rfl := hf
        cases hrow
    | inside hinside =>
        obtain rfl := hf
        cases hinside
    | @deferred depth j w s w₁ hnew hresolve =>
        obtain rfl := Schema.deferred.inj hf
        exact ⟨s, standing_of_resolve hresolve⟩
  -- From there on it stays, along the exports that are made further down.
  have hstays : g.world.standing id = some s := by
    clear hbelow
    induction hreaches with
    | refl => exact hs
    | tail _ hmakes ih =>
        exact keeps_of_makes (fun depth t => (h.exportSchema depth t).keeps_standing s)
          (fun j => (h.resolve j).keeps_standing s) (fun _ _ hw => hw) hmakes ih
  rw [hstays]
  exact nofun

end ExportCall

/-! ## Sessions -/

/-- What can be done in a session. Each task has a setting of its own, and the depth to which it is
followed. -/
inductive Task (σ : Type) where
  /-- To give the outcome of validating a value. -/
  | validate (host : Setting σ) (mode : Mode) (depth : Nat) (entry : Entry) (s : Schema) (v : Value)
  /-- To give the value that a value becomes. -/
  | parse (host : Setting σ) (mode : Mode) (depth : Nat) (s : Schema) (v : Value)
  | acceptsMissing (host : Setting σ) (depth : Nat) (s : Schema)
  | exportSchema (host : Setting σ) (depth : Nat) (s : Schema)
  | recordModel (host : Setting σ) (depth : Nat) (name : String) (o : Operand)
  /-- Something else that the host does. -/
  | other (act : Act σ Value)

/-- What a task gives. -/
inductive Answer where
  | outcome (o : Outcome)
  | value (v : Value)
  | flag (accepted : Bool)
  | document (d : Document)
  | model (m : RecordModel)

namespace Task

/-- What a task does. -/
def act : Task σ → Act σ Answer
  | validate host mode depth entry s v => do
    return .outcome (← Validate.validate host mode depth entry s v)
  | parse host mode depth s v => do
    return .value (← Validate.validate host mode depth .parse s v >>= Validate.valueOf)
  | acceptsMissing host depth s => return .flag (← host.acceptsMissing depth s)
  | exportSchema host depth s => return .document (← host.exportSchema depth s)
  | recordModel host depth name o => return .model (← host.recordModel depth name o)
  | other act => return .value (← act)

/-- A task uses a deferred schema or overlooks it, as far as its host can tell. -/
def Deals (env : Setting σ) (id : Nat) (tally : Tally σ ν) : Task σ → Prop
  | validate host _ _ _ _ _ => host.Deals env id tally
  | parse host _ _ _ _ => host.Deals env id tally
  | acceptsMissing host _ _ => host.Deals env id tally
  | exportSchema host _ _ => host.Deals env id tally
  | recordModel host _ _ _ => host.Deals env id tally
  | other act => act.Deals env id tally

/-- Tasks deal with the schema as far as their hosts do. -/
theorem act_deals {task : Task σ} (h : task.Deals env id tally) : task.act.Deals env id tally := by
  cases task with
  | validate host mode depth entry s v =>
      exact .bind (Setting.Deals.validate h mode depth entry s v) fun o => .pure _
  | parse host mode depth s v => exact .bind (Setting.Deals.parse h mode depth s v) fun u => .pure _
  | acceptsMissing host depth s =>
      exact .bind (Setting.Deals.acceptsMissing h depth s) fun accepted => .pure _
  | exportSchema host depth s =>
      exact .bind (Setting.Deals.exportSchema h depth s) fun d => .pure _
  | recordModel host depth name o =>
      have hmodel :=
        (Act.Law.dealing env id tally).recordModel (Setting.Deals.resolve h) depth name o
      exact .bind hmodel fun m => .pure _
  | other act => exact .bind h fun v => .pure _

/-- A task uses a deferred schema in a world, callbacks aside. -/
inductive Uses (id : Nat) : Task σ → World σ → World σ → Prop
  | validate {host mode depth entry s v w u}
      (h : Call.Uses host mode id ⟨depth, s, v, {}, w⟩ u) :
      Uses id (validate host mode depth entry s v) w u
  | parse {host mode depth s v w u} (h : Call.Uses host mode id ⟨depth, s, v, {}, w⟩ u) :
      Uses id (parse host mode depth s v) w u
  | acceptsMissing {host depth s w u} (h : FlagCall.Uses host id ⟨depth, s, w⟩ u) :
      Uses id (acceptsMissing host depth s) w u
  | exportSchema {host depth s w u} (h : ExportCall.Uses host id ⟨depth, s, w⟩ u) :
      Uses id (exportSchema host depth s) w u

end Task

/-- Tasks one after another; one that faults does not keep the others from being done. -/
def runAll : List (Task σ) → World σ → List (Except Fault Answer) × World σ
  | [], w => ([], w)
  | task :: tasks, w =>
    let (answer, w) := task.act.runIn w
    let (answers, w) := runAll tasks w
    (answer :: answers, w)

/-- A session deals with the schema as far as its tasks do: by induction on the tasks. -/
theorem deals_runAll {tasks : List (Task σ)} (h : ∀ task ∈ tasks, task.Deals env id tally) :
    Nonempty (Dealing env id tally (runAll tasks)) := by
  induction tasks with
  | nil => exact ⟨.aside (.reads (fun _ => rfl) fun _ _ _ => rfl) fun _ => rfl⟩
  | cons task tasks ih =>
      obtain ⟨htask, hrest⟩ := List.forall_mem_cons.mp h
      let gather : Except Fault Answer → List (Except Fault Answer) → World σ →
          List (Except Fault Answer) × World σ := fun answer answers w => (answer :: answers, w)
      have hgather : ∀ answer, Nonempty (Dealing env id tally fun w =>
          gather answer (runAll tasks w).1 (runAll tasks w).2) := fun answer =>
        Dealing.nonempty_andThen (fun _ => rfl) (ih hrest) fun answers =>
          ⟨.aside (.reads (fun _ => rfl) fun _ _ _ => rfl) fun _ => rfl⟩
      exact Dealing.nonempty_andThen (fun _ => rfl) (Task.act_deals htask) hgather

/-- A task that uses the schema in vain ends by the fault of that use. -/
theorem Task.fault_of_uses {task : Task σ} (h : task.Deals env id tally) {w u : World σ}
    (huses : task.Uses id w u) {f : Fault} (hu : ((env.resolve id).runIn u).1 = .error f) :
    (task.act.runIn w).1 = .error f := by
  have hresolve : ∀ host : Setting σ, host.Deals env id tally →
      ((host.resolve id).runIn u).1 = .error f := by
    intro host hhost
    rw [Setting.resolve_congr hhost.factory, hu]
  cases huses with
  | validate hcheck =>
      have hfault := Call.fault_of_uses hcheck (hresolve _ h)
      exact Act.fault_bind (Call.fault_validate _ hfault) _
  | parse hcheck =>
      have hfault := Call.fault_of_uses hcheck (hresolve _ h)
      exact Act.fault_bind (Act.fault_bind (Call.fault_validate .parse hfault) _) _
  | acceptsMissing hflag => exact Act.fault_bind (FlagCall.fault_of_uses hflag (hresolve _ h)) _
  | exportSchema hexport => exact Act.fault_bind (ExportCall.fault_of_uses hexport (hresolve _ h)) _

/-- A session of any tasks, with what the host does between them, uses a deferred schema whose
factory does without it.

As long as the schema has not been built, each use calls the factory. A use in vain leaves it so,
and ends by the fault of the factory or, if what it made is no schema, by one that says so; unless
a callback catches that, the task ends by it. The first use that gives a schema builds it, and all
uses after it find that schema, with no further call of the factory. That is what the host tells of
the calls, in whatever way it keeps a tally.

An export that looks into the schema does not use it again further down, where it has been built. -/
theorem deferred_schema_is_built_once {σ ν : Type} (env : Setting σ) (id : Nat)
    (tally : Tally σ ν) (halone : env.MakesAlone id tally) (tasks : List (Task σ))
    (htasks : ∀ task ∈ tasks, task.Deals env id tally) :
    Nonempty (Dealing env id tally (runAll tasks)) ∧
    (∀ (d : Dealing env id tally (runAll tasks)) (w : World σ), w.standing id = none →
      env.BuiltOnce id tally w (d.uses w) (runAll tasks w).2) ∧
    (∀ task ∈ tasks, ∀ (w u : World σ) (f : Fault), task.Uses id w u →
      ((env.resolve id).runIn u).1 = .error f → (task.act.runIn w).1 = .error f) ∧
    ∀ host : Setting σ, host.Deals env id tally → ∀ f g : ExportCall σ,
      f.schema = .deferred id → Relation.TransGen (ExportCall.Makes host) f g →
      g.world.standing id ≠ none := by
  refine ⟨deals_runAll htasks, fun d w hopen => d.builtOnce halone hopen, ?_, ?_⟩
  · intro task htask w u f huses hu
    exact Task.fault_of_uses (htasks task htask) huses hu
  · intro host hhost f g hf hbelow
    exact ExportCall.standing_of_reentry hhost hf hbelow

/-- What a factory answers that is not ready when it is called first, and gives no schema when it is
called next. -/
def reluctantAnswer : Nat → Except Fault Operand
  | 0 => .error (.raised "RuntimeError" "not ready")
  | 1 => .ok (.value (.int 5))
  | _ => .ok (.schema labelledTree)

/-- A host with that factory. It counts the calls. -/
def reluctantHost : Setting Nat where
  apply _ v := return v
  test _ _ := return .settled (.bool true)
  testRule _ _ _ := return .settled (.bool true)
  produce
    | 0 => ExceptT.mk fun w => (reluctantAnswer w.host, { w with host := w.host + 1 })
    | _ + 1 => throw (.raised "KeyError" "no such schema")

/-- Its steps check a value against the deferred schema by themselves, and give it back if that
faults. -/
def stubbornHost : Setting Nat :=
  { reluctantHost with
    apply := fun _ v =>
      tryCatch (Validate.parse reluctantHost 9 (.deferred 0) v) fun _ => return v }

/-- The number of calls of the factory. -/
def reluctantCalls : Tally Nat Nat where
  read n := n
  add n _ := n + 1

theorem makesAlone_reluctantHost : reluctantHost.MakesAlone 0 reluctantCalls where
  overlooks := by
    refine ⟨fun w v h => ?_, fun w => rfl⟩
    obtain ⟨hstore, hbuilt, hexporting, hhost⟩ := World.mk.inj h
    refine ⟨congrArg reluctantAnswer hhost, ?_⟩
    show World.without { w with host := w.host + 1 } 0 =
      World.without { v with host := v.host + 1 } 0
    simp only [World.without, hstore, hbuilt, hexporting, hhost]
  tallied _ := rfl

theorem deals_reluctantHost : reluctantHost.Deals reluctantHost 0 reluctantCalls where
  factory := rfl
  produce j hne := by
    cases j with
    | zero => exact absurd rfl hne
    | succ j => exact .throw _
  callbacks :=
    { apply := fun _ v => .pure v
      test := fun _ _ => .pure _
      later := fun _ _ _ _ _ h => by cases h
      testRule := fun _ _ _ => .pure _
      laterRule := fun _ _ _ _ _ _ h => by cases h }

theorem deals_stubbornHost : stubbornHost.Deals reluctantHost 0 reluctantCalls where
  factory := rfl
  produce := deals_reluctantHost.produce
  callbacks :=
    { deals_reluctantHost.callbacks with
      apply := fun _ v =>
        .rescue (deals_reluctantHost.parse .immediate 9 (.deferred 0) v) fun _ => .pure v }

/-- A session in which the first two uses are in vain, the second of them in a callback that goes on
nevertheless. -/
def reluctantSession : List (Task Nat) :=
  [.parse stubbornHost .immediate 9 (.deferred 0) (.int 1),
    .parse stubbornHost .immediate 9 (.transform .any (.callback 0)) (.int 1),
    .acceptsMissing stubbornHost 9 (.nullable (.deferred 0)),
    .exportSchema stubbornHost 9 (.deferred 0),
    .validate stubbornHost .awaited 9 .safeParse (.union (.deferred 0) [.deferred 0]) (.int 1)]

/-- The factory is called three times, though there are more uses, and the first task ends by what
it raises. -/
theorem deferred_schema_is_built_once_reluctantSession :
    (∃ us, reluctantHost.BuiltOnce 0 reluctantCalls { host := 0 } us
      (runAll reluctantSession { host := 0 }).2) ∧
    (runAll reluctantSession { host := 0 }).2.host = 3 ∧
    (runAll reluctantSession { host := 0 }).2.standing 0 = some labelledTree ∧
    ((runAll reluctantSession { host := 0 }).1.head?) =
      some (.error (.raised "RuntimeError" "not ready")) ∧
    ∀ f g : ExportCall Nat, f.schema = .deferred 0 →
      Relation.TransGen (ExportCall.Makes stubbornHost) f g → g.world.standing 0 ≠ none := by
  have htasks : ∀ task ∈ reluctantSession, task.Deals reluctantHost 0 reluctantCalls := by
    simp [reluctantSession, Task.Deals, deals_stubbornHost]
  obtain ⟨⟨d⟩, hbuilt, hfaults, hreentry⟩ := deferred_schema_is_built_once reluctantHost 0
    reluctantCalls makesAlone_reluctantHost reluctantSession htasks
  refine ⟨⟨_, hbuilt d _ rfl⟩, rfl, rfl, ?_, hreentry stubbornHost deals_stubbornHost⟩
  have hfirst := hfaults _ (List.mem_cons_self) { host := 0 } { host := 0 }
    (.raised "RuntimeError" "not ready") (.parse .here) rfl
  exact congrArg some hfirst

end Conform
