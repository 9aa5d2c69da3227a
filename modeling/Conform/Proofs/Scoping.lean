import Mathlib.Data.List.Induction
import Conform.Message.Catalog

/-!
# Templates in nested blocks

A script of the host changes the catalog and opens blocks of templates. A block
is left when its body is done, or when something is raised in it; what is raised
unwinds the blocks around it up to an attempt that catches it.

`Step` runs a script on the two layers of templates. Each open block has a frame
that keeps the scope to restore. What can be seen of a run are its events: a change
of the catalog, a block that is entered, a block that is left. From the events
alone it can be told which blocks are open (`openBlocks`) and which template is in
force for a code (`inForce`); neither looks at a frame.

## Main results

* `told_of_run` — at every point of a run the frames are those of the open blocks,
  the scope is what these lay over the scope at the start, and the catalog is the
  one at the start with all changes made.
* `templates_are_scoped` — the template in force is that of the innermost open
  block that has an entry for the code, else the last one set for all; leaving a
  block restores the scope and keeps the catalog; every run comes to an end.
-/

namespace Conform

namespace Script

/-! ## Scripts -/

/-- A change of the catalog. -/
inductive Change where
  | set (code : String) (t : Option Template)
  | setAll (ts : List (String × Option Template))
  | remove (code : String)
  | clear

/-- A statement of a script. -/
inductive Statement where
  | change (a : Change)
  /-- A body with the templates of a block. -/
  | block (b : Block) (body : List Statement)
  /-- A body in which what is raised is caught. -/
  | attempt (body : List Statement)
  | raise

/-- What is done next: statements, or the way out of a body in which something was
raised. -/
inductive Control where
  | run (todo : List Statement)
  | unwind

/-- What is done after a body. The frame of a block keeps the scope to restore. -/
inductive Frame where
  | block (outer : Scope) (rest : List Statement)
  | attempt (rest : List Statement)

/-- A point of a run. -/
structure Point where
  control : Control
  frames : List Frame
  layers : Layers

/-- What can be seen of a step. -/
inductive Event where
  | changed (a : Change)
  | entered (b : Block)
  /-- A block is left, because something was raised or not. -/
  | left (raised : Bool)

/-- The catalog after a change. -/
def Change.apply (a : Change) (c : Catalog) : Catalog :=
  match a with
  | set code t => c.set code t
  | setAll ts => c.setAll ts
  | remove code => c.remove code
  | clear => .empty

/-- Changes the catalog, whatever blocks are open. -/
def Change.make (a : Change) (l : Layers) : Layers := { l with catalog := a.apply l.catalog }

/-- The start of a script. -/
def start (l : Layers) (script : List Statement) : Point := ⟨.run script, [], l⟩

/-- A step of a run, with what can be seen of it. -/
inductive Step : Point → Option Event → Point → Prop
  | change {a todo frames l} :
      Step ⟨.run (.change a :: todo), frames, l⟩ (some (.changed a)) ⟨.run todo, frames, a.make l⟩
  | enter {b body todo frames l} :
      Step ⟨.run (.block b body :: todo), frames, l⟩ (some (.entered b))
        ⟨.run body, .block l.scope todo :: frames, l.enter b⟩
  | attempt {body todo frames l} :
      Step ⟨.run (.attempt body :: todo), frames, l⟩ none ⟨.run body, .attempt todo :: frames, l⟩
  | raise {todo frames l} : Step ⟨.run (.raise :: todo), frames, l⟩ none ⟨.unwind, frames, l⟩
  | leave {outer rest frames l} :
      Step ⟨.run [], .block outer rest :: frames, l⟩ (some (.left false))
        ⟨.run rest, frames, l.leave outer⟩
  | unwind {outer rest frames l} :
      Step ⟨.unwind, .block outer rest :: frames, l⟩ (some (.left true))
        ⟨.unwind, frames, l.leave outer⟩
  | done {rest frames l} : Step ⟨.run [], .attempt rest :: frames, l⟩ none ⟨.run rest, frames, l⟩
  | caught {rest frames l} :
      Step ⟨.unwind, .attempt rest :: frames, l⟩ none ⟨.run rest, frames, l⟩

/-- Step after step, with all that can be seen of them. -/
inductive Run (p : Point) : List Event → Point → Prop
  | refl : Run p [] p
  | tail {past e q q'} (h : Run p past q) (hstep : Step q e q') : Run p (past ++ e.toList) q'

/-- There is nothing left to do. -/
def Point.Done (p : Point) : Prop := p.frames = [] ∧ (p.control = .run [] ∨ p.control = .unwind)

theorem Run.trans {p q r : Point} {past more : List Event} (h : Run p past q)
    (hmore : Run q more r) : Run p (past ++ more) r := by
  induction hmore with
  | refl => simpa using h
  | tail _ hstep ih => simpa using ih.tail hstep

theorem Run.head {p q r : Point} {e : Option Event} {more : List Event} (h : Step p e q)
    (hmore : Run q more r) : Run p (e.toList ++ more) r :=
  (Run.refl.tail h).trans hmore

/-! ## What the events tell -/

/-- The last template that a row gives for a code. -/
def lastGiven? (ts : List (String × Option Template)) (code : String) : Option (Option Template) :=
  ts.reverse.lookup code

/-- The entry of a block for a code: what is given by name goes before what is given
in the list. -/
def gives? (b : Block) (code : String) : Option (Option Template) :=
  (lastGiven? b.named code).or (lastGiven? b.templates code)

/-- The open blocks after an event, the innermost first. -/
def track (blocks : List Block) (e : Event) : List Block :=
  match e with
  | .changed _ => blocks
  | .entered b => b :: blocks
  | .left _ => blocks.tail

/-- The open blocks after some events, the innermost first. -/
def openBlocks (past : List Event) : List Block := past.foldl track []

/-- The template that a change leaves for a code, if it does anything to it. -/
def Change.settles? (a : Change) (code : String) : Option (Option Template) :=
  match a with
  | set other t => if code = other then some t else none
  | setAll ts => lastGiven? ts code
  | remove other => if code = other then some none else none
  | clear => some none

/-- The template that an event leaves for a code, if it does anything to it. -/
def Event.settles? (e : Event) (code : String) : Option (Option Template) :=
  match e with
  | changed a => a.settles? code
  | _ => none

/-- The template that was last set for all and not removed since. -/
def lastSet (l : Layers) (past : List Event) (code : String) : Option Template :=
  (past.reverse.findSome? (·.settles? code)).getD (l.catalog.lookup? code).join

/-- The template that is in force for a code after some events. -/
def inForce (l : Layers) (past : List Event) (code : String) : Option Template :=
  match ((openBlocks past).findSome? (gives? · code)).or (l.scope.lookup? code) with
  | some t => t
  | none => lastSet l past code

/-- Events between which every block that is entered is left. -/
inductive Balanced : List Event → Prop
  | nil : Balanced []
  | changed {es} (h : Balanced es) (a : Change) : Balanced (es ++ [.changed a])
  | block {es inside} (h : Balanced es) (b : Block) (hinside : Balanced inside) (raised : Bool) :
      Balanced (es ++ .entered b :: (inside ++ [.left raised]))

theorem Balanced.track {es : List Event} (h : Balanced es) (blocks : List Block) :
    es.foldl track blocks = blocks := by
  induction h generalizing blocks with
  | nil => rfl
  | changed _ a ih => simp [ih, Script.track]
  | block _ b _ raised ih ihinside => simp [ih, ihinside, Script.track]

/-! ## The two layers -/

/-- The catalog after an event: entering and leaving a block does nothing to it. -/
def Event.update (e : Event) (c : Catalog) : Catalog :=
  match e with
  | changed a => a.apply c
  | _ => c

/-- The catalog with the changes of some events made. -/
def replay (c : Catalog) (past : List Event) : Catalog := past.foldl (fun c e => e.update c) c

/-- What open blocks lay over a scope. -/
def overlay (blocks : List Block) (base : Scope) : Scope :=
  blocks.foldr (fun b scope => scope.openBlock b.templates b.named) base

@[simp] theorem openBlocks_concat (past : List Event) (e : Event) :
    openBlocks (past ++ [e]) = track (openBlocks past) e := by
  simp [openBlocks]

@[simp] theorem replay_concat (c : Catalog) (past : List Event) (e : Event) :
    replay c (past ++ [e]) = e.update (replay c past) := by
  simp [replay]

theorem join_lookup?_apply (a : Change) (c : Catalog) (code : String) :
    ((a.apply c).lookup? code).join = (a.settles? code).getD (c.lookup? code).join := by
  cases a with
  | set other t =>
      by_cases h : code = other
      · subst h
        simp [Change.apply, Change.settles?]
      · simp [Change.apply, Change.settles?, h, Catalog.lookup?_set_of_ne c t h]
  | setAll ts =>
      simp only [Change.apply, Change.settles?, Catalog.lookup?_setAll, lastGiven?]
      cases ts.reverse.lookup code <;> rfl
  | remove other =>
      by_cases h : code = other
      · subst h
        simp [Change.apply, Change.settles?]
      · simp [Change.apply, Change.settles?, h, Catalog.lookup?_remove_of_ne c h]
  | clear => simp [Change.apply, Change.settles?]

/-- In the catalog, the last change that does anything to a code decides. -/
theorem join_lookup?_replay (l : Layers) (past : List Event) (code : String) :
    ((replay l.catalog past).lookup? code).join = lastSet l past code := by
  induction past using List.reverseRecOn with
  | nil => rfl
  | append_singleton past e ih =>
      unfold lastSet at ih ⊢
      rw [replay_concat, List.reverse_concat, List.findSome?_cons]
      cases e with
      | changed a =>
          simp only [Event.update, Event.settles?, join_lookup?_apply, ih]
          cases a.settles? code <;> rfl
      | _ => exact ih

/-- In the scope, the innermost block that has an entry for a code decides. -/
theorem lookup?_overlay (blocks : List Block) (base : Scope) (code : String) :
    (overlay blocks base).lookup? code =
      (blocks.findSome? (gives? · code)).or (base.lookup? code) := by
  induction blocks with
  | nil => rfl
  | cons b blocks ih =>
      show ((overlay blocks base).openBlock b.templates b.named).lookup? code = _
      rw [Catalog.lookup?_openBlock, ih, ← Option.or_assoc, List.findSome?_cons]
      show (gives? b code).or _ = _
      cases gives? b code <;> rfl

/-! ## What holds at every point -/

/-- The frames are those of some open blocks, innermost first, with attempts between
them; each keeps the scope that its block was laid over. -/
inductive Nested (base : Scope) : List Block → List Frame → Prop
  | base : Nested base [] []
  | attempt {blocks frames} (h : Nested base blocks frames) (rest : List Statement) :
      Nested base blocks (.attempt rest :: frames)
  | block {blocks frames} (h : Nested base blocks frames) (b : Block) (rest : List Statement) :
      Nested base (b :: blocks) (.block (overlay blocks base) rest :: frames)

theorem Nested.of_attempt {base : Scope} {blocks : List Block} {frames : List Frame}
    {rest : List Statement} (h : Nested base blocks (.attempt rest :: frames)) :
    Nested base blocks frames := by
  cases h with
  | attempt h => exact h

theorem Nested.of_block {base outer : Scope} {blocks : List Block} {frames : List Frame}
    {rest : List Statement} (h : Nested base blocks (.block outer rest :: frames)) :
    outer = overlay blocks.tail base ∧ Nested base blocks.tail frames := by
  cases h with
  | block h => exact ⟨rfl, h⟩

theorem Nested.eq_nil {base : Scope} {blocks : List Block} (h : Nested base blocks []) :
    blocks = [] := by
  cases h with
  | base => rfl

/-- What the events that led to a point tell about it. -/
structure Told (l : Layers) (past : List Event) (p : Point) : Prop where
  nested : Nested l.scope (openBlocks past) p.frames
  scope : p.layers.scope = overlay (openBlocks past) l.scope
  catalog : p.layers.catalog = replay l.catalog past

/-- However a block is left, its frame has the scope that the blocks around it lay
over the one at the start. -/
theorem told_of_left {l layers : Layers} {past : List Event} {outer : Scope}
    {rest : List Statement} {frames : List Frame} {control : Control}
    (hnested : Nested l.scope (openBlocks past) (.block outer rest :: frames))
    (hcatalog : layers.catalog = replay l.catalog past) (raised : Bool) :
    Told l (past ++ [.left raised]) ⟨control, frames, layers.leave outer⟩ := by
  obtain ⟨houter, hframes⟩ := hnested.of_block
  refine ⟨?_, ?_, ?_⟩
  · rw [openBlocks_concat]
    exact hframes
  · rw [openBlocks_concat]
    exact houter
  · rw [replay_concat]
    exact hcatalog

theorem told_of_step {l : Layers} {past : List Event} {p q : Point} {e : Option Event}
    (h : Told l past p) (hstep : Step p e q) : Told l (past ++ e.toList) q := by
  obtain ⟨hnested, hscope, hcatalog⟩ := h
  cases hstep with
  | @change a todo frames outer =>
      refine ⟨?_, ?_, ?_⟩ <;> rw [Option.toList_some]
      · rw [openBlocks_concat]
        exact hnested
      · rw [openBlocks_concat]
        exact hscope
      · rw [replay_concat]
        exact congrArg a.apply hcatalog
  | @enter b body todo frames outer =>
      simp only at hnested hscope hcatalog
      refine ⟨?_, ?_, ?_⟩ <;> rw [Option.toList_some]
      · rw [openBlocks_concat, hscope]
        exact hnested.block b todo
      · rw [openBlocks_concat, Layers.enter, hscope]
        rfl
      · rw [replay_concat]
        exact hcatalog
  | leave => exact told_of_left hnested hcatalog false
  | unwind => exact told_of_left hnested hcatalog true
  | attempt => simpa using ⟨hnested.attempt _, hscope, hcatalog⟩
  | raise => simpa using ⟨hnested, hscope, hcatalog⟩
  | done => simpa using ⟨hnested.of_attempt, hscope, hcatalog⟩
  | caught => simpa using ⟨hnested.of_attempt, hscope, hcatalog⟩

theorem told_of_run {l : Layers} {script : List Statement} {past : List Event} {p : Point}
    (h : Run (start l script) past p) : Told l past p := by
  induction h with
  | refl => exact ⟨.base, rfl, rfl⟩
  | tail _ hstep ih => exact told_of_step ih hstep

/-- So the events tell which template is in force. -/
theorem Told.find?_eq {l : Layers} {past : List Event} {p : Point} (h : Told l past p)
    (code : String) : p.layers.find? code = inForce l past code := by
  unfold Layers.find? Catalog.find? inForce
  rw [h.scope, lookup?_overlay, h.catalog]
  cases ((openBlocks past).findSome? (gives? · code)).or (l.scope.lookup? code) with
  | none => exact join_lookup?_replay l past code
  | some t => rfl

/-! ## Runs to the end -/

mutual

/-- How many steps a statement takes at most. -/
def Statement.weight : Statement → Nat
  | .change _ => 1
  | .block _ body => 2 + weightAll body
  | .attempt body => 2 + weightAll body
  | .raise => 1

/-- How many steps statements take at most. -/
def Statement.weightAll : List Statement → Nat
  | [] => 0
  | s :: ss => weight s + weightAll ss

end

/-- What is left to do in a frame. -/
def Frame.weight : Frame → Nat
  | block _ rest => 1 + Statement.weightAll rest
  | attempt rest => 1 + Statement.weightAll rest

/-- What is left to do in frames. -/
def Frame.weightAll : List Frame → Nat
  | [] => 0
  | f :: fs => f.weight + weightAll fs

/-- What is left to do next. -/
def Control.weight : Control → Nat
  | run todo => Statement.weightAll todo
  | unwind => 0

/-- What is left to do at a point. -/
def Point.weight (p : Point) : Nat := p.control.weight + Frame.weightAll p.frames

theorem weight_lt_of_step {p q : Point} {e : Option Event} (h : Step p e q) :
    q.weight < p.weight := by
  cases h <;>
    simp only [Point.weight, Control.weight, Frame.weightAll, Frame.weight, Statement.weightAll,
      Statement.weight] <;> omega

theorem exists_step {p : Point} (h : ¬ p.Done) : ∃ e q, Step p e q := by
  obtain ⟨control, frames, l⟩ := p
  cases control with
  | run todo =>
      cases todo with
      | nil =>
          cases frames with
          | nil => exact absurd ⟨rfl, .inl rfl⟩ h
          | cons frame frames =>
              cases frame with
              | block outer rest => exact ⟨_, _, .leave⟩
              | attempt rest => exact ⟨_, _, .done⟩
      | cons s todo =>
          cases s with
          | change a => exact ⟨_, _, .change⟩
          | block b body => exact ⟨_, _, .enter⟩
          | attempt body => exact ⟨_, _, .attempt⟩
          | raise => exact ⟨_, _, .raise⟩
  | unwind =>
      cases frames with
      | nil => exact absurd ⟨rfl, .inr rfl⟩ h
      | cons frame frames =>
          cases frame with
          | block outer rest => exact ⟨_, _, .unwind⟩
          | attempt rest => exact ⟨_, _, .caught⟩

/-- From every point there is a run to the end. -/
theorem exists_run_done (p : Point) : ∃ more q, Run p more q ∧ q.Done := by
  generalize hweight : p.weight = n
  induction n using Nat.strongRecOn generalizing p with
  | ind n ih =>
      by_cases hdone : p.Done
      · exact ⟨[], p, .refl, hdone⟩
      · obtain ⟨e, q, hstep⟩ := exists_step hdone
        obtain ⟨more, r, hmore, hr⟩ := ih q.weight (hweight ▸ weight_lt_of_step hstep) q rfl
        exact ⟨e.toList ++ more, r, .head hstep hmore, hr⟩

/-! ## Templates are scoped -/

/-- At every point of a run, the template in force for a code is the entry of the
innermost open block that has one, what the block gives by name going before what it
gives in its list, and an entry without a template standing for the default words;
where no open block has one, it is the template last set for all and not removed
since. However a block is left, the scope is again what it was before the block, and
the changes made inside hold on. Every run comes to an end, with no block open and the
scope of the start. -/
theorem templates_are_scoped (l : Layers) (script : List Statement) {past : List Event} {p : Point}
    (h : Run (start l script) past p) :
    (∀ code, p.layers.find? code = inForce l past code) ∧
    (∀ s code default details, p.layers.format s code default details =
      match inForce l past code with
      | some t => t.render s details
      | none => .ok default) ∧
    (∀ b inside raised q, Balanced inside → Run p (.entered b :: (inside ++ [.left raised])) q →
      q.layers.scope = p.layers.scope ∧ q.layers.catalog = replay p.layers.catalog inside) ∧
    ∃ more q, Run p more q ∧ q.Done ∧ openBlocks (past ++ more) = [] ∧
      q.layers.scope = l.scope := by
  have htold := told_of_run h
  refine ⟨htold.find?_eq, fun s code default details => ?_,
    fun b inside raised q hbalanced hrun => ?_, ?_⟩
  · unfold Layers.format Catalog.format
    rw [← htold.find?_eq code, Layers.find?]
    cases p.layers.catalog.find? p.layers.scope code <;> rfl
  · have hleft := told_of_run (h.trans hrun)
    have hopen : openBlocks (past ++ .entered b :: (inside ++ [.left raised])) =
        openBlocks past := by
      simp [openBlocks, hbalanced.track, track]
    have hcatalog : replay l.catalog (past ++ .entered b :: (inside ++ [.left raised])) =
        replay (replay l.catalog past) inside := by
      simp [replay, Event.update]
    exact ⟨by rw [hleft.scope, htold.scope, hopen], by rw [hleft.catalog, htold.catalog, hcatalog]⟩
  · obtain ⟨more, q, hrun, hdone⟩ := exists_run_done p
    have hend := told_of_run (h.trans hrun)
    have hopen : openBlocks (past ++ more) = [] := (hdone.1 ▸ hend.nested).eq_nil
    exact ⟨more, q, hrun, hdone, hopen, by rw [hend.scope, hopen]; rfl⟩

/-- A block that gives a template for `required` and none for `invalid_type`. -/
def outerBlock : Block where
  templates := [("required", some (.text "outer")), ("invalid_type", none)]

/-- A block that gives a template for `required` in its list and none by name. -/
def innerBlock : Block where
  templates := [("required", some (.text "listed"))]
  named := [("required", none)]

/-- What is raised in the inner block is caught in the outer one. -/
def raisedInside : List Statement :=
  [.change (.setAll [("required", some (.text "for all"))]),
   .block outerBlock
    [.attempt [.block innerBlock
      [.change (.set "invalid_type" (some (.text "for all"))), .raise, .change .clear]],
     .change (.remove "required")]]

/-- The events of `raisedInside` until it raises. -/
def untilRaised : List Event :=
  [.changed (.setAll [("required", some (.text "for all"))]), .entered outerBlock,
   .entered innerBlock, .changed (.set "invalid_type" (some (.text "for all")))]

/-- Until something is raised, both codes have no template; in the outer block one of
them has that of the block again; at the end the other has the one set inside. -/
theorem templates_are_scoped_raisedInside : ∃ raising caught ended,
    Run (start {} raisedInside) untilRaised raising ∧
    Run (start {} raisedInside) (untilRaised ++ [.left true]) caught ∧
    Run (start {} raisedInside)
      (untilRaised ++ [.left true, .changed (.remove "required"), .left false]) ended ∧
    ["required", "invalid_type"].map raising.layers.find? = [none, none] ∧
    ["required", "invalid_type"].map caught.layers.find? = [some (.text "outer"), none] ∧
    ["required", "invalid_type"].map ended.layers.find? = [none, some (.text "for all")] := by
  have hraising : Run (start {} raisedInside) untilRaised _ :=
    ((((Run.refl.tail .change).tail .enter).tail .attempt).tail .enter).tail .change
  have hcaught : Run (start {} raisedInside) (untilRaised ++ [.left true]) _ :=
    ((hraising.tail .raise).tail .unwind).tail .caught
  have hended : Run (start {} raisedInside)
      (untilRaised ++ [.left true, .changed (.remove "required"), .left false]) _ :=
    (hcaught.tail .change).tail .leave
  refine ⟨_, _, _, hraising, hcaught, hended, ?_, ?_, ?_⟩
  · simp only [List.map_cons, List.map_nil, (templates_are_scoped {} raisedInside hraising).1]
    rfl
  · simp only [List.map_cons, List.map_nil, (templates_are_scoped {} raisedInside hcaught).1]
    rfl
  · simp only [List.map_cons, List.map_nil, (templates_are_scoped {} raisedInside hended).1]
    rfl

end Script

end Conform
