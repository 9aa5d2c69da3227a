import Conform.Proofs.Carry

/-!
# Contexts are restored

A check goes down a path and looks into containers, and comes back from both
however it ends. Its errors are added behind those that were there, and once it
is noted that an answer had to be waited for, the note stays.

A container is taken out of the list of those that are being looked into by its
identity, not by its place in the list. That this undoes putting it in is due
to the test before: it was not in the list.

## Main results

* `check_restores_context` — every check leaves its context restored, by
  whatever value or fault it ends.
-/

namespace Conform

open Traverse

/-- The second context is the first one with errors added behind those of it,
and possibly the note that an answer had to be waited for. -/
structure Context.Restored (c c' : Context) : Prop where
  path : c'.path = c.path
  visited : c'.visited = c.visited
  errors : c.errors <+: c'.errors
  awaiting (h : c.awaiting = true) : c'.awaiting = true

namespace Context.Restored

variable {c c₁ c' : Context}

theorem refl (c : Context) : c.Restored c := ⟨rfl, rfl, List.prefix_refl _, id⟩

theorem trans (h : c.Restored c₁) (h' : c₁.Restored c') : c.Restored c' where
  path := h'.path.trans h.path
  visited := h'.visited.trans h.visited
  errors := h.errors.trans h'.errors
  awaiting hc := h'.awaiting (h.awaiting hc)

theorem addError (c : Context) (e : ErrorRecord) : c.Restored (c.addError e) :=
  ⟨rfl, rfl, List.prefix_append _ _, id⟩

theorem markAwaiting (c : Context) : c.Restored c.markAwaiting :=
  ⟨rfl, rfl, List.prefix_refl _, fun _ => rfl⟩

/-- One key further down, and up again. -/
theorem of_push {k : Key} (h : (c.push k).Restored c') : c.Restored c'.pop where
  path := by simp [pop, h.path]
  visited := h.visited
  errors := h.errors
  awaiting := h.awaiting

theorem of_mark {v : Value} (hfresh : c.hasVisited v = false) (h : (c.mark v).Restored c') :
    c.Restored (c'.unmark v) where
  path := by simpa using h.path
  visited := (visited_unmark_congr v h.visited).trans (c.unmark_mark v hfresh)
  errors := by simpa using h.errors
  awaiting hc := by simpa using h.awaiting (by simpa using hc)

/-- What was looked into in a copy does not matter outside. -/
theorem of_afresh (h : c.afresh.Restored c') : c.Restored (c.resume c') where
  path := h.path
  visited := rfl
  errors := h.errors
  awaiting := h.awaiting

/-- What was found on a fork does not come back with it. -/
theorem of_fork (fork : Context) :
    c.Restored { c with awaiting := c.awaiting || fork.awaiting } :=
  ⟨rfl, rfl, List.prefix_refl _, fun hc => by simp [hc]⟩

end Context.Restored

namespace Carry

variable {σ : Type}

/-- Checks restore their contexts. -/
def restoring (σ : Type) : Carry σ where
  rel c _ c' _ := c.Restored c'
  refl c _ := .refl c
  trans := .trans
  addError c _ := .addError c
  push := .of_push
  mark := .of_mark
  copy := .of_afresh
  fork _ := .of_fork _
  left {c _ _ _} _ := .refl c

/-- Nothing is asked of the host, for it does not get at contexts. -/
theorem restoring_settings (env : Setting σ) (mode : Mode) :
    (restoring σ).Settings env mode where
  resolve _ c _ := .refl c
  step _ _ c _ := .refl c
  ask id v c w := by
    rw [runIn_ask]
    rcases (env.test id v).runIn w with ⟨f | u | later, w₁⟩
    · exact .refl c
    · exact .refl c
    · cases mode with
      | immediate => exact .markAwaiting c
      | awaited =>
          simp only
          rcases later.runIn w₁ with ⟨f | u, w₂⟩ <;> exact .markAwaiting c

end Carry

theorem restored_addViolation {σ : Type} (env : Setting σ) (x : Violation) (c : Context)
    (w : World σ) : c.Restored ((Engine.addViolation env x).runIn c w).2.1 :=
  (Carry.carries_addViolation (K := Carry.restoring σ) x c w).1

/-- A check ends with its context restored: at the same place, looking into the
same containers, with the errors that were there in front of its own, and with
the note that an answer had to be waited for if it was there. This holds for
every schema, value, context and world, in both modes and at every depth, and
whether the check ends by a value, by the marker of a failed check, or by a
fault. -/
theorem check_restores_context {σ : Type} (env : Setting σ) (mode : Mode) (depth : Nat)
    (s : Schema) (v : Value) (c : Context) (w : World σ) :
    c.Restored ((check env mode depth s v).runIn c w).2.1 :=
  Carry.of_check (Carry.restoring_settings env mode) depth rfl

section Runs

variable {σ : Type} {env : Setting σ} {mode : Mode} {depth : Nat} {v : Value} {c c' : Context}
  {w w' : World σ}

theorem restored_of_check {s : Schema} {r : Except Fault Value}
    (h : (check env mode depth s v).runIn c w = (r, c', w')) : c.Restored c' :=
  Carry.of_check (Carry.restoring_settings env mode) depth h

theorem restored_of_checkFields {fields : Entries Schema}
    {r : Except Fault (Entries Value × Bool)}
    (h : (checkFields env (env.acceptsMissing depth) (check env mode depth) v
      fields).runIn c w = (r, c', w')) : c.Restored c' :=
  Carry.of_checkFields (Carry.restoring_settings env mode) depth h

theorem restored_of_firstItems {element : Schema} {n : Nat}
    {r : Except Fault (List Value × Bool)}
    (h : (firstItems (check env mode depth element) v n).runIn c w = (r, c', w')) :
    c.Restored c' :=
  Carry.of_firstItems (Carry.restoring_settings env mode) depth h

theorem restored_of_tryMembers {members : List Schema}
    {r : Except Fault (List Value × List (List ErrorRecord))}
    (h : (tryMembers (check env mode depth) v members).runIn c w = (r, c', w')) : c.Restored c' :=
  Carry.of_tryMembers (Carry.restoring_settings env mode) depth h

end Runs

end Conform
