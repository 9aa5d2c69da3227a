import Conform.Value.Basic

/-!
# Merging values

Two results for one value are merged if they do not contradict each other:
mappings key by key, sequences of one length item by item, and atoms of one
kind that are equal. A missing value adds nothing. Anything else is a
conflict, reported at the path where the two sides differ first.

No side has precedence. The merged value keeps the order of the left
mapping, with the new keys of the right one after it.

As shared containers may hold each other, merging is given a depth.
-/

namespace Conform

/-- Why two values were not merged. -/
inductive MergeFailure where
  /-- The two sides contradict each other at a path. -/
  | conflict (path : Path) (left right : Value)
  /-- The values are deeper than the given depth. -/
  | tooDeep

/-- Merges the right entries into the left ones, given how values are merged
at a key. `left` stays as it was at first, for looking up. -/
def mergeEntries (merge : Key → Value → Value → Except MergeFailure Value)
    (left merged : Entries Value) : Entries Value → Except MergeFailure (Entries Value)
  | [] => .ok merged
  | (k, v) :: rest =>
    match left.find? k with
    | none => mergeEntries merge left (merged.put k v) rest
    | some u =>
      match merge k u v with
      | .ok m => mergeEntries merge left (merged.put k m) rest
      | .error f => .error f

/-- Merges two runs of items from a place on, given how values are merged at
a place. -/
def mergeItems (merge : Nat → Value → Value → Except MergeFailure Value) :
    Nat → List Value → List Value → Except MergeFailure (List Value)
  | i, u :: us, v :: vs =>
    match merge i u v with
    | .ok m =>
      match mergeItems merge (i + 1) us vs with
      | .ok ms => .ok (m :: ms)
      | .error f => .error f
    | .error f => .error f
  | _, _, _ => .ok []

/-- Merges two values at a path, followed to a depth. -/
def mergeValues (st : Store) : Nat → Path → Value → Value → Except MergeFailure Value
  | 0, _, _, _ => .error .tooDeep
  | depth + 1, path, u, v =>
    match u, v with
    | .missing, v => .ok v
    | u, .missing => .ok u
    | .atom a, .atom b => if a.sameKind b then .ok u else .error (.conflict path u v)
    | u, v =>
      match st.entries? u, st.entries? v with
      | some es, some fs =>
        (mergeEntries (fun k => mergeValues st depth (path ++ [k])) es es fs).map
          (.mapping false)
      | _, _ =>
        match st.items? u, st.items? v with
        | some us, some vs =>
          if us.length = vs.length then
            (mergeItems (fun i => mergeValues st depth (path ++ [.index i])) 0 us vs).map .list
          else .error (.conflict path u v)
        | _, _ => .error (.conflict path u v)

/-- What is missing on the left adds nothing. -/
@[simp] theorem mergeValues_missing_left (st : Store) (depth : Nat) (path : Path) (v : Value) :
    mergeValues st (depth + 1) path .missing v = .ok v := by
  simp [mergeValues]

/-- What is missing on the right adds nothing. -/
@[simp] theorem mergeValues_missing_right (st : Store) (depth : Nat) (path : Path) (u : Value) :
    mergeValues st (depth + 1) path u .missing = .ok u := by
  unfold mergeValues
  split <;> simp_all

end Conform
