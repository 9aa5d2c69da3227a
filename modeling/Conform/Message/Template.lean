import Conform.Fault
import Conform.Text.Word

/-!
# Message templates

A template gives the words of an error. A text template may hold
placeholders, a word between double braces; a placeholder is replaced by
the plain text of the detail of that name. A computed template is a
function of the details.

Substitution is one pass from left to right: what a placeholder is replaced
by is not looked at again. A placeholder without a detail, or whose detail
is null, stays as it is. A detail that is not written ends the pass.

It is taken for granted that a computed template only computes: it looks at
the details and at the containers they refer to, and changes nothing.
-/

namespace Conform

/-- Where the words of an error come from. -/
inductive Template where
  | text (s : String)
  | computed (f : Store → Option Details → Except Fault String)

namespace Template

/-- The name in a placeholder that starts a text, and the text after it. -/
def placeholder? : List Char → Option (List Char × List Char)
  | '\x7b' :: '\x7b' :: cs =>
    let name := cs.takeWhile Text.isWordChar
    match cs.dropWhile Text.isWordChar with
    | '\x7d' :: '\x7d' :: rest => if name.isEmpty then none else some (name, rest)
    | _ => none
  | _ => none

/-- What is left after a placeholder is shorter. -/
theorem length_lt_of_placeholder? {cs name rest : List Char}
    (h : placeholder? cs = some (name, rest)) : rest.length < cs.length := by
  unfold placeholder? at h
  split at h
  · rename_i cs'
    dsimp only at h
    split at h
    · rename_i r hr
      split at h
      · simp at h
      · simp only [Option.some.injEq, Prod.mk.injEq] at h
        have : (cs'.dropWhile Text.isWordChar).length ≤ cs'.length :=
          (List.dropWhile_sublist _).length_le
        rw [hr] at this
        rw [← h.2]
        simp only [List.length_cons] at this ⊢
        omega
    · simp at h
  · simp at h

/-- The placeholder of a name. -/
def placeholder (name : List Char) : List Char := '\x7b' :: '\x7b' :: name ++ ['\x7d', '\x7d']

/-- What stands for a placeholder: the text of its detail, or the placeholder
itself. -/
def replacement (s : Store) (details : Details) (name : List Char) : Except Fault (List Char) :=
  match details.find? (.text (String.ofList name)) with
  | some d =>
    if d.isNull then .ok (placeholder name)
    else (written (d.isWritable s) (d.plain s)).map String.toList
  | none => .ok (placeholder name)

/-- A text with its placeholders replaced. -/
def substitute (s : Store) (details : Details) (cs : List Char) : Except Fault (List Char) :=
  match h : placeholder? cs with
  | some (name, rest) => do
    have := length_lt_of_placeholder? h
    let text ← replacement s details name
    return text ++ (← substitute s details rest)
  | none =>
    match cs with
    | [] => .ok []
    | c :: rest => do return c :: (← substitute s details rest)
termination_by cs.length

/-- The words of a template for given details. Without details, a text
template is used as it is. -/
def render (s : Store) (details : Option Details) : Template → Except Fault String
  | computed f => f s details
  | text t =>
    match details with
    | none => .ok t
    | some [] => .ok t
    | some ds => (substitute s ds t.toList).map String.ofList

end Template

end Conform
