import Mathlib.Data.List.TakeWhile
import Conform.Message.Template

/-!
# Placeholders in a text template

A text template is gone through once, from left to right. Where a placeholder starts, it is
replaced or left as it is, and the search goes on behind it; anywhere else one character is
passed on. So a placeholder never starts in what another one was replaced by, and none is
found across the border of two pieces.

## Main definitions

* `Template.IsName` — the words that stand in placeholders.
* `Template.Segment` — a literal without braces, or a placeholder.

## Main results

* `Template.placeholder?_eq_some_iff` — where a placeholder starts.
* `Template.substitute_segment` — what one piece becomes, whatever stands behind it.
* `rendered_in_one_pass` — what a template made of pieces becomes, and which templates stay
  as they are.
-/

namespace Conform

namespace Template

/-! ## Where placeholders start -/

/-- A run of word characters. -/
def IsName (name : List Char) : Prop := name ≠ [] ∧ ∀ c ∈ name, Text.isWordChar c = true

instance (name : List Char) : Decidable (IsName name) :=
  -- the characters of the name are gone through, not all characters
  @instDecidableAnd _ _ inferInstance (List.decidableBAll _ name)

theorem isWordChar_brace : Text.isWordChar '\x7d' = false := by decide

variable {st : Store} {details : Details} {cs name rest : List Char}

theorem placeholder_append (name rest : List Char) :
    placeholder name ++ rest = '\x7b' :: '\x7b' :: (name ++ '\x7d' :: '\x7d' :: rest) := by
  simp [placeholder]

/-- Characters behind the opening braces are a name as long as they are word characters, so
there is one way only to read a placeholder. -/
theorem placeholder?_eq_some_iff :
    placeholder? cs = some (name, rest) ↔ IsName name ∧ cs = placeholder name ++ rest := by
  constructor
  · intro h
    unfold placeholder? at h
    split at h
    · rename_i behind
      dsimp only at h
      split at h
      · rename_i after hafter
        split at h
        · cases h
        · rename_i hname
          cases h
          refine ⟨⟨fun hnil => hname (by simp [hnil]), fun c hc => List.mem_takeWhile_imp hc⟩, ?_⟩
          have hsplit := List.takeWhile_append_dropWhile (p := Text.isWordChar) (l := behind)
          rw [hafter] at hsplit
          rw [placeholder_append, hsplit]
      · cases h
    · cases h
  · rintro ⟨⟨hne, hname⟩, rfl⟩
    rw [placeholder_append]
    have htake : (name ++ '\x7d' :: '\x7d' :: rest).takeWhile Text.isWordChar = name := by
      rw [List.takeWhile_append_of_pos hname,
        List.takeWhile_cons_of_neg (by simp [isWordChar_brace]),
        List.append_nil]
    have hdrop : (name ++ '\x7d' :: '\x7d' :: rest).dropWhile Text.isWordChar =
        '\x7d' :: '\x7d' :: rest := by
      rw [List.dropWhile_append_of_pos hname,
        List.dropWhile_cons_of_neg (by simp [isWordChar_brace])]
    simp [placeholder?, htake, hdrop, hne]

/-- No placeholder starts with anything but a brace. -/
theorem placeholder?_of_head {c : Char} (h : c ≠ '\x7b') : placeholder? (c :: cs) = none := by
  cases hp : placeholder? (c :: cs) with
  | none => rfl
  | some p =>
      obtain ⟨-, hcs⟩ := placeholder?_eq_some_iff.mp hp
      rw [placeholder_append, List.cons.injEq] at hcs
      exact absurd hcs.1 h

/-! ## One step of the pass -/

/-- The detail that replaces a placeholder: the one of its name, unless that is null. -/
def detail? (details : Option Details) (name : List Char) : Option Detail :=
  ((details.getD []).find? (.text (String.ofList name))).filter (!·.isNull)

/-- What a placeholder becomes, unless the detail cannot be written. -/
def filled (st : Store) (details : Option Details) (name : List Char) :
    Except Fault (List Char) :=
  match detail? details name with
  | some d => (Conform.written (d.isWritable st) (d.plain st)).map String.toList
  | none => .ok (placeholder name)

/-- What replaces a placeholder is the plain text of its detail. -/
theorem filled_of_writable {details : Option Details} {d : Detail}
    (h : detail? details name = some d) (hwritable : d.isWritable st = true) :
    filled st details name = .ok (d.plain st).toList := by
  rw [filled, h]
  simp [hwritable, Except.map]

theorem replacement_eq (st : Store) (details : Details) (name : List Char) :
    replacement st details name = filled st (some details) name := by
  unfold replacement filled detail?
  rw [Option.getD_some]
  cases details.find? (.text (String.ofList name)) with
  | none => rfl
  | some d => cases hnull : d.isNull <;> simp [Option.filter, hnull]

@[simp] theorem substitute_nil (st : Store) (details : Details) :
    substitute st details [] = .ok [] := by
  rw [substitute]
  rfl

/-- A placeholder is replaced, and the pass goes on behind it. -/
theorem substitute_placeholder (hname : IsName name) :
    substitute st details (placeholder name ++ rest) = do
      return (← filled st (some details) name) ++ (← substitute st details rest) := by
  rw [substitute]
  split
  · rename_i name' rest' h
    obtain ⟨rfl, rfl⟩ : name' = name ∧ rest' = rest := by
      simpa using h.symm.trans (placeholder?_eq_some_iff.mpr ⟨hname, rfl⟩)
    rw [replacement_eq]
  · rename_i h
    rw [placeholder?_eq_some_iff.mpr ⟨hname, rfl⟩] at h
    cases h

/-- Where no placeholder starts, one character is passed on. -/
theorem substitute_cons {c : Char} (h : placeholder? (c :: cs) = none) :
    substitute st details (c :: cs) = (c :: ·) <$> substitute st details cs := by
  rw [substitute]
  split
  · rename_i hsome
    rw [h] at hsome
    cases hsome
  · rfl

/-! ## Pieces -/

/-- A piece of a template. -/
inductive Segment where
  | literal (cs : List Char)
  | placeholder (name : List Char)

namespace Segment

/-- A literal has no braces, and a placeholder has a name. -/
def WellFormed : Segment → Prop
  | literal cs => '\x7b' ∉ cs ∧ '\x7d' ∉ cs
  | placeholder name => IsName name

instance : (s : Segment) → Decidable s.WellFormed
  | literal cs => inferInstanceAs (Decidable (_ ∉ cs ∧ _ ∉ cs))
  | placeholder name => inferInstanceAs (Decidable (IsName name))

/-- The characters of a piece. -/
def written : Segment → List Char
  | literal cs => cs
  | placeholder name => Template.placeholder name

/-- What becomes of a piece. -/
def rendered (st : Store) (details : Option Details) : Segment → Except Fault (List Char)
  | literal cs => .ok cs
  | placeholder name => filled st details name

end Segment

theorem substitute_literal (h : '\x7b' ∉ cs) (rest : List Char) :
    substitute st details (cs ++ rest) = (cs ++ ·) <$> substitute st details rest := by
  induction cs with
  | nil => simp
  | cons c cs ih =>
      rw [List.mem_cons, not_or] at h
      rw [List.cons_append, substitute_cons (placeholder?_of_head (Ne.symm h.1)), ih h.2,
        Functor.map_map]
      rfl

/-- What one piece becomes does not hang on what stands behind it. -/
theorem substitute_segment {s : Segment} (h : s.WellFormed) (rest : List Char) :
    substitute st details (s.written ++ rest) = do
      return (← s.rendered st (some details)) ++ (← substitute st details rest) := by
  cases s with
  | literal cs =>
      rw [Segment.written, substitute_literal h.1 rest, map_eq_pure_bind]
      rfl
  | placeholder name => exact substitute_placeholder h

theorem substitute_segments {segments : List Segment} (h : ∀ s ∈ segments, s.WellFormed) :
    substitute st details (segments.flatMap Segment.written) =
      List.flatten <$> segments.mapM (Segment.rendered st (some details)) := by
  induction segments with
  | nil => exact substitute_nil st details
  | cons s segments ih =>
      obtain ⟨hs, hrest⟩ := List.forall_mem_cons.mp h
      rw [List.flatMap_cons, substitute_segment hs, ih hrest]
      simp

/-- What holds no placeholder with a detail stays as it is. -/
theorem substitute_eq_self (h : ∀ before name after, cs = before ++ placeholder name ++ after →
    IsName name → detail? (some details) name = none) :
    substitute st details cs = .ok cs := by
  fun_induction substitute st details cs with
  | case1 cs name rest hp _ ih =>
      obtain ⟨hname, hcs⟩ := placeholder?_eq_some_iff.mp hp
      have hnone := h [] name rest hcs hname
      have hrest := ih fun before name' after hrest => h (placeholder name ++ before) name' after
        (by rw [hcs, hrest, List.append_assoc, List.append_assoc, List.append_assoc])
      rw [replacement_eq, filled, hnone, hrest, hcs]
      rfl
  | case2 => rfl
  | case3 c rest hp ih =>
      rw [ih fun before name after hrest =>
        h (c :: before) name after (by rw [hrest]; rfl)]
      rfl

/-- Rendering is the pass, also where there are no details: then it changes nothing. -/
theorem render_text_eq (st : Store) (details : Option Details) (t : String) :
    (Template.text t).render st details =
      (substitute st (details.getD []) t.toList).map String.ofList := by
  have hnone : substitute st [] t.toList = .ok t.toList :=
    substitute_eq_self fun _ _ _ _ _ => rfl
  rcases details with _ | _ | ⟨d, ds⟩
  · simp [render, hnone, Except.map]
  · simp [render, hnone, Except.map]
  · rfl

end Template

open Template

/-- A text template made of literals and placeholders is rendered piece by piece: literals as
they are, and a placeholder by the plain text of the detail of its name, if there is one that
is not null, however it looks; other placeholders stay. Only a detail that cannot be written
ends the pass. And any text in which no placeholder has such a detail stays as it is. -/
theorem rendered_in_one_pass (st : Store) (details : Option Details) :
    (∀ segments : List Segment, (∀ s ∈ segments, s.WellFormed) →
      (Template.text (String.ofList (segments.flatMap Segment.written))).render st details =
        (fun pieces => String.ofList pieces.flatten) <$>
          segments.mapM (Segment.rendered st details)) ∧
    ∀ t : String, (∀ before name after, t.toList = before ++ placeholder name ++ after →
        IsName name → detail? details name = none) →
      (Template.text t).render st details = .ok t := by
  -- to look for a detail, no details are as good as none at all
  have hfilled : Segment.rendered st details = Segment.rendered st (some (details.getD [])) := by
    funext s
    cases s <;> rfl
  refine ⟨fun segments h => ?_, fun t h => ?_⟩
  · rw [render_text_eq, String.toList_ofList, substitute_segments h, hfilled]
    show String.ofList <$> List.flatten <$> segments.mapM (m := Except Fault) _ = _
    rw [Functor.map_map]
  · have hstays : substitute st (details.getD []) t.toList = .ok t.toList :=
      substitute_eq_self h
    rw [render_text_eq, hstays, Except.map, String.ofList_toList]

/-- Details of which one looks like a placeholder, one counts as false, and one is null. -/
def nestedDetails : Details :=
  [(.text "a", .value (.text "\x7b\x7bb\x7d\x7d")), (.text "b", .value (.int 0)),
    (.text "c", .value .null)]

/-- What the first placeholder becomes is not looked at again, the second one is replaced by
what counts as false, and the third one stays. So does one between single braces. -/
theorem rendered_in_one_pass_nested :
    (Template.text "\x7b\x7ba\x7d\x7d\x7b\x7bb\x7d\x7d, \x7b\x7bc\x7d\x7d").render {}
        (some nestedDetails) =
      .ok "\x7b\x7bb\x7d\x7d0, \x7b\x7bc\x7d\x7d" ∧
    (Template.text "\x7b\x7b\x7bc\x7d\x7d\x7d").render {} (some [(.text "c", .value .null)]) =
      .ok "\x7b\x7b\x7bc\x7d\x7d\x7d" := by
  constructor
  · have hpieces := (rendered_in_one_pass {} (some nestedDetails)).1
      [.placeholder ['a'], .placeholder ['b'], .literal [',', ' '], .placeholder ['c']] (by decide)
    have ha : filled {} (some nestedDetails) ['a'] = .ok "\x7b\x7bb\x7d\x7d".toList := by
      rw [filled_of_writable rfl (by decide +kernel)]
      exact congrArg Except.ok (by decide +kernel)
    have hb : filled {} (some nestedDetails) ['b'] = .ok ['0'] := by
      rw [filled_of_writable rfl (by decide +kernel)]
      exact congrArg Except.ok (by decide +kernel)
    rw [List.mapM_cons, Segment.rendered, ha, List.mapM_cons, Segment.rendered, hb] at hpieces
    exact hpieces
  · refine (rendered_in_one_pass {} (some [(.text "c", .value .null)])).2 _
      fun _ name _ _ _ => ?_
    simp only [detail?, Option.getD_some, Entries.find?]
    split <;> rfl

end Conform
