import Conform.Proofs.Carry
import Conform.Proofs.Matching
import Conform.Proofs.Ruling

/-!
# E-mail addresses

The form of an address is a name, an at sign and a host with a point inside it. There is
one at sign, and nothing is blank.

The pattern that texts are matched with says almost that. It is followed here from the
start of a text to its end: a run, the at sign, a run, the point, a run. Its last anchor
also holds before a line break that ends the text, so what is matched is an address or an
address with such a line break.

## Main results

* `isAddress_iff` — an address is made of three runs.
* `isEmail_iff` — the texts that the pattern matches.
* `accepts_iff_address` — the check accepts addresses, and addresses with a line break at
  the end.
-/

namespace Conform

/-! ## The form of an address -/

/-- Something without blanks that has one at sign, with something before it, and behind it
a point that is neither the first nor the last character there. -/
structure IsAddress (cs : List Char) : Prop where
  noBlank : ∀ c ∈ cs, Text.isBlank c = false
  oneAt : cs.count '@' = 1
  parts : ∃ name host, cs = name ++ '@' :: host ∧ name ≠ [] ∧
    ∃ i, 0 < i ∧ i + 1 < host.length ∧ host[i]? = some '.'

/-- An address, or one with a line break behind it. -/
def IsAddressLine (cs : List Char) : Prop :=
  IsAddress cs ∨ ∃ front, IsAddress front ∧ cs = front ++ ['\n']

/-- Whether a character may stand in the parts of an address. -/
def isAddressChar (c : Char) : Bool := !Text.isBlank c && c != '@'

/-- A part of an address. -/
def IsAddressPart (cs : List Char) : Prop := cs ≠ [] ∧ ∀ c ∈ cs, isAddressChar c = true

theorem isAddressPart_singleton {c : Char} (h : isAddressChar c = true) : IsAddressPart [c] :=
  ⟨List.cons_ne_nil _ _, List.forall_mem_singleton.mpr h⟩

theorem IsAddressPart.count_at {cs : List Char} (h : IsAddressPart cs) : cs.count '@' = 0 := by
  refine List.count_eq_zero.mpr fun hat => ?_
  have hchar := h.2 '@' hat
  simp [isAddressChar] at hchar

theorem IsAddressPart.noBlank {cs : List Char} (h : IsAddressPart cs) {c : Char} (hc : c ∈ cs) :
    Text.isBlank c = false := by
  have hchar := h.2 c hc
  simp only [isAddressChar, Bool.and_eq_true, Bool.not_eq_true'] at hchar
  exact hchar.1

/-- An address is three parts with an at sign and a point between them. -/
theorem isAddress_iff (cs : List Char) :
    IsAddress cs ↔ ∃ name front back, cs = name ++ '@' :: (front ++ '.' :: back) ∧
      IsAddressPart name ∧ IsAddressPart front ∧ IsAddressPart back := by
  constructor
  · rintro ⟨hblank, hone, name, host, rfl, hname, i, hfirst, hlast, hpoint⟩
    rw [List.count_append, List.count_cons_self] at hone
    obtain ⟨hlt, hdot⟩ := List.getElem?_eq_some_iff.mp hpoint
    have hhost : host = host.take i ++ '.' :: host.drop (i + 1) := by
      rw [← hdot, List.getElem_cons_drop, List.take_append_drop]
    -- no part holds an at sign or a blank
    have hpart : ∀ {part : List Char}, part ≠ [] → part ⊆ name ++ '@' :: host →
        part.count '@' = 0 → IsAddressPart part := by
      intro part hsome hsub hnone
      refine ⟨hsome, fun c hc => ?_⟩
      have hat : c ≠ '@' := fun hat => List.count_eq_zero.mp hnone (hat ▸ hc)
      simp [isAddressChar, hblank c (hsub hc), hat]
    have hcount : host.count '@' =
        (host.take i).count '@' + (host.drop (i + 1)).count '@' := by
      rw [hhost, List.count_append, List.count_cons_of_ne (by decide), ← hhost]
    refine ⟨name, host.take i, host.drop (i + 1), by rw [← hhost], ?_, ?_, ?_⟩
    · exact hpart hname (List.subset_append_left _ _) (by omega)
    · refine hpart ?_ (fun c hc => ?_) (by omega)
      · rw [ne_eq, List.take_eq_nil_iff, not_or]
        refine ⟨by omega, fun hnil => ?_⟩
        rw [hnil] at hlt
        cases hlt
      · exact List.mem_append_right _ (List.mem_cons_of_mem _ (List.mem_of_mem_take hc))
    · refine hpart ?_ (fun c hc => ?_) (by omega)
      · rw [ne_eq, List.drop_eq_nil_iff]
        omega
      · exact List.mem_append_right _ (List.mem_cons_of_mem _ (List.mem_of_mem_drop hc))
  · rintro ⟨name, front, back, rfl, hname, hfront, hback⟩
    have hfrontSize := List.length_pos_iff.mpr hfront.1
    have hbackSize := List.length_pos_iff.mpr hback.1
    refine ⟨fun c hc => ?_, ?_, name, _, rfl, hname.1, front.length, hfrontSize, ?_, ?_⟩
    · simp only [List.mem_append, List.mem_cons] at hc
      rcases hc with hc | rfl | hc | rfl | hc
      · exact hname.noBlank hc
      · decide
      · exact hfront.noBlank hc
      · decide
      · exact hback.noBlank hc
    · simp [hname.count_at, hfront.count_at, hback.count_at]
    · simp only [List.length_append, List.length_cons]
      omega
    · simp

/-! ## Following the pattern through a text -/

namespace Pattern

variable {text : Array Char} {before rest : List Char} {q : Nat}

/-- The part of the pattern that a part of an address matches. -/
def addressPart : Node := .times (.oneOf true [.named false .space, .char '@']) 1 none

theorem takes_addressPart : addressPart.Takes {} IsAddressPart := by
  refine takes_repeated_set.congr fun cs => ?_
  have hset : matchesSet {} true [.named false .space, .char '@'] = isAddressChar := by
    funext c
    by_cases hat : c = '@' <;>
      simp [matchesSet, SetItem.holds, CharClass.holds, isAddressChar, hat]
  simp [hset, IsAddressPart, Nat.one_le_iff_ne_zero]

/-- From a place on, a character is matched, and the pattern goes on behind it. -/
theorem spans_seq_char_iff (htext : text.toList = before ++ rest) {a : Char} {n : Node} :
    (Node.seq (.char a) n).Spans {} text before.length q ↔
      ∃ after, rest = a :: after ∧ n.Spans {} text (before ++ [a]).length q := by
  rw [takes_char.spans_seq_iff htext]
  constructor
  · rintro ⟨_, after, hrest, rfl, h⟩
    exact ⟨after, hrest, h⟩
  · rintro ⟨after, hrest, h⟩
    exact ⟨[a], after, hrest, rfl, h⟩

end Pattern

open Pattern in
/-- What is matched is an address, or one with a line break at the end. -/
theorem isEmail_iff (s : String) :
    isEmail s = true ↔ IsAddressLine s.toList := by
  rw [isEmail, matchStart_iff]
  have htext : s.toList.toArray.toList = [] ++ s.toList := rfl
  generalize s.toList.toArray = text at htext
  have hstart : Anchor.holds {} text 0 .lineStart = true := by simp [Anchor.holds]
  constructor
  · rintro ⟨q, _, ⟨-, rfl⟩, h⟩
    -- the text is taken apart from its start on
    obtain ⟨name, r, hname, hnamePart, h⟩ := (takes_addressPart.spans_seq_iff htext).mp h
    have htext := htext.trans (hname ▸ (List.append_assoc _ _ _).symm)
    obtain ⟨r', rfl, h⟩ := (spans_seq_char_iff htext).mp h
    have htext := htext.trans (List.append_cons _ _ _)
    obtain ⟨front, r, rfl, hfrontPart, h⟩ := (takes_addressPart.spans_seq_iff htext).mp h
    have htext := htext.trans (List.append_assoc _ _ _).symm
    obtain ⟨r', rfl, h⟩ := (spans_seq_char_iff htext).mp h
    have htext := htext.trans (List.append_cons _ _ _)
    obtain ⟨back, r, rfl, hbackPart, hend, -⟩ := (takes_addressPart.spans_seq_iff htext).mp h
    have htext := htext.trans (List.append_assoc _ _ _).symm
    have haddress := (isAddress_iff _).mpr
      ⟨name, front, back, rfl, hnamePart, hfrontPart, hbackPart⟩
    rcases (lineEnd_holds_iff htext).mp hend with rfl | rfl
    · refine .inl ?_
      rw [hname]
      simpa using haddress
    · refine .inr ⟨_, haddress, ?_⟩
      rw [hname]
      simp
  · intro h
    obtain ⟨cs, last, haddress, hs, hlast⟩ : ∃ cs last, IsAddress cs ∧ s.toList = cs ++ last ∧
        (last = [] ∨ last = ['\n']) := by
      rcases h with h | ⟨cs, h, hs⟩
      · exact ⟨_, [], h, (List.append_nil _).symm, .inl rfl⟩
      · exact ⟨cs, _, h, hs, .inr rfl⟩
    obtain ⟨name, front, back, rfl, hname, hfront, hback⟩ := (isAddress_iff cs).mp haddress
    -- what is left of the text is named behind every piece of the pattern
    have hname' : s.toList = name ++ ('@' :: (front ++ '.' :: (back ++ last))) := by
      rw [hs]
      simp
    rw [hname'] at htext
    refine ⟨([] ++ name ++ ['@'] ++ front ++ ['.'] ++ back).length, 0, ⟨hstart, rfl⟩,
      (takes_addressPart.spans_seq_iff htext).mpr ⟨name, _, rfl, hname, ?_⟩⟩
    have htext := htext.trans (List.append_assoc _ _ _).symm
    refine (spans_seq_char_iff htext).mpr ⟨_, rfl, ?_⟩
    have htext := htext.trans (List.append_cons _ _ _)
    refine (takes_addressPart.spans_seq_iff htext).mpr ⟨front, _, rfl, hfront, ?_⟩
    have htext := htext.trans (List.append_assoc _ _ _).symm
    refine (spans_seq_char_iff htext).mpr ⟨_, rfl, ?_⟩
    have htext := htext.trans (List.append_cons _ _ _)
    refine (takes_addressPart.spans_seq_iff htext).mpr ⟨back, _, rfl, hback, ?_, rfl⟩
    exact (lineEnd_holds_iff (htext.trans (List.append_assoc _ _ _).symm)).mpr hlast

/-! ## The check -/

section Check

open Traverse Validate

/-- The only violation of a check for addresses alone is that the text has not the
form. -/
theorem judge?_email (words : Option String) (st : Store) (t : String) :
    (Schema.string { email := some ⟨(), words⟩ }).judge? st (.text t) =
      some (.ok (if isEmail t then .accepted (.text t) else
        .violated { code := .stringEmail, own := (Check.mk () words).own
                    words := .ok "Invalid email format" })) := by
  cases hform : isEmail t with
  | true =>
      simp [Schema.judge?, StringChecks.judge, Judgement.ofClauses, firstViolation, clause, hform]
  | false =>
      simp [Schema.judge?, StringChecks.judge, Judgement.ofClauses, firstViolation, clause, hform]

/-- The check for an address accepts exactly the addresses and the addresses with a line
break behind them, and gives them back as they are; on any context it finds no error
exactly for these. -/
theorem accepts_iff_address (words : Option String) :
    ∃ s, Schema.email (.string {}) words = .ok s ∧
      ∀ {σ : Type} (env : Setting σ) (mode : Mode) (depth : Nat) (t : String) (u : Value)
        (w w' : World σ),
        (∀ c c', (check env mode (depth + 1) s (.text t)).runIn c w = (.ok u, c', w') ∧
          c'.errors = c.errors ↔ IsAddressLine t.toList ∧ u = .text t ∧ c' = c ∧ w' = w) ∧
        ∀ entry, (validate { env with rules := [] } mode (depth + 1) entry s (.text t)).runIn w =
          (.ok (.accepted u), w') ↔ IsAddressLine t.toList ∧ u = .text t ∧ w' = w := by
  refine ⟨_, rfl, fun env mode depth t u w w' => ?_⟩
  have hjudged := judge?_email words w.store t
  rw [← isEmail_iff]
  exact ⟨fun c c' => check_finds_nothing_iff hjudged,
    fun entry => accepted_iff_of_judge? entry rfl rfl hjudged⟩

/-- With a line break behind an address, a text is accepted that is no address. -/
theorem address_before_line_break_accepted :
    ∃ s, Schema.email (.string {}) none = .ok s ∧
      (validate idleHost .immediate 1 .safeParse s (.text "a@b.c\n")).runIn { host := () } =
        (.ok (.accepted (.text "a@b.c\n")), { host := () }) ∧
      ¬ IsAddress "a@b.c\n".toList := by
  refine ⟨_, rfl, ?_, fun h => ?_⟩
  · have hform : isEmail "a@b.c\n" = true := (isEmail_iff _).mpr (.inr ⟨"a@b.c".toList,
      (isAddress_iff _).mpr ⟨['a'], ['b'], ['c'], rfl, isAddressPart_singleton rfl,
        isAddressPart_singleton rfl, isAddressPart_singleton rfl⟩, rfl⟩)
    exact (accepted_iff_of_judge? .safeParse rfl rfl (judge?_email none _ _)).mpr
      ⟨hform, rfl, rfl⟩
  · have hblank := h.noBlank '\n' (by decide)
    revert hblank
    decide

end Check

end Conform
