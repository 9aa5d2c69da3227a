import Mathlib.Data.List.TakeWhile
import Mathlib.Order.Nat
import Conform.Proofs.Language

/-!
# What patterns take from a text

A set of characters that is repeated matches the runs of its characters, as long as the
repetition allows. Nodes without anchors look at nothing but what they pass: wherever they
stand in a text, their matches are the texts of one language. So the language of a pattern
is put together from those of its parts, like the pattern.

## Main definitions

* `Node.Takes` — a node matches the texts of a language, wherever they stand.

## Main results

* `spans_set_iff` — the matches of a repeated set.
* `Node.Takes.seq`, `Node.Takes.alt`, `Node.Takes.optional` — how languages are put
  together.
* `Node.Takes.spans_seq_iff` — how a pattern is followed through a text.
* `fullMatch_iff` — a pattern matches a whole text exactly if the text is in its language.
-/

namespace Conform

namespace Pattern

/-! ## Runs -/

section Runs

variable {f : Flags} {text : Array Char} {accepts : Char → Bool} {p q : Nat}

/-- All characters between two places are accepted. -/
def Runs (text : Array Char) (accepts : Char → Bool) (p q : Nat) : Prop :=
  p ≤ q ∧ ∀ i, p ≤ i → i < q → text[i]?.any accepts = true

/-- Passing characters one after another is passing a run of them. -/
theorem rounds_pass_iff {k : Nat} :
    Rounds (fun p q => text[p]?.any accepts = true ∧ q = p + 1) k p q ↔
      q = p + k ∧ Runs text accepts p q := by
  induction k generalizing p with
  | zero =>
      refine ⟨fun h => ⟨h, h.ge, fun i hi hlt => ?_⟩, And.left⟩
      have h : q = p := h
      omega
  | succ k ih =>
      constructor
      · rintro ⟨x, ⟨hone, rfl⟩, hrest⟩
        obtain ⟨rfl, -, hrun⟩ := ih.mp hrest
        refine ⟨by omega, by omega, fun i hi hlt => ?_⟩
        rcases hi.eq_or_lt with rfl | hlater
        · exact hone
        · exact hrun i hlater hlt
      · rintro ⟨rfl, -, hrun⟩
        refine ⟨p + 1, ⟨hrun p le_rfl (by omega), rfl⟩, ih.mpr ⟨by omega, by omega, ?_⟩⟩
        exact fun i hi hlt => hrun i (by omega) hlt

/-- A set that is repeated matches the runs of its characters, within its bounds. -/
theorem spans_set_iff {negated : Bool} {items : List SetItem} {least : Nat} {most : Option Nat} :
    (Node.times (.oneOf negated items) least most).Spans f text p q ↔
      p + least ≤ q ∧ (∀ m, most = some m → q ≤ p + max least m) ∧
        Runs text (matchesSet f negated items) p q := by
  constructor
  · rintro ⟨k, hleast, hmost, hrounds⟩
    obtain ⟨rfl, hrun⟩ := rounds_pass_iff.mp hrounds
    exact ⟨by omega, fun m hm => by have hk := hmost m hm; omega, hrun⟩
  · rintro ⟨hleast, hmost, hrun⟩
    have hle := hrun.1
    refine ⟨q - p, by omega, fun m hm => ?_, rounds_pass_iff.mpr ⟨by omega, hrun⟩⟩
    have hq := hmost m hm
    omega

/-- Characters that stand in a row in a text are a run. -/
theorem runs_of_append {accepts : Char → Bool} {before run after : List Char}
    (htext : text.toList = before ++ run ++ after) (hrun : ∀ c ∈ run, accepts c = true) :
    Runs text accepts before.length (before.length + run.length) := by
  refine ⟨Nat.le_add_right _ _, fun i hi hlt => ?_⟩
  have hin : i - before.length < run.length := by omega
  have hget : text[i]? = some run[i - before.length] := by
    rw [← Array.getElem?_toList, htext, List.append_assoc, List.getElem?_append_right hi,
      List.getElem?_append_left hin, List.getElem?_eq_getElem hin]
  rw [hget]
  exact hrun _ (List.getElem_mem hin)

variable {before rest : List Char}

/-- A run takes away what it passes. -/
theorem Runs.exists_append (htext : text.toList = before ++ rest)
    (h : Runs text accepts before.length q) :
    ∃ run after, rest = run ++ after ∧ q = before.length + run.length ∧
      ∀ c ∈ run, accepts c = true := by
  obtain ⟨hle, hrun⟩ := h
  have hget : ∀ i, text[before.length + i]? = rest[i]? := by
    intro i
    rw [← Array.getElem?_toList, htext, List.getElem?_append_right (Nat.le_add_right _ _),
      Nat.add_sub_cancel_left]
  have haccepted : ∀ i, i < q - before.length → rest[i]?.any accepts = true := by
    intro i hi
    rw [← hget]
    exact hrun _ (Nat.le_add_right _ _) (by omega)
  have hlong : q - before.length ≤ rest.length := by
    by_contra hshort
    have hout := haccepted rest.length (by omega)
    rw [List.getElem?_eq_none le_rfl] at hout
    cases hout
  refine ⟨rest.take (q - before.length), rest.drop (q - before.length),
    (List.take_append_drop _ _).symm, ?_, fun c hc => ?_⟩
  · rw [List.length_take]
    omega
  · obtain ⟨i, hi, rfl⟩ := List.mem_iff_getElem.mp hc
    rw [List.length_take] at hi
    have hone := haccepted i (by omega)
    rw [List.getElem?_eq_getElem (by omega)] at hone
    rwa [List.getElem_take]

/-- The character at a place is the first of what is left there. -/
theorem any_getElem?_iff (htext : text.toList = before ++ rest) :
    text[before.length]?.any accepts = true ↔ ∃ c after, rest = c :: after ∧ accepts c = true := by
  rw [← Array.getElem?_toList, htext, List.getElem?_append_right le_rfl, Nat.sub_self]
  cases rest with
  | nil => simp
  | cons c after => simp

/-- The end of a line, without the flag, is where nothing is left or one last line
break. -/
theorem lineEnd_holds_iff (htext : text.toList = before ++ rest) :
    Anchor.holds {} text before.length .lineEnd = true ↔ rest = [] ∨ rest = ['\n'] := by
  have hsize : text.size = before.length + rest.length := by
    rw [← Array.length_toList, htext, List.length_append]
  have hget : text[before.length]? = rest.head? := by
    rw [← Array.getElem?_toList, htext, List.getElem?_append_right le_rfl, Nat.sub_self,
      List.head?_eq_getElem?]
  simp only [Anchor.holds, hsize, hget, Bool.false_and, Bool.or_false, Bool.or_eq_true,
    Bool.and_eq_true, decide_eq_true_eq]
  cases rest with
  | nil => simp
  | cons c after => cases after <;> simp

end Runs

/-! ## Languages of nodes -/

/-- A node matches the texts of a language, wherever they stand: from any place on, a match
takes one of them away from what is left of the text. -/
def Node.Takes (f : Flags) (n : Node) (L : List Char → Prop) : Prop :=
  ∀ ⦃text : Array Char⦄ ⦃before rest : List Char⦄, text.toList = before ++ rest → ∀ q,
    n.Spans f text before.length q ↔
      ∃ run after, rest = run ++ after ∧ L run ∧ q = (before ++ run).length

section Languages

variable {f : Flags} {r s : Node} {L M : List Char → Prop}

theorem Node.Takes.congr (hr : r.Takes f L) (h : ∀ cs, L cs ↔ M cs) : r.Takes f M := by
  obtain rfl : L = M := funext fun cs => propext (h cs)
  exact hr

/-- One character of a set. -/
theorem takes_set {negated : Bool} {items : List SetItem} :
    (Node.oneOf negated items).Takes f
      fun cs => ∃ c, cs = [c] ∧ matchesSet f negated items c = true := by
  intro text before rest htext q
  rw [Node.Spans, any_getElem?_iff htext]
  constructor
  · rintro ⟨⟨c, after, rfl, hc⟩, rfl⟩
    exact ⟨[c], after, rfl, ⟨c, rfl, hc⟩, by simp⟩
  · rintro ⟨-, after, rfl, ⟨c, rfl, hc⟩, rfl⟩
    exact ⟨⟨c, after, rfl, hc⟩, by simp⟩

/-- One character that stands for itself. -/
theorem takes_char {a : Char} : (Node.char a).Takes {} fun cs => cs = [a] := by
  intro text before rest htext q
  rw [Node.Spans, any_getElem?_iff htext]
  constructor
  · rintro ⟨⟨c, after, rfl, hc⟩, rfl⟩
    obtain rfl : c = a := of_decide_eq_true hc
    exact ⟨[c], after, rfl, rfl, by simp⟩
  · rintro ⟨-, after, rfl, rfl, rfl⟩
    exact ⟨⟨a, after, rfl, decide_eq_true rfl⟩, by simp⟩

/-- Characters of a set, at least so many and perhaps no more than so many. -/
theorem takes_repeated_set {negated : Bool} {items : List SetItem} {least : Nat}
    {most : Option Nat} :
    (Node.times (.oneOf negated items) least most).Takes f fun cs => least ≤ cs.length ∧
      (∀ m, most = some m → cs.length ≤ max least m) ∧
        ∀ c ∈ cs, matchesSet f negated items c = true := by
  intro text before rest htext q
  rw [spans_set_iff]
  constructor
  · rintro ⟨hleast, hmost, hrun⟩
    obtain ⟨run, after, hrest, rfl, hchars⟩ := hrun.exists_append htext
    refine ⟨run, after, hrest, ⟨by omega, fun m hm => ?_, hchars⟩, List.length_append.symm⟩
    have hq := hmost m hm
    omega
  · rintro ⟨run, after, rfl, ⟨hleast, hmost, hchars⟩, rfl⟩
    rw [List.length_append]
    refine ⟨by omega, fun m hm => ?_, ?_⟩
    · have hlength := hmost m hm
      omega
    · exact runs_of_append (by rw [htext, List.append_assoc]) hchars

/-- How a pattern is followed through a text: what its first part takes is behind the place
where it goes on. -/
theorem Node.Takes.spans_seq_iff (hr : r.Takes f L) {text : Array Char} {before rest : List Char}
    (htext : text.toList = before ++ rest) {q : Nat} :
    (Node.seq r s).Spans f text before.length q ↔
      ∃ run after, rest = run ++ after ∧ L run ∧ s.Spans f text (before ++ run).length q := by
  constructor
  · rintro ⟨x, hfirst, hsecond⟩
    obtain ⟨run, after, hrest, hrun, rfl⟩ := (hr htext x).mp hfirst
    exact ⟨run, after, hrest, hrun, hsecond⟩
  · rintro ⟨run, after, hrest, hrun, hsecond⟩
    exact ⟨_, (hr htext _).mpr ⟨run, after, hrest, hrun, rfl⟩, hsecond⟩

/-- One text of a language behind one of another. -/
theorem Node.Takes.seq (hr : r.Takes f L) (hs : s.Takes f M) :
    (Node.seq r s).Takes f fun cs => ∃ as bs, cs = as ++ bs ∧ L as ∧ M bs := by
  intro text before rest htext q
  rw [hr.spans_seq_iff htext]
  constructor
  · rintro ⟨as, more, rfl, has, hsecond⟩
    have htext' : text.toList = before ++ as ++ more := by rw [htext, List.append_assoc]
    obtain ⟨bs, after, rfl, hbs, rfl⟩ := (hs htext' q).mp hsecond
    exact ⟨as ++ bs, after, (List.append_assoc ..).symm, ⟨as, bs, rfl, has, hbs⟩,
      by rw [List.append_assoc]⟩
  · rintro ⟨-, after, rfl, ⟨as, bs, rfl, has, hbs⟩, rfl⟩
    have htext' : text.toList = before ++ as ++ (bs ++ after) := by
      rw [htext, List.append_assoc, List.append_assoc]
    exact ⟨as, bs ++ after, List.append_assoc .., has,
      (hs htext' _).mpr ⟨bs, after, rfl, hbs, by rw [List.append_assoc]⟩⟩

/-- A text of one of two languages. -/
theorem Node.Takes.alt (hr : r.Takes f L) (hs : s.Takes f M) :
    (Node.alt r s).Takes f fun cs => L cs ∨ M cs := by
  intro text before rest htext q
  simp only [Node.Spans, hr htext, hs htext, or_and_right, and_or_left, exists_or]

/-- A text of a language, or nothing. -/
theorem Node.Takes.optional (hr : r.Takes f L) :
    (Node.times r 0 (some 1)).Takes f fun cs => cs = [] ∨ L cs := by
  intro text before rest htext q
  have hrounds : (Node.times r 0 (some 1)).Spans f text before.length q ↔
      q = before.length ∨ r.Spans f text before.length q := by
    constructor
    · rintro ⟨k, -, hmost, hk⟩
      rcases Nat.le_one_iff_eq_zero_or_eq_one.mp (hmost 1 rfl) with rfl | rfl
      · exact .inl hk
      · obtain ⟨x, hone, rfl⟩ := hk
        exact .inr hone
    · rintro (h | h)
      · exact ⟨0, le_rfl, fun _ _ => Nat.zero_le _, h⟩
      · refine ⟨1, Nat.zero_le _, fun m hm => ?_, q, h, rfl⟩
        cases hm
        exact le_rfl
  rw [hrounds, hr htext]
  simp only [or_and_right, and_or_left, exists_or]
  refine or_congr_left ?_
  constructor
  · rintro rfl
    exact ⟨[], rest, rfl, rfl, by rw [List.append_nil]⟩
  · rintro ⟨-, after, -, rfl, rfl⟩
    rw [List.append_nil]

end Languages

/-! ## Whole texts -/

/-- A pattern matches a whole text exactly if the text is in its language. -/
theorem fullMatch_iff {p : Pattern} {L : List Char → Prop} (hp : p.node.Takes p.flags L)
    (s : String) : p.fullMatch s = true ↔ L s.toList := by
  have htext : s.toList.toArray.toList = [] ++ s.toList := rfl
  rw [fullMatch, List.contains_iff_mem,
    (follows_reach p.flags s.toList.toArray p.node).mem_iff (List.pairwise_singleton _ _)
      (by simp)]
  simp only [List.mem_singleton, exists_eq_left]
  rw [← List.length_nil, hp htext]
  constructor
  · rintro ⟨run, after, hsplit, hrun, hlength⟩
    have hnone : after = [] := by
      rw [hsplit] at hlength
      simpa using hlength
    rw [hsplit, hnone, List.append_nil]
    exact hrun
  · intro h
    exact ⟨s.toList, [], (List.append_nil _).symm, h, by simp⟩

/-- A pattern that starts with the anchor of a line is found where it has a match from the
start of the text. -/
theorem search_lineStart_iff (source : String) (n : Node) (s : String) :
    (⟨source, {}, .seq (.anchor .lineStart) n⟩ : Pattern).search s = true ↔
      ∃ q, n.Spans {} s.toList.toArray 0 q := by
  rw [search_iff]
  constructor
  · rintro ⟨p, q, -, x, ⟨hstart, rfl⟩, h⟩
    obtain rfl : x = 0 := by simpa [Anchor.holds] using hstart
    exact ⟨q, h⟩
  · rintro ⟨q, h⟩
    exact ⟨0, q, Nat.zero_le _, 0, ⟨by simp [Anchor.holds], rfl⟩, h⟩

end Pattern

end Conform
