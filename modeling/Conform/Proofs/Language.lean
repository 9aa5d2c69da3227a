import Mathlib.Data.List.TakeWhile
import Mathlib.Order.Nat
import Mathlib.Tactic.Tauto
import Conform.Pattern.Basic

/-!
# The language of a pattern

What a pattern matches is a relation between places: from where a match starts to where
it may end. `Node.Spans` says so for each way of putting patterns together, a repetition
being any number of rounds between its bounds.

The search goes another way. It keeps ascending lists of places, looks at each place of a
repetition once, and never runs more rounds than there are places. It loses nothing by
that: a path with more rounds than places stays at one of them for a round, and that
round may be left out or made twice.

## Main results

* `mem_union`, `mem_without` — the operations on ascending lists.
* `mem_closure_iff` — a closure holds what some rounds lead to.
* `mem_reach_iff` — a node reaches the places that its matches end at, and no others.
* `search_iff`, `matchStart_iff` — a pattern is found exactly if it has a match.
-/

namespace Conform

namespace Pattern

/-! ## Ascending lists -/

section Ascending

variable {ps qs seen fresh : List Nat} {p q x : Nat}

/-- Places in ascending order, each once. -/
abbrev Ascending (ps : List Nat) : Prop := ps.Pairwise (· < ·)

/-- What is not below a place starts with the place, or all of it is above. -/
theorem dropWhile_below (hqs : Ascending qs) :
    (∃ tail, qs.dropWhile (· < p) = p :: tail ∧ ∀ x ∈ tail, p < x) ∨
      (qs.dropWhile (· < p)).head? ≠ some p ∧ ∀ x ∈ qs.dropWhile (· < p), p < x := by
  have hrest : Ascending (qs.dropWhile (· < p)) := hqs.sublist (List.dropWhile_sublist _)
  have hfirst : ∀ q ∈ (qs.dropWhile (· < p)).head?, p ≤ q := by
    intro q hq
    have hnot := List.head?_dropWhile_not (· < p) qs
    rw [Option.mem_def.mp hq] at hnot
    simpa using hnot
  generalize qs.dropWhile (· < p) = rest at hrest hfirst ⊢
  rcases rest with _ | ⟨q, tail⟩
  · exact .inr ⟨nofun, nofun⟩
  · have habove := (List.pairwise_cons.mp hrest).1
    rcases (hfirst q rfl).eq_or_lt with rfl | hlt
    · exact .inl ⟨tail, rfl, habove⟩
    · refine .inr ⟨fun h => hlt.ne' (Option.some.inj h), ?_⟩
      exact List.forall_mem_cons.mpr ⟨hlt, fun x hx => hlt.trans (habove x hx)⟩

theorem mem_union : x ∈ union ps qs ↔ x ∈ ps ∨ x ∈ qs := by
  induction ps generalizing qs with
  | nil => simp [union]
  | cons p ps ih =>
      have hsplit : x ∈ qs ↔ x ∈ qs.takeWhile (· < p) ∨ x ∈ qs.dropWhile (· < p) := by
        rw [← List.mem_append, List.takeWhile_append_dropWhile]
      rw [union, List.mem_append, List.mem_cons, ih, hsplit, List.mem_cons]
      split
      · rename_i hhead
        obtain ⟨tail, hrest⟩ := List.head?_eq_some_iff.mp hhead
        rw [hrest, List.tail_cons, List.mem_cons]
        tauto
      · tauto

theorem ascending_union (hps : Ascending ps) (hqs : Ascending qs) : Ascending (union ps qs) := by
  induction ps generalizing qs with
  | nil => exact hqs
  | cons p ps ih =>
      obtain ⟨hp, hps⟩ := List.pairwise_cons.mp hps
      have hbelow : ∀ x ∈ qs.takeWhile (· < p), x < p := fun x hx => by
        simpa using List.mem_takeWhile_imp hx
      have hrest : Ascending (qs.dropWhile (· < p)) := hqs.sublist (List.dropWhile_sublist _)
      -- what goes on behind the place is above it
      obtain ⟨rest, heq, hascending, habove⟩ : ∃ rest,
          (if (qs.dropWhile (· < p)).head? = some p then (qs.dropWhile (· < p)).tail
            else qs.dropWhile (· < p)) = rest ∧ Ascending rest ∧ ∀ x ∈ rest, p < x := by
        rcases dropWhile_below (p := p) hqs with ⟨tail, heq, habove⟩ | ⟨hhead, habove⟩
        · rw [heq] at hrest ⊢
          exact ⟨tail, if_pos rfl, (List.pairwise_cons.mp hrest).2, habove⟩
        · exact ⟨_, if_neg hhead, hrest, habove⟩
      have hbehind : ∀ x ∈ union ps rest, p < x := fun x hx =>
        (mem_union.mp hx).elim (hp x) (habove x)
      rw [union, heq]
      refine List.pairwise_append.mpr ⟨hqs.sublist (List.takeWhile_sublist _),
        List.pairwise_cons.mpr ⟨hbehind, ih hps hascending⟩, fun x hx y hy => ?_⟩
      rcases List.mem_cons.mp hy with rfl | hy
      · exact hbelow x hx
      · exact (hbelow x hx).trans (hbehind y hy)

theorem without_sublist (ps qs : List Nat) : (without ps qs).Sublist ps := by
  induction ps generalizing qs with
  | nil => exact .slnil
  | cons p ps ih =>
      rw [without]
      split
      · exact (ih _).cons p
      · exact (ih _).cons_cons p

theorem mem_without (hps : Ascending ps) (hqs : Ascending qs) (hx : x ∈ ps) (hnew : x ∉ qs) :
    x ∈ without ps qs := by
  induction ps generalizing qs with
  | nil => cases hx
  | cons p ps ih =>
      have hrest : Ascending (qs.dropWhile (· < p)) := hqs.sublist (List.dropWhile_sublist _)
      have hnewer : x ∉ qs.dropWhile (· < p) := fun h => hnew ((List.dropWhile_sublist _).subset h)
      rw [without]
      split
      · rename_i hhead
        obtain ⟨tail, heq⟩ := List.head?_eq_some_iff.mp hhead
        rw [heq] at hrest hnewer ⊢
        rcases List.mem_cons.mp hx with rfl | hx
        · exact absurd List.mem_cons_self hnewer
        · exact ih (List.pairwise_cons.mp hps).2 (List.pairwise_cons.mp hrest).2 hx
            fun h => hnewer (List.mem_cons_of_mem _ h)
      · rcases List.mem_cons.mp hx with rfl | hx
        · exact List.mem_cons_self
        · exact List.mem_cons_of_mem _ (ih (List.pairwise_cons.mp hps).2 hrest hx hnewer)

theorem ascending_without (hps : Ascending ps) (qs : List Nat) : Ascending (without ps qs) :=
  hps.sublist (without_sublist ps qs)

end Ascending

/-! ## Rounds of a relation -/

section Rounds

variable {R : Nat → Nat → Prop} {p q k size : Nat}

/-- A relation between places, followed a number of times. -/
def Rounds (R : Nat → Nat → Prop) : Nat → Nat → Nat → Prop
  | 0, p, q => q = p
  | k + 1, p, q => ∃ x, R p x ∧ Rounds R k x q

theorem Rounds.append {j : Nat} {x : Nat} (h : Rounds R k p x) (h' : Rounds R j x q) :
    Rounds R (k + j) p q := by
  induction k generalizing p with
  | zero =>
      obtain rfl : x = p := h
      rwa [Nat.zero_add]
  | succ k ih =>
      obtain ⟨y, hone, hrest⟩ := h
      rw [Nat.add_right_comm]
      exact ⟨y, hone, ih hrest⟩

theorem Rounds.split (j : Nat) (h : Rounds R (k + j) p q) :
    ∃ x, Rounds R k p x ∧ Rounds R j x q := by
  induction k generalizing p with
  | zero => exact ⟨p, rfl, by rwa [Nat.zero_add] at h⟩
  | succ k ih =>
      rw [Nat.add_right_comm] at h
      obtain ⟨y, hone, hrest⟩ := h
      obtain ⟨x, hfirst, hlast⟩ := ih hrest
      exact ⟨x, ⟨y, hone, hfirst⟩, hlast⟩

variable (hup : ∀ p q, R p q → p ≤ q)

include hup

theorem Rounds.le (h : Rounds R k p q) : p ≤ q := by
  induction k generalizing p with
  | zero => exact h.ge
  | succ k ih =>
      obtain ⟨x, hone, hrest⟩ := h
      exact (hup p x hone).trans (ih hrest)

/-- With more rounds than places between start and end, some round stays where it is; it
may be left out. -/
theorem Rounds.shorter (hlong : q - p < k + 1) (h : Rounds R (k + 1) p q) : Rounds R k p q := by
  induction k generalizing p with
  | zero =>
      obtain ⟨x, hone, rfl⟩ := h
      have hle := hup p q hone
      exact Nat.le_antisymm (by omega) hle
  | succ k ih =>
      obtain ⟨x, hone, hrest⟩ := h
      have hle := hup p x hone
      rcases hle.eq_or_lt with rfl | hlt
      · exact hrest
      · exact ⟨x, hone, ih (by omega) hrest⟩

/-- And it may be made twice. -/
theorem Rounds.longer (hlong : q - p < k) (h : Rounds R k p q) : Rounds R (k + 1) p q := by
  induction k generalizing p with
  | zero => omega
  | succ k ih =>
      obtain ⟨x, hone, hrest⟩ := h
      have hle := hup p x hone
      rcases hle.eq_or_lt with rfl | hlt
      · exact ⟨p, hone, p, hone, hrest⟩
      · have hle' := Rounds.le hup hrest
        exact ⟨x, hone, ih (by omega) hrest⟩

/-- So more rounds than places lead as far as just as many. -/
theorem rounds_min_iff (hq : q ≤ size) : Rounds R (min k (size + 1)) p q ↔ Rounds R k p q := by
  rcases Nat.le_total k (size + 1) with hk | hk
  · rw [Nat.min_eq_left hk]
  · rw [Nat.min_eq_right hk]
    induction k, hk using Nat.le_induction with
    | base => rfl
    | succ k hk ih =>
        rw [ih]
        exact ⟨fun h => h.longer hup (by omega), fun h => h.shorter hup (by omega)⟩

end Rounds

/-! ## Steps on lists of places -/

section Steps

variable {text : Array Char} {accepts : Char → Bool} {ps : List Nat} {p q : Nat}

theorem mem_passIf :
    q ∈ passIf text accepts ps ↔ ∃ p ∈ ps, text[p]?.any accepts = true ∧ q = p + 1 := by
  unfold passIf
  rw [List.mem_filterMap]
  refine exists_congr fun p => and_congr_right fun _ => ?_
  cases h : text[p]?.any accepts with
  | true => simp only [if_true, Option.some.injEq, true_and, eq_comm]
  | false => simp

theorem ascending_passIf (hps : Ascending ps) : Ascending (passIf text accepts ps) := by
  refine List.Pairwise.filterMap _ (fun p q hlt => ?_) hps
  intro x hx y hy
  split at hx <;> split at hy <;> simp_all
  omega

/-- A step that takes ascending lists to ascending lists and leads from each place of a
list where a relation leads. -/
structure Follows (step : List Nat → List Nat) (R : Nat → Nat → Prop) (size : Nat) : Prop where
  ascending {ps : List Nat} (hps : Ascending ps) : Ascending (step ps)
  mem_iff {ps : List Nat} (hps : Ascending ps) (hsize : ∀ p ∈ ps, p ≤ size) {q : Nat} :
    q ∈ step ps ↔ ∃ p ∈ ps, R p q
  le {p q : Nat} (h : R p q) : p ≤ q
  le_size {p q : Nat} (h : R p q) (hp : p ≤ size) : q ≤ size

variable {step : List Nat → List Nat} {R : Nat → Nat → Prop} {size : Nat}

theorem Follows.rounds_le_size (hstep : Follows step R size) {k : Nat} (h : Rounds R k p q)
    (hp : p ≤ size) : q ≤ size := by
  induction k generalizing p with
  | zero =>
      obtain rfl : q = p := h
      exact hp
  | succ k ih =>
      obtain ⟨x, hone, hrest⟩ := h
      exact ih hrest (hstep.le_size hone hp)

/-- Rounds of a step lead where rounds of the relation do. -/
theorem Follows.rounds (hstep : Follows step R size) (k : Nat) :
    Follows (rounds step k) (Rounds R k) size where
  ascending {ps} hps := by
    induction k generalizing ps with
    | zero => exact hps
    | succ k ih =>
        simp only [Pattern.rounds]
        split
        · exact .nil
        · exact ih (hstep.ascending hps)
  mem_iff {ps} hps hsize q := by
    induction k generalizing ps with
    | zero =>
        refine ⟨fun h => ⟨q, h, rfl⟩, ?_⟩
        rintro ⟨p, hp, rfl⟩
        exact hp
    | succ k ih =>
        simp only [Pattern.rounds]
        split
        · rename_i hempty
          obtain rfl := List.isEmpty_iff.mp hempty
          simp
        · rw [ih (hstep.ascending hps)]
          · constructor
            · rintro ⟨x, hx, hrest⟩
              obtain ⟨p, hp, hone⟩ := (hstep.mem_iff hps hsize).mp hx
              exact ⟨p, hp, x, hone, hrest⟩
            · rintro ⟨p, hp, x, hone, hrest⟩
              exact ⟨x, (hstep.mem_iff hps hsize).mpr ⟨p, hp, hone⟩, hrest⟩
          · intro x hx
            obtain ⟨p, hp, hone⟩ := (hstep.mem_iff hps hsize).mp hx
            exact hstep.le_size hone (hsize p hp)
  le := Rounds.le fun _ _ => hstep.le
  le_size := hstep.rounds_le_size

theorem ascending_closure (hstep : Follows step R size) (k : Nat) {seen fresh : List Nat}
    (hseen : Ascending seen) (hfresh : Ascending fresh) :
    Ascending (closure step k seen fresh) := by
  induction k generalizing seen fresh with
  | zero => exact hseen
  | succ k ih =>
      have hnew : Ascending (without (step fresh) seen) :=
        ascending_without (hstep.ascending hfresh) _
      simp only [closure]
      split
      · exact hseen
      · exact ih (ascending_union hseen hnew) hnew

/-- A closure holds what at most so many rounds lead to from what was seen, if only the
fresh places among these have been left out so far. -/
theorem mem_closure_iff (hstep : Follows step R size) {k : Nat} {seen fresh : List Nat}
    (hseen : Ascending seen) (hfresh : Ascending fresh) (hsize : ∀ p ∈ seen, p ≤ size)
    (hsub : fresh ⊆ seen) (hdone : ∀ p ∈ seen, p ∉ fresh → ∀ q, R p q → q ∈ seen) :
    q ∈ closure step k seen fresh ↔ ∃ p ∈ seen, ∃ j ≤ k, Rounds R j p q := by
  induction k generalizing seen fresh with
  | zero =>
      refine ⟨fun h => ⟨q, h, 0, le_rfl, rfl⟩, ?_⟩
      rintro ⟨p, hp, j, hj, h⟩
      obtain rfl := Nat.le_zero.mp hj
      obtain rfl : q = p := h
      exact hp
  | succ k ih =>
      have hstepped : Ascending (step fresh) := hstep.ascending hfresh
      have hnew : Ascending (without (step fresh) seen) := ascending_without hstepped _
      have hled : ∀ {x}, x ∈ step fresh ↔ ∃ p ∈ fresh, R p x :=
        hstep.mem_iff hfresh fun p hp => hsize p (hsub hp)
      -- where a round leads from what was seen is seen after this round
      have hnext : ∀ p ∈ seen, ∀ x, R p x → x ∈ union seen (without (step fresh) seen) := by
        intro p hp x hone
        rw [mem_union]
        by_cases hx : x ∈ seen
        · exact .inl hx
        · have hpfresh : p ∈ fresh := by
            by_contra hold
            exact hx (hdone p hp hold x hone)
          exact .inr (mem_without hstepped hseen (hled.mpr ⟨p, hpfresh, hone⟩) hx)
      simp only [closure]
      split
      · rename_i hempty
        rw [List.isEmpty_iff.mp hempty] at hnext
        refine ⟨fun h => ⟨q, h, 0, Nat.zero_le _, rfl⟩, ?_⟩
        rintro ⟨p, hp, j, -, h⟩
        clear ih
        induction j generalizing p with
        | zero =>
            obtain rfl : q = p := h
            exact hp
        | succ j ih =>
            obtain ⟨x, hone, hrest⟩ := h
            exact ih x (by simpa [mem_union] using hnext p hp x hone) hrest
      · rw [ih (ascending_union hseen hnew) hnew]
        · constructor
          · rintro ⟨x, hx, j, hj, hrest⟩
            rcases mem_union.mp hx with hx | hx
            · exact ⟨x, hx, j, by omega, hrest⟩
            · obtain ⟨p, hp, hone⟩ := hled.mp ((without_sublist _ _).subset hx)
              exact ⟨p, hsub hp, j + 1, by omega, x, hone, hrest⟩
          · rintro ⟨p, hp, j, hj, h⟩
            cases j with
            | zero => exact ⟨p, mem_union.mpr (.inl hp), 0, Nat.zero_le _, h⟩
            | succ j =>
                obtain ⟨x, hone, hrest⟩ := h
                exact ⟨x, hnext p hp x hone, j, by omega, hrest⟩
        · intro x hx
          rcases mem_union.mp hx with hx | hx
          · exact hsize x hx
          · obtain ⟨p, hp, hone⟩ := hled.mp ((without_sublist _ _).subset hx)
            exact hstep.le_size hone (hsize p (hsub hp))
        · exact fun x hx => mem_union.mpr (.inr hx)
        · intro p hp hold x hone
          exact hnext p ((mem_union.mp hp).resolve_right hold) x hone

end Steps

/-! ## The matches of a node -/

section Nodes

variable {f : Flags} {text : Array Char} {ps : List Nat} {p q : Nat}

/-- From where to where a node matches. -/
def Node.Spans (f : Flags) (text : Array Char) : Node → Nat → Nat → Prop
  | empty, p, q => q = p
  | char a, p, q => text[p]?.any (matchesChar f a) = true ∧ q = p + 1
  | anyChar, p, q => text[p]?.any (fun c => f.dotAll || c != '\n') = true ∧ q = p + 1
  | oneOf negated items, p, q =>
    text[p]?.any (matchesSet f negated items) = true ∧ q = p + 1
  | anchor a, p, q => a.holds f text p = true ∧ q = p
  | seq r s, p, q => ∃ x, r.Spans f text p x ∧ s.Spans f text x q
  | alt r s, p, q => r.Spans f text p q ∨ s.Spans f text p q
  | times r least most, p, q =>
    ∃ k, least ≤ k ∧ (∀ m, most = some m → k ≤ max least m) ∧ Rounds (r.Spans f text) k p q

/-- A character is passed inside the text. -/
theorem follows_passIf (text : Array Char) (accepts : Char → Bool) :
    Follows (passIf text accepts) (fun p q => text[p]?.any accepts = true ∧ q = p + 1)
      text.size where
  ascending := ascending_passIf
  mem_iff _ _ _ := mem_passIf
  le h := by omega
  le_size {p q} h _ := by
    obtain ⟨hp, rfl⟩ := h
    by_contra hout
    rw [Array.getElem?_eq_none (by omega)] at hp
    cases hp

/-- A repetition makes its least rounds and then goes on, to its most rounds or to as many
as there are places. -/
theorem follows_times {step : List Nat → List Nat} {R : Nat → Nat → Prop} {size : Nat}
    (hstep : Follows step R size) (least : Nat) (most : Option Nat) :
    Follows
      (fun ps => closure step ((most.map fun m => min (m - least) (size + 1)).getD (size + 1))
        (rounds step (min least (size + 1)) ps) (rounds step (min least (size + 1)) ps))
      (fun p q => ∃ k, least ≤ k ∧ (∀ m, most = some m → k ≤ max least m) ∧ Rounds R k p q)
      size where
  ascending hps :=
    have hbase := (hstep.rounds _).ascending hps
    ascending_closure hstep _ hbase hbase
  mem_iff {ps} hps hsize q := by
    have hbase := (hstep.rounds (min least (size + 1))).ascending hps
    have hmem : ∀ {x}, x ∈ rounds step (min least (size + 1)) ps ↔
        ∃ p ∈ ps, Rounds R least p x := by
      intro x
      rw [(hstep.rounds _).mem_iff hps hsize]
      refine exists_congr fun p => and_congr_right fun hp => ⟨fun h => ?_, fun h => ?_⟩
      · exact (rounds_min_iff (fun _ _ => hstep.le) (hstep.rounds_le_size h (hsize p hp))).mp h
      · exact (rounds_min_iff (fun _ _ => hstep.le) (hstep.rounds_le_size h (hsize p hp))).mpr h
    have hinside : ∀ x ∈ rounds step (min least (size + 1)) ps, x ≤ size := by
      intro x hx
      obtain ⟨p, hp, h⟩ := hmem.mp hx
      exact hstep.rounds_le_size h (hsize p hp)
    rw [mem_closure_iff hstep hbase hbase hinside (List.Subset.refl _)
      fun x hx hold => absurd hx hold]
    constructor
    · rintro ⟨x, hx, j, hj, hrest⟩
      obtain ⟨p, hp, h⟩ := hmem.mp hx
      refine ⟨p, hp, least + j, Nat.le_add_right _ _, ?_, h.append hrest⟩
      rintro m rfl
      simp only [Option.map_some, Option.getD_some] at hj
      omega
    · rintro ⟨p, hp, k, hk, hmost, h⟩
      obtain ⟨j, rfl⟩ := Nat.exists_eq_add_of_le hk
      obtain ⟨x, hfirst, hrest⟩ := h.split j
      have hx := hmem.mpr ⟨p, hp, hfirst⟩
      have hq := hstep.rounds_le_size hrest (hinside x hx)
      refine ⟨x, hx, min j (size + 1), ?_, (rounds_min_iff (fun _ _ => hstep.le) hq).mpr hrest⟩
      cases most with
      | none => exact Nat.min_le_right _ _
      | some m =>
          have hm := hmost m rfl
          simp only [Option.map_some, Option.getD_some]
          omega
  le {p q} h := by
    obtain ⟨k, -, -, h⟩ := h
    exact h.le fun _ _ => hstep.le
  le_size {p q} h hp := by
    obtain ⟨k, -, -, h⟩ := h
    exact hstep.rounds_le_size h hp

/-- A node reaches from each place the ends of its matches there. -/
theorem follows_reach (f : Flags) (text : Array Char) (n : Node) :
    Follows (n.reach f text) (n.Spans f text) text.size := by
  induction n with
  | empty =>
      refine ⟨id, fun {ps} _ _ q => ?_, fun h => h.ge, fun h hp => h.trans_le hp⟩
      exact ⟨fun h => ⟨q, h, rfl⟩, fun ⟨p, hp, h⟩ => (h : q = p) ▸ hp⟩
  | char a => exact follows_passIf text _
  | anyChar => exact follows_passIf text _
  | oneOf negated items => exact follows_passIf text _
  | anchor a =>
      refine ⟨fun hps => hps.filter _, fun {ps} _ _ q => ?_, fun h => h.2.ge,
        fun h hp => h.2.trans_le hp⟩
      constructor
      · intro h
        obtain ⟨hq, hholds⟩ := List.mem_filter.mp h
        exact ⟨q, hq, hholds, rfl⟩
      · rintro ⟨p, hp, hholds, rfl⟩
        exact List.mem_filter.mpr ⟨hp, hholds⟩
  | seq r s ihr ihs =>
      refine ⟨fun hps => ihs.ascending (ihr.ascending hps), fun {ps} hps hsize q => ?_, ?_, ?_⟩
      · have hmem : ∀ {x}, x ∈ r.reach f text ps ↔ ∃ p ∈ ps, r.Spans f text p x :=
          ihr.mem_iff hps hsize
        have hinside : ∀ x ∈ r.reach f text ps, x ≤ text.size := by
          intro x hx
          obtain ⟨p, hp, h⟩ := hmem.mp hx
          exact ihr.le_size h (hsize p hp)
        refine (ihs.mem_iff (ihr.ascending hps) hinside).trans ?_
        constructor
        · rintro ⟨x, hx, hs⟩
          obtain ⟨p, hp, hr⟩ := hmem.mp hx
          exact ⟨p, hp, x, hr, hs⟩
        · rintro ⟨p, hp, x, hr, hs⟩
          exact ⟨x, hmem.mpr ⟨p, hp, hr⟩, hs⟩
      · rintro p q ⟨x, hr, hs⟩
        exact (ihr.le hr).trans (ihs.le hs)
      · rintro p q ⟨x, hr, hs⟩ hp
        exact ihs.le_size hs (ihr.le_size hr hp)
  | alt r s ihr ihs =>
      refine ⟨fun hps => ascending_union (ihr.ascending hps) (ihs.ascending hps),
        fun {ps} hps hsize q => ?_, fun h => h.elim ihr.le ihs.le,
        fun h hp => h.elim (ihr.le_size · hp) (ihs.le_size · hp)⟩
      show q ∈ union _ _ ↔ ∃ p ∈ ps, _ ∨ _
      simp only [mem_union, ihr.mem_iff hps hsize, ihs.mem_iff hps hsize, and_or_left, exists_or]
  | times r least most ih =>
      cases most with
      | none => exact follows_times ih least none
      | some m => exact follows_times ih least (some m)

end Nodes

/-! ## Whole patterns -/

/-- A pattern is found in a text exactly if it has a match there. -/
theorem search_iff (p : Pattern) (s : String) :
    p.search s = true ↔
      ∃ a b, a ≤ s.toList.length ∧ p.node.Spans p.flags s.toList.toArray a b := by
  have hrange : Ascending (List.range (s.toList.toArray.size + 1)) := List.pairwise_lt_range
  have hinside : ∀ a ∈ List.range (s.toList.toArray.size + 1), a ≤ s.toList.toArray.size :=
    fun a ha => Nat.lt_succ_iff.mp (List.mem_range.mp ha)
  have hmem := fun b => (follows_reach p.flags s.toList.toArray p.node).mem_iff hrange hinside
    (q := b)
  rw [search, Bool.not_eq_true', List.isEmpty_eq_false_iff_exists_mem]
  constructor
  · rintro ⟨b, hb⟩
    obtain ⟨a, ha, hspans⟩ := (hmem b).mp hb
    exact ⟨a, b, hinside a ha, hspans⟩
  · rintro ⟨a, b, ha, hspans⟩
    exact ⟨b, (hmem b).mpr ⟨a, List.mem_range.mpr (Nat.lt_succ_of_le ha), hspans⟩⟩

/-- A pattern is found at the start of a text exactly if it has a match from there. -/
theorem matchStart_iff (p : Pattern) (s : String) :
    p.matchStart s = true ↔ ∃ b, p.node.Spans p.flags s.toList.toArray 0 b := by
  rw [matchStart, Bool.not_eq_true', List.isEmpty_eq_false_iff_exists_mem]
  refine exists_congr fun b => ?_
  rw [(follows_reach p.flags s.toList.toArray p.node).mem_iff (List.pairwise_singleton _ _)
    (by simp)]
  simp

end Pattern

end Conform
