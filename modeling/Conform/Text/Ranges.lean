/-!
# Sets of code points as sorted ranges

A character property is kept as the list of the ranges that have it, in
ascending order. `inRanges` stops at the first range that lies above the
code point.
-/

namespace Conform.Text

/-- Whether a code point lies in one of the ranges, which are in ascending
order. -/
def inRanges : List (Nat × Nat) → Nat → Bool
  | [], _ => false
  | (low, high) :: rest, c =>
    if c < low then false else c ≤ high || inRanges rest c

@[simp] theorem inRanges_nil (c : Nat) : inRanges [] c = false := rfl

/-- A code point that is found lies in a range of the list. -/
theorem exists_of_inRanges {rs : List (Nat × Nat)} {c : Nat} (h : inRanges rs c = true) :
    ∃ r ∈ rs, r.1 ≤ c ∧ c ≤ r.2 := by
  induction rs with
  | nil => simp at h
  | cons r rs ih =>
    obtain ⟨low, high⟩ := r
    by_cases hc : c < low
    · simp [inRanges, hc] at h
    · simp only [inRanges, hc, if_false, Bool.or_eq_true, decide_eq_true_eq] at h
      rcases h with h | h
      · exact ⟨(low, high), by simp, Nat.le_of_not_lt hc, h⟩
      · obtain ⟨r, hr, hle⟩ := ih h
        exact ⟨r, List.mem_cons_of_mem _ hr, hle⟩

end Conform.Text
