/-!
# Sets of characters

A `CharSet` is a list of closed ranges of code points.  Membership is decided by looking through
the ranges in order.
-/

namespace SexprReader

/-- Closed ranges of code points, each as its first and its last member. -/
abbrev CharSet := List (Nat × Nat)

/-- The character lies in one of the ranges. -/
def CharSet.contains (set : CharSet) (c : Char) : Bool :=
  set.any fun (first, last) => decide (first ≤ c.toNat) && decide (c.toNat ≤ last)

theorem CharSet.contains_iff (set : CharSet) (c : Char) :
    set.contains c = true ↔ ∃ range ∈ set, range.1 ≤ c.toNat ∧ c.toNat ≤ range.2 := by
  simp only [contains, List.any_eq_true, Bool.and_eq_true, decide_eq_true_eq]

end SexprReader
