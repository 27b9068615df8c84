/-!
# Sets of characters as ranges

A character class of the Unicode standard is kept as a list of inclusive ranges of code points, and
membership is a scan of that list.  The tables in the sibling modules start at U+0080: below it each
class is small enough to be spelled out.
-/

namespace Parlance.Text

/-- A set of characters, given by inclusive ranges of code points. -/
abbrev Ranges := List (Nat × Nat)

/-- Some range holds the character. -/
def Ranges.has (ranges : Ranges) (c : Char) : Bool :=
  ranges.any fun (lo, hi) => lo ≤ c.toNat && c.toNat ≤ hi

theorem Ranges.has_eq_true_iff {ranges : Ranges} {c : Char} :
    ranges.has c = true ↔ ∃ r ∈ ranges, r.1 ≤ c.toNat ∧ c.toNat ≤ r.2 := by
  simp [Ranges.has]

end Parlance.Text
