/-!
# Ranges of code points
-/
namespace ExprLexer

/-- A set of code points as its ranges, each given by its first and last member, in increasing order. -/
abbrev CodeRanges := List (Nat × Nat)

/-- Whether a code point lies in one of the ranges; the search ends at the first range behind it. -/
def CodeRanges.covers : CodeRanges → Nat → Bool
  | [], _ => false
  | (first, last) :: ranges, n => first ≤ n && (n ≤ last || covers ranges n)

end ExprLexer
