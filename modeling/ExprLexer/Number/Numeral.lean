import ExprLexer.Number.Binary64

/-!
# Numerals

A numeral is written with digits and at most one point, with a digit on at least one side of the point.
It stands for a decimal fraction, which is kept exactly and rounded only once, when it becomes a binary64
number.
-/
namespace ExprLexer

/-- Whether a whole text is a numeral, such as `10`, `10.`, `10.5` or `.5`. -/
def isNumeral (cs : List Char) : Bool :=
  let whole := cs.takeWhile Char.isDigit
  match cs.dropWhile Char.isDigit with
  | [] => !whole.isEmpty
  | c :: places => c == '.' && places.all Char.isDigit && !(whole.isEmpty && places.isEmpty)

/-- The number written by decimal digits, the most significant first. -/
def ofDigits (cs : List Char) : Nat := cs.foldl (fun n c => 10 * n + (c.toNat - '0'.toNat)) 0

/-- The decimal fraction `digits / 10 ^ places`. -/
structure Decimal where
  digits : Nat
  places : Nat
  deriving DecidableEq, Repr

namespace Decimal

/-- The fraction that a numeral stands for; no other text stands for one. -/
def ofText? (cs : List Char) : Option Decimal :=
  if isNumeral cs then
    some ⟨ofDigits (cs.filter Char.isDigit), (cs.dropWhile Char.isDigit).tail.length⟩
  else none

def toBinary64? (d : Decimal) : Option Binary64 := Binary64.nearest? d.digits (Nat.pow 10 d.places)

end Decimal

def numeralValue? (cs : List Char) : Option Binary64 := (Decimal.ofText? cs).bind Decimal.toBinary64?

end ExprLexer
