/-!
# Binary64 numbers

A binary64 number is its bit pattern. Every finite one is a whole number of units of 2^-1074, the least
subnormal, so rounding a quotient of natural numbers to the nearest binary64 number needs no arithmetic
beyond the natural numbers and is exact for operands of any size.
-/
namespace ExprLexer

/-- A binary64 number by its bits: the sign, 11 bits of exponent, 52 bits of fraction. -/
structure Binary64 where
  bits : UInt64
  deriving DecidableEq, Repr

namespace Binary64

/-- How many fractions there are under one exponent, 2^52. -/
def fractionCount : Nat := 0x10000000000000

def exponent (x : Binary64) : Nat := x.bits.toNat / fractionCount % 2048

def fraction (x : Binary64) : Nat := x.bits.toNat % fractionCount

def isFinite (x : Binary64) : Bool := x.exponent != 2047

def isNaN (x : Binary64) : Bool := x.exponent == 2047 && x.fraction != 0

def isZero (x : Binary64) : Bool := x.exponent == 0 && x.fraction == 0

/-- The magnitude of a finite number in units of 2^-1074. -/
def units (x : Binary64) : Nat :=
  if x.exponent = 0 then x.fraction else (fractionCount + x.fraction) <<< (x.exponent - 1)

/-- The comparison of numbers: a NaN equals nothing, and the two zeros are equal. -/
def numEq (x y : Binary64) : Bool :=
  !x.isNaN && !y.isNaN && (x == y || x.isZero && y.isZero)

/-- The whole number nearest to `n / d`; of two equally near ones, the even one. -/
def divToEven (n d : Nat) : Nat :=
  let twice := 2 * (n % d)
  if d < twice || twice == d && n / d % 2 == 1 then n / d + 1 else n / d

/-- The number nearest to `n / d`, ties going to the even fraction, unless it is too large to be finite.
With the quotient in units of 2^-1074, `e` binary places are dropped so that at most 53 stay. The rounded
significand is added to the exponent field, so a significand of 53 places, or one that rounding carries to
54, steps the exponent by itself. -/
def nearest? (n d : Nat) : Option Binary64 :=
  let scaled := n <<< 1074
  let e := (scaled / d).log2 - 52
  let pattern := e * fractionCount + divToEven scaled (d <<< e)
  if pattern < 2047 * fractionCount then some ⟨pattern.toUInt64⟩ else none

end Binary64
end ExprLexer
