import ExprLexer.Failure
import ExprLexer.Number.Numeral

/-!
# Number literals

A literal is a text that stands where a source has a number. Its value is the nearest binary64 number.
-/
namespace ExprLexer

/-- The value of a text that stands where a number is expected. It is malformed unless it is a numeral with
a finite value. -/
def numberLiteral (lexeme : String) (p : Position) : Except Failure Binary64 :=
  match numeralValue? lexeme.toList with
  | some x => .ok x
  | none => .error ⟨.malformedNumber lexeme, p⟩

end ExprLexer
