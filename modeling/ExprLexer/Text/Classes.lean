/-!
# Character classes of the scanned language

Numbers and words are made of ASCII characters only, as `Char.isDigit` and `Char.isAlphanum` are; a
letter or a digit of any other script belongs to no lexeme of theirs.
-/
namespace ExprLexer

/-- The six characters that separate lexemes: space, tab, newline, vertical tab, form feed, return. -/
def isBlank (c : Char) : Bool :=
  c == ' ' || c == '\t' || c == '\n' || c == '\x0b' || c == '\x0c' || c == '\r'

def isWordStart (c : Char) : Bool := c.isAlpha || c == '_'

def isWordPart (c : Char) : Bool := c.isAlphanum || c == '_'

theorem isWordPart_of_isWordStart {c : Char} (h : isWordStart c) : isWordPart c := by
  simp only [isWordStart, isWordPart, Char.isAlphanum, Bool.or_eq_true] at *
  exact h.imp_left .inl

end ExprLexer
