import ExprLexer.Token.Operator

/-!
# Token kinds
-/
namespace ExprLexer

inductive TokenKind where
  | endOfInput
  | number
  | identifier
  | operator (o : Operator)
  | keyword (k : Keyword)
  | unknown
  deriving DecidableEq, Repr

namespace TokenKind

def all : List TokenKind :=
  [endOfInput, number, identifier, unknown] ++ Operator.all.map operator ++ Keyword.all.map keyword

def name : TokenKind → String
  | endOfInput => "EOF"
  | number => "Number"
  | identifier => "Identifier"
  | operator o => o.name
  | keyword k => k.name
  | unknown => "Unknown"

def isKeyword : TokenKind → Bool
  | keyword _ => true
  | _ => false

/-- The kind of a word: a keyword if it is spelt as one, an identifier if not. -/
def ofWord (cs : List Char) : TokenKind :=
  match Keyword.ofChars? cs with
  | some k => keyword k
  | none => identifier

end TokenKind
end ExprLexer
