import ExprLexer.Number.Binary64
import ExprLexer.Position
import ExprLexer.Token.Kind

/-!
# Tokens

A token carries its own text and place, so it stays meaningful without the source it was read from.
-/
namespace ExprLexer

/-- A classified piece of a source. Only a number has a value. -/
structure Token where
  kind : TokenKind
  lexeme : String
  span : Span
  number : Option Binary64
  deriving DecidableEq, Repr

namespace Token

/-- The mark after the last token of a source; it has no text. -/
def endOfInput (p : Position) : Token := ⟨.endOfInput, "", ⟨p, p⟩, none⟩

def start (t : Token) : Position := t.span.start

def oneOf (t : Token) (kinds : List TokenKind) : Bool := kinds.contains t.kind

/-- Equality in every field, the values compared as numbers. -/
def numEq (t u : Token) : Bool :=
  t.kind == u.kind && t.lexeme == u.lexeme && t.span == u.span &&
    match t.number, u.number with
    | some x, some y => x.numEq y
    | none, none => true
    | _, _ => false

def text (t : Token) : String :=
  t.kind.name ++ " '" ++ t.lexeme ++ "' (" ++ t.start.text ++ ")"

/-- A token as one line of a listing, in columns set apart by tabs. -/
def listing (t : Token) : String :=
  t.kind.name ++ "\t'" ++ t.lexeme ++ "'\t(" ++ t.start.text ++ ")"

end Token
end ExprLexer
