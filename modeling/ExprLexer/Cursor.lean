import ExprLexer.Position
import ExprLexer.Text.Classes

/-!
# Cursors

A cursor is a place in a source. Between lexemes it passes over trivia, that is blanks and comments: a
comment runs from `//` up to the next newline, which is a blank of its own, or to the end of the source.
-/
namespace ExprLexer

/-- A position in a source, with the text from there on. -/
structure Cursor where
  position : Position
  rest : List Char
  deriving DecidableEq, Repr

namespace Cursor

def ofText (cs : List Char) : Cursor := ⟨.start, cs⟩

/-- The character `n` places ahead; past the end of the source it is NUL. -/
def peek (k : Cursor) (n : Nat) : Char := k.rest[n]?.getD '\x00'

def atEnd (k : Cursor) : Bool := k.rest.isEmpty

/-- Passes over blanks and comments, starting inside a comment or outside one. -/
def skip (inComment : Bool) (p : Position) : List Char → Cursor
  | [] => ⟨p, []⟩
  | c :: r =>
    if inComment then skip (c != '\n') (p.next c) r
    else if isBlank c then skip false (p.next c) r
    else if c == '/' && r.head? == some '/' then skip true (p.next c) r
    else ⟨p, c :: r⟩

/-- The place of the next lexeme, or the end of the source. -/
def skipTrivia (k : Cursor) : Cursor := skip false k.position k.rest

theorem length_rest_skip_le (inComment : Bool) (p : Position) (cs : List Char) :
    (skip inComment p cs).rest.length ≤ cs.length := by
  induction cs generalizing inComment p with
  | nil => exact Nat.le_refl 0
  | cons c r ih =>
      unfold skip
      split
      · exact Nat.le_succ_of_le (ih _ _)
      · split
        · exact Nat.le_succ_of_le (ih _ _)
        · split
          · exact Nat.le_succ_of_le (ih _ _)
          · exact Nat.le_refl _

theorem length_rest_skipTrivia_le (k : Cursor) : k.skipTrivia.rest.length ≤ k.rest.length :=
  length_rest_skip_le false k.position k.rest

end Cursor
end ExprLexer
