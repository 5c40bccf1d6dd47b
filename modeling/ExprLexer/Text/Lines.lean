import ExprLexer.Text.Utf8

/-!
# Lines

The line of a text in which a byte lies, found from the text alone.
-/
namespace ExprLexer

/-- A line of a text, with the newline that ends it, and a place in it. -/
structure Line where
  number : Nat
  chars : List Char
  /-- How many bytes of the line lie before the place. -/
  offset : Nat
  deriving DecidableEq, Repr

def lines (cs : List Char) : List (List Char) := cs.splitBy (fun c _ => c != '\n')

/-- The line that holds the byte `offset`, where the first line given has a known number. -/
def Line.find? (number offset : Nat) : List (List Char) → Option Line
  | [] => none
  | cs :: ls =>
    if offset < utf8Length cs then some ⟨number, cs, offset⟩
    else find? (number + 1) (offset - utf8Length cs) ls

/-- The line of a source that holds the byte at `offset`; lines are counted from 1. -/
def lineAt? (source : String) (offset : Nat) : Option Line :=
  Line.find? 1 offset (lines source.toList)

end ExprLexer
