import ExprLexer.Failure
import ExprLexer.Text.Lines
import ExprLexer.Text.WhiteSpace

/-!
# Excerpts

A failure is shown with the line of the source in which it lies and a caret below its column:

    Error: MalformedNumber (…)
    -> file
       |
    20 | x = 1.5;
       | ----^

The white space around the line is left out. The caret's column counts characters and is moved left by the
spaces that the line begins with.
-/
namespace ExprLexer

inductive LayoutError where
  | widthOutOfRange (width : Nat)
  deriving DecidableEq, Repr

def LayoutError.message : LayoutError → String
  | widthOutOfRange _ => "Formatting argument out of range"

def maxFieldWidth : Nat := 65535

/-- A text at the right end of a field, with a character that fills the rest. -/
def alignRight (fill : Char) (width : Nat) (cs : List Char) : List Char :=
  List.replicate (width - cs.length) fill ++ cs

/-- The spaces that a line begins with. -/
def Line.indent (line : Line) : Nat := (line.chars.takeWhile (· == ' ')).length

/-- The width of the field at whose right end the caret stands. -/
def Line.caretWidth (line : Line) (column : Nat) : Nat := max (column - line.indent) 1

/-- A line with a caret below a column. The bars in the margin stand below each other. -/
def Line.excerpt (line : Line) (column : Nat) : Except LayoutError String :=
  let number := line.number.repr.toList
  let bar := alignRight ' ' (number.length + 2) ['|']
  let width := line.caretWidth column
  if width ≤ maxFieldWidth then
    .ok (String.ofList (bar ++ ['\n'] ++
      number ++ [' ', '|', ' '] ++ trimmed line.chars ++ ['\n'] ++
      bar ++ [' '] ++ alignRight '-' width ['^'] ++ ['\n']))
  else .error (.widthOutOfRange width)

namespace Failure

def header (e : Failure) : String :=
  match e.fault.tip? with
  | none => "Error: " ++ e.fault.name ++ "\n"
  | some tip => "Error: " ++ e.fault.name ++ " (" ++ tip ++ ")\n"

/-- A failure as it is shown to the author of a source. A failure beyond the source has no line to show. -/
def render (e : Failure) (source file : String) : Except LayoutError String :=
  let head := e.header ++ "-> " ++ file ++ "\n"
  match lineAt? source e.position.offset with
  | none => .ok (head ++ "   at " ++ e.position.text ++ "\n")
  | some line => (line.excerpt e.position.column.toNat).map (head ++ ·)

end Failure
end ExprLexer
