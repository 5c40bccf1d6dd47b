import ExprLexer.Position
import ExprLexer.Text.Quoted

/-!
# Failures

What can go wrong with a source, and how it is told. A scan fails at malformed numbers only: an
unrecognised character is reported beside the tokens and becomes a failure when it is to be shown as one.
-/
namespace ExprLexer

inductive Fault where
  | unrecognised (text : String)
  | malformedNumber (lexeme : String)
  | unreadable (path reason : String)
  deriving DecidableEq, Repr

namespace Fault

def name : Fault → String
  | unrecognised _ => "UnrecognisedToken"
  | malformedNumber _ => "MalformedNumber"
  | unreadable _ _ => "SourceRead"

/-- Texts of a source are quoted; a path is shown as it was given. -/
def message : Fault → String
  | unrecognised text => "unrecognised token: " ++ quoted text
  | malformedNumber lexeme => "malformed number literal: " ++ quoted lexeme
  | unreadable path _ => "cannot open file '" ++ path ++ "'"

/-- Advice on what would have been right, or why the attempt failed. -/
def tip? : Fault → Option String
  | unrecognised _ => none
  | malformedNumber lexeme =>
      some ("Invalid number: `" ++ lexeme ++
        "`, expected digits with at most one `.` that fit in a 64-bit float")
  | unreadable _ reason => some reason

end Fault

structure Failure where
  fault : Fault
  position : Position
  deriving DecidableEq, Repr

def Failure.message (e : Failure) : String := e.fault.message ++ " at " ++ e.position.text

/-- The report of a character that belongs to no lexeme. -/
structure Diagnostic where
  position : Position
  character : Char
  deriving DecidableEq, Repr

namespace Diagnostic

def text (d : Diagnostic) : String :=
  "Warning [Line " ++ d.position.line.toNat.repr ++ ", Col " ++ d.position.column.toNat.repr ++
    "]: Unknown symbol '" ++ d.character.toString ++ "'"

def toFailure (d : Diagnostic) : Failure := ⟨.unrecognised d.character.toString, d.position⟩

end Diagnostic
end ExprLexer
