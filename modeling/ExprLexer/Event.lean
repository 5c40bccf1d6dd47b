import ExprLexer.Token.Basic

/-!
# Scan events

What a scan notes in its log, in the order in which it happens.
-/
namespace ExprLexer

inductive Severity where
  | trace | debug | warn
  deriving DecidableEq, Repr

def Severity.name : Severity → String
  | trace => "TRACE"
  | debug => "DEBUG"
  | warn => "WARN"

/-- Something that a scan notes, with the place where it begins. -/
inductive Event where
  | token (kind : TokenKind) (lexeme : String) (position : Position)
  | unrecognised (character : Char) (position : Position)
  | malformedNumber (lexeme : String) (position : Position)
  | endOfInput (position : Position)
  deriving DecidableEq, Repr

namespace Event

def ofToken (t : Token) : Event := token t.kind t.lexeme t.start

def severity : Event → Severity
  | token _ _ _ => .trace
  | unrecognised _ _ => .debug
  | malformedNumber _ _ => .warn
  | endOfInput _ => .debug

def message : Event → String
  | token _ _ _ => "token"
  | unrecognised _ _ => "unrecognised character"
  | malformedNumber _ _ => "malformed number"
  | endOfInput _ => "end of input"

def position : Event → Position
  | token _ _ p | unrecognised _ p | malformedNumber _ p | endOfInput p => p

end Event
end ExprLexer
