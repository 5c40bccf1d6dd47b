import ExprLexer.Event
import ExprLexer.Lexeme
import ExprLexer.Number.Literal

/-!
# Reading a lexeme

A lexeme at its place becomes a token, or a failure if it is a numeral without a finite value. An unknown
lexeme becomes a token as well and is reported besides.
-/
namespace ExprLexer

abbrev ScanResult := Except Failure Token

def ScanResult.isEnd : ScanResult → Bool
  | .ok t => t.kind == .endOfInput
  | .error _ => false

def ScanResult.isError : ScanResult → Bool
  | .ok _ => false
  | .error _ => true

/-- The result of reading a lexeme, with what is reported and logged on the way. -/
structure Reading where
  result : ScanResult
  reports : List Diagnostic
  events : List Event

namespace Reading

def ofToken (t : Token) : Reading := ⟨.ok t, [], [.ofToken t]⟩

/-- A character is noted as unrecognised before its token is. -/
def ofUnknown (c : Char) (t : Token) : Reading :=
  ⟨.ok t, [⟨t.start, c⟩], [.unrecognised c t.start, .ofToken t]⟩

/-- A malformed number leaves no token behind. -/
def ofMalformed (lexeme : String) (e : Failure) : Reading :=
  ⟨.error e, [], [.malformedNumber lexeme e.position]⟩

end Reading

def Lexeme.read (x : Lexeme) (span : Span) : Reading :=
  let text := String.ofList x.chars
  match x with
  | numeral _ =>
    match numberLiteral text span.start with
    | .ok value => .ofToken ⟨x.kind, text, span, some value⟩
    | .error e => .ofMalformed text e
  | unknown c => .ofUnknown c ⟨x.kind, text, span, none⟩
  | operator _ | word _ => .ofToken ⟨x.kind, text, span, none⟩

theorem Lexeme.isEnd_result_read (x : Lexeme) (span : Span) : (x.read span).result.isEnd = false := by
  cases x with
  | operator o => rfl
  | numeral cs =>
      dsimp only [read]
      split <;> rfl
  | word cs =>
      change (TokenKind.ofWord cs == .endOfInput) = false
      unfold TokenKind.ofWord
      split <;> rfl
  | unknown c => rfl

end ExprLexer
