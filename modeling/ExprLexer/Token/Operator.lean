/-!
# Operators and keywords

The fixed texts of the language. Each has one spelling, and reading looks a spelling up among all of them.
-/
namespace ExprLexer

inductive Operator where
  | leftParen | rightParen
  | leftBracket | rightBracket
  | leftBrace | rightBrace
  | assign | equal
  | not | notEqual
  | less | lessEqual
  | greater | greaterEqual
  | semicolon | comma
  | plus | minus | star | slash
  deriving DecidableEq, Repr

namespace Operator

def all : List Operator :=
  [leftParen, rightParen, leftBracket, rightBracket, leftBrace, rightBrace, assign, equal, not, notEqual,
    less, lessEqual, greater, greaterEqual, semicolon, comma, plus, minus, star, slash]

def chars : Operator → List Char
  | leftParen => ['('] | rightParen => [')']
  | leftBracket => ['['] | rightBracket => [']']
  | leftBrace => ['{'] | rightBrace => ['}']
  | assign => ['='] | equal => ['=', '=']
  | not => ['!'] | notEqual => ['!', '=']
  | less => ['<'] | lessEqual => ['<', '=']
  | greater => ['>'] | greaterEqual => ['>', '=']
  | semicolon => [';'] | comma => [',']
  | plus => ['+'] | minus => ['-'] | star => ['*'] | slash => ['/']

def name : Operator → String
  | leftParen => "LParen" | rightParen => "RParen"
  | leftBracket => "LBracket" | rightBracket => "RBracket"
  | leftBrace => "LBrace" | rightBrace => "RBrace"
  | assign => "Assign" | equal => "Equal"
  | not => "Not" | notEqual => "NotEqual"
  | less => "Less" | lessEqual => "LessEqual"
  | greater => "Greater" | greaterEqual => "GreaterEqual"
  | semicolon => "Semicolon" | comma => "Comma"
  | plus => "Plus" | minus => "Minus" | star => "Star" | slash => "Slash"

def ofChars? (cs : List Char) : Option Operator := all.find? (fun o => o.chars == cs)

/-- The longest operator at the front of `c :: r`; none has more than two characters. -/
def leading? (c : Char) (r : List Char) : Option Operator :=
  (ofChars? (c :: r.take 1)).or (ofChars? [c])

theorem mem_all (o : Operator) : o ∈ all := by
  cases o <;> decide

theorem ofChars?_chars (o : Operator) : ofChars? o.chars = some o := by
  cases o <;> decide

/-- Each operator has a spelling of its own. -/
theorem ofChars?_eq_some_iff {cs : List Char} {o : Operator} : ofChars? cs = some o ↔ o.chars = cs := by
  constructor
  · intro h
    have e := List.find?_some h
    exact eq_of_beq e
  · rintro rfl
    exact ofChars?_chars o

theorem chars_ne_nil (o : Operator) : o.chars ≠ [] := by
  cases o <;> decide

theorem chars_prefix_of_leading? {c : Char} {r : List Char} {o : Operator} (h : leading? c r = some o) :
    o.chars <+: c :: r := by
  rw [leading?, Option.or_eq_some_iff] at h
  rcases h with h | ⟨_, h⟩
  · rw [ofChars?_eq_some_iff.1 h]
    exact (List.prefix_cons_inj c).2 (List.take_prefix 1 r)
  · rw [ofChars?_eq_some_iff.1 h]
    exact (List.prefix_cons_inj c).2 List.nil_prefix

end Operator

inductive Keyword where
  | printWord | ifWord | elseWord
  deriving DecidableEq, Repr

namespace Keyword

def all : List Keyword := [printWord, ifWord, elseWord]

/-- The spelling in a source; case matters. -/
def chars : Keyword → List Char
  | printWord => ['p', 'r', 'i', 'n', 't']
  | ifWord => ['i', 'f']
  | elseWord => ['e', 'l', 's', 'e']

def name : Keyword → String
  | printWord => "KeywordPrint"
  | ifWord => "KeywordIf"
  | elseWord => "KeywordElse"

def ofChars? (cs : List Char) : Option Keyword := all.find? (fun k => k.chars == cs)

theorem ofChars?_chars (k : Keyword) : ofChars? k.chars = some k := by
  cases k <;> decide

theorem ofChars?_eq_some_iff {cs : List Char} {k : Keyword} : ofChars? cs = some k ↔ k.chars = cs := by
  constructor
  · intro h
    have e := List.find?_some h
    exact eq_of_beq e
  · rintro rfl
    exact ofChars?_chars k

end Keyword
end ExprLexer
