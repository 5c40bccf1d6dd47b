import ExprLexer.Text.Invisible

/-!
# Quoted text

A text between double quotes in which every character can be seen. Quotes and backslashes get a backslash,
four characters have an escape of a letter or a digit, and all other invisible characters are written as
code points. Distinct texts stay distinct.
-/
namespace ExprLexer

/-- The code point of a character, `\u{…}` in lower-case hexadecimal. -/
def codeEscape (c : Char) : List Char :=
  ['\\', 'u', '{'] ++ Nat.toDigits 16 c.toNat ++ ['}']

def quotedChar (c : Char) : List Char :=
  if c = '"' ∨ c = '\\' then ['\\', c]
  else if c = '\t' then ['\\', 't']
  else if c = '\n' then ['\\', 'n']
  else if c = '\r' then ['\\', 'r']
  else if c = '\x00' then ['\\', '0']
  else if isInvisible c then codeEscape c
  else [c]

def quoted (s : String) : String :=
  String.ofList ('"' :: s.toList.flatMap quotedChar ++ ['"'])

end ExprLexer
