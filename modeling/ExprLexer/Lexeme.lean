import ExprLexer.Text.Classes
import ExprLexer.Token.Kind

/-!
# Lexemes

A lexeme is the longest piece at the front of a text that is an operator, a numeral or a word. A
character that begins none of these is an unknown lexeme of its own. Cutting a lexeme off looks at most
one character past its end and loses nothing: `chars_cut_append`.
-/
namespace ExprLexer

/-- A piece of text by the class it belongs to. -/
inductive Lexeme where
  | operator (o : Operator)
  | numeral (cs : List Char)
  | word (cs : List Char)
  | unknown (c : Char)
  deriving DecidableEq, Repr

namespace Lexeme

def chars : Lexeme → List Char
  | operator o => o.chars
  | numeral cs => cs
  | word cs => cs
  | unknown c => [c]

def kind : Lexeme → TokenKind
  | operator o => .operator o
  | numeral _ => .number
  | word cs => .ofWord cs
  | unknown _ => .unknown

/-- Digits, and if a point comes next, the point and the digits behind it. -/
def cutNumeral (cs : List Char) : List Char × List Char :=
  let whole := cs.takeWhile Char.isDigit
  match cs.dropWhile Char.isDigit with
  | [] => (whole, [])
  | c :: r =>
    if c = '.' then (whole ++ c :: r.takeWhile Char.isDigit, r.dropWhile Char.isDigit)
    else (whole, c :: r)

/-- A numeral begins with a digit, or with a point that a digit follows. -/
def startsNumeral (c : Char) (r : List Char) : Bool :=
  c.isDigit || c == '.' && r.head?.any Char.isDigit

/-- The lexeme at the front of `c :: r`, and the text behind it. -/
def cut (c : Char) (r : List Char) : Lexeme × List Char :=
  match Operator.leading? c r with
  | some o => (operator o, (c :: r).drop o.chars.length)
  | none =>
    if startsNumeral c r then
      let (cs, rest) := cutNumeral (c :: r)
      (numeral cs, rest)
    else if isWordStart c then
      (word (c :: r.takeWhile isWordPart), r.dropWhile isWordPart)
    else (unknown c, r)

theorem cutNumeral_append (cs : List Char) : (cutNumeral cs).1 ++ (cutNumeral cs).2 = cs := by
  have h := @List.takeWhile_append_dropWhile _ Char.isDigit cs
  unfold cutNumeral
  split
  · next e => simpa [e] using h
  · next c r e =>
    rw [e] at h
    split
    · simp [h]
    · exact h

theorem cutNumeral_ne_nil {c : Char} {r : List Char} (h : startsNumeral c r) :
    (cutNumeral (c :: r)).1 ≠ [] := by
  unfold cutNumeral
  by_cases hc : c.isDigit
  · simp only [List.takeWhile_cons, List.dropWhile_cons, hc]
    split
    · simp
    · split <;> simp
  · have hp : c = '.' := by
      simp only [startsNumeral, Bool.or_eq_true, hc, Bool.and_eq_true, beq_iff_eq] at h
      simpa using h.elim (fun h => absurd h (by simp)) And.left
    simp [hp]

theorem chars_cut_append (c : Char) (r : List Char) : (cut c r).1.chars ++ (cut c r).2 = c :: r := by
  unfold cut
  split
  · next o h =>
    obtain ⟨rest, e⟩ := Operator.chars_prefix_of_leading? h
    simp [chars, ← e]
  · split
    · exact cutNumeral_append (c :: r)
    · split
      · simp [chars]
      · rfl

theorem chars_cut_ne_nil (c : Char) (r : List Char) : (cut c r).1.chars ≠ [] := by
  unfold cut
  split
  · exact Operator.chars_ne_nil _
  · split
    · next h => exact cutNumeral_ne_nil h
    · split <;> simp [chars]

/-- What is left behind a lexeme is shorter than the text. -/
theorem length_cut_lt (c : Char) (r : List Char) : (cut c r).2.length < (c :: r).length := by
  have h := congrArg List.length (chars_cut_append c r)
  have := List.length_pos_iff.2 (chars_cut_ne_nil c r)
  rw [List.length_append] at h
  omega

end Lexeme
end ExprLexer
