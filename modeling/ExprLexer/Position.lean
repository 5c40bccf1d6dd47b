import ExprLexer.Text.Utf8

/-!
# Positions in a source

A position records how much of a source lies before it: the bytes, the lines and the characters of its
own line. Lines and columns are counted from 1 in 32-bit words. The position after a text depends only
on the text, so every reader of a source assigns the same positions.
-/
namespace ExprLexer

/-- A point between two characters of a source. -/
structure Position where
  offset : Nat
  line : UInt32
  column : UInt32
  deriving DecidableEq, Repr

namespace Position

def start : Position := ⟨0, 1, 1⟩

/-- The position after one more character; a newline belongs to the line that it ends. -/
def next (p : Position) (c : Char) : Position :=
  if c = '\n' then ⟨p.offset + c.utf8Size, p.line + 1, 1⟩
  else ⟨p.offset + c.utf8Size, p.line, p.column + 1⟩

def after (p : Position) (cs : List Char) : Position := cs.foldl next p

/-- A position as people read it, `line:column`. -/
def text (p : Position) : String :=
  p.line.toNat.repr ++ ":" ++ p.column.toNat.repr

/-- Positions are ordered by offset, then by line, then by column. -/
instance : Ord Position where
  compare p q := (compare p.offset q.offset).then
    ((compare p.line q.line).then (compare p.column q.column))

@[simp] theorem after_nil (p : Position) : p.after [] = p := rfl

@[simp] theorem after_cons (p : Position) (c : Char) (cs : List Char) :
    p.after (c :: cs) = (p.next c).after cs := rfl

theorem after_append (p : Position) (cs ds : List Char) :
    p.after (cs ++ ds) = (p.after cs).after ds :=
  List.foldl_append

@[simp] theorem next_offset (p : Position) (c : Char) :
    (p.next c).offset = p.offset + c.utf8Size := by
  unfold next
  split <;> rfl

theorem after_offset (p : Position) (cs : List Char) :
    (p.after cs).offset = p.offset + utf8Length cs := by
  induction cs generalizing p with
  | nil => rfl
  | cons c cs ih => rw [after_cons, ih, next_offset, utf8Length_cons, Nat.add_assoc]

theorem start_after_offset (cs : List Char) : (start.after cs).offset = utf8Length cs := by
  rw [after_offset, start, Nat.zero_add]

end Position

/-- A stretch of a source, from where its first character begins to where its last one ends. -/
structure Span where
  start : Position
  stop : Position
  deriving DecidableEq, Repr

end ExprLexer
