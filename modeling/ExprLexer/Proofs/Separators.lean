import ExprLexer.Position

/-!
# Separators

Texts that are put together with a separator are told apart again where the first or the last separator stands.
Numbers hold none, so the text of a position determines its line and its column: `Position.text_inj`.
-/
namespace ExprLexer

section Cut

variable {c : Char} {front front' back back' : List Char}

theorem idxOf?_append_cons (h : c ∉ front) (back : List Char) :
    (front ++ c :: back).idxOf? c = some front.length := by
  have hnone : front.findIdx? (· == c) = none := List.idxOf?_eq_none_iff.2 h
  simp [List.idxOf?, List.findIdx?_append, List.findIdx?_cons, hnone]

/-- Two texts cut at their first separator. -/
theorem append_cons_inj_first (h : c ∉ front) (h' : c ∉ front') :
    front ++ c :: back = front' ++ c :: back' ↔ front = front' ∧ back = back' := by
  constructor
  · intro heq
    have hplace := congrArg (List.idxOf? c) heq
    rw [idxOf?_append_cons h, idxOf?_append_cons h', Option.some.injEq] at hplace
    obtain ⟨hfront, hback⟩ := List.append_inj heq hplace
    exact ⟨hfront, List.tail_eq_of_cons_eq hback⟩
  · rintro ⟨rfl, rfl⟩
    rfl

/-- Two texts cut at their last separator. -/
theorem append_cons_inj_last (h : c ∉ back) (h' : c ∉ back') :
    front ++ c :: back = front' ++ c :: back' ↔ front = front' ∧ back = back' := by
  have hmirror : back.reverse ++ c :: front.reverse = back'.reverse ++ c :: front'.reverse ↔ _ :=
    append_cons_inj_first (mt List.mem_reverse.1 h) (mt List.mem_reverse.1 h')
  rw [← List.reverse_inj]
  simpa [and_comm] using hmirror

end Cut

/-! ## Numbers -/

theorem toList_repr_inj {m n : Nat} : m.repr.toList = n.repr.toList ↔ m = n := by
  constructor
  · intro h
    rw [Nat.toList_repr, Nat.toList_repr] at h
    calc
      m = Nat.ofDigitChars 10 (Nat.toDigits 10 m) 0 := Nat.ofDigitChars_ten_toDigits.symm
      _ = Nat.ofDigitChars 10 (Nat.toDigits 10 n) 0 := by rw [h]
      _ = n := Nat.ofDigitChars_ten_toDigits
  · intro h
    rw [h]

theorem not_mem_repr {c : Char} (h : c.isDigit = false) (n : Nat) : c ∉ n.repr.toList := by
  rw [Nat.toList_repr]
  intro hc
  rw [Nat.isDigit_of_mem_toDigits (by decide) (by decide) hc] at h
  cases h

namespace Position

theorem toList_text (p : Position) :
    p.text.toList = p.line.toNat.repr.toList ++ ':' :: p.column.toNat.repr.toList := by
  simp [text]

theorem not_mem_text {c : Char} (hdigit : c.isDigit = false) (hcolon : c ≠ ':') (p : Position) :
    c ∉ p.text.toList := by
  rw [toList_text]
  apply List.not_mem_append (not_mem_repr hdigit _)
  exact List.not_mem_cons_of_ne_of_not_mem hcolon (not_mem_repr hdigit _)

theorem text_inj {p q : Position} : p.text = q.text ↔ p.line = q.line ∧ p.column = q.column := by
  have hcolon (n : Nat) : ':' ∉ n.repr.toList := not_mem_repr (by decide) n
  rw [← String.toList_inj, toList_text, toList_text, append_cons_inj_first (hcolon _) (hcolon _), toList_repr_inj,
    toList_repr_inj, UInt32.toNat_inj, UInt32.toNat_inj]

end Position
end ExprLexer
