import Mathlib.Data.List.Chain
import Mathlib.Data.List.SplitBy
import ExprLexer.Text.Lines

/-!
# Line by line

A text is its last line, or a line with its newline and the text behind. What is done to a text line by line is followed
by induction on the lines: `lines_induction`.
-/
namespace ExprLexer

@[elab_as_elim]
theorem lines_induction {P : List Char → Prop} (last : ∀ line, '\n' ∉ line → P line)
    (more : ∀ line rest, '\n' ∉ line → P rest → P (line ++ '\n' :: rest)) (cs : List Char) : P cs := by
  induction hn : cs.length using Nat.strongRecOn generalizing cs with
  | ind n ih =>
      by_cases hcs : '\n' ∈ cs
      · obtain ⟨line, rest, rfl, hline⟩ := List.eq_append_cons_of_mem hcs
        apply more line rest hline
        refine ih rest.length ?_ rest rfl
        rw [← hn, List.length_append, List.length_cons]
        omega
      · exact last cs hcs

variable {line : List Char}

theorem forall_ne_newline (h : '\n' ∉ line) : ∀ c ∈ line, (c == '\n') = false := by
  intro c hc
  exact beq_eq_false_iff_ne.2 (ne_of_mem_of_not_mem hc h)

theorem splitOn_of_not_mem (h : '\n' ∉ line) : line.splitOn '\n' = [line] :=
  List.splitOnP_eq_singleton (forall_ne_newline h)

theorem splitOn_append_newline (h : '\n' ∉ line) (rest : List Char) :
    (line ++ '\n' :: rest).splitOn '\n' = line :: rest.splitOn '\n' :=
  List.splitOnP_append_cons_of_forall_mem (forall_ne_newline h) '\n' rfl rest

theorem splitOn_rows {rows : List (List Char)} (h : ∀ row ∈ rows, '\n' ∉ row) (rest : List Char) :
    (rows.flatMap (· ++ ['\n']) ++ rest).splitOn '\n' = rows ++ rest.splitOn '\n' := by
  induction rows with
  | nil => rfl
  | cons row rows ih =>
      obtain ⟨hrow, hrows⟩ := List.forall_mem_cons.1 h
      simp only [List.flatMap_cons, List.append_assoc, List.cons_append, List.nil_append]
      rw [splitOn_append_newline hrow, ih hrows]

theorem isChain_of_not_mem (h : '\n' ∉ line) : line.IsChain fun c _ => (c != '\n') = true := by
  apply List.Pairwise.isChain
  apply List.pairwise_of_forall_mem_list
  intro c hc _ _
  exact bne_iff_ne.2 (ne_of_mem_of_not_mem hc h)

theorem lines_of_not_mem (h : '\n' ∉ line) (hne : line ≠ []) : lines line = [line] :=
  List.splitBy_of_isChain hne (isChain_of_not_mem h)

theorem lines_append_newline (h : '\n' ∉ line) (rest : List Char) :
    lines (line ++ '\n' :: rest) = (line ++ ['\n']) :: lines rest := by
  have hline : lines (line ++ ['\n']) = [line ++ ['\n']] := by
    apply List.splitBy_of_isChain (by simp)
    rw [List.isChain_append]
    refine ⟨isChain_of_not_mem h, List.isChain_singleton _, ?_⟩
    intro c hc _ _
    exact bne_iff_ne.2 (ne_of_mem_of_not_mem (List.mem_of_getLast? hc) h)
  have happend : line ++ '\n' :: rest = (line ++ ['\n']) ++ rest := by simp
  rw [happend, lines, List.splitBy_append]
  · exact congrArg (· ++ lines rest) hline
  · simp

end ExprLexer
