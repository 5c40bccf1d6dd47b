import ExprLexer.Proofs.Failures

/-!
# Lines of reported positions

The lexer counts lines and columns while it reads; a lookup cuts the whole source into lines and adds up their bytes. On
every position that a scan reports, the two agree: `lineAt?_tracks`.
-/
namespace ExprLexer

/-- A line with a text at a position. The line has the number of the position, and the text begins behind the characters
that the column counts, which are the bytes of the line before it, and is over before the newline. -/
structure Line.Holds (line : Line) (p : Position) (before text after : List Char) : Prop where
  number : line.number = p.line.toNat
  chars : line.chars = before ++ (text ++ after)
  offset : line.offset = utf8Length before
  column : p.column.toNat = before.length + 1
  newline : '\n' ∉ before ++ text

theorem newline_not_mem_lastLine (cs : List Char) : '\n' ∉ lastLine cs := by
  intro hnewline
  have hkept := List.mem_rtakeWhile_imp hnewline
  contradiction

/-- The line that is found for the position of a text holds it there. -/
theorem StandsAt.exists_line {source : String} {p : Position} {text : List Char} (h : StandsAt source p text)
    (hlen : source.length ≤ 2 ^ 32 - 2) :
    ∃ line before after, lineAt? source p.offset = some line ∧ line.Holds p before text after := by
  have hline : '\n' ∉ text := h.not_mem (by decide)
  obtain ⟨before, rest, hsource, rfl, hne, _⟩ := h
  have hlength := congrArg List.length hsource
  rw [String.length_toList, List.length_append] at hlength
  have hmarks : (Position.start.after before).Marks before := Position.marks_after (by omega)
  refine ⟨_, lastLine before, firstLine rest, lineAt?_of_text hsource hne hline, ?_⟩
  constructor
  case number => exact hmarks.line.symm
  case chars => rfl
  case offset => rfl
  case column => simpa [Nat.add_comm] using hmarks.column
  case newline => exact List.not_mem_append (newline_not_mem_lastLine before) hline

/-- In a source that is short enough for the counters, the line found for the offset of a token, an error or a
diagnostic has the number that was counted, and holds the text that the report is about at the column that was counted.
For the end there is no line. -/
theorem lineAt?_tracks (source : String) (hlen : source.length ≤ 2 ^ 32 - 2) :
    (∀ x ∈ results source, x.isEnd = false → ∃ line before after,
      lineAt? source x.start.offset = some line ∧ line.Holds x.start before x.lexeme.toList after) ∧
    (∀ d ∈ diagnostics source, ∃ line before after,
      lineAt? source d.position.offset = some line ∧ line.Holds d.position before [d.character] after) ∧
    ∀ x ∈ results source, x.isEnd → lineAt? source x.start.offset = none := by
  refine ⟨?_, ?_, ?_⟩
  · intro x hx hplain
    exact (standsAt_of_mem_results hx hplain).exists_line hlen
  · intro d hd
    exact (standsAt_of_mem_diagnostics hd).exists_line hlen
  · intro x hx hend
    rw [results_eq, List.mem_append, List.mem_singleton] at hx
    rcases hx with hx | rfl
    · have hplain := (List.mem_filter.1 hx).2
      simp [hend] at hplain
    · apply lineAt?_eq_none_iff.2
      apply Nat.le_of_eq
      rw [← utf8Length_toList]
      exact (Position.start_after_offset _).symm

theorem lineAt?_tracks_two_lines :
    "é\nä @".length ≤ 2 ^ 32 - 2 ∧ ⟨⟨6, 2, 3⟩, '@'⟩ ∈ diagnostics "é\nä @" ∧ ∃ line before after,
      lineAt? "é\nä @" 6 = some line ∧ line.Holds ⟨6, 2, 3⟩ before ['@'] after := by
  have hlen : "é\nä @".length ≤ 2 ^ 32 - 2 := by decide
  have hd : ⟨⟨6, 2, 3⟩, '@'⟩ ∈ diagnostics "é\nä @" := by decide +kernel
  exact ⟨hlen, hd, (lineAt?_tracks "é\nä @" hlen).2.1 _ hd⟩

end ExprLexer
