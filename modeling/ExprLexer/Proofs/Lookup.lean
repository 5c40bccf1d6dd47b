import ExprLexer.Proofs.Lines
import ExprLexer.Proofs.Positions

/-!
# Looking up lines

The line that is found for an offset is the line on which the text before the offset ends: `lineAt?_behind`. All that a
search can find is a line of the text with the offset in it: `Line.exists_standsIn`.
-/
namespace ExprLexer

theorem lastLine_of_not_mem {line : List Char} (h : '\n' ∉ line) : lastLine line = line := by
  have happend := lastLine_append h []
  rwa [List.nil_append] at happend

theorem lastLine_append_newline (cs rest : List Char) : lastLine (cs ++ '\n' :: rest) = lastLine rest := by
  induction rest using List.reverseRecOn with
  | nil => rw [lastLine_concat, if_pos rfl]; rfl
  | append_singleton rest c ih =>
      rw [← List.cons_append, ← List.append_assoc, lastLine_concat, lastLine_concat, ih]

/-- A text up to its first newline, which belongs to it. -/
def firstLine (cs : List Char) : List Char := (lines cs).headD []

theorem firstLine_of_not_mem {line : List Char} (h : '\n' ∉ line) : firstLine line = line := by
  by_cases hne : line = []
  · rw [hne]
    rfl
  · rw [firstLine, lines_of_not_mem h hne]
    rfl

theorem firstLine_append_newline {line : List Char} (h : '\n' ∉ line) (rest : List Char) :
    firstLine (line ++ '\n' :: rest) = line ++ ['\n'] := by
  rw [firstLine, lines_append_newline h]
  rfl

theorem firstLine_cons {c : Char} (h : c ≠ '\n') (rest : List Char) : firstLine (c :: rest) = c :: firstLine rest := by
  by_cases hrest : '\n' ∈ rest
  · obtain ⟨line, below, rfl, hline⟩ := List.eq_append_cons_of_mem hrest
    have hcons : '\n' ∉ c :: line := List.not_mem_cons_of_ne_of_not_mem h.symm hline
    rw [← List.cons_append, firstLine_append_newline hcons, firstLine_append_newline hline, List.cons_append]
  · have hcons : '\n' ∉ c :: rest := List.not_mem_cons_of_ne_of_not_mem h.symm hrest
    rw [firstLine_of_not_mem hcons, firstLine_of_not_mem hrest]

theorem firstLine_append {text : List Char} (h : '\n' ∉ text) (rest : List Char) :
    firstLine (text ++ rest) = text ++ firstLine rest := by
  induction text with
  | nil => rfl
  | cons c text ih =>
      rw [List.mem_cons, not_or] at h
      rw [List.cons_append, firstLine_cons (Ne.symm h.1), ih h.2, List.cons_append]

theorem Line.find?_firstLine {line rest : List Char} (hline : '\n' ∉ line) (hrest : rest ≠ []) (number : Nat) :
    find? number (utf8Length line) (lines (line ++ rest)) =
      some ⟨number, line ++ firstLine rest, utf8Length line⟩ := by
  have hmore {front : List Char} (h : front ≠ []) : utf8Length line < utf8Length (line ++ front) := by
    have hpos := utf8Length_pos h
    rw [utf8Length_append]
    omega
  by_cases hnewline : '\n' ∈ rest
  · obtain ⟨front, below, rfl, hfront⟩ := List.eq_append_cons_of_mem hnewline
    rw [← List.append_assoc, lines_append_newline (List.not_mem_append hline hfront), find?,
      firstLine_append_newline hfront, List.append_assoc, if_pos (hmore (by simp))]
  · have hne : line ++ rest ≠ [] := List.append_ne_nil_of_right_ne_nil line hrest
    rw [lines_of_not_mem (List.not_mem_append hline hnewline) hne, find?, if_pos (hmore hrest),
      firstLine_of_not_mem hnewline]

theorem Line.find?_behind (before : List Char) {rest : List Char} (hrest : rest ≠ []) (number : Nat) :
    find? number (utf8Length before) (lines (before ++ rest)) =
      some ⟨number + before.count '\n', lastLine before ++ firstLine rest, utf8Length (lastLine before)⟩ := by
  induction before using lines_induction generalizing number with
  | last line hline =>
      rw [lastLine_of_not_mem hline, List.count_eq_zero.2 hline, Nat.add_zero]
      exact find?_firstLine hline hrest number
  | more line below hline ih =>
      have hlength : utf8Length (line ++ '\n' :: below) = utf8Length (line ++ ['\n']) + utf8Length below := by
        rw [← utf8Length_append, List.append_assoc]
        rfl
      have hcount : number + (line ++ '\n' :: below).count '\n' = number + 1 + below.count '\n' := by
        rw [List.count_append, List.count_eq_zero.2 hline, List.count_cons_self]
        omega
      rw [List.append_assoc, List.cons_append, lines_append_newline hline, find?, hlength, if_neg (by omega),
        Nat.add_sub_cancel_left, ih, hcount, lastLine_append_newline]

theorem lineAt?_behind {source : String} {before rest : List Char} (hsource : source.toList = before ++ rest)
    (hrest : rest ≠ []) : lineAt? source (utf8Length before) =
      some ⟨1 + before.count '\n', lastLine before ++ firstLine rest, utf8Length (lastLine before)⟩ := by
  rw [lineAt?, hsource]
  exact Line.find?_behind before hrest 1

/-- The line that is found for the place of a text without a newline. -/
theorem lineAt?_of_text {source : String} {before text rest : List Char}
    (hsource : source.toList = before ++ (text ++ rest)) (hne : text ≠ []) (hline : '\n' ∉ text) :
    lineAt? source (Position.start.after before).offset =
      some ⟨1 + before.count '\n', lastLine before ++ (text ++ firstLine rest), utf8Length (lastLine before)⟩ := by
  have hfound := lineAt?_behind hsource (List.append_ne_nil_of_left_ne_nil hne rest)
  rwa [firstLine_append hline, ← Position.start_after_offset] at hfound

theorem Line.find?_eq_none_iff (number offset : Nat) (ls : List (List Char)) :
    find? number offset ls = none ↔ utf8Length ls.flatten ≤ offset := by
  induction ls generalizing number offset with
  | nil => simp [find?]
  | cons cs ls ih =>
      rw [find?, List.flatten_cons, utf8Length_append]
      split
      · simp
        omega
      · rw [ih]
        omega

/-- There is no line for an offset at the end of a source or beyond. -/
theorem lineAt?_eq_none_iff {source : String} {offset : Nat} :
    lineAt? source offset = none ↔ source.utf8ByteSize ≤ offset := by
  rw [lineAt?, Line.find?_eq_none_iff, lines, List.flatten_splitBy, utf8Length_toList]

/-- A line of a text with what stands above and below it. The first line of the text has the number `first`, and the
place in the line is the one at `offset` in the text. -/
structure Line.StandsIn (line : Line) (cs : List Char) (first offset : Nat) (above below : List Char) : Prop where
  chars : cs = above ++ (line.chars ++ below)
  number : line.number = first + above.count '\n'
  offset : offset = utf8Length above + line.offset
  inside : line.offset < utf8Length line.chars
  opens : above = [] ∨ ∃ more, above = more ++ ['\n']
  closes : ∃ bare, '\n' ∉ bare ∧ (line.chars = bare ++ ['\n'] ∨ line.chars = bare ∧ below = [])

theorem Line.StandsIn.below {line : Line} {bare cs : List Char} {first offset : Nat} {above below : List Char}
    (h : line.StandsIn cs (first + 1) offset above below) (hbare : '\n' ∉ bare) :
    line.StandsIn (bare ++ '\n' :: cs) first (utf8Length (bare ++ ['\n']) + offset) (bare ++ '\n' :: above) below := by
  constructor
  case chars => rw [h.chars, List.append_assoc, List.cons_append]
  case number =>
      rw [h.number, List.count_append, List.count_eq_zero.2 hbare, List.count_cons_self]
      omega
  case offset =>
      rw [h.offset, List.append_cons bare '\n' above, utf8Length_append _ above, Nat.add_assoc]
  case inside => exact h.inside
  case opens =>
      right
      rcases h.opens with rfl | ⟨more, rfl⟩
      · exact ⟨bare, rfl⟩
      · exact ⟨bare ++ '\n' :: more, by simp⟩
  case closes => exact h.closes

/-- All that the search for a line can find. -/
theorem Line.exists_standsIn {cs : List Char} {first offset : Nat} {line : Line}
    (h : find? first offset (lines cs) = some line) : ∃ above below, line.StandsIn cs first offset above below := by
  induction cs using lines_induction generalizing first offset with
  | last bare hbare =>
      by_cases hne : bare = []
      · rw [hne] at h
        cases h
      · rw [lines_of_not_mem hbare hne, find?] at h
        split at h
        next hinside =>
          cases h
          exact ⟨[], [], (List.append_nil bare).symm, rfl, (Nat.zero_add _).symm, hinside, .inl rfl, bare, hbare,
            .inr ⟨rfl, rfl⟩⟩
        · cases h
  | more bare rest hbare ih =>
      rw [lines_append_newline hbare, find?] at h
      split at h
      next hinside =>
        cases h
        exact ⟨[], rest, by simp, rfl, (Nat.zero_add _).symm, hinside, .inl rfl, bare, hbare, .inl rfl⟩
      next hbelow =>
        obtain ⟨above, below, hline⟩ := ih h
        have hoffset : utf8Length (bare ++ ['\n']) + (offset - utf8Length (bare ++ ['\n'])) = offset :=
          Nat.add_sub_cancel' (Nat.le_of_not_lt hbelow)
        have hstands := hline.below hbare
        rw [hoffset] at hstands
        exact ⟨_, below, hstands⟩

end ExprLexer
