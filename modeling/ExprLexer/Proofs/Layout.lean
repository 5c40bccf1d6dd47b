import ExprLexer.Excerpt
import ExprLexer.Proofs.LineEndings
import ExprLexer.Proofs.Lookup
import ExprLexer.Proofs.Separators

/-!
# The layout of a failure

A failure is laid out unless its caret is too far to the right: `Failure.exists_render_iff`. Its last two rows are the
line, without the white space around it, and the caret: `Failure.lastRows?_render`.
-/
namespace ExprLexer

/-! ## What can be laid out -/

/-- A failure whose caret stands in a field that can be laid out. -/
def Failure.Fits (e : Failure) (source : String) : Prop :=
  ∀ line ∈ lineAt? source e.position.offset, line.caretWidth e.position.column.toNat ≤ maxFieldWidth

theorem Line.caretWidth_le_iff (line : Line) (column : Nat) :
    line.caretWidth column ≤ maxFieldWidth ↔ column ≤ line.indent + maxFieldWidth := by
  have hone : 1 ≤ maxFieldWidth := by decide
  rw [caretWidth, Nat.max_le, Nat.sub_le_iff_le_add', and_iff_left hone]

theorem Failure.fits_iff {e : Failure} {source : String} {line : Line}
    (h : lineAt? source e.position.offset = some line) :
    e.Fits source ↔ line.caretWidth e.position.column.toNat ≤ maxFieldWidth := by
  rw [Fits, h]
  simp

theorem Failure.render_eq_error {e : Failure} {source : String} (h : ¬ e.Fits source) (file : String) :
    ∃ width, maxFieldWidth < width ∧ e.render source file = .error (.widthOutOfRange width) := by
  cases hline : lineAt? source e.position.offset with
  | none =>
      rw [Fits, hline] at h
      exact absurd nofun h
  | some line =>
      rw [fits_iff hline] at h
      refine ⟨line.caretWidth e.position.column.toNat, Nat.lt_of_not_le h, ?_⟩
      rw [render, hline]
      simp only [Line.excerpt, if_neg h]
      rfl

theorem Failure.exists_render_iff (e : Failure) (source file : String) :
    (∃ text, e.render source file = .ok text) ↔ e.Fits source := by
  constructor
  · rintro ⟨text, htext⟩
    by_contra hfits
    obtain ⟨width, _, herror⟩ := render_eq_error hfits file
    rw [herror] at htext
    cases htext
  · intro hfits
    cases hline : lineAt? source e.position.offset with
    | none => exact ⟨_, by rw [render, hline]⟩
    | some line =>
        rw [fits_iff hline] at hfits
        rw [render, hline]
        simp only [Line.excerpt, if_pos hfits]
        exact ⟨_, rfl⟩

theorem Failure.not_fits_of_error {e : Failure} {source file : String} {error : LayoutError}
    (h : e.render source file = .error error) : ¬ e.Fits source := by
  rw [← exists_render_iff e source file, h]
  rintro ⟨_, htext⟩
  cases htext

/-! ## The rows of an excerpt -/

/-- The last two rows of a text. -/
def lastRows? (text : String) : Option (List Char × List Char) :=
  match (text.toList.splitOn '\n').reverse with
  | [] :: caret :: row :: _ => some (row, caret)
  | _ => none

theorem lastRows?_eq (head : List Char) {text : String} {row caret : List Char} (hrow : '\n' ∉ row)
    (hcaret : '\n' ∉ caret) (h : text.toList = head ++ '\n' :: (row ++ '\n' :: (caret ++ ['\n']))) :
    lastRows? text = some (row, caret) := by
  have hnil : ([] : List Char).splitOn '\n' = [[]] := rfl
  rw [lastRows?, h, List.splitOn_append_cons_self, splitOn_append_newline hrow, splitOn_append_newline hcaret, hnil,
    List.reverse_append]
  rfl

theorem alignRight_singleton (fill c : Char) (width : Nat) :
    alignRight fill width [c] = List.replicate (width - 1) fill ++ [c] := rfl

theorem trimmed_subset (cs : List Char) : trimmed cs ⊆ cs := by
  intro c hc
  have hdropped : c ∈ cs.dropWhile isWhiteSpace :=
    List.mem_reverse.1 ((List.dropWhile_suffix isWhiteSpace).subset (List.mem_reverse.1 hc))
  exact (List.dropWhile_suffix isWhiteSpace).subset hdropped

theorem Line.newline_not_mem_trimmed {source : String} {offset : Nat} {line : Line}
    (h : lineAt? source offset = some line) : '\n' ∉ trimmed line.chars := by
  obtain ⟨above, below, hline⟩ := exists_standsIn h
  obtain ⟨bare, hbare, hchars | ⟨hchars, _⟩⟩ := hline.closes
  · rw [hchars, trimmed_append bare (by decide)]
    exact fun h => hbare (trimmed_subset bare h)
  · rw [hchars]
    exact fun h => hbare (trimmed_subset bare h)

/-- The margin of a row that shows a line. -/
def Line.margin (line : Line) : List Char := line.number.repr.toList ++ [' ', '|', ' ']

/-- The blanks in front of a bar that has no number before it. -/
def Line.blanks (line : Line) : List Char := List.replicate (line.number.repr.length + 1) ' '

theorem Line.not_mem_blanks {c : Char} (h : c ≠ ' ') (line : Line) : c ∉ line.blanks := by
  simp [blanks, List.mem_replicate, h]

def Line.caretRow (line : Line) (column : Nat) : List Char :=
  line.blanks ++ '|' :: ' ' :: (List.replicate (line.caretWidth column - 1) '-' ++ ['^'])

theorem Line.caretRow_eq (line : Line) (column : Nat) :
    ∃ gap, line.caretRow column = gap ++ ['^'] ∧ '^' ∉ gap ∧
      gap.length = line.margin.length + (line.caretWidth column - 1) := by
  refine ⟨line.blanks ++ '|' :: ' ' :: List.replicate (line.caretWidth column - 1) '-', ?_, ?_, ?_⟩
  · simp [caretRow]
  · apply List.not_mem_append (line.not_mem_blanks (by decide))
    simp [List.mem_replicate]
  · simp only [margin, blanks, List.length_append, List.length_replicate, List.length_cons, List.length_nil,
      String.length_toList]
    omega

theorem Line.newline_not_mem_caretRow (line : Line) (column : Nat) : '\n' ∉ line.caretRow column := by
  apply List.not_mem_append (line.not_mem_blanks (by decide))
  simp [List.mem_replicate]

theorem Line.excerpt_eq {line : Line} {column : Nat} (h : line.caretWidth column ≤ maxFieldWidth) :
    line.excerpt column = .ok (String.ofList (line.blanks ++ '|' :: '\n' :: (line.margin ++ trimmed line.chars ++
      '\n' :: (line.caretRow column ++ ['\n'])))) := by
  have hbar : alignRight ' ' (line.number.repr.toList.length + 2) ['|'] = line.blanks ++ ['|'] := by
    rw [alignRight_singleton, String.length_toList]
    rfl
  simp only [excerpt, if_pos h, hbar, alignRight_singleton, margin, caretRow, List.append_assoc, List.cons_append,
    List.nil_append]

/-- All that is written of a failure on a line. -/
theorem Failure.render_eq_rows {e : Failure} {source : String} {line : Line}
    (hline : lineAt? source e.position.offset = some line) (hfits : e.Fits source) (file : String) :
    e.render source file = .ok (e.header ++ "-> " ++ file ++ "\n" ++ String.ofList
      (line.blanks ++ '|' :: '\n' :: (line.margin ++ trimmed line.chars ++
        '\n' :: (line.caretRow e.position.column.toNat ++ ['\n'])))) := by
  rw [render, hline]
  dsimp only
  rw [Line.excerpt_eq ((fits_iff hline).1 hfits)]
  rfl

theorem Failure.lastRows?_render {e : Failure} {source : String} {line : Line}
    (hline : lineAt? source e.position.offset = some line) (hfits : e.Fits source) (file : String) :
    ∃ text, e.render source file = .ok text ∧
      lastRows? text = some (line.margin ++ trimmed line.chars, line.caretRow e.position.column.toNat) := by
  have hrow : '\n' ∉ line.margin ++ trimmed line.chars := by
    refine List.not_mem_append ?_ (Line.newline_not_mem_trimmed hline)
    exact List.not_mem_append (not_mem_repr (by decide) line.number) (by decide)
  refine ⟨_, render_eq_rows hline hfits file, ?_⟩
  apply lastRows?_eq ((e.header ++ "-> " ++ file ++ "\n").toList ++ (line.blanks ++ ['|'])) hrow
    (line.newline_not_mem_caretRow _)
  simp only [String.toList_append, String.toList_ofList, List.append_assoc, List.cons_append, List.nil_append]

end ExprLexer
