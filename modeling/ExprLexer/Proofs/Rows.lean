import ExprLexer.Proofs.ByteLines
import ExprLexer.Proofs.Caret

/-!
# The rows of an excerpt

What is written of a failure: behind the header and the name of the file three rows with their bars below each other,
or one row with the position if no byte of the source is at its offset: `Failure.render_rows`.
-/
namespace ExprLexer

/-- A text cut into the white space at its two ends and what is between. -/
structure Trims (cs left shown right : List Char) : Prop where
  split : cs = left ++ (shown ++ right)
  left : ∀ c ∈ left, isWhiteSpace c
  right : ∀ c ∈ right, isWhiteSpace c
  first : ∀ c ∈ shown.head?, isWhiteSpace c = false
  last : ∀ c ∈ shown.getLast?, isWhiteSpace c = false

theorem trims_trimmed (cs : List Char) :
    Trims cs (cs.takeWhile isWhiteSpace) (trimmed cs) ((cs.dropWhile isWhiteSpace).rtakeWhile isWhiteSpace) := by
  constructor
  case split => rw [trimmed_append_rtakeWhile, List.takeWhile_append_dropWhile]
  case left => exact fun c hc => List.mem_takeWhile_imp hc
  case right => exact fun c hc => List.mem_rtakeWhile_imp hc
  case first =>
      intro c hc
      obtain ⟨more, hmore⟩ := List.head?_eq_some_iff.1 hc
      have hkept := trimmed_append_rtakeWhile cs
      have hfirst := List.head?_dropWhile_not isWhiteSpace cs
      rw [hmore, List.cons_append] at hkept
      rwa [← hkept] at hfirst
  case last =>
      intro c hc
      have hne : trimmed cs ≠ [] := by
        intro hnil
        rw [hnil] at hc
        cases hc
      have hlast := List.rdropWhile_last_not isWhiteSpace (cs.dropWhile isWhiteSpace) hne
      rw [List.getLast?_eq_some_getLast hne] at hc
      cases hc
      exact Bool.eq_false_of_not_eq_true hlast

theorem Trims.trimmed_eq {cs left shown right : List Char} (h : Trims cs left shown right) : trimmed cs = shown := by
  have hright : right.all isWhiteSpace := List.all_eq_true.2 h.right
  have hfirst : shown.dropWhile isWhiteSpace = shown := by
    cases shown with
    | nil => rfl
    | cons c shown => exact List.dropWhile_cons_of_neg (by simp [h.first c rfl])
  have hlast : shown.rdropWhile isWhiteSpace = shown := by
    rw [List.rdropWhile_eq_self_iff]
    intro hne
    simp [h.last _ (List.getLast?_eq_some_getLast hne)]
  rw [h.split, ← List.append_assoc, trimmed_append _ hright, trimmed, List.dropWhile_append_of_pos h.left, hfirst]
  exact hlast

/-- Three rows that show a part of a line, and below it a caret at the end of a field. The first bar of each of them
stands behind as many characters as the number of the line has digits, and one more. -/
structure Line.Rows (line : Line) (shown : List Char) (width : Nat) (top row caret : List Char) : Prop where
  newline : ∀ r ∈ [top, row, caret], '\n' ∉ r
  bar : ∀ r ∈ [top, row, caret], r.idxOf? '|' = some (line.number.repr.length + 1)
  top : top = line.blanks ++ ['|']
  row : row = line.number.repr.toList ++ ([' ', '|', ' '] ++ shown)
  caret : caret = line.blanks ++ '|' :: ' ' :: (List.replicate (width - 1) '-' ++ ['^'])

theorem Line.not_mem_number {c : Char} (hdigit : c.isDigit = false) (hspace : c ≠ ' ') (line : Line) :
    c ∉ line.number.repr.toList ++ [' '] :=
  List.not_mem_append (not_mem_repr hdigit _) (mt List.mem_singleton.1 hspace)

theorem Line.rows {line : Line} {shown : List Char} (h : '\n' ∉ shown) (column : Nat) :
    line.Rows shown (line.caretWidth column) (line.blanks ++ ['|']) (line.margin ++ shown) (line.caretRow column) := by
  have hmargin : line.margin ++ shown = (line.number.repr.toList ++ [' ']) ++ '|' :: ' ' :: shown := by simp [margin]
  constructor
  case newline =>
      simp only [List.forall_mem_cons]
      refine ⟨?_, ?_, line.newline_not_mem_caretRow column, List.forall_mem_nil _⟩
      · exact List.not_mem_append (line.not_mem_blanks (by decide)) (by decide)
      · rw [hmargin]
        apply List.not_mem_append (line.not_mem_number (by decide) (by decide))
        simpa using h
  case bar =>
      have hblanks := line.not_mem_blanks (show '|' ≠ ' ' by decide)
      have hnumber := line.not_mem_number (show '|'.isDigit = false by decide) (by decide)
      simp only [List.forall_mem_cons, hmargin, caretRow, idxOf?_append_cons hblanks, idxOf?_append_cons hnumber]
      refine ⟨?_, ?_, ?_, List.forall_mem_nil _⟩
      · rw [blanks, List.length_replicate]
      · rw [List.length_append, String.length_toList, List.length_singleton]
      · rw [blanks, List.length_replicate]
  case top => rfl
  case row => exact List.append_assoc _ _ _
  case caret => rfl

/-- A caret that stands below the character at its column. -/
theorem Line.idxOf?_caretRow {line : Line} {column : Nat} {front : List Char}
    (hwidth : line.caretWidth column = front.length + 1) :
    (line.caretRow column).idxOf? '^' = some (line.margin ++ front).length := by
  obtain ⟨gap, hrow, hgap, hlength⟩ := line.caretRow_eq column
  rw [hrow, idxOf?_append_cons hgap, hlength, hwidth, List.length_append, Nat.add_sub_cancel]

/-- A failure whose offset falls on the character of a line behind `before`, and whose column counts what is before. -/
structure Failure.PointsAt (e : Failure) (line : Line) (before : List Char) (c : Char) : Prop where
  starts : utf8Length before ≤ line.offset
  stops : line.offset < utf8Length before + c.utf8Size
  column : e.position.column.toNat = before.length + 1

/-- Behind the end of a source a failure is told with its position alone. Elsewhere it lies on a line, which is shown
without the white space at its two ends, unless the caret below is too far to the right. The caret stands below the
character at the place of the failure if the position counts the characters before it, the white space in front of the
line is made of spaces, and the character is shown. -/
theorem Failure.render_rows (e : Failure) (source file : String) :
    let head := e.header ++ "-> " ++ file ++ "\n"
    (source.utf8ByteSize ≤ e.position.offset →
      e.render source file = .ok (head ++ "   at " ++ e.position.text ++ "\n")) ∧
    (e.position.offset < source.utf8ByteSize ↔ ∃ (line : Line) (left shown right : List Char),
      line.Surrounds source e.position.offset ∧ Trims line.chars left shown right) ∧
    ∀ (line : Line) (left shown right : List Char), line.Surrounds source e.position.offset →
      Trims line.chars left shown right →
      let width := max (e.position.column.toNat - line.indent) 1
      width ≤ 65535 → ∃ top row caret,
        e.render source file =
          .ok (head ++ String.ofList (top ++ '\n' :: (row ++ '\n' :: (caret ++ ['\n'])))) ∧
        line.Rows shown width top row caret ∧
        ∀ front c back, shown = front ++ c :: back → left = List.replicate line.indent ' ' →
          e.PointsAt line (left ++ front) c →
          row = (line.margin ++ front) ++ c :: back ∧ caret.idxOf? '^' = some (line.margin ++ front).length := by
  intro head
  refine ⟨?_, ?_, ?_⟩
  · intro hend
    rw [render, lineAt?_eq_none_iff.2 hend]
  · rw [← exists_surrounds_iff]
    constructor
    · rintro ⟨line, hline⟩
      exact ⟨line, _, _, _, hline, trims_trimmed line.chars⟩
    · rintro ⟨line, _, _, _, hline, _⟩
      exact ⟨line, hline⟩
  · intro line left shown right hline htrims width hwidth
    have hfound := lineAt?_eq_some_iff.2 hline
    have hrender := render_eq_rows hfound ((fits_iff hfound).2 hwidth) file
    have hnewline := Line.newline_not_mem_trimmed hfound
    rw [htrims.trimmed_eq] at hrender hnewline
    refine ⟨line.blanks ++ ['|'], line.margin ++ shown, line.caretRow e.position.column.toNat, ?_, ?_, ?_⟩
    · simpa only [List.append_assoc, List.cons_append, List.nil_append] using hrender
    · exact line.rows hnewline _
    · rintro front c back rfl rfl hplace
      refine ⟨(List.append_assoc _ _ _).symm, Line.idxOf?_caretRow ?_⟩
      rw [Line.caretWidth, hplace.column, List.length_append, List.length_replicate]
      omega

theorem Failure.render_rows_line_ten :
    let source := "\n\n\n\n\n\n\n\n\n  é @\u00a0\n"
    let line : Line := ⟨10, [' ', ' ', 'é', ' ', '@', '\u00a0', '\n'], 5⟩
    let e : Failure := ⟨.unrecognised "@", ⟨14, 10, 5⟩⟩
    e.position.offset < source.utf8ByteSize ∧ line.Surrounds source e.position.offset ∧
    Trims line.chars [' ', ' '] ['é', ' ', '@'] ['\u00a0', '\n'] ∧
    max (e.position.column.toNat - line.indent) 1 ≤ 65535 ∧
    e.PointsAt line ([' ', ' '] ++ ['é', ' ']) '@' ∧
    (∃ row caret : List Char, e.render source "f" = .ok "Error: UnrecognisedToken\n-> f\n   |\n10 | é @\n   | --^\n" ∧
      row = "10 | é ".toList ++ ['@'] ∧ caret.idxOf? '^' = some "10 | é ".length) ∧
    "é".utf8ByteSize ≤ 2 ∧
    Failure.render ⟨.unrecognised "@", ⟨2, 1, 2⟩⟩ "é" "f" = .ok "Error: UnrecognisedToken\n-> f\n   at 1:2\n" := by
  intro source line e
  have hline : line.Surrounds source e.position.offset := surrounds_of_lineAt? (by decide)
  have htrims : Trims line.chars [' ', ' '] ['é', ' ', '@'] ['\u00a0', '\n'] := trims_trimmed line.chars
  have hwidth : max (e.position.column.toNat - line.indent) 1 ≤ 65535 := by decide
  have hplace : e.PointsAt line ([' ', ' '] ++ ['é', ' ']) '@' := by
    constructor <;> decide
  obtain ⟨top, row, caret, hrender, hrows, hcaret⟩ :=
    (render_rows e source "f").2.2 line _ _ _ hline htrims hwidth
  obtain ⟨hrow, hplaced⟩ := hcaret _ _ [] rfl (by decide) hplace
  rw [hrows.top, hrows.row, hrows.caret] at hrender
  refine ⟨by decide, hline, htrims, hwidth, hplace, ⟨row, caret, ?_, ?_, ?_⟩, by decide, ?_⟩
  · exact hrender.trans (by decide)
  · exact hrow.trans (by decide)
  · exact hplaced.trans (by decide)
  · exact ((render_rows ⟨.unrecognised "@", ⟨2, 1, 2⟩⟩ "é" "f").1 (by decide)).trans (by decide)

end ExprLexer
