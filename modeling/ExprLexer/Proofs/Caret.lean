import ExprLexer.Proofs.Failures
import ExprLexer.Proofs.Layout

/-!
# The caret of a failure

The caret stands below the first character of a failure's text if the line is indented with spaces alone and does not
end in white space from that character on: `Failure.marked_iff`. Other white space in front of a line is not shown
either, but the caret is moved left for spaces only.
-/
namespace ExprLexer

/-! ## White space around a line -/

/-- How much white space a line begins with. -/
def Line.lead (line : Line) : Nat := (line.chars.takeWhile isWhiteSpace).length

theorem length_takeWhile_le_iff (p : Char → Bool) (xs : List Char) (c : Char) (ys : List Char) :
    ((xs ++ c :: ys).takeWhile p).length ≤ xs.length ↔ ∃ d ∈ xs ++ [c], p d = false := by
  induction xs with
  | nil => cases hc : p c <;> simp [hc]
  | cons x xs ih => cases hx : p x <;> simp_all

theorem trimmed_append_rtakeWhile (cs : List Char) :
    trimmed cs ++ (cs.dropWhile isWhiteSpace).rtakeWhile isWhiteSpace = cs.dropWhile isWhiteSpace :=
  List.rdropWhile_append_rtakeWhile

theorem Line.getElem?_lead_add {line : Line} {i : Nat} (h : i < (trimmed line.chars).length) :
    line.chars[line.lead + i]? = (trimmed line.chars)[i]? := by
  calc line.chars[line.lead + i]?
      = (line.chars.takeWhile isWhiteSpace ++ line.chars.dropWhile isWhiteSpace)[line.lead + i]? := by
        rw [List.takeWhile_append_dropWhile]
    _ = (line.chars.dropWhile isWhiteSpace)[i]? := by
        rw [lead, List.getElem?_append_right (Nat.le_add_right _ i), Nat.add_sub_cancel_left]
    _ = (trimmed line.chars)[i]? := by rw [← trimmed_append_rtakeWhile, List.getElem?_append_left h]

section Place

variable {line : Line} {before after : List Char} {c : Char} (hchars : line.chars = before ++ c :: after)

include hchars

theorem Line.indent_le (hc : c ≠ ' ') : line.indent ≤ before.length := by
  rw [indent, hchars, length_takeWhile_le_iff]
  exact ⟨c, by simp, beq_eq_false_iff_ne.2 hc⟩

/-- A character is not cut off at the right if something other than white space stands there or behind. -/
theorem Line.lt_lead_add_iff (hlead : line.lead ≤ before.length) :
    before.length < line.lead + (trimmed line.chars).length ↔ ∃ d ∈ c :: after, isWhiteSpace d = false := by
  have hsplit : line.chars.takeWhile isWhiteSpace ++ line.chars.dropWhile isWhiteSpace = before ++ c :: after := by
    rw [List.takeWhile_append_dropWhile, hchars]
  obtain ⟨indented, hbefore, hkept⟩ : ∃ indented,
      before = line.chars.takeWhile isWhiteSpace ++ indented ∧
      line.chars.dropWhile isWhiteSpace = indented ++ c :: after := by
    rcases List.append_eq_append_iff.1 hsplit with h | ⟨spare, hspare, hafter⟩
    · exact h
    · rw [lead, hspare, List.length_append] at hlead
      obtain rfl := List.length_eq_zero_iff.1 (show spare.length = 0 by omega)
      exact ⟨[], by rw [hspare, List.append_nil, List.append_nil], hafter.symm⟩
  have hright : ((line.chars.dropWhile isWhiteSpace).rtakeWhile isWhiteSpace).length ≤ after.length ↔
      ∃ d ∈ c :: after, isWhiteSpace d = false := by
    have hreverse : (indented ++ c :: after).reverse = after.reverse ++ c :: indented.reverse := by simp
    have hmirrored := length_takeWhile_le_iff isWhiteSpace after.reverse c indented.reverse
    rw [List.length_reverse] at hmirrored
    rw [hkept, List.rtakeWhile, List.length_reverse, hreverse, hmirrored]
    simp [or_comm]
  have hlength := congrArg List.length (trimmed_append_rtakeWhile line.chars)
  rw [hkept, List.length_append, List.length_append, List.length_cons, ← hkept] at hlength
  rw [← hright, lead, hbefore, List.length_append]
  omega

end Place

/-! ## The marked character -/

def aboveCaret? (text : String) : Option Char := do
  let (row, caret) ← lastRows? text
  let i ← caret.idxOf? '^'
  row[i]?

/-- The caret of a text stands below the character of a line at `i`: the row above shows the line without the white
space around it, and the caret is as far behind the margin as the character is behind the white space. -/
def Line.Marked (line : Line) (i : Nat) (text : String) : Prop :=
  ∃ margin gap k, lastRows? text = some (margin ++ trimmed line.chars, gap ++ ['^']) ∧ '^' ∉ gap ∧
    gap.length = margin.length + k ∧ k < (trimmed line.chars).length ∧ line.lead + k = i

theorem aboveCaret?_eq {text : String} {margin row gap : List Char} {k : Nat}
    (h : lastRows? text = some (margin ++ row, gap ++ ['^'])) (hgap : '^' ∉ gap)
    (hlength : gap.length = margin.length + k) : aboveCaret? text = row[k]? := by
  simp only [aboveCaret?, h, Option.bind_eq_bind, Option.bind_some, idxOf?_append_cons hgap []]
  rw [hlength, List.getElem?_append_right (Nat.le_add_right _ k), Nat.add_sub_cancel_left]

theorem Line.Marked.aboveCaret?_eq {line : Line} {i : Nat} {text : String} (h : line.Marked i text) :
    aboveCaret? text = line.chars[i]? := by
  obtain ⟨margin, gap, k, hrows, hgap, hlength, hk, rfl⟩ := h
  rw [ExprLexer.aboveCaret?_eq hrows hgap hlength, getElem?_lead_add hk]

/-- What the caret of a failure stands below. It marks the character of its column unless other white space than spaces
is left out in front of the row, or the character itself is left out at its end. -/
theorem Failure.render_marks {e : Failure} {source : String} {line : Line} {before after : List Char} {c : Char}
    (hline : lineAt? source e.position.offset = some line) (hchars : line.chars = before ++ c :: after)
    (hcolumn : e.position.column.toNat = before.length + 1) (hc : c ≠ ' ') (hfits : e.Fits source) (file : String) :
    ∃ text, e.render source file = .ok text ∧
      aboveCaret? text = (trimmed line.chars)[before.length - line.indent]? ∧
      (line.Marked before.length text ↔
        line.lead = line.indent ∧ ∃ d ∈ c :: after, isWhiteSpace d = false) := by
  obtain ⟨text, htext, hrows⟩ := lastRows?_render hline hfits file
  obtain ⟨gap, hcaret, hgap, hlength⟩ := line.caretRow_eq e.position.column.toNat
  have hindent := Line.indent_le hchars hc
  have hwidth : line.caretWidth e.position.column.toNat - 1 = before.length - line.indent := by
    rw [Line.caretWidth, hcolumn]
    omega
  rw [hcaret] at hrows
  rw [hwidth] at hlength
  refine ⟨text, htext, aboveCaret?_eq hrows hgap hlength, ?_, ?_⟩
  · rintro ⟨margin, gap', k, hrows', _, hlength', hk, hplace⟩
    rw [hrows, Option.some.injEq, Prod.mk.injEq, List.append_left_inj, List.append_left_inj] at hrows'
    obtain ⟨rfl, rfl⟩ := hrows'
    have hlead : line.lead = line.indent := by omega
    refine ⟨hlead, (Line.lt_lead_add_iff hchars (by omega)).1 ?_⟩
    omega
  · rintro ⟨hlead, hshown⟩
    have hright := (Line.lt_lead_add_iff hchars (by omega)).2 hshown
    exact ⟨line.margin, gap, before.length - line.indent, hrows, hgap, hlength, by omega, by omega⟩

/-- Every failure whose column is near enough is shown. The caret stands below the character at which its text begins
just when the white space left out in front of the row is as long as the spaces for which the caret is moved, and that
character is not left out with the white space at the end. -/
theorem Failure.marked_iff {source : String} (hsource : source.length ≤ 2 ^ 32 - 2) {e : Failure}
    (he : e ∈ failures source) (hcolumn : e.position.column.toNat ≤ maxFieldWidth) (file : String) :
    ∃ (line : Line) (before : List Char) (c : Char) (after : List Char) (text : String),
      lineAt? source e.position.offset = some line ∧ line.chars = before ++ c :: after ∧
      line.offset = utf8Length before ∧ e.position.column.toNat = before.length + 1 ∧
      e.fault.text.toList.head? = some c ∧ e.render source file = .ok text ∧
      aboveCaret? text = (trimmed line.chars)[before.length - line.indent]? ∧
      (line.Marked before.length text ↔
        line.lead = line.indent ∧ ∃ d ∈ c :: after, isWhiteSpace d = false) ∧
      (line.Marked before.length text → aboveCaret? text = some c) := by
  obtain ⟨line, before, c, after, hline, hchars, hoffset, hhead, hblank, _, hcount⟩ :=
    exists_line_of_mem_failures he
  have hc : c ≠ ' ' := by
    rintro rfl
    cases hblank
  have hfits : e.Fits source := by
    rw [fits_iff hline, Line.caretWidth_le_iff]
    exact Nat.le_add_left_of_le hcolumn
  obtain ⟨text, htext, habove, hmarked⟩ := render_marks hline hchars (hcount hsource) hc hfits file
  refine ⟨line, before, c, after, text, hline, hchars, hoffset, hcount hsource, hhead, htext, habove, hmarked, ?_⟩
  intro h
  rw [h.aboveCaret?_eq, hchars]
  simp

theorem Failure.marked_behind_spaces :
    ∃ line text, lineAt? "  é = @" 7 = some line ∧
      Failure.render ⟨.unrecognised "@", ⟨7, 1, 7⟩⟩ "  é = @" "f" = .ok text ∧
      line.Marked 6 text ∧ aboveCaret? text = some '@' := by
  have he : ⟨.unrecognised "@", ⟨7, 1, 7⟩⟩ ∈ failures "  é = @" := by decide +kernel
  have hfound : lineAt? "  é = @" 7 = some ⟨1, "  é = @".toList, 7⟩ := by decide +kernel
  obtain ⟨line, before, c, after, text, hline, hchars, hoffset, hcolumn, hhead, htext, habove, hmarked, hmarks⟩ :=
    marked_iff (by decide) he (by decide) "f"
  cases hline.symm.trans hfound
  cases hhead
  have hlength : before.length = 6 := (Nat.succ.inj hcolumn).symm
  have h := hmarked.2 ⟨by decide +kernel, '@', List.mem_cons_self, by decide⟩
  exact ⟨_, text, hfound, htext, hlength ▸ h, hmarks h⟩

/-- Behind a tab the caret stands too far to the right. -/
theorem Failure.not_marked_behind_tab :
    ¬ ∀ source file : String, source.length ≤ 2 ^ 32 - 2 →
      ∀ e ∈ failures source, e.position.column.toNat ≤ maxFieldWidth →
        ∃ text, e.render source file = .ok text ∧ aboveCaret? text = e.fault.text.toList.head? := by
  intro h
  have he : ⟨.unrecognised "@", ⟨1, 1, 2⟩⟩ ∈ failures "\t@" := by decide +kernel
  obtain ⟨text, htext, habove⟩ := h "\t@" "f" (by decide) _ he (by decide)
  have hshown : Failure.render ⟨.unrecognised "@", ⟨1, 1, 2⟩⟩ "\t@" "f" =
      .ok "Error: UnrecognisedToken\n-> f\n  |\n1 | @\n  | -^\n" := by rfl
  cases htext.symm.trans hshown
  revert habove
  decide +kernel

end ExprLexer
