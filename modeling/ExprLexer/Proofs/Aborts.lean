import ExprLexer.Proofs.Listing

/-!
# Runs that are cut short

A failure is shown unless it lies too far to the right of the spaces that its line begins with. A run goes on through
the end of its source just when all its malformed numbers are shown: `CommandLine.list_goes_on_iff`.
-/
namespace ExprLexer

theorem Failure.forall_render_ne_iff (e : Failure) (source file : String) :
    (∀ text, e.render source file ≠ .ok text) ↔ ¬ e.Fits source := by
  rw [← e.exists_render_iff source file, not_exists]

/-- Where a failure is shown, and what a run does where a malformed number is not. The number of a line is never too
long to be laid out. -/
theorem CommandLine.list_goes_on_iff (path source : String) :
    (∀ e ∈ failures source, ∃ line, lineAt? source e.position.offset = some line ∧
      (source.length < 2 ^ 64 → line.number.repr.length + 2 ≤ 22) ∧
      ((∃ text, e.render source path = .ok text) ↔ e.position.column.toNat ≤ line.indent + maxFieldWidth)) ∧
    ((∀ e ∈ malformedNumbers source, ∃ text, e.render source path = .ok text) ↔
      (list path source).writes.getLast? = some ⟨.out, "=== End of Tokens ===\n"⟩) ∧
    ((∃ e ∈ malformedNumbers source, ∀ text, e.render source path ≠ .ok text) ↔
      (list path source).exitCode = 101) := by
  refine ⟨?_, ?_⟩
  · intro e he
    obtain ⟨line, before, c, after, hline, _, _, _, _, hnumber, _⟩ := exists_line_of_mem_failures he
    refine ⟨line, hline, ?_, ?_⟩
    · intro hlength
      have hdigits : line.number.repr.length ≤ 20 := by
        rw [Nat.length_repr_le_iff (by decide)]
        omega
      omega
    · rw [e.exists_render_iff, Failure.fits_iff hline, Line.caretWidth_le_iff]
  · obtain ⟨ws, code, hlists, hlist⟩ := list_lists path source
    simp only [Failure.exists_render_iff, Failure.forall_render_ne_iff, mem_malformedNumbers, hlist]
    rcases hlists.ends with ⟨hfits, ⟨told, rfl⟩, rfl⟩ | ⟨⟨e, he, hfar⟩, ⟨told, error, rfl⟩, rfl⟩
    · refine ⟨iff_of_true hfits ?_, iff_of_false ?_ ?_⟩
      · rw [← List.cons_append, List.getLast?_concat]
      · rintro ⟨e, he, hfar⟩
        exact hfar (hfits e he)
      · split <;> decide
    · refine ⟨iff_of_false ?_ ?_, iff_of_true ⟨e, he, hfar⟩ rfl⟩
      · exact fun hfits => hfar (hfits e he)
      · rw [← List.cons_append, List.getLast?_concat]
        simp

/-! ## A failure far to the right -/

theorem isWord_replicate (n : Nat) : IsWord (List.replicate (n + 1) 'a') := by
  refine ⟨'a', List.replicate n 'a', rfl, by decide, ?_⟩
  intro d hd
  rw [List.eq_of_mem_replicate hd]
  decide

theorem mem_malformedNumbers_behind_word {w cs : List Char} (hw : IsWord w) (hcs : (Lexeme.numeral cs).Valid)
    (hvalue : numeralValue? cs = none) :
    ⟨.malformedNumber (String.ofList cs), Position.start.after (w ++ [' '])⟩ ∈
      malformedNumbers (String.ofList (w ++ [' '] ++ cs)) := by
  have hword : (Lexeme.word w).Valid := Lexeme.valid_word.2 hw
  have hresults : results (String.ofList (w ++ [' '] ++ cs)) = _ := results_before_malformed hword hcs hvalue
  rw [mem_malformedNumbers, hresults]
  exact .tail _ List.mem_cons_self

theorem Failure.not_fits_behind_word (fault : Fault) {n : Nat} {cs : List Char} (hcs : cs ≠ [])
    (hroom : n + 2 ≤ 2 ^ 32 - 2) (hfar : maxFieldWidth ≤ n + 2) :
    ¬ Failure.Fits ⟨fault, Position.start.after (List.replicate (n + 1) 'a' ++ [' '])⟩
      (String.ofList (List.replicate (n + 1) 'a' ++ [' '] ++ cs)) := by
  generalize hbefore : List.replicate (n + 1) 'a' ++ [' '] = before
  have hnewline : '\n' ∉ before := by simp [← hbefore]
  have hlength : before.length = n + 2 := by simp [← hbefore]
  have hcolumn : (Position.start.after before).column.toNat = 1 + (n + 2) := by
    rw [(Position.marks_after (hlength ▸ hroom)).column, lastLine_of_not_mem hnewline, hlength]
  have hline := lineAt?_behind (String.toList_ofList (l := before ++ cs)) hcs
  rw [← Position.start_after_offset, lastLine_of_not_mem hnewline] at hline
  have hindent : (Line.mk (1 + before.count '\n') (before ++ firstLine cs) (utf8Length before)).indent = 0 := by
    simp [Line.indent, ← hbefore, List.replicate_succ]
  rw [fits_iff hline, Line.caretWidth_le_iff, hcolumn, hindent]
  omega

/-- A malformed number so far to the right that it is not shown. -/
theorem Failure.not_shown_far_right :
    ¬ ∀ source file : String, ∀ e ∈ failures source, ∃ text, e.render source file = .ok text := by
  intro h
  have hvalue : numeralValue? (List.replicate (309 + 1) '9') = none := by decide +kernel
  have he := mem_malformedNumbers_behind_word (isWord_replicate 65533) (Lexeme.valid_numeral_replicate 309) hvalue
  have hfits := (exists_render_iff _ _ "f").1 (h _ "f" _ (List.mem_append_left _ he))
  exact not_fits_behind_word _ (List.cons_ne_nil _ _) (by omega) (Nat.le_refl maxFieldWidth) hfits

end ExprLexer
