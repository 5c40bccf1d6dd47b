import ExprLexer.Excerpt
import ExprLexer.Proofs.Lines
import ExprLexer.Proofs.Tails

/-!
# Line endings

A return in front of a newline is a tail of its line. A text whose lines end so gives what the text gives with
newlines alone, and a failure in it is shown with the same line and caret: `results_crlf`.
-/
namespace ExprLexer

/-- A text with a return in front of each newline. -/
def crlf (cs : List Char) : List Char := cs.flatMap fun c => if c = '\n' then ['\r', '\n'] else [c]

/-- How many newlines of a text begin before an offset. -/
def newlinesBefore : List Char → Nat → Nat
  | [], _ => 0
  | c :: r, o => (if c = '\n' ∧ 0 < o then 1 else 0) + newlinesBefore r (o - c.utf8Size)

/-- The place in a text with returns of a place in the text without them. -/
def Position.inCrlf (cs : List Char) : Position → Position := relocate fun o => o + newlinesBefore cs o

theorem crlf_newline (cs : List Char) : crlf ('\n' :: cs) = '\r' :: '\n' :: crlf cs := rfl

theorem crlf_cons {c : Char} (h : c ≠ '\n') (cs : List Char) : crlf (c :: cs) = c :: crlf cs := by
  rw [crlf, List.flatMap_cons, if_neg h]
  rfl

theorem newlinesBefore_zero (cs : List Char) : newlinesBefore cs 0 = 0 := by
  induction cs with
  | nil => rfl
  | cons c cs ih => rw [newlinesBefore, Nat.zero_sub, ih, if_neg (fun h => absurd h.2 (Nat.lt_irrefl 0))]

section FirstLine

variable {line : List Char} (hline : '\n' ∉ line) (rest : List Char)

include hline

theorem crlf_append : crlf (line ++ rest) = line ++ crlf rest := by
  induction line with
  | nil => rfl
  | cons c line ih =>
      rw [List.mem_cons, not_or] at hline
      rw [List.cons_append, crlf_cons (Ne.symm hline.1), ih hline.2, List.cons_append]

theorem crlf_of_not_mem : crlf line = line := by
  have hnil : crlf [] = [] := rfl
  have happend := crlf_append hline []
  rwa [hnil, List.append_nil] at happend

theorem crlf_append_newline : crlf (line ++ '\n' :: rest) = line ++ ['\r'] ++ '\n' :: crlf rest := by
  rw [crlf_append hline, crlf_newline, List.append_assoc]
  rfl

theorem newlinesBefore_append (o : Nat) :
    newlinesBefore (line ++ rest) o = newlinesBefore rest (o - utf8Length line) := by
  induction line generalizing o with
  | nil => rfl
  | cons c line ih =>
      rw [List.mem_cons, not_or] at hline
      have hc : ¬ (c = '\n' ∧ 0 < o) := fun h => hline.1 h.1.symm
      rw [List.cons_append, newlinesBefore, if_neg hc, Nat.zero_add, ih hline.2, utf8Length_cons, Nat.sub_sub]

theorem newlinesBefore_of_not_mem (o : Nat) : newlinesBefore line o = 0 := by
  have happend := newlinesBefore_append hline [] o
  rwa [List.append_nil] at happend

theorem newlinesBefore_line {o : Nat} (h : o ≤ utf8Length line) : newlinesBefore (line ++ '\n' :: rest) o = 0 := by
  rw [newlinesBefore_append hline, Nat.sub_eq_zero_of_le h, newlinesBefore_zero]

theorem newlinesBefore_below (o : Nat) :
    newlinesBefore (line ++ '\n' :: rest) (utf8Length line + 1 + o) = 1 + newlinesBefore rest o := by
  have hbehind : utf8Length line + 1 + o - utf8Length line = 1 + o := by omega
  have hnewline : '\n'.utf8Size = 1 := rfl
  have hmore : 0 < 1 + o := by omega
  rw [newlinesBefore_append hline, hbehind, newlinesBefore, if_pos ⟨rfl, hmore⟩, hnewline, Nat.add_sub_cancel_left]

end FirstLine

theorem return_tail (line : List Char) : Tail line ['\r'] := by
  refine ⟨by decide, .blank rfl .nil, ?_⟩
  rintro ⟨_, hhead⟩
  cases hhead

/-- Returns are tails of the lines of a text, and they move what stands behind them by one byte for each line. -/
theorem tailed_crlf (cs : List Char) : Tailed cs (crlf cs) fun o => o + newlinesBefore cs o := by
  suffices h : ∃ f, Tailed cs (crlf cs) f ∧ ∀ o, f o = o + newlinesBefore cs o by
    obtain ⟨f, htailed, hf⟩ := h
    exact (funext hf : f = _) ▸ htailed
  induction cs using lines_induction with
  | last line hline =>
      have htailed := Tailed.last hline ⟨List.not_mem_nil, .nil, nofun⟩
      rw [List.append_nil] at htailed
      rw [crlf_of_not_mem hline]
      refine ⟨id, htailed, ?_⟩
      intro o
      rw [newlinesBefore_of_not_mem hline]
      rfl
  | more line rest hline ih =>
      obtain ⟨f, hrest, hf⟩ := ih
      rw [crlf_append_newline hline]
      refine ⟨_, .more hline (return_tail line) hrest, ?_⟩
      intro o
      rw [offsetBehind]
      by_cases ho : o ≤ utf8Length line
      · rw [if_pos ho, newlinesBefore_line hline rest ho]
        rfl
      · obtain ⟨m, rfl⟩ : ∃ m, o = utf8Length line + 1 + m := ⟨o - (utf8Length line + 1), by omega⟩
        have hreturn : utf8Length ['\r'] = 1 := rfl
        rw [if_neg ho, hreturn, Nat.add_sub_cancel_left, hf, newlinesBefore_below hline rest]
        omega

/-! ## The end -/

theorem utf8Length_crlf (cs : List Char) :
    utf8Length (crlf cs) = utf8Length cs + newlinesBefore cs (utf8Length cs) := by
  induction cs with
  | nil => rfl
  | cons c cs ih =>
      have hpos : 0 < c.utf8Size + utf8Length cs := Nat.add_pos_left c.utf8Size_pos _
      rw [utf8Length_cons, newlinesBefore, Nat.add_sub_cancel_left]
      by_cases hc : c = '\n'
      · subst hc
        have hreturn : '\r'.utf8Size = 1 := rfl
        rw [crlf_newline, utf8Length_cons, utf8Length_cons, ih, if_pos ⟨rfl, hpos⟩, hreturn]
        omega
      · rw [crlf_cons hc, utf8Length_cons, ih, if_neg (fun h => hc h.1)]
        omega

theorem Position.after_crlf {p q : Position} (hline : p.line = q.line) (hcolumn : p.column = q.column)
    (cs : List Char) :
    (p.after (crlf cs)).line = (q.after cs).line ∧ (p.after (crlf cs)).column = (q.after cs).column := by
  induction cs generalizing p q with
  | nil => exact ⟨hline, hcolumn⟩
  | cons c cs ih =>
      by_cases hc : c = '\n'
      · subst hc
        exact ih (congrArg (· + 1) hline) rfl
      · rw [crlf_cons hc]
        apply ih
        · rw [next, next, if_neg hc, if_neg hc]
          exact hline
        · rw [next, next, if_neg hc, if_neg hc]
          exact congrArg (· + 1) hcolumn

theorem Position.start_after_crlf (cs : List Char) :
    start.after (crlf cs) = (start.after cs).inCrlf cs := by
  obtain ⟨hline, hcolumn⟩ := after_crlf rfl rfl cs
  rw [inCrlf, relocate, ← hline, ← hcolumn, start_after_offset, ← utf8Length_crlf, ← start_after_offset]

/-! ## Excerpts -/

theorem trimmed_append (cs : List Char) {ds : List Char} (h : ds.all isWhiteSpace) :
    trimmed (cs ++ ds) = trimmed cs := by
  rw [trimmed, trimmed, List.dropWhile_append]
  have hall : ∀ c ∈ ds, isWhiteSpace c := List.all_eq_true.1 h
  by_cases hcs : (cs.dropWhile isWhiteSpace).isEmpty
  · have hds : (ds ++ []).dropWhile isWhiteSpace = [] := List.dropWhile_append_of_pos hall
    rw [List.append_nil] at hds
    rw [if_pos hcs, hds, List.isEmpty_iff.1 hcs]
  · rw [if_neg hcs, List.reverse_append]
    congr 1
    apply List.dropWhile_append_of_pos
    intro c hc
    exact hall c (List.mem_reverse.1 hc)

theorem Line.excerpt_return (number offset column : Nat) (line : List Char) :
    (Line.mk number (line ++ ['\r'] ++ ['\n']) offset).excerpt column =
      (Line.mk number (line ++ ['\n']) offset).excerpt column := by
  have htrimmed : trimmed (line ++ ['\r'] ++ ['\n']) = trimmed (line ++ ['\n']) := by
    rw [List.append_assoc, trimmed_append line (by decide), trimmed_append line (by decide)]
  have happend (tail : List Char) : (line ++ tail).takeWhile (· == ' ') =
      if (line.takeWhile (· == ' ')).length = line.length then line ++ tail.takeWhile (· == ' ')
      else line.takeWhile (· == ' ') := List.takeWhile_append
  have hspaces : (line ++ ['\r'] ++ ['\n']).takeWhile (· == ' ') = (line ++ ['\n']).takeWhile (· == ' ') := by
    rw [List.append_assoc, happend, happend]
    rfl
  rw [excerpt, excerpt, caretWidth, caretWidth, indent, indent, htrimmed, hspaces]

/-- The line that holds a place is shown as it was, with the return or without it. -/
theorem Line.find?_crlf (cs : List Char) (number column o : Nat) :
    (find? number (o + newlinesBefore cs o) (lines (crlf cs))).map (excerpt · column) =
      (find? number o (lines cs)).map (excerpt · column) := by
  induction cs using lines_induction generalizing number o with
  | last line hline => rw [crlf_of_not_mem hline, newlinesBefore_of_not_mem hline, Nat.add_zero]
  | more line rest hline ih =>
      have hreturned : '\n' ∉ line ++ ['\r'] := List.not_mem_append hline (return_tail line).line
      have hreturn : utf8Length ['\r'] = 1 := rfl
      have hnewline : utf8Length ['\n'] = 1 := rfl
      rw [crlf_append_newline hline, lines_append_newline hreturned, lines_append_newline hline, find?, find?]
      rw [utf8Length_append, utf8Length_append, utf8Length_append, hreturn, hnewline]
      -- the return lies between the places that are found in this line and those that are found below
      by_cases ho : o ≤ utf8Length line
      · rw [newlinesBefore_line hline rest ho, if_pos (by omega), if_pos (by omega), Nat.add_zero]
        exact congrArg some (excerpt_return number o column line)
      · obtain ⟨m, rfl⟩ : ∃ m, o = utf8Length line + 1 + m := ⟨o - (utf8Length line + 1), by omega⟩
        rw [newlinesBefore_below hline rest, if_neg (by omega), if_neg (by omega), Nat.add_sub_cancel_left, ← ih]
        congr 2
        omega

theorem Failure.render_eq (e : Failure) (source file : String) :
    e.render source file =
      ((lineAt? source e.position.offset).map (Line.excerpt · e.position.column.toNat)).elim
        (.ok (e.header ++ "-> " ++ file ++ "\n" ++ "   at " ++ e.position.text ++ "\n"))
        (Except.map (e.header ++ "-> " ++ file ++ "\n" ++ ·)) := by
  rw [render]
  cases lineAt? source e.position.offset <;> rfl

theorem Failure.render_crlf (e : Failure) (s file : String) :
    ({ e with position := e.position.inCrlf s.toList } : Failure).render (String.ofList (crlf s.toList)) file =
      e.render s file := by
  have hshown := Line.find?_crlf s.toList 1 e.position.column.toNat e.position.offset
  rw [render_eq, render_eq, lineAt?, lineAt?, String.toList_ofList, ← hshown]
  rfl

/-- A text with returns in front of its newlines gives the results and the diagnostics of the text, each in its line and
column, and at its offset and the newlines before it. Whatever fails is shown the same in either text. -/
theorem results_crlf (s : String) :
    results (String.ofList (crlf s.toList)) = (results s).map (ScanResult.move (.inCrlf s.toList)) ∧
    diagnostics (String.ofList (crlf s.toList)) = (diagnostics s).map (Diagnostic.move (.inCrlf s.toList)) ∧
    (∀ p : Position, (p.inCrlf s.toList).line = p.line ∧ (p.inCrlf s.toList).column = p.column ∧
      (p.inCrlf s.toList).offset = p.offset + newlinesBefore s.toList p.offset) ∧
    ∀ (e : Failure) (file : String),
      ({ e with position := e.position.inCrlf s.toList } : Failure).render (String.ofList (crlf s.toList)) file =
        e.render s file := by
  have hpieces := (tailed_crlf s.toList).pieces_eq
  rw [String.ofList_toList] at hpieces
  refine ⟨?_, diagnostics_of_pieces hpieces, ?_, ?_⟩
  · rw [results_eq, results_eq s, hpieces, List.map_append, String.toList_ofList, Position.start_after_crlf]
    rfl
  · intro p
    exact ⟨rfl, rfl, rfl⟩
  · intro e file
    exact e.render_crlf s file

example : (results "a\n\n b").map ScanResult.start = [⟨0, 1, 1⟩, ⟨4, 3, 2⟩, ⟨5, 3, 3⟩] ∧
    (results "a\r\n\r\n b").map ScanResult.start = [⟨0, 1, 1⟩, ⟨6, 3, 2⟩, ⟨7, 3, 3⟩] := by decide +kernel

end ExprLexer
