import ExprLexer.Proofs.Lines
import ExprLexer.Proofs.Tails

/-!
# Comments

A comment is the tail of a line from its first two slashes on. Nothing in it is seen: without its comments a text gives
the same tokens, errors and diagnostics, in the same lines and columns: `pieces_uncommented`.
-/
namespace ExprLexer

/-- A line up to its first two slashes. -/
def codePart : List Char → List Char
  | [] => []
  | c :: r => if c = '/' ∧ r.head? = some '/' then [] else c :: codePart r

/-- A line from its first two slashes on. -/
def commentPart : List Char → List Char
  | [] => []
  | c :: r => if c = '/' ∧ r.head? = some '/' then c :: r else commentPart r

/-- A text without the comments of its lines. -/
def uncommented (cs : List Char) : List Char := ['\n'].intercalate ((cs.splitOn '\n').map codePart)

/-- How many bytes of comments lie before an offset in lines that a newline parts. -/
def commentBytes : List (List Char) → Nat → Nat
  | [], _ => 0
  | line :: ls, o =>
    min (o - utf8Length (codePart line)) (utf8Length (commentPart line)) + commentBytes ls (o - (utf8Length line + 1))

/-- How many bytes of comments lie before an offset in a text. -/
def commentBytesBefore (cs : List Char) (o : Nat) : Nat := commentBytes (cs.splitOn '\n') o

/-- The place in a text without its comments of a place in the text. -/
def Position.inCode (cs : List Char) : Position → Position := relocate fun o => o - commentBytesBefore cs o

theorem codePart_append_commentPart (line : List Char) : codePart line ++ commentPart line = line := by
  induction line with
  | nil => rfl
  | cons c r ih =>
      unfold codePart commentPart
      by_cases h : c = '/' ∧ r.head? = some '/'
      · rw [if_pos h, if_pos h, List.nil_append]
      · rw [if_neg h, if_neg h, List.cons_append, ih]

theorem utf8Length_line (line : List Char) :
    utf8Length line = utf8Length (codePart line) + utf8Length (commentPart line) := by
  rw [← utf8Length_append, codePart_append_commentPart]

theorem commentPart_cases (line : List Char) :
    commentPart line = [] ∨ ∃ body, commentPart line = '/' :: '/' :: body := by
  induction line with
  | nil => exact .inl rfl
  | cons c r ih =>
      unfold commentPart
      by_cases h : c = '/' ∧ r.head? = some '/'
      · obtain ⟨rfl, hr⟩ := h
        obtain ⟨body, rfl⟩ := List.head?_eq_some_iff.1 hr
        exact .inr ⟨body, rfl⟩
      · rw [if_neg h]
        exact ih

/-- The first two slashes of a line are the first: the slash before a comment would have begun it. -/
theorem codePart_apart (line : List Char) :
    ¬ ((codePart line).getLast? = some '/' ∧ (commentPart line).head? = some '/') := by
  induction line with
  | nil => nofun
  | cons c r ih =>
      unfold codePart commentPart
      by_cases h : c = '/' ∧ r.head? = some '/'
      · rw [if_pos h, if_pos h]
        nofun
      · rw [if_neg h, if_neg h]
        rintro ⟨hlast, hhead⟩
        by_cases hr : codePart r = []
        · -- nothing lies between the slash and the comment, so the two begin a comment before it
          have hcomment := codePart_append_commentPart r
          rw [hr, List.nil_append] at hcomment
          rw [hr] at hlast
          exact h ⟨Option.some.inj hlast, hcomment ▸ hhead⟩
        · rw [List.getLast?_cons_of_ne_nil hr] at hlast
          exact ih ⟨hlast, hhead⟩

theorem newline_not_mem_parts {line : List Char} (h : '\n' ∉ line) :
    '\n' ∉ codePart line ∧ '\n' ∉ commentPart line := by
  rwa [← codePart_append_commentPart line, List.mem_append, not_or] at h

theorem commentPart_tail {line : List Char} (h : '\n' ∉ line) : Tail (codePart line) (commentPart line) := by
  have hline := (newline_not_mem_parts h).2
  refine ⟨hline, ?_, codePart_apart line⟩
  rcases commentPart_cases line with hnil | ⟨body, hbody⟩
  · rw [hnil]
    exact .nil
  · rw [hbody] at hline ⊢
    exact .comment_at_end fun hmem => hline (List.mem_cons_of_mem _ (List.mem_cons_of_mem _ hmem))

theorem uncommented_of_not_mem {line : List Char} (h : '\n' ∉ line) : uncommented line = codePart line := by
  rw [uncommented, splitOn_of_not_mem h]
  exact List.intercalate_singleton

theorem uncommented_append_newline {line : List Char} (h : '\n' ∉ line) (rest : List Char) :
    uncommented (line ++ '\n' :: rest) = codePart line ++ '\n' :: uncommented rest := by
  have hrest : (rest.splitOn '\n').map codePart ≠ [] := by
    rw [ne_eq, List.map_eq_nil_iff]
    exact List.splitOn_ne_nil '\n' rest
  rw [uncommented, splitOn_append_newline h, List.map_cons, List.intercalate_cons_of_ne_nil hrest]
  simp [uncommented]

theorem commentBytes_le (ls : List (List Char)) (o : Nat) : commentBytes ls o ≤ o := by
  induction ls generalizing o with
  | nil => exact Nat.zero_le o
  | cons line ls ih =>
      have hrest := ih (o - (utf8Length line + 1))
      rw [commentBytes]
      have hline := utf8Length_line line
      omega

theorem commentBytes_zero (ls : List (List Char)) : commentBytes ls 0 = 0 :=
  Nat.eq_zero_of_le_zero (commentBytes_le ls 0)

theorem commentBytes_code (line : List Char) (ls : List (List Char)) {o : Nat} (h : o ≤ utf8Length (codePart line)) :
    commentBytes (line :: ls) o = 0 := by
  have hline := utf8Length_line line
  have hrest : o - (utf8Length line + 1) = 0 := by omega
  rw [commentBytes, hrest, commentBytes_zero, Nat.sub_eq_zero_of_le h, Nat.zero_min]

theorem commentBytes_below (line : List Char) (ls : List (List Char)) (o : Nat) :
    commentBytes (line :: ls) (utf8Length line + 1 + o) = utf8Length (commentPart line) + commentBytes ls o := by
  have hline := utf8Length_line line
  rw [commentBytes, Nat.add_sub_cancel_left]
  omega

/-- The comments of a text are tails of its lines, and they move what stands behind them by their bytes. -/
theorem exists_tailed_uncommented (cs : List Char) :
    ∃ f, Tailed (uncommented cs) cs f ∧
      ∀ n ≤ utf8Length (uncommented cs), f n = n + commentBytesBefore cs (f n) := by
  induction cs using lines_induction with
  | last line hline =>
      have htailed := Tailed.last (newline_not_mem_parts hline).1 (commentPart_tail hline)
      rw [codePart_append_commentPart] at htailed
      rw [uncommented_of_not_mem hline]
      refine ⟨id, htailed, ?_⟩
      intro n hn
      rw [commentBytesBefore, splitOn_of_not_mem hline, id_eq, commentBytes_code line [] hn, Nat.add_zero]
  | more line rest hline ih =>
      obtain ⟨f, hrest, hf⟩ := ih
      have htailed := Tailed.more (newline_not_mem_parts hline).1 (commentPart_tail hline) hrest
      rw [codePart_append_commentPart] at htailed
      rw [uncommented_append_newline hline]
      refine ⟨_, htailed, ?_⟩
      intro n hn
      rw [utf8Length_append, utf8Length_cons] at hn
      have hnewline : '\n'.utf8Size = 1 := rfl
      rw [commentBytesBefore, splitOn_append_newline hline, offsetBehind]
      by_cases hcode : n ≤ utf8Length (codePart line)
      · rw [if_pos hcode, commentBytes_code line _ hcode, Nat.add_zero]
      · rw [if_neg hcode, ← utf8Length_line, commentBytes_below]
        have hbelow := hf (n - (utf8Length (codePart line) + 1)) (by omega)
        rw [commentBytesBefore] at hbelow
        have := utf8Length_line line
        omega

theorem move_uncommented (cs : List Char) :
    pieces (String.ofList (uncommented cs)) = (pieces (String.ofList cs)).map (ScanResult.move (.inCode cs)) := by
  obtain ⟨f, htailed, hf⟩ := exists_tailed_uncommented cs
  have hback : ∀ x ∈ pieces (String.ofList (uncommented cs)),
      (x.move (Position.relocate f)).move (.inCode cs) = x := by
    intro x hx
    rw [ScanResult.move_move]
    apply x.move_eq_self
    intro p hp
    have hle := offset_le_of_mem_pieces hx p hp
    rw [utf8ByteSize_ofList] at hle
    have hoffset : f p.offset - commentBytesBefore cs (f p.offset) = p.offset := by
      have := hf p.offset hle
      omega
    exact congrArg (Position.mk · p.line p.column) hoffset
  rw [htailed.pieces_eq, List.map_map]
  exact ((List.map_congr_left hback).trans (List.map_id' _)).symm

/-- A text without its comments gives the tokens and errors of the text, and the diagnostics, each in its line and
column, and at its offset less the bytes of the comments before it. -/
theorem pieces_uncommented (s : String) :
    pieces (String.ofList (uncommented s.toList)) = (pieces s).map (ScanResult.move (.inCode s.toList)) ∧
    diagnostics (String.ofList (uncommented s.toList)) =
      (diagnostics s).map (Diagnostic.move (.inCode s.toList)) ∧
    ∀ p : Position, (p.inCode s.toList).line = p.line ∧ (p.inCode s.toList).column = p.column ∧
      p.offset = (p.inCode s.toList).offset + commentBytesBefore s.toList p.offset := by
  have hpieces := move_uncommented s.toList
  rw [String.ofList_toList] at hpieces
  refine ⟨hpieces, diagnostics_of_pieces hpieces, ?_⟩
  intro p
  refine ⟨rfl, rfl, ?_⟩
  exact (Nat.sub_add_cancel (commentBytes_le _ _)).symm

example : uncommented "a / b // c // d\n//\n/e".toList = "a / b \n\n/e".toList ∧
    (List.range 21).map (commentBytesBefore "a / b // c // d\n//\n/e".toList) =
      [0, 0, 0, 0, 0, 0, 0, 1, 2, 3, 4, 5, 6, 7, 8, 9, 9, 10, 11, 11, 11] := by decide

end ExprLexer
