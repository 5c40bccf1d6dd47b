import ExprLexer.Proofs.Appending

/-!
# Tails of lines

A line can have a tail that its lexemes do not see: blanks, or a comment. With the tails of its lines or without them,
a text gives the same tokens and errors in the same lines and columns, and only the offsets grow by the tails before
them: `Tailed.pieces_eq`.
-/
namespace ExprLexer

theorem Trivia.behind {gap tail : List Char} (h : Trivia [] gap) (htail : Trivia [] tail) (hline : '\n' ∉ tail) :
    Trivia [] (gap ++ tail) := by
  induction h with
  | nil => exact htail
  | blank hc h ih => exact .blank hc ih
  | @comment body gap hb hend h ih =>
      cases gap with
      | nil =>
          -- the tail lengthens the comment that the gap ends with
          rw [List.append_nil]
          exact .comment_at_end (List.not_mem_append hb hline)
      | cons c gap =>
          rw [List.append_assoc]
          exact .comment hb hend ih

/-- A tail that can stand behind a text on the same line, and no lexeme of the text sees it. -/
structure Tail (cs tail : List Char) : Prop where
  line : '\n' ∉ tail
  trivia : Trivia [] tail
  apart : ¬ (cs.getLast? = some '/' ∧ tail.head? = some '/')

theorem Tail.of_append {pre cs tail : List Char} (h : Tail (pre ++ cs) tail) : Tail cs tail := by
  refine ⟨h.line, h.trivia, ?_⟩
  rintro ⟨hlast, hhead⟩
  apply h.apart
  rw [List.getLast?_append, hlast]
  exact ⟨rfl, hhead⟩

theorem Tail.not_runsOn {x : Lexeme} (hx : x.Valid) {tail : List Char} (h : Tail x.chars tail) : ¬ x.RunsOn tail := by
  have hruns : x.RunsOn (tail ++ []) ↔ _ := hx.runsOn_trivia_iff h.trivia fun _ => rfl
  rw [List.append_nil] at hruns
  rw [hruns]
  rintro ⟨hkind, hhead⟩
  obtain rfl := Lexeme.eq_operator_of_kind hkind
  exact h.apart ⟨rfl, hhead⟩

namespace Scans

variable {p : Position} {cs t : List Char} {xs ys : List ScanResult}

/-- A tail changes nothing but the end. -/
theorem tail (h : Scans p cs xs) {tail : List Char} (ht : Tail cs tail) :
    Scans p (cs ++ tail) (xs.dropLast ++ [.ok (.endOfInput (p.after (cs ++ tail)))]) := by
  induction h with
  | last hgap => exact .last (hgap.behind ht.trivia ht.line)
  | @read p start stop gap rest x xs hgap hx hruns hstart hstop h ih =>
      have hbehind := ih ht.of_append.of_append
      have hne : x.chars ++ rest ≠ [] := List.append_ne_nil_of_left_ne_nil hx.ne_nil rest
      have hgap' := hgap.of_looksLike (looksLike_append hne tail)
      have hruns' : ¬ x.RunsOn (rest ++ tail) := by
        by_cases hrest : rest = []
        · subst hrest
          rw [List.append_nil] at ht
          exact ht.of_append.not_runsOn hx
        · exact fun hr => hruns (hx.runsOn_of_looksLike hr (looksLike_append hrest tail))
      rw [List.append_assoc] at hgap'
      rw [List.dropLast_cons_of_ne_nil h.ne_nil, List.append_assoc, List.append_assoc, List.cons_append,
        Position.after_lexeme hstart hstop]
      exact .read hgap' hx hruns' hstart hstop hbehind

end Scans

theorem pieces_of_scans {cs : List Char} {xs : List ScanResult} (h : Scans .start cs xs) :
    pieces (String.ofList cs) = xs.dropLast := by
  have hresults := scans_results (String.ofList cs)
  rw [String.toList_ofList] at hresults
  rw [h.unique hresults, results_eq, List.dropLast_concat]

theorem pieces_tail {cs tail : List Char} (h : Tail cs tail) :
    pieces (String.ofList (cs ++ tail)) = pieces (String.ofList cs) := by
  obtain ⟨xs, hxs⟩ := Scans.exists_scans .start cs
  rw [pieces_of_scans hxs, pieces_of_scans (hxs.tail h), List.dropLast_concat]

/-- A line is read by itself, and so is the text below it. -/
theorem pieces_above {line : List Char} (h : '\n' ∉ line) (rest : List Char) :
    pieces (String.ofList (line ++ '\n' :: rest)) =
      pieces (String.ofList line) ++
        (pieces (String.ofList rest)).map (ScanResult.move (Position.down (utf8Length line + 1) 1)) := by
  obtain ⟨xs, hxs⟩ := Scans.exists_scans .start line
  obtain ⟨ys, hys⟩ := Scans.exists_scans .start rest
  have hmoved : Scans ((Position.start.after line).next '\n') rest
      (ys.map (ScanResult.move (Position.down (utf8Length line + 1) 1))) := by
    apply hys.move
    intro pre _
    rw [Position.down_after, ← Position.start_down, List.count_eq_zero.2 h]
  rw [pieces_of_scans hxs, pieces_of_scans hys, pieces_of_scans (hxs.newline hmoved),
    List.dropLast_append_of_ne_nil hmoved.ne_nil, List.map_dropLast]

theorem offset_le_of_mem_pieces {s : String} {x : ScanResult} (hx : x ∈ pieces s) :
    ∀ p ∈ x.positions, p.offset ≤ s.utf8ByteSize := by
  intro p hp
  have hresult : x ∈ results s := (List.mem_filter.1 hx).1
  obtain ⟨pre, ⟨rest, hpre⟩, rfl⟩ :=
    positions_isIn s p (List.mem_append_left _ (List.mem_flatMap.2 ⟨x, hresult, hp⟩))
  rw [Position.after_offset, ← utf8Length_toList, ← hpre, utf8Length_append, Nat.add_comm]
  exact Nat.le_add_right _ _

/-- A position at another offset, in the same line and column. -/
def Position.relocate (f : Nat → Nat) (p : Position) : Position := { p with offset := f p.offset }

theorem ScanResult.move_eq_self {f : Position → Position} {x : ScanResult} (h : ∀ p ∈ x.positions, f p = p) :
    x.move f = x := by
  cases x with
  | ok t =>
      obtain ⟨hstart, hstop⟩ : f t.span.start = t.span.start ∧ f t.span.stop = t.span.stop := by
        simpa [positions] using h
      rw [move, hstart, hstop]
  | error e => rw [move, h e.position (by simp [positions])]

theorem ScanResult.move_move (f g : Position → Position) (x : ScanResult) :
    (x.move f).move g = x.move fun p => g (f p) := by
  cases x <;> rfl

theorem diagnostics_of_pieces {s t : String} {f : Position → Position}
    (h : pieces s = (pieces t).map (ScanResult.move f)) : diagnostics s = (diagnostics t).map (Diagnostic.move f) := by
  rw [diagnostics_eq_pieces, h, List.flatMap_map, diagnostics_eq_pieces, List.map_flatMap]
  simp only [ScanResult.reports_move]

/-- Where an offset goes when a line gets a tail and the offsets of the text below go by `f`. The newline of the line
comes to stand behind the tail. -/
def offsetBehind (line tail : List Char) (f : Nat → Nat) (n : Nat) : Nat :=
  if n ≤ utf8Length line then n
  else utf8Length line + utf8Length tail + 1 + f (n - (utf8Length line + 1))

theorem Position.relocate_down (line tail : List Char) (f : Nat → Nat) (p : Position) :
    (p.down (utf8Length line + 1) 1).relocate (offsetBehind line tail f) =
      (p.relocate f).down (utf8Length (line ++ tail) + 1) 1 := by
  have hfar : ¬ p.offset + (utf8Length line + 1) ≤ utf8Length line := by omega
  rw [relocate, down, offsetBehind, if_neg hfar, Nat.add_sub_cancel, utf8Length_append]
  rw [relocate, down, Nat.add_comm (f p.offset)]

/-- A text, the text with tails behind its lines, and where the offsets of the one are in the other. -/
inductive Tailed : List Char → List Char → (Nat → Nat) → Prop
  | last {line tail} (hline : '\n' ∉ line) (h : Tail line tail) : Tailed line (line ++ tail) id
  | more {line tail rest rest' f} (hline : '\n' ∉ line) (h : Tail line tail) (hrest : Tailed rest rest' f) :
      Tailed (line ++ '\n' :: rest) (line ++ tail ++ '\n' :: rest') (offsetBehind line tail f)

namespace Tailed

variable {bare whole : List Char} {f : Nat → Nat}

theorem pieces_eq (h : Tailed bare whole f) :
    pieces (String.ofList whole) =
      (pieces (String.ofList bare)).map (ScanResult.move (Position.relocate f)) := by
  induction h with
  | last hline h =>
      rw [pieces_tail h]
      exact (List.map_id'' (fun x => x.move_eq_self fun p hp => rfl) _).symm
  | @more line tail rest rest' f hline h hrest ih =>
      have hboth : '\n' ∉ line ++ tail := List.not_mem_append hline h.line
      -- the pieces of the line stay where they are; those below it go down by the tail as well
      have hstay : ∀ x ∈ pieces (String.ofList line), x.move (Position.relocate (offsetBehind line tail f)) = x := by
        intro x hx
        apply x.move_eq_self
        intro p hp
        have hle := offset_le_of_mem_pieces hx p hp
        rw [utf8ByteSize_ofList] at hle
        rw [Position.relocate, offsetBehind, if_pos hle]
      rw [pieces_above hboth, pieces_above hline, pieces_tail h, ih, List.map_append, List.map_congr_left hstay]
      rw [List.map_id', List.map_map, List.map_map]
      congr 2
      funext x
      rw [Function.comp_apply, Function.comp_apply, ScanResult.move_move, ScanResult.move_move]
      congr 1
      funext p
      exact (Position.relocate_down line tail f p).symm

end Tailed
end ExprLexer
