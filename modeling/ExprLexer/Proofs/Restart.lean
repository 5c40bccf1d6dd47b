import ExprLexer.Proofs.Appending
import ExprLexer.Proofs.Stream

/-!
# Restarting

A lexer keeps nothing of what it has read but the place where it is. Wherever it is left, also behind an error, it
reads on as a fresh lexer of the rest of the source does, all positions told from that place: `session_restarts`.
-/
namespace ExprLexer

theorem lastLine_append_of_mem {cs : List Char} (h : '\n' ∈ cs) (pre : List Char) :
    lastLine (pre ++ cs) = lastLine cs := by
  induction cs using List.reverseRecOn with
  | nil => exact absurd h List.not_mem_nil
  | append_singleton cs c ih =>
      rw [← List.append_assoc, lastLine_concat, lastLine_concat]
      by_cases hc : c = '\n'
      · rw [if_pos hc, if_pos hc]
      · have hcs : '\n' ∈ cs := (List.mem_append.1 h).resolve_right fun h => hc (List.mem_singleton.1 h).symm
        rw [if_neg hc, if_neg hc, ih hcs]

theorem Position.start_after_column (cs : List Char) :
    (start.after cs).column = 1 + UInt32.ofNat (lastLine cs).length := by
  induction cs using List.reverseRecOn with
  | nil => rfl
  | append_singleton cs c ih =>
      rw [after_append, after_cons, after_nil, next, lastLine_concat]
      by_cases hc : c = '\n'
      · rw [if_pos hc, if_pos hc]
        rfl
      · rw [if_neg hc, if_neg hc, List.length_append, UInt32.ofNat_add, ← UInt32.add_assoc, ← ih]
        rfl

/-- A text whose lines are few enough and short enough to be counted in 32-bit words. -/
structure Countable (cs : List Char) : Prop where
  lines : cs.count '\n' + 1 < 2 ^ 32
  columns : ∀ pre, pre <+: cs → (lastLine pre).length + 1 < 2 ^ 32

theorem countable_of_length {cs : List Char} (h : cs.length ≤ 2 ^ 32 - 2) : Countable cs := by
  constructor
  · have hcount := List.count_le_length (a := '\n') (l := cs)
    omega
  · intro pre hpre
    have hlast := length_lastLine_le pre
    have hle := hpre.length_le
    omega

namespace Countable

variable {cs : List Char}

theorem of_prefix {pre : List Char} (h : Countable cs) (hpre : pre <+: cs) : Countable pre where
  lines := Nat.lt_of_le_of_lt (Nat.add_le_add_right (hpre.sublist.count_le '\n') 1) h.lines
  columns := fun _ hpre' => h.columns _ (hpre'.trans hpre)

theorem of_suffix {pre : List Char} (h : Countable (pre ++ cs)) : Countable cs := by
  constructor
  · have hlines := h.lines
    rw [List.count_append] at hlines
    omega
  · intro front hfront
    have hcolumns := h.columns (pre ++ front) ((List.prefix_append_right_inj pre).2 hfront)
    by_cases hnewline : '\n' ∈ front
    · rwa [lastLine_append_of_mem hnewline] at hcolumns
    · have hlast := length_lastLine_le front
      rw [lastLine_append hnewline, List.length_append] at hcolumns
      omega

theorem marks (h : Countable cs) : (Position.start.after cs).Marks cs := by
  have hcolumn := h.columns cs (List.prefix_refl cs)
  refine ⟨Position.start_after_offset cs, Position.line_toNat (Nat.lt_sub_of_add_lt h.lines), ?_⟩
  · have hone : (1 : UInt32).toNat = 1 := rfl
    rw [Position.start_after_column, UInt32.toNat_add, hone, UInt32.toNat_ofNat_of_lt' (Nat.lt_of_succ_lt hcolumn)]
    exact Nat.mod_eq_of_lt (by omega)

end Countable

namespace Position

/-- A position of a text, told of a source in which the text begins at `base`. Only the first line of the text has
something before it. -/
def rebase (base p : Position) : Position :=
  ⟨base.offset + p.offset, base.line + p.line - 1,
    if p.line = 1 then base.column + p.column - 1 else p.column⟩

theorem rebase_start (base : Position) : base.rebase start = base := by
  change Position.mk (base.offset + 0) (base.line + 1 - 1) (base.column + 1 - 1) = base
  rw [UInt32.add_sub_cancel, UInt32.add_sub_cancel, Nat.add_zero]

theorem rebase_next (base : Position) {p : Position} (hp : p.line ≠ 0) (c : Char) :
    base.rebase (p.next c) = (base.rebase p).next c := by
  have hnext (m n : UInt32) : m + (n + 1) - 1 = m + n - 1 + 1 := by
    rw [← UInt32.add_assoc, UInt32.add_sub_cancel, UInt32.sub_add_cancel]
  unfold rebase next
  by_cases hc : c = '\n'
  · have hline : p.line + 1 ≠ 1 := by simpa using hp
    simp only [if_pos hc, if_neg hline, hnext, Nat.add_assoc]
  · simp only [if_neg hc, Nat.add_assoc]
    split
    · rw [hnext]
    · rfl

theorem rebase_after (base : Position) {cs : List Char} (h : Countable cs) :
    base.rebase (start.after cs) = base.after cs := by
  induction cs using List.reverseRecOn with
  | nil => exact rebase_start base
  | append_singleton cs c ih =>
      have hcs := h.of_prefix (List.prefix_append cs [c])
      have hline : (start.after cs).line ≠ 0 := by
        intro hzero
        have hmarks := hcs.marks.line
        rw [hzero, UInt32.toNat_zero] at hmarks
        omega
      rw [after_append, after_append, ← ih hcs]
      exact rebase_next base hline c

/-- The sums in a rebased position are exact. -/
def RebasesExactly (base p : Position) : Prop :=
  (base.rebase p).line.toNat = base.line.toNat + p.line.toNat - 1 ∧
    (base.rebase p).column.toNat =
      if p.line = 1 then base.column.toNat + p.column.toNat - 1 else p.column.toNat

theorem line_eq_one_iff {cs : List Char} (h : Countable cs) : (start.after cs).line = 1 ↔ '\n' ∉ cs := by
  rw [← UInt32.toNat_inj, h.marks.line, ← List.count_eq_zero]
  change 1 + cs.count '\n' = 1 ↔ _
  omega

theorem rebasesExactly {pre cs : List Char} (h : Countable (pre ++ cs)) :
    RebasesExactly (start.after pre) (start.after cs) := by
  have hcs := h.of_suffix
  have hbefore := (h.of_prefix (List.prefix_append pre cs)).marks
  have hbehind := hcs.marks
  have hwhole := h.marks
  rw [after_append, ← rebase_after _ hcs] at hwhole
  refine ⟨?_, ?_⟩
  · rw [hwhole.line, hbefore.line, hbehind.line, List.count_append]
    omega
  · rw [hwhole.column, hbefore.column, hbehind.column]
    by_cases hnewline : '\n' ∈ cs
    · rw [if_neg fun hone => (line_eq_one_iff hcs).1 hone hnewline, lastLine_append_of_mem hnewline]
    · have hall : lastLine cs = cs := lastLine_append hnewline []
      rw [if_pos ((line_eq_one_iff hcs).2 hnewline), lastLine_append hnewline, hall, List.length_append]
      omega

end Position

namespace Lexer

variable {σ : Type} [Sink σ]

/-- A lexer that goes along with a fresh one: both have the same text before them, a map takes all places that the
fresh one comes to over to the other, and the sinks have heard the same since `told`. -/
structure Follows (f : Position → Position) (told : σ) (l : Lexer σ) (fresh : Lexer (Array Diagnostic)) :
    Prop where
  rest : l.cursor.rest = fresh.cursor.rest
  place : ∀ pre, pre <+: l.cursor.rest →
    f (fresh.cursor.position.after pre) = l.cursor.position.after pre
  sink : l.sink = (fresh.sink.toList.map (Diagnostic.move f)).foldl Sink.report told

namespace Follows

variable {f : Position → Position} {told : σ} {l : Lexer σ} {fresh : Lexer (Array Diagnostic)}

theorem next_sink (h : Follows f told l fresh) (hx : l.next.1 = fresh.next.1.move f) :
    l.next.2.sink = (fresh.next.2.sink.toList.map (Diagnostic.move f)).foldl Sink.report told := by
  have hkept : fresh.next.2.sink.toList = fresh.sink.toList ++ fresh.next.1.reports := by
    rw [Lexer.next_sink, foldl_report_toList]
  rw [Lexer.next_sink, h.sink, hx, hkept, List.map_append, List.foldl_append, ScanResult.reports_move]

theorem next (h : Follows f told l fresh) :
    l.next.1 = fresh.next.1.move f ∧ Follows f told l.next.2 fresh.next.2 := by
  have hstep := fresh.step_next
  have hsink := h.next_sink
  obtain ⟨hrest, hplace, _⟩ := h
  generalize fresh.next.1 = x at *
  generalize fresh.next.2 = fresh' at *
  cases hstep with
  | finish hgap =>
      have hend := hplace _ (List.prefix_refl _)
      have hfinish : l.Step _ _ := .finish (hrest ▸ hgap)
      rw [← hrest] at hsink ⊢
      rw [hfinish.next_eq] at hsink ⊢
      have hx : ScanResult.move f (.ok (.endOfInput (fresh.cursor.position.after l.cursor.rest))) =
          .ok (.endOfInput (l.cursor.position.after l.cursor.rest)) := by
        rw [← hend]
        rfl
      refine ⟨hx.symm, rfl, ?_, hsink hx.symm⟩
      intro pre hpre
      rw [List.prefix_nil.1 hpre]
      exact hend
  | @read gap x rest hrest' hgap hstop hx hgrow start stop hstart hend =>
      subst hstart hend
      have hread : l.Step _ _ := .read (hrest.trans hrest') hgap hstop hx hgrow rfl rfl
      rw [hread.next_eq] at hsink ⊢
      -- the lexeme ends one front part further on, and what is read later ends in another one
      have hmoved (pre : List Char) (hpre : pre <+: rest) :
          f (((fresh.cursor.position.after gap).after x.chars).after pre) =
            ((l.cursor.position.after gap).after x.chars).after pre := by
        rw [← Position.after_append, ← Position.after_append, ← Position.after_append, ← Position.after_append]
        apply hplace
        rw [hrest, hrest']
        exact (List.prefix_append_right_inj gap).2 ((List.prefix_append_right_inj x.chars).2 hpre)
      have hbegin : f (fresh.cursor.position.after gap) = l.cursor.position.after gap := by
        apply hplace
        rw [hrest, hrest']
        exact List.prefix_append gap _
      have hend : f ((fresh.cursor.position.after gap).after x.chars) =
          (l.cursor.position.after gap).after x.chars := hmoved [] List.nil_prefix
      have hresult := x.move_result_read f (fresh.cursor.position.after gap)
        ((fresh.cursor.position.after gap).after x.chars)
      rw [hbegin, hend] at hresult
      exact ⟨hresult.symm, rfl, hmoved, hsink hresult.symm⟩

theorem advance (h : Follows f told l fresh) (n : Nat) : Follows f told (l.advance n) (fresh.advance n) := by
  induction n with
  | zero => exact h
  | succ n ih =>
      rw [advance_succ', advance_succ']
      exact ih.next.2

end Follows

theorem Sound.advance {source : String} {l : Lexer (Array Diagnostic)} (h : Sound source l) (n : Nat) :
    Sound source (l.advance n) :=
  Function.Iterate.rec (Sound source) h (fun _ hl => hl.next.2) n

/-- Whatever has been called on a lexer of a countable source, all that `next` gives from there on is what it gives
on the rest of the source by itself, told from the cursor, and so is all that is reported. -/
theorem session_restarts (source : String) (hcount : Countable source.toList) (sink : σ) (calls : List Call) :
    let l := ((ofSource source sink).session calls).2
    let base := l.cursor.position
    ∃ before rest : String, source = before ++ rest ∧ base.offset = before.utf8ByteSize ∧
      ∀ n, let fresh := (ofSource rest (#[] : Array Diagnostic)).advance n
        (l.advance n).next.1 = fresh.next.1.move base.rebase ∧
        (l.advance n).sink = (fresh.sink.toList.map (Diagnostic.move base.rebase)).foldl Sink.report l.sink ∧
        ∀ p ∈ fresh.next.1.positions ++ fresh.sink.toList.map Diagnostic.position, base.RebasesExactly p := by
  intro l base
  obtain ⟨pre, hsource, hbase⟩ : ∃ pre, source.toList = pre ++ l.cursor.rest ∧ base = Position.start.after pre :=
    cursor_session source sink calls
  rw [hsource] at hcount
  let rest := String.ofList l.cursor.rest
  have hfollows : Follows base.rebase l.sink l (ofSource rest #[]) := by
    refine ⟨String.toList_ofList.symm, ?_, rfl⟩
    intro front hfront
    exact Position.rebase_after base (hcount.of_suffix.of_prefix hfront)
  refine ⟨String.ofList pre, rest, ?_, ?_, fun n => ⟨?_, ?_, ?_⟩⟩
  · rw [← String.ofList_append, ← hsource, String.ofList_toList]
  · rw [hbase, Position.after_offset, utf8ByteSize_ofList]
    exact Nat.zero_add _
  · exact (hfollows.advance n).next.1
  · exact (hfollows.advance n).sink
  · have hsound := (sound_ofSource rest).advance n
    intro p hp
    obtain ⟨front, hfront, rfl⟩ : p.IsIn rest := by
      rcases List.mem_append.1 hp with hp | hp
      · exact hsound.next.1.positions p hp
      · obtain ⟨d, hd, rfl⟩ := List.mem_map.1 hp
        exact hsound.sink d (Array.mem_toList_iff.1 hd)
    rw [String.toList_ofList] at hfront
    rw [hbase]
    apply Position.rebasesExactly
    exact hcount.of_prefix ((List.prefix_append_right_inj pre).2 hfront)

theorem session_restarts_mid_line :
    let l := ((ofSource "x @\n1" ()).session [.next]).2
    Countable "x @\n1".toList ∧
    ∃ before rest : String, "x @\n1" = before ++ rest ∧ l.cursor.position.offset = before.utf8ByteSize ∧
      ∀ n, (l.advance n).next.1 =
        ((ofSource rest (#[] : Array Diagnostic)).advance n).next.1.move l.cursor.position.rebase := by
  intro l
  have hcount : Countable "x @\n1".toList := countable_of_length (by decide)
  obtain ⟨before, rest, hsource, hbase, hnext⟩ := session_restarts "x @\n1" hcount () [.next]
  exact ⟨hcount, before, rest, hsource, hbase, fun n => (hnext n).1⟩

end Lexer
end ExprLexer
