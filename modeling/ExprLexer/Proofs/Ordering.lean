import ExprLexer.Proofs.Appending
import ExprLexer.Proofs.Tiling
import ExprLexer.Proofs.Tracking

/-!
# The order of positions

A position with more of the source before it is on a later line, or further right on the same one. So the positions that
a scan reports have one order, whether it is told by offsets or by lines and columns, and the results come in it:
`results_ordered`.
-/
namespace ExprLexer
namespace Position

/-- Positions compared as people read them, by line and then by column. -/
def comparePlace (p q : Position) : Ordering := (compare p.line q.line).then (compare p.column q.column)

theorem comparePlace_self (p : Position) : p.comparePlace p = .eq := by
  simp [comparePlace]

theorem comparePlace_swap (p q : Position) : (p.comparePlace q).swap = q.comparePlace p := by
  rw [comparePlace, Ordering.swap_then, ← Std.OrientedCmp.eq_swap, ← Std.OrientedCmp.eq_swap]
  rfl

/-- Reading on leads to a later line, or to the right. -/
theorem Marks.comparePlace_lt {p q : Position} {pre more : List Char} (hp : p.Marks pre)
    (hq : q.Marks (pre ++ more)) (hne : more ≠ []) : p.comparePlace q = .lt := by
  apply Ordering.then_eq_lt.2
  rw [Std.compare_eq_lt, Std.compare_eq_lt, Std.compare_eq_iff_eq, UInt32.lt_iff_toNat_lt, UInt32.lt_iff_toNat_lt,
    ← UInt32.toNat_inj, hp.line, hq.line, hp.column, hq.column, List.count_append]
  by_cases hnewline : '\n' ∈ more
  · left
    have hcount : 0 < more.count '\n' := List.count_pos_iff.2 hnewline
    omega
  · right
    have hcount : more.count '\n' = 0 := List.count_eq_zero.2 hnewline
    have hlength : 0 < more.length := List.length_pos_iff.2 hne
    rw [lastLine_append hnewline, List.length_append]
    omega

section Exact

variable {source : String} {p q : Position} (hp : p.IsExact source) (hq : q.IsExact source)

include hp hq

theorem IsExact.comparePlace_lt (h : p.offset < q.offset) : p.comparePlace q = .lt := by
  obtain ⟨pre, hpre, hp⟩ := hp
  obtain ⟨pre', hpre', hq⟩ := hq
  rw [hp.offset, hq.offset] at h
  rcases List.prefix_or_prefix_of_prefix hpre hpre' with ⟨more, rfl⟩ | ⟨more, rfl⟩
  · apply hp.comparePlace_lt hq
    rintro rfl
    simp at h
  · rw [utf8Length_append] at h
    omega

theorem IsExact.comparePlace_eq : p.comparePlace q = compare p.offset q.offset := by
  rcases Nat.lt_trichotomy p.offset q.offset with h | h | h
  · rw [hp.comparePlace_lt hq h, Nat.compare_eq_lt.2 h]
  · rw [hp.eq_of_offset_eq hq h, comparePlace_self, Nat.compare_eq_eq.2 rfl]
  · rw [← comparePlace_swap, hq.comparePlace_lt hp h, Nat.compare_eq_gt.2 h]
    rfl

end Exact

/-- Two positions of which one order says the same as the other. -/
structure ComparesAlike (p q : Position) : Prop where
  offset : compare p q = compare p.offset q.offset
  place : compare p q = p.comparePlace q
  eq_of_offset : p.offset = q.offset → p = q
  eq_of_place : p.line = q.line → p.column = q.column → p = q

theorem IsExact.comparesAlike {source : String} {p q : Position} (hp : p.IsExact source) (hq : q.IsExact source) :
    p.ComparesAlike q := by
  have hplace := hp.comparePlace_eq hq
  have hoffset : compare p q = compare p.offset q.offset := by
    change (compare p.offset q.offset).then (p.comparePlace q) = _
    rw [hplace, Ordering.then_self]
  refine ⟨hoffset, hoffset.trans hplace.symm, hp.eq_of_offset_eq hq, ?_⟩
  intro hline hcolumn
  apply hp.eq_of_offset_eq hq
  apply Nat.compare_eq_eq.1
  rw [← hplace, comparePlace, hline, hcolumn]
  simp

end Position

/-- Where the text of a result ends. A malformed number ends where its lexeme does. -/
def ScanResult.stop : ScanResult → Position
  | .ok t => t.span.stop
  | .error e => e.position.after (lexeme (.error e)).toList

theorem StandsAt.isIn_after {source : String} {p : Position} {text : List Char} (h : StandsAt source p text) :
    (p.after text).IsIn source := by
  obtain ⟨before, rest, hsource, rfl, _, _⟩ := h
  refine ⟨before ++ text, ⟨rest, ?_⟩, (Position.after_append _ _ _).symm⟩
  rw [hsource, List.append_assoc]

section Results

variable {source : String} {x : ScanResult} (hx : x ∈ results source)

include hx

theorem start_isIn : x.start.IsIn source := by
  have hin := (results_isIn source).1 x hx
  apply hin.positions
  cases x <;> exact List.mem_cons_self

theorem stop_eq : x.stop = x.start.after x.lexeme.toList := by
  have hin := (results_isIn source).1 x hx
  cases x with
  | ok t =>
      obtain ⟨_, _, _, hstop, _⟩ := hin
      exact hstop
  | error e => rfl

theorem stop_isIn : x.stop.IsIn source := by
  cases x with
  | ok t =>
      have hin : Token.IsIn source t := (results_isIn source).1 _ hx
      exact hin.stop
  | error e =>
      rw [stop_eq hx]
      exact (standsAt_of_mem_results hx rfl).isIn_after

theorem stop_offset : x.stop.offset = x.endOffset := by
  rw [stop_eq hx, Position.after_offset, utf8Length_toList]
  rfl

theorem start_offset_lt (hplain : x.isEnd = false) : x.start.offset < x.stop.offset := by
  obtain ⟨_, _, _, _, hne, _⟩ := standsAt_of_mem_results hx hplain
  rw [stop_eq hx, Position.after_offset]
  exact Nat.lt_add_of_pos_right (utf8Length_pos hne)

end Results

theorem results_pairwise (source : String) :
    (results source).Pairwise fun x y => x.endOffset ≤ y.start.offset ∧ x.start.offset < y.start.offset := by
  obtain ⟨gaps, htiles⟩ := (Lexer.readsThrough_results source ()).tiles
  apply (htiles.lexeme_ne.and htiles.pairwise).imp
  rintro x y ⟨hne, hle⟩
  have hsize : 0 < x.lexeme.utf8ByteSize := Nat.pos_of_ne_zero fun h => hne (String.utf8ByteSize_eq_zero_iff.1 h)
  exact ⟨hle, by omega⟩

/-- In a source that is short enough for the counters, every token takes up some of it, every result begins where the
one before ended or behind, and any two of the positions that are reported are ordered by their offsets as they are by
their lines and columns. -/
theorem results_ordered (source : String) (hlen : source.length ≤ 2 ^ 32 - 2) :
    (∀ t : Token, .ok t ∈ results source → t.kind ≠ .endOfInput → compare t.span.start t.span.stop = .lt) ∧
    (results source).Pairwise (fun x y => (compare x.stop y.start).isLE ∧ compare x.start y.start = .lt) ∧
    ∀ p ∈ (results source).flatMap ScanResult.positions ++ (diagnostics source).map Diagnostic.position,
      ∀ q ∈ (results source).flatMap ScanResult.positions ++ (diagnostics source).map Diagnostic.position,
        p.ComparesAlike q := by
  have hcompare {p q : Position} (hp : p.IsIn source) (hq : q.IsIn source) : p.ComparesAlike q :=
    (hp.isExact hlen).comparesAlike (hq.isExact hlen)
  refine ⟨?_, ?_, ?_⟩
  · intro t ht hkind
    have hplain : ScanResult.isEnd (.ok t) = false := beq_eq_false_iff_ne.2 hkind
    have hlt : t.span.start.offset < t.span.stop.offset := start_offset_lt ht hplain
    have hsame : t.span.start.ComparesAlike t.span.stop := hcompare (start_isIn ht) (stop_isIn ht)
    rw [hsame.offset]
    exact Nat.compare_eq_lt.2 hlt
  · apply (results_pairwise source).imp_of_mem
    rintro x y hx hy ⟨hstop, hstart⟩
    rw [← stop_offset hx] at hstop
    rw [(hcompare (stop_isIn hx) (start_isIn hy)).offset, (hcompare (start_isIn hx) (start_isIn hy)).offset]
    exact ⟨Nat.isLE_compare.2 hstop, Nat.compare_eq_lt.2 hstart⟩
  · intro p hp q hq
    exact hcompare (positions_isIn source p hp) (positions_isIn source q hq)

/-- The end of an unknown character and the number below it, which is further left. -/
theorem results_ordered_two_lines :
    let positions := (results "a@\n1").flatMap ScanResult.positions ++ (diagnostics "a@\n1").map Diagnostic.position
    "a@\n1".length ≤ 2 ^ 32 - 2 ∧ ⟨2, 1, 3⟩ ∈ positions ∧ ⟨3, 2, 1⟩ ∈ positions ∧
      Position.ComparesAlike ⟨2, 1, 3⟩ ⟨3, 2, 1⟩ := by
  intro positions
  have hlen : "a@\n1".length ≤ 2 ^ 32 - 2 := by decide
  have hp : ⟨2, 1, 3⟩ ∈ positions := by decide +kernel
  have hq : ⟨3, 2, 1⟩ ∈ positions := by decide +kernel
  exact ⟨hlen, hp, hq, (results_ordered "a@\n1" hlen).2.2 _ hp _ hq⟩

end ExprLexer
