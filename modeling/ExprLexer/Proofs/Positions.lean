import Mathlib.Data.List.DropRight
import Mathlib.Data.List.Induction
import ExprLexer.Proofs.Bytes
import ExprLexer.Proofs.Invariant

/-!
# Positions

The place behind a front part of a source counts its bytes, its newlines and the characters of its last
line. The counts are exact as long as the source is short enough for 32-bit words, and then every position
that a session gives away is such a count.
-/
namespace ExprLexer

/-- The last line of a text, without the newline before it. -/
def lastLine (cs : List Char) : List Char := cs.rtakeWhile (· != '\n')

theorem lastLine_concat (cs : List Char) (c : Char) :
    lastLine (cs ++ [c]) = if c = '\n' then [] else lastLine cs ++ [c] := by
  rw [lastLine, List.rtakeWhile_concat]
  by_cases hc : c = '\n'
  · rw [if_pos hc, hc]
    rfl
  · rw [if_neg hc, if_pos (bne_iff_ne.2 hc), lastLine]

theorem length_lastLine_le (cs : List Char) : (lastLine cs).length ≤ cs.length :=
  (List.rtakeWhile_suffix _ cs).length_le

theorem lastLine_append {cs : List Char} (h : '\n' ∉ cs) (pre : List Char) :
    lastLine (pre ++ cs) = lastLine pre ++ cs := by
  induction cs using List.reverseRecOn with
  | nil => rw [List.append_nil, List.append_nil]
  | append_singleton cs c ih =>
      rw [List.mem_append, List.mem_singleton, not_or] at h
      rw [← List.append_assoc, lastLine_concat, if_neg (Ne.symm h.2), ih h.1, List.append_assoc]

namespace Position

/-- The place behind the front part `pre` of a source, in plain numbers. -/
structure Marks (p : Position) (pre : List Char) : Prop where
  offset : p.offset = utf8Length pre
  line : p.line.toNat = 1 + pre.count '\n'
  column : p.column.toNat = 1 + (lastLine pre).length

def HasRoom (p : Position) : Prop := p.line.toNat + 1 < 2 ^ 32 ∧ p.column.toNat + 1 < 2 ^ 32

theorem Marks.hasRoom {p : Position} {pre : List Char} (h : p.Marks pre) (hlen : pre.length < 2 ^ 32 - 2) :
    p.HasRoom := by
  have hline := h.line
  have hcolumn := h.column
  have hcount := List.count_le_length (a := '\n') (l := pre)
  have hlast := length_lastLine_le pre
  exact ⟨by omega, by omega⟩

theorem toNat_add_one {n : UInt32} (h : n.toNat + 1 < 2 ^ 32) : (n + 1).toNat = n.toNat + 1 := by
  rw [UInt32.toNat_add]
  exact Nat.mod_eq_of_lt h

theorem Marks.next {p : Position} {pre : List Char} (h : p.Marks pre) (hroom : p.HasRoom) (c : Char) :
    (p.next c).Marks (pre ++ [c]) := by
  obtain ⟨hoffset, hline, hcolumn⟩ := h
  have hbytes : (p.next c).offset = utf8Length (pre ++ [c]) := by
    rw [next_offset, hoffset, utf8Length_append, utf8Length_cons, utf8Length_nil, Nat.add_zero]
  unfold Position.next at hbytes ⊢
  by_cases hc : c = '\n'
  · rw [if_pos hc] at hbytes ⊢
    refine ⟨hbytes, ?_, ?_⟩
    · rw [toNat_add_one hroom.1, hline, hc, List.count_append, List.count_singleton_self, Nat.add_assoc]
    · rw [lastLine_concat, if_pos hc]
      rfl
  · rw [if_neg hc] at hbytes ⊢
    refine ⟨hbytes, ?_, ?_⟩
    · have hnone : [c].count '\n' = 0 := List.count_eq_zero.2 fun h => hc (List.mem_singleton.1 h).symm
      rw [hline, List.count_append, hnone, Nat.add_zero]
    · rw [toNat_add_one hroom.2, hcolumn, lastLine_concat, if_neg hc, List.length_append,
        List.length_singleton, Nat.add_assoc]

theorem marks_after {pre : List Char} (h : pre.length ≤ 2 ^ 32 - 2) : (start.after pre).Marks pre := by
  induction pre using List.reverseRecOn with
  | nil => exact ⟨rfl, rfl, rfl⟩
  | append_singleton pre c ih =>
      rw [List.length_append, List.length_singleton] at h
      have hpre := ih (by omega)
      rw [after_append]
      exact hpre.next (hpre.hasRoom (by omega)) c

def IsExact (source : String) (p : Position) : Prop := ∃ pre, pre <+: source.toList ∧ p.Marks pre

/-- Lines and columns are functions of the offset. -/
theorem IsExact.eq_of_offset_eq {source : String} {p q : Position} (hp : p.IsExact source)
    (hq : q.IsExact source) (h : p.offset = q.offset) : p = q := by
  obtain ⟨pre, ⟨rest, hpre⟩, hp⟩ := hp
  obtain ⟨pre', ⟨rest', hpre'⟩, hq⟩ := hq
  rw [hp.offset, hq.offset] at h
  obtain ⟨rfl, _⟩ := prefix_eq_of_utf8Length_eq (hpre.trans hpre'.symm) h
  obtain ⟨offset, line, column⟩ := p
  obtain ⟨offset', line', column'⟩ := q
  obtain rfl : offset = offset' := hp.offset.trans hq.offset.symm
  obtain rfl : line = line' := UInt32.toNat_inj.1 (hp.line.trans hq.line.symm)
  obtain rfl : column = column' := UInt32.toNat_inj.1 (hp.column.trans hq.column.symm)
  rfl

theorem IsIn.isExact {source : String} (hlen : source.length ≤ 2 ^ 32 - 2) {p : Position}
    (h : p.IsIn source) : p.IsExact source := by
  obtain ⟨pre, hpre, rfl⟩ := h
  have hle := hpre.length_le
  rw [String.length_toList] at hle
  exact ⟨pre, hpre, marks_after (Nat.le_trans hle hlen)⟩

theorem IsExact.isValid {source : String} {p : Position} (h : p.IsExact source) :
    (⟨p.offset⟩ : String.Pos.Raw).IsValid source := by
  obtain ⟨pre, ⟨rest, hpre⟩, hp⟩ := h
  refine String.Pos.Raw.isValid_iff_exists_append.2 ⟨String.ofList pre, String.ofList rest, ?_, ?_⟩
  · rw [← String.ofList_append, hpre, String.ofList_toList]
  · rw [hp.offset, ← utf8ByteSize_ofList]
    rfl

end Position

namespace Token

structure OnOneLine (t : Token) : Prop where
  newline : '\n' ∉ t.lexeme.toList
  line : t.span.stop.line = t.span.start.line
  column : t.span.stop.column.toNat = t.span.start.column.toNat + t.lexeme.length
  offset : t.span.stop.offset = t.span.start.offset + t.lexeme.utf8ByteSize

theorem IsIn.start {source : String} {t : Token} (h : t.IsIn source) : t.span.start.IsIn source := by
  obtain ⟨pre, hpre, hstart, _⟩ := h
  exact ⟨pre, (List.prefix_append pre _).trans hpre, hstart⟩

theorem IsIn.stop {source : String} {t : Token} (h : t.IsIn source) : t.span.stop.IsIn source := by
  obtain ⟨pre, hpre, hstart, hstop, _⟩ := h
  exact ⟨_, hpre, by rw [hstop, hstart, Position.after_append]⟩

theorem IsIn.onOneLine {source : String} (hlen : source.length ≤ 2 ^ 32 - 2) {t : Token}
    (h : t.IsIn source) : t.OnOneLine := by
  obtain ⟨pre, hpre, hstart, hstop, hnewline⟩ := h
  have hle := hpre.length_le
  rw [String.length_toList, List.length_append] at hle
  have hbegin : (Position.start.after pre).Marks pre := Position.marks_after (by omega)
  have hend : (Position.start.after (pre ++ t.lexeme.toList)).Marks (pre ++ t.lexeme.toList) := by
    apply Position.marks_after
    rw [List.length_append]
    omega
  rw [Position.after_append, ← hstart, ← hstop] at hend
  rw [← hstart] at hbegin
  refine ⟨hnewline, ?_, ?_, ?_⟩
  · apply UInt32.toNat_inj.1
    rw [hend.line, hbegin.line, List.count_append, List.count_eq_zero.2 hnewline, Nat.add_zero]
  · rw [hend.column, hbegin.column, lastLine_append hnewline, List.length_append, String.length_toList,
      Nat.add_assoc]
  · rw [hend.offset, hbegin.offset, utf8Length_append, utf8Length_toList]

end Token

def ScanResult.positions : ScanResult → List Position
  | .ok t => [t.span.start, t.span.stop]
  | .error e => [e.position]

theorem ScanResult.IsIn.positions {source : String} {x : ScanResult} (h : x.IsIn source) :
    ∀ p ∈ x.positions, p.IsIn source := by
  intro p hp
  cases x with
  | ok t =>
      have ht : t.IsIn source := h
      simp only [ScanResult.positions, List.mem_cons, List.not_mem_nil, or_false] at hp
      rcases hp with rfl | rfl
      · exact ht.start
      · exact ht.stop
  | error e =>
      rw [List.mem_singleton.1 hp]
      exact h

namespace Lexer

variable {σ : Type}

def Answer.positions : Answer σ → List Position
  | .position p => [p]
  | a => a.results.flatMap ScanResult.positions

theorem Answer.IsIn.positions {source : String} {a : Answer σ} (h : a.IsIn source) :
    ∀ p ∈ a.positions, p.IsIn source := by
  intro p hp
  have hresults (hp : p ∈ a.results.flatMap ScanResult.positions) : p.IsIn source := by
    obtain ⟨x, hx, hp⟩ := List.mem_flatMap.1 hp
    exact (h.1 x hx).positions p hp
  cases a with
  | position q =>
      rw [List.mem_singleton.1 hp]
      exact h.2 q rfl
  | _ => exact hresults hp

variable [Sink σ]

theorem Answer.IsIn.into {source : String} {a : Answer (Array Diagnostic)} (h : a.IsIn source) (sink : σ) :
    (a.into sink).IsIn source := by
  cases a with
  | tokens ts => exact ⟨by cases ts <;> exact h.1, nofun⟩
  | position p =>
      refine ⟨fun x hx => absurd hx List.not_mem_nil, ?_⟩
      intro q hq
      cases hq
      exact h.2 p rfl
  | _ => exact ⟨h.1, nofun⟩

/-- Whatever is called on a lexer of a source of at most 2^32 - 2 characters, its cursor marks the front part
that is behind it, with room in both counters for all that may follow, and every position in its answers,
its diagnostics and its log marks some front part. Tokens stay on their lines. -/
theorem session_positions (source : String) (hlen : source.length ≤ 2 ^ 32 - 2) (sink : σ)
    (calls : List Call) :
    let s := (ofSource source sink).session calls
    let told := ((ofSource source (#[] : Array Diagnostic)).session calls).2.sink
    (∃ pre, source.toList = pre ++ s.2.cursor.rest ∧ s.2.cursor.position.Marks pre) ∧
    s.2.cursor.position.offset ≤ source.utf8ByteSize ∧
    (⟨s.2.cursor.position.offset⟩ : String.Pos.Raw).IsValid source ∧
    (∀ gone c, gone ++ [c] <+: s.2.cursor.rest → (s.2.cursor.position.after gone).HasRoom) ∧
    (∀ a ∈ s.1, ∀ p ∈ a.positions, p.IsExact source) ∧
    (s.2.sink = told.foldl Sink.report sink ∧ ∀ d ∈ told, d.position.IsExact source) ∧
    (∀ e ∈ s.2.log, e.position.IsExact source) ∧
    ∀ a ∈ s.1, ∀ t, .ok t ∈ a.results → t.OnOneLine := by
  intro s told
  obtain ⟨hanswers, hlexer⟩ := (sound_ofSource source).session calls
  have hs : s = _ := session_ofSource source sink calls
  have hin : ∀ a ∈ s.1, a.IsIn source := by
    intro a ha
    rw [hs] at ha
    obtain ⟨b, hb, rfl⟩ := List.mem_map.1 ha
    exact (hanswers b hb).into sink
  obtain ⟨pre, hsource, hposition⟩ : ∃ pre, source.toList = pre ++ s.2.cursor.rest ∧ _ :=
    cursor_session source sink calls
  have hlength := congrArg List.length hsource
  rw [String.length_toList, List.length_append] at hlength
  have hmarks : s.2.cursor.position.Marks pre := hposition ▸ Position.marks_after (by omega)
  have hexact : s.2.cursor.position.IsExact source := ⟨pre, hsource ▸ List.prefix_append _ _, hmarks⟩
  refine ⟨⟨pre, hsource, hmarks⟩, ?_, hexact.isValid, ?_, ?_, ⟨?_, ?_⟩, ?_, ?_⟩
  · exact hexact.isValid.le_rawEndPos
  · intro gone c hgone
    have hgone := hgone.length_le
    rw [List.length_append, List.length_singleton] at hgone
    have hlen' : (pre ++ gone).length < 2 ^ 32 - 2 := by
      rw [List.length_append]
      omega
    rw [hposition, ← Position.after_append]
    exact (Position.marks_after (Nat.le_of_lt hlen')).hasRoom hlen'
  · intro a ha p hp
    exact ((hin a ha).positions p hp).isExact hlen
  · rw [hs]
    rfl
  · intro d hd
    exact (hlexer.sink d hd).isExact hlen
  · intro e he
    rw [hs] at he
    exact (hlexer.log e he).isExact hlen
  · intro a ha t ht
    exact Token.IsIn.onOneLine hlen ((hin a ha).1 _ ht)

theorem session_positions_two_lines :
    "a\n@ 1".length ≤ 2 ^ 32 - 2 ∧
    ∀ a ∈ ((ofSource "a\n@ 1" (⟨0⟩ : Tally)).session [.next, .next?, .position, .tokenizeAll]).1,
      ∀ p ∈ a.positions, p.IsExact "a\n@ 1" := by
  have hlen : "a\n@ 1".length ≤ 2 ^ 32 - 2 := by decide
  exact ⟨hlen, (session_positions "a\n@ 1" hlen (⟨0⟩ : Tally) _).2.2.2.2.1⟩

end Lexer
end ExprLexer
