import ExprLexer.Proofs.Bytes
import ExprLexer.Proofs.LongestMatch

/-!
# Tilings

The results of reading a source to its end take up its text piece by piece, with trivia between them and
nothing else: no character is lost, doubled or changed, also where a number is malformed.
-/
namespace ExprLexer

structure ScanResult.Covers (x : ScanResult) (offset : Nat) (text : List Char) : Prop where
  lexeme : x.lexeme = String.ofList text
  start : x.start.offset = offset
  stop : ∀ t, x = .ok t → t.span.stop.offset = offset + utf8Length text

theorem Lexeme.Valid.covers_read {x : Lexeme} (h : x.Valid) (start : Position) :
    (x.read ⟨start, start.after x.chars⟩).result.Covers start.offset x.chars where
  lexeme := (h.shows_read _).lexeme_eq
  start := by rw [(h.shows_read _).start_eq]
  stop := by
    intro t ht
    rw [span_of_read ht, Position.after_offset]

/-- Results that make up a text together with the gaps before them, the first gap beginning at an offset. Each
gap is trivia in front of the text that is left behind it, and only the last result is the end. -/
inductive Tiles : Nat → List (List Char) → List ScanResult → List Char → Prop
  | last {offset gap p} (hgap : Trivia [] gap) (hp : p.offset = offset + utf8Length gap) :
      Tiles offset [gap] [.ok (.endOfInput p)] gap
  | piece {offset gap gaps lexeme text} {x : ScanResult} {xs} (hgap : Trivia (lexeme ++ text) gap)
      (hne : lexeme ≠ []) (hx : x.isEnd = false) (hcovers : x.Covers (offset + utf8Length gap) lexeme)
      (htiles : Tiles (offset + utf8Length gap + utf8Length lexeme) gaps xs text) :
      Tiles offset (gap :: gaps) (x :: xs) (gap ++ (lexeme ++ text))

namespace Tiles

variable {offset : Nat} {gaps : List (List Char)} {xs : List ScanResult} {text : List Char}

theorem length_eq (h : Tiles offset gaps xs text) : gaps.length = xs.length := by
  induction h with
  | last hgap hp => rfl
  | piece hgap hne hx hcovers htiles ih => rw [List.length_cons, List.length_cons, ih]

theorem flatten_eq (h : Tiles offset gaps xs text) :
    (List.zipWith (fun gap x => gap ++ x.lexeme.toList) gaps xs).flatten = text := by
  induction h with
  | @last offset gap p hgap hp =>
      change (gap ++ []) ++ [] = gap
      rw [List.append_nil, List.append_nil]
  | piece hgap hne hx hcovers htiles ih =>
      rw [List.zipWith_cons_cons, List.flatten_cons, ih, hcovers.lexeme, String.toList_ofList,
        List.append_assoc]

theorem offset_le (h : Tiles offset gaps xs text) : ∀ x ∈ xs, offset ≤ x.start.offset := by
  induction h with
  | @last offset gap p hgap hp =>
      intro x hx
      rw [List.mem_singleton.1 hx]
      exact hp ▸ Nat.le_add_right _ _
  | piece hgap hne hx hcovers htiles ih =>
      intro y hy
      rcases List.mem_cons.1 hy with rfl | hy
      · rw [hcovers.start]
        exact Nat.le_add_right _ _
      · exact Nat.le_trans (Nat.le_trans (Nat.le_add_right _ _) (Nat.le_add_right _ _)) (ih y hy)

theorem pairwise (h : Tiles offset gaps xs text) :
    xs.Pairwise fun x y => x.start.offset + x.lexeme.utf8ByteSize ≤ y.start.offset := by
  induction h with
  | last hgap hp => exact List.pairwise_singleton _ _
  | piece hgap hne hx hcovers htiles ih =>
      refine List.pairwise_cons.2 ⟨?_, ih⟩
      intro y hy
      rw [hcovers.start, hcovers.lexeme, utf8ByteSize_ofList]
      exact htiles.offset_le y hy

/-- Only the last result may be without a text. -/
theorem lexeme_ne (h : Tiles offset gaps xs text) : xs.Pairwise fun x _ => x.lexeme ≠ "" := by
  induction h with
  | last hgap hp => exact List.pairwise_singleton _ _
  | piece hgap hne hx hcovers htiles ih =>
      refine List.pairwise_cons.2 ⟨?_, ih⟩
      intro y hy
      simpa [hcovers.lexeme, String.ofList_eq_empty_iff] using hne

theorem eq_append_end (h : Tiles offset gaps xs text) :
    ∃ ys p, xs = ys ++ [.ok (.endOfInput p)] ∧ (∀ y ∈ ys, y.isEnd = false) ∧
      p.offset = offset + utf8Length text := by
  induction h with
  | @last offset gap p hgap hp => exact ⟨[], p, rfl, nofun, hp⟩
  | @piece offset gap gaps lexeme text x xs hgap hne hx hcovers htiles ih =>
      obtain ⟨ys, p, rfl, hys, hp⟩ := ih
      refine ⟨x :: ys, p, rfl, List.forall_mem_cons.2 ⟨hx, hys⟩, ?_⟩
      rw [hp, utf8Length_append, utf8Length_append]
      omega

theorem slice_eq (h : Tiles offset gaps xs text) {source : String} {before : List Char}
    (hsource : source.toList = before ++ text) (hoffset : offset = utf8Length before) :
    ∀ x ∈ xs, x.isEnd = false → x.lexeme ≠ "" ∧
      slice source x.start.offset (x.start.offset + x.lexeme.utf8ByteSize) = x.lexeme.toUTF8 ∧
      ∀ t, x = .ok t → t.span.stop.offset = t.span.start.offset + t.lexeme.utf8ByteSize := by
  induction h generalizing before with
  | last hgap hp =>
      intro x hx hend
      rw [List.mem_singleton.1 hx] at hend
      cases hend
  | @piece offset gap gaps lexeme text x xs hgap hne hx hcovers htiles ih =>
      rw [← List.append_assoc] at hsource
      have hbehind : source.toList = before ++ gap ++ lexeme ++ text := by
        rw [hsource, List.append_assoc _ lexeme]
      refine List.forall_mem_cons.2 ⟨fun _ => ⟨?_, ?_, ?_⟩, ih hbehind ?_⟩
      · rw [hcovers.lexeme, Ne, String.ofList_eq_empty_iff]
        exact hne
      · rw [hcovers.start, hcovers.lexeme, utf8ByteSize_ofList, hoffset, ← utf8Length_append]
        exact ExprLexer.slice_eq hsource
      · rintro t rfl
        have hstart : t.span.start.offset = _ := hcovers.start
        have hlexeme : t.lexeme = _ := hcovers.lexeme
        rw [hcovers.stop t rfl, hstart, hlexeme, utf8ByteSize_ofList]
      · rw [hoffset, utf8Length_append, utf8Length_append]

end Tiles

/-- Results that make up a whole source together with the trivia between them: nothing else is in the source,
they stand in its order without an overlap, and only the last one is the end. -/
structure Tiled (source : String) (xs : List ScanResult) : Prop where
  rebuilt : ∃ gaps, Tiles 0 gaps xs source.toList ∧ gaps.length = xs.length ∧
    (List.zipWith (fun gap x => gap ++ x.lexeme.toList) gaps xs).flatten = source.toList
  exact : ∀ x ∈ xs, x.isEnd = false → x.lexeme ≠ "" ∧
    slice source x.start.offset (x.start.offset + x.lexeme.utf8ByteSize) = x.lexeme.toUTF8 ∧
    ∀ t, x = .ok t → t.span.stop.offset = t.span.start.offset + t.lexeme.utf8ByteSize
  ordered : xs.Pairwise fun x y => x.start.offset + x.lexeme.utf8ByteSize ≤ y.start.offset
  ended : ∃ ys p, xs = ys ++ [.ok ⟨.endOfInput, "", ⟨p, p⟩, none⟩] ∧ (∀ y ∈ ys, y.isEnd = false) ∧
    p.offset = source.utf8ByteSize

namespace Lexer

variable {σ : Type} [Sink σ]

theorem ReadsThrough.tiles {l l' : Lexer σ} {xs : List ScanResult}
    (h : ReadsThrough (fun _ => false) l xs l') :
    ∃ gaps, Tiles l.cursor.position.offset gaps xs l.cursor.rest := by
  induction h with
  | @last l l' x h hx =>
      have hstep := l.step_next
      rw [h] at hstep
      cases hstep with
      | finish hgap => exact ⟨[l.cursor.rest], .last hgap (Position.after_offset _ _)⟩
      | read =>
          rw [Bool.or_false, Lexeme.isEnd_result_read] at hx
          cases hx
  | @more l l' l'' x xs h hx hxs ih =>
      have hstep := l.step_next
      rw [h] at hstep
      obtain ⟨gaps, htiles⟩ := ih
      cases hstep with
      | finish hgap => cases hx
      | @read gap x rest hrest hgap hstop hvalid hgrow start stop hstart hend =>
          have hplace : start.offset = l.cursor.position.offset + utf8Length gap := by
            rw [hstart, Position.after_offset]
          have hbehind : stop.offset = l.cursor.position.offset + utf8Length gap + utf8Length x.chars := by
            rw [hend, Position.after_offset, hplace]
          subst hend
          rw [hrest]
          refine ⟨gap :: gaps, .piece hgap hvalid.ne_nil (x.isEnd_result_read _) ?_ ?_⟩
          · exact hplace ▸ hvalid.covers_read start
          · exact hbehind ▸ htiles

theorem drain_tiled (source : String) (sink : σ) : Tiled source (ofSource source sink).drain.1.toList := by
  have hrun := readsThrough_readThrough (fun _ => false) (ofSource source sink)
  obtain ⟨gaps, htiles⟩ : ∃ gaps, Tiles 0 gaps _ source.toList := hrun.tiles
  have hsource : source.toList = [] ++ source.toList := rfl
  refine ⟨⟨gaps, htiles, ?_, ?_⟩, ?_, ?_, ?_⟩
  · exact htiles.length_eq
  · exact htiles.flatten_eq
  · exact htiles.slice_eq hsource rfl
  · exact htiles.pairwise
  · obtain ⟨ys, p, hxs, hys, hp⟩ := htiles.eq_append_end
    rw [Nat.zero_add, utf8Length_toList] at hp
    exact ⟨ys, p, hxs, hys, hp⟩

end Lexer
end ExprLexer
