import ExprLexer.Proofs.Positions
import ExprLexer.Proofs.Scans

/-!
# Appended text

How the scan of a text goes on when more text is behind it. Only the next character can be seen from a lexeme, and
a newline looks to it like the end: so a newline splits a scan in two, `results_newline`, and appended text leaves
all results alone that another character follows, `settled_prefix`.
-/
namespace ExprLexer

/-- A text `more'` that looks from the front like `more`, or like its end if it begins with a newline. -/
def LooksLike (more' more : List Char) : Prop := ∀ c ∈ more'.head?, c ∈ more.head? ∨ c = '\n'

theorem looksLike_newline (more t : List Char) : LooksLike (more ++ '\n' :: t) more := by
  intro c hc
  cases more with
  | nil => exact .inr (Option.some.inj hc).symm
  | cons d more => exact .inl hc

theorem looksLike_append {more : List Char} (h : more ≠ []) (t : List Char) : LooksLike (more ++ t) more := by
  intro c hc
  obtain ⟨d, more, rfl⟩ := List.exists_cons_of_ne_nil h
  exact .inl hc

theorem LooksLike.behind {more' more : List Char} (h : LooksLike more' more) (pre : List Char) :
    LooksLike (pre ++ more') (pre ++ more) := by
  cases pre with
  | nil => exact h
  | cons d pre => exact fun c hc => .inl hc

theorem Trivia.of_looksLike {next next' gap : List Char} (h : Trivia next gap) (hlook : LooksLike next' next) :
    Trivia next' gap := by
  induction h with
  | nil => exact .nil
  | blank hc h ih => exact .blank hc ih
  | @comment body gap hb hend h ih =>
      refine .comment hb ?_ ih
      intro c hc
      cases gap with
      | nil => exact (hlook c hc).elim (hend c) id
      | cons d gap => exact hend c hc

theorem Trivia.append {next gap gap' : List Char} (h : Trivia (gap' ++ next) gap) (h' : Trivia next gap') :
    Trivia next (gap ++ gap') := by
  induction h with
  | nil => exact h'
  | blank hc h ih => exact .blank hc ih
  | @comment body gap hb hend h ih =>
      rw [List.append_assoc]
      refine .comment hb ?_ ih
      rwa [List.append_assoc]

theorem Lexeme.Valid.runsOn_of_looksLike {x : Lexeme} (hx : x.Valid) {more more' : List Char}
    (h : x.RunsOn more') (hlook : LooksLike more' more) : x.RunsOn more := by
  rw [RunsOn, hx.startsTrivia_iff] at *
  rcases h with ⟨hslash, hmore⟩ | ⟨d, hd, hgrow⟩
  · rcases hlook '/' hmore with hmore | hnewline
    · exact .inl ⟨hslash, hmore⟩
    · cases hnewline
  · rcases hlook d hd with hd | rfl
    · exact .inr ⟨d, hd, hgrow⟩
    · exact absurd hgrow (x.not_grows_of_trivia (.inl rfl))

/-- Where the text of a result ends. -/
def ScanResult.endOffset (x : ScanResult) : Nat := x.start.offset + x.lexeme.utf8ByteSize

theorem Lexeme.Valid.endOffset_read {x : Lexeme} (hx : x.Valid) (start : Position) :
    (x.read ⟨start, start.after x.chars⟩).result.endOffset = (start.after x.chars).offset := by
  have hshows := hx.shows_read ⟨start, start.after x.chars⟩
  rw [ScanResult.endOffset, hshows.start_eq, hshows.lexeme_eq, utf8ByteSize_ofList, Position.after_offset]

namespace Scans

variable {p q : Position} {cs : List Char} {xs : List ScanResult}

/-- Trivia in front of a text, where the text cannot become a part of it, changes nothing else. -/
theorem behind_trivia (h : Scans q cs xs) {gap : List Char} (hgap : ∀ next, Trivia next gap)
    (hq : q = p.after gap) : Scans p (gap ++ cs) xs := by
  subst hq
  cases h with
  | @last _ gap' hgap' =>
      rw [← Position.after_append]
      exact .last (Trivia.append (hgap _) hgap')
  | @read _ start stop gap' rest x xs hgap' hx hruns hstart hstop h =>
      rw [← List.append_assoc]
      rw [← Position.after_append] at hstart
      exact .read (Trivia.append (hgap _) hgap') hx hruns hstart hstop h

theorem read_of_looksLike {start stop : Position} {gap rest rest' : List Char} {x : Lexeme}
    (hgap : Trivia (x.chars ++ rest) gap) (hx : x.Valid) (hruns : ¬ x.RunsOn rest) (hstart : start = p.after gap)
    (hstop : stop = start.after x.chars) (hlook : LooksLike rest' rest) (h : Scans stop rest' xs) :
    Scans p (gap ++ (x.chars ++ rest')) ((x.read ⟨start, stop⟩).result :: xs) :=
  .read (hgap.of_looksLike (hlook.behind x.chars)) hx (fun hr => hruns (hx.runsOn_of_looksLike hr hlook))
    hstart hstop h

/-- A newline splits a scan: what is behind it is read as if nothing were before. -/
theorem newline (h : Scans p cs xs) {t : List Char} {ys : List ScanResult}
    (ht : Scans ((p.after cs).next '\n') t ys) : Scans p (cs ++ '\n' :: t) (xs.dropLast ++ ys) := by
  induction h with
  | @last p gap hgap =>
      have hclosed : ∀ next, Trivia next (gap ++ ['\n']) := by
        intro next
        have hgap : Trivia (['\n'] ++ next) gap := hgap.of_looksLike (looksLike_newline [] next)
        exact hgap.append (.blank rfl .nil)
      rw [← List.singleton_append, ← List.append_assoc]
      refine ht.behind_trivia hclosed ?_
      rw [Position.after_append]
      rfl
  | @read p start stop gap rest x xs hgap hx hruns hstart hstop h ih =>
      rw [Position.after_lexeme hstart hstop] at ht
      rw [List.append_assoc, List.append_assoc, List.dropLast_cons_of_ne_nil h.ne_nil, List.cons_append]
      exact read_of_looksLike hgap hx hruns hstart hstop (looksLike_newline rest t) (ih ht)

/-- When text is appended, all results of a scan stay but for the last one, and that one changes only if it
reaches to where the text was appended. -/
theorem exists_kept (h : Scans p cs xs) {t : List Char} {ys : List ScanResult} (ht : Scans p (cs ++ t) ys) :
    ∃ (kept : List ScanResult) (last : Option ScanResult), xs.dropLast = kept ++ last.toList ∧
      (∀ x ∈ kept, x.endOffset < (p.after cs).offset) ∧ (∀ x ∈ last, x.endOffset = (p.after cs).offset) ∧
      kept <+: ys := by
  induction h generalizing ys with
  | last hgap => exact ⟨[], none, rfl, nofun, nofun, List.nil_prefix⟩
  | @read p start stop gap rest x xs hgap hx hruns hstart hstop h ih =>
      have hreach : (x.read ⟨start, stop⟩).result.endOffset = stop.offset := hstop ▸ hx.endOffset_read start
      rw [Position.after_lexeme hstart hstop, Position.after_offset]
      cases rest with
      | nil =>
          obtain rfl := h.unique (.last .nil)
          refine ⟨[], some (x.read ⟨start, stop⟩).result, rfl, nofun, ?_, List.nil_prefix⟩
          intro y hy
          rw [← Option.some.inj hy]
          exact hreach
      | cons c rest =>
          obtain ⟨zs, hzs⟩ := exists_scans stop (c :: rest ++ t)
          have hlook := looksLike_append (List.cons_ne_nil c rest) t
          obtain ⟨kept, last, hxs, hkept, hlast, hprefix⟩ := ih hzs
          rw [List.append_assoc, List.append_assoc] at ht
          obtain rfl := ht.unique (read_of_looksLike hgap hx hruns hstart hstop hlook hzs)
          rw [Position.after_offset] at hkept hlast
          have hmore : (x.read ⟨start, stop⟩).result.endOffset < stop.offset + utf8Length (c :: rest) := by
            rw [hreach]
            exact Nat.lt_add_of_pos_right (utf8Length_pos (List.cons_ne_nil c rest))
          refine ⟨_ :: kept, last, ?_, List.forall_mem_cons.2 ⟨hmore, hkept⟩, hlast, ?_⟩
          · rw [List.dropLast_cons_of_ne_nil h.ne_nil, hxs, List.cons_append]
          · exact List.cons_prefix_cons.2 ⟨rfl, hprefix⟩

end Scans

/-! ## Texts one below the other -/

namespace Position

/-- A position so many bytes and lines further down, in the same column. -/
def down (bytes lines : Nat) (p : Position) : Position :=
  ⟨p.offset + bytes, p.line + UInt32.ofNat lines, p.column⟩

theorem down_next (bytes lines : Nat) (p : Position) (c : Char) :
    (p.next c).down bytes lines = (p.down bytes lines).next c := by
  unfold next down
  split
  · rw [Nat.add_right_comm, UInt32.add_assoc, UInt32.add_comm 1, ← UInt32.add_assoc]
  · rw [Nat.add_right_comm]

theorem down_after (bytes lines : Nat) (p : Position) (cs : List Char) :
    (p.after cs).down bytes lines = (p.down bytes lines).after cs := by
  induction cs generalizing p with
  | nil => rfl
  | cons c cs ih => rw [after_cons, after_cons, ih, down_next]

theorem after_line (p : Position) (cs : List Char) :
    (p.after cs).line = p.line + UInt32.ofNat (cs.count '\n') := by
  induction cs generalizing p with
  | nil => exact (UInt32.add_zero _).symm
  | cons c cs ih =>
      rw [after_cons, ih, List.count_cons, next]
      by_cases hc : c = '\n'
      · rw [if_pos hc, if_pos (beq_iff_eq.2 hc), UInt32.ofNat_add, UInt32.add_comm (UInt32.ofNat _),
          ← UInt32.add_assoc]
        rfl
      · rw [if_neg hc, if_neg (mt beq_iff_eq.1 hc), Nat.add_zero]

/-- Where the line behind a text and a newline begins. -/
theorem start_down (cs : List Char) :
    start.down (utf8Length cs + 1) (cs.count '\n' + 1) = (start.after cs).next '\n' := by
  rw [next, if_pos rfl, after_offset, after_line, down, UInt32.ofNat_add, ← UInt32.add_assoc, Nat.add_assoc]
  rfl

theorem line_toNat {cs : List Char} (h : cs.count '\n' < 2 ^ 32 - 1) :
    (start.after cs).line.toNat = 1 + cs.count '\n' := by
  have hline : start.line.toNat = 1 := rfl
  rw [after_line, UInt32.toNat_add, hline, UInt32.toNat_ofNat_of_lt' (Nat.lt_of_lt_pred h)]
  exact Nat.mod_eq_of_lt (by omega)

theorem line_down {cs pre : List Char} (h : (cs ++ '\n' :: pre).count '\n' < 2 ^ 32 - 1) :
    ((start.after pre).down (utf8Length cs + 1) (cs.count '\n' + 1)).line.toNat =
      (start.after pre).line.toNat + (cs.count '\n' + 1) := by
  rw [down_after, start_down, ← after_cons, ← after_append, line_toNat h]
  rw [List.count_append, List.count_cons_self] at h ⊢
  rw [line_toNat (by omega)]
  omega

end Position

theorem positions_isIn (source : String) :
    ∀ p ∈ (results source).flatMap ScanResult.positions ++ (diagnostics source).map Diagnostic.position,
      p.IsIn source := by
  obtain ⟨hresults, hreported⟩ := results_isIn source
  intro p hp
  rcases List.mem_append.1 hp with hp | hp
  · obtain ⟨x, hx, hp⟩ := List.mem_flatMap.1 hp
    exact (hresults x hx).positions p hp
  · obtain ⟨d, hd, rfl⟩ := List.mem_map.1 hp
    exact hreported d hd

/-- A text, a newline and another text give what the first text gives, and then what the other gives, further
down by the bytes and the lines of the first and of the newline. Lines are counted exactly as long as the counter
has room for all of them. -/
theorem results_newline (s t : String) :
    let down := Position.down (s.utf8ByteSize + 1) (s.toList.count '\n' + 1)
    results (s ++ "\n" ++ t) = pieces s ++ (results t).map (ScanResult.move down) ∧
    diagnostics (s ++ "\n" ++ t) = diagnostics s ++ (diagnostics t).map (Diagnostic.move down) ∧
    ((s ++ "\n" ++ t).toList.count '\n' < 2 ^ 32 - 1 →
      ∀ p ∈ (results t).flatMap ScanResult.positions ++ (diagnostics t).map Diagnostic.position,
        (down p).line.toNat = p.line.toNat + (s.toList.count '\n' + 1)) := by
  intro down
  have htext : (s ++ "\n" ++ t).toList = s.toList ++ '\n' :: t.toList := by
    rw [String.toList_append, String.toList_append, List.append_assoc]
    rfl
  have hbytes : down = Position.down (utf8Length s.toList + 1) (s.toList.count '\n' + 1) := by
    rw [utf8Length_toList]
  have hmove : Scans ((Position.start.after s.toList).next '\n') t.toList
      ((results t).map (ScanResult.move down)) := by
    apply (scans_results t).move
    intro pre _
    rw [hbytes, Position.down_after, Position.start_down]
  have hresults : results (s ++ "\n" ++ t) = pieces s ++ (results t).map (ScanResult.move down) := by
    have hscan := (scans_results s).newline hmove
    rw [← htext, results_eq s, List.dropLast_concat] at hscan
    exact (scans_results _).unique hscan
  refine ⟨hresults, ?_, ?_⟩
  · rw [diagnostics_eq, hresults, List.flatMap_append, List.flatMap_map, ← diagnostics_eq_pieces, diagnostics_eq t,
      List.map_flatMap]
    simp only [ScanResult.reports_move]
  · intro hroom p hp
    obtain ⟨pre, hpre, rfl⟩ := positions_isIn t p hp
    rw [hbytes]
    have hle : pre.count '\n' ≤ t.toList.count '\n' := hpre.sublist.count_le '\n'
    rw [htext, List.count_append, List.count_cons_self] at hroom
    apply Position.line_down
    rw [List.count_append, List.count_cons_self]
    omega

/-! ## Settled results -/

/-- The tokens and errors of a source, without the last one if it reaches to the end of the source. -/
def settled (source : String) : List ScanResult :=
  if (pieces source).getLast?.any (fun x => x.endOffset == source.utf8ByteSize) then (pieces source).dropLast
  else pieces source

theorem settled_eq {source : String} {kept : List ScanResult} {last : Option ScanResult}
    (h : pieces source = kept ++ last.toList) (hkept : ∀ x ∈ kept, x.endOffset < source.utf8ByteSize)
    (hlast : ∀ x ∈ last, x.endOffset = source.utf8ByteSize) : settled source = kept := by
  rw [settled, h]
  cases last with
  | none =>
      rw [Option.toList_none, List.append_nil, if_neg]
      intro hany
      obtain ⟨x, hx, hreach⟩ := (Option.any_eq_true _ _).1 hany
      exact absurd (beq_iff_eq.1 hreach) (Nat.ne_of_lt (hkept x (List.mem_of_getLast? hx)))
  | some x =>
      rw [Option.toList_some, List.getLast?_concat, List.dropLast_concat, if_pos]
      exact beq_iff_eq.2 (hlast x rfl)

/-- Appended text changes no token and no error that another character follows. -/
theorem settled_prefix (s t : String) :
    settled s <+: results (s ++ t) ∧
    ∀ (i : Nat) (x : ScanResult), (results s)[i]? = some x → x.isEnd = false → x.endOffset < s.utf8ByteSize →
      (results (s ++ t))[i]? = some x := by
  have hscan := scans_results (s ++ t)
  rw [String.toList_append] at hscan
  obtain ⟨kept, last, hpieces, hkept, hlast, hprefix⟩ := (scans_results s).exists_kept hscan
  have hend : (Position.start.after s.toList).offset = s.utf8ByteSize := by
    rw [Position.after_offset, utf8Length_toList]
    exact Nat.zero_add _
  rw [hend] at hkept hlast
  rw [results_eq s, List.dropLast_concat] at hpieces
  refine ⟨settled_eq hpieces hkept hlast ▸ hprefix, ?_⟩
  intro i x hx hplain hmore
  rw [results_eq, hpieces, List.append_assoc] at hx
  by_cases hi : i < kept.length
  · obtain ⟨changed, hresults⟩ := hprefix
    rw [List.getElem?_append_left hi] at hx
    rw [← hresults, List.getElem?_append_left hi, hx]
  · rw [List.getElem?_append_right (Nat.le_of_not_lt hi)] at hx
    rcases List.mem_append.1 (List.mem_of_getElem? hx) with hx | hx
    · exact absurd (hlast x (Option.mem_toList.1 hx)) (Nat.ne_of_lt hmore)
    · rw [List.mem_singleton.1 hx] at hplain
      cases hplain

example : (settled "a <").map ScanResult.lexeme = ["a"] ∧
    (settled "a < ").map ScanResult.lexeme = ["a", "<"] := by decide +kernel

end ExprLexer
