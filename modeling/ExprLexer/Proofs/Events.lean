import ExprLexer.Proofs.Reports

/-!
# The log of a scan

A log tells of the results that were scanned, one after the other, and of nothing else. It tells of the end once, and
of nothing behind it: `session_log`.
-/
namespace ExprLexer

/-- An event as a log shows it: its level, its message and its place, and the event itself with its other fields. -/
structure LogLine where
  level : String
  message : String
  position : Position
  event : Event
  deriving DecidableEq, Repr

def Event.line (e : Event) : LogLine := ⟨e.severity.name, e.message, e.position, e⟩

namespace LogLine

def ofToken (t : Token) : LogLine := ⟨"TRACE", "token", t.start, .token t.kind t.lexeme t.start⟩

def ofDiagnostic (d : Diagnostic) : LogLine :=
  ⟨"DEBUG", "unrecognised character", d.position, .unrecognised d.character d.position⟩

def ofFailure (e : Failure) : LogLine :=
  ⟨"WARN", "malformed number", e.position, .malformedNumber (ScanResult.lexeme (.error e)) e.position⟩

def ofEnd (p : Position) : LogLine := ⟨"DEBUG", "end of input", p, .endOfInput p⟩

/-- What is told of an end at `p`, if one is among the results. -/
def ending (xs : List ScanResult) (p : Position) : List LogLine :=
  if xs.any ScanResult.isEnd then [ofEnd p] else []

theorem ending_cons {x : ScanResult} (h : x.isEnd = false) (xs : List ScanResult) (p : Position) :
    ending (x :: xs) p = ending xs p := by
  rw [ending, ending, List.any_cons, h, Bool.false_or]

theorem ending_of_isEnd {x : ScanResult} (h : x.isEnd) (xs : List ScanResult) (p : Position) :
    ending (x :: xs) p = [ofEnd p] := by
  rw [ending, List.any_cons, h, Bool.true_or, if_pos rfl]

theorem endOfInput_mem_of_map {es : List Event} {p : Position} (h : ofEnd p ∈ es.map Event.line) :
    .endOfInput p ∈ es := by
  obtain ⟨e, he, hline⟩ := List.mem_map.1 h
  obtain rfl : e = .endOfInput p := congrArg LogLine.event hline
  exact he

end LogLine

/-- A log that tells of scanned results. A malformed number is told of in the place of a token, an unknown character
before its token, and the end only the first time. -/
inductive Tells : List ScanResult → List LogLine → Prop
  | nil : Tells [] []
  | malformed {text p xs lines} (h : Tells xs lines) :
      Tells (.error ⟨.malformedNumber text, p⟩ :: xs)
        (⟨"WARN", "malformed number", p, .malformedNumber text p⟩ :: lines)
  | unknown {t c xs lines} (hkind : t.kind = .unknown) (hc : t.lexeme = c.toString) (h : Tells xs lines) :
      Tells (.ok t :: xs)
        (⟨"DEBUG", "unrecognised character", t.start, .unrecognised c t.start⟩ ::
          ⟨"TRACE", "token", t.start, .token t.kind t.lexeme t.start⟩ :: lines)
  | token {t xs lines} (hkind : t.kind ≠ .unknown) (hend : t.kind ≠ .endOfInput) (h : Tells xs lines) :
      Tells (.ok t :: xs) (⟨"TRACE", "token", t.start, .token t.kind t.lexeme t.start⟩ :: lines)
  | ended {t n} (hkind : t.kind = .endOfInput) :
      Tells (.ok t :: List.replicate n (.ok t)) [⟨"DEBUG", "end of input", t.start, .endOfInput t.start⟩]

namespace Tells

variable {xs : List ScanResult} {lines : List LogLine}

theorem read (h : Tells xs lines) (x : Lexeme) (span : Span) :
    Tells ((x.read span).result :: xs) ((x.read span).events.map Event.line ++ lines) := by
  cases x with
  | operator o => exact .token nofun nofun h
  | numeral cs =>
      rcases Lexeme.read_numeral cs span with ⟨value, _, hread⟩ | ⟨_, hread⟩
      · rw [hread]
        exact .token nofun nofun h
      · rw [hread]
        exact .malformed h
  | word cs =>
      have hplain := (Lexeme.word cs).isEnd_result_read span
      exact .token (Lexeme.kind_word_ne cs) (ScanResult.isEnd_ok_eq_false.1 hplain) h
  | unknown c => exact .unknown rfl rfl h

theorem trace_eq (h : Tells xs lines) : lines.filter (·.level == "TRACE") =
    ((xs.filterMap ScanResult.token?).filter (·.kind != .endOfInput)).map .ofToken := by
  induction h with
  | nil => rfl
  | malformed h ih => exact ih
  | unknown hkind hc h ih => simpa [ScanResult.token?, hkind, LogLine.ofToken] using ih
  | token hkind hend h ih => simpa [ScanResult.token?, hend, LogLine.ofToken] using ih
  | ended hkind => simp [ScanResult.token?, hkind]

theorem warn_eq (h : Tells xs lines) :
    lines.filter (·.level == "WARN") = (xs.filterMap ScanResult.failure?).map .ofFailure := by
  induction h with
  | nil => rfl
  | malformed h ih => exact congrArg _ ih
  | unknown hkind hc h ih => exact ih
  | token hkind hend h ih => exact ih
  | ended hkind => simp [ScanResult.failure?]

section Ending

variable {p : Position} (hp : ∀ q, .ofEnd q ∈ lines → q = p)

include hp

theorem debug_eq (h : Tells xs lines) : lines.filter (·.level == "DEBUG") =
    (xs.flatMap ScanResult.reports).map .ofDiagnostic ++ LogLine.ending xs p := by
  induction h with
  | nil => rfl
  | malformed h ih => exact ih fun q hq => hp q (.tail _ hq)
  | unknown hkind hc h ih =>
      have hplain := ScanResult.isEnd_ok_eq_false.2 (by rw [hkind]; nofun)
      rw [LogLine.ending_cons hplain, List.flatMap_cons, ScanResult.reports_of_unknown hkind hc]
      exact congrArg _ (ih fun q hq => hp q (.tail _ (.tail _ hq)))
  | token hkind hend h ih =>
      rw [LogLine.ending_cons (ScanResult.isEnd_ok_eq_false.2 hend), List.flatMap_cons, ScanResult.reports,
        if_neg hkind]
      exact ih fun q hq => hp q (.tail _ hq)
  | ended hkind =>
      obtain rfl := hp _ List.mem_cons_self
      rw [LogLine.ending_of_isEnd (ScanResult.isEnd_ok.2 hkind)]
      simp [ScanResult.reports, hkind, LogLine.ofEnd]

/-- The end is told of last. -/
theorem eq_append_ending (h : Tells xs lines) :
    ∃ told, (∀ line ∈ told, line.message ≠ "end of input") ∧ lines = told ++ LogLine.ending xs p := by
  induction h with
  | nil => exact ⟨[], nofun, rfl⟩
  | malformed h ih =>
      obtain ⟨told, htold, hlines⟩ := ih fun q hq => hp q (.tail _ hq)
      exact ⟨_ :: told, by simpa using htold, congrArg _ hlines⟩
  | unknown hkind hc h ih =>
      obtain ⟨told, htold, hlines⟩ := ih fun q hq => hp q (.tail _ (.tail _ hq))
      rw [LogLine.ending_cons (ScanResult.isEnd_ok_eq_false.2 (by rw [hkind]; nofun)), hlines]
      exact ⟨_ :: _ :: told, by simpa using htold, rfl⟩
  | token hkind hend h ih =>
      obtain ⟨told, htold, hlines⟩ := ih fun q hq => hp q (.tail _ hq)
      rw [LogLine.ending_cons (ScanResult.isEnd_ok_eq_false.2 hend), hlines]
      exact ⟨_ :: told, by simpa using htold, rfl⟩
  | ended hkind =>
      obtain rfl := hp _ List.mem_cons_self
      rw [LogLine.ending_of_isEnd (ScanResult.isEnd_ok.2 hkind)]
      exact ⟨[], nofun, rfl⟩

end Ending

end Tells

namespace Lexer

variable {σ : Type} [Sink σ]

theorem map_next_advance (l : Lexer σ) (n : Nat) : (List.range (n + 1)).map (fun i => (l.advance i).next.1) =
    l.next.1 :: (List.range n).map fun i => (l.next.2.advance i).next.1 := by
  rw [List.range_succ_eq_map, List.map_cons, List.map_map]
  rfl

theorem endOfInput_not_mem_events (x : Lexeme) (span : Span) (p : Position) : .endOfInput p ∉ (x.read span).events := by
  cases x with
  | numeral cs =>
      rcases Lexeme.read_numeral cs span with ⟨value, _, hread⟩ | ⟨_, hread⟩
      · simp [hread, Reading.ofToken, Event.ofToken]
      · simp [hread, Reading.ofMalformed]
  | _ => simp [Lexeme.read, Reading.ofToken, Reading.ofUnknown, Event.ofToken]

/-- Each call of `next` adds to the log what tells of its result, up to the end and no further. -/
theorem advance_tells {l : Lexer σ} (hl : l.finished = false) (n : Nat) :
    ∃ es, (l.advance n).log.toList = l.log.toList ++ es ∧
      Tells ((List.range n).map fun i => (l.advance i).next.1) (es.map Event.line) ∧
      ∀ p, .endOfInput p ∈ es → p = (l.advance n).cursor.position := by
  induction n generalizing l with
  | zero => exact ⟨[], (List.append_nil _).symm, .nil, fun p hp => absurd hp List.not_mem_nil⟩
  | succ n ih =>
      have hstep := l.step_next
      rw [map_next_advance, advance_succ]
      generalize l.next.1 = x at *
      generalize l.next.2 = l' at *
      cases hstep with
      | finish hgap =>
          simp only [advance_finish, next_finish, List.map_const', List.length_range]
          refine ⟨[.endOfInput (l.cursor.position.after l.cursor.rest)], ?_, .ended rfl, ?_⟩
          · simp [finish, hl]
          · intro p hp
            cases List.mem_singleton.1 hp
            rfl
      | @read gap x rest hrest hgap hstop hx hgrow start stop hstart hend =>
          obtain ⟨es, hlog, htells, hplace⟩ := ih (l := l.proceed ⟨stop, rest⟩ (x.read ⟨start, stop⟩)) hl
          refine ⟨(x.read ⟨start, stop⟩).events ++ es, ?_, ?_, ?_⟩
          · rw [hlog, ← List.append_assoc]
            exact congrArg (· ++ es) Array.toList_appendList
          · rw [List.map_append]
            exact htells.read x _
          · intro p hp
            rcases List.mem_append.1 hp with hp | hp
            · exact absurd hp (endOfInput_not_mem_events x _ p)
            · exact hplace p hp

/-- Whatever is called on a lexer, its log tells of the entries of the stream that were scanned, also of those that no
call gave out. Its traces are the tokens and its warnings the malformed numbers. The end is told of at the cursor, in
the last of all lines. -/
theorem session_log (source : String) (sink : σ) (calls : List Call) :
    let l := ofSource source sink
    let l' := (l.session calls).2
    let xs := l.scanned calls
    let lines := l'.log.toList.map Event.line
    (∃ n, xs = (List.range n).map (stream source) ∧ l' = l.advance n) ∧
    Tells xs lines ∧
    lines.filter (·.level == "TRACE") =
      ((xs.filterMap ScanResult.token?).filter (·.kind != .endOfInput)).map .ofToken ∧
    lines.filter (·.level == "WARN") = (xs.filterMap ScanResult.failure?).map .ofFailure ∧
    lines.filter (·.level == "DEBUG") =
      (xs.flatMap ScanResult.reports).map .ofDiagnostic ++ LogLine.ending xs l'.cursor.position ∧
    ∃ told, (∀ line ∈ told, line.message ≠ "end of input") ∧
      lines = told ++ LogLine.ending xs l'.cursor.position := by
  intro l l' xs lines
  obtain ⟨n, hxs, hl'⟩ : ∃ n, xs = (List.range n).map (stream source) ∧ l' = l.advance n :=
    scanned_stream source sink calls
  obtain ⟨es, hlog, htells, hplace⟩ := advance_tells (l := l) rfl n
  have hes : l'.log.toList = es := by
    rw [← hl'] at hlog
    exact hlog
  have hlines : lines = es.map Event.line := congrArg _ hes
  simp only [l, next_stream, ← hxs, ← hlines] at htells
  have hend : ∀ q, .ofEnd q ∈ lines → q = l'.cursor.position := by
    intro q hq
    rw [hlines] at hq
    rw [hl']
    exact hplace q (LogLine.endOfInput_mem_of_map hq)
  exact ⟨⟨n, hxs, hl'⟩, htells, htells.trace_eq, htells.warn_eq, htells.debug_eq hend, htells.eq_append_ending hend⟩

end Lexer
end ExprLexer
