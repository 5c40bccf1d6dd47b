import ExprLexer.Proofs.Session

/-!
# Sinks

A sink only listens. A session with any sink runs as it does with the sink that keeps all diagnostics, and
the sink is told just those: `session_ofSource`. What it is told can be read off the results:
`ReadsThrough.sink_eq`.
-/
namespace ExprLexer

/-- What is reported of a result: the character of an unknown token, and nothing of any other. -/
def ScanResult.reports : ScanResult → List Diagnostic
  | .ok t => if t.kind = .unknown then t.lexeme.toList.map fun c => ⟨t.start, c⟩ else []
  | .error _ => []

theorem Lexeme.kind_word_ne (cs : List Char) : (word cs).kind ≠ .unknown := by
  cases h : Keyword.ofChars? cs <;> simp [kind, TokenKind.ofWord, h]

theorem Lexeme.reports_read (x : Lexeme) (span : Span) :
    (x.read span).reports = (x.read span).result.reports := by
  cases x with
  | operator o => rfl
  | numeral cs =>
      rcases read_numeral cs span with ⟨value, _, hread⟩ | ⟨_, hread⟩
      · rw [hread]
        rfl
      · rw [hread]
        rfl
  | word cs => exact (if_neg (kind_word_ne cs)).symm
  | unknown c =>
      simp only [read, Reading.ofUnknown, ScanResult.reports, kind, chars, if_true, String.toList_ofList]
      rfl

namespace Lexer

variable {σ : Type} [Sink σ]

/-- A lexer that keeps its diagnostics, turned into one that has told them to another sink. -/
def into (l : Lexer (Array Diagnostic)) (sink : σ) : Lexer σ :=
  { l with sink := l.sink.foldl Sink.report sink }

theorem foldl_report (reports : List Diagnostic) (kept : Array Diagnostic) (sink : σ) :
    (reports.foldl Sink.report kept).foldl Sink.report sink =
      reports.foldl Sink.report (kept.foldl Sink.report sink) := by
  induction reports generalizing kept with
  | nil => rfl
  | cons d reports ih =>
      rw [List.foldl_cons, ih]
      change List.foldl _ ((kept.push d).foldl Sink.report sink) reports = _
      rw [Array.foldl_push, List.foldl_cons]

theorem next_into (l : Lexer (Array Diagnostic)) (sink : σ) :
    (l.into sink).next = (l.next.1, l.next.2.into sink) := by
  cases h : l.cursor.skipTrivia.rest with
  | nil =>
      have h' : (l.into sink).cursor.skipTrivia.rest = [] := h
      rw [next_of_rest_nil h, next_of_rest_nil h']
      rfl
  | cons c r =>
      have h' : (l.into sink).cursor.skipTrivia.rest = c :: r := h
      rw [next_of_rest_cons h, next_of_rest_cons h']
      simp only [proceed, into, foldl_report]

theorem ReadsThrough.into {stop : ScanResult → Bool} {l l' : Lexer (Array Diagnostic)} {xs : List ScanResult}
    (h : ReadsThrough stop l xs l') (sink : σ) : ReadsThrough stop (l.into sink) xs (l'.into sink) := by
  induction h with
  | last h hx => exact .last (by rw [next_into, h]) hx
  | more h hx hxs ih => exact .more (by rw [next_into, h]) hx ih

theorem readThrough_into (stop : ScanResult → Bool) (l : Lexer (Array Diagnostic)) (sink : σ) :
    (l.into sink).readThrough stop #[] =
      ((l.readThrough stop #[]).1, (l.readThrough stop #[]).2.into sink) := by
  have h := (readsThrough_readThrough stop l).into sink
  rw [h.readThrough_eq, Array.empty_append, Array.toArray_toList]

theorem next_sink (l : Lexer σ) : l.next.2.sink = l.next.1.reports.foldl Sink.report l.sink := by
  cases h : l.cursor.skipTrivia.rest with
  | nil =>
      rw [next_of_rest_nil h]
      rfl
  | cons c r =>
      rw [next_of_rest_cons h]
      simp only [proceed, Lexeme.reports_read]

theorem ReadsThrough.sink_eq {stop : ScanResult → Bool} {l l' : Lexer σ} {xs : List ScanResult}
    (h : ReadsThrough stop l xs l') : l'.sink = (xs.flatMap ScanResult.reports).foldl Sink.report l.sink := by
  induction h with
  | @last l l' x h hx =>
      have hsink := l.next_sink
      rw [h] at hsink
      rw [hsink, List.flatMap_singleton]
  | @more l l' l'' x xs h hx hxs ih =>
      have hsink := l.next_sink
      rw [h] at hsink
      rw [ih, hsink, List.flatMap_cons, List.foldl_append]

def Answer.into (sink : σ) : Answer (Array Diagnostic) → Answer σ
  | .result x => .result x
  | .item x => .item x
  | .tokens ts => .tokens ts
  | .character c => .character c
  | .truth b => .truth b
  | .position p => .position p
  | .text s => .text s
  | .sink s => .sink (s.foldl Sink.report sink)

theorem call_into (l : Lexer (Array Diagnostic)) (sink : σ) (c : Call) :
    (l.into sink).call c = ((l.call c).1.into sink, (l.call c).2.into sink) := by
  cases c with
  | next =>
      simp only [call, next_into]
      rfl
  | next? =>
      have hfinished : (l.into sink).finished = l.finished := rfl
      simp only [call, next?, hfinished]
      split
      · rfl
      · rw [next_into]
        rfl
  | tokenizeAll =>
      simp only [call, tokenizeAll, readThrough_into]
      rfl
  | _ => rfl

/-- Whatever sink is installed, a session gives the same answers, and the sink is told what a lexer that
keeps its diagnostics would keep. -/
theorem session_into (l : Lexer (Array Diagnostic)) (sink : σ) (calls : List Call) :
    (l.into sink).session calls =
      ((l.session calls).1.map (Answer.into sink), (l.session calls).2.into sink) := by
  induction calls generalizing l with
  | nil => rfl
  | cons c calls ih =>
      simp only [session, call_into, ih, List.map_cons]

theorem session_ofSource (source : String) (sink : σ) (calls : List Call) :
    (ofSource source sink).session calls =
      (((ofSource source (#[] : Array Diagnostic)).session calls).1.map (Answer.into sink),
        ((ofSource source (#[] : Array Diagnostic)).session calls).2.into sink) :=
  session_into (ofSource source #[]) sink calls

end Lexer

/-- All that reading a source gives, up to its end. -/
def results (source : String) : List ScanResult := (Lexer.ofSource source ()).drain.1.toList

/-- All that is reported while a source is read. -/
def diagnostics (source : String) : List Diagnostic :=
  (Lexer.ofSource source (#[] : Array Diagnostic)).drain.2.sink.toList

namespace Lexer

variable {σ : Type} [Sink σ]

theorem drain_results (source : String) (sink : σ) : (ofSource source sink).drain.1.toList = results source := by
  have hdrain {τ : Type} [Sink τ] (sink : τ) : (ofSource source sink).drain.1 =
      (ofSource source (#[] : Array Diagnostic)).drain.1 :=
    congrArg Prod.fst (readThrough_into _ (ofSource source #[]) sink)
  rw [results, hdrain, hdrain ()]

theorem readsThrough_results (source : String) (sink : σ) :
    ReadsThrough (fun _ => false) (ofSource source sink) (results source) (ofSource source sink).drain.2 := by
  rw [← drain_results source sink]
  exact readsThrough_readThrough (fun _ => false) (ofSource source sink)

end Lexer

theorem foldl_report_toList (reports : List Diagnostic) (kept : Array Diagnostic) :
    (reports.foldl Sink.report kept).toList = kept.toList ++ reports := by
  change (reports.foldl Array.push kept).toList = kept.toList ++ reports
  simp

theorem foldl_report_count (reports : List Diagnostic) (tally : Tally) :
    (reports.foldl Sink.report tally).count = tally.count + reports.length := by
  induction reports generalizing tally with
  | nil => rfl
  | cons d reports ih =>
      rw [List.foldl_cons, ih, List.length_cons, Nat.add_comm reports.length, ← Nat.add_assoc]
      rfl

theorem diagnostics_eq (source : String) : diagnostics source = (results source).flatMap ScanResult.reports := by
  rw [diagnostics, (Lexer.readsThrough_results source (#[] : Array Diagnostic)).sink_eq]
  exact foldl_report_toList _ _

end ExprLexer
