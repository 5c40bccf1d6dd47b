import ExprLexer.Proofs.Clashes
import ExprLexer.Proofs.Sinks

/-!
# Scans

What reading a text from a position on gives, told without a lexer: `Scans` takes the text apart lexeme by
lexeme, and the results of a source are its only scan from the start. Positions enter a scan only through the
text that has been read, so a scan can be moved.
-/
namespace ExprLexer

theorem Position.after_lexeme {p start stop : Position} {gap cs : List Char} (hstart : start = p.after gap)
    (hstop : stop = start.after cs) (rest : List Char) : p.after (gap ++ (cs ++ rest)) = stop.after rest := by
  rw [after_append, after_append, ← hstart, ← hstop]

/-- The results of a text that begins at a position: one for each lexeme behind trivia which what comes next does
not make run on, and the end behind the last trivia. -/
inductive Scans : Position → List Char → List ScanResult → Prop
  | last {p : Position} {gap : List Char} (hgap : Trivia [] gap) :
      Scans p gap [.ok (.endOfInput (p.after gap))]
  | read {p start stop : Position} {gap rest : List Char} {x : Lexeme} {xs : List ScanResult}
      (hgap : Trivia (x.chars ++ rest) gap) (hx : x.Valid) (hruns : ¬ x.RunsOn rest)
      (hstart : start = p.after gap) (hstop : stop = start.after x.chars) (h : Scans stop rest xs) :
      Scans p (gap ++ (x.chars ++ rest)) ((x.read ⟨start, stop⟩).result :: xs)

namespace Lexer

variable {σ : Type} [Sink σ] {l l' : Lexer σ} {xs : List ScanResult}

theorem ReadsThrough.scans (h : ReadsThrough (fun _ => false) l xs l') :
    Scans l.cursor.position l.cursor.rest xs := by
  induction h with
  | @last l l' x h hx =>
      have hstep := l.step_next
      rw [h] at hstep
      cases hstep with
      | finish hgap => exact .last hgap
      | read =>
          rw [Bool.or_false, Lexeme.isEnd_result_read] at hx
          cases hx
  | @more l l' l'' x xs h hx hxs ih =>
      have hstep := l.step_next
      rw [h] at hstep
      cases hstep with
      | finish hgap => cases hx
      | @read gap x rest hrest hgap hstop hvalid hgrow start stop hstart hend =>
          have hruns : ¬ x.RunsOn rest := not_or.2 ⟨hstop, fun ⟨d, hd, h⟩ => hgrow d hd h⟩
          rw [hrest]
          exact .read hgap hvalid hruns hstart hend ih

theorem next_of_trivia {p : Position} {gap : List Char} (hgap : Trivia [] gap) (hl : l.cursor = ⟨p, gap⟩) :
    l.next = (.ok (.endOfInput (p.after gap)), l.finish (p.after gap)) := by
  have hfinish : l.Step _ _ := .finish (by rw [hl]; exact hgap)
  have hnext := hfinish.next_eq
  rwa [hl] at hnext

theorem next_of_lexeme {p start stop : Position} {gap rest : List Char} {x : Lexeme}
    (hgap : Trivia (x.chars ++ rest) gap) (hx : x.Valid) (hruns : ¬ x.RunsOn rest) (hstart : start = p.after gap)
    (hstop : stop = start.after x.chars) (hl : l.cursor = ⟨p, gap ++ (x.chars ++ rest)⟩) :
    l.next = ((x.read ⟨start, stop⟩).result, l.proceed ⟨stop, rest⟩ (x.read ⟨start, stop⟩)) := by
  obtain ⟨hopen, hgrow⟩ := not_or.1 hruns
  have hread : l.Step (x.read ⟨start, stop⟩).result _ :=
    .read (by rw [hl]) hgap hopen hx (fun d hd h => hgrow ⟨d, hd, h⟩) (by rw [hl]; exact hstart) hstop
  exact hread.next_eq

end Lexer

namespace Scans

variable {p : Position} {cs : List Char} {xs : List ScanResult}

theorem readsThrough {σ : Type} [Sink σ] (h : Scans p cs xs) {l : Lexer σ} (hl : l.cursor = ⟨p, cs⟩) :
    ∃ l', Lexer.ReadsThrough (fun _ => false) l xs l' := by
  induction h generalizing l with
  | last hgap => exact ⟨_, .last (Lexer.next_of_trivia hgap hl) rfl⟩
  | @read p start stop gap rest x xs hgap hx hruns hstart hstop h ih =>
      have hnext := Lexer.next_of_lexeme hgap hx hruns hstart hstop hl
      obtain ⟨l', hxs⟩ := ih (l := l.proceed ⟨stop, rest⟩ (x.read ⟨start, stop⟩)) rfl
      exact ⟨l', .more hnext (by rw [Bool.or_false, x.isEnd_result_read]) hxs⟩

/-- A lexer at the beginning of a text; what else it holds has no part in a scan. -/
def lexer (p : Position) (cs : List Char) : Lexer Unit := ⟨"", ⟨p, cs⟩, false, (), #[]⟩

theorem exists_scans (p : Position) (cs : List Char) : ∃ xs, Scans p cs xs := by
  obtain ⟨xs, l', h⟩ := Lexer.exists_readsThrough (fun _ => false) (lexer p cs)
  exact ⟨xs, h.scans⟩

theorem unique (h : Scans p cs xs) {ys : List ScanResult} (h' : Scans p cs ys) : xs = ys := by
  obtain ⟨l, hxs⟩ := h.readsThrough (l := lexer p cs) rfl
  obtain ⟨l', hys⟩ := h'.readsThrough (l := lexer p cs) rfl
  have heq := (hxs.readThrough_eq #[]).symm.trans (hys.readThrough_eq #[])
  simpa using congrArg Prod.fst heq

theorem ne_nil (h : Scans p cs xs) : xs ≠ [] := by
  cases h <;> exact List.cons_ne_nil _ _

/-- Only the last result of a scan is the end. -/
theorem eq_append_end (h : Scans p cs xs) :
    ∃ ys, xs = ys ++ [.ok (.endOfInput (p.after cs))] ∧ ∀ y ∈ ys, y.isEnd = false := by
  induction h with
  | last hgap => exact ⟨[], rfl, nofun⟩
  | @read p start stop gap rest x xs hgap hx hruns hstart hstop h ih =>
      obtain ⟨ys, rfl, hys⟩ := ih
      have hplain := x.isEnd_result_read ⟨start, stop⟩
      refine ⟨(x.read ⟨start, stop⟩).result :: ys, ?_, List.forall_mem_cons.2 ⟨hplain, hys⟩⟩
      rw [Position.after_lexeme hstart hstop, List.cons_append]

end Scans

/-- The tokens and errors of a source, without the end. -/
def pieces (source : String) : List ScanResult := (results source).filter fun x => !x.isEnd

theorem scans_results (source : String) : Scans .start source.toList (results source) :=
  (Lexer.readsThrough_results source ()).scans

theorem results_eq (source : String) :
    results source = pieces source ++ [.ok (.endOfInput (Position.start.after source.toList))] := by
  obtain ⟨ys, hxs, hys⟩ := (scans_results source).eq_append_end
  have hpieces : pieces source = ys := by
    rw [pieces, hxs, List.filter_append, List.filter_eq_self.2 (fun y hy => by rw [hys y hy]; rfl)]
    exact List.append_nil ys
  rw [hpieces, hxs]

theorem diagnostics_eq_pieces (source : String) :
    diagnostics source = (pieces source).flatMap ScanResult.reports := by
  rw [diagnostics_eq, results_eq, List.flatMap_append]
  exact List.append_nil _

/-! ## Moved scans -/

def ScanResult.move (f : Position → Position) : ScanResult → ScanResult
  | .ok t => .ok { t with span := ⟨f t.span.start, f t.span.stop⟩ }
  | .error e => .error { e with position := f e.position }

def Diagnostic.move (f : Position → Position) (d : Diagnostic) : Diagnostic := { d with position := f d.position }

theorem ScanResult.reports_move (f : Position → Position) (x : ScanResult) :
    (x.move f).reports = x.reports.map (Diagnostic.move f) := by
  cases x with
  | error e => rfl
  | ok t =>
      simp only [move, reports]
      split
      · rw [List.map_map]
        rfl
      · rfl

theorem Lexeme.move_result_read (f : Position → Position) (x : Lexeme) (start stop : Position) :
    (x.read ⟨start, stop⟩).result.move f = (x.read ⟨f start, f stop⟩).result := by
  cases x with
  | numeral cs =>
      cases h : numeralValue? cs <;>
        simp only [read, chars, numberLiteral, String.toList_ofList, h] <;> rfl
  | operator o => rfl
  | word cs => rfl
  | unknown c => rfl

/-- A scan can be moved by a map of positions that goes along with reading the text. -/
theorem Scans.move {p q : Position} {cs : List Char} {xs : List ScanResult} {f : Position → Position}
    (h : Scans p cs xs) (hf : ∀ pre, pre <+: cs → f (p.after pre) = q.after pre) :
    Scans q cs (xs.map (ScanResult.move f)) := by
  induction h generalizing q with
  | @last p gap hgap =>
      have hend := hf gap (List.prefix_refl gap)
      change Scans q gap [.ok (.endOfInput (f (p.after gap)))]
      rw [hend]
      exact .last hgap
  | @read p start stop gap rest x xs hgap hx hruns hstart hstop h ih =>
      subst hstart hstop
      have hbegin : f (p.after gap) = q.after gap := hf gap (List.prefix_append _ _)
      have hbehind : f ((p.after gap).after x.chars) = (q.after gap).after x.chars := by
        rw [← Position.after_append, ← Position.after_append]
        exact hf _ ((List.prefix_append_right_inj gap).2 (List.prefix_append _ _))
      rw [List.map_cons, Lexeme.move_result_read, hbegin, hbehind]
      refine .read hgap hx hruns rfl rfl (ih fun pre hpre => ?_)
      rw [← Position.after_append, ← Position.after_append, ← Position.after_append, ← Position.after_append]
      exact hf _ ((List.prefix_append_right_inj gap).2 ((List.prefix_append_right_inj x.chars).2 hpre))

end ExprLexer
