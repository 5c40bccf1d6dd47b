import Mathlib.Data.List.Forall2
import ExprLexer.Proofs.Stream

/-!
# Reports

A sink hears of each unknown token that is scanned, whether or not the token is given out, and of nothing else. It has
no say in the scan: `session_reports`.
-/
namespace ExprLexer

def ScanResult.unknown? : ScanResult → Option Token
  | .ok t => if t.kind = .unknown then some t else none
  | .error _ => none

/-- A diagnostic tells of a token that is one character long. -/
structure Diagnostic.Reports (d : Diagnostic) (t : Token) : Prop where
  position : d.position = t.start
  character : t.lexeme = d.character.toString

theorem Diagnostic.Reports.unique {d d' : Diagnostic} {t : Token} (h : d.Reports t) (h' : d'.Reports t) : d = d' := by
  obtain ⟨p, c⟩ := d
  obtain ⟨p', c'⟩ := d'
  obtain rfl : p = p' := h.position.trans h'.position.symm
  have hcharacter : String.singleton c = String.singleton c' := h.character.symm.trans h'.character
  rw [String.singleton_inj.1 hcharacter]

theorem ScanResult.isEnd_ok {t : Token} : isEnd (.ok t) ↔ t.kind = .endOfInput := beq_iff_eq

theorem ScanResult.isEnd_ok_eq_false {t : Token} : isEnd (.ok t) = false ↔ t.kind ≠ .endOfInput := beq_eq_false_iff_ne

theorem ScanResult.reports_of_unknown {t : Token} {c : Char} (hkind : t.kind = .unknown)
    (hc : t.lexeme = c.toString) : reports (.ok t) = [⟨t.start, c⟩] := by
  have hchars : c.toString.toList = [c] := String.toList_singleton c
  rw [reports, if_pos hkind, hc, hchars]
  rfl

/-- What a result has to be reported for: once if it is an unknown token. -/
def ScanResult.Reported (x : ScanResult) : Prop := List.Forall₂ Diagnostic.Reports x.reports x.unknown?.toList

theorem ScanResult.reported_of_ne {t : Token} (h : t.kind ≠ .unknown) : Reported (.ok t) := by
  have hreports : reports (.ok t) = [] := if_neg h
  have hunknown : unknown? (.ok t) = none := if_neg h
  rw [Reported, hreports, hunknown]
  exact .nil

theorem Lexeme.reported_read (x : Lexeme) (span : Span) : (x.read span).result.Reported := by
  cases x with
  | operator o =>
      apply ScanResult.reported_of_ne
      intro hkind
      cases hkind
  | numeral cs =>
      rcases read_numeral cs span with ⟨value, _, hread⟩ | ⟨_, hread⟩
      · rw [hread]
        apply ScanResult.reported_of_ne
        intro hkind
        cases hkind
      · rw [hread]
        exact .nil
  | word cs => exact ScanResult.reported_of_ne (kind_word_ne cs)
  | unknown c =>
      have hreport : Diagnostic.Reports ⟨span.start, c⟩ ⟨.unknown, String.ofList [c], span, none⟩ := ⟨rfl, rfl⟩
      rw [ScanResult.Reported, ← reports_read]
      exact .cons hreport .nil

theorem reports_of_reported {xs : List ScanResult} (h : ∀ x ∈ xs, x.Reported) :
    List.Forall₂ Diagnostic.Reports (xs.flatMap ScanResult.reports) (xs.filterMap ScanResult.unknown?) := by
  induction xs with
  | nil => exact .nil
  | cons x xs ih =>
      obtain ⟨hx, hxs⟩ := List.forall_mem_cons.1 h
      rw [List.flatMap_cons, ← List.singleton_append, List.filterMap_append]
      exact List.rel_append hx (ih hxs)

namespace Lexer

variable {σ : Type} [Sink σ]

theorem next_reported (l : Lexer σ) : l.next.1.Reported := by
  cases h : l.next with
  | mk x l' =>
      have hstep := l.step_next
      rw [h] at hstep
      cases hstep with
      | finish hgap =>
          apply ScanResult.reported_of_ne
          intro hkind
          cases hkind
      | @read gap x rest hrest hgap hstop hx hgrow start stop hstart hend => exact x.reported_read _

/-- The results that a call reads, also those that it does not give out. -/
def scannedBy (l : Lexer σ) : Call → List ScanResult
  | .next => [l.next.1]
  | .next? => if l.finished then [] else [l.next.1]
  | .tokenizeAll => (l.readThrough ScanResult.isError #[]).1.toList
  | _ => []

def scanned (l : Lexer σ) : List Call → List ScanResult
  | [] => []
  | c :: cs => l.scannedBy c ++ (l.call c).2.scanned cs

theorem call_sink (l : Lexer σ) (c : Call) :
    (l.call c).2.sink = ((l.scannedBy c).flatMap ScanResult.reports).foldl Sink.report l.sink := by
  cases c with
  | next =>
      rw [scannedBy, List.flatMap_singleton]
      exact l.next_sink
  | next? =>
      by_cases hl : l.finished
      · rw [scannedBy, if_pos hl, call, next?, if_pos hl]
        rfl
      · rw [scannedBy, if_neg hl, List.flatMap_singleton, call, next?, if_neg hl]
        exact l.next_sink
  | tokenizeAll => exact (readsThrough_readThrough ScanResult.isError l).sink_eq
  | _ => rfl

theorem session_sink (l : Lexer σ) (calls : List Call) :
    (l.session calls).2.sink = ((l.scanned calls).flatMap ScanResult.reports).foldl Sink.report l.sink := by
  induction calls generalizing l with
  | nil => rfl
  | cons c calls ih => rw [session, ih, call_sink, scanned, List.flatMap_append, List.foldl_append]

section Stream

variable {l : Lexer σ} {R : Nat → ScanResult}

theorem call_scanned (hR : ∀ i, (l.advance i).next.1 = R i) (n : Nat) (c : Call) :
    (l.advance n).scannedBy c = (List.range' n ((l.advance n).scannedBy c).length).map R ∧
      ((l.advance n).call c).2 = l.advance (n + ((l.advance n).scannedBy c).length) := by
  have hone : [(l.advance n).next.1] = (List.range' n 1).map R := congrArg (fun x => [x]) (hR n)
  cases c with
  | next => exact ⟨hone, (advance_succ' l n).symm⟩
  | next? =>
      by_cases hl : (l.advance n).finished
      · rw [scannedBy, if_pos hl, call, next?, if_pos hl]
        exact ⟨rfl, rfl⟩
      · rw [scannedBy, if_neg hl, call, next?, if_neg hl]
        exact ⟨hone, (advance_succ' l n).symm⟩
  | tokenizeAll => exact (readsThrough_readThrough ScanResult.isError _).entries hR rfl
  | _ => exact ⟨rfl, rfl⟩

/-- A session scans the entries of the stream one after the other and leaves none out. -/
theorem session_scanned (hR : ∀ i, (l.advance i).next.1 = R i) (n : Nat) (calls : List Call) :
    (l.advance n).scanned calls = (List.range' n ((l.advance n).scanned calls).length).map R ∧
      ((l.advance n).session calls).2 = l.advance (n + ((l.advance n).scanned calls).length) := by
  induction calls generalizing n with
  | nil => exact ⟨rfl, rfl⟩
  | cons c calls ih =>
      obtain ⟨hcall, hstate⟩ := call_scanned hR n c
      obtain ⟨hcalls, hend⟩ := ih (n + ((l.advance n).scannedBy c).length)
      rw [← hstate] at hcalls hend
      rw [scanned, session, List.length_append, ← Nat.add_assoc]
      refine ⟨?_, hend⟩
      rw [← List.range'_append_1, List.map_append, ← hcall, ← hcalls]

end Stream

theorem scannedBy_into (l : Lexer (Array Diagnostic)) (sink : σ) (c : Call) :
    (l.into sink).scannedBy c = l.scannedBy c := by
  cases c with
  | next => rw [scannedBy, scannedBy, next_into]
  | next? =>
      rw [scannedBy, scannedBy, next_into]
      rfl
  | tokenizeAll => rw [scannedBy, scannedBy, readThrough_into]
  | _ => rfl

theorem scanned_into (l : Lexer (Array Diagnostic)) (sink : σ) (calls : List Call) :
    (l.into sink).scanned calls = l.scanned calls := by
  induction calls generalizing l with
  | nil => rfl
  | cons c calls ih => rw [scanned, scanned, scannedBy_into, call_into, ih]

/-- An answer without what it tells of the sink. -/
def Answer.forget : Answer σ → Answer Unit
  | .result x => .result x
  | .item x => .item x
  | .tokens ts => .tokens ts
  | .character c => .character c
  | .truth b => .truth b
  | .position p => .position p
  | .text s => .text s
  | .sink _ => .sink ()

/-- A lexer with its cursor and its log, but without its sink. -/
def forget (l : Lexer σ) : Lexer Unit := { l with sink := () }

theorem Answer.forget_into (sink : σ) (a : Answer (Array Diagnostic)) : (a.into sink).forget = a.forget := by
  cases a <;> rfl

section Source

variable (source : String) (sink : σ) (calls : List Call)

theorem session_forget :
    ((ofSource source sink).session calls).1.map Answer.forget =
        ((ofSource source (#[] : Array Diagnostic)).session calls).1.map Answer.forget ∧
      ((ofSource source sink).session calls).2.forget =
        ((ofSource source (#[] : Array Diagnostic)).session calls).2.forget := by
  rw [session_ofSource, List.map_map]
  refine ⟨List.map_congr_left ?_, rfl⟩
  intro a _
  exact a.forget_into sink

theorem scanned_ofSource :
    (ofSource source sink).scanned calls = (ofSource source (#[] : Array Diagnostic)).scanned calls :=
  scanned_into (ofSource source #[]) sink calls

theorem next_stream (n : Nat) : ((ofSource source sink).advance n).next.1 = stream source n :=
  ((readsThrough_results source sink).next_advance rfl n).1

theorem scanned_stream : ∃ n, (ofSource source sink).scanned calls = (List.range n).map (stream source) ∧
    ((ofSource source sink).session calls).2 = (ofSource source sink).advance n := by
  obtain ⟨hscanned, hstate⟩ := session_scanned (next_stream source sink) 0 calls
  rw [Nat.zero_add] at hstate
  rw [← List.range_eq_range'] at hscanned
  exact ⟨_, hscanned, hstate⟩

theorem scanned_reported : ∀ x ∈ (ofSource source sink).scanned calls, x.Reported := by
  intro x hx
  obtain ⟨n, hscanned, _⟩ := scanned_stream source sink calls
  rw [hscanned] at hx
  obtain ⟨i, _, rfl⟩ := List.mem_map.1 hx
  rw [← next_stream source sink]
  exact next_reported _

end Source

/-- Whichever sinks two lexers of a source have, the same calls give the same answers, scan the same entries of the
stream, and leave the same cursor and the same log. A sink hears once of each unknown token that was scanned, at its
place and with its character, in the order of the scan: one that keeps diagnostics has just these more, and a tally is
greater by their number. -/
theorem session_reports {τ : Type} [Sink τ] (source : String) (sink : σ) (other : τ) (calls : List Call) :
    let l := ofSource source sink
    let l' := ofSource source other
    (l.session calls).1.map Answer.forget = (l'.session calls).1.map Answer.forget ∧
    (l.session calls).2.forget = (l'.session calls).2.forget ∧
    l.scanned calls = l'.scanned calls ∧
    (∃ n, l.scanned calls = (List.range n).map (stream source) ∧ (l.session calls).2 = l.advance n) ∧
    ∃ ds, List.Forall₂ Diagnostic.Reports ds ((l.scanned calls).filterMap ScanResult.unknown?) ∧
      (l.session calls).2.sink = ds.foldl Sink.report sink ∧
      (∀ kept : Array Diagnostic, ((ofSource source kept).session calls).2.sink.toList = kept.toList ++ ds) ∧
      ∀ n, ((ofSource source (Tally.mk n)).session calls).2.sink.count = n + ds.length := by
  intro l l'
  obtain ⟨hanswers, hstate⟩ := session_forget source sink calls
  obtain ⟨hanswers', hstate'⟩ := session_forget source other calls
  have hseen {ρ : Type} [Sink ρ] (third : ρ) : (ofSource source third).scanned calls = l.scanned calls :=
    (scanned_ofSource source third calls).trans (scanned_ofSource source sink calls).symm
  have hsink {ρ : Type} [Sink ρ] (third : ρ) : ((ofSource source third).session calls).2.sink =
      ((l.scanned calls).flatMap ScanResult.reports).foldl Sink.report third := by
    rw [session_sink, hseen third]
    rfl
  refine ⟨hanswers.trans hanswers'.symm, hstate.trans hstate'.symm, (hseen other).symm,
    scanned_stream source sink calls, _, reports_of_reported (scanned_reported source sink calls), hsink sink, ?_, ?_⟩
  · intro kept
    rw [hsink kept, foldl_report_toList]
  · intro n
    rw [hsink (Tally.mk n), foldl_report_count]

example : ((ofSource "#1 // $" (Tally.mk 0)).session [.tokenizeAll, .next, .next?]).2.sink = ⟨1⟩ := by decide +kernel

end Lexer
end ExprLexer
