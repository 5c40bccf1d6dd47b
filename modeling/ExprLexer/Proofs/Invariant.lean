import ExprLexer.Proofs.Sinks

/-!
# The invariant of a session

A lexer in a session stands behind a front part of its source, with the rest of the source before it, and
all that it has given away lies in the source as well.
-/
namespace ExprLexer

def Position.IsIn (source : String) (p : Position) : Prop :=
  ∃ pre, pre <+: source.toList ∧ p = Position.start.after pre

/-- A token that takes up the part of one line of the source in which its text stands. -/
def Token.IsIn (source : String) (t : Token) : Prop :=
  ∃ pre, pre ++ t.lexeme.toList <+: source.toList ∧ t.span.start = Position.start.after pre ∧
    t.span.stop = t.span.start.after t.lexeme.toList ∧ '\n' ∉ t.lexeme.toList

def ScanResult.IsIn (source : String) : ScanResult → Prop
  | .ok t => t.IsIn source
  | .error e => e.position.IsIn source

namespace Lexer

/-- A lexer in the midst of its source, with what it has told so far. -/
structure Sound (source : String) (l : Lexer (Array Diagnostic)) : Prop where
  source_eq : l.source = source
  cursor : ∃ pre, source.toList = pre ++ l.cursor.rest ∧ l.cursor.position = Position.start.after pre
  sink : ∀ d ∈ l.sink, d.position.IsIn source
  log : ∀ e ∈ l.log, e.position.IsIn source

theorem sound_ofSource (source : String) : Sound source (ofSource source #[]) where
  source_eq := rfl
  cursor := ⟨[], rfl, rfl⟩
  sink := by simp [ofSource]
  log := by simp [ofSource]

theorem mem_foldl_report {reports : List Diagnostic} {kept : Array Diagnostic} {d : Diagnostic}
    (h : d ∈ reports.foldl Sink.report kept) : d ∈ kept ∨ d ∈ reports := by
  induction reports generalizing kept with
  | nil => exact .inl h
  | cons r reports ih =>
      rcases ih h with h | h
      · rcases Array.mem_push.1 h with h | rfl
        · exact .inl h
        · exact .inr List.mem_cons_self
      · exact .inr (List.mem_cons_of_mem r h)

theorem isIn_read {source : String} {pre rest : List Char} {x : Lexeme} (hx : x.Valid)
    (hsource : source.toList = pre ++ (x.chars ++ rest)) {start : Position}
    (hstart : start = Position.start.after pre) :
    (x.read ⟨start, start.after x.chars⟩).result.IsIn source := by
  have hshows := hx.shows_read ⟨start, start.after x.chars⟩
  cases hr : (x.read ⟨start, start.after x.chars⟩).result with
  | ok t =>
      rw [hr] at hshows
      obtain ⟨_, hlexeme, _, _⟩ := hshows
      have hspan := Lexeme.span_of_read hr
      have hline : '\n' ∉ x.chars := fun h => absurd (hx.isBlank_eq_false _ h) (by decide)
      refine ⟨pre, ?_, ?_, ?_, ?_⟩
      · rw [hlexeme, String.toList_ofList, hsource, ← List.append_assoc]
        exact List.prefix_append _ _
      · rw [hspan, hstart]
      · rw [hspan, hlexeme, String.toList_ofList]
      · rwa [hlexeme, String.toList_ofList]
  | error e =>
      rw [hr] at hshows
      obtain ⟨_, rfl, _⟩ := hshows
      exact ⟨pre, hsource ▸ List.prefix_append _ _, hstart⟩

theorem Sound.position {source : String} {l : Lexer (Array Diagnostic)} (h : Sound source l) :
    l.cursor.position.IsIn source := by
  obtain ⟨pre, hsource, hposition⟩ := h.cursor
  exact ⟨pre, hsource ▸ List.prefix_append _ _, hposition⟩

theorem Sound.finish {source : String} {l : Lexer (Array Diagnostic)} (h : Sound source l) :
    Sound source (l.finish (Position.start.after source.toList)) where
  source_eq := h.source_eq
  cursor := ⟨source.toList, (List.append_nil _).symm, rfl⟩
  sink := h.sink
  log := by
    intro e he
    simp only [Lexer.finish] at he
    split at he
    · exact h.log e he
    · rcases Array.mem_push.1 he with he | rfl
      · exact h.log e he
      · exact ⟨source.toList, List.prefix_refl _, rfl⟩

/-- Reading a lexeme adds to the sink and the log at its own place only. -/
theorem Sound.proceed {source : String} {l : Lexer (Array Diagnostic)} (h : Sound source l)
    {pre rest : List Char} {x : Lexeme} (hsource : source.toList = pre ++ (x.chars ++ rest)) {start : Position}
    (hstart : start = Position.start.after pre) :
    Sound source (l.proceed ⟨start.after x.chars, rest⟩ (x.read ⟨start, start.after x.chars⟩)) := by
  have hin : start.IsIn source := ⟨pre, hsource ▸ List.prefix_append _ _, hstart⟩
  refine ⟨h.source_eq, ⟨pre ++ x.chars, ?_, ?_⟩, ?_, ?_⟩
  · rw [hsource, ← List.append_assoc]
    rfl
  · rw [Position.after_append, ← hstart]
    rfl
  · intro d hd
    rcases mem_foldl_report hd with hd | hd
    · exact h.sink d hd
    · rw [Lexeme.position_of_mem_reports hd]
      exact hin
  · intro e he
    rw [Lexer.proceed, ← Array.mem_toList_iff, Array.toList_appendList, List.mem_append] at he
    rcases he with he | he
    · exact h.log e (Array.mem_toList_iff.1 he)
    · rw [Lexeme.position_of_mem_events he]
      exact hin

theorem Sound.next {source : String} {l : Lexer (Array Diagnostic)} (h : Sound source l) :
    l.next.1.IsIn source ∧ Sound source l.next.2 := by
  have hstep := l.step_next
  obtain ⟨pre, hsource, hposition⟩ := h.cursor
  generalize l.next.1 = x at *
  generalize l.next.2 = l' at *
  cases hstep with
  | finish hgap =>
      have hend : l.cursor.position.after l.cursor.rest = Position.start.after source.toList := by
        rw [hposition, hsource, Position.after_append]
      rw [hend]
      refine ⟨⟨source.toList, ?_, rfl, rfl, List.not_mem_nil⟩, h.finish⟩
      exact (List.append_nil _).symm ▸ List.prefix_refl _
  | @read gap x rest hrest hgap hstop hx hgrow start stop hstart hend =>
      have hbefore : source.toList = pre ++ gap ++ (x.chars ++ rest) := by
        rw [hsource, hrest, List.append_assoc]
      have hplace : start = Position.start.after (pre ++ gap) := by
        rw [hstart, hposition, Position.after_append]
      subst hend
      exact ⟨isIn_read hx hbefore hplace, h.proceed hbefore hplace⟩

def Answer.IsIn {σ : Type} (source : String) (a : Answer σ) : Prop :=
  (∀ x ∈ a.results, x.IsIn source) ∧ ∀ p, a = .position p → p.IsIn source

theorem Sound.call {source : String} {l : Lexer (Array Diagnostic)} (h : Sound source l) (c : Call) :
    (l.call c).1.IsIn source ∧ Sound source (l.call c).2 := by
  obtain ⟨hresults, hl⟩ := call_keeps (Q := ScanResult.IsIn source) (fun _ => Sound.next) h c
  refine ⟨⟨hresults, fun p hp => ?_⟩, hl⟩
  cases c with
  | position =>
      cases hp
      exact h.position
  | next? =>
      simp only [Lexer.call, next?] at hp
      split at hp <;> cases hp
  | _ => cases hp

theorem Sound.session {source : String} {l : Lexer (Array Diagnostic)} (h : Sound source l)
    (calls : List Call) :
    (∀ a ∈ (l.session calls).1, a.IsIn source) ∧ Sound source (l.session calls).2 :=
  session_keeps (fun _ c hl => hl.call c) h calls

/-- Whatever sink it has, a lexer in a session stands behind a front part of its source. -/
theorem cursor_session {σ : Type} [Sink σ] (source : String) (sink : σ) (calls : List Call) :
    ∃ pre, source.toList = pre ++ ((ofSource source sink).session calls).2.cursor.rest ∧
      ((ofSource source sink).session calls).2.cursor.position = Position.start.after pre := by
  rw [session_ofSource]
  exact ((sound_ofSource source).session calls).2.cursor

end Lexer

/-- All that a scan gives and reports lies in its source. -/
theorem results_isIn (source : String) :
    (∀ x ∈ results source, x.IsIn source) ∧ ∀ d ∈ diagnostics source, d.position.IsIn source := by
  have hrun := Lexer.readsThrough_results source (#[] : Array Diagnostic)
  obtain ⟨hresults, hsound⟩ := hrun.keeps (fun _ => Lexer.Sound.next) (Lexer.sound_ofSource source)
  exact ⟨hresults, fun d hd => hsound.sink d (Array.mem_toList_iff.1 hd)⟩

end ExprLexer
