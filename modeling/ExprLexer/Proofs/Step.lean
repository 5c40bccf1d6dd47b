import ExprLexer.Lexer
import ExprLexer.Proofs.Cutting
import ExprLexer.Proofs.Trivia

/-!
# Steps

All that one call of `next` can do, in terms of the grammar: `step_next` says that it does one of these
things, and `Step.next_eq` that it does no other.
-/
namespace ExprLexer

namespace ScanResult

/-- The text that a result is about; the end of the source has none. -/
def lexeme : ScanResult → String
  | .ok t => t.lexeme
  | .error ⟨.malformedNumber text, _⟩ => text
  | .error _ => ""

def start : ScanResult → Position
  | .ok t => t.span.start
  | .error e => e.position

/-- What a result says of a text of a given kind that begins at a given place: its token, or the failure of
a numeral which is too large. Only numbers have a value. -/
def Shows (kind : TokenKind) (text : List Char) (start : Position) : ScanResult → Prop
  | .ok t => t.kind = kind ∧ t.lexeme = String.ofList text ∧ t.start = start ∧
      (t.number.isSome ↔ kind = .number) ∧ ¬ Oversized text
  | .error e => kind = .number ∧ e = ⟨.malformedNumber (String.ofList text), start⟩ ∧ Oversized text

theorem Shows.lexeme_eq {x : ScanResult} {kind : TokenKind} {text : List Char} {start : Position}
    (h : x.Shows kind text start) : x.lexeme = String.ofList text := by
  cases x with
  | ok t => exact h.2.1
  | error e =>
      obtain ⟨_, rfl, _⟩ := h
      rfl

theorem Shows.start_eq {x : ScanResult} {kind : TokenKind} {text : List Char} {start : Position}
    (h : x.Shows kind text start) : x.start = start := by
  cases x with
  | ok t => exact h.2.2.1
  | error e =>
      obtain ⟨_, rfl, _⟩ := h
      rfl

end ScanResult

namespace Lexeme

/-- A numeral is read as a number if it has a finite value, and as a malformed number if not. -/
theorem read_numeral (cs : List Char) (span : Span) :
    (∃ value, numeralValue? cs = some value ∧
      (numeral cs).read span = .ofToken ⟨.number, String.ofList cs, span, some value⟩) ∨
    numeralValue? cs = none ∧
      (numeral cs).read span =
        .ofMalformed (String.ofList cs) ⟨.malformedNumber (String.ofList cs), span.start⟩ := by
  simp only [read, chars, numberLiteral, String.toList_ofList]
  cases numeralValue? cs with
  | some value => exact .inl ⟨value, rfl, rfl⟩
  | none => exact .inr ⟨rfl, rfl⟩

theorem kind_eq_number_iff {x : Lexeme} : x.kind = .number ↔ ∃ cs, x = numeral cs := by
  cases x with
  | word cs => simp only [kind, TokenKind.ofWord]; split <;> simp
  | _ => simp [kind]

theorem Valid.eq_numeral_of_oversized {x : Lexeme} (h : x.Valid) (hover : Oversized x.chars) :
    x = numeral x.chars := by
  obtain ⟨q, hq, _⟩ := hover
  exact h.eq_of_chars (valid_numeral.2 ⟨q, hq⟩) rfl

theorem Valid.shows_plain {x : Lexeme} (h : x.Valid) (hx : ∀ cs, x ≠ numeral cs) (span : Span) :
    ScanResult.Shows x.kind x.chars span.start (.ok ⟨x.kind, String.ofList x.chars, span, none⟩) := by
  refine ⟨rfl, rfl, rfl, ?_, fun hover => hx _ (h.eq_numeral_of_oversized hover)⟩
  simp [kind_eq_number_iff, hx]

theorem Valid.shows_read {x : Lexeme} (h : x.Valid) (span : Span) :
    (x.read span).result.Shows x.kind x.chars span.start := by
  cases x with
  | numeral cs =>
      obtain ⟨q, hq⟩ := valid_numeral.1 h
      have hvalue := hq.value_eq_none_iff
      rcases read_numeral cs span with ⟨value, hv, hread⟩ | ⟨hv, hread⟩
      · rw [hread]
        rw [hv] at hvalue
        refine ⟨rfl, rfl, rfl, by simp [kind], ?_⟩
        intro hover
        cases hvalue.2 hover
      · rw [hread]
        exact ⟨rfl, rfl, hvalue.1 hv⟩
  | operator o => exact h.shows_plain (by simp) span
  | word cs => exact h.shows_plain (by simp) span
  | unknown c => exact h.shows_plain (by simp) span

theorem span_of_read {x : Lexeme} {span : Span} {t : Token} (h : (x.read span).result = .ok t) :
    t.span = span := by
  cases x with
  | numeral cs =>
      rcases read_numeral cs span with ⟨value, _, hread⟩ | ⟨_, hread⟩
      · rw [hread] at h
        cases h
        rfl
      · rw [hread] at h
        cases h
  | operator o => cases h; rfl
  | word cs => cases h; rfl
  | unknown c => cases h; rfl

theorem position_of_mem_reports {x : Lexeme} {span : Span} {d : Diagnostic}
    (h : d ∈ (x.read span).reports) : d.position = span.start := by
  cases x with
  | numeral cs =>
      rcases read_numeral cs span with ⟨value, _, hread⟩ | ⟨_, hread⟩
      · rw [hread] at h
        cases h
      · rw [hread] at h
        cases h
  | operator o => cases h
  | word cs => cases h
  | unknown c =>
      rw [List.mem_singleton.1 h]
      rfl

theorem position_of_mem_events {x : Lexeme} {span : Span} {e : Event}
    (h : e ∈ (x.read span).events) : e.position = span.start := by
  cases x with
  | numeral cs =>
      rcases read_numeral cs span with ⟨value, _, hread⟩ | ⟨_, hread⟩
      · rw [hread] at h
        rw [List.mem_singleton.1 h]
        rfl
      · rw [hread] at h
        rw [List.mem_singleton.1 h]
        rfl
  | operator o =>
      rw [List.mem_singleton.1 h]
      rfl
  | word cs =>
      rw [List.mem_singleton.1 h]
      rfl
  | unknown c =>
      rcases List.mem_cons.1 h with rfl | h
      · rfl
      · rw [List.mem_singleton.1 h]
        rfl

end Lexeme

namespace Lexer

variable {σ : Type} [Sink σ]

/-- What one call of `next` can do: meet the end behind the last trivia, or read the lexeme behind the next
trivia, which what comes behind it does not make grow. -/
inductive Step (l : Lexer σ) : ScanResult → Lexer σ → Prop
  | finish (hgap : Trivia [] l.cursor.rest) :
      Step l (.ok (.endOfInput (l.cursor.position.after l.cursor.rest)))
        (l.finish (l.cursor.position.after l.cursor.rest))
  | read {gap : List Char} {x : Lexeme} {rest : List Char} (hrest : l.cursor.rest = gap ++ (x.chars ++ rest))
      (hgap : Trivia (x.chars ++ rest) gap) (hstop : ¬ StartsTrivia (x.chars ++ rest)) (hx : x.Valid)
      (hgrow : ∀ d ∈ rest.head?, ¬ x.Grows d) {start stop : Position}
      (hstart : start = l.cursor.position.after gap) (hend : stop = start.after x.chars) :
      Step l (x.read ⟨start, stop⟩).result (l.proceed ⟨stop, rest⟩ (x.read ⟨start, stop⟩))

theorem step_next (l : Lexer σ) : l.Step l.next.1 l.next.2 := by
  obtain ⟨gap, hrest, hgap, hstop, hposition⟩ := l.cursor.skipTrivia_spec
  cases e : l.cursor.skipTrivia.rest with
  | nil =>
      rw [next_of_rest_nil e, hposition]
      rw [e] at hrest hgap
      rw [List.append_nil] at hrest
      rw [← hrest] at hgap ⊢
      exact .finish hgap
  | cons c r =>
      rw [next_of_rest_cons e, hposition]
      rw [e] at hrest hgap hstop
      have hblank : isBlank c = false := Bool.eq_false_iff.2 fun hc => hstop (.blank hc)
      obtain ⟨happend, hvalid, hgrow⟩ := (Lexeme.cut_eq_iff (r := r) hblank).1 rfl
      rw [happend] at hrest hgap hstop
      exact .read hrest hgap hstop hvalid hgrow rfl rfl

theorem Step.next_eq {l l' : Lexer σ} {x : ScanResult} (h : l.Step x l') : l.next = (x, l') := by
  cases h with
  | finish hgap =>
      have hskip := Cursor.skipTrivia_eq (List.append_nil l.cursor.rest).symm hgap nofun
      rw [next_of_rest_nil (by rw [hskip]), hskip]
  | @read gap x rest hrest hgap hstop hx hgrow start stop hstart hend =>
      have hskip := Cursor.skipTrivia_eq hrest hgap hstop
      obtain ⟨c, r, hchars, _⟩ := hx.begins
      have hblank := hx.isBlank_eq_false c (hchars ▸ List.mem_cons_self)
      have hcut : Lexeme.cut c (r ++ rest) = (x, rest) :=
        (Lexeme.cut_eq_iff hblank).2 ⟨by rw [hchars]; rfl, hx, hgrow⟩
      have hplace : l.cursor.skipTrivia.rest = c :: (r ++ rest) := by rw [hskip, hchars]; rfl
      rw [next_of_rest_cons hplace, hcut, hskip, hend, hstart]

end Lexer
end ExprLexer
