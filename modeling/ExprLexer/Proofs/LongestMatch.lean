import ExprLexer.Proofs.Bytes
import ExprLexer.Proofs.Invariant

/-!
# Longest match

What one call of `next` gives is determined by two longest front parts: the longest trivia of the text from
the cursor on, and the longest spelling at the front of what is behind it.
-/
namespace ExprLexer

/-- The longest front part of a text of which `P` holds, where `P` may look at what is behind the part. -/
structure Longest (P : List Char → List Char → Prop) (text front rest : List Char) : Prop where
  text_eq : text = front ++ rest
  holds : P front rest
  longest : ∀ front' rest', text = front' ++ rest' → P front' rest' → front'.length ≤ front.length

theorem Trivia.isLongest {gap next : List Char} (h : Trivia next gap) (hstop : ¬ StartsTrivia next) :
    Longest (fun gap next => Trivia next gap) (gap ++ next) gap next where
  text_eq := rfl
  holds := h
  longest := by
    intro gap' next' htext h'
    exact h.length_le hstop h' htext

namespace Lexeme

theorem Valid.spelling_iff {x : Lexeme} (h : x.Valid) (kind : TokenKind) :
    Spelling kind x.chars ↔ kind = x.kind := by
  constructor
  · intro hspelling
    obtain ⟨y, hy, rfl, hchars⟩ := exists_of_spelling hspelling
    rw [hy.eq_of_chars h hchars]
  · rintro rfl
    exact h

theorem Valid.isLongest {x : Lexeme} {rest : List Char} (h : x.Valid)
    (hstop : ∀ d ∈ rest.head?, ¬ x.Grows d) :
    Longest (fun cs _ => cs ≠ [] ∧ ∃ kind, Spelling kind cs) (x.chars ++ rest) x.chars rest where
  text_eq := rfl
  holds := ⟨h.ne_nil, x.kind, h⟩
  longest := by
    intro front rest' htext hfront
    obtain ⟨_, kind, hspelling⟩ := hfront
    obtain ⟨y, hy, _, rfl⟩ := exists_of_spelling hspelling
    exact h.length_le hy hstop htext

end Lexeme

namespace Lexer

variable {σ : Type} [Sink σ]

theorem next_isLongest (l : Lexer σ) :
    ∃ gap rest, Longest (fun gap next => Trivia next gap) l.cursor.rest gap rest ∧
      (rest = [] → l.next.1 = .ok (.endOfInput (l.cursor.position.after gap))) ∧
      (rest ≠ [] → ∃ kind lexeme more,
        Longest (fun cs _ => cs ≠ [] ∧ ∃ kind, Spelling kind cs) rest lexeme more ∧
        (∀ kind', Spelling kind' lexeme ↔ kind' = kind) ∧
        l.next.1.Shows kind lexeme (l.cursor.position.after gap)) := by
  have hstep := l.step_next
  generalize l.next.1 = x at *
  generalize l.next.2 = l' at *
  cases hstep with
  | finish hgap =>
      have hlongest := hgap.isLongest nofun
      rw [List.append_nil] at hlongest
      exact ⟨l.cursor.rest, [], hlongest, fun _ => rfl, fun h => absurd rfl h⟩
  | @read gap x rest hrest hgap hstop hx hgrow start stop hstart hend =>
      subst hstart
      rw [hrest]
      refine ⟨gap, x.chars ++ rest, hgap.isLongest hstop, ?_, ?_⟩
      · intro hnil
        exact absurd (List.append_eq_nil_iff.1 hnil).1 hx.ne_nil
      · intro _
        exact ⟨x.kind, x.chars, rest, hx.isLongest hgrow, hx.spelling_iff, hx.shows_read ⟨_, stop⟩⟩

/-- In any session, the next call of `next` passes the longest trivia in front of it and shows the longest
spelling behind that, with its kind and the place where it begins, or meets the end if nothing is there. -/
theorem session_next_longest (source : String) (sink : σ) (calls : List Call) :
    let l := ((ofSource source sink).session calls).2
    ∃ before text gap rest, source.toList = before ++ text ∧ l.cursor.position.offset = utf8Length before ∧
      Longest (fun gap next => Trivia next gap) text gap rest ∧
      (rest = [] → ∃ p, l.next.1 = .ok ⟨.endOfInput, "", ⟨p, p⟩, none⟩ ∧ p.offset = source.utf8ByteSize) ∧
      (rest ≠ [] → ∃ kind lexeme more start,
        Longest (fun cs _ => cs ≠ [] ∧ ∃ kind, Spelling kind cs) rest lexeme more ∧
        (∀ kind', Spelling kind' lexeme ↔ kind' = kind) ∧
        start.offset = utf8Length (before ++ gap) ∧ l.next.1.Shows kind lexeme start) := by
  intro l
  obtain ⟨before, hsource, hposition⟩ : ∃ before, source.toList = before ++ l.cursor.rest ∧ _ :=
    cursor_session source sink calls
  obtain ⟨gap, rest, hgap, hend, hread⟩ := l.next_isLongest
  have hoffset : (l.cursor.position.after gap).offset = utf8Length (before ++ gap) := by
    rw [hposition, ← Position.after_append, Position.after_offset]
    exact Nat.zero_add _
  refine ⟨before, l.cursor.rest, gap, rest, hsource, ?_, hgap, ?_, ?_⟩
  · rw [hposition, Position.after_offset]
    exact Nat.zero_add _
  · intro hnil
    refine ⟨_, hend hnil, ?_⟩
    rw [hoffset, ← utf8Length_toList, hsource, hgap.text_eq, hnil, List.append_nil]
  · intro hne
    obtain ⟨kind, lexeme, more, hlongest, hkind, hshows⟩ := hread hne
    exact ⟨kind, lexeme, more, _, hlongest, hkind, hoffset, hshows⟩

end Lexer
end ExprLexer
