import Mathlib.Computability.RegularExpressions
import Mathlib.Tactic.IntervalCases
import ExprLexer.Proofs.Failures
import ExprLexer.Proofs.Nearest

/-!
# The pattern of literals

Numerals are told in three ways: by a regular expression, by the value of a literal, and by reading a source. They
agree, so a text that is read as a number always has the shape of one, and only its size makes it malformed:
`numeralPattern_agrees`.
-/
namespace ExprLexer

open RegularExpression

/-! ## The pattern -/

/-- Any one of some characters. -/
def anyOf (cs : List Char) : RegularExpression Char := cs.foldr (fun c P => char c + P) 0

def decimalDigits : List Char := ['0', '1', '2', '3', '4', '5', '6', '7', '8', '9']

def digitPattern : RegularExpression Char := anyOf decimalDigits

def digitsPattern : RegularExpression Char := digitPattern * digitPattern.star

/-- Digits that a point and more digits may follow, or a point and digits. -/
def numeralPattern : RegularExpression Char :=
  digitsPattern * (1 + char '.' * digitPattern.star) + char '.' * digitsPattern

theorem mem_anyOf {cs w : List Char} : w ∈ (anyOf cs).matches' ↔ ∃ c ∈ cs, w = [c] := by
  induction cs with
  | nil => simp [anyOf, Language.notMem_zero]
  | cons c cs ih =>
      have hcons : anyOf (c :: cs) = char c + anyOf cs := rfl
      have hone : w ∈ (char c).matches' ↔ w = [c] := Iff.rfl
      rw [hcons, matches'_add, Language.mem_add, hone, ih, List.exists_mem_cons_iff]

theorem isDigit_iff_mem {c : Char} : c.isDigit ↔ c ∈ decimalDigits := by
  constructor
  · intro h
    obtain ⟨hlow, hhigh⟩ := Char.isDigit_iff_toNat.1 h
    rw [← Char.ofNat_toNat c]
    generalize c.toNat = n at *
    simp only [Char.reduceToNat] at hlow hhigh
    interval_cases n <;> decide
  · intro h
    simp only [decimalDigits, List.mem_cons, List.not_mem_nil, or_false] at h
    rcases h with rfl | rfl | rfl | rfl | rfl | rfl | rfl | rfl | rfl | rfl <;> rfl

theorem mem_digitPattern {w : List Char} : w ∈ digitPattern.matches' ↔ ∃ c : Char, c.isDigit ∧ w = [c] := by
  simp only [digitPattern, mem_anyOf, isDigit_iff_mem]

theorem mem_star_digitPattern {w : List Char} : w ∈ digitPattern.star.matches' ↔ ∀ c ∈ w, c.isDigit := by
  rw [matches'_star, Language.mem_kstar]
  constructor
  · rintro ⟨ws, rfl, hws⟩ c hc
    obtain ⟨v, hv, hcv⟩ := List.mem_flatten.1 hc
    obtain ⟨d, hd, rfl⟩ := mem_digitPattern.1 (hws v hv)
    rwa [List.mem_singleton.1 hcv]
  · intro h
    refine ⟨w.map fun c => [c], ?_, ?_⟩
    · rw [← List.flatMap_def, List.flatMap_singleton']
    · intro v hv
      obtain ⟨c, hc, rfl⟩ := List.mem_map.1 hv
      exact mem_digitPattern.2 ⟨c, h c hc, rfl⟩

theorem mem_digitsPattern {w : List Char} : w ∈ digitsPattern.matches' ↔ w ≠ [] ∧ ∀ c ∈ w, c.isDigit := by
  simp only [digitsPattern, matches'_mul, Language.mem_mul, mem_digitPattern, mem_star_digitPattern]
  constructor
  · rintro ⟨_, ⟨c, hc, rfl⟩, cs, hcs, rfl⟩
    exact ⟨List.cons_ne_nil c cs, List.forall_mem_cons.2 ⟨hc, hcs⟩⟩
  · rintro ⟨hne, hall⟩
    obtain ⟨c, cs, rfl⟩ := List.exists_cons_of_ne_nil hne
    obtain ⟨hc, hcs⟩ := List.forall_mem_cons.1 hall
    exact ⟨[c], ⟨c, hc, rfl⟩, cs, hcs, rfl⟩

theorem mem_point_mul {P : RegularExpression Char} {w : List Char} :
    w ∈ (char '.' * P).matches' ↔ ∃ es ∈ P.matches', w = '.' :: es := by
  rw [matches'_mul, matches'_char, Language.mem_mul]
  constructor
  · rintro ⟨_, rfl, es, hes, rfl⟩
    exact ⟨es, hes, rfl⟩
  · rintro ⟨es, hes, rfl⟩
    exact ⟨['.'], rfl, es, hes, rfl⟩

theorem mem_numeralPattern {w : List Char} : w ∈ numeralPattern.matches' ↔ ∃ q, Numeral w q := by
  simp only [numeralPattern, matches'_add, matches'_mul _ (1 + _), Language.mem_add, Language.mem_mul,
    mem_point_mul, mem_digitsPattern, mem_star_digitPattern, matches'_epsilon, Language.mem_one]
  constructor
  · rintro (⟨ds, ⟨hne, hd⟩, _, rfl | ⟨es, he, rfl⟩, rfl⟩ | ⟨es, ⟨hne, he⟩, rfl⟩)
    · rw [List.append_nil]
      exact ⟨_, .whole hd hne⟩
    · exact ⟨_, .point hd he (.inl hne)⟩
    · have hpoint : Numeral ([] ++ '.' :: es) _ := .point nofun he (.inr hne)
      exact ⟨_, hpoint⟩
  · rintro ⟨q, hq⟩
    cases hq with
    | whole hd hne => exact .inl ⟨w, ⟨hne, hd⟩, [], .inl rfl, List.append_nil w⟩
    | @point ds es hd he hne =>
        by_cases hds : ds = []
        · subst hds
          exact .inr ⟨es, ⟨hne.resolve_left (not_not_intro rfl), he⟩, rfl⟩
        · exact .inl ⟨ds, ⟨hds, hd⟩, '.' :: es, .inr ⟨es, he, rfl⟩, rfl⟩

-- A point needs a digit, and a newline behind a numeral does not belong to it.
example : "1.".toList ∈ numeralPattern.matches' ∧ ".".toList ∉ numeralPattern.matches' ∧
    "1\n".toList ∉ numeralPattern.matches' := by decide

theorem isNumeral_iff_mem {w : List Char} : isNumeral w ↔ w ∈ numeralPattern.matches' := by
  rw [isNumeral_iff, mem_numeralPattern]

/-! ## The scan of one literal -/

namespace ScanResult

/-- A result that takes a text for a number, be it well-formed or not. -/
inductive IsNumber (text : String) : ScanResult → Prop
  | token {t : Token} (hkind : t.kind = .number) (hlexeme : t.lexeme = text) : IsNumber text (.ok t)
  | malformed (p : Position) : IsNumber text (.error ⟨.malformedNumber text, p⟩)

theorem IsNumber.lexeme_eq {text : String} {x : ScanResult} (h : x.IsNumber text) : x.lexeme = text := by
  cases h with
  | token _ hlexeme => exact hlexeme
  | malformed p => rfl

theorem IsNumber.isEnd_eq_false {text : String} {x : ScanResult} (h : x.IsNumber text) : x.isEnd = false := by
  cases h with
  | token hkind _ => simp [isEnd, hkind]
  | malformed p => rfl

end ScanResult

namespace Lexeme

theorem result_read_numeral (cs : List Char) (span : Span) :
    ((numeral cs).read span).result = (numberLiteral (String.ofList cs) span.start).map fun v =>
      ⟨.number, String.ofList cs, span, some v⟩ := by
  simp only [read, chars]
  cases numberLiteral (String.ofList cs) span.start <;> rfl

theorem isNumber_read_numeral (cs : List Char) (span : Span) :
    ((numeral cs).read span).result.IsNumber (String.ofList cs) := by
  rcases read_numeral cs span with ⟨v, _, hread⟩ | ⟨_, hread⟩
  · rw [hread]
    exact .token rfl rfl
  · rw [hread]
    exact .malformed span.start

/-- Only numerals are read as numbers. -/
theorem exists_token_read {x : Lexeme} (h : ∀ cs, x ≠ numeral cs) (span : Span) :
    ∃ t, (x.read span).result = .ok t ∧ t.kind ≠ .number := by
  have hkind : x.kind ≠ .number := by
    rw [Ne, kind_eq_number_iff]
    rintro ⟨cs, hx⟩
    exact h cs hx
  cases x with
  | operator o => exact ⟨_, rfl, hkind⟩
  | numeral cs => exact absurd rfl (h cs)
  | word cs => exact ⟨_, rfl, hkind⟩
  | unknown c => exact ⟨_, rfl, hkind⟩

theorem Valid.eq_numeral_of_isNumber {x : Lexeme} (hx : x.Valid) {span : Span} {text : String}
    (h : (x.read span).result.IsNumber text) : x = numeral text.toList := by
  have hlexeme := h.lexeme_eq
  rw [(hx.shows_read span).lexeme_eq] at hlexeme
  by_cases hnumeral : ∃ cs, x = numeral cs
  · obtain ⟨cs, rfl⟩ := hnumeral
    rw [← hlexeme, String.toList_ofList]
    rfl
  · obtain ⟨t, ht, hkind⟩ := exists_token_read (not_exists.1 hnumeral) span
    rw [ht] at h
    cases h with
    | token hnumber _ => exact absurd hnumber hkind

/-- A source that is one lexeme is read in one piece. -/
theorem Valid.results_eq {x : Lexeme} (hx : x.Valid) :
    results (String.ofList x.chars) = [(x.read ⟨.start, Position.start.after x.chars⟩).result,
      .ok (.endOfInput (Position.start.after x.chars))] := by
  have hscans : Scans .start ([] ++ (x.chars ++ [])) _ :=
    .read .nil hx hx.not_runsOn_nil rfl rfl (.last .nil)
  have hsource := scans_results (String.ofList x.chars)
  rw [String.toList_ofList] at hsource
  rw [List.nil_append, List.append_nil] at hscans
  exact hsource.unique hscans

end Lexeme

theorem exists_number_iff {text : String} :
    (∃ q, Numeral text.toList q) ↔
      ∃ x p, results text = [x, .ok (.endOfInput p)] ∧ x.IsNumber text := by
  constructor
  · intro hnumeral
    have hresults := (Lexeme.valid_numeral.2 hnumeral).results_eq
    have hnumber := Lexeme.isNumber_read_numeral text.toList ⟨.start, Position.start.after text.toList⟩
    rw [Lexeme.chars, String.ofList_toList] at hresults
    rw [String.ofList_toList] at hnumber
    exact ⟨_, _, hresults, hnumber⟩
  · rintro ⟨x, p, hresults, hnumber⟩
    have hx : x ∈ results text := hresults ▸ List.mem_cons_self
    obtain ⟨_, lexeme, _, _, _, hvalid, rfl⟩ := (scans_results text).exists_lexeme x hx hnumber.isEnd_eq_false
    rw [hvalid.eq_numeral_of_isNumber hnumber] at hvalid
    exact Lexeme.valid_numeral.1 hvalid

theorem numberLiteral_eq_ok_iff_tokenize {text : String} {v : Binary64} :
    numberLiteral text .start = .ok v ↔
      ∃ t e, tokenize text = .ok [t, e] ∧ t.kind = .number ∧ t.lexeme = text ∧ t.number = some v ∧
        e.kind = .endOfInput := by
  constructor
  · intro hv
    have hnumeral := exists_numeral_of_value (numberLiteral_eq_ok_iff.1 hv)
    have hresults := (Lexeme.valid_numeral.2 hnumeral).results_eq
    rw [Lexeme.result_read_numeral, Lexeme.chars, String.ofList_toList, hv] at hresults
    exact ⟨_, _, Lexer.tokenize_eq_ok_iff.2 hresults, rfl, rfl, rfl, rfl⟩
  · rintro ⟨t, e, htokens, hkind, hlexeme, hv, _⟩
    have ht : .ok t ∈ results text := by
      rw [Lexer.tokenize_eq_ok_iff.1 htokens]
      exact List.mem_cons_self
    have hnumber : ScanResult.IsNumber text (.ok t) := .token hkind hlexeme
    obtain ⟨before, lexeme, _, stop, _, hvalid, hread⟩ :=
      (scans_results text).exists_lexeme _ ht hnumber.isEnd_eq_false
    rw [hread] at hnumber
    rw [hvalid.eq_numeral_of_isNumber hnumber, Lexeme.result_read_numeral, String.ofList_toList] at hread
    cases hvalue : numberLiteral text (Position.start.after before) with
    | error e =>
        rw [hvalue] at hread
        cases hread
    | ok w =>
        rw [hvalue] at hread
        cases hread
        cases hv
        rwa [numberLiteral_eq_ok_iff] at hvalue ⊢

/-! ## Literals in the scan of a source -/

namespace Lexer

variable {σ : Type}

/-- The text that the next call of `next` hands over as a number literal. -/
def literal? (l : Lexer σ) : Option (List Char) :=
  match l.cursor.skipTrivia.rest with
  | [] => none
  | c :: r =>
    match (Lexeme.cut c r).1 with
    | .numeral cs => some cs
    | _ => none

variable [Sink σ]

/-- The next call of `next` reads a numeral, or gives a token that is no number. -/
theorem next_literal_cases (l : Lexer σ) :
    (∃ cs q stop, l.literal? = some cs ∧ Numeral cs q ∧
        l.next.1 = ((Lexeme.numeral cs).read ⟨l.cursor.skipTrivia.position, stop⟩).result) ∨
      l.literal? = none ∧ ∃ t, l.next.1 = .ok t ∧ t.kind ≠ .number := by
  obtain ⟨_, _, _, hstop, _⟩ := l.cursor.skipTrivia_spec
  cases hrest : l.cursor.skipTrivia.rest with
  | nil =>
      rw [next_of_rest_nil hrest]
      exact .inr ⟨by simp only [literal?, hrest], _, rfl, nofun⟩
  | cons c r =>
      rw [hrest] at hstop
      have hblank : isBlank c = false := Bool.eq_false_iff.2 fun hc => hstop (.blank hc)
      have hvalid := Lexeme.cut_valid r hblank
      rw [next_of_rest_cons hrest]
      simp only [literal?, hrest]
      generalize (Lexeme.cut c r).1 = x at *
      by_cases hnumeral : ∃ cs, x = .numeral cs
      · obtain ⟨cs, rfl⟩ := hnumeral
        obtain ⟨q, hq⟩ := Lexeme.valid_numeral.1 hvalid
        exact .inl ⟨cs, q, _, rfl, hq, rfl⟩
      · refine .inr ⟨?_, Lexeme.exists_token_read (not_exists.1 hnumeral) _⟩
        cases x with
        | numeral cs => exact absurd ⟨cs, rfl⟩ hnumeral
        | _ => rfl

theorem next_isNumber_iff (l : Lexer σ) (text : String) :
    l.next.1.IsNumber text ↔ l.literal? = some text.toList := by
  rcases l.next_literal_cases with ⟨cs, q, stop, hliteral, hq, hnext⟩ | ⟨hliteral, t, hnext, hkind⟩
  · rw [hliteral, hnext, Option.some.injEq]
    constructor
    · intro hnumber
      exact Lexeme.numeral.inj ((Lexeme.valid_numeral.2 ⟨q, hq⟩).eq_numeral_of_isNumber hnumber)
    · rintro rfl
      have hnumber := Lexeme.isNumber_read_numeral text.toList ⟨l.cursor.skipTrivia.position, stop⟩
      rwa [String.ofList_toList] at hnumber
  · rw [hliteral, hnext]
    refine iff_of_false ?_ nofun
    rintro (⟨hnumber, _⟩ | _)
    exact hkind hnumber

theorem next_eq_error_iff (l : Lexer σ) (e : Failure) :
    l.next.1 = .error e ↔ ∃ cs q, l.literal? = some cs ∧ Numeral cs q ∧ finiteLimit ≤ q ∧
      e = ⟨.malformedNumber (String.ofList cs), l.cursor.skipTrivia.position⟩ := by
  rcases l.next_literal_cases with ⟨cs, q, stop, hliteral, hq, hnext⟩ | ⟨hliteral, t, hnext, _⟩
  · rw [hliteral, hnext]
    have hlimit := numeralValue?_eq_none_iff hq
    rcases Lexeme.read_numeral cs ⟨l.cursor.skipTrivia.position, stop⟩ with ⟨v, hv, hread⟩ | ⟨hv, hread⟩
    · rw [hread]
      refine iff_of_false nofun ?_
      rintro ⟨cs', q', hcs, hq', hlarge, _⟩
      cases hcs
      rw [(numeralValue?_eq_none_iff hq').2 hlarge] at hv
      cases hv
    · rw [hread]
      constructor
      · intro he
        cases he
        exact ⟨cs, q, rfl, hq, hlimit.1 hv, rfl⟩
      · rintro ⟨cs', q', hcs, _, _, rfl⟩
        cases hcs
        rfl
  · rw [hliteral, hnext]
    refine iff_of_false nofun ?_
    rintro ⟨cs, q, hcs, _⟩
    cases hcs

end Lexer

/-- The pattern, the value of a literal and the scan of a source tell the same texts for numbers. The pattern matches
the texts that a fresh lexer reads in one piece, as a number or as a malformed one, and the value of a text is the one
in its token. Wherever a source is being read, what is handed over as a literal matches the pattern, so it is malformed
just when what it stands for is too large. -/
theorem numeralPattern_agrees {σ : Type} [Sink σ] (text : String) (l : Lexer σ) :
    (isNumeral text.toList ↔ text.toList ∈ numeralPattern.matches') ∧
    (text.toList ∈ numeralPattern.matches' ↔
      ∃ x p, results text = [x, .ok (.endOfInput p)] ∧ x.IsNumber text) ∧
    (∀ v, numberLiteral text .start = .ok v ↔
      ∃ t e, tokenize text = .ok [t, e] ∧ t.kind = .number ∧ t.lexeme = text ∧ t.number = some v ∧
        e.kind = .endOfInput) ∧
    (l.next.1.IsNumber text ↔ l.literal? = some text.toList) ∧
    (∀ cs, l.literal? = some cs → cs ∈ numeralPattern.matches' ∧ ∃ p stop,
      l.next.1 = (numberLiteral (String.ofList cs) p).map fun v => ⟨.number, String.ofList cs, ⟨p, stop⟩, some v⟩) ∧
    ∀ e, l.next.1 = .error e ↔ ∃ cs q, l.literal? = some cs ∧ Numeral cs q ∧ finiteLimit ≤ q ∧
      e = ⟨.malformedNumber (String.ofList cs), l.cursor.skipTrivia.position⟩ := by
  refine ⟨isNumeral_iff_mem, ?_, fun v => numberLiteral_eq_ok_iff_tokenize, l.next_isNumber_iff text, ?_,
    l.next_eq_error_iff⟩
  · rw [mem_numeralPattern]
    exact exists_number_iff
  · intro cs hcs
    rcases l.next_literal_cases with ⟨ds, q, stop, hliteral, hq, hnext⟩ | ⟨hliteral, _⟩
    · obtain rfl : ds = cs := Option.some.inj (hliteral.symm.trans hcs)
      refine ⟨mem_numeralPattern.2 ⟨q, hq⟩, l.cursor.skipTrivia.position, stop, ?_⟩
      rw [hnext, Lexeme.result_read_numeral]
    · rw [hliteral] at hcs
      cases hcs

end ExprLexer
