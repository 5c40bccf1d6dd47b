import ExprLexer.Proofs.Grammar
import ExprLexer.Proofs.Trivia

/-!
# Clashes

Which texts may not stand next to each other. A lexeme runs on into what is behind it when that makes it
grow or makes a comment of it; for the text of another lexeme this comes down to the list `Clash`.
-/
namespace ExprLexer
inductive TokenKind.IsWord : TokenKind → Prop
  | identifier : IsWord .identifier
  | keyword (k) : IsWord (.keyword k)

/-- Whether a token of this kind makes a comment of the text right behind it. -/
def TokenKind.OpensComment (kind : TokenKind) (more : List Char) : Prop :=
  kind = .operator .slash ∧ more.head? = some '/'

/-- Two kinds with their texts, of which the first is not read as such if the second is right behind it. -/
inductive Clash : TokenKind → List Char → TokenKind → List Char → Prop
  | equals {o p : Operator} (ho : o ∈ [.assign, .not, .less, .greater]) (hp : p ∈ [.assign, .equal]) :
      Clash (.operator o) o.chars (.operator p) p.chars
  | slashes : Clash (.operator .slash) ['/'] (.operator .slash) ['/']
  | words {k k'} (hk : k.IsWord) (hk' : k'.IsWord) (cs ds) : Clash k cs k' ds
  | digitAfterWord {k} (hk : k.IsWord) (cs) {d} (ds) (hd : d.isDigit) : Clash k cs .number (d :: ds)
  | digit (cs) {d} (ds) (hd : d.isDigit) : Clash .number cs .number (d :: ds)
  | point {cs} (ds) (hcs : '.' ∉ cs) : Clash .number cs .number ('.' :: ds)
  | lonePoint {cs} (hcs : '.' ∉ cs) : Clash .number cs .unknown ['.']
  | digitAfterPoint {d} (ds) (hd : d.isDigit) : Clash .unknown ['.'] .number (d :: ds)

namespace Lexeme

/-- The lexemes that make a token of a kind. -/
inductive Makes : TokenKind → Lexeme → Prop
  | operator (o) : Makes (.operator o) (operator o)
  | number (cs) : Makes .number (numeral cs)
  | word {k} (hk : k.IsWord) (cs) : Makes k (word cs)
  | unknown (c) : Makes .unknown (unknown c)

theorem kind_word (cs : List Char) : (word cs).kind.IsWord := by
  simp only [kind, TokenKind.ofWord]
  split
  · exact .keyword _
  · exact .identifier

theorem makes_kind (x : Lexeme) : Makes x.kind x := by
  cases x with
  | operator o => exact .operator o
  | numeral cs => exact .number cs
  | word cs => exact .word (kind_word cs) cs
  | unknown c => exact .unknown c

theorem eq_operator_of_kind {x : Lexeme} {o : Operator} (h : x.kind = .operator o) : x = operator o := by
  have hx := x.makes_kind
  rw [h] at hx
  cases hx with
  | operator => rfl
  | word hk => cases hk

/-- A lexeme that is not read as such because of the text `more` right behind it. -/
def RunsOn (x : Lexeme) (more : List Char) : Prop :=
  StartsTrivia (x.chars ++ more) ∨ ∃ d ∈ more.head?, x.Grows d

theorem Begins.eq_slash {x : Lexeme} (h : x.Begins '/') : x = operator .slash := by
  cases x with
  | operator o =>
      have hslash : ∀ o ∈ Operator.all, '/' ∈ o.chars → o = .slash := by decide
      rw [hslash o o.mem_all h]
  | numeral cs =>
      have hdigit : '/'.isDigit ∨ '/' = '.' := h
      exact absurd hdigit (by decide)
  | word cs =>
      have hword : isWordStart '/' := h
      exact absurd hword (by decide)
  | unknown c => exact absurd (List.mem_singleton_self '/') (h.notOperator .slash)

theorem Begins.eq_operator {x : Lexeme} (h : x.Begins '=') : ∃ o, x = operator o := by
  cases x with
  | operator o => exact ⟨o, rfl⟩
  | numeral cs =>
      have hdigit : '='.isDigit ∨ '=' = '.' := h
      exact absurd hdigit (by decide)
  | word cs =>
      have hword : isWordStart '=' := h
      exact absurd hword (by decide)
  | unknown c => exact absurd (List.mem_singleton_self '=') (h.notOperator .assign)

theorem Begins.eq_numeral {x : Lexeme} {c : Char} (h : x.Begins c) (hc : c.isDigit) :
    ∃ cs, x = numeral cs := by
  have hpart := isWordPart_of_isDigit hc
  cases x with
  | operator o =>
      rw [(o.of_mem_chars c h).2.1] at hpart
      cases hpart
  | numeral cs => exact ⟨cs, rfl⟩
  | word cs =>
      have hstart : isWordStart c := h
      rw [isWordStart_of_isDigit hc] at hstart
      cases hstart
  | unknown d =>
      rw [h.notWord] at hpart
      cases hpart

theorem Begins.eq_of_point {x : Lexeme} (h : x.Begins '.') :
    (∃ cs, x = numeral cs) ∨ ∃ c, x = unknown c := by
  cases x with
  | operator o => exact absurd rfl (o.of_mem_chars '.' h).2.2.1
  | numeral cs => exact .inl ⟨cs, rfl⟩
  | word cs =>
      have hword : isWordStart '.' := h
      exact absurd hword (by decide)
  | unknown c => exact .inr ⟨c, rfl⟩

theorem Valid.startsTrivia_iff {x : Lexeme} (h : x.Valid) (more : List Char) :
    StartsTrivia (x.chars ++ more) ↔ x.kind.OpensComment more := by
  obtain ⟨c, r, hchars, hbegins⟩ := h.begins
  constructor
  · intro htrivia
    rw [hchars, List.cons_append] at htrivia
    generalize ht : r ++ more = t at htrivia
    cases htrivia with
    | blank hc =>
        have hblank := h.isBlank_eq_false c (hchars ▸ List.mem_cons_self)
        rw [hblank] at hc
        cases hc
    | comment =>
        obtain rfl := hbegins.eq_slash
        obtain rfl : r = [] := (List.cons.inj hchars).2.symm
        exact ⟨rfl, by rw [← List.nil_append more, ht]; rfl⟩
  · rintro ⟨hkind, hmore⟩
    obtain rfl := eq_operator_of_kind hkind
    obtain ⟨t, rfl⟩ := List.head?_eq_some_iff.1 hmore
    exact .comment

theorem not_grows_of_trivia (x : Lexeme) {d : Char} (hd : isBlank d ∨ d = '/') : ¬ x.Grows d := by
  have hword : isWordPart d = false := by
    rcases hd with hd | rfl
    · by_contra hpart
      rw [isBlank_of_isWordPart (Bool.not_eq_false _ ▸ hpart)] at hd
      cases hd
    · rfl
  have hdigit : d.isDigit = false := by
    by_contra hdigit
    rw [isWordPart_of_isDigit (Bool.not_eq_false _ ▸ hdigit)] at hword
    cases hword
  have hother : d ≠ '=' ∧ d ≠ '.' := by
    constructor <;> rintro rfl <;> exact absurd hd (by decide)
  cases x with
  | operator o => exact fun h => hother.1 h.1
  | numeral cs =>
      rintro (h | h)
      · rw [hdigit] at h
        cases h
      · exact hother.2 h.1
  | word cs =>
      intro h
      rw [Grows, hword] at h
      cases h
  | unknown c =>
      intro h
      rw [Grows, hdigit] at h
      cases h.2

/-- Behind trivia, a lexeme only has to fear that it makes a comment of it. -/
theorem Valid.runsOn_trivia_iff {x : Lexeme} (h : x.Valid) {gap next more : List Char}
    (hgap : Trivia next gap) (hne : gap = [] → more = []) :
    x.RunsOn (gap ++ more) ↔ x.kind.OpensComment gap := by
  have hhead : (gap ++ more).head? = gap.head? := by
    cases gap with
    | nil => rw [hne rfl, List.append_nil]
    | cons c gap => rfl
  rw [RunsOn, h.startsTrivia_iff, TokenKind.OpensComment, TokenKind.OpensComment, hhead, or_iff_left]
  rintro ⟨d, hd, hgrow⟩
  exact x.not_grows_of_trivia (hgap.head d hd) hgrow

theorem Valid.not_runsOn_nil {x : Lexeme} (h : x.Valid) : ¬ x.RunsOn [] := by
  rw [RunsOn, h.startsTrivia_iff]
  rintro (⟨_, hslash⟩ | ⟨d, hd, _⟩)
  · cases hslash
  · cases hd

theorem Valid.clash_of_grows {x y : Lexeme} (hy : y.Valid) {d : Char} (hd : y.chars.head? = some d)
    (h : x.Grows d) : Clash x.kind x.chars y.kind y.chars := by
  obtain ⟨c, r, hchars, hbegins⟩ := hy.begins
  obtain rfl : c = d := by
    rw [hchars] at hd
    exact Option.some.inj hd
  cases x with
  | operator o =>
      obtain ⟨rfl, ho⟩ := h
      obtain ⟨p, rfl⟩ := hbegins.eq_operator
      have hequal : ∀ p ∈ Operator.all, p.chars.head? = some '=' → p ∈ [.assign, .equal] := by decide
      exact .equals ho (hequal p p.mem_all hd)
  | numeral cs =>
      rcases h with h | ⟨rfl, hcs⟩
      · obtain ⟨ds, rfl⟩ := hbegins.eq_numeral h
        obtain rfl : ds = c :: r := hchars
        exact .digit cs r h
      · rcases hbegins.eq_of_point with ⟨ds, rfl⟩ | ⟨e, rfl⟩
        · obtain rfl : ds = '.' :: r := hchars
          exact .point r hcs
        · obtain rfl : e = '.' := (List.cons.inj hchars).1
          exact .lonePoint hcs
  | word cs =>
      have hpart : isWordPart c := h
      cases y with
      | operator p =>
          rw [(p.of_mem_chars c hbegins).2.1] at hpart
          cases hpart
      | numeral ds =>
          obtain rfl : ds = c :: r := hchars
          rcases hbegins with hdigit | rfl
          · exact .digitAfterWord (kind_word cs) cs r hdigit
          · cases hpart
      | word ds => exact .words (kind_word cs) (kind_word ds) cs ds
      | unknown e =>
          rw [hbegins.notWord] at hpart
          cases hpart
  | unknown e =>
      obtain ⟨rfl, hdigit⟩ := h
      obtain ⟨ds, rfl⟩ := hbegins.eq_numeral hdigit
      obtain rfl : ds = c :: r := hchars
      exact .digitAfterPoint r hdigit

theorem Valid.grows_of_clash {x y : Lexeme} (hy : y.Valid) (h : Clash x.kind x.chars y.kind y.chars) :
    x.kind.OpensComment y.chars ∨ ∃ d ∈ y.chars.head?, x.Grows d := by
  have hx := x.makes_kind
  have hy' := y.makes_kind
  generalize x.kind = k at h hx
  generalize hcs : x.chars = cs at h
  generalize y.kind = k' at h hy'
  generalize hds : y.chars = ds at h ⊢
  cases h with
  | @equals o p ho hp =>
      have hequal : ∀ p ∈ [Operator.assign, .equal], p.chars.head? = some '=' := by decide
      cases hx with
      | operator => exact .inr ⟨'=', hequal p hp, rfl, ho⟩
      | word hk => cases hk
  | slashes =>
      cases hx with
      | operator => exact .inl ⟨rfl, rfl⟩
      | word hk => cases hk
  | words hk hk' =>
      cases hx with
      | word _ cs' =>
          cases hy' with
          | word _ ds' =>
              obtain ⟨c, r, rfl, hc, _⟩ := valid_word.1 hy
              obtain rfl : c :: r = ds := hds
              exact .inr ⟨c, rfl, isWordPart_of_isWordStart hc⟩
          | _ => cases hk'
      | _ => cases hk
  | digitAfterWord hk _ ds hd =>
      cases hx with
      | word => exact .inr ⟨_, rfl, isWordPart_of_isDigit hd⟩
      | _ => cases hk
  | digit _ ds hd =>
      cases hx with
      | number => exact .inr ⟨_, rfl, .inl hd⟩
      | word hk => cases hk
  | point ds hpoint =>
      cases hx with
      | number cs' =>
          obtain rfl : cs' = cs := hcs
          exact .inr ⟨_, rfl, .inr ⟨rfl, hpoint⟩⟩
      | word hk => cases hk
  | lonePoint hpoint =>
      cases hx with
      | number cs' =>
          obtain rfl : cs' = cs := hcs
          exact .inr ⟨_, rfl, .inr ⟨rfl, hpoint⟩⟩
      | word hk => cases hk
  | digitAfterPoint ds hd =>
      cases hx with
      | unknown c =>
          obtain rfl : c = '.' := (List.cons.inj hcs).1
          exact .inr ⟨_, rfl, rfl, hd⟩
      | word hk => cases hk

/-- Right in front of another lexeme, a lexeme runs on exactly if the two clash. -/
theorem Valid.runsOn_lexeme_iff {x y : Lexeme} (hx : x.Valid) (hy : y.Valid) (more : List Char) :
    x.RunsOn (y.chars ++ more) ↔ Clash x.kind x.chars y.kind y.chars := by
  obtain ⟨c, r, hchars, hbegins⟩ := hy.begins
  have hhead : (y.chars ++ more).head? = y.chars.head? := by rw [hchars]; rfl
  rw [RunsOn, hx.startsTrivia_iff, TokenKind.OpensComment, hhead]
  constructor
  · rintro (⟨hkind, hslash⟩ | ⟨d, hd, hgrow⟩)
    · obtain rfl := eq_operator_of_kind hkind
      obtain rfl : c = '/' := by
        rw [hchars] at hslash
        exact Option.some.inj hslash
      rw [hbegins.eq_slash]
      exact .slashes
    · exact hy.clash_of_grows hd hgrow
  · exact hy.grows_of_clash

end Lexeme
end ExprLexer
