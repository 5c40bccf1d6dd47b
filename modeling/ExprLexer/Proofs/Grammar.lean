import ExprLexer.Lexeme
import ExprLexer.Proofs.Numeral

/-!
# The language of lexemes

Which texts are tokens, class by class, with no regard to how they are found. Whether a lexeme at the front
of a text could be longer is decided by the one character behind it: `Valid.eq_or_grows`.
-/
namespace ExprLexer

theorem isWordPart_of_isDigit {c : Char} (h : c.isDigit) : isWordPart c := by
  simp [isWordPart, Char.isAlphanum, h]

theorem isBlank_of_isWordPart {c : Char} (h : isWordPart c) : isBlank c = false := by
  by_contra hb
  simp only [isBlank, Bool.not_eq_false, Bool.or_eq_true, beq_iff_eq] at hb
  rcases hb with ((((rfl | rfl) | rfl) | rfl) | rfl) | rfl <;> exact absurd h (by decide)

theorem le_toNat_of_isAlpha {c : Char} (h : c.isAlpha) : 'A'.toNat ≤ c.toNat := by
  rcases Bool.or_eq_true_iff.1 h with hupper | hlower
  · exact UInt32.le_iff_toNat_le.1 (of_decide_eq_true hupper).1
  · have hle := of_decide_eq_true (Bool.and_eq_true_iff.1 hlower).1
    have hsmall : 'a'.toNat ≤ c.toNat := UInt32.le_iff_toNat_le.1 hle
    exact Nat.le_trans (by decide) hsmall

theorem isWordStart_of_isDigit {c : Char} (h : c.isDigit) : isWordStart c = false := by
  have hdigit := (Char.isDigit_iff_toNat.1 h).2
  by_contra hstart
  rw [Bool.not_eq_false, isWordStart, Bool.or_eq_true, beq_iff_eq] at hstart
  rcases hstart with halpha | rfl
  · exact absurd (Nat.le_trans (le_toNat_of_isAlpha halpha) hdigit) (by decide)
  · exact absurd hdigit (by decide)

/-- A character that belongs to no lexeme but its own. -/
structure IsStray (c : Char) : Prop where
  notBlank : isBlank c = false
  notWord : isWordPart c = false
  notOperator : ∀ o : Operator, c ∉ o.chars

/-- A kind of token with a text that spells it. -/
inductive Spelling : TokenKind → List Char → Prop
  | operator (o : Operator) : Spelling (.operator o) o.chars
  | number {cs q} (h : Numeral cs q) : Spelling .number cs
  | keyword (k : Keyword) : Spelling (.keyword k) k.chars
  | identifier {c cs} (hc : isWordStart c) (hcs : ∀ d ∈ cs, isWordPart d)
      (hk : ∀ k : Keyword, k.chars ≠ c :: cs) : Spelling .identifier (c :: cs)
  | unknown {c} (h : IsStray c) : Spelling .unknown [c]

theorem Operator.of_mem_chars (o : Operator) : ∀ c ∈ o.chars,
    isBlank c = false ∧ isWordPart c = false ∧ c ≠ '.' ∧ (ofChars? [c]).isSome := by
  have hall : o.chars.all fun c => !isBlank c && (!isWordPart c && (c != '.' && (ofChars? [c]).isSome)) := by
    cases o <;> decide
  intro c hc
  simpa using List.all_eq_true.1 hall c hc

theorem Operator.eq_or_prefix (o p : Operator) (h : o.chars <+: p.chars) :
    p = o ∨ p.chars = o.chars ++ ['='] ∧ o ∈ [.assign, .not, .less, .greater] := by
  have hall : ∀ o ∈ Operator.all, ∀ p ∈ Operator.all, o.chars <+: p.chars →
      p = o ∨ p.chars = o.chars ++ ['='] ∧ o ∈ [.assign, .not, .less, .greater] := by
    decide
  exact hall o o.mem_all p p.mem_all h

def IsWord (cs : List Char) : Prop := ∃ c r, cs = c :: r ∧ isWordStart c ∧ ∀ d ∈ r, isWordPart d

theorem Keyword.isWord_chars (k : Keyword) : IsWord k.chars := by
  cases k <;> exact ⟨_, _, rfl, by decide, List.all_eq_true.1 (by decide)⟩

namespace Numeral

theorem isDigit_or_point {cs : List Char} {q : ℚ} (h : Numeral cs q) : ∀ c ∈ cs, c.isDigit ∨ c = '.' := by
  cases h with
  | whole hd hne => exact fun c hc => .inl (hd c hc)
  | point hd he hne =>
      intro c hc
      simp only [List.mem_append, List.mem_cons] at hc
      rcases hc with hc | hc | hc
      · exact .inl (hd c hc)
      · exact .inr hc
      · exact .inl (he c hc)

theorem exists_digit {cs : List Char} {q : ℚ} (h : Numeral cs q) : ∃ c ∈ cs, c.isDigit := by
  cases h with
  | whole hd hne =>
      obtain ⟨c, hc⟩ := List.exists_mem_of_ne_nil _ hne
      exact ⟨c, hc, hd c hc⟩
  | point hd he hne =>
      rcases hne with hne | hne
      · obtain ⟨c, hc⟩ := List.exists_mem_of_ne_nil _ hne
        exact ⟨c, List.mem_append_left _ hc, hd c hc⟩
      · obtain ⟨c, hc⟩ := List.exists_mem_of_ne_nil _ hne
        exact ⟨c, List.mem_append_right _ (List.mem_cons_of_mem _ hc), he c hc⟩

theorem count_point_le {cs : List Char} {q : ℚ} (h : Numeral cs q) : cs.count '.' ≤ 1 := by
  have hdigits {ds : List Char} (hd : ∀ c ∈ ds, c.isDigit) : ds.count '.' = 0 :=
    List.count_eq_zero.2 fun hp => absurd (hd '.' hp) (by decide)
  cases h with
  | whole hd hne => rw [hdigits hd]; exact Nat.zero_le 1
  | point hd he hne =>
      rw [List.count_append, List.count_cons_self, hdigits hd, hdigits he]

theorem digit_or_first_point {cs r : List Char} {d : Char} {q : ℚ} (h : Numeral (cs ++ d :: r) q) :
    d.isDigit ∨ d = '.' ∧ '.' ∉ cs := by
  refine (h.isDigit_or_point d (by simp)).imp_right fun hd => ⟨hd, ?_⟩
  have hcount := h.count_point_le
  rw [List.count_append, hd, List.count_cons_self] at hcount
  exact List.count_eq_zero.1 (by omega)

end Numeral

theorem not_numeral_point {q : ℚ} : ¬ Numeral ['.'] q := by
  intro h
  obtain ⟨c, hc, hd⟩ := h.exists_digit
  rw [List.mem_singleton.1 hc] at hd
  cases hd

namespace Lexeme

def Valid (x : Lexeme) : Prop := Spelling x.kind x.chars

/-- Whether a lexeme would take up the character `d` if it came next. -/
def Grows (x : Lexeme) (d : Char) : Prop :=
  match x with
  | operator o => d = '=' ∧ o ∈ [.assign, .not, .less, .greater]
  | numeral cs => d.isDigit ∨ d = '.' ∧ '.' ∉ cs
  | word _ => isWordPart d
  | unknown c => c = '.' ∧ d.isDigit

theorem valid_operator (o : Operator) : (operator o).Valid := .operator o

theorem valid_numeral {cs : List Char} : (numeral cs).Valid ↔ ∃ q, Numeral cs q := by
  constructor
  · rintro (_ | h)
    exact ⟨_, h⟩
  · rintro ⟨q, h⟩
    exact .number h

theorem valid_numeral_replicate (n : Nat) : (numeral (List.replicate (n + 1) '9')).Valid := by
  refine valid_numeral.2 ⟨_, .whole ?_ (List.cons_ne_nil _ _)⟩
  intro d hd
  rw [List.eq_of_mem_replicate hd]
  decide

theorem valid_unknown {c : Char} : (unknown c).Valid ↔ IsStray c := by
  constructor
  · intro h
    cases h with
    | unknown h => exact h
  · exact .unknown

theorem valid_word {cs : List Char} : (word cs).Valid ↔ IsWord cs := by
  cases hk : Keyword.ofChars? cs with
  | some k =>
      have hkind : (word cs).kind = .keyword k := by simp only [kind, TokenKind.ofWord, hk]
      obtain rfl := Keyword.ofChars?_eq_some_iff.1 hk
      rw [Valid, hkind]
      exact ⟨fun _ => k.isWord_chars, fun _ => .keyword k⟩
  | none =>
      have hkind : (word cs).kind = .identifier := by simp only [kind, TokenKind.ofWord, hk]
      rw [Valid, hkind, chars]
      constructor
      · intro h
        cases h with
        | identifier hc hcs _ => exact ⟨_, _, rfl, hc, hcs⟩
      · rintro ⟨c, r, rfl, hc, hr⟩
        refine .identifier hc hr fun k h => ?_
        rw [Keyword.ofChars?_eq_some_iff.2 h] at hk
        cases hk

/-- Every spelling is the text of a valid lexeme of its kind. -/
theorem exists_of_spelling {k : TokenKind} {cs : List Char} (h : Spelling k cs) :
    ∃ x : Lexeme, x.Valid ∧ x.kind = k ∧ x.chars = cs := by
  cases h with
  | operator o => exact ⟨operator o, valid_operator o, rfl, rfl⟩
  | number h => exact ⟨numeral cs, valid_numeral.2 ⟨_, h⟩, rfl, rfl⟩
  | keyword k =>
      refine ⟨word k.chars, valid_word.2 k.isWord_chars, ?_, rfl⟩
      simp only [kind, TokenKind.ofWord, Keyword.ofChars?_chars]
  | @identifier c r hc hr hk =>
      refine ⟨word (c :: r), valid_word.2 ⟨c, r, rfl, hc, hr⟩, ?_, rfl⟩
      have hnone : Keyword.ofChars? (c :: r) = none :=
        Option.eq_none_iff_forall_not_mem.2 fun k h => hk k (Keyword.ofChars?_eq_some_iff.1 h)
      simp only [kind, TokenKind.ofWord, hnone]
  | @unknown c h => exact ⟨unknown c, valid_unknown.2 h, rfl, rfl⟩

def Begins (x : Lexeme) (c : Char) : Prop :=
  match x with
  | operator o => c ∈ o.chars
  | numeral _ => c.isDigit ∨ c = '.'
  | word _ => isWordStart c
  | unknown _ => IsStray c

theorem Valid.begins {x : Lexeme} (h : x.Valid) : ∃ c r, x.chars = c :: r ∧ x.Begins c := by
  cases x with
  | operator o =>
      obtain ⟨c, r, e⟩ := List.exists_cons_of_ne_nil o.chars_ne_nil
      exact ⟨c, r, e, by rw [Begins, e]; exact List.mem_cons_self⟩
  | numeral cs =>
      obtain ⟨q, hq⟩ := valid_numeral.1 h
      obtain ⟨d, hd, _⟩ := hq.exists_digit
      obtain ⟨c, r, rfl⟩ := List.exists_cons_of_ne_nil (List.ne_nil_of_mem hd)
      exact ⟨c, r, rfl, hq.isDigit_or_point c List.mem_cons_self⟩
  | word cs =>
      obtain ⟨c, r, rfl, hc, _⟩ := valid_word.1 h
      exact ⟨c, r, rfl, hc⟩
  | unknown c => exact ⟨c, [], rfl, valid_unknown.1 h⟩

theorem Valid.ne_nil {x : Lexeme} (h : x.Valid) : x.chars ≠ [] := by
  obtain ⟨c, r, hchars, _⟩ := h.begins
  rw [hchars]
  exact List.cons_ne_nil c r

inductive SameClass : Lexeme → Lexeme → Prop
  | operators (o p) : SameClass (operator o) (operator p)
  | numerals (cs ds) : SameClass (numeral cs) (numeral ds)
  | words (cs ds) : SameClass (word cs) (word ds)
  | unknowns (c d) : SameClass (unknown c) (unknown d)

/-- Only the point begins lexemes of two classes: it may be one by itself, and a numeral may begin with it. -/
theorem sameClass_of_begins {x y : Lexeme} {c : Char} (hx : x.Begins c) (hy : y.Begins c) :
    SameClass x y ∨
      c = '.' ∧ ((∃ cs d, x = numeral cs ∧ y = unknown d) ∨ ∃ d cs, x = unknown d ∧ y = numeral cs) := by
  have hdigit := @isWordPart_of_isDigit c
  have hstart := @isWordStart_of_isDigit c
  have hpart := @isWordPart_of_isWordStart c
  have hoperator (o : Operator) := o.of_mem_chars c
  have hword := @IsStray.notWord c
  have hstray := @IsStray.notOperator c
  have hpoint : isWordStart '.' = false := rfl
  cases x <;> cases y <;> simp only [Begins] at hx hy <;> grind [SameClass]

theorem SameClass.eq_or_grows {x y : Lexeme} (h : SameClass x y) (hx : x.Valid) (hy : y.Valid) {q : List Char}
    (hq : y.chars = x.chars ++ q) : y = x ∧ q = [] ∨ ∃ d r, q = d :: r ∧ x.Grows d := by
  cases h with
  | operators o p =>
      rcases o.eq_or_prefix p ⟨q, hq.symm⟩ with rfl | ⟨e, ho⟩
      · exact .inl ⟨rfl, List.append_right_eq_self.1 hq.symm⟩
      · obtain rfl : q = ['='] := List.append_cancel_left (hq.symm.trans e)
        exact .inr ⟨'=', [], rfl, rfl, ho⟩
  | numerals cs ds =>
      obtain rfl : ds = cs ++ q := hq
      cases q with
      | nil => exact .inl ⟨by rw [List.append_nil], rfl⟩
      | cons d r =>
          obtain ⟨v, hv⟩ := valid_numeral.1 hy
          exact .inr ⟨d, r, rfl, hv.digit_or_first_point⟩
  | words cs ds =>
      obtain rfl : ds = cs ++ q := hq
      obtain ⟨c, r, rfl, _, _⟩ := valid_word.1 hx
      cases q with
      | nil => exact .inl ⟨by rw [List.append_nil], rfl⟩
      | cons d t =>
          obtain ⟨e, u, hu, _, hpart⟩ := valid_word.1 hy
          rw [List.cons_append, List.cons.injEq] at hu
          exact .inr ⟨d, t, rfl, hpart d (hu.2 ▸ by simp)⟩
  | unknowns c d =>
      have hcons : [d] = c :: q := hq
      rw [List.cons.injEq] at hcons
      exact .inl ⟨by rw [hcons.1], hcons.2.symm⟩

/-- A valid lexeme with another one at its front is that one, or the other one would have grown into it. -/
theorem Valid.eq_or_grows {x y : Lexeme} (hx : x.Valid) (hy : y.Valid) {q : List Char}
    (hq : y.chars = x.chars ++ q) : y = x ∧ q = [] ∨ ∃ d r, q = d :: r ∧ x.Grows d := by
  obtain ⟨c, r, hxc, hbx⟩ := hx.begins
  obtain ⟨c', r', hyc, hby⟩ := hy.begins
  obtain rfl : c' = c := by
    rw [hxc, hyc, List.cons_append, List.cons.injEq] at hq
    exact hq.1
  -- the point: by itself it is no numeral, and a numeral that begins with it goes on with a digit
  rcases sameClass_of_begins hbx hby with hclass | ⟨rfl, ⟨cs, d, rfl, rfl⟩ | ⟨d, cs, rfl, rfl⟩⟩
  · exact hclass.eq_or_grows hx hy hq
  · obtain rfl : cs = '.' :: r := hxc
    have hcons : [d] = '.' :: (r ++ q) := hq
    rw [List.cons.injEq] at hcons
    obtain ⟨rfl, _⟩ := List.append_eq_nil_iff.1 hcons.2.symm
    obtain ⟨v, hv⟩ := valid_numeral.1 hx
    exact absurd hv not_numeral_point
  · obtain rfl : d = '.' := (List.cons.inj hxc).1
    obtain rfl : cs = '.' :: q := hq
    obtain ⟨v, hv⟩ := valid_numeral.1 hy
    cases q with
    | nil => exact absurd hv not_numeral_point
    | cons e t =>
        have hpoint : Numeral (['.'] ++ e :: t) v := hv
        have he := hpoint.digit_or_first_point
        exact .inr ⟨e, t, rfl, rfl, he.resolve_right fun h => h.2 List.mem_cons_self⟩

theorem Valid.isBlank_eq_false {x : Lexeme} (h : x.Valid) : ∀ c ∈ x.chars, isBlank c = false := by
  intro c hc
  cases x with
  | operator o => exact (o.of_mem_chars c hc).1
  | numeral cs =>
      obtain ⟨q, hq⟩ := valid_numeral.1 h
      rcases hq.isDigit_or_point c hc with hd | rfl
      · exact isBlank_of_isWordPart (isWordPart_of_isDigit hd)
      · rfl
  | word cs =>
      obtain ⟨d, r, rfl, hd, hr⟩ := valid_word.1 h
      rcases List.mem_cons.1 hc with rfl | hc
      · exact isBlank_of_isWordPart (isWordPart_of_isWordStart hd)
      · exact isBlank_of_isWordPart (hr c hc)
  | unknown d =>
      rw [List.mem_singleton.1 hc]
      exact (valid_unknown.1 h).notBlank

theorem Valid.eq_of_chars {x y : Lexeme} (hx : x.Valid) (hy : y.Valid) (h : x.chars = y.chars) : x = y := by
  rcases hx.eq_or_grows hy (q := []) (by rw [h, List.append_nil]) with ⟨e, _⟩ | ⟨d, r, e, _⟩
  · exact e.symm
  · cases e

/-- No lexeme at the front of a text is longer than one which what comes behind it does not make grow. -/
theorem Valid.length_le {x y : Lexeme} {rest rest' : List Char} (hx : x.Valid) (hy : y.Valid)
    (hstop : ∀ d ∈ rest.head?, ¬ x.Grows d) (h : x.chars ++ rest = y.chars ++ rest') :
    y.chars.length ≤ x.chars.length := by
  rcases List.append_eq_append_iff.1 h with ⟨q, hchars, hrest⟩ | ⟨q, hchars, hrest⟩
  · rcases hx.eq_or_grows hy hchars with ⟨rfl, _⟩ | ⟨d, t, rfl, hgrow⟩
    · exact Nat.le_refl _
    · exact absurd hgrow (hstop d (by rw [hrest]; rfl))
  · rw [hchars, List.length_append]
    exact Nat.le_add_right _ _

end Lexeme
end ExprLexer
