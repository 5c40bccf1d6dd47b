import ExprLexer.Proofs.Grammar

/-!
# Cutting off lexemes

The lexeme that is cut off a text is the valid one which the text behind it does not make grow.
-/
namespace ExprLexer
namespace Lexeme

theorem cutNumeral_spec {c : Char} {r : List Char} (h : startsNumeral c r) :
    (numeral (cutNumeral (c :: r)).1).Valid ∧
      ∀ d ∈ (cutNumeral (c :: r)).2.head?, ¬ (numeral (cutNumeral (c :: r)).1).Grows d := by
  have happend := @List.takeWhile_append_dropWhile _ Char.isDigit (c :: r)
  have hwhole : ∀ d ∈ (c :: r).takeWhile Char.isDigit, d.isDigit := fun d hd => List.mem_takeWhile_imp hd
  have hpoint : '.' ∉ (c :: r).takeWhile Char.isDigit := fun hp => absurd (hwhole '.' hp) (by decide)
  have hstop := List.head?_dropWhile_not Char.isDigit (c :: r)
  have hne := cutNumeral_ne_nil h
  unfold cutNumeral at hne ⊢
  split
  · next e =>
    rw [e] at hne
    exact ⟨valid_numeral.2 ⟨_, .whole hwhole hne⟩, nofun⟩
  · next d t e =>
    rw [e] at hstop hne happend
    by_cases hd : d = '.'
    · subst hd
      have hplaces : ∀ d ∈ t.takeWhile Char.isDigit, d.isDigit := fun d hd => List.mem_takeWhile_imp hd
      simp only [if_true] at hne ⊢
      constructor
      · refine valid_numeral.2 ⟨_, .point hwhole hplaces ?_⟩
        by_contra hnone
        rw [not_or, not_not, not_not] at hnone
        rw [hnone.1, List.nil_append, List.cons.injEq] at happend
        obtain ⟨rfl, rfl⟩ := happend
        cases t with
        | nil => cases h
        | cons d t =>
            have hd : d.isDigit := h
            simp [hd] at hnone
      · intro d hd hgrow
        have hend := List.head?_dropWhile_not Char.isDigit t
        rw [Option.mem_def.1 hd] at hend
        rcases hgrow with hgrow | hgrow
        · exact absurd hgrow (Bool.eq_false_iff.1 hend)
        · exact hgrow.2 (List.mem_append_right _ List.mem_cons_self)
    · simp only [hd, if_false] at hne ⊢
      refine ⟨valid_numeral.2 ⟨_, .whole hwhole hne⟩, ?_⟩
      intro d' hd'
      obtain rfl : d = d' := Option.some.inj hd'
      simp_all [Grows]

theorem cut_valid {c : Char} (r : List Char) (hc : isBlank c = false) : (cut c r).1.Valid := by
  unfold cut
  split
  · exact valid_operator _
  · next hnone =>
    split
    · next h => exact (cutNumeral_spec h).1
    · next hnum =>
      split
      · next hword =>
        exact valid_word.2 ⟨c, _, rfl, hword, fun d hd => List.mem_takeWhile_imp hd⟩
      · next hword =>
        refine valid_unknown.2 ⟨hc, ?_, ?_⟩
        · simp only [startsNumeral, isWordStart, Bool.or_eq_true, not_or, Bool.not_eq_true] at hnum hword
          simp only [isWordPart, Char.isAlphanum, hnum.1, hword.1, hword.2, Bool.or_self]
        · intro o ho
          have hsome := (o.of_mem_chars c ho).2.2.2
          rw [Operator.leading?, Option.or_eq_none_iff] at hnone
          rw [hnone.2] at hsome
          cases hsome

theorem not_grows_operator {c : Char} {r : List Char} {o : Operator} (h : Operator.leading? c r = some o) :
    ∀ d ∈ ((c :: r).drop o.chars.length).head?, ¬ (operator o).Grows d := by
  rintro d hd ⟨rfl, ho⟩
  obtain ⟨rest, hrest⟩ := Operator.chars_prefix_of_leading? h
  rw [← hrest, List.drop_left] at hd
  obtain ⟨t, rfl⟩ := List.head?_eq_some_iff.1 hd
  simp only [List.mem_cons, List.not_mem_nil, or_false] at ho
  rcases ho with rfl | rfl | rfl | rfl
  all_goals
    obtain ⟨rfl, rfl⟩ := List.cons.inj hrest
    cases h

theorem not_grows_cut (c : Char) (r : List Char) : ∀ d ∈ (cut c r).2.head?, ¬ (cut c r).1.Grows d := by
  unfold cut
  split
  · next o h => exact not_grows_operator h
  · split
    · next h => exact (cutNumeral_spec h).2
    · next hnum =>
      split
      · intro d hd hgrow
        have hend := List.head?_dropWhile_not isWordPart r
        rw [Option.mem_def.1 hd] at hend
        exact absurd hgrow (Bool.eq_false_iff.1 hend)
      · rintro d hd ⟨rfl, hdigit⟩
        rw [Option.mem_def] at hd
        dsimp only at hd
        simp [startsNumeral, hd, hdigit] at hnum

/-- A lexeme is cut off exactly when it is valid and what comes behind it does not make it grow. -/
theorem cut_eq_iff {c : Char} {r rest : List Char} {x : Lexeme} (hc : isBlank c = false) :
    cut c r = (x, rest) ↔
      c :: r = x.chars ++ rest ∧ x.Valid ∧ ∀ d ∈ rest.head?, ¬ x.Grows d := by
  have happend := chars_cut_append c r
  have hvalid := cut_valid r hc
  have hstop := not_grows_cut c r
  constructor
  · intro h
    rw [h] at happend hvalid hstop
    exact ⟨happend.symm, hvalid, hstop⟩
  · rintro ⟨happend', hvalid', hstop'⟩
    have h := happend.trans happend'
    have hle := hvalid'.length_le hvalid hstop' h.symm
    have hge := hvalid.length_le hvalid' hstop h
    have hlength := Nat.le_antisymm hle hge
    obtain ⟨hchars, hrest⟩ := List.append_inj h hlength
    exact Prod.ext (hvalid.eq_of_chars hvalid' hchars) hrest

end Lexeme
end ExprLexer
