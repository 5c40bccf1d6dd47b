import Mathlib.Algebra.Order.Field.Rat
import Mathlib.Data.List.TakeWhile
import Mathlib.Data.Nat.Digits.Defs
import Mathlib.Tactic.FieldSimp
import Mathlib.Tactic.Ring
import ExprLexer.Number.Literal
import ExprLexer.Proofs.Rounding

/-!
# Values of numerals

A numeral stands for a rational number. It has a binary64 value unless that number is too large, where the
limit is exact: `numeralValue?_eq_none_iff`.
-/
namespace ExprLexer

/-- The number that decimal digits write, the most significant first. -/
def decimalValue (cs : List Char) : ℕ := Nat.ofDigits 10 (cs.map fun c => c.toNat - '0'.toNat).reverse

/-- A numeral with the number that it stands for. -/
inductive Numeral : List Char → ℚ → Prop
  | whole {ds} (hd : ∀ c ∈ ds, c.isDigit) (hne : ds ≠ []) : Numeral ds (decimalValue ds)
  | point {ds es} (hd : ∀ c ∈ ds, c.isDigit) (he : ∀ c ∈ es, c.isDigit) (hne : ds ≠ [] ∨ es ≠ []) :
      Numeral (ds ++ '.' :: es) (decimalValue ds + decimalValue es / 10 ^ es.length)

theorem ofDigits_eq_decimalValue (cs : List Char) : ofDigits cs = decimalValue cs := by
  rw [decimalValue, Nat.ofDigits_eq_foldr, List.foldr_reverse, List.foldl_map, ofDigits]
  simp only [Nat.cast_id, Nat.add_comm]

theorem decimalValue_append (cs ds : List Char) :
    decimalValue (cs ++ ds) = decimalValue ds + 10 ^ ds.length * decimalValue cs := by
  rw [decimalValue, List.map_append, List.reverse_append, Nat.ofDigits_append, List.length_reverse, List.length_map]
  rfl

theorem takeWhile_digits_point {ds : List Char} (hd : ∀ c ∈ ds, c.isDigit) (es : List Char) :
    (ds ++ '.' :: es).takeWhile Char.isDigit = ds := by
  rw [List.takeWhile_append_of_pos hd, List.takeWhile_cons_of_neg (by decide), List.append_nil]

theorem dropWhile_digits_point {ds : List Char} (hd : ∀ c ∈ ds, c.isDigit) (es : List Char) :
    (ds ++ '.' :: es).dropWhile Char.isDigit = '.' :: es := by
  rw [List.dropWhile_append_of_pos hd, List.dropWhile_cons_of_neg (by decide)]

theorem isNumeral_iff {cs : List Char} : isNumeral cs ↔ ∃ q, Numeral cs q := by
  constructor
  · intro h
    have happend := @List.takeWhile_append_dropWhile _ Char.isDigit cs
    have hd : ∀ c ∈ cs.takeWhile Char.isDigit, c.isDigit := fun c hc => List.mem_takeWhile_imp hc
    unfold isNumeral at h
    split at h
    · next e =>
      rw [e, List.append_nil] at happend
      rw [happend] at h hd
      exact ⟨_, .whole hd (by simpa using h)⟩
    · next c es e =>
      simp only [Bool.and_eq_true, beq_iff_eq, List.all_eq_true] at h
      obtain ⟨⟨rfl, he⟩, hne⟩ := h
      rw [← happend, e]
      exact ⟨_, .point hd he (by simpa using hne)⟩
  · rintro ⟨q, h⟩
    cases h with
    | whole hd hne =>
        have hdrop := List.dropWhile_eq_nil_iff.2 hd
        have htake := List.takeWhile_eq_self_iff.2 hd
        simp [isNumeral, hdrop, htake, hne]
    | point hd he hne =>
        have hall := List.all_eq_true.2 he
        simp only [isNumeral, takeWhile_digits_point hd, dropWhile_digits_point hd, hall]
        simpa using hne

theorem Numeral.ofText? {cs : List Char} {q : ℚ} (h : Numeral cs q) :
    ∃ d, Decimal.ofText? cs = some d ∧ q = d.digits / 10 ^ d.places := by
  have hshape : isNumeral cs := isNumeral_iff.2 ⟨q, h⟩
  rw [Decimal.ofText?, if_pos hshape]
  refine ⟨_, rfl, ?_⟩
  dsimp only
  rw [ofDigits_eq_decimalValue]
  cases h with
  | whole hd hne =>
      rw [List.filter_eq_self.2 hd, List.dropWhile_eq_nil_iff.2 hd]
      simp
  | @point ds es hd he hne =>
      have hfilter : (ds ++ '.' :: es).filter Char.isDigit = ds ++ es := by
        rw [List.filter_append, List.filter_eq_self.2 hd, List.filter_cons_of_neg (by decide),
          List.filter_eq_self.2 he]
      rw [hfilter, dropWhile_digits_point hd, List.tail_cons, decimalValue_append]
      push_cast
      field_simp
      ring

theorem Numeral.exists_fraction {cs : List Char} {q : ℚ} (h : Numeral cs q) :
    ∃ n d : ℕ, 0 < d ∧ q = n / d ∧ numeralValue? cs = Binary64.nearest? n d := by
  obtain ⟨d, hd, rfl⟩ := h.ofText?
  refine ⟨d.digits, Nat.pow 10 d.places, Nat.pow_pos (by decide), ?_, ?_⟩
  · rw [Nat.pow_eq, Nat.cast_pow, Nat.cast_ofNat]
  · rw [numeralValue?, hd, Option.bind_some, Decimal.toBinary64?]

/-- The least number that rounds beyond the finite binary64 numbers: the middle between the greatest of them
and `2 ^ 1024`. -/
def finiteLimit : ℚ := 2 ^ 1024 - 2 ^ 970

theorem numeralValue?_eq_none_iff {cs : List Char} {q : ℚ} (h : Numeral cs q) :
    numeralValue? cs = none ↔ finiteLimit ≤ q := by
  obtain ⟨n, d, hd, rfl, hvalue⟩ := h.exists_fraction
  have hcast : finiteLimit = ((2 ^ 1024 - 2 ^ 970 : ℕ) : ℚ) := by
    rw [finiteLimit, Nat.cast_sub (Nat.pow_le_pow_right (by decide) (by decide))]
    simp only [Nat.cast_pow, Nat.cast_ofNat]
  rw [hvalue, Binary64.nearest?_eq_none_iff hd, le_div_iff₀ (Nat.cast_pos.2 hd), hcast, ← Nat.cast_mul,
    Nat.cast_le]

def Oversized (cs : List Char) : Prop := ∃ q, Numeral cs q ∧ finiteLimit ≤ q

theorem Numeral.value_eq_none_iff {cs : List Char} {q : ℚ} (h : Numeral cs q) :
    numeralValue? cs = none ↔ Oversized cs := by
  constructor
  · intro hnone
    exact ⟨q, h, (numeralValue?_eq_none_iff h).1 hnone⟩
  · rintro ⟨q', h', hlimit⟩
    exact (numeralValue?_eq_none_iff h').2 hlimit

end ExprLexer
