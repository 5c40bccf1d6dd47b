import Mathlib.Algebra.Order.Ring.Abs
import Mathlib.Data.Nat.Dist
import ExprLexer.Proofs.Numeral

/-!
# The nearest binary64 number

Rounding a fraction gives the finite number that lies nearest to it, and of two equally near ones the one
with the even significand; no other number is both: `nearest?_eq_some_iff`. Distances are compared in units
of 2^-1074, where a number is its significand shifted by its scale.
-/
namespace ExprLexer
namespace Binary64

def isNegative (x : Binary64) : Bool := 2048 * fractionCount ≤ x.bits.toNat

/-- The number that a finite bit pattern stands for. -/
def value (x : Binary64) : ℚ := (if x.isNegative then -1 else 1) * (x.units / 2 ^ 1074)

/-- The fraction, with the leading place that only subnormal numbers lack. -/
def significand (x : Binary64) : Nat := if x.exponent = 0 then x.fraction else fractionCount + x.fraction

/-- How far the significand is shifted; the subnormal numbers share the scale of the least normal ones. -/
def scale (x : Binary64) : Nat := x.exponent - 1

/-- The finite number nearest to `q`, with an even significand if another number is as near. A zero has no
minus sign. -/
structure IsNearest (x : Binary64) (q : ℚ) : Prop where
  finite : x.isFinite
  plus : x.isNegative = false
  nearest : ∀ y : Binary64, y.isFinite → |x.value - q| ≤ |y.value - q|
  even : ∀ y : Binary64, y.isFinite → y.value ≠ x.value → |y.value - q| = |x.value - q| →
    x.significand % 2 = 0

theorem units_eq (x : Binary64) : x.units = x.significand * 2 ^ x.scale := by
  unfold units significand scale
  split
  · next h => rw [h, Nat.zero_sub, Nat.pow_zero, Nat.mul_one]
  · rw [Nat.shiftLeft_eq]

/-- A significand that fills its 53 places, or has the least scale. -/
structure Normal (m e : Nat) : Prop where
  lt : m < 2 ^ 53
  full : e = 0 ∨ 2 ^ 52 ≤ m

theorem normal (x : Binary64) : Normal x.significand x.scale := by
  have hfraction : x.fraction < 2 ^ 52 := Nat.mod_lt _ (by decide)
  unfold significand scale
  split
  · next h => exact ⟨by omega, .inl (by omega)⟩
  · exact ⟨by simp only [fractionCount]; omega, .inr (Nat.le_add_right _ _)⟩

theorem Normal.scale_le {m e m' e' : Nat} (h : Normal m e) (h' : Normal m' e')
    (heq : m * 2 ^ e = m' * 2 ^ e') : e' ≤ e := by
  by_contra hlt
  obtain ⟨k, rfl⟩ : ∃ k, e' = e + (k + 1) := ⟨e' - e - 1, by omega⟩
  have hfull : 2 ^ 52 ≤ m' := h'.full.resolve_left (by omega)
  have hm : m = m' * 2 ^ (k + 1) := by
    apply Nat.eq_of_mul_eq_mul_right (Nat.two_pow_pos e)
    rw [heq, Nat.add_comm, Nat.pow_add, Nat.mul_assoc]
  have htwo : m' * 2 ≤ m' * 2 ^ (k + 1) := Nat.mul_le_mul_left m' (Nat.le_self_pow (by omega) 2)
  have := h.lt
  omega

theorem Normal.unique {m e m' e' : Nat} (h : Normal m e) (h' : Normal m' e')
    (heq : m * 2 ^ e = m' * 2 ^ e') : m = m' ∧ e = e' := by
  obtain rfl : e = e' := Nat.le_antisymm (h'.scale_le h heq.symm) (h.scale_le h' heq)
  exact ⟨Nat.eq_of_mul_eq_mul_right (Nat.two_pow_pos e) heq, rfl⟩

theorem Normal.eq_of_pattern {m e m' e' : Nat} (h : Normal m e) (h' : Normal m' e')
    (heq : e * fractionCount + m = e' * fractionCount + m') : m = m' ∧ e = e' := by
  obtain ⟨hlt, hfull⟩ := h
  obtain ⟨hlt', hfull'⟩ := h'
  simp only [fractionCount] at heq
  omega

theorem toNat_bits {x : Binary64} (h : x.isNegative = false) :
    x.bits.toNat = x.scale * fractionCount + x.significand := by
  have hsmall : x.bits.toNat / fractionCount < 2048 := by
    simp only [isNegative, decide_eq_false_iff_not, not_le] at h
    exact (Nat.div_lt_iff_lt_mul (by decide)).2 h
  have hdiv := Nat.div_add_mod x.bits.toNat fractionCount
  unfold scale significand exponent fraction
  rw [Nat.mod_eq_of_lt hsmall]
  split
  · next h0 =>
    rw [h0] at hdiv ⊢
    omega
  · next h0 =>
    obtain ⟨k, hk⟩ := Nat.exists_eq_succ_of_ne_zero h0
    rw [hk] at hdiv ⊢
    rw [Nat.succ_sub_one]
    calc
      x.bits.toNat = fractionCount * (k + 1) + x.bits.toNat % fractionCount := hdiv.symm
      _ = k * fractionCount + (fractionCount + x.bits.toNat % fractionCount) := by ring

theorem eq_of_units_eq {x y : Binary64} (hx : x.isNegative = false) (hy : y.isNegative = false)
    (h : x.units = y.units) : x = y := by
  rw [units_eq, units_eq] at h
  obtain ⟨hsignificand, hscale⟩ := x.normal.unique y.normal h
  have hbits : x.bits.toNat = y.bits.toNat := by rw [toNat_bits hx, toNat_bits hy, hsignificand, hscale]
  cases x
  cases y
  exact congrArg Binary64.mk (UInt64.toNat_inj.1 hbits)

/-- On the grid of the numbers with scale `e` lie all but the smaller ones of lower scale. -/
theorem units_on_grid (x : Binary64) (e : Nat) :
    (∃ k, x.units = k * 2 ^ e) ∨ 0 < e ∧ x.units < 2 ^ 52 * 2 ^ e := by
  rw [units_eq]
  rcases Nat.le_total e x.scale with h | h
  · refine .inl ⟨x.significand * 2 ^ (x.scale - e), ?_⟩
    rw [Nat.mul_assoc, ← Nat.pow_add, Nat.sub_add_cancel h]
  · rcases Nat.eq_or_lt_of_le h with rfl | h
    · exact .inl ⟨_, rfl⟩
    · refine .inr ⟨by omega, ?_⟩
      calc
        x.significand * 2 ^ x.scale < 2 ^ 53 * 2 ^ x.scale :=
          Nat.mul_lt_mul_of_pos_right x.normal.lt (Nat.two_pow_pos _)
        _ = 2 ^ 52 * 2 ^ (x.scale + 1) := by ring
        _ ≤ 2 ^ 52 * 2 ^ e := Nat.mul_le_mul_left _ (Nat.pow_le_pow_right (by decide) h)

/-! ## The rounded quotient -/

/-- Rounding goes down or up, whichever is no further. -/
theorem divToEven_cases (n d : Nat) :
    divToEven n d = n / d ∧ (2 * (n % d) < d ∨ 2 * (n % d) = d ∧ n / d % 2 = 0) ∨
      divToEven n d = n / d + 1 ∧ (d < 2 * (n % d) ∨ 2 * (n % d) = d ∧ n / d % 2 = 1) := by
  unfold divToEven
  dsimp only
  split
  · next h =>
    simp only [Bool.or_eq_true, decide_eq_true_eq, Bool.and_eq_true, beq_iff_eq] at h
    exact .inr ⟨rfl, h⟩
  · next h =>
    simp only [Bool.or_eq_true, decide_eq_true_eq, Bool.and_eq_true, beq_iff_eq] at h
    exact .inl ⟨rfl, by omega⟩

theorem mul_le_or_add_le (k q d : Nat) : k * d ≤ q * d ∨ q * d + d ≤ k * d := by
  rcases Nat.lt_or_ge q k with h | h
  · exact .inr (Nat.succ_mul q d ▸ Nat.mul_le_mul_right d h)
  · exact .inl (Nat.mul_le_mul_right d h)

theorem dist_divToEven_le {n d : Nat} (hd : 0 < d) (k : Nat) :
    Nat.dist n (divToEven n d * d) ≤ Nat.dist n (k * d) := by
  have hdiv := Nat.div_add_mod' n d
  have hlt := Nat.mod_lt n hd
  have hside := mul_le_or_add_le k (n / d) d
  unfold Nat.dist
  rcases divToEven_cases n d with ⟨h, hr⟩ | ⟨h, hr⟩
  · rw [h]
    omega
  · rw [h, Nat.succ_mul]
    omega

/-- A multiple as near as the rounded one is its neighbour, and the rounded one is even. -/
theorem divToEven_of_tie {n d k : Nat} (hd : 0 < d) (hk : k ≠ divToEven n d)
    (h : Nat.dist n (k * d) = Nat.dist n (divToEven n d * d)) :
    divToEven n d % 2 = 0 ∧ (k = divToEven n d + 1 ∨ divToEven n d = k + 1) := by
  have hdiv := Nat.div_add_mod' n d
  have hlt := Nat.mod_lt n hd
  unfold Nat.dist at h
  rcases divToEven_cases n d with ⟨hm, hr⟩ | ⟨hm, hr⟩
  · rw [hm] at h hk ⊢
    rcases Nat.lt_trichotomy k (n / d) with hlow | heq | hhigh
    · have := Nat.mul_le_mul_right d hlow
      rw [Nat.succ_mul] at this
      omega
    · exact absurd heq hk
    · rcases Nat.eq_or_lt_of_le hhigh with rfl | hhigh
      · rw [Nat.succ_mul] at h
        exact ⟨by omega, .inl rfl⟩
      · have := Nat.mul_le_mul_right d hhigh
        rw [Nat.succ_mul, Nat.succ_mul] at this
        omega
  · rw [hm] at h hk ⊢
    rw [Nat.succ_mul] at h
    rcases Nat.lt_trichotomy k (n / d + 1) with hlow | heq | hhigh
    · rcases Nat.eq_or_lt_of_le (Nat.le_of_lt_succ hlow) with rfl | hlow
      · exact ⟨by omega, .inr rfl⟩
      · have := Nat.mul_le_mul_right d hlow
        rw [Nat.succ_mul] at this
        omega
    · exact absurd heq hk
    · have := Nat.mul_le_mul_right d hhigh
      rw [Nat.succ_mul, Nat.succ_mul] at this
      omega

/-- Between two multiples that are equally near lies twice the number. -/
theorem two_mul_of_tie {n d k m : Nat} (hd : 0 < d) (hnext : k = m + 1 ∨ m = k + 1)
    (h : Nat.dist n (k * d) = Nat.dist n (m * d)) : 2 * n = (m + k) * d := by
  unfold Nat.dist at h
  rcases hnext with rfl | rfl
  · simp only [Nat.add_mul, Nat.one_mul] at h ⊢
    omega
  · simp only [Nat.add_mul, Nat.one_mul] at h ⊢
    omega

/-- A number whose magnitude is the quotient `s / d` rounded at scale `e`, where the quotient has its 53 places
or the least scale. -/
structure Rounded (s d e : Nat) (x : Binary64) : Prop where
  high : s < 2 ^ 53 * (d * 2 ^ e)
  low : e = 0 ∨ 2 ^ 52 * (d * 2 ^ e) ≤ s
  finite : x.isFinite
  plus : x.isNegative = false
  units : x.units = divToEven s (d * 2 ^ e) * 2 ^ e
  parity : x.significand % 2 = divToEven s (d * 2 ^ e) % 2

/-- A significand that rounding carried to 54 places makes the number with the next scale. -/
theorem of_pattern {m e : Nat} (hm : m ≤ 2 ^ 53) (hfull : e = 0 ∨ 2 ^ 52 ≤ m)
    (hsmall : e * fractionCount + m < 2047 * fractionCount) :
    let x : Binary64 := ⟨(e * fractionCount + m).toUInt64⟩
    x.isFinite ∧ x.isNegative = false ∧ x.units = m * 2 ^ e ∧ x.significand % 2 = m % 2 := by
  intro x
  have hbits : x.bits.toNat = e * fractionCount + m := by
    apply UInt64.toNat_ofNat_of_lt'
    exact Nat.lt_trans hsmall (by decide)
  have hplus : x.isNegative = false := by
    rw [isNegative, hbits, decide_eq_false_iff_not]
    simp only [fractionCount] at hsmall ⊢
    omega
  have hfinite : x.isFinite := by
    rw [isFinite, exponent, hbits, bne_iff_ne]
    simp only [fractionCount] at hsmall ⊢
    omega
  have hpattern := toNat_bits hplus
  rw [hbits] at hpattern
  refine ⟨hfinite, hplus, ?_, ?_⟩
  · rw [units_eq]
    rcases Nat.lt_or_eq_of_le hm with hlt | rfl
    · obtain ⟨hsignificand, hscale⟩ := x.normal.eq_of_pattern ⟨hlt, hfull⟩ hpattern.symm
      rw [hsignificand, hscale]
    · have hcarried : Normal (2 ^ 52) (e + 1) := ⟨by decide, .inr (Nat.le_refl _)⟩
      have hnext : x.scale * fractionCount + x.significand = (e + 1) * fractionCount + 2 ^ 52 := by
        rw [← hpattern, Nat.succ_mul, Nat.add_assoc]
        rfl
      obtain ⟨hsignificand, hscale⟩ := x.normal.eq_of_pattern hcarried hnext
      rw [hsignificand, hscale]
      ring
  · simp only [fractionCount] at hpattern
    omega

theorem exists_rounded {n d : Nat} (hd : 0 < d) {x : Binary64} (h : nearest? n d = some x) :
    ∃ e, Rounded (n <<< 1074) d e x := by
  unfold nearest? at h
  generalize n <<< 1074 = s at *
  obtain ⟨hhigh, hlow⟩ := dropped_places (s := s) hd rfl
  simp only [Nat.shiftLeft_eq] at h
  generalize (s / d).log2 - 52 = e at *
  have hD : 0 < d * 2 ^ e := Nat.mul_pos hd (Nat.two_pow_pos e)
  have hreach := le_divToEven_iff (n := s) (m := 2 ^ 52) hD (by decide) (by decide)
  have hfull : e = 0 ∨ 2 ^ 52 ≤ divToEven s (d * 2 ^ e) := by omega
  split at h
  · next hsmall =>
    obtain ⟨hfinite, hplus, hunits, hparity⟩ := of_pattern (divToEven_le hD hhigh) hfull hsmall
    cases h
    exact ⟨e, hhigh, hlow, hfinite, hplus, hunits, hparity⟩
  · cases h

namespace Rounded

variable {s d e : Nat} {x : Binary64}

theorem dist_units_le (hd : 0 < d) (h : Rounded s d e x) (y : Binary64) :
    Nat.dist s (x.units * d) ≤ Nat.dist s (y.units * d) ∧
      (y.units ≠ x.units → Nat.dist s (y.units * d) = Nat.dist s (x.units * d) →
        x.significand % 2 = 0 ∧ y.significand % 2 = 1) := by
  have hD : 0 < d * 2 ^ e := Nat.mul_pos hd (Nat.two_pow_pos e)
  have hscaled (k : Nat) : k * 2 ^ e * d = k * (d * 2 ^ e) := by ac_rfl
  rw [h.units, h.parity, hscaled]
  rcases y.units_on_grid e with ⟨k, hk⟩ | ⟨he, hbelow⟩
  · rw [hk, hscaled]
    refine ⟨dist_divToEven_le hD k, ?_⟩
    intro hne htie
    have hk' : k ≠ divToEven s (d * 2 ^ e) := fun hk' => hne (by rw [hk'])
    obtain ⟨heven, hnext⟩ := divToEven_of_tie hD hk' htie
    have hsum := two_mul_of_tie hD hnext htie
    have hupper : divToEven s (d * 2 ^ e) + k < 2 ^ 54 := by
      have hhigh := h.high
      exact Nat.lt_of_mul_lt_mul_right (a := d * 2 ^ e) (by omega)
    have hlower : e = 0 ∨ 2 ^ 53 ≤ divToEven s (d * 2 ^ e) + k := by
      refine h.low.imp_right fun hlow => ?_
      exact Nat.le_of_mul_le_mul_right (by omega) hD
    have hnormal : Normal k e := ⟨by omega, by omega⟩
    rw [units_eq] at hk
    rw [(y.normal.unique hnormal hk).1]
    omega
  · have hbelow' : y.units * d < 2 ^ 52 * (d * 2 ^ e) := by
      rw [← hscaled]
      exact Nat.mul_lt_mul_of_pos_right hbelow hd
    have hlow := h.low.resolve_left (Nat.ne_of_gt he)
    have hle := dist_divToEven_le (n := s) hD (2 ^ 52)
    unfold Nat.dist at *
    constructor
    · omega
    · intro _ htie
      omega

end Rounded

/-! ## Distances between numbers -/

theorem value_eq {x : Binary64} (h : x.isNegative = false) : x.value = x.units / 2 ^ 1074 := by
  simp only [value, h, Bool.false_eq_true, if_false, one_mul]

theorem cast_dist (a b : Nat) : (Nat.dist a b : ℚ) = |(b : ℚ) - a| := by
  rcases Nat.le_total a b with h | h
  · rw [Nat.dist_eq_sub_of_le h, Nat.cast_sub h, abs_of_nonneg (sub_nonneg.2 (Nat.cast_le.2 h))]
  · rw [Nat.dist_eq_sub_of_le_right h, Nat.cast_sub h, abs_sub_comm,
      abs_of_nonneg (sub_nonneg.2 (Nat.cast_le.2 h))]

theorem abs_scaled_sub (u n w : Nat) {d : Nat} (hd : 0 < d) :
    |(u : ℚ) / 2 ^ w - n / d| = Nat.dist (n * 2 ^ w) (u * d) / (2 ^ w * d) := by
  have hd' : (0 : ℚ) < d := Nat.cast_pos.2 hd
  have hscale : (0 : ℚ) < 2 ^ w * d := by positivity
  have hscaled : ((u * d : ℕ) : ℚ) - (n * 2 ^ w : ℕ) = 2 ^ w * d * (u / 2 ^ w - n / d) := by
    push_cast
    field_simp
  rw [cast_dist, hscaled, abs_mul, abs_of_pos hscale, mul_div_cancel_left₀ _ hscale.ne']

/-- The distance to a fraction, in units of 2^-1074 divided by its denominator. -/
theorem abs_value_sub {n d : Nat} (hd : 0 < d) {x : Binary64} (hx : x.isNegative = false) :
    |x.value - n / d| = Nat.dist (n <<< 1074) (x.units * d) / (2 ^ 1074 * d) := by
  rw [value_eq hx, Nat.shiftLeft_eq, abs_scaled_sub _ _ _ hd]

theorem abs_value_sub_le_iff {n d : Nat} (hd : 0 < d) {x y : Binary64} (hx : x.isNegative = false)
    (hy : y.isNegative = false) : |x.value - n / d| ≤ |y.value - n / d| ↔
      Nat.dist (n <<< 1074) (x.units * d) ≤ Nat.dist (n <<< 1074) (y.units * d) := by
  have hpos : (0 : ℚ) < 2 ^ 1074 * d := mul_pos (by positivity) (Nat.cast_pos.2 hd)
  rw [abs_value_sub hd hx, abs_value_sub hd hy, div_le_div_iff_of_pos_right hpos, Nat.cast_le]

theorem value_zero : value ⟨0⟩ = 0 := by
  have hunits : units ⟨0⟩ = 0 := by decide
  rw [value_eq (by decide), hunits, Nat.cast_zero, zero_div]

/-- A number with a minus sign is no nearer to `q` than the zero without one. -/
theorem exists_plus {q : ℚ} (hq : 0 ≤ q) {y : Binary64} (hy : y.isFinite) :
    ∃ z : Binary64, z.isFinite ∧ z.isNegative = false ∧ |z.value - q| ≤ |y.value - q| ∧
      (|z.value - q| = |y.value - q| → z.value = y.value) := by
  cases h : y.isNegative with
  | false => exact ⟨y, hy, h, le_refl _, fun _ => rfl⟩
  | true =>
      have hvalue : y.value ≤ 0 := by
        simp only [value, h, if_true, neg_one_mul, neg_nonpos]
        exact div_nonneg (Nat.cast_nonneg _) (by positivity)
      have hdist : |y.value - q| = q - y.value := by
        rw [abs_sub_comm, abs_of_nonneg (by linarith)]
      refine ⟨⟨0⟩, by decide, by decide, ?_, ?_⟩
      · rw [value_zero, hdist, zero_sub, abs_neg, abs_of_nonneg hq]
        linarith
      · rw [value_zero, hdist, zero_sub, abs_neg, abs_of_nonneg hq]
        intro htie
        linarith

theorem isNearest_of_nearest? {n d : Nat} (hd : 0 < d) {x : Binary64} (h : nearest? n d = some x) :
    x.IsNearest (n / d) := by
  obtain ⟨e, hround⟩ := exists_rounded hd h
  have hq : (0 : ℚ) ≤ n / d := div_nonneg (Nat.cast_nonneg _) (Nat.cast_nonneg _)
  have hle (z : Binary64) (hz : z.isNegative = false) : |x.value - n / d| ≤ |z.value - n / d| :=
    (abs_value_sub_le_iff hd hround.plus hz).2 (hround.dist_units_le hd z).1
  refine ⟨hround.finite, hround.plus, ?_, ?_⟩
  · intro y hy
    obtain ⟨z, _, hplus, hnearer, _⟩ := exists_plus hq hy
    exact le_trans (hle z hplus) hnearer
  · intro y hy hne htie
    obtain ⟨z, _, hplus, hnearer, heq⟩ := exists_plus hq hy
    have hz : |z.value - n / d| = |x.value - n / d| :=
      le_antisymm (le_trans hnearer htie.le) (hle z hplus)
    have hunits : z.units ≠ x.units := by
      intro hunits
      rw [eq_of_units_eq hplus hround.plus hunits] at heq
      exact hne (heq htie.symm).symm
    refine ((hround.dist_units_le hd z).2 hunits (Nat.le_antisymm ?_ ?_)).1
    · exact (abs_value_sub_le_iff hd hplus hround.plus).1 hz.le
    · exact (abs_value_sub_le_iff hd hround.plus hplus).1 hz.ge

/-- No other number is nearest, since of two neighbours one has an odd significand. -/
theorem IsNearest.eq {n d : Nat} (hd : 0 < d) {x y : Binary64} (h : nearest? n d = some x)
    (hy : y.IsNearest (n / d)) : y = x := by
  obtain ⟨e, hround⟩ := exists_rounded hd h
  have hx := isNearest_of_nearest? hd h
  apply eq_of_units_eq hy.plus hx.plus
  by_contra hunits
  have htie : |y.value - n / d| = |x.value - n / d| :=
    le_antisymm (hy.nearest x hx.finite) (hx.nearest y hy.finite)
  have hvalue : x.value ≠ y.value := by
    rw [value_eq hx.plus, value_eq hy.plus]
    intro heq
    rw [div_left_inj' (by positivity), Nat.cast_inj] at heq
    exact hunits heq.symm
  have heven := hy.even x hx.finite hvalue htie.symm
  have hodd := ((hround.dist_units_le hd y).2 hunits (Nat.le_antisymm
    ((abs_value_sub_le_iff hd hy.plus hx.plus).1 htie.le)
    ((abs_value_sub_le_iff hd hx.plus hy.plus).1 htie.ge))).2
  omega

end Binary64

theorem Numeral.value_eq_some_iff {cs : List Char} {q : ℚ} (h : Numeral cs q) {x : Binary64} :
    numeralValue? cs = some x ↔ q < finiteLimit ∧ x.IsNearest q := by
  have hnone := numeralValue?_eq_none_iff h
  obtain ⟨n, d, hd, rfl, hvalue⟩ := h.exists_fraction
  rw [hvalue] at hnone ⊢
  constructor
  · intro hx
    refine ⟨lt_of_not_ge fun hlarge => ?_, Binary64.isNearest_of_nearest? hd hx⟩
    rw [hnone.2 hlarge] at hx
    cases hx
  · rintro ⟨hsmall, hx⟩
    cases hy : Binary64.nearest? n d with
    | none => exact absurd (hnone.1 hy) (not_le_of_gt hsmall)
    | some y => rw [hx.eq hd hy]

theorem exists_numeral_of_value {cs : List Char} {x : Binary64} (h : numeralValue? cs = some x) :
    ∃ q, Numeral cs q := by
  by_contra hshape
  rw [numeralValue?, Decimal.ofText?, if_neg (fun h => hshape (isNumeral_iff.1 h)), Option.bind_none] at h
  cases h

theorem numeralValue?_eq_some_iff {cs : List Char} {x : Binary64} :
    numeralValue? cs = some x ↔ ∃ q, Numeral cs q ∧ q < finiteLimit ∧ x.IsNearest q := by
  constructor
  · intro h
    obtain ⟨q, hq⟩ := exists_numeral_of_value h
    exact ⟨q, hq, hq.value_eq_some_iff.1 h⟩
  · rintro ⟨q, hq, hx⟩
    exact hq.value_eq_some_iff.2 hx

theorem exists_value_iff {cs : List Char} :
    (∃ x, numeralValue? cs = some x) ↔ ∃ q, Numeral cs q ∧ q < finiteLimit := by
  constructor
  · rintro ⟨x, h⟩
    obtain ⟨q, hq, hsmall, _⟩ := numeralValue?_eq_some_iff.1 h
    exact ⟨q, hq, hsmall⟩
  · rintro ⟨q, hq, hsmall⟩
    rw [← Option.ne_none_iff_exists', Ne, numeralValue?_eq_none_iff hq]
    exact not_le_of_gt hsmall

theorem numberLiteral_eq_ok_iff {s : String} {p : Position} {x : Binary64} :
    numberLiteral s p = .ok x ↔ numeralValue? s.toList = some x := by
  unfold numberLiteral
  split
  · next y hy => rw [hy, Except.ok.injEq, Option.some.injEq]
  · next hnone => simp [hnone]

theorem numberLiteral_eq_error_iff {s : String} {p : Position} {e : Failure} :
    numberLiteral s p = .error e ↔ numeralValue? s.toList = none ∧ e = ⟨.malformedNumber s, p⟩ := by
  unfold numberLiteral
  split
  · next y hy => simp [hy]
  · next hnone => simp [hnone, eq_comm]

/-- A text has a value exactly if it is a numeral below the limit, and then the value is the number nearest to
what the numeral stands for. Every other text is malformed as it stands. -/
theorem numberLiteral_nearest (s : String) (p : Position) :
    (∀ x, numberLiteral s p = .ok x ↔ ∃ q, Numeral s.toList q ∧ q < finiteLimit ∧ x.IsNearest q) ∧
    ((∃ x, numberLiteral s p = .ok x) ↔ ∃ q, Numeral s.toList q ∧ q < finiteLimit) ∧
    ∀ e, numberLiteral s p = .error e ↔
      (¬ ∃ q, Numeral s.toList q ∧ q < finiteLimit) ∧ e = ⟨.malformedNumber s, p⟩ := by
  simp only [numberLiteral_eq_ok_iff, numberLiteral_eq_error_iff]
  refine ⟨fun x => numeralValue?_eq_some_iff, exists_value_iff, fun e => ?_⟩
  rw [← exists_value_iff, ← Option.ne_none_iff_exists', not_ne_iff]

-- 2^53 + 1 lies in the middle of two numbers.
example : numberLiteral "9007199254740993" .start = .ok ⟨0x4340000000000000⟩ := by decide +kernel

end ExprLexer
