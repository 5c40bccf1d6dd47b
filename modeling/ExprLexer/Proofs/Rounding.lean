import Mathlib.Tactic.Ring
import Mathlib.Tactic.Linarith
import ExprLexer.Number.Binary64

/-!
# Overflow of rounding

A quotient has no nearest binary64 number exactly from the middle between the greatest finite one and
2^1024 on: `nearest?_eq_none_iff`.
-/
namespace ExprLexer
namespace Binary64

/-- Rounding reaches an even `m` from the middle between `m - 1` and `m` on: the tie goes to `m`. -/
theorem le_divToEven_iff {n d m : Nat} (hd : 0 < d) (hm : m % 2 = 0) (hpos : 0 < m) :
    m ≤ divToEven n d ↔ (2 * m - 1) * d ≤ 2 * n := by
  have hdiv := Nat.div_add_mod n d
  have hlt := Nat.mod_lt n hd
  unfold divToEven
  generalize n / d = q at *
  generalize n % d = r at *
  dsimp only
  rcases Nat.lt_trichotomy m (q + 1) with h | rfl | h
  · have hle : (2 * m - 1) * d ≤ 2 * q * d := Nat.mul_le_mul_right d (by omega)
    have hn : 2 * q * d + 2 * r = 2 * n := by rw [← hdiv]; ring
    constructor
    · intro _
      omega
    · intro _
      split <;> omega
  · have hn : (2 * (q + 1) - 1) * d + 2 * r = 2 * n + d := by
      have hodd : 2 * (q + 1) - 1 = 2 * q + 1 := by omega
      rw [← hdiv, hodd]
      ring
    have hq : q % 2 = 1 := by omega
    simp only [hq, beq_self_eq_true, Bool.and_true, Bool.or_eq_true, decide_eq_true_eq, beq_iff_eq]
    split <;> omega
  · have hle : (2 * q + 3) * d ≤ (2 * m - 1) * d := Nat.mul_le_mul_right d (by omega)
    have hn : (2 * q + 3) * d + 2 * r = 2 * n + 3 * d := by rw [← hdiv]; ring
    constructor
    · intro h'
      split at h' <;> omega
    · intro h'
      omega

theorem divToEven_le {n d m : Nat} (hd : 0 < d) (h : n < m * d) : divToEven n d ≤ m := by
  have hq : n / d < m := (Nat.div_lt_iff_lt_mul hd).2 h
  unfold divToEven
  dsimp only
  split <;> omega

private theorem scale_bound (a n d : Nat) {b : Nat} (hb : 0 < b) :
    (2 ^ 54 - 1) * a * d ≤ n ↔ (2 ^ 54 - 1) * (d * (a * b)) ≤ n * b := by
  have e : (2 ^ 54 - 1) * (d * (a * b)) = (2 ^ 54 - 1) * a * d * b := by ac_rfl
  rw [e, Nat.mul_le_mul_right_iff hb]

/-- The bound in units of 2^-1074. -/
theorem bound_le_iff_scaled (n d : Nat) :
    (2 ^ 1024 - 2 ^ 970) * d ≤ n ↔ (2 ^ 54 - 1) * (d * 2 ^ 2044) ≤ n <<< 1074 := by
  have hbound : (2 : Nat) ^ 1024 - 2 ^ 970 = (2 ^ 54 - 1) * 2 ^ 970 := by
    rw [Nat.sub_mul, Nat.one_mul, ← Nat.pow_add]
  have hsplit : (2 : Nat) ^ 2044 = 2 ^ 970 * 2 ^ 1074 := by rw [← Nat.pow_add]
  rw [hbound, hsplit, Nat.shiftLeft_eq]
  apply scale_bound
  positivity

/-- `e` is the number of binary places that are dropped from `s / d` to keep 53 of them. -/
theorem dropped_places {s d e : Nat} (hd : 0 < d) (he : e = (s / d).log2 - 52) :
    s < 2 ^ 53 * (d * 2 ^ e) ∧ (e = 0 ∨ 2 ^ 52 * (d * 2 ^ e) ≤ s) := by
  have hhigh : s / d < 2 ^ ((s / d).log2 + 1) := Nat.lt_log2_self
  constructor
  · have hle : 2 ^ ((s / d).log2 + 1) ≤ 2 ^ (53 + e) := Nat.pow_le_pow_right (by decide) (by omega)
    have hs : s < 2 ^ (53 + e) * d := (Nat.div_lt_iff_lt_mul hd).1 (Nat.lt_of_lt_of_le hhigh hle)
    rw [Nat.pow_add] at hs
    calc
      s < 2 ^ 53 * 2 ^ e * d := hs
      _ = 2 ^ 53 * (d * 2 ^ e) := by ac_rfl
  · by_cases h0 : e = 0
    · exact .inl h0
    · right
      have hne : s / d ≠ 0 := by
        intro h
        rw [h] at he
        exact h0 he
      have hlow : 2 ^ (52 + e) ≤ s / d := by
        have := Nat.log2_self_le hne
        rwa [show (s / d).log2 = 52 + e by omega] at this
      rw [Nat.le_div_iff_mul_le hd, Nat.pow_add] at hlow
      calc
        2 ^ 52 * (d * 2 ^ e) = 2 ^ 52 * 2 ^ e * d := by ac_rfl
        _ ≤ s := hlow

/-- A bit pattern reaches the exponent field `w + 3` exactly when the number lies no lower than the
middle between the last number below `2 ^ (w + 54)` and that power itself. -/
theorem le_pattern_iff {s d e w : Nat} (hd : 0 < d) (hhigh : s < 2 ^ 53 * (d * 2 ^ e))
    (hlow : e = 0 ∨ 2 ^ 52 * (d * 2 ^ e) ≤ s) :
    (w + 3) * 2 ^ 52 ≤ e * 2 ^ 52 + divToEven s (d * 2 ^ e) ↔ (2 ^ 54 - 1) * (d * 2 ^ w) ≤ s := by
  have hD : 0 < d * 2 ^ e := Nat.mul_pos hd (Nat.two_pow_pos e)
  have hX : 0 < d * 2 ^ w := Nat.mul_pos hd (Nat.two_pow_pos w)
  have hle := divToEven_le hD hhigh
  rcases Nat.lt_trichotomy e (w + 1) with h | rfl | h
  · have hDX : d * 2 ^ e ≤ d * 2 ^ w :=
      Nat.mul_le_mul_left d (Nat.pow_le_pow_right (by decide) (by omega))
    omega
  · have hcarry := le_divToEven_iff (n := s) (m := 2 ^ 53) hD (by decide) (by decide)
    have hDX : d * 2 ^ (w + 1) = 2 * (d * 2 ^ w) := by rw [Nat.pow_succ]; ac_rfl
    omega
  · have hDX : d * 2 ^ (w + 2) ≤ d * 2 ^ e :=
      Nat.mul_le_mul_left d (Nat.pow_le_pow_right (by decide) (by omega))
    have hX4 : d * 2 ^ (w + 2) = 4 * (d * 2 ^ w) := by ring
    have hs : 2 ^ 52 * (d * 2 ^ e) ≤ s := hlow.resolve_left (by omega)
    have hcarry := le_divToEven_iff (n := s) (m := 2 ^ 52) hD (by decide) (by decide)
    omega

theorem nearest?_eq_none_iff {n d : Nat} (hd : 0 < d) :
    nearest? n d = none ↔ (2 ^ 1024 - 2 ^ 970) * d ≤ n := by
  rw [bound_le_iff_scaled]
  unfold nearest?
  generalize n <<< 1074 = s
  obtain ⟨hhigh, hlow⟩ := dropped_places (s := s) hd rfl
  rw [← le_pattern_iff hd hhigh hlow]
  simp only [Nat.shiftLeft_eq, fractionCount]
  split <;> simp <;> omega

end Binary64
end ExprLexer
