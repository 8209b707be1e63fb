import Mathlib.Data.Rat.Cast.Order
import Mathlib.Algebra.Order.Field.Rat
import Mathlib.Tactic.FieldSimp
import Mathlib.Tactic.Linarith
import Mathlib.Tactic.Positivity

/-!
# Unreduced fractions

A pair of naturals stands for a nonnegative rational. Zero is any pair with numerator 0, so
that a zero sum puts no condition on the denominator. Sums and differences are formed by
cross multiplication and never reduced.
-/

namespace KernelModules

/-- The pair `n / d` stands for `q`. -/
structure Denotes (n d : Nat) (q : ℚ) : Prop where
  zero : n = 0 → q = 0
  ratio : n ≠ 0 → 0 < d ∧ (n : ℚ) / d = q

theorem Denotes.of_pos {n d : Nat} {q : ℚ} (hd : 0 < d) (h : (n : ℚ) / d = q) : Denotes n d q := by
  constructor
  · intro hn
    rw [← h, hn]
    simp
  · exact fun _ => ⟨hd, h⟩

theorem Denotes.eq_zero_iff {n d : Nat} {q : ℚ} (h : Denotes n d q) : n = 0 ↔ q = 0 := by
  refine ⟨h.zero, fun hq => ?_⟩
  by_contra hn
  obtain ⟨hd, hr⟩ := h.ratio hn
  have pos : 0 < (n : ℚ) / d := by positivity
  rw [hr, hq] at pos
  exact lt_irrefl _ pos

theorem Denotes.add {n d : Nat} {q : ℚ} (h : Denotes n d q) (hn : n ≠ 0) {p : Nat} (hp : 0 < p)
    (c : Nat) : Denotes (n * p + c * d) (d * p) (q + (c : ℚ) / p) := by
  obtain ⟨hd, hr⟩ := h.ratio hn
  apply Denotes.of_pos (Nat.mul_pos hd hp)
  rw [← hr]
  push_cast
  field_simp

/-- A fraction whose cross products say it is at most `c / p` loses nothing but a zero rest
when it is replaced by zero, provided `c / p` was a part of it. -/
theorem Denotes.clamped {n d : Nat} {q : ℚ} (h : Denotes n d q) {p c : Nat} (hp : 0 < p)
    (part : (c : ℚ) / p ≤ q) (small : n * p ≤ c * d) : q - (c : ℚ) / p = 0 := by
  by_cases hn : n = 0
  · have hq := h.zero hn
    have hc : 0 ≤ (c : ℚ) / p := by positivity
    linarith
  · obtain ⟨hd, hr⟩ := h.ratio hn
    have cross : (n : ℚ) / d ≤ (c : ℚ) / p := by
      rw [div_le_div_iff₀ (by positivity) (by positivity)]
      exact_mod_cast small
    linarith

theorem Denotes.sub {n d : Nat} {q : ℚ} (h : Denotes n d q) {p c : Nat} (hp : 0 < p)
    (large : c * d < n * p) : Denotes (n * p - c * d) (d * p) (q - (c : ℚ) / p) := by
  have hn : n ≠ 0 := by
    rintro rfl
    simp at large
  obtain ⟨hd, hr⟩ := h.ratio hn
  apply Denotes.of_pos (Nat.mul_pos hd hp)
  rw [← hr, Nat.cast_sub large.le]
  push_cast
  field_simp

/-- A fraction with a positive denominator compared with the constant `a / b` by cross
multiplication. -/
theorem Denotes.le_const {n d : Nat} {q : ℚ} (h : Denotes n d q) (hd : 0 < d) {a b : Nat}
    (hb : 0 < b) : n * b ≤ a * d ↔ q ≤ (a : ℚ) / b := by
  have value : (n : ℚ) / d = q := by
    by_cases hn : n = 0
    · rw [h.zero hn, hn]
      simp
    · exact (h.ratio hn).2
  rw [← value, div_le_div_iff₀ (by positivity) (by positivity)]
  exact_mod_cast Iff.rfl

end KernelModules
