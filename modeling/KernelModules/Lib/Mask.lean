import Mathlib.Tactic.Common

/-!
# Bit masks as sets

A word stands for the set of its bits. `Within x a` is inclusion.
-/

namespace KernelModules

variable {w : Nat} {x a b c : BitVec w}

def Within (x a : BitVec w) : Prop := x &&& a = x

instance (x a : BitVec w) : Decidable (Within x a) := inferInstanceAs (Decidable (x &&& a = x))

/-- The test `(x | a) == a` of C code. -/
theorem within_of_or (h : x ||| a = a) : Within x a := by
  unfold Within
  ext i hi
  have bit := congrArg (fun v : BitVec w => v[i]) h
  simp only [BitVec.getElem_or, BitVec.getElem_and] at bit ⊢
  revert bit
  cases x[i] <;> simp

theorem Within.or (h : Within x a) : x ||| a = a := by
  unfold Within at h
  rw [← h, BitVec.or_comm]
  ext i hi
  simp only [BitVec.getElem_or, BitVec.getElem_and]
  cases x[i] <;> cases a[i] <;> rfl

theorem within_iff_or : Within x a ↔ x ||| a = a := ⟨Within.or, within_of_or⟩

theorem within_self : Within x x := BitVec.and_self

theorem within_allOnes : Within x (BitVec.allOnes w) := by
  unfold Within
  exact BitVec.and_allOnes

theorem Within.trans (h : Within x a) (h' : Within a b) : Within x b := by
  unfold Within at h h' ⊢
  rw [← h, BitVec.and_assoc, h']

theorem within_or_left {y : BitVec w} : Within x (x ||| y) := by
  apply within_of_or
  rw [← BitVec.or_assoc, BitVec.or_self]

/-- A union is within a set exactly when both parts are. -/
theorem or_within_iff {y : BitVec w} : Within (x ||| y) a ↔ Within x a ∧ Within y a := by
  constructor
  · intro both
    have swapped : Within (y ||| x) a := BitVec.or_comm x y ▸ both
    exact ⟨within_or_left.trans both, within_or_left.trans swapped⟩
  · rintro ⟨left, right⟩
    apply within_of_or
    rw [BitVec.or_assoc, right.or, left.or]

theorem within_zero (h : Within x 0) : x = 0 := by
  unfold Within at h
  rw [← h]
  exact BitVec.and_zero

/-- A set within a single bit is empty or that bit. -/
theorem within_twoPow {i : Nat} (h : Within x (BitVec.twoPow w i)) :
    x = 0 ∨ x = BitVec.twoPow w i := by
  unfold Within at h
  rw [BitVec.and_twoPow] at h
  split at h
  · exact .inr h.symm
  · exact .inl h.symm

/-- Of a set within `c`, what lies in `b` is within what `b` and `c` share. -/
theorem Within.and (h : Within x c) (b : BitVec w) (shared : Within (c &&& b) a) :
    Within (x &&& b) a := by
  have meet : x &&& b = x &&& (c &&& b) := by rw [← BitVec.and_assoc, h]
  unfold Within at shared ⊢
  rw [meet, BitVec.and_assoc, shared]

end KernelModules
