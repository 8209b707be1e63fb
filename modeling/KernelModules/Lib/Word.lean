import Mathlib.Algebra.Order.Ring.Int
import Mathlib.Tactic.Common

/-!
# Unsigned machine arithmetic

A C expression over unsigned integers reduces every result modulo a power of two. `Arith`
names the two reductions a program uses, so that one definition can be read with the
machine's widths (`Arith.c`) and with unbounded naturals (`Arith.ideal`).
-/

namespace KernelModules

structure Arith where
  u32 : Nat → Nat
  u64 : Nat → Nat

/-- `unsigned int` of 32 bits, `unsigned long` of 64. -/
def Arith.c : Arith := ⟨(· % 2 ^ 32), (· % 2 ^ 64)⟩

def Arith.ideal : Arith := ⟨id, id⟩

@[simp] theorem Arith.c_u32 (n : Nat) : Arith.c.u32 n = n % 2 ^ 32 := rfl

@[simp] theorem Arith.c_u64 (n : Nat) : Arith.c.u64 n = n % 2 ^ 64 := rfl

/-- Conversion of an `int` to `unsigned int`. -/
def toU32 (i : Int) : Nat := (i % 2 ^ 32).toNat

/-- An `unsigned int` taken for an `int`, as `%d` does. -/
def toI32 (n : Nat) : Int := (n : Int).bmod (2 ^ 32)

/-- The value of an `int` expression; the kernel is compiled so that overflow wraps. -/
def i32 (i : Int) : Int := i.bmod (2 ^ 32)

theorem toI32_bounds (n : Nat) : -2 ^ 31 ≤ toI32 n ∧ toI32 n < 2 ^ 31 := by
  unfold toI32
  rw [Int.bmod_def]
  split <;> omega

/-- A positive `int` is no other `unsigned int` than its own. -/
theorem toI32_eq_iff {n : Nat} {i : Int} (hn : n < 2 ^ 32) (pos : 0 < i) (hi : i < 2 ^ 31) :
    toI32 n = i ↔ (n : Int) = i := by
  unfold toI32
  rw [Int.bmod_def]
  split <;> omega

end KernelModules
