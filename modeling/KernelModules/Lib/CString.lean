import Mathlib.Algebra.Order.Ring.Int
import Mathlib.Data.List.TakeWhile
import Mathlib.Tactic.Common

/-!
# C strings and `kstrtoint`

Memory is a list of bytes read from a pointer on. A C string ends at the first NUL; memory
that runs out before one is read as if a NUL followed. `kstrtoint` is the kernel's parser in
base 10: an optional sign, at least one digit, at most one newline at the very end, and a
value that fits an `int`. It fails on every other text and then leaves its result alone.
-/

namespace KernelModules

/-- The bytes of an ASCII text. -/
def bytes (s : String) : List UInt8 := s.toList.map fun c => UInt8.ofNat c.toNat

def cstr (mem : List UInt8) : List UInt8 := mem.takeWhile (· != 0)

theorem cstr_cons (b : UInt8) (mem : List UInt8) :
    cstr (b :: mem) = if b = 0 then [] else b :: cstr mem := by
  unfold cstr
  rw [List.takeWhile_cons]
  by_cases nul : b = 0 <;> simp [nul]

/-- NULs behind a text end it where it ends anyway. -/
theorem cstr_padded (mem : List UInt8) (n : Nat) : cstr (mem ++ List.replicate n 0) = cstr mem := by
  induction mem with
  | nil => cases n <;> simp [cstr, List.replicate_succ]
  | cons b mem ih => rw [List.cons_append, cstr_cons, cstr_cons, ih]

theorem cstr_eq_self {s : List UInt8} (plain : ∀ b ∈ s, b ≠ 0) : cstr s = s := by
  unfold cstr
  rw [List.takeWhile_eq_self_iff]
  intro b hb
  simpa using plain b hb

def isDigit (b : UInt8) : Bool := decide (48 ≤ b.toNat) && decide (b.toNat ≤ 57)

/-- An unsigned decimal number, and nothing else. -/
def decimal (s : List UInt8) : Option Nat :=
  if s ≠ [] ∧ s.all isDigit = true then some (s.foldl (fun n b => 10 * n + (b.toNat - 48)) 0)
  else none

def signedDecimal : List UInt8 → Option Int
  | 45 :: s => (decimal s).map fun n => -(n : Int)
  | 43 :: s => (decimal s).map fun n => (n : Int)
  | s => (decimal s).map fun n => (n : Int)

def fitsInt (i : Int) : Bool := decide (-2 ^ 31 ≤ i) && decide (i < 2 ^ 31)

/-- An optionally signed decimal number that fits an `int`. -/
def decimalInt (s : List UInt8) : Option Int := (signedDecimal s).filter fitsInt

/-- One final newline is dropped. -/
def chomp (s : List UInt8) : List UInt8 :=
  if s.getLast? = some 10 then s.dropLast else s

def kstrtoint (s : List UInt8) : Option Int := decimalInt (chomp s)

example : kstrtoint (bytes "-42\n") = some (-42) := by decide

end KernelModules
