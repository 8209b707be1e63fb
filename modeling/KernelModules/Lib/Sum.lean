import Mathlib.Algebra.BigOperators.Group.Finset.Basic
import Mathlib.Algebra.BigOperators.Group.Finset.Piecewise

/-!
# Sums of counters

Sums over a finite set of counters when some of them are cleared or one of them changes.
-/

namespace KernelModules

variable {ι : Type} [DecidableEq ι] {S T : Finset ι} {a : ι}

/-- What is taken from the counter `a` is missing from the sum over the rest of the set. -/
theorem sum_insert_cleared (f : ι → Nat) (a : ι) (S : Finset ι) :
    ∑ i ∈ insert a S, f i = f a + ∑ i ∈ S, if i = a then 0 else f i := by
  have cleared : (fun i => if i = a then 0 else f i) a = 0 := if_pos rfl
  rw [← Finset.add_sum_erase _ f (Finset.mem_insert_self a S), Finset.erase_insert_eq_erase,
    ← Finset.sum_erase S cleared]
  congr 1
  apply Finset.sum_congr rfl
  intro i hi
  rw [if_neg (Finset.ne_of_mem_erase hi)]

theorem sum_cleared (f : ι → Nat) (sub : T ⊆ S) :
    ∑ i ∈ S, f i = ∑ i ∈ T, f i + ∑ i ∈ S, if i ∈ T then 0 else f i := by
  have parts (i : ι) : f i = (if i ∈ T then f i else 0) + if i ∈ T then 0 else f i := by
    split
    · rfl
    · rw [Nat.zero_add]
  calc ∑ i ∈ S, f i
      = ∑ i ∈ S, ((if i ∈ T then f i else 0) + if i ∈ T then 0 else f i) :=
        Finset.sum_congr rfl fun i _ => parts i
    _ = ∑ i ∈ T, f i + ∑ i ∈ S, if i ∈ T then 0 else f i := by
        rw [Finset.sum_add_distrib, Finset.sum_ite_mem, Finset.inter_eq_right.mpr sub]

theorem sum_changed (f f' : ι → Nat) (mem : a ∈ S) (others : ∀ i, i ≠ a → f' i = f i) :
    ∑ i ∈ S, f' i + f a = ∑ i ∈ S, f i + f' a := by
  have rest : ∑ i ∈ S.erase a, f' i = ∑ i ∈ S.erase a, f i :=
    Finset.sum_congr rfl fun i hi => others i (Finset.ne_of_mem_erase hi)
  rw [← Finset.add_sum_erase S f' mem, ← Finset.add_sum_erase S f mem, rest]
  omega

end KernelModules
