import Mathlib.Tactic.Common

/-!
# Lists laid out in memory

Memory is a function from indices to elements. A list is laid out from an index on when its
elements stand there one after the other.
-/

namespace KernelModules

variable {α : Type}

def Laid (m : Nat → α) : Nat → List α → Prop
  | _, [] => True
  | i, a :: l => m i = a ∧ Laid m (i + 1) l

@[simp] theorem laid_nil (m : Nat → α) (i : Nat) : Laid m i [] := trivial

@[simp] theorem laid_cons (m : Nat → α) (i : Nat) (a : α) (l : List α) :
    Laid m i (a :: l) ↔ m i = a ∧ Laid m (i + 1) l := Iff.rfl

theorem laid_append {m : Nat → α} {i : Nat} {l l' : List α} :
    Laid m i (l ++ l') ↔ Laid m i l ∧ Laid m (i + l.length) l' := by
  induction l generalizing i with
  | nil => simp
  | cons a l ih =>
    rw [List.cons_append, laid_cons, laid_cons, ih, List.length_cons, and_assoc,
      Nat.add_assoc, Nat.add_comm 1]

/-- Only the elements the list covers count. -/
theorem Laid.congr {m m' : Nat → α} {i : Nat} {l : List α} (laid : Laid m i l)
    (same : ∀ j, i ≤ j → j < i + l.length → m' j = m j) : Laid m' i l := by
  induction l generalizing i with
  | nil => trivial
  | cons a l ih =>
    obtain ⟨first, rest⟩ := laid
    rw [List.length_cons] at same
    refine ⟨(same i (Nat.le_refl i) (by omega)).trans first, ih rest ?_⟩
    intro j above below
    exact same j (by omega) (by omega)

theorem Laid.map_range {m : Nat → α} {l : List α} (laid : Laid m 0 l) :
    (List.range l.length).map m = l := by
  have shifted (i : Nat) (l : List α) (laid : Laid m i l) :
      (List.range' i l.length).map m = l := by
    induction l generalizing i with
    | nil => rfl
    | cons a l ih =>
      rw [List.length_cons, List.range'_succ, List.map_cons, laid.1, ih (i + 1) laid.2]
  rw [List.range_eq_range']
  exact shifted 0 l laid

end KernelModules
