import KernelModules.Lib.Run

/-!
# Systems that can finish

The work a system has left is measured by a number. When some run leads from every state with
work left to one with less, all of the work can be done from every state.
-/

namespace KernelModules

section

variable {σ ε φ : Type} {step : σ → ε → Except φ σ} {ok : σ → ε → Prop} {s t u : σ}
  {es es' : List ε}

theorem Run.append (run : Run step ok s es t) (later : Run step ok t es' u) :
    Run step ok s (es ++ es') u := by
  induction later with
  | init => rwa [List.append_nil]
  | next _ allowed stepped ih =>
    rw [← List.append_assoc]
    exact ih.next allowed stepped

theorem Run.single {e : ε} (allowed : ok s e) (stepped : step s e = .ok t) :
    Run step ok s [e] t :=
  Run.init.next allowed stepped

theorem Run.finishes {I : σ → Prop} (left : σ → Nat)
    (keeps : ∀ s e t, I s → ok s e → step s e = .ok t → I t)
    (advances : ∀ s, I s → left s ≠ 0 → ∃ es t, Run step ok s es t ∧ left t < left s)
    (inv : I s) : ∃ es t, Run step ok s es t ∧ I t ∧ left t = 0 := by
  induction work : left s using Nat.strongRecOn generalizing s with
  | ind n ih =>
    by_cases done : n = 0
    · exact ⟨[], s, .init, inv, work.trans done⟩
    · obtain ⟨es, t, run, less⟩ := advances s inv (work ▸ done)
      have inv' : I t := run.invariant inv keeps
      obtain ⟨es', u, later, finished⟩ := ih (left t) (work ▸ less) inv' rfl
      exact ⟨es ++ es', u, run.append later, finished⟩

end

end KernelModules
