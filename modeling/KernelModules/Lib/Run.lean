import Mathlib.Tactic.Common

/-!
# Runs of a system that can fault

A system is a step function on a state type whose steps can fault. A run is the list of
events that lead from one state to another, each allowed by a guard in the state it happens
in; a faulting event ends the run. Ghost state is carried beside the state and never read by
the steps.
-/

namespace KernelModules

/-- A computation that succeeds went through its first half. -/
theorem bind_ok {φ α β : Type} {x : Except φ α} {f : α → Except φ β} {b : β}
    (h : x >>= f = .ok b) : ∃ a, x = .ok a ∧ f a = .ok b := by
  cases x with
  | error e => cases h
  | ok a => exact ⟨a, rfl, h⟩

theorem map_ok {φ α β : Type} {x : Except φ α} {f : α → β} {b : β} (h : x.map f = .ok b) :
    ∃ a, x = .ok a ∧ f a = b := by
  cases x with
  | error e => cases h
  | ok a => exact ⟨a, rfl, Except.ok.inj h⟩

theorem ok_of_toOption {φ α : Type} {x : Except φ α} {a : α} (h : x.toOption = some a) :
    x = .ok a := by
  cases x with
  | error e => cases h
  | ok b => exact congrArg Except.ok (Option.some.inj h)

/-- A computation that succeeds passed its test. -/
theorem ite_ok {φ α : Type} {c : Prop} [Decidable c] {x : Except φ α} {e : φ} {a : α}
    (h : (if c then x else .error e) = .ok a) : c ∧ x = .ok a := by
  split at h
  · exact ⟨‹_›, h⟩
  · cases h

theorem ite_error_ok {φ α : Type} {c : Prop} [Decidable c] {x : Except φ α} {e : φ} {a : α}
    (h : (if c then .error e else x) = .ok a) : ¬ c ∧ x = .ok a := by
  split at h
  · cases h
  · exact ⟨‹_›, h⟩

section
variable {σ ε φ γ : Type}

inductive Run (step : σ → ε → Except φ σ) (ok : σ → ε → Prop) (start : σ) : List ε → σ → Prop
  | init : Run step ok start [] start
  | next {es : List ε} {s t : σ} {e : ε} : Run step ok start es s → ok s e → step s e = .ok t →
      Run step ok start (es ++ [e]) t

variable {step : σ → ε → Except φ σ} {ok : σ → ε → Prop} {start s : σ} {es : List ε}

/-- What holds at the start and is kept by every allowed step holds wherever a run ends. -/
theorem Run.invariant {I : σ → Prop} (run : Run step ok start es s) (initial : I start)
    (keeps : ∀ s e t, I s → ok s e → step s e = .ok t → I t) : I s := by
  induction run with
  | init => exact initial
  | next _ allowed stepped ih => exact keeps _ _ _ ih allowed stepped

theorem Run.imp {ok' : σ → ε → Prop} (run : Run step ok start es s)
    (weaker : ∀ s e, ok s e → ok' s e) : Run step ok' start es s := by
  induction run with
  | init => exact .init
  | next _ allowed stepped ih => exact .next ih (weaker _ _ allowed) stepped

/-- Execute the events as long as the guard allows them and none faults. -/
def replay (step : σ → ε → Except φ σ) (ok : σ → ε → Prop) [∀ s e, Decidable (ok s e)] (s : σ) :
    List ε → Option σ
  | [] => some s
  | e :: es =>
    if ok s e then
      match step s e with
      | .ok t => replay step ok t es
      | .error _ => none
    else none

theorem Run.extend [∀ s e, Decidable (ok s e)] {es' : List ε} {t : σ}
    (run : Run step ok start es s) (h : replay step ok s es' = some t) :
    Run step ok start (es ++ es') t := by
  induction es' generalizing es s with
  | nil =>
    rw [List.append_nil]
    cases h
    exact run
  | cons e es' ih =>
    simp only [replay] at h
    split at h
    · rename_i allowed
      split at h
      · rename_i u stepped
        have := ih (run.next allowed stepped) h
        rwa [List.append_assoc, List.singleton_append] at this
      · cases h
    · cases h

/-- An execution that goes through is a run. -/
theorem Run.of_replay [∀ s e, Decidable (ok s e)] {t : σ} (h : replay step ok start es = some t) :
    Run step ok start es t :=
  Run.init.extend h

/-- An execution ends in a state of which `Q` holds, if that follows from what `p` shows of it. -/
theorem Run.exists_of_replay [∀ s e, Decidable (ok s e)] {α : Type} {Q : σ → Prop} {a : α}
    (p : σ → α) (h : (replay step ok start es).map p = some a)
    (enough : ∀ s, Run step ok start es s → p s = a → Q s) : ∃ s, Run step ok start es s ∧ Q s := by
  obtain ⟨s, replayed, seen⟩ := Option.map_eq_some_iff.mp h
  have run := Run.of_replay replayed
  exact ⟨s, run, enough s run seen⟩

/-- The system with ghost state `γ`, which an event updates from the state it happens in. -/
def ghosted (step : σ → ε → Except φ σ) (record : γ → σ → ε → γ) (x : σ × γ) (e : ε) :
    Except φ (σ × γ) :=
  (step x.1 e).map fun t => (t, record x.2 x.1 e)

theorem ghosted_ok {record : γ → σ → ε → γ} {x y : σ × γ} {e : ε}
    (h : ghosted step record x e = .ok y) : step x.1 e = .ok y.1 ∧ y.2 = record x.2 x.1 e := by
  obtain ⟨t, stepped, rfl⟩ := map_ok h
  exact ⟨stepped, rfl⟩

/-- A run with ghost state is a run of the system. -/
theorem Run.unghost {record : γ → σ → ε → γ} {x y : σ × γ}
    (run : Run (ghosted step record) (fun x e => ok x.1 e) x es y) : Run step ok x.1 es y.1 := by
  induction run with
  | init => exact .init
  | next _ allowed stepped ih => exact ih.next allowed (ghosted_ok stepped).1

/-- Any ghost state can be carried along a run. -/
theorem Run.ghost (run : Run step ok start es s) (record : γ → σ → ε → γ) (g : γ) :
    ∃ g', Run (ghosted step record) (fun x e => ok x.1 e) (start, g) es (s, g') := by
  induction run with
  | init => exact ⟨g, .init⟩
  | @next es s t e _ allowed stepped ih =>
    obtain ⟨g', before⟩ := ih
    refine ⟨record g' s e, before.next allowed ?_⟩
    rw [ghosted, stepped]
    rfl

end

end KernelModules
