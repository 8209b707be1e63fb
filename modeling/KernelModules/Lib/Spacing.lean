import Mathlib.Data.List.Chain

/-!
# Spaced times

What happens by a timer that is set anew each time happens at times a delay or more apart, and
so only so often within a span.
-/

namespace KernelModules

/-- The times come one after another, each `delay` or more after the one before and the first
one after `since`. -/
def Spaced (delay since : Nat) (times : List Nat) : Prop :=
  List.IsChain (fun a b => a + delay ≤ b) (since :: times)

/-- The last of the times, `since` before there is any. -/
def latest (since : Nat) (times : List Nat) : Nat := times.getLastD since

@[simp] theorem latest_nil (since : Nat) : latest since [] = since := rfl

@[simp] theorem latest_concat (since : Nat) (times : List Nat) (t : Nat) :
    latest since (times ++ [t]) = t := by
  simp [latest]

theorem spaced_nil (delay since : Nat) : Spaced delay since [] := .singleton _

section

variable {delay since : Nat} {times : List Nat}

theorem Spaced.concat (spaced : Spaced delay since times) {t : Nat}
    (later : latest since times + delay ≤ t) : Spaced delay since (times ++ [t]) := by
  unfold Spaced
  rw [← List.cons_append]
  refine List.IsChain.append spaced (.singleton _) ?_
  intro a last b first
  rw [List.getLast?_cons, Option.mem_some_iff] at last
  rw [List.head?_cons, Option.mem_some_iff] at first
  subst last
  subst first
  rwa [latest, List.getLastD_eq_getLast?] at later

/-- A span holds no more times than delays. -/
theorem Spaced.length_le (spaced : Spaced delay since times) :
    since + delay * times.length ≤ latest since times := by
  induction times generalizing since with
  | nil => simp
  | cons t times ih =>
    obtain ⟨first, rest⟩ := List.isChain_cons_cons.mp spaced
    have tail := ih rest
    have last : latest since (t :: times) = latest t times := List.getLastD_cons ..
    rw [last, List.length_cons, Nat.mul_succ]
    omega

end

end KernelModules
