import KernelModules.Lib.Handover
import KernelModules.Lib.Run

/-!
# Critical sections

Threads that touch what they share only between taking one lock and releasing it, in any number
of small steps, each with what it finds of the surroundings, which nobody locks. Whenever the
lock is free, the shared data is what the sections that were left so far make of it, each as a
whole and one after the other, and any invariant of whole sections holds.
-/

namespace KernelModules

/-! ## One after the other -/

section

variable {α σ : Type}

/-- `t` comes of `start` by these steps, one after the other. -/
inductive Follows (R : α → σ → σ → Prop) (start : σ) : List α → σ → Prop
  | nil : Follows R start [] start
  | next {l : List α} {s t : σ} {x : α} :
      Follows R start l s → R x s t → Follows R start (l ++ [x]) t

theorem Follows.imp {R R' : α → σ → σ → Prop} {start s : σ} {l : List α} (h : Follows R start l s)
    (weaker : ∀ x s t, R x s t → R' x s t) : Follows R' start l s := by
  induction h with
  | nil => exact .nil
  | next _ last ih => exact .next ih (weaker _ _ _ last)

end

/-! ## Sections -/

/-- What is done under the lock. A section of kind `κ` is at a place `π` of its code, works on
the data `σ` step by step and sees the surroundings `η`. -/
structure Sections (σ η κ π : Type) where
  enter : κ → π
  micro : η → π → σ → π × σ
  ended : π → Bool

/-- The data, its surroundings, the lock, and the threads that are inside. -/
structure Shared (ι σ η κ π : Type) where
  data : σ
  env : η
  lock : Bool
  inside : ι → Option (κ × π)

inductive Turn (ι η κ : Type)
  /-- `spin_lock` returns and the section begins. -/
  | lock (i : ι) (k : κ)
  | micro (i : ι)
  | unlock (i : ι)
  /-- The surroundings change. -/
  | outside (e : η)
  deriving DecidableEq, Repr

/-- A section that was left: whose it was, what it saw at each step, and the place it ended at. -/
structure Left (ι η κ π : Type) where
  thread : ι
  kind : κ
  seen : List η
  place : π

/-- Kept of a run: the sections that were left, and what the one that is going on has seen. -/
structure Story (ι η κ π : Type) where
  left : List (Left ι η κ π)
  seen : List η

def Story.none {ι η κ π : Type} : Story ι η κ π := ⟨[], []⟩

namespace Sections

variable {ι σ η κ π : Type} (S : Sections σ η κ π)

/-- The steps of a section from a place on, with these surroundings, `none` if it ends before. -/
def goes : List η → π → σ → Option (π × σ)
  | [], p, s => some (p, s)
  | e :: seen, p, s => if S.ended p then .none else goes seen (S.micro e p s).1 (S.micro e p s).2

/-- The section as a whole. -/
def Whole (x : Left ι η κ π) (s t : σ) : Prop :=
  S.goes x.seen (S.enter x.kind) s = some (x.place, t) ∧ S.ended x.place = true

/-- Nobody is inside, or one thread is, part of the way through its section. `R` is what is known
of the data before that section, by the sections left before and the surroundings, and `Q` of
what the section saw. -/
inductive Between (R : List (Left ι η κ π) → η → σ → Prop) (Q : κ → List η → η → Prop) :
    Shared ι σ η κ π × Story ι η κ π → Prop
  | free {m : Shared ι σ η κ π} {g : Story ι η κ π} (lock : m.lock = false)
      (nobody : ∀ i, m.inside i = .none) (seen : g.seen = [])
      (reached : R g.left m.env m.data) : Between R Q (m, g)
  | taken {m : Shared ι σ η κ π} {g : Story ι η κ π} {i : ι} {k : κ} {p : π} {s : σ}
      (lock : m.lock = true) (there : m.inside i = some (k, p))
      (alone : ∀ j, j ≠ i → m.inside j = .none) (reached : R g.left m.env s)
      (part : S.goes g.seen (S.enter k) s = some (p, m.data)) (saw : Q k g.seen m.env) :
      Between R Q (m, g)

/-- `R` and `Q` go on holding as sections are entered and left and the surroundings change. -/
structure Laws (ok : Shared ι σ η κ π × Story ι η κ π → Turn ι η κ → Prop)
    (R : List (Left ι η κ π) → η → σ → Prop) (Q : κ → List η → η → Prop) : Prop where
  enter : ∀ x i k, ok x (.lock i k) → Q k [] x.1.env
  micro : ∀ k seen e, Q k seen e → Q k (seen ++ [e]) e
  whole : ∀ left x e s t, R left e s → Q x.kind x.seen e → S.Whole x s t → R (left ++ [x]) e t
  outside : ∀ x e left s, ok x (.outside e) → R left x.1.env s → R left e s
  meanwhile : ∀ x e i k p, ok x (.outside e) → x.1.inside i = some (k, p) →
    Q k x.2.seen x.1.env → Q k x.2.seen e

variable {S}

theorem goes_concat {seen : List η} {e : η} {p q : π} {s t : σ}
    (part : S.goes seen p s = some (q, t)) (more : S.ended q = false) :
    S.goes (seen ++ [e]) p s = some (S.micro e q t) := by
  induction seen generalizing p s with
  | nil =>
    cases part
    simp [goes, more]
  | cons e' seen ih =>
    rw [goes] at part
    split at part
    · cases part
    · rw [List.cons_append, goes, if_neg ‹_›]
      exact ih part

/-- A section that is to end and has not goes on. -/
theorem goes_on {seen : List η} {p q : π} {s t : σ} (part : S.goes seen p s = some (q, t))
    (more : S.ended p = false) (ended : S.ended q = true) :
    ∃ e rest, seen = e :: rest ∧ S.goes rest (S.micro e p s).1 (S.micro e p s).2 = some (q, t) := by
  cases seen with
  | nil =>
    cases part
    cases more.symm.trans ended
  | cons e rest =>
    rw [goes, if_neg (by simp [more])] at part
    exact ⟨e, rest, rfl, part⟩

theorem goes_ended {seen : List η} {p q : π} {s t : σ} (part : S.goes seen p s = some (q, t))
    (ended : S.ended p = true) : seen = [] ∧ q = p ∧ t = s := by
  cases seen with
  | nil =>
    cases part
    exact ⟨rfl, rfl, rfl⟩
  | cons e rest =>
    rw [goes, if_pos ended] at part
    cases part

variable {ok : Shared ι σ η κ π × Story ι η κ π → Turn ι η κ → Prop}
  {R : List (Left ι η κ π) → η → σ → Prop} {Q : κ → List η → η → Prop}
  {m n : Shared ι σ η κ π} {g : Story ι η κ π}

theorem Between.idle (between : Between S R Q (m, g)) (lock : m.lock = false) :
    (∀ i, m.inside i = .none) ∧ g.seen = [] ∧ R g.left m.env m.data := by
  cases between with
  | free _ nobody seen reached => exact ⟨nobody, seen, reached⟩
  | taken lock' _ _ _ _ _ => cases lock.symm.trans lock'

/-- Only the thread that has the lock is inside. -/
theorem Between.thread {i : ι} {k : κ} {p : π} (between : Between S R Q (m, g))
    (there : m.inside i = some (k, p)) :
    m.lock = true ∧ (∀ j, j ≠ i → m.inside j = .none) ∧ Q k g.seen m.env ∧
      ∃ s, R g.left m.env s ∧ S.goes g.seen (S.enter k) s = some (p, m.data) := by
  cases between with
  | free _ nobody _ _ => cases (nobody i).symm.trans there
  | @taken _ _ i' k' p' s lock there' alone reached part saw =>
    by_cases same : i = i'
    · subst same
      cases there'.symm.trans there
      exact ⟨lock, alone, saw, s, reached, part⟩
    · cases (alone i same).symm.trans there

theorem Between.alone (between : Between S R Q (m, g)) {i j : ι} (inside : m.inside i ≠ .none)
    (inside' : m.inside j ≠ .none) : i = j := by
  obtain ⟨⟨k, p⟩, there⟩ := Option.ne_none_iff_exists'.mp inside
  by_contra other
  exact inside' ((between.thread there).2.1 j (Ne.symm other))

theorem Between.outside (laws : Laws S ok R Q) (between : Between S R Q (m, g)) {e : η}
    (allowed : ok (m, g) (.outside e)) : Between S R Q ({ m with env := e }, g) := by
  cases between with
  | free lock nobody seen reached =>
    exact .free lock nobody seen (laws.outside _ e _ _ allowed reached)
  | taken lock there alone reached part saw =>
    exact .taken lock there alone (laws.outside _ e _ _ allowed reached) part
      (laws.meanwhile _ e _ _ _ allowed there saw)

variable [DecidableEq ι]

variable (S) in
def step (m : Shared ι σ η κ π) : Turn ι η κ → Except Blocked (Shared ι σ η κ π)
  | .lock i k =>
    match m.inside i with
    | some _ => .error .elsewhere
    | .none =>
      if m.lock then .error .lock
      else .ok { m with lock := true, inside := Function.update m.inside i (some (k, S.enter k)) }
  | .micro i =>
    match m.inside i with
    | .none => .error .elsewhere
    | some (k, p) =>
      if S.ended p then .error .elsewhere
      else .ok { m with
        data := (S.micro m.env p m.data).2
        inside := Function.update m.inside i (some (k, (S.micro m.env p m.data).1)) }
  | .unlock i =>
    match m.inside i with
    | .none => .error .elsewhere
    | some (_, p) =>
      if S.ended p then .ok { m with lock := false, inside := Function.update m.inside i .none }
      else .error .elsewhere
  | .outside e => .ok { m with env := e }

def record (g : Story ι η κ π) (m : Shared ι σ η κ π) : Turn ι η κ → Story ι η κ π
  | .micro _ => { g with seen := g.seen ++ [m.env] }
  | .unlock i =>
    match m.inside i with
    | .none => g
    | some (k, p) => ⟨g.left ++ [⟨i, k, g.seen, p⟩], []⟩
  | _ => g

theorem Between.locks {i : ι} {k : κ} (laws : Laws S ok R Q) (between : Between S R Q (m, g))
    (allowed : ok (m, g) (.lock i k)) (stepped : S.step m (.lock i k) = .ok n) :
    Between S R Q (n, g) := by
  simp only [step] at stepped
  split at stepped
  · cases stepped
  · obtain ⟨free, stepped⟩ := ite_error_ok stepped
    cases stepped
    obtain ⟨nobody, seen, reached⟩ := between.idle (eq_false_of_ne_true free)
    refine .taken rfl (Function.update_self i _ _) (fun j other => ?_) reached ?_ ?_
    · exact (Function.update_of_ne other _ _).trans (nobody j)
    · rw [seen]
      rfl
    · rw [seen]
      exact laws.enter _ i k allowed

theorem Between.micros {i : ι} (laws : Laws S ok R Q) (between : Between S R Q (m, g))
    (stepped : S.step m (.micro i) = .ok n) :
    Between S R Q (n, { g with seen := g.seen ++ [m.env] }) := by
  simp only [step] at stepped
  split at stepped
  · cases stepped
  · rename_i k p there
    obtain ⟨more, stepped⟩ := ite_error_ok stepped
    cases stepped
    obtain ⟨lock, alone, saw, s, reached, part⟩ := between.thread there
    refine .taken lock (Function.update_self i _ _) (fun j other => ?_) reached ?_ ?_
    · exact (Function.update_of_ne other _ _).trans (alone j other)
    · exact goes_concat part (eq_false_of_ne_true more)
    · exact laws.micro k g.seen m.env saw

theorem Between.unlocks {i : ι} (laws : Laws S ok R Q) (between : Between S R Q (m, g))
    (stepped : S.step m (.unlock i) = .ok n) : Between S R Q (n, record g m (.unlock i)) := by
  simp only [step, record] at stepped ⊢
  split at stepped
  · cases stepped
  · rename_i k p there
    obtain ⟨ended, stepped⟩ := ite_ok stepped
    cases stepped
    obtain ⟨-, alone, saw, s, reached, part⟩ := between.thread there
    refine .free rfl (fun j => ?_) rfl (laws.whole _ _ _ _ _ reached saw ⟨part, ended⟩)
    by_cases own : j = i
    · subst own
      exact Function.update_self j _ _
    · exact (Function.update_of_ne own _ _).trans (alone j own)

theorem between_step (laws : Laws S ok R Q) {x y : Shared ι σ η κ π × Story ι η κ π}
    {e : Turn ι η κ} (between : Between S R Q x) (allowed : ok x e)
    (h : ghosted S.step record x e = .ok y) : Between S R Q y := by
  obtain ⟨m, g⟩ := x
  obtain ⟨n, g'⟩ := y
  obtain ⟨stepped, recorded⟩ := ghosted_ok h
  simp only at stepped recorded
  subst recorded
  cases e with
  | lock i k => exact between.locks laws allowed stepped
  | micro i => exact between.micros laws stepped
  | unlock i => exact between.unlocks laws stepped
  | outside e =>
    cases stepped
    exact between.outside laws allowed

/-- The threads before any of them is inside. -/
def idle (start : σ) (env : η) : Shared ι σ η κ π := ⟨start, env, false, fun _ => .none⟩

/-- However the threads' steps are interleaved, what is kept by whole sections and by the
surroundings holds between them. -/
theorem between_run (laws : Laws S ok R Q) {start : σ} {env : η} (initial : R [] env start)
    {es : List (Turn ι η κ)} {x : Shared ι σ η κ π × Story ι η κ π}
    (run : Run (ghosted S.step record) ok (idle start env, .none) es x) : Between S R Q x := by
  apply run.invariant (I := Between S R Q)
  · exact .free rfl (fun _ => rfl) rfl initial
  · intro x e y between allowed stepped
    exact between_step laws between allowed stepped

omit [DecidableEq ι] in
/-- The data is what the sections left so far make of it, each as a whole and in their order. -/
theorem laws_follows (start : σ) :
    Laws S ok (fun left _ s => Follows S.Whole start left s) (fun _ _ _ => True) where
  enter _ _ _ _ := trivial
  micro _ _ _ _ := trivial
  whole _ _ _ _ _ follows _ whole := follows.next whole
  outside _ _ _ _ _ follows := follows
  meanwhile _ _ _ _ _ _ _ _ := trivial

end Sections

end KernelModules
