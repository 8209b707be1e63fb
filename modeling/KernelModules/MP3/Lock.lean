import KernelModules.MP3.Sampler

/-!
# The lock

Each operation that takes the lock releases it before it returns, with one exception: a request
to unregister a pid that is not on the list. From there on nothing that needs the lock returns.
-/

namespace KernelModules.MP3

/-- The pid of a request to unregister is on the list. -/
def Request.Listed (s : State) : Request → Prop
  | .register _ => True
  | .unregister pid => getByPid s pid ≠ none

instance Request.decidableListed (s : State) (r : Request) : Decidable (r.Listed s) :=
  match r with
  | .register _ => .isTrue trivial
  | .unregister pid => inferInstanceAs (Decidable (getByPid s pid ≠ none))

def Listed (s : State) : Event → Prop
  | .write w => ∀ r ∈ w.request, r.Listed s
  | _ => True

instance decidableListed (s : State) (e : Event) : Decidable (Listed s e) :=
  match e with
  | .write w => inferInstanceAs (Decidable (∀ r ∈ w.request, r.Listed s))
  | .fire => .isTrue trivial
  | .tick => .isTrue trivial
  | .fork _ _ => .isTrue trivial
  | .accrue _ _ => .isTrue trivial
  | .exit _ => .isTrue trivial

section

variable {s t : State} {e : Event}

/-- The lock is held after an operation when it was before, or when the operation is the
exception. -/
theorem mywrite_lock {w : Write} (h : mywrite s w = .ok t) :
    t.lock = false ↔ s.lock = false ∧ Listed s (.write w) := by
  unfold mywrite at h
  match request : w.request with
  | none =>
    rw [request] at h
    cases h
    simp [Listed, request]
  | some (.register pid) =>
    rw [request] at h
    rcases regEntry_ok h with rfl | ⟨free, -, new, -, rfl⟩ <;>
      simp [Listed, Request.Listed, request]
  | some (.unregister pid) =>
    rw [request] at h
    obtain ⟨free, ⟨missing, rfl⟩ | ⟨found, rest, -, rfl⟩⟩ := unregEntry_ok h
    · simp [Listed, Request.Listed, request, missing]
    · simp [Listed, Request.Listed, request, found]

theorem step_lock (h : step s e = .ok t) : t.lock = false ↔ s.lock = false ∧ Listed s e := by
  cases e with
  | write w => exact mywrite_lock h
  | fire =>
    rcases workqueueCallback_ok h with ⟨-, rfl⟩ | ⟨-, free, rfl⟩
    · simp [Listed, cancelDelayedWorkSync]
    · simp [Listed, takeSample, queueDelayedWork, cancelDelayedWorkSync]
  | tick => cases h; simp [Listed]
  | fork pid task => cases h; simp [Listed]
  | accrue pid task => cases h; simp [Listed]
  | exit pid => cases h; simp [Listed]

theorem spinLock_free (free : s.lock = false) : spinLock s = .ok { s with lock := true } := by
  simp [spinLock, free]

/-- With the lock free no operation waits for it in vain. -/
theorem step_proceeds (free : s.lock = false) (e : Event) : step s e ≠ .error .spins := by
  cases e with
  | write w =>
    simp only [step, mywrite]
    cases w.request with
    | none => simp
    | some request =>
      cases request with
      | register pid =>
        simp only [regEntry]
        split
        · simp
        · split
          · simp
          · rw [spinLock_free free]
            intro spins
            cases spins
      | unregister pid =>
        simp only [unregEntry, spinLock_free free, bind, Except.bind]
        cases getByPid { s with lock := true } pid with
        | none => simp
        | some task => simp
  | fire =>
    simp only [step, workqueueCallback]
    split
    · simp
    · rw [spinLock_free (s := cancelDelayedWorkSync s) free]
      intro spins
      cases spins
  | tick => simp [step]
  | fork pid task => simp [step]
  | accrue pid task => simp [step]
  | exit pid => simp [step]

end

/-- A run whose requests to unregister all name pids on the list. -/
abbrev Orderly (start : State) (es : List Event) (s : State) : Prop :=
  Run step (fun s e => Possible s e ∧ Listed s e) start es s

section

variable {start s : State} {es : List Event}

/-- Once kept, the lock is never released: a run that ends with it free was orderly throughout. -/
theorem lock_iff_orderly (run : Run step Possible start es s) (free : start.lock = false) :
    s.lock = false ↔ Orderly start es s := by
  constructor
  · intro now
    induction run with
    | init => exact .init
    | next _ possible stepped ih =>
      obtain ⟨before, listed⟩ := (step_lock stepped).mp now
      exact (ih before).next ⟨possible, listed⟩ stepped
  · intro orderly
    apply orderly.invariant free
    rintro s e t free ⟨-, listed⟩ stepped
    exact (step_lock stepped).mpr ⟨free, listed⟩

/-- Every operation of a run has returned with the lock free, and every later one gets it,
exactly when no request of the run unregistered a pid that was not on the list. -/
theorem lock_free_iff {vm : Nat → Nat} {jiffies : Nat} {processes : Nat → Option Process}
    (run : Run step Possible (State.init vm jiffies processes) es s) :
    (s.lock = false ∧ ∀ e, step s e ≠ .error .spins) ↔
      Orderly (State.init vm jiffies processes) es s := by
  rw [← lock_iff_orderly run rfl]
  exact ⟨And.left, fun free => ⟨free, step_proceeds free⟩⟩

end

/-- A process registers, is sampled, and unregisters. -/
theorem lock_free_iff_session :
    ∃ s, Run step Possible (State.init (fun _ => 0) 0 (fun _ => none))
        [.fork 7 ⟨1, 0, 2, 3⟩, .write ⟨bytes "R 7", some ⟨0, 0, 0, 0, 0⟩⟩, .fire,
          .write ⟨bytes "U 7", none⟩] s ∧
      s.lock = false ∧ ∀ e, step s e ≠ .error .spins := by
  have h : (replay step (fun s e => Possible s e ∧ Listed s e)
      (State.init (fun _ => 0) 0 (fun _ => none))
      [.fork 7 ⟨1, 0, 2, 3⟩, .write ⟨bytes "R 7", some ⟨0, 0, 0, 0, 0⟩⟩, .fire,
        .write ⟨bytes "U 7", none⟩]).map (fun s => s.head) = some [] := by decide
  obtain ⟨s, replayed, -⟩ := Option.map_eq_some_iff.mp h
  have orderly := Run.of_replay replayed
  have run : Run step Possible _ _ s := orderly.imp fun _ _ => And.left
  exact ⟨s, run, (lock_free_iff run).mpr orderly⟩

/-- `U 5` with nothing registered returns with the lock held, and a process that exists can no
longer register. -/
theorem lock_kept :
    ¬ ∀ (es : List Event) (s : State),
      Run step Possible (State.init (fun _ => 0) 0 (fun _ => some ⟨0, 0, 0, 0⟩)) es s →
      s.lock = false ∧ ∀ e, step s e ≠ .error .spins := by
  intro free
  have h : (replay step Possible (State.init (fun _ => 0) 0 (fun _ => some ⟨0, 0, 0, 0⟩))
      [.write ⟨bytes "U 5", none⟩]).map (fun s => s.lock) = some true := by decide
  obtain ⟨s, replayed, held⟩ := Option.map_eq_some_iff.mp h
  rw [(free _ s (.of_replay replayed)).1] at held
  cases held

end KernelModules.MP3
