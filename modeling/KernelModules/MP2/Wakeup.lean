import KernelModules.MP2.System

/-!
# Waking the dispatcher

The dispatcher's round in the steps another processor can see: scan and switch, set the
thread's state to `TASK_INTERRUPTIBLE`, and `schedule()`, which sleeps only if the state is
still that. A handler changes entries first and calls `wake_up_process(dispatch_kth)` after;
the call takes effect in a step of its own and does nothing to a thread that is running. A
call that takes effect between the scan and the change of state is lost, unless the scan
already saw what it announces.
-/

namespace KernelModules.MP2

/-- Where the dispatcher is in its loop, with its `task->state`. -/
inductive Thread
  /-- about to scan, `TASK_RUNNING` -/
  | running
  /-- has scanned and switched, `TASK_RUNNING` -/
  | scanned
  /-- about to call `schedule()`, `TASK_INTERRUPTIBLE` -/
  | interruptible
  /-- about to call `schedule()`, set back to `TASK_RUNNING` by a wake-up -/
  | woken
  | asleep
  deriving DecidableEq, Repr

/-- `seen` counts the wake-ups in flight that were already so at the last scan. -/
structure Machine where
  module : State
  thread : Thread
  seen : Nat

/-- `mp2_init` has created the thread and woken it. -/
def Machine.init (jiffies : Nat) (processes : Nat → Option Process) : Machine :=
  ⟨.init jiffies processes, .running, 0⟩

inductive Act
  | scan
  | setState
  | schedule
  /-- A wake-up takes effect; `fresh` if its cause came after the last scan. -/
  | wake (fresh : Bool)
  | event (e : Event)
  deriving DecidableEq, Repr

def Thread.wake : Thread → Thread
  | .interruptible => .woken
  | .asleep => .running
  | t => t

def act (m : Machine) : Act → Except Fault Machine
  | .scan => (dispatchRound m.module).map fun s => ⟨s, .scanned, s.wakeups⟩
  | .setState => .ok { m with thread := .interruptible }
  | .schedule => .ok { m with thread := if m.thread = .interruptible then .asleep else .running }
  | .wake fresh => .ok
      { module := { m.module with wakeups := m.module.wakeups - 1 }
        thread := m.thread.wake
        seen := if fresh then m.seen else m.seen - 1 }
  | .event e => (step m.module e).map fun s => { m with module := s }

/-- The order of the dispatcher's steps, and what the kernel guarantees of the others. -/
def Enabled (m : Machine) : Act → Prop
  | .scan => m.thread = .running
  | .setState => m.thread = .scanned
  | .schedule => m.thread = .interruptible ∨ m.thread = .woken
  | .wake true => m.seen < m.module.wakeups
  | .wake false => 0 < m.seen
  | .event e => e ≠ .dispatch ∧ Possible m.module e

instance (m : Machine) (a : Act) : Decidable (Enabled m a) :=
  match a with
  | .scan => inferInstanceAs (Decidable (m.thread = .running))
  | .setState => inferInstanceAs (Decidable (m.thread = .scanned))
  | .schedule => inferInstanceAs (Decidable (m.thread = .interruptible ∨ m.thread = .woken))
  | .wake true => inferInstanceAs (Decidable (m.seen < m.module.wakeups))
  | .wake false => inferInstanceAs (Decidable (0 < m.seen))
  | .event e => inferInstanceAs (Decidable (e ≠ .dispatch ∧ Possible m.module e))

/-- No wake-up whose cause came after the scan takes effect before the thread has set itself
interruptible. -/
def Heard (m : Machine) (a : Act) : Prop := a = .wake true → m.thread ≠ .scanned

instance (m : Machine) (a : Act) : Decidable (Heard m a) :=
  inferInstanceAs (Decidable (a = .wake true → m.thread ≠ .scanned))

/-- No ready task that the scan would choose over the current one. -/
def NoneMissed (s : State) : Prop :=
  ∀ t ∈ s.head, t.state = .ready → t.period < intMax →
    ∃ c ∈ s.head, s.currTsk = some c.addr ∧ c.period ≤ t.period

theorem round_noneMissed {s s' : State} (round : dispatchRound s = .ok s') : NoneMissed s' := by
  obtain ⟨chosen, nothing⟩ := scan_spec s.head
  intro t ht ready small
  obtain ⟨rfl, stays⟩ | ⟨next, hnext, _, rfl⟩ := dispatchRound_cases round
  · have awake : t.state ≠ .sleeping := by simp [ready]
    cases hs : (scan s'.head).2 with
    | none => exact absurd (nothing hs t ht awake) (Nat.not_le.mpr small)
    | some next =>
      obtain ⟨hm, _, _, least⟩ := chosen next hs
      exact ⟨next, hm, stays next hs, least t ht awake⟩
  · obtain ⟨hm, _, _, least⟩ := chosen next hnext
    obtain ⟨x, hx, rfl⟩ := List.mem_map.mp ht
    have awake : x.state ≠ .sleeping := by
      intro sleeping
      by_cases hn : x.addr = next.addr <;> simp [switched, hn, sleeping] at ready
    exact ⟨switched s.currTsk next.addr next, List.mem_map_of_mem hm, rfl, least x hx awake⟩

/-- Until it scans again, the dispatcher has missed nothing or a wake-up that came after its
scan is still in flight. -/
structure Attentive (m : Machine) : Prop where
  seen : m.seen ≤ m.module.wakeups
  scanned : m.thread = .scanned ∨ m.thread = .interruptible ∨ m.thread = .asleep →
    m.seen < m.module.wakeups ∨ NoneMissed m.module

theorem noneMissed_enroll {s s' : State} {t : Task} (h : NoneMissed s)
    (sleeping : t.state = .sleeping) (head : s'.head = s.head ++ [t])
    (curr : s'.currTsk = s.currTsk) : NoneMissed s' := by
  intro u hu ready small
  rw [head] at hu
  rw [curr]
  rcases List.mem_append.mp hu with hu | hu
  · obtain ⟨c, hc, rest⟩ := h u hu ready small
    exact ⟨c, head ▸ List.mem_append_left _ hc, rest⟩
  · rw [List.mem_singleton.mp hu, sleeping] at ready
    cases ready

/-- An event that disturbs what the scan decided has a wake-up follow it. -/
theorem event_wakes {s s' : State} {e : Event} (other : e ≠ .dispatch) (eff : Effect s e s') :
    s'.wakeups = s.wakeups + 1 ∨ (s'.wakeups = s.wakeups ∧ (NoneMissed s → NoneMissed s')) := by
  cases eff with
  | idle _ head curr _ _ wakes =>
    refine .inr ⟨wakes, fun h => ?_⟩
    rw [NoneMissed, head, curr]
    exact h
  | enroll pid p c _ _ head curr _ frame =>
    exact .inr ⟨frame.2, fun h => noneMissed_enroll h rfl head curr⟩
  | remove _ _ _ _ _ _ _ frame => exact .inl frame.2
  | activate _ _ _ _ _ _ _ _ frame => exact .inl frame.2
  | advance _ _ _ _ _ _ _ _ _ frame => exact .inl frame.2
  | suspend _ _ _ _ _ _ _ _ _ frame => exact .inl frame.2
  | expire _ _ _ frame => exact .inl frame.2
  | switch => exact absurd rfl other

theorem Attentive.act {m m' : Machine} {a : Act} (h : Attentive m) (enabled : Enabled m a)
    (heard : Heard m a) (acted : act m a = .ok m') : Attentive m' := by
  cases a with
  | scan =>
    obtain ⟨s, round, rfl⟩ := map_ok acted
    exact ⟨Nat.le_refl _, fun _ => .inr (round_noneMissed round)⟩
  | setState =>
    cases acted
    exact ⟨h.seen, fun _ => h.scanned (.inl enabled)⟩
  | schedule =>
    cases acted
    refine ⟨h.seen, fun asleep => ?_⟩
    rcases enabled with thread | thread
    · exact h.scanned (.inr (.inl thread))
    · simp [thread] at asleep
  | wake fresh =>
    cases acted
    have bound := h.seen
    cases fresh with
    | true =>
      -- the thread was not between its scan and its change of state, so it is awake now
      have now : m.seen < m.module.wakeups := enabled
      refine ⟨by simp only [↓reduceIte]; omega, fun still => ?_⟩
      have := heard rfl
      cases ht : m.thread <;> simp_all [Thread.wake]
    | false =>
      have old : 0 < m.seen := enabled
      refine ⟨by simp only [Bool.false_eq_true, ↓reduceIte]; omega, fun still => ?_⟩
      have thread : m.thread = .scanned := by
        cases ht : m.thread <;> simp_all [Thread.wake]
      rcases h.scanned (.inl thread) with unseen | none
      · left
        simp only [Bool.false_eq_true, ↓reduceIte]
        omega
      · exact .inr none
  | event e =>
    obtain ⟨s, stepped, rfl⟩ := map_ok acted
    have bound := h.seen
    rcases event_wakes enabled.1 (step_effect stepped) with wakes | ⟨wakes, keeps⟩
    · exact ⟨by simp only [wakes]; omega, fun _ => .inl (by simp only [wakes]; omega)⟩
    · refine ⟨by simp only [wakes]; exact bound, fun thread => ?_⟩
      simp only [wakes]
      exact (h.scanned thread).imp_right keeps

/-- **No wake-up is lost** in a run in which none takes effect unheard: when the dispatcher
sleeps and nothing is in flight, no ready task should run in place of the current one. -/
theorem wakeups_heard {j : Nat} {processes : Nat → Option Process} {as : List Act} {m : Machine}
    (run : Run act (fun m a => Enabled m a ∧ Heard m a) (.init j processes) as m)
    (asleep : m.thread = .asleep) (silent : m.module.wakeups = 0) : NoneMissed m.module := by
  have h : Attentive m := by
    apply run.invariant
    · exact ⟨Nat.le_refl _, by simp [Machine.init]⟩
    · exact fun m a m' h allowed acted => h.act allowed.1 allowed.2 acted
  rcases h.scanned (.inr (.inr asleep)) with unseen | none
  · omega
  · exact none

theorem wakeups_heard_after_yield :
    ∃ m : Machine, m.thread = .asleep ∧ m.module.currTsk = some 1 ∧ NoneMissed m.module := by
  have slept : (replay act (fun m a => Enabled m a ∧ Heard m a) (.init 1 fun _ => none)
      [.event (.fork 7), .event (.write (.text "R,7,100,1\n" 1)), .scan, .setState, .schedule,
        .event (.write (.text "Y,7\n" 2)), .wake true, .scan, .setState, .schedule]).map
      (fun m => (m.thread, m.module.wakeups, m.module.currTsk)) = some (.asleep, 0, some 1) := by
    decide
  obtain ⟨m, run, hm⟩ := Option.map_eq_some_iff.mp slept
  simp only [Prod.mk.injEq] at hm
  exact ⟨m, hm.1, hm.2.2, wakeups_heard (.of_replay run) hm.1 hm.2.1⟩

/-- A task yields after the scan and the wake-up comes before the thread is interruptible:
it sleeps with a ready task on the list and none current. -/
theorem wakeup_lost :
    ∃ m, Run act Enabled (.init 1 fun _ => none)
      [.event (.fork 7), .event (.write (.text "R,7,100,1\n" 1)), .scan,
        .event (.write (.text "Y,7\n" 2)), .wake true, .setState, .schedule] m ∧
      m.thread = .asleep ∧ m.module.wakeups = 0 ∧ ¬ NoneMissed m.module := by
  refine Run.exists_of_replay (fun m => (m.thread, m.module.wakeups, m.module.currTsk,
    m.module.head.map fun t => (t.state, t.period))) (a := (.asleep, 0, none, [(.ready, 100)]))
    (by decide) fun m _ hm => ?_
  simp only [Prod.mk.injEq] at hm
  refine ⟨hm.1, hm.2.1, fun none => ?_⟩
  obtain ⟨t, ht, load⟩ :=
    List.mem_map.mp (hm.2.2.2 ▸ List.mem_singleton_self (TaskState.ready, 100))
  simp only [Prod.mk.injEq] at load
  obtain ⟨c, _, curr, _⟩ := none t ht load.1 (by rw [load.2]; decide)
  rw [hm.2.2.1] at curr
  cases curr

end KernelModules.MP2
