import KernelModules.Lib.Handover
import KernelModules.MP1.Registry

/-!
# The registry step by step

Writers, readers, the unloading of the module, the timer and the work callbacks it queues,
interleaved at every point where one of them can wait: for the lock, or in `destroy_workqueue`
for the callbacks. `mp1_exit` makes that second wait with the lock held.
-/

namespace KernelModules.MP1

/-- What a thread takes the lock for. -/
inductive Job
  /-- `mywrite`, with the node it has set up. -/
  | write (newnode : ProcCpu)
  /-- `myread`; `kmalloc` has returned a buffer or NULL. -/
  | read (allocated : Bool)
  /-- `mp1_exit` -/
  | exit
  deriving DecidableEq, Repr

/-- Where a thread is. -/
inductive Pc
  | outside
  /-- In `spin_lock`. -/
  | spins (t : Job)
  /-- Behind `spin_lock`, before anything is done. -/
  | holds (t : Job)
  /-- In `destroy_workqueue`. -/
  | destroys
  deriving DecidableEq, Repr

/-- A `struct work_struct` of `tm_callback`. Its callback `waits` in its `spin_lock`. -/
inductive Work
  | queued
  | waits
  | holds
  | done
  deriving DecidableEq, Repr

/-- The module, its threads, every work the timer has queued, and the timer. -/
structure Machine where
  module : State
  threads : List Pc
  works : List Work
  armed : Bool
  phase : Phase

def Machine.init (processes : Int → Option Nat) (n : Nat) : Machine :=
  ⟨State.init processes, List.replicate n .outside, [], true, .live⟩

inductive Move
  /-- A thread writes to the proc file. -/
  | write (i : Nat) (w : Write)
  /-- A thread reads from it, at an offset. -/
  | read (i : Nat) (offset : Nat) (allocated : Bool)
  /-- A thread unloads the module. -/
  | unload (i : Nat)
  /-- `spin_lock` returns. -/
  | lock (i : Nat)
  /-- What a thread does behind `spin_lock`, up to where it returns or waits. -/
  | work (i : Nat)
  /-- `destroy_workqueue` returns. -/
  | destroyed (i : Nat)
  /-- `tm_callback`. -/
  | timer (allocated : Bool)
  /-- A queued callback starts. -/
  | start (k : Nat)
  /-- `spin_lock` returns in a callback. -/
  | enter (k : Nat)
  /-- A callback updates the list and returns. -/
  | finish (k : Nat)
  /-- A process appears, uses time or goes. -/
  | process (pid : Int) (utime : Option Nat)
  deriving DecidableEq, Repr

/-- Remove the first node as long as there is one. -/
def freell : List ProcCpu → List ProcCpu
  | [] => []
  | _ :: rest => freell rest

namespace Machine

/-- The thread goes to `pc` and leaves the module as `s`. -/
def goto (m : Machine) (i : Nat) (pc : Pc) (s : State) : Machine :=
  { m with module := s, threads := m.threads.set i pc }

/-- The part of `mywrite` before the lock. -/
def write (m : Machine) (i : Nat) (w : Write) : Except Blocked Machine :=
  match w.currPid with
  | none => .ok m
  | some currPid =>
    if w.allocated then .ok (m.goto i (.spins (.write ⟨0, currPid⟩)) m.module) else .error .oops

/-- The part of `myread` before the lock. The message about an empty list moves the offset, which
ends the call too. -/
def read (m : Machine) (i : Nat) (offset : Nat) (allocated : Bool) : Machine :=
  if m.module.size = 0 ∨ offset > 0 then m else m.goto i (.spins (.read allocated)) m.module

/-- What stands behind `spin_lock` in `mywrite`, `myread` and `mp1_exit`. -/
def work (m : Machine) (i : Nat) : Job → Except Blocked Machine
  | .write newnode => .ok (m.goto i .outside (spinUnlock (addTail m.module newnode)))
  -- NULL is written to, or copied from
  | .read false => .error .oops
  | .read true => .ok (m.goto i .outside (spinUnlock m.module))
  -- `proc_remove`
  | .exit => .ok { m.goto i .destroys m.module with phase := .removed }

/-- The callback `k` is now `w` and leaves the module as `s`. -/
def goes (m : Machine) (k : Nat) (w : Work) (s : State) : Machine :=
  { m with module := s, works := m.works.set k w }

def step (m : Machine) : Move → Except Blocked Machine
  | .write i w =>
    if m.threads[i]? = some .outside then
      if m.phase = .removed then .error .phase else m.write i w
    else .error .elsewhere
  | .read i offset allocated =>
    if m.threads[i]? = some .outside then
      if m.phase = .removed then .error .phase else .ok (m.read i offset allocated)
    else .error .elsewhere
  | .unload i =>
    if m.threads[i]? = some .outside then
      -- `del_timer_sync`
      if m.phase = .live then
        .ok { m.goto i (.spins .exit) m.module with armed := false, phase := .going }
      else .error .phase
    else .error .elsewhere
  | .lock i =>
    match m.threads[i]? with
    | some (.spins t) =>
      if m.module.lock then .error .lock
      else .ok (m.goto i (.holds t) { m.module with lock := true })
    | _ => .error .elsewhere
  | .work i =>
    match m.threads[i]? with
    | some (.holds t) => m.work i t
    | _ => .error .elsewhere
  | .destroyed i =>
    match m.threads[i]? with
    | some .destroys =>
      if ∀ w ∈ m.works, w = .done then
        .ok (m.goto i .outside (spinUnlock { m.module with list := freell m.module.list }))
      else .error .callback
    | _ => .error .elsewhere
  | .timer allocated =>
    if m.armed then .ok (if allocated then { m with works := m.works ++ [.queued] } else m)
    else .error .callback
  | .start k =>
    if m.works[k]? = some .queued then .ok (m.goes k .waits m.module) else .error .callback
  | .enter k =>
    if m.works[k]? = some .waits then
      if m.module.lock then .error .lock
      else .ok (m.goes k .holds { m.module with lock := true })
    else .error .callback
  | .finish k =>
    if m.works[k]? = some .holds then .ok (m.goes k .done (spinUnlock (updateAll m.module)))
    else .error .callback
  | .process pid utime =>
    .ok { m with module := { m.module with
      processes := Function.update m.module.processes pid utime } }

end Machine

/-- A thread that has the lock waits for the callbacks, and a callback waits for the lock. -/
def Machine.Deadlocked (m : Machine) : Prop :=
  m.module.lock = true ∧ .waits ∈ m.works ∧ .destroys ∈ m.threads

/-- What a thread has of the lock. -/
def Pc.hold : Pc → Hold
  | .outside => .out
  | .spins _ => .out
  | .holds .exit => .syncs
  | .holds _ => .holds
  | .destroys => .syncs

/-- What a callback has of it. -/
def Work.callback : Work → Callback
  | .queued => .idle
  | .waits => .waits
  | .holds => .holds
  | .done => .idle

/-- The lock is not taken to unload the module while a callback waits for it, and no callback
starts while a thread has the lock for that. -/
def Machine.Careful (m : Machine) : Move → Prop
  | .lock i => m.threads[i]? = some (.spins .exit) → .waits ∉ m.works
  | .start _ => ∀ pc ∈ m.threads, pc.hold ≠ .syncs
  | _ => True

instance (m : Machine) (e : Move) : Decidable (m.Careful e) :=
  match e with
  | .lock i => inferInstanceAs (Decidable (m.threads[i]? = some (.spins .exit) → .waits ∉ m.works))
  | .start _ => inferInstanceAs (Decidable (∀ pc ∈ m.threads, pc.hold ≠ .syncs))
  | .write _ _ => .isTrue trivial
  | .read _ _ _ => .isTrue trivial
  | .unload _ => .isTrue trivial
  | .work _ => .isTrue trivial
  | .destroyed _ => .isTrue trivial
  | .timer _ => .isTrue trivial
  | .enter _ => .isTrue trivial
  | .finish _ => .isTrue trivial
  | .process _ _ => .isTrue trivial

/-! ## The abstract view -/

def Machine.view (m : Machine) : Handover Nat Nat where
  lock := m.module.lock
  thread i := m.threads[i]?.elim .out Pc.hold
  callback k := m.works[k]?.elim .idle Work.callback

section

variable {m n : Machine} {s : State} {i k : Nat} {pc : Pc} {w : Work}

theorem view_thread (there : m.threads[i]? = some pc) : m.view.thread i = pc.hold := by
  simp [Machine.view, there]

theorem view_callback (there : m.works[k]? = some w) : m.view.callback k = w.callback := by
  simp [Machine.view, there]

theorem view_goto (there : m.threads[i]? = some pc) (pc' : Pc) :
    (m.goto i pc' s).view.thread i = pc'.hold := by
  have bound : i < m.threads.length := (List.getElem?_eq_some_iff.mp there).1
  simp [Machine.view, Machine.goto, bound]

theorem view_goes (there : m.works[k]? = some w) (w' : Work) :
    (m.goes k w' s).view.callback k = w'.callback := by
  have bound : k < m.works.length := (List.getElem?_eq_some_iff.mp there).1
  simp [Machine.view, Machine.goes, bound]

theorem goto_only (pc : Pc) : m.view.ByThread (m.goto i pc s).view i := by
  refine ⟨fun j other => ?_, fun _ => rfl⟩
  simp only [Machine.view, Machine.goto, List.getElem?_set_ne (Ne.symm other)]

theorem goes_only (w : Work) : m.view.ByCallback (m.goes k w s).view k := by
  refine ⟨fun _ => rfl, fun l other => ?_⟩
  simp only [Machine.view, Machine.goes, List.getElem?_set_ne (Ne.symm other)]

/-- A thread that keeps what it has of the lock is not seen to move. -/
theorem goto_stay (there : m.threads[i]? = some pc) (pc' : Pc) (same : pc'.hold = pc.hold) :
    m.view.Move (m.goto i pc' m.module).view := by
  obtain ⟨threads, callbacks⟩ := goto_only (m := m) (s := m.module) (i := i) pc'
  refine .stay rfl (fun j => ?_) callbacks
  by_cases own : j = i
  · rw [own, view_goto there, view_thread there, same]
  · exact threads j own

/-- A thread outside goes to wait for the lock. -/
theorem view_spins (there : m.threads[i]? = some .outside) (t : Job) :
    m.view.Move (m.goto i (.spins t) m.module).view :=
  goto_stay there (.spins t) rfl

/-- A thread that has the lock leaves. -/
theorem view_leaves (there : m.threads[i]? = some pc) (had : pc.hold ≠ .out) :
    m.view.Move (m.goto i .outside s).view := by
  rw [← view_thread there] at had
  exact .give i had (view_goto there .outside) (goto_only _)

theorem view_same : m.view.Move m.view := .stay rfl (fun _ => rfl) fun _ => rfl

/-- Work that is queued is not seen before it starts. -/
theorem view_queued : m.view.Move ({ m with works := m.works ++ [.queued] } : Machine).view := by
  refine .stay rfl (fun _ => rfl) fun k => ?_
  simp only [Machine.view]
  rcases Nat.lt_trichotomy k m.works.length with earlier | rfl | later
  · rw [List.getElem?_append_left earlier]
  · simp [Work.callback]
  · rw [List.getElem?_append_right later.le, List.getElem?_eq_none later.le,
      List.getElem?_eq_none (by simp only [List.length_singleton]; omega)]

theorem view_work {t : Job} (there : m.threads[i]? = some (.holds t))
    (stepped : m.work i t = .ok n) : m.view.Move n.view := by
  cases t with
  | write newnode =>
    cases stepped
    exact view_leaves there (by simp [Pc.hold])
  | read allocated =>
    cases allocated with
    | false => cases stepped
    | true =>
      cases stepped
      exact view_leaves there (by decide)
  | exit =>
    cases stepped
    exact goto_stay there .destroys rfl

theorem waits_mem (waits : m.view.callback k = .waits) : .waits ∈ m.works := by
  simp only [Machine.view] at waits
  cases there : m.works[k]? with
  | none =>
    rw [there] at waits
    cases waits
  | some w =>
    rw [there] at waits
    cases w with
    | waits => exact List.mem_of_getElem? there
    | _ => cases waits

theorem view_write {w : Write} (there : m.threads[i]? = some .outside)
    (stepped : m.write i w = .ok n) : m.view.Move n.view := by
  unfold Machine.write at stepped
  split at stepped
  · cases stepped
    exact view_same
  · obtain ⟨-, stepped⟩ := ite_ok stepped
    cases stepped
    exact view_spins there _

theorem view_read (there : m.threads[i]? = some .outside) (offset : Nat) (allocated : Bool) :
    m.view.Move (m.read i offset allocated).view := by
  unfold Machine.read
  split
  · exact view_same
  · exact view_spins there _

theorem view_lock {t : Job} (there : m.threads[i]? = some (.spins t))
    (careful : m.Careful (.lock i)) (free : ¬ m.module.lock = true) :
    m.view.Move (m.goto i (.holds t) { m.module with lock := true }).view := by
  refine .take i (eq_false_of_ne_true free) rfl (goto_only _) fun syncs k waits => ?_
  rw [view_goto there] at syncs
  cases t with
  | write newnode => cases syncs
  | read allocated => cases syncs
  | exit => exact careful there (waits_mem waits)

theorem view_start (there : m.works[k]? = some .queued) (careful : m.Careful (.start k)) :
    m.view.Move (m.goes k .waits m.module).view := by
  refine .start k rfl (view_goes there _) (goes_only _) fun i => ?_
  cases inside : m.threads[i]? with
  | none => simp [Machine.view, inside]
  | some pc =>
    rw [view_thread inside]
    exact careful pc (List.mem_of_getElem? inside)

/-- Every step is one that keeps clear. -/
theorem view_step {e : Move} (careful : m.Careful e) (stepped : m.step e = .ok n) :
    m.view.Move n.view := by
  cases e with
  | write i w =>
    obtain ⟨there, stepped⟩ := ite_ok stepped
    exact view_write there (ite_error_ok stepped).2
  | read i offset allocated =>
    obtain ⟨there, stepped⟩ := ite_ok stepped
    cases (ite_error_ok stepped).2
    exact view_read there offset allocated
  | unload i =>
    obtain ⟨there, stepped⟩ := ite_ok stepped
    cases (ite_ok stepped).2
    exact view_spins there .exit
  | lock i =>
    simp only [Machine.step] at stepped
    split at stepped
    · obtain ⟨free, stepped⟩ := ite_error_ok stepped
      cases stepped
      exact view_lock ‹_› careful free
    · cases stepped
  | work i =>
    simp only [Machine.step] at stepped
    split at stepped
    · exact view_work ‹_› stepped
    · cases stepped
  | destroyed i =>
    simp only [Machine.step] at stepped
    split at stepped
    · cases (ite_ok stepped).2
      exact view_leaves ‹_› (by decide)
    · cases stepped
  | timer allocated =>
    cases (ite_ok stepped).2
    cases allocated with
    | false => exact view_same
    | true => exact view_queued
  | start k =>
    obtain ⟨there, stepped⟩ := ite_ok stepped
    cases stepped
    exact view_start there careful
  | enter k =>
    obtain ⟨there, stepped⟩ := ite_ok stepped
    obtain ⟨free, stepped⟩ := ite_error_ok stepped
    cases stepped
    exact .enter k (eq_false_of_ne_true free) rfl (goes_only _)
  | finish k =>
    obtain ⟨there, stepped⟩ := ite_ok stepped
    cases stepped
    exact .leave k (view_callback there) (view_goes there _) (goes_only _)
  | process pid utime =>
    cases stepped
    exact view_same

theorem Machine.Deadlocked.unsound (dead : m.Deadlocked) : ¬ m.view.Sound := by
  intro sound
  obtain ⟨-, waits, destroys⟩ := dead
  obtain ⟨i, there⟩ := List.mem_iff_getElem?.mp destroys
  obtain ⟨k, there'⟩ := List.mem_iff_getElem?.mp waits
  exact sound.clear i k (view_thread there) (view_callback there')

end

theorem sound_init (processes : Int → Option Nat) (n : Nat) :
    (Machine.init processes n).view.Sound := by
  refine .initial (fun i => ?_) fun _ => rfl
  simp only [Machine.view, Machine.init, List.getElem?_replicate]
  split <;> rfl

theorem sound_run {processes : Int → Option Nat} {n : Nat} {es : List Move} {m : Machine}
    (run : Run Machine.step Machine.Careful (.init processes n) es m) : m.view.Sound :=
  run.invariant (I := fun m => m.view.Sound) (sound_init processes n)
    fun _ _ _ sound careful stepped => sound.move (view_step careful stepped)

/-! ## Steps that are not careful -/

section

variable {m n : Machine} {i : Nat}

/-- A thread that has the lock to unload the module gets to wait for the callbacks. -/
theorem work_deadlocks (there : m.threads[i]? = some (.holds .exit)) (taken : m.module.lock = true)
    (waits : .waits ∈ m.works) : ∃ n, m.step (.work i) = .ok n ∧ n.Deadlocked := by
  have bound : i < m.threads.length := (List.getElem?_eq_some_iff.mp there).1
  simp only [Machine.step, there, Machine.work]
  exact ⟨_, rfl, taken, waits, List.mem_set bound _⟩

/-- After a step that is not careful the machine is deadlocked, or is once the thread that has
the lock goes on. -/
theorem careless_deadlocks (sound : m.view.Sound) {e : Move} (careless : ¬ m.Careful e)
    (stepped : m.step e = .ok n) :
    n.Deadlocked ∨ ∃ i k, n.step (.work i) = .ok k ∧ k.Deadlocked := by
  cases e with
  | lock i =>
    simp only [Machine.Careful, not_forall, not_not] at careless
    obtain ⟨there, waits⟩ := careless
    simp only [Machine.step, there] at stepped
    cases (ite_error_ok stepped).2
    have bound : i < m.threads.length := (List.getElem?_eq_some_iff.mp there).1
    exact .inr ⟨i, work_deadlocks (List.getElem?_set_self bound) rfl waits⟩
  | start k =>
    simp only [Machine.Careful, not_forall, not_not] at careless
    obtain ⟨pc, inside, syncs⟩ := careless
    obtain ⟨i, there⟩ := List.mem_iff_getElem?.mp inside
    have taken : m.module.lock = true := sound.taken i (by rw [view_thread there, syncs]; decide)
    obtain ⟨queued, stepped⟩ := ite_ok stepped
    cases stepped
    have bound : k < m.works.length := (List.getElem?_eq_some_iff.mp queued).1
    have waits : .waits ∈ m.works.set k .waits := List.mem_set bound _
    cases pc with
    | outside => cases syncs
    | spins t => cases syncs
    | holds t =>
      cases t with
      | write newnode => cases syncs
      | read allocated => cases syncs
      | exit => exact .inr ⟨i, work_deadlocks there taken waits⟩
    | destroys => exact .inl ⟨taken, waits, inside⟩
  | _ => exact absurd trivial careless

end

/-! ## One party at a time

When nobody starts before the others are done, the machine does what the operations do as a
whole, and all of it is careful. -/

/-- One thread, and nobody inside, after `n` callbacks. -/
def Machine.alone (s : State) (n : Nat) : Machine :=
  ⟨s, [.outside], List.replicate n .done, true, .live⟩

theorem alone_step {s t : State} {e : Event} (stepped : step s e = .ok t) (n : Nat) :
    ∃ es n', replay Machine.step Machine.Careful (.alone s n) es = some (.alone t n') := by
  obtain ⟨w, rfl, rejected, rfl⟩ | ⟨w, pid, rfl, accepted, allocated, free, rfl⟩ |
    ⟨rfl, free, rfl⟩ | ⟨pid, utime, rfl, rfl⟩ := step_cases stepped
  · exact ⟨[.write 0 w], n, by
      simp [replay, Machine.Careful, Machine.step, Machine.alone, Machine.write, rejected]⟩
  · exact ⟨[.write 0 w, .lock 0, .work 0], n, by
      simp [replay, Machine.Careful, Machine.step, Machine.alone, Machine.write, accepted,
        allocated, free, Machine.goto, Machine.work, addTail, spinUnlock]⟩
  · exact ⟨[.timer true, .start n, .enter n, .finish n], n + 1, by
      simp [replay, Machine.Careful, Machine.step, Machine.alone, Pc.hold, free, Machine.goes,
        List.replicate_succ', updateAll, spinUnlock]⟩
  · exact ⟨[.process pid utime], n, rfl⟩

/-- Every run of whole operations is a careful run of the machine. -/
theorem alone_run {processes : Int → Option Nat} {es : List Event} {s : State}
    (run : Run step (fun _ _ => True) (.init processes) es s) :
    ∃ moves n, Run Machine.step Machine.Careful (.init processes 1) moves (.alone s n) := by
  induction run with
  | init => exact ⟨[], 0, .init⟩
  | next _ _ stepped ih =>
    obtain ⟨moves, n, before⟩ := ih
    obtain ⟨moves', n', replayed⟩ := alone_step stepped n
    exact ⟨moves ++ moves', n', before.extend replayed⟩

end KernelModules.MP1
