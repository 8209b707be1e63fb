import KernelModules.Lib.Handover
import KernelModules.MP3.Bound

/-!
# The profiler step by step

Writers, the unloading of the module and the work callback, interleaved at every point where one
of them can wait: for the lock, or in `cancel_delayed_work_sync` and `destroy_workqueue` for the
callback. `unreg_entry` of the last entry and `mp3_exit` make that second wait with the lock held.
-/

namespace KernelModules.MP3

/-- What a thread takes the lock for. -/
inductive Job
  /-- `reg_entry`, with the entry it has set up. -/
  | register (new : Entry)
  | unregister (pid : Int)
  /-- `mp3_exit` -/
  | exit
  deriving DecidableEq, Repr

/-- Where a thread is. -/
inductive Pc
  | outside
  /-- In `spin_lock`. -/
  | spins (t : Job)
  /-- Behind `spin_lock`, before anything is done. -/
  | holds (t : Job)
  /-- In `cancel_delayed_work_sync`. -/
  | cancels (t : Job)
  /-- In `destroy_workqueue`. -/
  | destroys
  deriving DecidableEq, Repr

/-- The module, its threads, and the callback, which `waits` in its `spin_lock` after it found
room in the buffer. -/
structure Machine where
  module : State
  threads : List Pc
  callback : Callback
  phase : Phase

def Machine.init (vm : Nat → Nat) (jiffies : Nat) (processes : Nat → Option Process) (n : Nat) :
    Machine :=
  ⟨State.init vm jiffies processes, List.replicate n .outside, .idle, .live⟩

inductive Move
  /-- A thread writes to the proc file. -/
  | write (i : Nat) (w : Write)
  /-- A thread unloads the module. -/
  | unload (i : Nat)
  /-- `spin_lock` returns. -/
  | lock (i : Nat)
  /-- What a thread does behind `spin_lock`, up to where it returns or waits. -/
  | work (i : Nat)
  /-- `cancel_delayed_work_sync` returns. -/
  | cancelled (i : Nat)
  /-- `destroy_workqueue` returns. -/
  | destroyed (i : Nat)
  /-- The delay runs out and the callback starts. -/
  | fire
  /-- `spin_lock` returns in the callback. -/
  | enter
  /-- The callback takes its sample and returns. -/
  | finish
  | tick
  /-- A process appears, changes its counters or goes. -/
  | process (pid : Nat) (task : Option Process)
  deriving DecidableEq, Repr

namespace Machine

/-- The thread goes to `pc` and leaves the module as `s`. -/
def goto (m : Machine) (i : Nat) (pc : Pc) (s : State) : Machine :=
  { m with module := s, threads := m.threads.set i pc }

/-- The part of `mywrite` before the lock. -/
def write (m : Machine) (i : Nat) (w : Write) : Except Blocked Machine :=
  match w.request with
  | none => .ok m
  | some (.unregister pid) => .ok (m.goto i (.spins (.unregister pid)) m.module)
  | some (.register pid) =>
    match w.block with
    | none => .error .oops
    | some newStruct =>
      match findTaskByPid m.module.processes (toU32 pid) with
      | none => .ok m
      | some _ => .ok (m.goto i (.spins (.register { newStruct with pid := pid })) m.module)

/-- What stands behind `spin_lock` in `reg_entry`, `unreg_entry` and `mp3_exit`. -/
def work (m : Machine) (i : Nat) : Job → Machine
  | .register new =>
    let s := if m.module.head.isEmpty then queueDelayedWork m.module else m.module
    m.goto i .outside (spinUnlock { s with head := s.head ++ [new] })
  | .unregister pid =>
    match getByPid m.module pid with
    -- returns with the lock held
    | none => m.goto i .outside m.module
    | some _ =>
      let s := { m.module with head := m.module.head.eraseP fun itr => decide (itr.pid = pid) }
      if s.head.isEmpty then m.goto i (.cancels (.unregister pid)) { s with offset := 0 }
      else m.goto i .outside (spinUnlock s)
  -- `proc_remove`
  | .exit => { m.goto i (.cancels .exit) m.module with phase := .removed }

def cancelled (m : Machine) (i : Nat) (t : Job) : Machine :=
  let s := cancelDelayedWorkSync m.module
  match t with
  | .exit => m.goto i .destroys s
  | _ => m.goto i .outside (spinUnlock s)

def step (m : Machine) : Move → Except Blocked Machine
  | .write i w =>
    if m.threads[i]? = some .outside then
      if m.phase = .removed then .error .phase else m.write i w
    else .error .elsewhere
  | .unload i =>
    if m.threads[i]? = some .outside then
      if m.phase = .live then .ok { m.goto i (.spins .exit) m.module with phase := .going }
      else .error .phase
    else .error .elsewhere
  | .lock i =>
    match m.threads[i]? with
    | some (.spins t) =>
      if m.module.lock then .error .lock
      else .ok (m.goto i (.holds t) { m.module with lock := true })
    | _ => .error .elsewhere
  | .work i =>
    match m.threads[i]? with
    | some (.holds t) => .ok (m.work i t)
    | _ => .error .elsewhere
  | .cancelled i =>
    match m.threads[i]? with
    | some (.cancels t) => if m.callback = .idle then .ok (m.cancelled i t) else .error .callback
    | _ => .error .elsewhere
  | .destroyed i =>
    match m.threads[i]? with
    | some .destroys =>
      if m.callback = .idle ∧ m.module.pending = false then
        .ok (m.goto i .outside (spinUnlock m.module))
      else .error .callback
    | _ => .error .elsewhere
  | .fire =>
    if m.module.pending = true ∧ m.callback = .idle then
      .ok { m with
        module := cancelDelayedWorkSync m.module
        callback := if m.module.bufferFilledUp then .idle else .waits }
    else .error .callback
  | .enter =>
    if m.callback = .waits then
      if m.module.lock then .error .lock
      else .ok { m with module := { m.module with lock := true }, callback := .holds }
    else .error .callback
  | .finish =>
    if m.callback = .holds then
      .ok { m with module := spinUnlock (takeSample m.module), callback := .idle }
    else .error .callback
  | .tick =>
    .ok { m with module := { m.module with jiffies := Arith.c.u64 (m.module.jiffies + 1) } }
  | .process pid task =>
    .ok { m with module := { m.module with
      processes := Function.update m.module.processes pid task } }

end Machine

/-- A thread that has the lock waits for the callback, and the callback waits for the lock. -/
def Machine.Deadlocked (m : Machine) : Prop :=
  m.module.lock = true ∧ m.callback = .waits ∧
    ∃ pc ∈ m.threads, pc = .destroys ∨ ∃ t, pc = .cancels t

/-- The task waits for the callback before it releases the lock. -/
def Job.syncs (s : State) : Job → Bool
  | .register _ => false
  | .unregister pid => decide (s.head.map Entry.pid = [pid])
  | .exit => true

/-- What a thread has of the lock. -/
def Pc.hold (s : State) : Pc → Hold
  | .outside => .out
  | .spins _ => .out
  | .holds t => if t.syncs s then .syncs else .holds
  | .cancels _ => .syncs
  | .destroys => .syncs

/-- The lock is not taken to unregister the last entry or to unload the module while the callback
waits for it, and the callback does not start, with room in the buffer, while a thread has the
lock for one of these. -/
def Machine.Careful (m : Machine) : Move → Prop
  | .lock i => ∀ t, m.threads[i]? = some (.spins t) → t.syncs m.module = true → m.callback ≠ .waits
  | .fire => m.module.bufferFilledUp = false → ∀ pc ∈ m.threads, pc.hold m.module ≠ .syncs
  | _ => True

instance (m : Machine) (e : Move) : Decidable (m.Careful e) :=
  match e with
  | .lock i =>
    match there : m.threads[i]? with
    | none => .isTrue fun t same => by rw [there] at same; cases same
    | some .outside => .isTrue fun t same => by rw [there] at same; cases same
    | some (.spins t) =>
      decidable_of_iff (t.syncs m.module = true → m.callback ≠ .waits)
        ⟨fun h t' same => by rw [there] at same; cases same; exact h, fun h => h t there⟩
    | some (.holds _) => .isTrue fun t same => by rw [there] at same; cases same
    | some (.cancels _) => .isTrue fun t same => by rw [there] at same; cases same
    | some .destroys => .isTrue fun t same => by rw [there] at same; cases same
  | .fire =>
    inferInstanceAs (Decidable
      (m.module.bufferFilledUp = false → ∀ pc ∈ m.threads, pc.hold m.module ≠ .syncs))
  | .write _ _ => .isTrue trivial
  | .unload _ => .isTrue trivial
  | .work _ => .isTrue trivial
  | .cancelled _ => .isTrue trivial
  | .destroyed _ => .isTrue trivial
  | .enter => .isTrue trivial
  | .finish => .isTrue trivial
  | .tick => .isTrue trivial
  | .process _ _ => .isTrue trivial

/-! ## The abstract view -/

def Machine.view (m : Machine) : Handover Nat Unit where
  lock := m.module.lock
  thread i := m.threads[i]?.elim .out (Pc.hold m.module)
  callback _ := m.callback

section

variable {m n : Machine} {s : State} {i : Nat} {pc : Pc}

theorem view_thread (there : m.threads[i]? = some pc) :
    m.view.thread i = pc.hold m.module := by
  simp [Machine.view, there]

theorem view_goto (there : m.threads[i]? = some pc) (pc' : Pc) :
    (m.goto i pc' s).view.thread i = pc'.hold s := by
  have bound : i < m.threads.length := (List.getElem?_eq_some_iff.mp there).1
  simp [Machine.view, Machine.goto, bound]

/-- Whether a thread has the lock does not depend on the list. -/
theorem hold_out {s' : State} (out : pc.hold s = .out) : pc.hold s' = .out := by
  cases pc with
  | outside => rfl
  | spins t => rfl
  | holds t =>
    simp only [Pc.hold] at out
    split at out <;> cases out
  | cancels t => cases out
  | destroys => cases out

theorem syncs_congr {s' : State} (same : s'.head.map Entry.pid = s.head.map Entry.pid) (t : Job) :
    t.syncs s' = t.syncs s := by
  cases t with
  | register new => rfl
  | unregister pid => rw [Job.syncs, same, Job.syncs]
  | exit => rfl

theorem hold_congr {s' : State} (same : s'.head.map Entry.pid = s.head.map Entry.pid) (pc : Pc) :
    pc.hold s' = pc.hold s := by
  cases pc with
  | outside => rfl
  | spins t => rfl
  | holds t => rw [Pc.hold, syncs_congr same, Pc.hold]
  | cancels t => rfl
  | destroys => rfl

/-- A thread that leaves the list alone is the only one seen to move. -/
theorem goto_quiet (pc : Pc) (same : s.head = m.module.head) :
    m.view.ByThread (m.goto i pc s).view i := by
  refine ⟨fun j other => ?_, fun _ => rfl⟩
  simp only [Machine.view, Machine.goto, List.getElem?_set_ne (Ne.symm other)]
  cases m.threads[j]? with
  | none => rfl
  | some pc' => exact hold_congr (congrArg _ same) pc'

/-- So is one that has the lock, whatever it does to the list. -/
theorem goto_alone (sound : m.view.Sound) (had : m.view.thread i ≠ .out) (pc : Pc) :
    m.view.ByThread (m.goto i pc s).view i := by
  refine ⟨fun j other => ?_, fun _ => rfl⟩
  have out : m.view.thread j = .out := by
    by_contra has
    exact other (sound.alone j i has had)
  rw [out]
  simp only [Machine.view, Machine.goto, List.getElem?_set_ne (Ne.symm other)] at out ⊢
  cases there : m.threads[j]? with
  | none => rfl
  | some pc' =>
    rw [there] at out
    exact hold_out out

/-- A thread that keeps what it has of the lock is not seen to move. -/
theorem goto_stay (only : m.view.ByThread (m.goto i pc s).view i) (lock : s.lock = m.module.lock)
    (same : (m.goto i pc s).view.thread i = m.view.thread i) :
    m.view.Move (m.goto i pc s).view := by
  refine .stay lock (fun j => ?_) only.2
  by_cases own : j = i
  · rw [own, same]
  · exact only.1 j own

/-- A thread outside goes to wait for the lock. -/
theorem view_spins (there : m.threads[i]? = some .outside) (t : Job) :
    m.view.Move (m.goto i (.spins t) m.module).view :=
  goto_stay (goto_quiet _ rfl) rfl (by rw [view_goto there, view_thread there]; rfl)

/-- A thread that has the lock leaves. -/
theorem view_leaves (sound : m.view.Sound) (there : m.threads[i]? = some pc)
    (had : pc.hold m.module ≠ .out) : m.view.Move (m.goto i .outside s).view := by
  rw [← view_thread there] at had
  exact .give i had (view_goto there .outside) (goto_alone sound had _)

theorem view_same : m.view.Move m.view := .stay rfl (fun _ => rfl) fun _ => rfl

theorem view_write (there : m.threads[i]? = some .outside) {w : Write}
    (stepped : m.write i w = .ok n) : m.view.Move n.view := by
  unfold Machine.write at stepped
  split at stepped
  · cases stepped
    exact view_same
  · cases stepped
    exact view_spins there _
  · split at stepped
    · cases stepped
    · split at stepped
      · cases stepped
        exact view_same
      · cases stepped
        exact view_spins there _

theorem hold_holds (t : Job) : Pc.hold s (.holds t) ≠ .out := by
  simp only [Pc.hold]
  split <;> decide

theorem syncs_of_hold {t : Job} (syncs : Pc.hold s (.holds t) = .syncs) : t.syncs s = true := by
  by_contra other
  rw [Pc.hold, if_neg other] at syncs
  cases syncs

/-- Unregistering the last entry is on the way to waiting for the callback from the start. -/
theorem syncs_of_last {pid : Int} {itr : Entry} (found : getByPid s pid = some itr)
    (empty : (s.head.eraseP fun itr => decide (itr.pid = pid)).isEmpty) :
    (Job.unregister pid).syncs s = true := by
  have listed : s.head.find? (fun itr => decide (itr.pid = pid)) ≠ none := by
    rw [← getByPid, found]
    exact Option.some_ne_none itr
  exact decide_eq_true ((eraseP_eq_nil_iff listed).mp (List.isEmpty_iff.mp empty))

theorem view_work (sound : m.view.Sound) {t : Job} (there : m.threads[i]? = some (.holds t)) :
    m.view.Move (m.work i t).view := by
  have had := hold_holds (s := m.module) t
  cases t with
  | register new => exact view_leaves sound there had
  | unregister pid =>
    simp only [Machine.work]
    split
    · exact view_leaves sound there had
    · rename_i itr found
      split
      · rename_i empty
        refine goto_stay (goto_alone sound (by rwa [view_thread there]) _) rfl ?_
        rw [view_goto there, view_thread there]
        simp [Pc.hold, syncs_of_last found empty]
      · exact view_leaves sound there had
  | exit => exact goto_stay (goto_quiet _ rfl) rfl (by rw [view_goto there, view_thread there]; rfl)

theorem view_cancelled (sound : m.view.Sound) {t : Job}
    (there : m.threads[i]? = some (.cancels t)) : m.view.Move (m.cancelled i t).view := by
  have had : Pc.hold m.module (.cancels t) ≠ .out := by simp [Pc.hold]
  cases t with
  | register new => exact view_leaves sound there had
  | unregister pid => exact view_leaves sound there had
  | exit =>
    exact goto_stay (goto_quiet _ rfl) rfl (by rw [view_goto there, view_thread there]; rfl)

theorem view_lock {t : Job} (there : m.threads[i]? = some (.spins t))
    (careful : m.Careful (.lock i)) (free : ¬ m.module.lock = true) :
    m.view.Move (m.goto i (.holds t) { m.module with lock := true }).view := by
  refine .take i (eq_false_of_ne_true free) rfl (goto_quiet _ rfl) fun syncs _ => ?_
  rw [view_goto there, hold_congr rfl] at syncs
  exact careful t there (syncs_of_hold syncs)

/-- With the buffer full the callback returns before the lock. -/
theorem view_fire (careful : m.Careful .fire) (idle : m.callback = .idle) :
    m.view.Move ({ m with
      module := cancelDelayedWorkSync m.module
      callback := if m.module.bufferFilledUp then .idle else .waits } : Machine).view := by
  cases room : m.module.bufferFilledUp with
  | true => exact .stay rfl (fun _ => rfl) fun _ => idle.symm
  | false =>
    refine .start () rfl rfl ⟨fun _ => rfl, fun l other => absurd rfl other⟩ fun i => ?_
    cases there : m.threads[i]? with
    | none => simp [Machine.view, there]
    | some pc =>
      rw [view_thread there]
      exact careful room pc (List.mem_of_getElem? there)

theorem view_finish (has : m.callback = .holds) :
    m.view.Move ({ m with
      module := spinUnlock (takeSample m.module), callback := .idle } : Machine).view := by
  refine .leave () has rfl ⟨fun i => ?_, fun l other => absurd rfl other⟩
  simp only [Machine.view]
  cases m.threads[i]? with
  | none => rfl
  | some pc => exact hold_congr (collect_pids _ _ _) pc

/-- Every step is one that keeps clear. -/
theorem view_step (sound : m.view.Sound) {e : Move} (careful : m.Careful e)
    (stepped : m.step e = .ok n) : m.view.Move n.view := by
  cases e with
  | write i w =>
    obtain ⟨there, stepped⟩ := ite_ok stepped
    exact view_write there (ite_error_ok stepped).2
  | unload i =>
    obtain ⟨there, stepped⟩ := ite_ok stepped
    cases (ite_ok stepped).2
    exact view_spins there .exit
  | lock i =>
    simp only [Machine.step] at stepped
    split at stepped
    · obtain ⟨free, stepped⟩ := ite_error_ok stepped
      cases stepped
      exact view_lock ‹_› careful free
    · cases stepped
  | work i =>
    simp only [Machine.step] at stepped
    split at stepped
    · cases stepped
      exact view_work sound ‹_›
    · cases stepped
  | cancelled i =>
    simp only [Machine.step] at stepped
    split at stepped
    · cases (ite_ok stepped).2
      exact view_cancelled sound ‹_›
    · cases stepped
  | destroyed i =>
    simp only [Machine.step] at stepped
    split at stepped
    · cases (ite_ok stepped).2
      exact view_leaves sound ‹_› (by simp [Pc.hold])
    · cases stepped
  | fire =>
    obtain ⟨ready, stepped⟩ := ite_ok stepped
    cases stepped
    exact view_fire careful ready.2
  | enter =>
    obtain ⟨-, stepped⟩ := ite_ok stepped
    obtain ⟨free, stepped⟩ := ite_error_ok stepped
    cases stepped
    exact .enter () (eq_false_of_ne_true free) rfl ⟨fun _ => rfl, fun l other => absurd rfl other⟩
  | finish =>
    obtain ⟨has, stepped⟩ := ite_ok stepped
    cases stepped
    exact view_finish has
  | tick =>
    cases stepped
    exact view_same
  | process pid task =>
    cases stepped
    exact view_same

theorem Machine.Deadlocked.unsound (dead : m.Deadlocked) : ¬ m.view.Sound := by
  intro sound
  obtain ⟨-, waits, pc, inside, there⟩ := dead
  obtain ⟨i, bound, rfl⟩ := List.mem_iff_getElem.mp inside
  refine sound.clear i () ?_ waits
  rw [view_thread (List.getElem?_eq_getElem bound)]
  rcases there with there | ⟨t, there⟩ <;> rw [there] <;> rfl

end

theorem sound_init (vm : Nat → Nat) (jiffies : Nat) (processes : Nat → Option Process) (n : Nat) :
    (Machine.init vm jiffies processes n).view.Sound := by
  refine .initial (fun i => ?_) fun _ => rfl
  simp only [Machine.view, Machine.init, List.getElem?_replicate]
  split <;> rfl

section

variable {vm : Nat → Nat} {jiffies : Nat} {processes : Nat → Option Process} {n : Nat}
  {es : List Move} {m : Machine}

theorem sound_run (run : Run Machine.step Machine.Careful (.init vm jiffies processes n) es m) :
    m.view.Sound :=
  run.invariant (I := fun m => m.view.Sound) (sound_init vm jiffies processes n)
    fun _ _ _ sound careful stepped => sound.move (view_step sound careful stepped)

end

/-! ## Steps that are not careful -/

section

variable {m n : Machine} {i : Nat}

/-- A thread that has the lock for an operation that waits for the callback gets to that wait. -/
theorem work_cancels {t : Job} (there : m.threads[i]? = some (.holds t))
    (syncs : t.syncs m.module = true) :
    ∃ n, m.step (.work i) = .ok n ∧ n.module.lock = m.module.lock ∧ n.callback = m.callback ∧
      .cancels t ∈ n.threads := by
  have bound : i < m.threads.length := (List.getElem?_eq_some_iff.mp there).1
  have goes (pc : Pc) : pc ∈ m.threads.set i pc := List.mem_set bound pc
  simp only [Machine.step, there]
  refine ⟨_, rfl, ?_⟩
  cases t with
  | register new => cases syncs
  | unregister pid =>
    obtain ⟨itr, listed, same⟩ := List.map_eq_singleton_iff.mp (of_decide_eq_true syncs)
    have found : getByPid m.module pid = some itr := by simp [getByPid, listed, same]
    simp [Machine.work, found, listed, same, Machine.goto, goes]
  | exit => exact ⟨rfl, rfl, goes _⟩

theorem work_deadlocks {t : Job} (there : m.threads[i]? = some (.holds t))
    (syncs : t.syncs m.module = true) (taken : m.module.lock = true) (waits : m.callback = .waits) :
    ∃ n, m.step (.work i) = .ok n ∧ n.Deadlocked := by
  obtain ⟨n, stepped, lock, callback, cancels⟩ := work_cancels there syncs
  exact ⟨n, stepped, lock.trans taken, callback.trans waits, _, cancels, .inr ⟨t, rfl⟩⟩

/-- After a step that is not careful the machine is deadlocked, or is once the thread that has
the lock goes on. -/
theorem careless_deadlocks (sound : m.view.Sound) {e : Move} (careless : ¬ m.Careful e)
    (stepped : m.step e = .ok n) :
    n.Deadlocked ∨ ∃ i k, n.step (.work i) = .ok k ∧ k.Deadlocked := by
  cases e with
  | lock i =>
    simp only [Machine.Careful, not_forall, not_not] at careless
    obtain ⟨t, there, syncs, waits⟩ := careless
    simp only [Machine.step, there] at stepped
    cases (ite_error_ok stepped).2
    have bound : i < m.threads.length := (List.getElem?_eq_some_iff.mp there).1
    exact .inr ⟨i, work_deadlocks (List.getElem?_set_self bound) syncs rfl waits⟩
  | fire =>
    simp only [Machine.Careful, not_forall, not_not] at careless
    obtain ⟨room, pc, inside, syncs⟩ := careless
    obtain ⟨i, there⟩ := List.mem_iff_getElem?.mp inside
    have taken : m.module.lock = true := sound.taken i (by rw [view_thread there, syncs]; decide)
    simp only [Machine.step, room] at stepped
    cases (ite_ok stepped).2
    cases pc with
    | outside => cases syncs
    | spins t => cases syncs
    | holds t => exact .inr ⟨i, work_deadlocks there (syncs_of_hold syncs) taken rfl⟩
    | cancels t => exact .inl ⟨taken, rfl, _, inside, .inr ⟨t, rfl⟩⟩
    | destroys => exact .inl ⟨taken, rfl, _, inside, .inl rfl⟩
  | _ => exact absurd trivial careless

end

/-! ## One party at a time

When nobody starts before the others are done, the machine does what the operations do as a
whole, and all of it is careful. -/

/-- One thread, and nobody inside. -/
def Machine.alone (s : State) : Machine := ⟨s, [.outside], .idle, .live⟩

section

variable {s t : State}

/-- Register, with the lock free. -/
theorem alone_register {w : Write} {pid : Int} (request : w.request = some (.register pid))
    (done : regEntry s w.block pid = .ok t) :
    ∃ es, replay Machine.step Machine.Careful (.alone s) es = some (.alone t) := by
  unfold regEntry at done
  split at done
  · cases done
  · rename_i newStruct block
    split at done
    · rename_i dead
      cases done
      exact ⟨[.write 0 w], by
        simp [replay, Machine.Careful, Machine.step, Machine.alone, Machine.write, request, block,
          dead]⟩
    · rename_i task alive
      obtain ⟨u, locked, done⟩ := bind_ok done
      obtain ⟨free, rfl⟩ := spinLock_ok locked
      cases done
      exact ⟨[.write 0 w, .lock 0, .work 0], by
        simp [replay, Machine.Careful, Machine.step, Machine.alone, Machine.write, request, block,
          alive, free, Machine.goto, Machine.work]⟩

theorem alone_unregister {w : Write} {pid : Int} (request : w.request = some (.unregister pid))
    (done : unregEntry s pid = .ok t) :
    ∃ es, replay Machine.step Machine.Careful (.alone s) es = some (.alone t) := by
  obtain ⟨free, ⟨missing, rfl⟩ | ⟨found, rest, listed, rfl⟩⟩ := unregEntry_ok done
  · have missing' : getByPid { s with lock := true } pid = none := missing
    exact ⟨[.write 0 w, .lock 0, .work 0], by
      simp [replay, Machine.Careful, Machine.step, Machine.alone, Machine.write, request, free,
        Machine.goto, Machine.work, missing']⟩
  · obtain ⟨itr, found⟩ := Option.ne_none_iff_exists'.mp found
    have found' : getByPid { s with lock := true } pid = some itr := found
    cases rest with
    | nil =>
      exact ⟨[.write 0 w, .lock 0, .work 0, .cancelled 0], by
        simp [replay, Machine.Careful, Machine.step, Machine.alone, Machine.write, request, free,
          Machine.goto, Machine.work, found', ← listed, Machine.cancelled, cancelDelayedWorkSync,
          spinUnlock]⟩
    | cons itr' rest =>
      exact ⟨[.write 0 w, .lock 0, .work 0], by
        simp [replay, Machine.Careful, Machine.step, Machine.alone, Machine.write, request, free,
          Machine.goto, Machine.work, found', ← listed, spinUnlock]⟩

theorem alone_fire (pending : s.pending = true)
    (done : workqueueCallback (cancelDelayedWorkSync s) = .ok t) :
    ∃ es, replay Machine.step Machine.Careful (.alone s) es = some (.alone t) := by
  unfold workqueueCallback at done
  split at done
  · rename_i full
    change s.bufferFilledUp = true at full
    cases done
    exact ⟨[.fire], by
      simp [replay, Machine.Careful, Machine.step, Machine.alone, pending, Pc.hold, full]⟩
  · rename_i room
    replace room : s.bufferFilledUp = false := eq_false_of_ne_true room
    obtain ⟨u, locked, done⟩ := bind_ok done
    obtain ⟨free, rfl⟩ := spinLock_ok locked
    cases done
    exact ⟨[.fire, .enter, .finish], by
      simp [replay, Machine.Careful, Machine.step, Machine.alone, pending, Pc.hold, room, free]⟩

theorem alone_step {e : Event} (possible : Possible s e) (stepped : step s e = .ok t) :
    ∃ es, replay Machine.step Machine.Careful (.alone s) es = some (.alone t) := by
  cases e with
  | write w =>
    change mywrite s w = .ok t at stepped
    unfold mywrite at stepped
    split at stepped
    · rename_i request
      cases stepped
      exact ⟨[.write 0 w], by
        simp [replay, Machine.Careful, Machine.step, Machine.alone, Machine.write, request]⟩
    · exact alone_register ‹_› stepped
    · exact alone_unregister ‹_› stepped
  | fire => exact alone_fire possible stepped
  | tick => exact ⟨[.tick], by cases stepped; rfl⟩
  | fork pid task => exact ⟨[.process pid (some task)], by cases stepped; rfl⟩
  | accrue pid task =>
    exact ⟨[.process pid ((s.processes pid).map (·.add task))], by cases stepped; rfl⟩
  | exit pid => exact ⟨[.process pid none], by cases stepped; rfl⟩

end

/-- Every run of whole operations is a careful run of the machine. -/
theorem alone_run {vm : Nat → Nat} {jiffies : Nat} {processes : Nat → Option Process}
    {es : List Event} {s : State} (run : Run step Possible (.init vm jiffies processes) es s) :
    ∃ moves, Run Machine.step Machine.Careful (.init vm jiffies processes 1) moves (.alone s) := by
  induction run with
  | init => exact ⟨[], .init⟩
  | next _ possible stepped ih =>
    obtain ⟨moves, before⟩ := ih
    obtain ⟨moves', replayed⟩ := alone_step possible stepped
    exact ⟨moves ++ moves', before.extend replayed⟩

end KernelModules.MP3
