import KernelModules.Lib.CString
import KernelModules.Lib.Run
import KernelModules.Lib.Word

/-!
# The profiler

The list of registered processes, the work callback that samples them into the buffer, and the
write callback that registers and unregisters. The buffer is memory from `vm` on, as elements
of 8 bytes; what lies behind the `VM_SIZE` bytes that were allocated is memory as well, so a
store there is a step of the model like any other. The lock is a flag, and an operation that
has to wait for a lock nobody releases never returns.
-/

namespace KernelModules.MP3

def vmSize : Nat := 512000
def vmElementSize : Nat := 128000

/-- The counters of a process in its `struct task_struct`. -/
structure Process where
  minFlt : Nat
  majFlt : Nat
  utime : Nat
  stime : Nat
  deriving DecidableEq, Repr

/-- `struct mp3_task_struct`. -/
structure Entry where
  pid : Int
  utime : Nat
  stime : Nat
  minorPf : Nat
  majorPf : Nat
  deriving DecidableEq, Repr

/-- The globals, the clock and the processes by pid. `pending` says whether `work` is queued. -/
structure State where
  head : List Entry
  vm : Nat → Nat
  offset : Nat
  bufferFilledUp : Bool
  lock : Bool
  pending : Bool
  jiffies : Nat
  processes : Nat → Option Process

/-- What `mp3_init` leaves, with anything in the memory that `vmalloc` returns. -/
def State.init (vm : Nat → Nat) (jiffies : Nat) (processes : Nat → Option Process) : State :=
  ⟨[], vm, 0, false, false, false, jiffies, processes⟩

inductive Fault
  /-- A lock is waited for that is never released. -/
  | spins
  /-- A field accessed through the NULL that `kmalloc` returned. -/
  | nullEntry
  deriving DecidableEq, Repr

def spinLock (s : State) : Except Fault State :=
  if s.lock then .error .spins else .ok { s with lock := true }

def spinUnlock (s : State) : State := { s with lock := false }

/-- `queue_delayed_work` leaves work that is queued already as it is. -/
def queueDelayedWork (s : State) : State := { s with pending := true }

def cancelDelayedWorkSync (s : State) : State := { s with pending := false }

def findTaskByPid (processes : Nat → Option Process) (nr : Nat) : Option Process := processes nr

def getByPid (s : State) (pid : Int) : Option Entry :=
  s.head.find? fun itr => decide (itr.pid = pid)

/-! ## The work callback -/

/-- The counters of a live process are moved to the entry; those of the process are zeroed. -/
def getCpuUse (processes : Nat → Option Process) (itr : Entry) :
    (Nat → Option Process) × Entry :=
  match findTaskByPid processes (toU32 itr.pid) with
  | none => (processes, itr)
  | some task =>
    (Function.update processes (toU32 itr.pid) (some ⟨0, 0, 0, 0⟩),
      { itr with minorPf := task.minFlt, majorPf := task.majFlt, utime := task.utime,
                 stime := task.stime })

/-- The array `tmps`. -/
structure Sample where
  jiffies : Nat
  minor : Nat
  major : Nat
  cpu : Nat
  deriving DecidableEq, Repr

/-- The sums after one more entry, of `unsigned long`. -/
def Sample.add (tmps : Sample) (itr : Entry) : Sample :=
  { tmps with
    minor := Arith.c.u64 (tmps.minor + itr.minorPf)
    major := Arith.c.u64 (tmps.major + itr.majorPf)
    cpu := Arith.c.u64 (tmps.cpu + Arith.c.u64 (itr.stime + itr.utime)) }

/-- The loop over `HEAD`: the processes, the sums and the entries it leaves. -/
def collect (processes : Nat → Option Process) (tmps : Sample) :
    List Entry → (Nat → Option Process) × Sample × List Entry
  | [] => (processes, tmps, [])
  | itr :: rest =>
    let (processes, itr) := getCpuUse processes itr
    let (processes, tmps, rest) := collect processes (tmps.add itr) rest
    (processes, tmps, itr :: rest)

/-- -1 as `unsigned long`. -/
def termination : Nat := 2 ^ 64 - 1

/-- `offset` after a sample, an `unsigned int`. -/
def nextOffset (offset : Nat) : Nat := Arith.c.u32 (offset + 4)

/-- The stores of one sample, as indices and values in their order. -/
def stores (offset : Nat) (tmps : Sample) : List (Nat × Nat) :=
  [(offset, tmps.jiffies), (offset + 1, tmps.minor), (offset + 2, tmps.major),
    (offset + 3, tmps.cpu)] ++
  if nextOffset offset ≥ vmElementSize then [] else [(offset + 4, termination)]

def store (vm : Nat → Nat) (writes : List (Nat × Nat)) : Nat → Nat :=
  writes.foldl (fun vm x => Function.update vm x.1 x.2) vm

/-- The loop as the callback starts it. -/
def State.collected (s : State) : (Nat → Option Process) × Sample × List Entry :=
  collect s.processes ⟨s.jiffies, 0, 0, 0⟩ s.head

/-- What the callback does under the lock. -/
def takeSample (s : State) : State :=
  let (processes, tmps, head) := s.collected
  queueDelayedWork
    { s with
      processes := processes
      head := head
      vm := store s.vm (stores s.offset tmps)
      offset := nextOffset s.offset
      bufferFilledUp := s.bufferFilledUp || decide (nextOffset s.offset ≥ vmElementSize) }

def workqueueCallback (s : State) : Except Fault State :=
  if s.bufferFilledUp then .ok s
  else do
    let s ← spinLock s
    .ok (spinUnlock (takeSample s))

/-! ## Requests -/

/-- `block` is what `kmalloc` returns, `none` for NULL, with anything in its fields. The work
is queued with the first entry. -/
def regEntry (s : State) (block : Option Entry) (pid : Int) : Except Fault State :=
  match block with
  | none => .error .nullEntry
  | some newStruct =>
    match findTaskByPid s.processes (toU32 pid) with
    | none => .ok s
    | some _ => do
      let s ← spinLock s
      let s := if s.head.isEmpty then queueDelayedWork s else s
      .ok (spinUnlock { s with head := s.head ++ [{ newStruct with pid := pid }] })

/-- A pid that is not found returns with the lock held. -/
def unregEntry (s : State) (pid : Int) : Except Fault State := do
  let s ← spinLock s
  match getByPid s pid with
  | none => .ok s
  | some _ =>
    let s := { s with head := s.head.eraseP fun itr => decide (itr.pid = pid) }
    let s := if s.head.isEmpty then cancelDelayedWorkSync { s with offset := 0 } else s
    .ok (spinUnlock s)

inductive Request
  | register (pid : Int)
  | unregister (pid : Int)
  deriving DecidableEq, Repr

/-- One `write`: the bytes handed over, and what `kmalloc` returns if it is called. -/
structure Write where
  userbuff : List UInt8
  block : Option Entry
  deriving DecidableEq, Repr

/-- The request `mywrite` dispatches. A text that `kstrtoint` refuses leaves `pid` 0. -/
def Write.request (w : Write) : Option Request :=
  let buff := w.userbuff ++ [0]
  let ops := buff.headD 0
  if (ops ≠ 82 ∧ ops ≠ 85) ∨ (cstr buff).length < 3 then none
  else
    let pid := (kstrtoint (cstr (buff.drop 2))).getD 0
    if pid = 0 ∨ pid < 0 then none
    else match ops with
      | 82 => some (.register pid)
      | 85 => some (.unregister pid)
      | _ => none

def mywrite (s : State) (w : Write) : Except Fault State :=
  match w.request with
  | none => .ok s
  | some (.register pid) => regEntry s w.block pid
  | some (.unregister pid) => unregEntry s pid

/-! ## The module as a system -/

inductive Event
  | write (w : Write)
  /-- The delay of the queued work runs out. -/
  | fire
  | tick
  | fork (pid : Nat) (task : Process)
  /-- A process adds to its counters. -/
  | accrue (pid : Nat) (task : Process)
  | exit (pid : Nat)
  deriving DecidableEq, Repr

def Process.add (p q : Process) : Process :=
  ⟨Arith.c.u64 (p.minFlt + q.minFlt), Arith.c.u64 (p.majFlt + q.majFlt),
    Arith.c.u64 (p.utime + q.utime), Arith.c.u64 (p.stime + q.stime)⟩

/-- Work is taken off the queue before its callback runs. -/
def step (s : State) : Event → Except Fault State
  | .write w => mywrite s w
  | .fire => workqueueCallback (cancelDelayedWorkSync s)
  | .tick => .ok { s with jiffies := Arith.c.u64 (s.jiffies + 1) }
  | .fork pid task => .ok { s with processes := Function.update s.processes pid (some task) }
  | .accrue pid task =>
    .ok { s with processes := Function.update s.processes pid ((s.processes pid).map (·.add task)) }
  | .exit pid => .ok { s with processes := Function.update s.processes pid none }

/-- What the work queue guarantees: only queued work fires. -/
def Possible (s : State) : Event → Prop
  | .fire => s.pending = true
  | _ => True

instance (s : State) (e : Event) : Decidable (Possible s e) :=
  match e with
  | .fire => inferInstanceAs (Decidable (s.pending = true))
  | .write _ => .isTrue trivial
  | .tick => .isTrue trivial
  | .fork _ _ => .isTrue trivial
  | .accrue _ _ => .isTrue trivial
  | .exit _ => .isTrue trivial

/-! ## What an operation does -/

theorem getCpuUse_pid (processes : Nat → Option Process) (itr : Entry) :
    (getCpuUse processes itr).2.pid = itr.pid := by
  unfold getCpuUse
  split <;> rfl

/-- The callback keeps the entries it goes through. -/
theorem collect_pids (processes : Nat → Option Process) (tmps : Sample) (l : List Entry) :
    (collect processes tmps l).2.2.map Entry.pid = l.map Entry.pid := by
  induction l generalizing processes tmps with
  | nil => rfl
  | cons itr l ih =>
    rw [List.map_cons, ← getCpuUse_pid processes itr, ← ih]
    rfl

theorem collect_jiffies (processes : Nat → Option Process) (tmps : Sample) (l : List Entry) :
    (collect processes tmps l).2.1.jiffies = tmps.jiffies := by
  induction l generalizing processes tmps with
  | nil => rfl
  | cons itr l ih => exact ih _ _

section

variable {s t : State}

theorem spinLock_ok (h : spinLock s = .ok t) : s.lock = false ∧ t = { s with lock := true } := by
  obtain ⟨free, locked⟩ := ite_error_ok h
  cases locked
  exact ⟨eq_false_of_ne_true free, rfl⟩

/-- The callback either finds the buffer full or takes a sample and is queued again. -/
theorem workqueueCallback_ok (h : workqueueCallback s = .ok t) :
    s.bufferFilledUp = true ∧ t = s ∨
    s.bufferFilledUp = false ∧ s.lock = false ∧ t = takeSample s := by
  unfold workqueueCallback at h
  split at h
  · rename_i full
    cases h
    exact .inl ⟨full, rfl⟩
  · rename_i room
    obtain ⟨u, locked, done⟩ := bind_ok h
    obtain ⟨free, rfl⟩ := spinLock_ok locked
    refine .inr ⟨eq_false_of_ne_true room, free, ?_⟩
    cases done
    simp [spinUnlock, takeSample, State.collected, queueDelayedWork, free]

theorem workqueueCallback_samples (room : s.bufferFilledUp = false) (free : s.lock = false) :
    workqueueCallback s = .ok (takeSample s) := by
  simp [workqueueCallback, spinLock, spinUnlock, takeSample, State.collected, queueDelayedWork,
    room, free, bind, Except.bind]

/-- A registration leaves the module alone or adds an entry at the end. -/
theorem regEntry_ok {block : Option Entry} {pid : Int} (h : regEntry s block pid = .ok t) :
    t = s ∨ s.lock = false ∧ s.processes (toU32 pid) ≠ none ∧ ∃ new : Entry, new.pid = pid ∧
      t = { s with head := s.head ++ [new], pending := s.head.isEmpty || s.pending } := by
  unfold regEntry at h
  split at h
  · cases h
  · rename_i newStruct
    split at h
    · cases h
      exact .inl rfl
    · rename_i task alive
      obtain ⟨u, locked, done⟩ := bind_ok h
      obtain ⟨free, rfl⟩ := spinLock_ok locked
      refine .inr ⟨free, fun dead => ?_, { newStruct with pid := pid }, rfl, ?_⟩
      · rw [findTaskByPid, dead] at alive
        cases alive
      cases done
      cases hs : s.head <;> simp [spinUnlock, queueDelayedWork, free]

/-- An unregistration removes the first entry of the pid, and with the last one the queued
work and the samples; of a pid that is not found it keeps the lock. -/
theorem unregEntry_ok {pid : Int} (h : unregEntry s pid = .ok t) :
    s.lock = false ∧
      (getByPid s pid = none ∧ t = { s with lock := true } ∨
       getByPid s pid ≠ none ∧ ∃ rest, rest = s.head.eraseP (fun itr => decide (itr.pid = pid)) ∧
        t = { s with
          head := rest
          offset := if rest = [] then 0 else s.offset
          pending := !rest.isEmpty && s.pending }) := by
  unfold unregEntry at h
  obtain ⟨u, locked, done⟩ := bind_ok h
  obtain ⟨free, rfl⟩ := spinLock_ok locked
  refine ⟨free, ?_⟩
  change (match getByPid s pid with | none => _ | some _ => _) = _ at done
  cases found : getByPid s pid with
  | none =>
    rw [found] at done
    cases done
    exact .inl ⟨rfl, rfl⟩
  | some task =>
    rw [found] at done
    cases done
    refine .inr ⟨by simp, _, rfl, ?_⟩
    cases hr : s.head.eraseP (fun itr => decide (itr.pid = pid)) <;>
      simp [spinUnlock, cancelDelayedWorkSync, free]

end

end KernelModules.MP3
