import KernelModules.Lib.Word

/-!
# Tasks and module state

The entry `struct mp2_task_struct`, the globals of the module and the kernel objects its
functions act on. An entry is named by its address, the way `curr_tsk`, the timer argument
and the dispatcher's `next` name it. `spin_lock` and `spin_unlock` are compiled out by
`LOCK_FREE` and leave no trace here.
-/

namespace KernelModules.MP2

abbrev Addr := Nat

/-- `INT_MAX`, where the dispatcher's search for the shortest period starts. -/
def intMax : Nat := 2 ^ 31 - 1

/-- `USER_HZ` of `asm-generic/param.h`. -/
def userHz : Nat := 100

inductive TaskState
  | sleeping
  | ready
  | running
  deriving DecidableEq, Repr

/-- `struct mp2_task_struct`. `tsk` is the result of `find_task_by_pid`, `none` for NULL.
`tm` is the expiry its timer is armed for, `none` while the timer is not pending. -/
structure Task where
  addr : Addr
  tsk : Option Nat
  tm : Option Nat
  period : Nat
  computation : Nat
  pid : Nat
  state : TaskState
  nextPeriod : Nat
  deriving DecidableEq, Repr

/-- `(period * USER_HZ) / 1000`, a 32-bit product. -/
def Task.periodJiffies (t : Task) : Nat := Arith.c.u32 (t.period * userHz) / 1000

/-- The two globals of admission control. -/
structure Usage where
  numerator : Nat
  denominator : Nat
  deriving DecidableEq, Repr

inductive RunState
  | running
  | uninterruptible
  deriving DecidableEq, Repr

inductive Policy
  | normal
  | fifo (priority : Nat)
  deriving DecidableEq, Repr

/-- What the module changes of a process, its `struct task_struct`. -/
structure Process where
  state : RunState
  policy : Policy
  deriving DecidableEq, Repr

/-- The globals, the clock, the processes by pid, and the calls of
`wake_up_process(dispatch_kth)` that have been made and not yet taken effect. -/
structure State where
  head : List Task
  currTsk : Option Addr
  usage : Usage
  jiffies : Nat
  processes : Nat → Option Process
  wakeups : Nat

/-- What `mp2_init` leaves, at any time and among any processes. -/
def State.init (jiffies : Nat) (processes : Nat → Option Process) : State :=
  ⟨[], none, ⟨0, 0⟩, jiffies, processes, 0⟩

/-- A pointer used where the kernel or the module would follow it to no valid object. -/
inductive Fault
  /-- A field accessed through the NULL that `find_by_pid` returned. -/
  | nullTask
  /-- A NULL `task_struct` handed to a kernel function. -/
  | nullProcess
  /-- A field accessed through a pointer to an entry that was freed. -/
  | freedTask
  deriving DecidableEq, Repr

/-! ## Entries -/

/-- The entry a pointer leads to, when it has not been freed. -/
def State.entry (s : State) (a : Addr) : Option Task := s.head.find? fun t => decide (t.addr = a)

def updateAt (a : Addr) (f : Task → Task) (ts : List Task) : List Task :=
  ts.map fun t => if t.addr = a then f t else t

/-- Assign fields of the entry at `a`. -/
def State.update (s : State) (a : Addr) (f : Task → Task) : State :=
  { s with head := updateAt a f s.head }

/-- The entry whose `pid` compares equal to an `int`, which is converted to unsigned. -/
def findByPid (s : State) (pid : Int) : Option Task :=
  s.head.find? fun t => decide (t.pid = toU32 pid)

/-! ## Calls into the kernel -/

def findTaskByPid (s : State) (nr : Nat) : Option Nat := (s.processes nr).map fun _ => nr

def State.updateProcess (s : State) (p : Nat) (f : Process → Process) : State :=
  { s with processes := fun q => if q = p then (s.processes q).map f else s.processes q }

/-- A kernel function applied to the process behind a `task_struct` pointer. -/
def onProcess (s : State) (tsk : Option Nat) (f : Process → Process) : Except Fault State :=
  match tsk with
  | none => .error .nullProcess
  | some p => .ok (s.updateProcess p f)

def setTaskState (s : State) (tsk : Option Nat) (state : RunState) : Except Fault State :=
  onProcess s tsk fun p => { p with state := state }

def wakeUpProcess (s : State) (tsk : Option Nat) : Except Fault State :=
  onProcess s tsk fun p => { p with state := .running }

def schedSetscheduler (s : State) (tsk : Option Nat) (policy : Policy) : Except Fault State :=
  onProcess s tsk fun p => { p with policy := policy }

/-- `wake_up_process(dispatch_kth)`. The dispatcher is a thread of the module, never NULL;
when the call takes effect is a step of its own. -/
def State.wakeDispatcher (s : State) : State := { s with wakeups := s.wakeups + 1 }

end KernelModules.MP2
