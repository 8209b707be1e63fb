import KernelModules.Lib.CString
import KernelModules.Lib.Run
import KernelModules.Lib.Word

/-!
# The registry of CPU times

The list of registered processes, the write callback that adds to it, and the work callback that
brings the times up to date and drops the processes that are gone.
-/

namespace KernelModules.MP1

/-- `struct proc_cpu`. -/
structure ProcCpu where
  cpuUsage : Nat
  pid : Int
  deriving DecidableEq, Repr

/-- The globals, and the `utime` of the processes by pid. -/
structure State where
  list : List ProcCpu
  size : Int
  lock : Bool
  processes : Int → Option Nat

/-- What `mp1_init` leaves. -/
def State.init (processes : Int → Option Nat) : State := ⟨[], 0, false, processes⟩

inductive Fault
  /-- A lock is waited for that is never released. -/
  | spins
  /-- A field accessed through the NULL that `kmalloc` returned. -/
  | nullNode
  deriving DecidableEq, Repr

def spinLock (s : State) : Except Fault State :=
  if s.lock then .error .spins else .ok { s with lock := true }

def spinUnlock (s : State) : State := { s with lock := false }

/-! ## The work callback -/

/-- The result, and what the call leaves in `*cpu_use`. -/
def getCpuUse (processes : Int → Option Nat) (pid : Int) (cpuUse : Nat) : Int × Nat :=
  match processes pid with
  | some utime => (0, utime)
  | none => (-1, cpuUse)

/-- The loop over `list`: the nodes it leaves, and `size`. -/
def update (processes : Int → Option Nat) : List ProcCpu → Int → List ProcCpu × Int
  | [], size => ([], size)
  | curr :: rest, size =>
    let (ret, cpuUsage) := getCpuUse processes curr.pid curr.cpuUsage
    if ret = 0 then
      let (rest, size) := update processes rest size
      ({ curr with cpuUsage := cpuUsage } :: rest, size)
    else update processes rest (i32 (size - 1))

/-- What the callback does under the lock. -/
def updateAll (s : State) : State :=
  let (list, size) := update s.processes s.list s.size
  { s with list := list, size := size }

def wqCallback (s : State) : Except Fault State := do
  let s ← spinLock s
  .ok (spinUnlock (updateAll s))

/-! ## Requests -/

/-- One `write`: the bytes handed over, and whether `kmalloc` finds memory if it is called. -/
structure Write where
  buff : List UInt8
  allocated : Bool
  deriving DecidableEq, Repr

/-- The pid `mywrite` registers, `none` where it returns the error of `kstrtoint`. -/
def Write.currPid (w : Write) : Option Int := kstrtoint (cstr (w.buff ++ [0]))

/-- What `mywrite` does under the lock. -/
def addTail (s : State) (newnode : ProcCpu) : State :=
  { s with list := s.list ++ [newnode], size := i32 (s.size + 1) }

def mywrite (s : State) (w : Write) : Except Fault State :=
  match w.currPid with
  | none => .ok s
  | some currPid =>
    if w.allocated then do
      let s ← spinLock s
      .ok (spinUnlock (addTail s ⟨0, currPid⟩))
    else .error .nullNode

/-! ## The module as a system -/

inductive Event
  | write (w : Write)
  /-- A queued `wq_callback` is executed. -/
  | callback
  /-- A process appears, uses time or goes. -/
  | process (pid : Int) (utime : Option Nat)
  deriving DecidableEq, Repr

def step (s : State) : Event → Except Fault State
  | .write w => mywrite s w
  | .callback => wqCallback s
  | .process pid utime => .ok { s with processes := Function.update s.processes pid utime }

theorem spinLock_ok {s t : State} (h : spinLock s = .ok t) :
    s.lock = false ∧ t = { s with lock := true } := by
  obtain ⟨free, locked⟩ := ite_error_ok h
  cases locked
  exact ⟨eq_false_of_ne_true free, rfl⟩

/-- All an event can do: a write is rejected or registers its pid at the end of the list, and the
callback goes through the list once. -/
theorem step_cases {s t : State} {e : Event} (h : step s e = .ok t) :
    (∃ w, e = .write w ∧ w.currPid = none ∧ t = s) ∨
    (∃ w pid, e = .write w ∧ w.currPid = some pid ∧ w.allocated = true ∧ s.lock = false ∧
      t = addTail s ⟨0, pid⟩) ∨
    (e = .callback ∧ s.lock = false ∧ t = updateAll s) ∨
    ∃ pid utime, e = .process pid utime ∧
      t = { s with processes := Function.update s.processes pid utime } := by
  cases e with
  | write w =>
    change mywrite s w = .ok t at h
    unfold mywrite at h
    cases read : w.currPid with
    | none =>
      rw [read] at h
      cases h
      exact .inl ⟨w, rfl, read, rfl⟩
    | some pid =>
      rw [read] at h
      obtain ⟨allocated, locked⟩ := ite_ok h
      obtain ⟨u, taken, done⟩ := bind_ok locked
      obtain ⟨free, rfl⟩ := spinLock_ok taken
      cases done
      refine .inr (.inl ⟨w, pid, rfl, read, allocated, free, ?_⟩)
      simp [spinUnlock, addTail, free]
  | callback =>
    obtain ⟨u, taken, done⟩ := bind_ok h
    obtain ⟨free, rfl⟩ := spinLock_ok taken
    cases done
    refine .inr (.inr (.inl ⟨rfl, free, ?_⟩))
    simp [spinUnlock, updateAll, free]
  | process pid utime =>
    cases h
    exact .inr (.inr (.inr ⟨pid, utime, rfl, rfl⟩))

end KernelModules.MP1
