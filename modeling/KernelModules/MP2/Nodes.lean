import KernelModules.Lib.Nodes
import KernelModules.MP2.Processes

/-!
# The scheduler in memory

The functions on blocks of the slab cache, on the links of `list.h` and on the timers that are
pending in the kernel. What `find_by_pid` returns, `curr_tsk` and the argument of a timer are
addresses, and an entry is there or not when it is accessed through one. They do what the
scheduler does with its list of entries, and `freeall` leaves nothing behind.
-/

namespace KernelModules.MP2

/-- `struct mp2_task_struct` but for its node and its timer. -/
structure TaskFields where
  tsk : Option Nat
  period : Nat
  computation : Nat
  pid : Nat
  state : TaskState
  nextPeriod : Nat
  deriving DecidableEq, Repr

/-- The entry with its address and its timer. -/
def TaskFields.task (t : TaskFields) (n : Nat) (tm : Option Nat) : Task :=
  ⟨n, t.tsk, tm, t.period, t.computation, t.pid, t.state, t.nextPeriod⟩

def TaskFields.periodJiffies (t : TaskFields) : Nat := Arith.c.u32 (t.period * userHz) / 1000

/-- The globals, the clock and the processes. `timers` are those pending in the kernel, by the
entry whose `tm` they are, with their expiry. -/
structure Kernel where
  nodes : Nodes TaskFields
  timers : Nat → Option Nat
  currTsk : Option Nat
  usage : Usage
  jiffies : Nat
  processes : Nat → Option Process
  wakeups : Nat

namespace Kernel

/-- What `mp2_init` leaves. -/
def init (jiffies : Nat) (processes : Nat → Option Process) : Kernel :=
  ⟨.empty, fun _ => none, none, ⟨0, 0⟩, jiffies, processes, 0⟩

def deref (k : Kernel) (n : Nat) : Except (Trap Fault) TaskFields := memory (k.nodes.fields n)

/-- Assign fields of the entry at `n`. -/
def assign (k : Kernel) (n : Nat) (f : TaskFields → TaskFields) : Except (Trap Fault) Kernel := do
  let t ← k.deref n
  let nodes ← memory (k.nodes.setFields n (f t))
  .ok { k with nodes := nodes }

/-- A kernel function applied to the process behind a `task_struct` pointer. -/
def onProcess (k : Kernel) (tsk : Option Nat) (f : Process → Process) :
    Except (Trap Fault) Kernel :=
  match tsk with
  | none => .error (.fault .nullProcess)
  | some p =>
    .ok { k with processes := fun q => if q = p then (k.processes q).map f else k.processes q }

def modTimer (k : Kernel) (n : Nat) (expires : Nat) : Kernel :=
  { k with timers := Function.update k.timers n (some expires) }

def wakeDispatcher (k : Kernel) : Kernel := { k with wakeups := k.wakeups + 1 }

def tmCallback (k : Kernel) (data : Nat) : Except (Trap Fault) Kernel := do
  let tsk ← k.deref data
  let k ←
    if tsk.state = .sleeping then k.assign data fun t => { t with state := .ready } else .ok k
  .ok k.wakeDispatcher

/-- `del_timer_sync`, `list_del`, `kmem_cache_free`. -/
def freeone (h : Nodes TaskFields) (timers : Nat → Option Nat) (itr : Nat) :
    Option (Nodes TaskFields × (Nat → Option Nat)) := do
  let _ ← h.fields itr
  let h ← h.listDel itr
  let h ← h.kfree itr
  some (h, Function.update timers itr none)

/-- `slab` is what `kmem_cache_alloc` returns, `none` for NULL: `list_add_tail` then writes to the
node of an entry at NULL. The entry is on the list before its fields are set. `setup_timer` does not
touch the timers that are pending. -/
def regEntry (k : Kernel) (slab : Option (Block TaskFields)) (pid : Int)
    (period computation : Nat) : Except (Trap Fault) Kernel :=
  let r := admissionControl .c k.usage period computation (toU32 pid) 0
  let k := { k with usage := r.2 }
  if r.1 ≠ 0 then .ok k
  else
    match slab with
    | none => .error .memory
    | some b => do
      let nodes ← memory ((k.nodes.kmalloc b).listAddTail b.addr)
      let tsk := (k.processes (toU32 pid)).map fun _ => toU32 pid
      let nodes ← memory
        (nodes.setFields b.addr ⟨tsk, period, computation, toU32 pid, .sleeping, 0⟩)
      .ok { k with nodes := nodes }

def findByPid (k : Kernel) (pid : Int) : Except (Trap Fault) (Option Nat) :=
  memory (k.nodes.find fun itr => decide (itr.pid = toU32 pid))

/-- `if (tsk == curr_tsk) curr_tsk = NULL`. -/
def relinquish (k : Kernel) (tsk : Nat) : Kernel :=
  { k with currTsk := if k.currTsk = some tsk then none else k.currTsk }

/-- The result is not read. -/
def setTaskSleep (k : Kernel) (pid : Int) : Except (Trap Fault) Kernel := do
  let tmp ← k.findByPid pid
  match tmp with
  | none => .ok k
  | some tmp => do
    let k ← (k.relinquish tmp).assign tmp fun t => { t with state := .sleeping }
    let t ← k.deref tmp
    k.onProcess t.tsk fun p => { p with state := .uninterruptible }

/-- The first line prints the pid of `curr_tsk`. -/
def yieldEntry (k : Kernel) (pid : Int) : Except (Trap Fault) Kernel := do
  let _ ← k.currTsk.mapM k.deref
  let yieldTsk ← k.findByPid pid
  match yieldTsk with
  | none => .error (.fault .nullTask)
  | some yieldTsk => do
    let t ← k.deref yieldTsk
    let k ←
      if t.nextPeriod = 0 then
        k.assign yieldTsk fun t =>
          { t with nextPeriod := Arith.c.u64 (k.jiffies + t.periodJiffies), state := .ready }
      else do
        let k ←
          if k.jiffies < t.nextPeriod then do
            let k ← k.setTaskSleep pid
            let t ← k.deref yieldTsk
            .ok (k.modTimer yieldTsk t.nextPeriod)
          else .ok k
        k.assign yieldTsk fun t =>
          { t with nextPeriod := Arith.c.u64 (t.nextPeriod + t.periodJiffies) }
    .ok k.wakeDispatcher

def deregEntry (k : Kernel) (pid : Int) : Except (Trap Fault) Kernel := do
  let tsk ← k.findByPid pid
  match tsk with
  | none => .ok k
  | some tsk => do
    let k := k.relinquish tsk
    let t ← k.deref tsk
    let k := { k with usage := (admissionControl .c k.usage t.period t.computation t.pid 1).2 }
    let (nodes, timers) ← memory (freeone k.nodes k.timers tsk)
    .ok { k with nodes := nodes, timers := timers }.wakeDispatcher

def mywrite (k : Kernel) (userbuff stack : List UInt8) (slab : Option (Block TaskFields)) :
    Except (Trap Fault) Kernel :=
  match Write.request ⟨userbuff, stack, 0⟩ with
  | none => .ok k
  | some (.register pid period computation) => k.regEntry slab pid period computation
  | some (.yield pid) => k.yieldEntry pid
  | some (.deregister pid) => k.deregEntry pid

/-- The body of the dispatcher's search, with `min_period` and `next`. -/
def choose (h : Nodes TaskFields) (best : Nat × Option Nat) (itr : Nat) :
    Option (Nodes TaskFields × (Nat × Option Nat)) := do
  let t ← h.fields itr
  some (h, if t.state ≠ .sleeping ∧ t.period < best.1 then (t.period, some itr) else best)

def setNewTask (k : Kernel) (tsk : Nat) : Except (Trap Fault) Kernel := do
  let t ← k.deref tsk
  let k ← k.onProcess t.tsk fun p => { p with state := .running }
  let k ← k.assign tsk fun t => { t with state := .running }
  let k ← k.onProcess t.tsk fun p => { p with policy := .fifo 99 }
  .ok { k with currTsk := some tsk }

def setOldTask (k : Kernel) (tsk : Nat) : Except (Trap Fault) Kernel := do
  let t ← k.deref tsk
  let k ← if t.state = .running then k.assign tsk fun t => { t with state := .ready } else .ok k
  k.onProcess t.tsk fun p => { p with policy := .normal }

/-- The rest of a round, which prints the pid of `next`. -/
def switchTo (k : Kernel) (next : Option Nat) : Except (Trap Fault) Kernel :=
  match next with
  | none => .ok k
  | some next => do
    let _ ← k.deref next
    if k.currTsk = some next then .ok k
    else do
      let k ← match k.currTsk with
        | none => .ok k
        | some curr => k.setOldTask curr
      k.setNewTask next

def dispatchRound (k : Kernel) : Except (Trap Fault) Kernel := do
  let (nodes, best) ← memory (k.nodes.listForEachEntrySafe choose (intMax, none))
  switchTo { k with nodes := nodes } best.2

/-- What `mp2_exit` does to the entries. -/
def freeall (k : Kernel) : Except (Trap Fault) Kernel := do
  let (nodes, timers) ← memory (k.nodes.listForEachEntrySafe freeone k.timers)
  .ok { k with currTsk := none, nodes := nodes, timers := timers }

/-! ## The module as a system -/

inductive Act
  /-- `memory` is whether `kmem_cache_alloc` returns `slab`, and not NULL, if it is called. -/
  | write (userbuff stack : List UInt8) (slab : Block TaskFields) (memory : Bool)
  | expire (n : Nat)
  | dispatch
  | tick
  | fork (pid : Nat)
  | exit (pid : Nat)
  deriving DecidableEq, Repr

def step (k : Kernel) : Act → Except (Trap Fault) Kernel
  | .write userbuff stack slab memory =>
    k.mywrite userbuff stack (if memory then some slab else none)
  | .expire n => tmCallback { k with timers := Function.update k.timers n none } n
  | .dispatch => k.dispatchRound
  | .tick => .ok { k with jiffies := k.jiffies + 1 }
  | .fork pid =>
    .ok { k with processes := fun q => if q = pid then some ⟨.running, .normal⟩ else k.processes q }
  | .exit pid => .ok { k with processes := fun q => if q = pid then none else k.processes q }

/-- What an action is to the scheduler. -/
def Act.event : Act → Event
  | .write userbuff stack slab _ => .write ⟨userbuff, stack, slab.addr⟩
  | .expire n => .expire n
  | .dispatch => .dispatch
  | .tick => .tick
  | .fork pid => .fork pid
  | .exit pid => .exit pid

/-- The cache hands out what is not allocated, and only a pending timer expires. -/
def Proper (k : Kernel) : Act → Prop
  | .write _ _ slab _ => slab.addr ∉ k.nodes.blocks
  | .expire n => k.timers n ≠ none
  | _ => True

instance (k : Kernel) (a : Act) : Decidable (k.Proper a) :=
  match a with
  | .write _ _ slab _ => inferInstanceAs (Decidable (slab.addr ∉ k.nodes.blocks))
  | .expire n => inferInstanceAs (Decidable (k.timers n ≠ none))
  | .dispatch => .isTrue trivial
  | .tick => .isTrue trivial
  | .fork _ => .isTrue trivial
  | .exit _ => .isTrue trivial

/-- A registration is admitted and there is no memory for its entry. -/
def Starved (k : Kernel) : Act → Prop
  | .write userbuff stack _ false => ∃ pid period computation,
    Write.request ⟨userbuff, stack, 0⟩ = some (.register pid period computation) ∧
      (admissionControl .c k.usage period computation (toU32 pid) 0).1 = 0
  | _ => False

def task (k : Kernel) (n : Nat) : Option Task :=
  (k.nodes.fields n).map fun t => t.task n (k.timers n)

def taskAt (k : Kernel) : KernelModules.Addr → Option Task
  | .block n => k.task n
  | _ => none

/-- The state of the scheduler: its entries are those on the list. -/
def scheduler (k : Kernel) : State :=
  ⟨k.nodes.onList.filterMap k.taskAt, k.currTsk, k.usage, k.jiffies, k.processes, k.wakeups⟩

end Kernel

/-! ## What is reached through an address -/

/-- The nodes `l` are on the list and all that is allocated, and `curr_tsk` and the timers that are
pending lead to them. -/
structure Wired (k : Kernel) (l : List Nat) : Prop where
  keeps : k.nodes.Keeps l []
  armed : ∀ n, k.timers n ≠ none → n ∈ l
  current : ∀ n, k.currTsk = some n → n ∈ l

/-- An operation and what it is to the scheduler: both fault alike, or both go through and the
scheduler has the entries that are on the list. -/
def Agree (l : List Nat) (x : Except (Trap Fault) Kernel) (y : Except Fault State) : Prop :=
  (∃ fault, x = .error (.fault fault) ∧ y = .error fault) ∨
  ∃ m, x = .ok m ∧ y = .ok m.scheduler ∧ Wired m l

section

variable {k : Kernel} {l : List Nat} {n : Nat}

theorem Agree.ok {m : Kernel} {s : State} (sound : Wired m l) (same : m.scheduler = s) :
    Agree l (.ok m) (.ok s) := .inr ⟨m, rfl, congrArg Except.ok same.symm, sound⟩

theorem Agree.bind {x : Except (Trap Fault) Kernel} {y : Except Fault State}
    {f : Kernel → Except (Trap Fault) Kernel} {g : State → Except Fault State} (agree : Agree l x y)
    (rest : ∀ m, Wired m l → Agree l (f m) (g m.scheduler)) : Agree l (x >>= f) (y >>= g) := by
  obtain ⟨fault, rfl, rfl⟩ | ⟨m, rfl, rfl, sound⟩ := agree
  · exact .inl ⟨fault, rfl, rfl⟩
  · exact rest m sound

theorem Wired.scheduler (sound : Wired k l) :
    k.scheduler = ⟨l.filterMap k.task, k.currTsk, k.usage, k.jiffies, k.processes, k.wakeups⟩ := by
  rw [Kernel.scheduler, sound.keeps.onList, List.filterMap_map]
  rfl

theorem Wired.stored (sound : Wired k l) (on : n ∈ l) : ∃ t, k.nodes.fields n = some t :=
  Option.ne_none_iff_exists'.mp (sound.keeps.stored n on)

theorem task_some {t : TaskFields} (stored : k.nodes.fields n = some t) :
    k.task n = some (t.task n (k.timers n)) := by
  rw [Kernel.task, stored, Option.map_some]

theorem task_addr {t : Task} (found : k.task n = some t) : t.addr = n := by
  obtain ⟨x, -, rfl⟩ := Option.map_eq_some_iff.mp found
  rfl

/-- The entries without the one at `n`. -/
theorem erase_tasks {t : TaskFields} {before behind : List Nat} (apart : n ∉ before)
    (stored : k.nodes.fields n = some t) :
    ((before ++ n :: behind).filterMap k.task).eraseP (fun x => decide (x.addr = n)) =
      (before ++ behind).filterMap k.task := by
  have others : ∀ x ∈ before.filterMap k.task, ¬ decide (x.addr = n) = true := by
    intro x mem
    obtain ⟨a, on, found⟩ := List.mem_filterMap.mp mem
    rw [task_addr found, decide_eq_true_eq]
    rintro rfl
    exact apart on
  rw [List.filterMap_append, List.filterMap_cons_some (task_some stored),
    List.eraseP_append_right _ others, List.filterMap_append]
  simp [TaskFields.task]

theorem deref_ok {t : TaskFields} (stored : k.nodes.fields n = some t) : k.deref n = .ok t := by
  rw [Kernel.deref, stored]
  rfl

/-- What is behind an address on the list is the entry with this address. -/
theorem Wired.entry (sound : Wired k l) (on : n ∈ l) : k.scheduler.entry n = k.task n := by
  have named : (fun a => (k.task a).any fun t => decide (t.addr = n)) =
      fun a => decide (a = n) && (k.nodes.fields a).isSome := by
    funext a
    rw [Kernel.task]
    cases k.nodes.fields a <;> simp [TaskFields.task]
  obtain ⟨t, stored⟩ := sound.stored on
  rw [sound.scheduler, State.entry, List.find?_filterMap, named]
  cases found : l.find? fun a => decide (a = n) && (k.nodes.fields a).isSome with
  | none =>
    have missing := List.find?_eq_none.mp found n on
    simp [stored] at missing
  | some a =>
    have same := List.find?_some found
    simp only [Bool.and_eq_true, decide_eq_true_eq] at same
    rw [same.1, Option.bind_some]

/-- `find_by_pid` returns the address of the entry. -/
theorem Wired.find (sound : Wired k l) (pid : Int) :
    (k.findByPid pid = .ok none ∧ MP2.findByPid k.scheduler pid = none) ∨
    ∃ n ∈ l, k.findByPid pid = .ok (some n) ∧ MP2.findByPid k.scheduler pid = k.task n := by
  have search : MP2.findByPid k.scheduler pid =
      (l.find? fun n =>
        (k.nodes.fields n).any fun t => decide (t.pid = toU32 pid)).bind k.task := by
    rw [sound.scheduler, MP2.findByPid, List.find?_filterMap]
    congr 2
    funext n
    rw [Kernel.task]
    cases k.nodes.fields n <;> rfl
  rw [Kernel.findByPid, sound.keeps.find, search]
  cases found : l.find? fun n => (k.nodes.fields n).any fun t => decide (t.pid = toU32 pid) with
  | none => exact .inl ⟨rfl, rfl⟩
  | some n => exact .inr ⟨n, List.mem_of_find?_eq_some found, rfl, rfl⟩

/-- One entry changes, by its fields or its timer. -/
theorem Wired.update (sound : Wired k l) {nodes : Nodes TaskFields} {timers : Nat → Option Nat}
    (sound' : Wired { k with nodes := nodes, timers := timers } l) {g : Task → Task}
    (tasks : ∀ a, Kernel.task { k with nodes := nodes, timers := timers } a =
      (k.task a).map fun t => if t.addr = n then g t else t) :
    Kernel.scheduler { k with nodes := nodes, timers := timers } = k.scheduler.update n g := by
  rw [sound'.scheduler, sound.scheduler, State.update, updateAt, List.map_filterMap, funext tasks]

/-- An assignment through an address is one to the entry. -/
theorem Wired.assign (sound : Wired k l) (on : n ∈ l) {t : TaskFields}
    (stored : k.nodes.fields n = some t) {f : TaskFields → TaskFields} {g : Task → Task}
    (same : ∀ tm, (f t).task n tm = g (t.task n tm)) :
    ∃ m, k.assign n f = .ok m ∧ Wired m l ∧ m.scheduler = k.scheduler.update n g ∧
      m.nodes.fields n = some (f t) := by
  obtain ⟨before, behind, rfl⟩ := List.append_of_mem on
  obtain ⟨nodes, set, keeps, fields, -⟩ := sound.keeps.set (f t)
  have sound' : Wired { k with nodes := nodes } (before ++ n :: behind) :=
    ⟨keeps, sound.armed, sound.current⟩
  refine ⟨{ k with nodes := nodes }, ?_, sound', sound.update sound' fun a => ?_, ?_⟩
  · simp only [Kernel.assign, deref_ok stored, set, memory, bind, Except.bind]
  · by_cases here : a = n
    · subst here
      have at_task (tm : Option Nat) : (t.task a tm).addr = a := rfl
      simp [Kernel.task, stored, fields, same, at_task]
    · rw [Kernel.task, Kernel.task, fields, Function.update_of_ne here]
      cases k.nodes.fields a <;> simp [here, TaskFields.task]
  · simp [fields]

/-- One that is made on a condition, and what comes after. -/
theorem Wired.assign_when (sound : Wired k l) (on : n ∈ l) {t : TaskFields}
    (stored : k.nodes.fields n = some t) {c : Prop} [Decidable c] {f : TaskFields → TaskFields}
    {g : Task → Task}
    (same : ∀ tm, g (t.task n tm) = if c then (f t).task n tm else t.task n tm)
    {x : Kernel → Except (Trap Fault) Kernel} {y : State → Except Fault State}
    (rest : ∀ m, Wired m l → Agree l (x m) (y m.scheduler)) :
    Agree l (if c then k.assign n f >>= x else x k) (y (k.scheduler.update n g)) := by
  by_cases asked : c
  · have always (tm : Option Nat) : (f t).task n tm = g (t.task n tm) := by
      rw [same tm, if_pos asked]
    obtain ⟨m, assigned, sound', scheduler, -⟩ := sound.assign on stored always
    rw [if_pos asked, assigned, ← scheduler]
    exact rest m sound'
  · have unchanged : k.scheduler = k.scheduler.update n g := by
      refine sound.update sound fun a => ?_
      by_cases here : a = n
      · subst here
        have at_task (tm : Option Nat) : (t.task a tm).addr = a := rfl
        simp [Kernel.task, stored, same, asked, at_task]
      · cases fields : k.nodes.fields a <;> simp [Kernel.task, fields, here, TaskFields.task]
    rw [if_neg asked, ← unchanged]
    exact rest k sound

theorem Wired.onProcess (sound : Wired k l) (tsk : Option Nat) (f : Process → Process) :
    Agree l (k.onProcess tsk f) (MP2.onProcess k.scheduler tsk f) := by
  cases tsk with
  | none => exact .inl ⟨.nullProcess, rfl, rfl⟩
  | some p => exact .ok ⟨sound.keeps, sound.armed, sound.current⟩ rfl

theorem Wired.wake (sound : Wired k l) :
    Agree l (.ok k.wakeDispatcher) (.ok k.scheduler.wakeDispatcher) :=
  .ok ⟨sound.keeps, sound.armed, sound.current⟩ rfl

theorem modTimer_other {a expires : Nat} (other : a ≠ n) :
    (k.modTimer n expires).timers a = k.timers a := Function.update_of_ne other _ _

theorem Wired.modTimer (sound : Wired k l) (on : n ∈ l) {t : TaskFields}
    (stored : k.nodes.fields n = some t) :
    Wired (k.modTimer n t.nextPeriod) l ∧ (k.modTimer n t.nextPeriod).scheduler =
      k.scheduler.update n fun t => { t with tm := some t.nextPeriod } := by
  have sound' : Wired (k.modTimer n t.nextPeriod) l := by
    refine ⟨sound.keeps, fun a pending => ?_, sound.current⟩
    by_cases here : a = n
    · exact here ▸ on
    · rw [modTimer_other here] at pending
      exact sound.armed a pending
  refine ⟨sound', sound.update sound' fun a => ?_⟩
  change (k.modTimer n t.nextPeriod).task a = _
  by_cases here : a = n
  · subst here
    simp [Kernel.task, Kernel.modTimer, stored, TaskFields.task]
  · have fields : (k.modTimer n t.nextPeriod).nodes.fields a = k.nodes.fields a := rfl
    rw [Kernel.task, Kernel.task, modTimer_other here, fields]
    cases k.nodes.fields a <;> simp [here, TaskFields.task]

theorem Wired.relinquish (sound : Wired k l) (n : Nat) : Wired (k.relinquish n) l := by
  refine ⟨sound.keeps, sound.armed, fun a curr => ?_⟩
  change (if k.currTsk = some n then none else k.currTsk) = some a at curr
  split at curr
  · cases curr
  · exact sound.current a curr

/-! ## The operations -/

/-- A timer that has expired leads to an entry. -/
theorem expiry_agrees (sound : Wired k l) (pending : k.timers n ≠ none) :
    Agree l (Kernel.tmCallback { k with timers := Function.update k.timers n none } n)
      (.ok (MP2.tmCallback (k.scheduler.update n fun t => { t with tm := none }) n)) := by
  have on := sound.armed n pending
  have sound₁ : Wired { k with timers := Function.update k.timers n none } l := by
    refine ⟨sound.keeps, fun a pending => ?_, sound.current⟩
    by_cases here : a = n
    · exact here ▸ on
    · simp only [Function.update_of_ne here] at pending
      exact sound.armed a pending
  have scheduler : Kernel.scheduler { k with timers := Function.update k.timers n none } =
      k.scheduler.update n fun t => { t with tm := none } := by
    refine sound.update sound₁ fun a => ?_
    by_cases here : a = n
    · subst here
      cases fields : k.nodes.fields a <;> simp [Kernel.task, fields, TaskFields.task]
    · cases fields : k.nodes.fields a <;> simp [Kernel.task, fields, here, TaskFields.task]
  obtain ⟨t, stored⟩ := sound₁.stored on
  simp only [Kernel.tmCallback, deref_ok stored, bind, Except.bind, MP2.tmCallback, ← scheduler]
  exact sound₁.assign_when on stored (y := fun s => .ok s.wakeDispatcher) (fun _ => rfl)
    fun m sound₂ => sound₂.wake

/-- The process of the entry is put to sleep. -/
theorem sleep_found (sound : Wired k l) (on : n ∈ l) {t : TaskFields}
    (stored : k.nodes.fields n = some t) {pid : Int} (search : k.findByPid pid = .ok (some n)) :
    (t.tsk = none ∧ k.setTaskSleep pid = .error (.fault .nullProcess)) ∨
    ∃ p m, t.tsk = some p ∧ k.setTaskSleep pid = .ok m ∧ Wired m l ∧
      m.nodes.fields n = some { t with state := .sleeping } ∧ m.scheduler = { k.scheduler with
        head := updateAt n (fun x => { x with state := .sleeping }) k.scheduler.head
        currTsk := if k.currTsk = some n then none else k.currTsk
        processes := fun q => if q = p then
          (k.processes q).map fun x => { x with state := .uninterruptible }
          else k.processes q } := by
  obtain ⟨m, assigned, sound₁, scheduler, stored₁⟩ := (sound.relinquish n).assign on stored
    (f := fun t => { t with state := .sleeping }) (g := fun t => { t with state := .sleeping })
    fun _ => rfl
  simp only [Kernel.setTaskSleep, search, bind, Except.bind, assigned, deref_ok stored₁]
  rcases Option.eq_none_or_eq_some t.tsk with tsk | ⟨p, tsk⟩
  · exact .inl ⟨tsk, by rw [tsk]; rfl⟩
  · let m' : Kernel :=
      { m with
        processes := fun q => if q = p then
          (m.processes q).map fun x => { x with state := .uninterruptible }
          else m.processes q }
    refine .inr ⟨p, m', tsk, by rw [tsk]; rfl, ⟨sound₁.keeps, sound₁.armed, sound₁.current⟩,
      stored₁, ?_⟩
    have processes : m.processes = k.processes := congrArg State.processes scheduler
    have moved : m'.scheduler = { m.scheduler with processes := m'.processes } := rfl
    rw [moved, scheduler]
    simp only [m', processes]
    rfl

theorem yield_agrees (sound : Wired k l) (pid : Int) :
    Agree l (k.yieldEntry pid) (MP2.yieldEntry k.scheduler pid) := by
  obtain ⟨printed, prints⟩ : ∃ x, k.currTsk.mapM k.deref = .ok x := by
    cases curr : k.currTsk with
    | none => exact ⟨none, rfl⟩
    | some a =>
      obtain ⟨t, stored⟩ := sound.stored (sound.current a curr)
      exact ⟨some t, by simp [deref_ok stored]⟩
  simp only [Kernel.yieldEntry, prints, bind, Except.bind]
  rcases sound.find pid with ⟨search, missing⟩ | ⟨n, on, search, found⟩
  · rw [search, yieldEntry_missing missing]
    exact .inl ⟨.nullTask, rfl, rfl⟩
  obtain ⟨t, stored⟩ := sound.stored on
  rw [task_some stored] at found
  simp only [search, deref_ok stored]
  by_cases first : t.nextPeriod = 0
  · obtain ⟨m, assigned, sound₁, scheduler, -⟩ := sound.assign on stored
      (f := fun t => { t with
        nextPeriod := Arith.c.u64 (k.jiffies + t.periodJiffies), state := .ready })
      (g := activated k.jiffies) fun _ => rfl
    rw [yieldEntry_first found first, if_pos first, assigned]
    exact .ok ⟨sound₁.keeps, sound₁.armed, sound₁.current⟩ (congrArg State.wakeDispatcher scheduler)
  rw [if_neg first]
  by_cases early : k.jiffies < t.nextPeriod
  · have early' : k.scheduler.jiffies < (t.task n (k.timers n)).nextPeriod := early
    rw [yieldEntry_early found first early', if_pos early]
    rcases sleep_found sound on stored search with
      ⟨tsk, slept⟩ | ⟨p, m, tsk, slept, sound₁, stored₁, s₁⟩
    · have tsk' : (t.task n (k.timers n)).tsk = none := tsk
      rw [slept, tsk']
      exact .inl ⟨.nullProcess, rfl, rfl⟩
    · have tsk' : (t.task n (k.timers n)).tsk = some p := tsk
      obtain ⟨sound₂, s₂⟩ := sound₁.modTimer on stored₁
      obtain ⟨m₃, assigned, sound₃, s₃, -⟩ := sound₂.assign on stored₁
        (f := fun t => { t with nextPeriod := Arith.c.u64 (t.nextPeriod + t.periodJiffies) })
        (g := advanced) fun _ => rfl
      rw [slept, tsk']
      simp only [deref_ok stored₁, assigned]
      refine .ok ⟨sound₃.keeps, sound₃.armed, sound₃.current⟩ ?_
      have entries : m₃.scheduler = { m.scheduler with
          head := updateAt n suspended k.scheduler.head } := by
        rw [s₃, s₂, s₁]
        simp only [State.update, updateAt_updateAt, implies_true]
        rfl
      exact (congrArg State.wakeDispatcher entries).trans (by rw [s₁]; rfl)
  · have late : (t.task n (k.timers n)).nextPeriod ≤ k.scheduler.jiffies := Nat.le_of_not_lt early
    obtain ⟨m, assigned, sound₁, scheduler, -⟩ := sound.assign on stored
      (f := fun t => { t with nextPeriod := Arith.c.u64 (t.nextPeriod + t.periodJiffies) })
      (g := advanced) fun _ => rfl
    rw [yieldEntry_late found first late, if_neg early]
    simp only [assigned]
    exact .ok ⟨sound₁.keeps, sound₁.armed, sound₁.current⟩ (congrArg State.wakeDispatcher scheduler)

theorem freeone_does : Nodes.Keeps.Does Kernel.freeone fun timers itr (_ : TaskFields) =>
    (Function.update timers itr none, none) := by
  intro h l l' others n t timers keeps stored
  obtain ⟨u, h', deleted, -, freed, keeps', fields, -⟩ := keeps.del
  refine ⟨h', ?_, keeps', fields⟩
  simp [Kernel.freeone, stored, deleted, freed]

theorem deregistration_agrees (sound : Wired k l) (pid : Int) :
    ∃ l', Agree l' (k.deregEntry pid) (.ok (MP2.deregEntry .c k.scheduler pid).2) := by
  simp only [Kernel.deregEntry, bind, Except.bind]
  rcases sound.find pid with ⟨search, missing⟩ | ⟨n, on, search, found⟩
  · rw [search, deregEntry_missing missing]
    exact ⟨l, .ok sound rfl⟩
  · obtain ⟨before, behind, rfl⟩ := List.append_of_mem on
    obtain ⟨t, stored⟩ := sound.stored on
    obtain ⟨-, apart, apart'⟩ := sound.keeps.node
    obtain ⟨nodes, freed, keeps, fields⟩ := freeone_does k.timers sound.keeps stored
    have elsewhere {a : Nat} (mem : a ∈ before ++ n :: behind) (other : a ≠ n) :
        a ∈ before ++ behind := by
      simp only [List.mem_append, List.mem_cons] at mem ⊢
      tauto
    rw [task_some stored] at found
    have read : (k.relinquish n).deref n = .ok t := deref_ok stored
    have freed : Kernel.freeone (k.relinquish n).nodes (k.relinquish n).timers n =
        some (nodes, Function.update k.timers n none) := freed
    simp only [search, read, freed, memory, deregEntry_found found]
    let m : Kernel :=
      { k with
        nodes := nodes
        timers := Function.update k.timers n none
        currTsk := if k.currTsk = some n then none else k.currTsk
        usage := (admissionControl .c k.usage t.period t.computation t.pid 1).2
        wakeups := k.wakeups + 1 }
    have sound' : Wired m (before ++ behind) := by
      refine ⟨keeps, fun a pending => ?_, fun a curr => ?_⟩
      · by_cases here : a = n
        · subst here
          exact absurd (Function.update_self _ _ _) pending
        · have pending : k.timers a ≠ none := by
            rwa [← Function.update_of_ne here none k.timers]
          exact elsewhere (sound.armed a pending) here
      · change (if k.currTsk = some n then none else k.currTsk) = some a at curr
        split at curr
        · cases curr
        · rename_i other
          refine elsewhere (sound.current a curr) ?_
          rintro rfl
          exact other curr
    refine ⟨before ++ behind, .ok (m := m) sound' ?_⟩
    have left : (before ++ behind).filterMap m.task = (before ++ behind).filterMap k.task := by
      apply List.filterMap_congr
      intro a mem
      have other : a ≠ n := by
        rintro rfl
        simp [apart, apart'] at mem
      simp [Kernel.task, m, fields, other]
    rw [sound'.scheduler, sound.scheduler, left, ← erase_tasks apart stored]
    rfl

/-- A registration, with what the cache hands out when it is admitted. -/
theorem registration_agrees (sound : Wired k l) {b : Block TaskFields}
    (fresh : b.addr ∉ k.nodes.blocks) (pid : Int) (period computation : Nat) :
    ∃ l', Agree l' (k.regEntry (some b) pid period computation)
      (.ok (MP2.regEntry .c b.addr k.scheduler pid period computation).2) := by
  by_cases admitted : (admissionControl .c k.usage period computation (toU32 pid) 0).1 = 0
  · have admitted' :
        (admissionControl .c k.scheduler.usage period computation (toU32 pid) 0).1 = 0 :=
      admitted
    have new : b.addr ∉ l := fun on => fresh (sound.keeps.on_block on)
    have idle : k.timers b.addr = none := by
      by_contra pending
      exact new (sound.armed _ pending)
    obtain ⟨keeps₁, -⟩ := sound.keeps.kmalloc fresh
    have stored : (k.nodes.kmalloc b).fields b.addr = some b.fields := Function.update_self _ _ _
    have there : (k.nodes.kmalloc b).links (.block b.addr) ≠ none := by simp [Nodes.kmalloc]
    obtain ⟨u, added, keeps₂, -, fields⟩ := keeps₁.addTail stored there
    obtain ⟨nodes, set, keeps, fields', -⟩ := keeps₂.set
      (⟨(k.processes (toU32 pid)).map fun _ => toU32 pid, period, computation, toU32 pid, .sleeping,
        0⟩ : TaskFields)
    let m : Kernel :=
      { k with
        nodes := nodes
        usage := (admissionControl .c k.usage period computation (toU32 pid) 0).2 }
    have sound' : Wired m (l ++ [b.addr]) :=
      ⟨keeps, fun a pending => List.mem_append_left _ (sound.armed a pending),
        fun a curr => List.mem_append_left _ (sound.current a curr)⟩
    have old : l.filterMap m.task = l.filterMap k.task := by
      apply List.filterMap_congr
      intro a on
      have other : a ≠ b.addr := fun same => new (same ▸ on)
      simp [Kernel.task, m, fields', fields, Nodes.kmalloc, other]
    have last : m.task b.addr = some (newTask b.addr k.scheduler pid period computation) := by
      simp [Kernel.task, m, fields', idle, TaskFields.task, newTask, findTaskByPid,
        Kernel.scheduler]
    refine ⟨l ++ [b.addr], ?_⟩
    rw [regEntry_admitted admitted']
    simp only [Kernel.regEntry, admitted, ne_eq, not_true_eq_false, ↓reduceIte, added, set, memory,
      bind, Except.bind]
    refine .ok (m := m) sound' ?_
    rw [sound'.scheduler, List.filterMap_append, old, List.filterMap_cons_some last,
      List.filterMap_nil, sound.scheduler]
  · have refused : (admissionControl .c k.scheduler.usage period computation (toU32 pid) 0).1 ≠ 0 :=
      admitted
    have same : (admissionControl .c k.usage period computation (toU32 pid) 0).2 = k.usage :=
      refused_unchanged admitted
    refine ⟨l, ?_⟩
    rw [regEntry_refused refused]
    simp only [Kernel.regEntry, admitted, ne_eq, not_false_eq_true, ↓reduceIte, same]
    exact .ok sound rfl

/-- The search of a round over the nodes is the scan of the entries. -/
theorem scan_named (k : Kernel) (l : List Nat) (best : Nat × Option Task) :
    let best' := (k.nodes.named l).foldl (fun best p =>
      if p.2.state ≠ .sleeping ∧ p.2.period < best.1 then (p.2.period, some p.1) else best)
      (best.1, best.2.map Task.addr)
    let scanned := (l.filterMap k.task).foldl (fun best itr =>
      if itr.state ≠ .sleeping ∧ itr.period < best.1 then (itr.period, some itr) else best) best
    best' = (scanned.1, scanned.2.map Task.addr) := by
  induction l generalizing best with
  | nil => rfl
  | cons n l ih =>
    cases stored : k.nodes.fields n with
    | none => simpa [Nodes.named, Kernel.task, stored] using ih best
    | some t =>
      rw [named_cons stored, List.filterMap_cons_some (task_some stored), List.foldl_cons,
        List.foldl_cons]
      by_cases better : t.state ≠ .sleeping ∧ t.period < best.1
      · have better' : (t.task n (k.timers n)).state ≠ .sleeping ∧
            (t.task n (k.timers n)).period < best.1 := better
        rw [if_pos better, if_pos better']
        exact ih (t.period, some (t.task n (k.timers n)))
      · have worse : ¬ ((t.task n (k.timers n)).state ≠ .sleeping ∧
            (t.task n (k.timers n)).period < best.1) := better
        rw [if_neg better, if_neg worse]
        exact ih best

theorem Wired.chosen (sound : Wired k l) :
    ∃ shortest, k.nodes.listForEachEntrySafe Kernel.choose (intMax, none) =
      some (k.nodes, shortest, (scan k.scheduler.head).2.map Task.addr) := by
  have reads (best : Nat × Option Nat) (n : Nat) (t : TaskFields)
      (stored : k.nodes.fields n = some t) : Kernel.choose k.nodes best n = some (k.nodes,
        if t.state ≠ .sleeping ∧ t.period < best.1 then (t.period, some n) else best) := by
    simp [Kernel.choose, stored]
  have looped := sound.keeps.listForEachEntrySafe_reads reads (intMax, none)
  have same := scan_named k l (intMax, none)
  refine ⟨(scan k.scheduler.head).1, ?_⟩
  rw [sound.scheduler]
  exact looped.trans (congrArg (fun best => some (k.nodes, best)) same)

theorem old_agrees (sound : Wired k l) (on : n ∈ l) :
    Agree l (k.setOldTask n) (MP2.setOldTask k.scheduler n) := by
  obtain ⟨t, stored⟩ := sound.stored on
  simp only [Kernel.setOldTask, deref_ok stored, bind, Except.bind, MP2.setOldTask,
    sound.entry on, task_some stored]
  exact sound.assign_when on stored
    (y := fun s => schedSetscheduler s (t.task n (k.timers n)).tsk .normal) (fun _ => rfl)
    fun m sound' => sound'.onProcess _ _

theorem new_agrees (sound : Wired k l) (on : n ∈ l) :
    Agree l (k.setNewTask n) (MP2.setNewTask k.scheduler n) := by
  obtain ⟨t, stored⟩ := sound.stored on
  simp only [Kernel.setNewTask, deref_ok stored, MP2.setNewTask, sound.entry on, task_some stored]
  refine (sound.onProcess t.tsk fun p => { p with state := .running }).bind fun m₁ sound₁ => ?_
  obtain ⟨t₁, stored₁⟩ := sound₁.stored on
  obtain ⟨m₂, assigned, sound₂, scheduler, -⟩ := sound₁.assign on stored₁
    (f := fun t => { t with state := .running }) (g := fun t => { t with state := .running })
    fun _ => rfl
  rw [assigned, ← scheduler]
  refine (sound₂.onProcess t.tsk fun p => { p with policy := .fifo 99 }).bind fun m₃ sound₃ => ?_
  refine .ok (m := { m₃ with currTsk := some n }) ⟨sound₃.keeps, sound₃.armed, ?_⟩ rfl
  intro a curr
  rwa [← Option.some.inj curr]

theorem switch_agrees (sound : Wired k l) (on : n ∈ l) :
    Agree l (k.switchTo (some n)) (MP2.switchTo k.scheduler (some n)) := by
  obtain ⟨t, stored⟩ := sound.stored on
  simp only [Kernel.switchTo, deref_ok stored, bind, Except.bind, MP2.switchTo]
  have carried : k.scheduler.currTsk = k.currTsk := rfl
  rw [carried]
  by_cases same : k.currTsk = some n
  · rw [if_pos same, if_pos same]
    exact .ok sound rfl
  · rw [if_neg same, if_neg same]
    cases curr : k.currTsk with
    | none => exact new_agrees sound on
    | some a =>
      exact (old_agrees sound (sound.current a curr)).bind
        (f := fun k => k.setNewTask n) (g := fun s => MP2.setNewTask s n)
        fun m sound' => new_agrees sound' on

theorem round_agrees (sound : Wired k l) :
    Agree l k.dispatchRound (MP2.dispatchRound k.scheduler) := by
  obtain ⟨shortest, looped⟩ := sound.chosen
  unfold MP2.dispatchRound
  simp only [Kernel.dispatchRound, looped, memory, bind, Except.bind]
  change Agree l (k.switchTo _) _
  cases chosen : (scan k.scheduler.head).2 with
  | none => exact .ok sound rfl
  | some next =>
    have on : next.addr ∈ l := by
      obtain ⟨mem, -⟩ := (scan_spec k.scheduler.head).1 next chosen
      rw [sound.scheduler] at mem
      obtain ⟨a, on, found⟩ := List.mem_filterMap.mp mem
      exact task_addr found ▸ on
    exact switch_agrees sound on

theorem through_freeone (timers : Nat → Option Nat) (l : List (Nat × TaskFields)) :
    let r := Nodes.through (fun timers itr (_ : TaskFields) =>
      ((Function.update timers itr none : Nat → Option Nat), none)) timers l
    r.2 = [] ∧ ∀ a, r.1 a = if a ∈ l.map Prod.fst then none else timers a := by
  induction l generalizing timers with
  | nil => exact ⟨rfl, fun a => rfl⟩
  | cons p l ih =>
    obtain ⟨none_left, cleared⟩ := ih (Function.update timers p.1 none)
    refine ⟨none_left, fun a => (cleared a).trans ?_⟩
    rw [List.map_cons]
    by_cases here : a = p.1
    · simp [here]
    · simp only [List.mem_cons, here, false_or, Function.update_of_ne, ne_eq, not_false_eq_true]

theorem freeall_frees (sound : Wired k l) :
    ∃ m, k.freeall = .ok m ∧ Wired m [] ∧ m.scheduler = MP2.freeall k.scheduler := by
  obtain ⟨nodes, rest, looped, keeps, named⟩ :=
    sound.keeps.listForEachEntrySafe freeone_does k.timers
  obtain ⟨none_left, cleared⟩ := through_freeone k.timers (k.nodes.named l)
  rw [none_left] at named
  have gone : rest = [] := by
    have contents : nodes.contents rest = [] := by rw [contents_named, named, List.map_nil]
    rw [← List.isEmpty_iff, ← keeps.contents_isEmpty, contents, List.isEmpty_nil]
  subst gone
  obtain ⟨timers, looped, cleared⟩ : ∃ timers,
      k.nodes.listForEachEntrySafe Kernel.freeone k.timers = some (nodes, timers) ∧
      ∀ a, timers a = if a ∈ (k.nodes.named l).map Prod.fst then none else k.timers a :=
    ⟨_, looped, cleared⟩
  have sound' : Wired { k with currTsk := none, nodes := nodes, timers := timers } [] := by
    refine ⟨keeps, fun a pending => ?_, fun a curr => absurd curr.symm (Option.some_ne_none a)⟩
    change timers a ≠ none at pending
    rw [cleared] at pending
    split at pending
    · exact absurd rfl pending
    · rename_i missing
      refine absurd ?_ missing
      obtain ⟨t, stored⟩ := sound.stored (sound.armed a pending)
      refine List.mem_map.mpr ⟨(a, t), List.mem_filterMap.mpr ⟨a, sound.armed a pending, ?_⟩, rfl⟩
      rw [stored, Option.map_some]
  refine ⟨_, by simp only [Kernel.freeall, looped, memory, bind, Except.bind], sound', ?_⟩
  rw [sound'.scheduler, freeall_eq]
  rfl

end

/-! ## Runs -/

theorem step_agrees {k : Kernel} {l : List Nat} {a : Kernel.Act} (sound : Wired k l)
    (proper : k.Proper a) :
    (k.Starved a ∧ k.step a = .error .memory) ∨
    ∃ l', Agree l' (k.step a) (MP2.step k.scheduler a.event) := by
  have still (m : Kernel) (nodes : m.nodes = k.nodes) (timers : m.timers = k.timers)
      (curr : m.currTsk = k.currTsk) : Wired m l :=
    ⟨nodes ▸ sound.keeps, timers ▸ sound.armed, curr ▸ sound.current⟩
  cases a with
  | write userbuff stack slab memory =>
    have asked : Write.request ⟨userbuff, stack, slab.addr⟩ = Write.request ⟨userbuff, stack, 0⟩ :=
      rfl
    simp only [Kernel.step, Kernel.mywrite, Kernel.Act.event, MP2.step, MP2.mywrite, asked]
    cases request : Write.request ⟨userbuff, stack, 0⟩ with
    | none => exact .inr ⟨l, .ok sound rfl⟩
    | some r =>
      cases r with
      | register pid period computation =>
        cases memory with
        | true => exact .inr (registration_agrees sound proper pid period computation)
        | false =>
          by_cases admitted : (admissionControl .c k.usage period computation (toU32 pid) 0).1 = 0
          · refine .inl ⟨⟨pid, period, computation, request, admitted⟩, ?_⟩
            simp [Kernel.regEntry, admitted]
          · have refused : (admissionControl .c k.scheduler.usage period computation
                (toU32 pid) 0).1 ≠ 0 := admitted
            have same : (admissionControl .c k.usage period computation (toU32 pid) 0).2 =
                k.usage := refused_unchanged admitted
            refine .inr ⟨l, ?_⟩
            simp only [perform, regEntry_refused refused, Kernel.regEntry, admitted, ne_eq,
              not_false_eq_true, ↓reduceIte, same]
            exact .ok sound rfl
      | yield pid => exact .inr ⟨l, yield_agrees sound pid⟩
      | deregister pid => exact .inr (deregistration_agrees sound pid)
  | expire n => exact .inr ⟨l, expiry_agrees sound proper⟩
  | dispatch => exact .inr ⟨l, round_agrees sound⟩
  | tick => exact .inr ⟨l, .ok (still _ rfl rfl rfl) rfl⟩
  | fork pid => exact .inr ⟨l, .ok (still _ rfl rfl rfl) rfl⟩
  | exit pid => exact .inr ⟨l, .ok (still _ rfl rfl rfl) rfl⟩

theorem Wired.possible {k : Kernel} {l : List Nat} {a : Kernel.Act} (sound : Wired k l)
    (proper : k.Proper a) : Possible k.scheduler a.event := by
  cases a with
  | write userbuff stack slab memory =>
    intro t mem
    rw [sound.scheduler] at mem
    obtain ⟨n, on, found⟩ := List.mem_filterMap.mp mem
    rw [task_addr found]
    rintro rfl
    exact proper (sound.keeps.on_block on)
  | expire n =>
    have on := sound.armed n proper
    obtain ⟨t, stored⟩ := sound.stored on
    refine ⟨t.task n (k.timers n), ?_, rfl, proper⟩
    rw [sound.scheduler]
    exact List.mem_filterMap.mpr ⟨n, on, task_some stored⟩
  | dispatch => trivial
  | tick => trivial
  | fork pid => trivial
  | exit pid => trivial

theorem kernel_run {jiffies : Nat} {processes : Nat → Option Process} {as : List Kernel.Act}
    {k : Kernel} (run : Run Kernel.step Kernel.Proper (.init jiffies processes) as k) :
    (∃ l, Wired k l) ∧
      Reaches Possible jiffies processes (as.map Kernel.Act.event) k.scheduler := by
  induction run with
  | init =>
    refine ⟨⟨[], .empty, fun n pending => absurd rfl pending, fun n curr => ?_⟩, .init⟩
    cases curr
  | @next as k m a _ proper stepped ih =>
    obtain ⟨⟨l, sound⟩, before⟩ := ih
    rcases step_agrees sound proper with
      ⟨-, failed⟩ | ⟨l', ⟨fault, failed, -⟩ | ⟨m', went, event, sound'⟩⟩
    · cases stepped.symm.trans failed
    · cases stepped.symm.trans failed
    · cases stepped.symm.trans went
      rw [List.map_append]
      exact ⟨⟨l', sound'⟩, before.next (sound.possible proper) event⟩

/-- `freeall` goes through after every run and leaves nothing allocated and no timer pending. -/
theorem unloading_frees_all {jiffies : Nat} {processes : Nat → Option Process}
    {as : List Kernel.Act} {k : Kernel}
    (run : Run Kernel.step Kernel.Proper (.init jiffies processes) as k) :
    ∃ m, k.freeall = .ok m ∧ m.nodes.blocks = [] ∧ m.nodes.onList = [] ∧
      (∀ n, m.timers n = none) ∧ m.scheduler = MP2.freeall k.scheduler := by
  obtain ⟨⟨l, sound⟩, -⟩ := kernel_run run
  obtain ⟨m, freed, sound', scheduler⟩ := freeall_frees sound
  refine ⟨m, freed, List.perm_nil.mp sound'.keeps.blocks, sound'.keeps.onList, fun n => ?_,
    scheduler⟩
  by_contra pending
  exact absurd (sound'.armed n pending) List.not_mem_nil

/-- A task that sleeps, with its timer pending. -/
theorem unloading_frees_all_asleep :
    ∃ k m, Run Kernel.step Kernel.Proper (.init 1 fun _ => none)
        [.fork 7,
          .write (bytes "R,7,500,86\n") [] ⟨0, ⟨.head, .poison⟩, ⟨none, 0, 0, 9, .running, 0⟩⟩ true,
          .write (bytes "Y,7\n") [] ⟨2, ⟨.head, .head⟩, ⟨none, 0, 0, 0, .ready, 0⟩⟩ true, .dispatch,
          .write (bytes "Y,7\n") [] ⟨2, ⟨.head, .head⟩, ⟨none, 0, 0, 0, .ready, 0⟩⟩ true] k ∧
      k.timers 0 = some 51 ∧ k.freeall = .ok m ∧ m.nodes.blocks = [] ∧ m.timers 0 = none := by
  obtain ⟨k, run, armed⟩ : ∃ k, Run Kernel.step Kernel.Proper (.init 1 fun _ => none)
      [.fork 7,
        .write (bytes "R,7,500,86\n") [] ⟨0, ⟨.head, .poison⟩, ⟨none, 0, 0, 9, .running, 0⟩⟩ true,
        .write (bytes "Y,7\n") [] ⟨2, ⟨.head, .head⟩, ⟨none, 0, 0, 0, .ready, 0⟩⟩ true, .dispatch,
        .write (bytes "Y,7\n") [] ⟨2, ⟨.head, .head⟩, ⟨none, 0, 0, 0, .ready, 0⟩⟩ true] k ∧
      k.timers 0 = some 51 := by
    refine Run.exists_of_replay (fun k => k.timers 0) (a := some 51) (by decide +kernel)
      fun k run seen => ?_
    exact seen
  obtain ⟨m, freed, blocks, -, timers, -⟩ := unloading_frees_all run
  exact ⟨k, m, run, armed, freed, blocks, timers 0⟩

end KernelModules.MP2
