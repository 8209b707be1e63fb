import KernelModules.Lib.Nodes
import KernelModules.Lib.Progress
import KernelModules.MP3.Sampler

/-!
# The profiler in memory

`reg_entry`, `unreg_entry` and the work callback on blocks of `kmalloc` and on the links of
`list.h`. They do what the profiler does with its list of entries. A registration whose process
is not found allocates an entry that nobody frees, and `mp3_exit` frees none.
-/

namespace KernelModules.MP3

/-- `HEAD` with its nodes, and the rest of the state of the profiler. -/
structure Kernel where
  nodes : Nodes Entry
  vm : Nat → Nat
  offset : Nat
  bufferFilledUp : Bool
  lock : Bool
  pending : Bool
  jiffies : Nat
  processes : Nat → Option Process

/-- The body of the loop of the work callback. -/
def visit (h : Nodes Entry) (acc : (Nat → Option Process) × Sample) (n : Nat) :
    Option (Nodes Entry × (Nat → Option Process) × Sample) := do
  let itr ← h.fields n
  let (processes, itr) := getCpuUse acc.1 itr
  let h ← h.setFields n itr
  some (h, processes, acc.2.add itr)

namespace Kernel

/-- What `mp3_init` leaves. -/
def init (vm : Nat → Nat) (jiffies : Nat) (processes : Nat → Option Process) : Kernel :=
  ⟨.empty, vm, 0, false, false, false, jiffies, processes⟩

def spinLock (k : Kernel) : Except (Trap Fault) Kernel :=
  if k.lock then .error (.fault .spins) else .ok { k with lock := true }

def spinUnlock (k : Kernel) : Kernel := { k with lock := false }

def workqueueCallback (k : Kernel) : Except (Trap Fault) Kernel :=
  if k.bufferFilledUp then .ok k
  else do
    let k ← k.spinLock
    let (nodes, processes, tmps) ←
      memory (k.nodes.listForEachEntrySafe visit (k.processes, ⟨k.jiffies, 0, 0, 0⟩))
    .ok { k with
      nodes := nodes
      processes := processes
      vm := store k.vm (stores k.offset tmps)
      offset := nextOffset k.offset
      bufferFilledUp := k.bufferFilledUp || decide (nextOffset k.offset ≥ vmElementSize)
      pending := true }.spinUnlock

/-- `newStruct` is what `kmalloc` returns. When no process is found it is not freed. -/
def regEntry (k : Kernel) (newStruct : Option (Block Entry)) (pid : Int) :
    Except (Trap Fault) Kernel :=
  match newStruct with
  | none => .error (.fault .nullEntry)
  | some b => do
    let nodes ← memory ((k.nodes.kmalloc b).setFields b.addr { b.fields with pid := pid })
    let k := { k with nodes := nodes }
    match findTaskByPid k.processes (toU32 pid) with
    | none => .ok k
    | some _ => do
      let k ← k.spinLock
      let empty ← memory k.nodes.listEmpty
      let nodes ← memory (k.nodes.listAddTail b.addr)
      .ok { k with nodes := nodes, pending := empty || k.pending }.spinUnlock

def unregEntry (k : Kernel) (pid : Int) : Except (Trap Fault) Kernel := do
  let k ← k.spinLock
  let task ← memory (k.nodes.find fun itr => decide (itr.pid = pid))
  match task with
  | none => .ok k
  | some n => do
    let nodes ← memory (k.nodes.listDel n)
    let empty ← memory nodes.listEmpty
    let nodes ← memory (nodes.kfree n)
    .ok { k with
      nodes := nodes
      offset := if empty then 0 else k.offset
      pending := !empty && k.pending }.spinUnlock

/-- The bytes of a write, and what `kmalloc` returns if it is called. -/
def mywrite (k : Kernel) (userbuff : List UInt8) (newStruct : Option (Block Entry)) :
    Except (Trap Fault) Kernel :=
  match Write.request ⟨userbuff, newStruct.map Block.fields⟩ with
  | none => .ok k
  | some (.register pid) => k.regEntry newStruct pid
  | some (.unregister pid) => k.unregEntry pid

/-- No entry is freed. -/
def mp3Exit (k : Kernel) : Except (Trap Fault) Kernel := do
  let k ← k.spinLock
  .ok { k with pending := false }.spinUnlock

/-! ## The module as a system -/

inductive Act
  | write (userbuff : List UInt8) (newStruct : Option (Block Entry))
  | fire
  | tick
  | fork (pid : Nat) (task : Process)
  | accrue (pid : Nat) (task : Process)
  | exit (pid : Nat)
  deriving DecidableEq, Repr

def step (k : Kernel) : Act → Except (Trap Fault) Kernel
  | .write userbuff newStruct => k.mywrite userbuff newStruct
  | .fire => workqueueCallback { k with pending := false }
  | .tick => .ok { k with jiffies := Arith.c.u64 (k.jiffies + 1) }
  | .fork pid task => .ok { k with processes := Function.update k.processes pid (some task) }
  | .accrue pid task =>
    .ok { k with processes := Function.update k.processes pid ((k.processes pid).map (·.add task)) }
  | .exit pid => .ok { k with processes := Function.update k.processes pid none }

/-- What an action is to the profiler. -/
def Act.event : Act → Event
  | .write userbuff newStruct => .write ⟨userbuff, newStruct.map Block.fields⟩
  | .fire => .fire
  | .tick => .tick
  | .fork pid task => .fork pid task
  | .accrue pid task => .accrue pid task
  | .exit pid => .exit pid

/-- `kmalloc` returns what is not allocated. -/
def Proper (k : Kernel) : Act → Prop
  | .write _ newStruct => ∀ b ∈ newStruct, b.addr ∉ k.nodes.blocks
  | _ => True

instance (k : Kernel) (a : Act) : Decidable (k.Proper a) :=
  match a with
  | .write _ newStruct => inferInstanceAs (Decidable (∀ b ∈ newStruct, b.addr ∉ k.nodes.blocks))
  | .fire => .isTrue trivial
  | .tick => .isTrue trivial
  | .fork _ _ => .isTrue trivial
  | .accrue _ _ => .isTrue trivial
  | .exit _ => .isTrue trivial

/-- The state of the profiler: its entries are those on the list. -/
def profiler (k : Kernel) : State :=
  ⟨k.nodes.entries, k.vm, k.offset, k.bufferFilledUp, k.lock, k.pending, k.jiffies, k.processes⟩

/-- The entries that were set up for processes that were not found. -/
def lost (g : List Nat) (k : Kernel) : Act → List Nat
  | .write userbuff (some b) =>
    match Write.request ⟨userbuff, some b.fields⟩ with
    | some (.register pid) =>
      if findTaskByPid k.processes (toU32 pid) = none then b.addr :: g else g
    | _ => g
  | _ => g

end Kernel

/-! ## The loops -/

theorem visit_does : Nodes.Keeps.Does visit fun acc _ itr =>
    (((getCpuUse acc.1 itr).1, acc.2.add (getCpuUse acc.1 itr).2),
      some (getCpuUse acc.1 itr).2) := by
  intro h l l' others n itr acc keeps stored
  obtain ⟨h', set, keeps', fields, -⟩ := keeps.set (getCpuUse acc.1 itr).2
  refine ⟨h', ?_, keeps', fields⟩
  simp [visit, stored, set]

/-- The loop over the nodes is the loop over the entries. -/
theorem through_collect (processes : Nat → Option Process) (tmps : Sample)
    (l : List (Nat × Entry)) :
    let r := Nodes.through (fun (acc : (Nat → Option Process) × Sample) _ (itr : Entry) =>
      (((getCpuUse acc.1 itr).1, acc.2.add (getCpuUse acc.1 itr).2),
        some (getCpuUse acc.1 itr).2)) (processes, tmps) l
    r.1 = ((collect processes tmps (l.map Prod.snd)).1,
        (collect processes tmps (l.map Prod.snd)).2.1) ∧
      r.2.map Prod.snd = (collect processes tmps (l.map Prod.snd)).2.2 := by
  induction l generalizing processes tmps with
  | nil => exact ⟨rfl, rfl⟩
  | cons x l ih =>
    obtain ⟨acc, list⟩ := ih (getCpuUse processes x.2).1 (tmps.add (getCpuUse processes x.2).2)
    constructor
    · exact acc
    · exact congrArg ((getCpuUse processes x.2).2 :: ·) list

/-! ## One step -/

/-- An operation and what it is to the profiler: both fault alike, or both go through and the
profiler has the entries that are on the list. `g` is what is allocated and not on the list. -/
def Agree (x : Except (Trap Fault) Kernel) (y : Except Fault State) (g : List Nat) : Prop :=
  (∃ fault, x = .error (.fault fault) ∧ y = .error fault) ∨
  ∃ m l, x = .ok m ∧ y = .ok m.profiler ∧ m.nodes.Keeps l g

section

variable {k : Kernel} {l g : List Nat}

theorem Kernel.profiler_eq (keeps : k.nodes.Keeps l g) :
    k.profiler = ⟨k.nodes.contents l, k.vm, k.offset, k.bufferFilledUp, k.lock, k.pending,
      k.jiffies, k.processes⟩ := by
  rw [Kernel.profiler, keeps.entries]

theorem callback_agrees (keeps : k.nodes.Keeps l g) :
    Agree k.workqueueCallback (MP3.workqueueCallback k.profiler) g := by
  unfold Kernel.workqueueCallback MP3.workqueueCallback
  by_cases filled : k.bufferFilledUp = true
  · have filled' : k.profiler.bufferFilledUp = true := filled
    rw [if_pos filled, if_pos filled']
    exact .inr ⟨k, l, rfl, rfl, keeps⟩
  have filled' : ¬ k.profiler.bufferFilledUp = true := filled
  rw [if_neg filled, if_neg filled']
  cases taken : k.lock with
  | true =>
    left
    refine ⟨.spins, ?_, ?_⟩
    · simp [Kernel.spinLock, taken, bind, Except.bind]
    · simp [spinLock, Kernel.profiler, taken, bind, Except.bind]
  | false =>
    right
    obtain ⟨nodes, rest, looped, keeps', named⟩ :=
      keeps.listForEachEntrySafe visit_does (k.processes, ⟨k.jiffies, 0, 0, 0⟩)
    obtain ⟨acc, list⟩ :=
      through_collect k.processes ⟨k.jiffies, 0, 0, 0⟩ (k.nodes.named l)
    rw [← contents_named] at acc list
    rw [acc] at looped
    have contents : nodes.contents rest =
        (collect k.processes ⟨k.jiffies, 0, 0, 0⟩ (k.nodes.contents l)).2.2 := by
      rw [contents_named, named, list]
    let m : Kernel :=
      { k with
        nodes := nodes
        processes := (collect k.processes ⟨k.jiffies, 0, 0, 0⟩ (k.nodes.contents l)).1
        vm := store k.vm (stores k.offset
          (collect k.processes ⟨k.jiffies, 0, 0, 0⟩ (k.nodes.contents l)).2.1)
        offset := nextOffset k.offset
        bufferFilledUp := k.bufferFilledUp || decide (nextOffset k.offset ≥ vmElementSize)
        pending := true
        lock := false }
    refine ⟨m, rest, ?_, ?_, keeps'⟩
    · simp only [Kernel.spinLock, taken, Bool.false_eq_true, ↓reduceIte, looped, memory, bind,
        Except.bind]
      rfl
    · rw [Kernel.profiler_eq keeps, Kernel.profiler_eq (k := m) keeps', contents]
      simp only [spinLock, taken, Bool.false_eq_true, ↓reduceIte, bind, Except.bind, spinUnlock,
        takeSample, State.collected, queueDelayedWork, m]

theorem registration_agrees (keeps : k.nodes.Keeps l g) {b : Block Entry}
    (fresh : b.addr ∉ k.nodes.blocks) (pid : Int) :
    Agree (k.regEntry (some b) pid) (MP3.regEntry k.profiler (some b.fields) pid)
      (if findTaskByPid k.processes (toU32 pid) = none then b.addr :: g else g) := by
  obtain ⟨u, set, keeps₁, stored, there, same⟩ := keeps.alloc fresh { b.fields with pid := pid }
  simp only [Kernel.regEntry, set, memory, bind, Except.bind, MP3.regEntry]
  have processes : k.profiler.processes = k.processes := rfl
  rw [processes]
  cases found : findTaskByPid k.processes (toU32 pid) with
  | none =>
    right
    rw [if_pos rfl]
    refine ⟨{ k with nodes := u }, l, rfl, ?_, keeps₁⟩
    rw [Kernel.profiler_eq keeps, Kernel.profiler_eq (k := { k with nodes := u }) keeps₁, same]
  | some task =>
    rw [if_neg (Option.some_ne_none task)]
    cases taken : k.lock with
    | true =>
      left
      refine ⟨.spins, ?_, ?_⟩
      · simp [Kernel.spinLock]
      · simp [spinLock, Kernel.profiler, taken]
    | false =>
      right
      obtain ⟨nodes, added, keeps₂, contents, -⟩ := keeps₁.addTail stored there
      let m : Kernel := { k with nodes := nodes, lock := false, pending := l.isEmpty || k.pending }
      refine ⟨m, l ++ [b.addr], ?_, ?_, keeps₂⟩
      · simp only [Kernel.spinLock, Bool.false_eq_true, ↓reduceIte, keeps₁.listEmpty, added]
        rfl
      · have empty : l.isEmpty = (k.nodes.contents l).isEmpty := keeps.contents_isEmpty.symm
        rw [Kernel.profiler_eq keeps, Kernel.profiler_eq (k := m) keeps₂, contents, same]
        simp only [spinLock, taken, Bool.false_eq_true, ↓reduceIte, m, empty]
        cases k.nodes.contents l <;> rfl

theorem unregistration_agrees (keeps : k.nodes.Keeps l g) (pid : Int) :
    Agree (k.unregEntry pid) (MP3.unregEntry k.profiler pid) g := by
  cases taken : k.lock with
  | true =>
    left
    refine ⟨.spins, ?_, ?_⟩
    · simp [Kernel.unregEntry, Kernel.spinLock, taken, bind, Except.bind]
    · simp [MP3.unregEntry, spinLock, Kernel.profiler, taken, bind, Except.bind]
  | false =>
    right
    have locked : spinLock k.profiler = .ok { k.profiler with lock := true } := by
      simp [spinLock, Kernel.profiler, taken]
    simp only [Kernel.unregEntry, Kernel.spinLock, taken, Bool.false_eq_true, ↓reduceIte, bind,
      Except.bind, MP3.unregEntry, locked]
    rcases keeps.find_entry fun itr => decide (itr.pid = pid) with
      ⟨search, missing⟩ | ⟨before, n, behind, rfl, search, present, erased⟩
    · have missing' : getByPid { k.profiler with lock := true } pid = none := missing
      rw [search, missing']
      exact ⟨{ k with lock := true }, l, rfl, rfl, keeps⟩
    · obtain ⟨u, nodes, deleted, empty, freed, keeps', fields, -⟩ := keeps.del
      obtain ⟨itr, found⟩ := Option.ne_none_iff_exists'.mp present
      have found' : getByPid { k.profiler with lock := true } pid = some itr := found
      have gone : n ∉ before ++ behind := by
        obtain ⟨-, first, second⟩ := keeps.node
        simp [first, second]
      have rest : k.profiler.head.eraseP (fun itr => decide (itr.pid = pid)) =
          nodes.entries := by
        rw [keeps'.entries, contents_update gone fields]
        exact erased
      let m : Kernel :=
        { k with
          nodes := nodes
          offset := if (before ++ behind).isEmpty then 0 else k.offset
          pending := !(before ++ behind).isEmpty && k.pending
          lock := false }
      have entries : (before ++ behind).isEmpty = nodes.entries.isEmpty := by
        rw [keeps'.entries, keeps'.contents_isEmpty]
      refine ⟨m, before ++ behind, ?_, ?_, keeps'⟩
      · simp only [search, memory, deleted, empty, freed]
        rfl
      · simp only [found', rest]
        rw [Kernel.profiler]
        simp only [m, entries]
        cases same : nodes.entries <;>
          simp [spinUnlock, cancelDelayedWorkSync, Kernel.profiler, same]

end

/-- What happens to the blocks that are not on the list. -/
theorem step_agrees {k : Kernel} {l g : List Nat} {a : Kernel.Act} (keeps : k.nodes.Keeps l g)
    (proper : k.Proper a) :
    Agree (k.step a) (MP3.step k.profiler a.event) (Kernel.lost g k a) := by
  cases a with
  | write userbuff newStruct =>
    change Agree (k.mywrite userbuff newStruct)
      (MP3.mywrite k.profiler ⟨userbuff, newStruct.map Block.fields⟩) _
    unfold Kernel.mywrite MP3.mywrite
    cases newStruct with
    | none =>
      simp only [Option.map_none, Kernel.lost]
      cases Write.request ⟨userbuff, none⟩ with
      | none => exact .inr ⟨k, l, rfl, rfl, keeps⟩
      | some request =>
        cases request with
        | register pid => exact .inl ⟨.nullEntry, rfl, rfl⟩
        | unregister pid => exact unregistration_agrees keeps pid
    | some b =>
      simp only [Option.map_some, Kernel.lost]
      cases Write.request ⟨userbuff, some b.fields⟩ with
      | none => exact .inr ⟨k, l, rfl, rfl, keeps⟩
      | some request =>
        cases request with
        | register pid => exact registration_agrees keeps (proper b rfl) pid
        | unregister pid => exact unregistration_agrees keeps pid
  | fire => exact callback_agrees (k := { k with pending := false }) keeps
  | tick => exact .inr ⟨_, l, rfl, rfl, keeps⟩
  | fork pid task => exact .inr ⟨_, l, rfl, rfl, keeps⟩
  | accrue pid task => exact .inr ⟨_, l, rfl, rfl, keeps⟩
  | exit pid => exact .inr ⟨_, l, rfl, rfl, keeps⟩

/-! ## Runs -/

theorem kernel_run {vm : Nat → Nat} {jiffies : Nat} {processes : Nat → Option Process}
    {as : List Kernel.Act} {x : Kernel × List Nat}
    (run : Run (ghosted Kernel.step Kernel.lost) (fun x a => x.1.Proper a)
      (.init vm jiffies processes, []) as x) :
    (∃ l, x.1.nodes.Keeps l x.2) ∧
      Run MP3.step (fun _ _ => True) (State.init vm jiffies processes)
        (as.map Kernel.Act.event) x.1.profiler := by
  induction run with
  | init => exact ⟨⟨[], .empty⟩, .init⟩
  | @next as x y a _ proper stepped ih =>
    obtain ⟨⟨l, keeps⟩, before⟩ := ih
    obtain ⟨stepped, ghost⟩ := ghosted_ok stepped
    rcases step_agrees keeps proper with ⟨fault, faults, -⟩ | ⟨m, l', stepped', event, keeps'⟩
    · cases stepped.symm.trans faults
    · cases stepped.symm.trans stepped'
      rw [List.map_append, ghost]
      exact ⟨⟨l', keeps'⟩, before.next trivial event⟩

/-- The module that is unloaded leaves memory allocated unless every process has unregistered and
every registration has found its process. -/
theorem unload_leaks_iff {vm : Nat → Nat} {jiffies : Nat} {processes : Nat → Option Process}
    {as : List Kernel.Act} {x : Kernel × List Nat} {m : Kernel}
    (run : Run (ghosted Kernel.step Kernel.lost) (fun x a => x.1.Proper a)
      (.init vm jiffies processes, []) as x) (unloaded : x.1.mp3Exit = .ok m) :
    m.nodes.blocks = [] ↔ x.1.profiler.head = [] ∧ x.2 = [] := by
  obtain ⟨⟨l, keeps⟩, -⟩ := kernel_run run
  obtain ⟨k, locked, done⟩ := bind_ok unloaded
  obtain ⟨-, taken⟩ := ite_error_ok locked
  cases taken
  cases done
  change x.1.nodes.blocks = [] ↔ x.1.nodes.entries = [] ∧ x.2 = []
  rw [keeps.entries, ← List.isEmpty_iff (l := x.1.nodes.contents l), keeps.contents_isEmpty,
    List.isEmpty_iff, ← List.append_eq_nil_iff]
  constructor
  · exact fun none => List.perm_nil.mp (none ▸ keeps.blocks.symm)
  · exact fun none => List.perm_nil.mp (none ▸ keeps.blocks)

/-- A session that comes to its end. -/
theorem unload_leaks_iff_session :
    ∃ x m, Run (ghosted Kernel.step Kernel.lost) (fun x a => x.1.Proper a)
        (.init (fun _ => 5) 0 (fun _ => none), [])
        [.fork 7 ⟨1, 0, 2, 3⟩,
          .write (bytes "R 7") (some ⟨0, ⟨.head, .poison⟩, ⟨3, 0, 0, 0, 0⟩⟩), .fire,
          .write (bytes "U 7") none] x ∧
      x.1.mp3Exit = .ok m ∧ m.nodes.blocks = [] := by
  obtain ⟨x, run, head, lost, free⟩ : ∃ x, Run (ghosted Kernel.step Kernel.lost)
      (fun x a => x.1.Proper a) (.init (fun _ => 5) 0 (fun _ => none), [])
      [.fork 7 ⟨1, 0, 2, 3⟩,
        .write (bytes "R 7") (some ⟨0, ⟨.head, .poison⟩, ⟨3, 0, 0, 0, 0⟩⟩), .fire,
        .write (bytes "U 7") none] x ∧ x.1.profiler.head = [] ∧ x.2 = [] ∧ x.1.lock = false := by
    refine Run.exists_of_replay (fun x => (x.1.profiler.head, x.2, x.1.lock))
      (a := ([], [], false)) (by decide +kernel) fun x _ seen => ?_
    obtain ⟨head, rest⟩ := Prod.mk.inj seen
    exact ⟨head, Prod.mk.inj rest⟩
  have unloaded : x.1.mp3Exit = .ok { x.1 with pending := false, lock := false } := by
    simp [Kernel.mp3Exit, Kernel.spinLock, Kernel.spinUnlock, free, bind, Except.bind]
  exact ⟨x, _, run, unloaded, (unload_leaks_iff run unloaded).mpr ⟨head, lost⟩⟩

end KernelModules.MP3
