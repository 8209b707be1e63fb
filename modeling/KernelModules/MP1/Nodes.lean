import KernelModules.Lib.Nodes
import KernelModules.Lib.Progress
import KernelModules.MP1.Registry

/-!
# The registry in memory

The functions of the module on blocks of `kmalloc` and on the links of `list.h`: `mywrite`, the
loop of `wq_callback` that takes nodes off the list it goes through, the timer callback that
allocates its work, and `mp1_exit` with `freell`. What is on the list is the registry.
-/

namespace KernelModules.MP1

/-- `list` with its nodes, the works that are queued, the other globals, and the processes. -/
structure Kernel where
  nodes : Nodes ProcCpu
  queue : List Nat
  size : Int
  lock : Bool
  processes : Int → Option Nat

namespace Kernel

/-- The body of the loop of `wq_callback`. -/
def visit (processes : Int → Option Nat) (h : Nodes ProcCpu) (size : Int) (n : Nat) :
    Option (Nodes ProcCpu × Int) := do
  let curr ← h.fields n
  let (ret, cpuUsage) := getCpuUse processes curr.pid curr.cpuUsage
  if ret = 0 then do
    let h ← h.setFields n { curr with cpuUsage := cpuUsage }
    some (h, size)
  else do
    let h ← h.listDel n
    let h ← h.kfree n
    some (h, i32 (size - 1))

/-- The loop, for at most `fuel` nodes. -/
def freell : Nat → Nodes ProcCpu → Option (Nodes ProcCpu)
  | 0, _ => none
  | fuel + 1, h => do
    let curr ← h.links.next .head
    match curr with
    | .head => some h
    | .poison => none
    | .block n =>
      let _ ← h.fields n
      let h ← h.listDelInit n
      let h ← h.kfree n
      freell fuel h

/-- What `mp1_init` leaves. -/
def init (processes : Int → Option Nat) : Kernel := ⟨.empty, [], 0, false, processes⟩

def spinLock (k : Kernel) : Except (Trap Fault) Kernel :=
  if k.lock then .error (.fault .spins) else .ok { k with lock := true }

def spinUnlock (k : Kernel) : Kernel := { k with lock := false }

/-- `newnode` is what `kmalloc` returns, `none` for NULL. -/
def mywrite (k : Kernel) (buff : List UInt8) (newnode : Option (Block ProcCpu)) :
    Except (Trap Fault) Kernel :=
  match kstrtoint (cstr (buff ++ [0])) with
  | none => .ok k
  | some currPid =>
    match newnode with
    | none => .error (.fault .nullNode)
    | some b => do
      let nodes ← memory ((k.nodes.kmalloc b).setFields b.addr ⟨0, currPid⟩)
      let k ← spinLock { k with nodes := nodes }
      let nodes ← memory (k.nodes.listAddTail b.addr)
      .ok { k with nodes := nodes, size := i32 (k.size + 1) }.spinUnlock

/-- `work` is the block of the work that is executed. -/
def wqCallback (k : Kernel) (work : Nat) : Except (Trap Fault) Kernel := do
  let k ← spinLock { k with queue := k.queue.erase work }
  let (nodes, size) ← memory (k.nodes.listForEachEntrySafe (visit k.processes) k.size)
  let k := { k with nodes := nodes, size := size }.spinUnlock
  let nodes ← memory (k.nodes.kfree work)
  .ok { k with nodes := nodes }

/-- `work` is what `kmalloc` returns. -/
def tmCallback (k : Kernel) (work : Option Nat) : Kernel :=
  match work with
  | none => k
  | some work => { k with nodes := k.nodes.kmallocOther work, queue := k.queue ++ [work] }

/-- `destroy_workqueue` waits for the work that is queued, which would wait for the lock. -/
def mp1Exit (k : Kernel) : Except (Trap Fault) Kernel := do
  let k ← k.spinLock
  if k.queue ≠ [] then .error (.fault .spins)
  else do
    let nodes ← memory (freell (k.nodes.blocks.length + 1) k.nodes)
    .ok { k with nodes := nodes }.spinUnlock

/-! ## The module as a system -/

inductive Act
  | write (buff : List UInt8) (newnode : Option (Block ProcCpu))
  /-- The timer expires. -/
  | timer (work : Option Nat)
  /-- A queued work is executed. -/
  | callback (work : Nat)
  | process (pid : Int) (utime : Option Nat)
  deriving DecidableEq, Repr

def step (k : Kernel) : Act → Except (Trap Fault) Kernel
  | .write buff newnode => k.mywrite buff newnode
  | .timer work => .ok (k.tmCallback work)
  | .callback work => k.wqCallback work
  | .process pid utime => .ok { k with processes := Function.update k.processes pid utime }

/-- `kmalloc` returns what is not allocated, and only queued work is executed. -/
def Proper (k : Kernel) : Act → Prop
  | .write _ newnode => ∀ b ∈ newnode, b.addr ∉ k.nodes.blocks
  | .timer work => ∀ n ∈ work, n ∉ k.nodes.blocks
  | .callback work => work ∈ k.queue
  | .process _ _ => True

instance (k : Kernel) (a : Act) : Decidable (k.Proper a) :=
  match a with
  | .write _ newnode => inferInstanceAs (Decidable (∀ b ∈ newnode, b.addr ∉ k.nodes.blocks))
  | .timer work => inferInstanceAs (Decidable (∀ n ∈ work, n ∉ k.nodes.blocks))
  | .callback work => inferInstanceAs (Decidable (work ∈ k.queue))
  | .process _ _ => .isTrue trivial

/-- What an action is to the registry. -/
def Act.event : Act → Option Event
  | .write buff newnode => some (.write ⟨buff, newnode.isSome⟩)
  | .timer _ => none
  | .callback _ => some .callback
  | .process pid utime => some (.process pid utime)

def registry (k : Kernel) : State := ⟨k.nodes.entries, k.size, k.lock, k.processes⟩

end Kernel

/-! ## The loops -/

/-- The body on the fields of one node. -/
def visitFields (processes : Int → Option Nat) (size : Int) (_n : Nat) (curr : ProcCpu) :
    Int × Option ProcCpu :=
  match processes curr.pid with
  | some utime => (size, some { curr with cpuUsage := utime })
  | none => (i32 (size - 1), none)

theorem visit_does (processes : Int → Option Nat) :
    Nodes.Keeps.Does (Kernel.visit processes) (visitFields processes) := by
  intro h l l' others n curr size keeps stored
  cases found : processes curr.pid with
  | some utime =>
    obtain ⟨h', set, keeps', fields, -⟩ := keeps.set { curr with cpuUsage := utime }
    refine ⟨h', ?_, ?_, ?_⟩
    · simp [Kernel.visit, stored, getCpuUse, found, set, visitFields]
    · simpa [visitFields, found] using keeps'
    · simpa [visitFields, found] using fields
  | none =>
    obtain ⟨u, h', deleted, -, freed, keeps', fields, -⟩ := keeps.del
    refine ⟨h', ?_, ?_, ?_⟩
    · simp [Kernel.visit, stored, getCpuUse, found, deleted, freed, visitFields]
    · simpa [visitFields, found] using keeps'
    · simpa [visitFields, found] using fields

/-- The loop over the nodes is the loop over the registry. -/
theorem through_update (processes : Int → Option Nat) (size : Int) (l : List (Nat × ProcCpu)) :
    (Nodes.through (visitFields processes) size l).1 =
        (update processes (l.map Prod.snd) size).2 ∧
      (Nodes.through (visitFields processes) size l).2.map Prod.snd =
        (update processes (l.map Prod.snd) size).1 := by
  induction l generalizing size with
  | nil => exact ⟨rfl, rfl⟩
  | cons x l ih =>
    obtain ⟨n, curr⟩ := x
    cases found : processes curr.pid <;> simp [Nodes.through, update, visitFields, getCpuUse,
      found, ih]

/-- `freell` takes the nodes from the front until none is left. -/
theorem freell_empties {h : Nodes ProcCpu} {l others : List Nat} (keeps : h.Keeps l others)
    {fuel : Nat} (enough : l.length < fuel) :
    ∃ h', Kernel.freell fuel h = some h' ∧ h'.Keeps [] others := by
  induction l generalizing h fuel with
  | nil =>
    obtain ⟨fuel, rfl⟩ : ∃ k, fuel = k + 1 := ⟨fuel - 1, by omega⟩
    exact ⟨h, by simp [Kernel.freell, keeps.first, headAddr], keeps⟩
  | cons n l ih =>
    obtain ⟨fuel, rfl⟩ : ∃ k, fuel = k + 1 := ⟨fuel - 1, by omega⟩
    have keeps : h.Keeps ([] ++ n :: l) others := keeps
    obtain ⟨⟨curr, stored⟩, -⟩ := keeps.node
    obtain ⟨u, v, deleted, freed, rest⟩ := keeps.delInit
    obtain ⟨h', looped, empty⟩ := ih rest (Nat.lt_of_succ_lt_succ enough)
    refine ⟨h', ?_, empty⟩
    have first : h.links.next .head = some (.block n) := keeps.first
    simp [Kernel.freell, first, stored, deleted, freed, looped]

/-! ## One step -/

/-- What holds between the actions: the nodes and the queued works are all that is allocated, and
the lock is free. -/
def Quiet (k : Kernel) : Prop := k.lock = false ∧ ∃ l, k.nodes.Keeps l k.queue

section

variable {k : Kernel} {l : List Nat}

theorem Kernel.registry_eq {others : List Nat} (keeps : k.nodes.Keeps l others) :
    k.registry = ⟨k.nodes.contents l, k.size, k.lock, k.processes⟩ := by
  rw [Kernel.registry, keeps.entries]

theorem write_registers (free : k.lock = false) (keeps : k.nodes.Keeps l k.queue)
    {buff : List UInt8} {b : Block ProcCpu} {currPid : Int}
    (read : kstrtoint (cstr (buff ++ [0])) = some currPid) (fresh : b.addr ∉ k.nodes.blocks) :
    ∃ m, k.mywrite buff (some b) = .ok m ∧ Quiet m ∧
      m.registry = addTail k.registry ⟨0, currPid⟩ := by
  obtain ⟨u, set, keeps₁, stored, there, same⟩ := keeps.alloc fresh ⟨0, currPid⟩
  obtain ⟨nodes, added, keeps', contents, -⟩ := keeps₁.addTail stored there
  refine ⟨⟨nodes, k.queue, i32 (k.size + 1), false, k.processes⟩, ?_, ⟨rfl, _, keeps'⟩, ?_⟩
  · simp only [Kernel.mywrite, read, set, memory, Kernel.spinLock, free, Bool.false_eq_true,
      ↓reduceIte, added, bind, Except.bind]
    rfl
  · rw [Kernel.registry_eq keeps', Kernel.registry_eq keeps, contents, same, addTail, free]

theorem callback_updates (free : k.lock = false) (keeps : k.nodes.Keeps l k.queue) {work : Nat}
    (queued : work ∈ k.queue) :
    ∃ m, k.wqCallback work = .ok m ∧ Quiet m ∧ m.registry = updateAll k.registry := by
  -- the work that is executed is still allocated
  have running := keeps.reorder (List.perm_cons_erase queued)
  obtain ⟨u, rest, looped, keeps', named⟩ :=
    running.listForEachEntrySafe (visit_does k.processes) k.size
  obtain ⟨nodes, freed, keeps'', same⟩ := keeps'.free
  obtain ⟨size, list⟩ := through_update k.processes k.size (k.nodes.named l)
  rw [← contents_named] at size list
  rw [size] at looped
  have contents : u.contents rest = (update k.processes (k.nodes.contents l) k.size).1 := by
    rw [contents_named, named, list]
  refine ⟨⟨nodes, k.queue.erase work, (update k.processes (k.nodes.contents l) k.size).2, false,
    k.processes⟩, ?_, ⟨rfl, _, keeps''⟩, ?_⟩
  · simp only [Kernel.wqCallback, Kernel.spinLock, free, Bool.false_eq_true, ↓reduceIte, looped,
      memory, Kernel.spinUnlock, freed, bind, Except.bind]
  · rw [Kernel.registry_eq keeps'', Kernel.registry_eq keeps, same, contents]
    simp only [updateAll, free]

theorem timer_queues (free : k.lock = false) (keeps : k.nodes.Keeps l k.queue)
    {work : Option Nat} (fresh : ∀ n ∈ work, n ∉ k.nodes.blocks) :
    Quiet (k.tmCallback work) ∧ (k.tmCallback work).registry = k.registry := by
  cases work with
  | none => exact ⟨⟨free, l, keeps⟩, rfl⟩
  | some work =>
    have added := (keeps.other (fresh work rfl)).reorder (List.perm_append_singleton work _).symm
    refine ⟨⟨free, l, added⟩, ?_⟩
    rw [Kernel.registry_eq keeps, Kernel.registry_eq (k := k.tmCallback (some work)) added]
    rfl

end

/-- No action faults except a registration without memory, and the registry takes the step of
its event. -/
theorem quiet_step {k : Kernel} {a : Kernel.Act} (quiet : Quiet k) (proper : k.Proper a) :
    (k.step a = .error (.fault .nullNode) ∧ ∃ buff, a = .write buff none) ∨
    ∃ m, k.step a = .ok m ∧ Quiet m ∧
      Run MP1.step (fun _ _ => True) k.registry a.event.toList m.registry := by
  obtain ⟨free, l, keeps⟩ := quiet
  have unlocked : k.registry.lock = false := free
  cases a with
  | write buff newnode =>
    cases read : kstrtoint (cstr (buff ++ [0])) with
    | none =>
      right
      have rejected : MP1.step k.registry (.write ⟨buff, newnode.isSome⟩) = .ok k.registry := by
        simp [MP1.step, mywrite, Write.currPid, read]
      refine ⟨k, ?_, ⟨free, l, keeps⟩, .single trivial rejected⟩
      simp [Kernel.step, Kernel.mywrite, read]
    | some currPid =>
      cases newnode with
      | none => exact .inl ⟨by simp [Kernel.step, Kernel.mywrite, read], buff, rfl⟩
      | some b =>
        right
        obtain ⟨m, written, quiet, registry⟩ := write_registers free keeps read (proper b rfl)
        have registered : MP1.step k.registry (.write ⟨buff, true⟩) = .ok m.registry := by
          simp [MP1.step, mywrite, Write.currPid, read, spinLock, spinUnlock, unlocked, registry,
            addTail, bind, Except.bind]
        exact ⟨m, written, quiet, .single trivial registered⟩
  | timer work =>
    right
    obtain ⟨quiet, registry⟩ := timer_queues free keeps proper
    refine ⟨_, rfl, quiet, ?_⟩
    rw [registry]
    exact .init
  | callback work =>
    right
    obtain ⟨m, called, quiet, registry⟩ := callback_updates free keeps proper
    have updated : MP1.step k.registry .callback = .ok m.registry := by
      simp [MP1.step, wqCallback, spinLock, spinUnlock, unlocked, registry, updateAll, bind,
        Except.bind]
    exact ⟨m, called, quiet, .single trivial updated⟩
  | process pid utime =>
    right
    exact ⟨_, rfl, ⟨free, l, keeps⟩, .single trivial rfl⟩

/-! ## Runs -/

theorem quiet_run {processes : Int → Option Nat} {as : List Kernel.Act} {k : Kernel}
    (run : Run Kernel.step Kernel.Proper (.init processes) as k) :
    Quiet k ∧ Run MP1.step (fun _ _ => True) (State.init processes)
      (as.filterMap Kernel.Act.event) k.registry := by
  induction run with
  | init => exact ⟨⟨rfl, [], .empty⟩, .init⟩
  | @next as k m a _ proper stepped ih =>
    obtain ⟨quiet, before⟩ := ih
    rcases quiet_step quiet proper with ⟨faults, -⟩ | ⟨m', stepped', quiet', event⟩
    · cases stepped.symm.trans faults
    · cases stepped.symm.trans stepped'
      have last : [a].filterMap Kernel.Act.event = a.event.toList := by
        cases found : a.event <;> simp [found]
      rw [List.filterMap_append, last]
      exact ⟨quiet', before.append event⟩

/-- Along every run of the functions on nodes and links: the nodes on the list are the registry
of the run of the events; no memory is accessed or freed that is not allocated and every loop
ends, so that an action faults only where `kmalloc` had no memory for a node; and what is
allocated are the nodes on the list and the queued works, each once. -/
theorem nodes_are_registry {processes : Int → Option Nat} {as : List Kernel.Act} {k : Kernel}
    (run : Run Kernel.step Kernel.Proper (.init processes) as k) :
    Run MP1.step (fun _ _ => True) (State.init processes) (as.filterMap Kernel.Act.event)
      k.registry ∧
    (∀ a trap, k.Proper a → k.step a = .error trap →
      trap = .fault .nullNode ∧ ∃ buff, a = .write buff none) ∧
    k.nodes.blocks.Nodup ∧
    ∃ l, k.nodes.onList = l.map Addr.block ∧ k.nodes.blocks.Perm (l ++ k.queue) := by
  obtain ⟨quiet, events⟩ := quiet_run run
  refine ⟨events, fun a trap proper faults => ?_, ?_⟩
  · rcases quiet_step quiet proper with ⟨null, missing⟩ | ⟨m, stepped, -⟩
    · cases faults.symm.trans null
      exact ⟨rfl, missing⟩
    · cases faults.symm.trans stepped
  · obtain ⟨-, l, keeps⟩ := quiet
    exact ⟨keeps.nodup, l, keeps.onList, keeps.blocks⟩

/-- Two nodes, the first of which goes with its process, and its block is used again. -/
theorem nodes_are_registry_reused :
    ∃ k, Run Kernel.step Kernel.Proper (.init fun pid => if pid = 8 then some 3 else none)
        [.write (bytes "7") (some ⟨0, ⟨.head, .poison⟩, ⟨9, 9⟩⟩),
          .write (bytes "8\n") (some ⟨1, ⟨.head, .poison⟩, ⟨9, 9⟩⟩), .timer (some 2), .callback 2,
          .write (bytes "9") (some ⟨0, ⟨.poison, .block 1⟩, ⟨0, 7⟩⟩), .timer (some 5)] k ∧
      k.nodes.onList = [.block 1, .block 0] ∧ k.registry.list = [⟨3, 8⟩, ⟨0, 9⟩] ∧
      ∃ l, k.nodes.onList = l.map Addr.block ∧ k.nodes.blocks.Perm (l ++ k.queue) := by
  refine Run.exists_of_replay (fun k => (k.nodes.onList, k.registry.list))
    (a := ([.block 1, .block 0], [⟨3, 8⟩, ⟨0, 9⟩])) (by decide +kernel) fun k run seen => ?_
  obtain ⟨nodes, list⟩ := Prod.mk.inj seen
  obtain ⟨-, -, -, l, on, blocks⟩ := nodes_are_registry run
  exact ⟨nodes, list, l, on, blocks⟩

/-- The module can be unloaded when no work is queued, and then nothing is left allocated. -/
theorem unload_leaves_nothing {processes : Int → Option Nat} {as : List Kernel.Act} {k : Kernel}
    (run : Run Kernel.step Kernel.Proper (.init processes) as k) (idle : k.queue = []) :
    ∃ m, k.mp1Exit = .ok m ∧ m.nodes.blocks = [] ∧ m.nodes.onList = [] ∧ m.lock = false := by
  obtain ⟨free, l, keeps⟩ := (quiet_run run).1
  rw [idle] at keeps
  obtain ⟨nodes, freed, keeps'⟩ := freell_empties keeps (Nat.lt_succ_of_le keeps.length_le)
  refine ⟨⟨nodes, k.queue, k.size, false, k.processes⟩, ?_, List.perm_nil.mp keeps'.blocks,
    keeps'.onList, rfl⟩
  simp [Kernel.mp1Exit, Kernel.spinLock, Kernel.spinUnlock, free, idle, freed, memory, bind,
    Except.bind]

/-- One process is gone and one is left when the module is unloaded. -/
theorem unload_leaves_nothing_two_nodes :
    ∃ k m, Run Kernel.step Kernel.Proper (.init fun pid => if pid = 8 then some 3 else none)
        [.write (bytes "7") (some ⟨0, ⟨.head, .poison⟩, ⟨9, 9⟩⟩),
          .write (bytes "8\n") (some ⟨1, ⟨.head, .poison⟩, ⟨9, 9⟩⟩), .timer (some 2),
          .callback 2] k ∧
      k.nodes.onList = [.block 1] ∧ k.mp1Exit = .ok m ∧ m.nodes.blocks = [] := by
  obtain ⟨k, run, on, idle⟩ : ∃ k, Run Kernel.step Kernel.Proper
      (.init fun pid => if pid = 8 then some 3 else none)
      [.write (bytes "7") (some ⟨0, ⟨.head, .poison⟩, ⟨9, 9⟩⟩),
        .write (bytes "8\n") (some ⟨1, ⟨.head, .poison⟩, ⟨9, 9⟩⟩), .timer (some 2),
        .callback 2] k ∧ k.nodes.onList = [.block 1] ∧ k.queue = [] := by
    refine Run.exists_of_replay (fun k => (k.nodes.onList, k.queue)) (a := ([.block 1], []))
      (by decide +kernel) fun k _ seen => ?_
    exact Prod.mk.inj seen
  obtain ⟨m, unloaded, blocks, -⟩ := unload_leaves_nothing run idle
  exact ⟨k, m, run, on, unloaded, blocks⟩

end KernelModules.MP1
