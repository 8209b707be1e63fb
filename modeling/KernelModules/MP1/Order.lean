import Mathlib.Data.List.Forall2
import KernelModules.MP1.Registry

/-!
# What the registry holds

The registrations of a run, one after the other, and which of them are still on the list. The
list holds exactly these, in the order they were made, each with the time the last callback
found for it. `size` is an `int` that counts them and wraps.
-/

namespace KernelModules.MP1

/-- The pids that were registered, and the registrations that are left: their places among the
pids, and the time a callback has reported for each. -/
structure History where
  pids : List Int
  live : List (Nat × Option Nat)
  deriving DecidableEq, Repr

def History.register (h : History) (pid : Int) : History :=
  ⟨h.pids ++ [pid], h.live ++ [(h.pids.length, none)]⟩

/-- The registrations whose process is found stay, with its time. -/
def History.callback (h : History) (processes : Int → Option Nat) : History :=
  { h with
    live := h.live.filterMap fun r => do
      let pid ← h.pids[r.1]?
      let utime ← processes pid
      some (r.1, some utime) }

/-- What an event does to the registrations. -/
def record (h : History) (s : State) : Event → History
  | .write w => w.currPid.elim h h.register
  | .callback => h.callback s.processes
  | .process _ _ => h

/-- The node of a registration: a time that no callback has reported is 0. -/
def History.Node (h : History) (r : Nat × Option Nat) (curr : ProcCpu) : Prop :=
  h.pids[r.1]? = some curr.pid ∧ curr.cpuUsage = r.2.getD 0

/-- The registry of a run: the nodes are those of the registrations that are left, in their
order, and `size` counts them. A write that is rejected changes nothing, and the callback leaves
the nodes whose process is found, with its time. -/
structure Ordered (s : State) (h : History) : Prop where
  order : (h.live.map Prod.fst).Pairwise (· < ·)
  nodes : List.Forall₂ h.Node h.live s.list
  size : s.size = s.list.length
  rejected : ∀ w : Write, w.currPid = none → mywrite s w = .ok s
  callback : ∃ t, wqCallback s = .ok t ∧
    t.list = s.list.filterMap fun curr =>
      (s.processes curr.pid).map fun utime => { curr with cpuUsage := utime }

/-! ## The callback -/

section

variable (processes : Int → Option Nat)

/-- What the loop does with one node. -/
theorem update_cons (curr : ProcCpu) (rest : List ProcCpu) (size : Int) :
    update processes (curr :: rest) size =
      (processes curr.pid).elim (update processes rest (i32 (size - 1))) fun utime =>
        (({ curr with cpuUsage := utime } :: (update processes rest size).1),
          (update processes rest size).2) := by
  cases found : processes curr.pid <;> simp [update, getCpuUse, found]

theorem update_list (l : List ProcCpu) (size : Int) :
    (update processes l size).1 = l.filterMap fun curr =>
      (processes curr.pid).map fun utime => { curr with cpuUsage := utime } := by
  induction l generalizing size with
  | nil => rfl
  | cons curr rest ih =>
    rw [update_cons]
    cases found : processes curr.pid with
    | none => simp [found, ih]
    | some utime => simp [found, ih]

/-- With `n` nodes behind it, the loop counts down once for every node it drops. -/
theorem update_size {l : List ProcCpu} {size n : Int} (counted : size = i32 (l.length + n)) :
    (update processes l size).2 = i32 ((update processes l size).1.length + n) := by
  induction l generalizing size n with
  | nil => exact counted
  | cons curr rest ih =>
    rw [update_cons]
    cases found : processes curr.pid with
    | none =>
      refine ih ?_
      rw [counted, i32, i32, Int.bmod_sub_bmod, i32, List.length_cons]
      congr 1
      omega
    | some utime =>
      have later : size = i32 (rest.length + (n + 1)) := by
        rw [counted, List.length_cons]
        congr 1
        omega
      simp only [Option.elim_some]
      rw [ih later, List.length_cons]
      congr 1
      omega

end

/-! ## Runs -/

/-- What holds in every state of every run. -/
structure Kept (s : State) (h : History) : Prop where
  order : (h.live.map Prod.fst).Pairwise (· < ·)
  nodes : List.Forall₂ h.Node h.live s.list
  size : s.size = i32 s.list.length
  free : s.lock = false

section

variable {h : History} {l : List ProcCpu}

/-- A registration keeps its node when others follow. -/
theorem History.Node.register {r : Nat × Option Nat} {curr : ProcCpu} (node : h.Node r curr)
    (pid : Int) : (h.register pid).Node r curr := by
  obtain ⟨found, usage⟩ := node
  have inside := (List.getElem?_eq_some_iff.mp found).1
  exact ⟨(List.getElem?_append_left inside).trans found, usage⟩

theorem nodes_register (nodes : List.Forall₂ h.Node h.live l) (pid : Int) :
    List.Forall₂ (h.register pid).Node (h.register pid).live (l ++ [⟨0, pid⟩]) := by
  refine List.rel_append (nodes.imp fun _ _ (node : h.Node _ _) => node.register pid) ?_
  refine .cons ⟨?_, rfl⟩ .nil
  simp [History.register]

/-- The places of the registrations that are left are places of pids. -/
theorem live_lt (nodes : List.Forall₂ h.Node h.live l) :
    ∀ i ∈ h.live.map Prod.fst, i < h.pids.length := by
  intro i hi
  obtain ⟨r, mem, rfl⟩ := List.mem_map.mp hi
  obtain ⟨k, rfl⟩ := List.mem_iff_get.mp mem
  have node := nodes.get k.isLt (nodes.length_eq ▸ k.isLt)
  exact (List.getElem?_eq_some_iff.mp node.1).1

theorem order_register (order : (h.live.map Prod.fst).Pairwise (· < ·))
    (nodes : List.Forall₂ h.Node h.live l) (pid : Int) :
    ((h.register pid).live.map Prod.fst).Pairwise (· < ·) := by
  rw [History.register, List.map_append, List.pairwise_append]
  refine ⟨order, List.pairwise_singleton _ _, fun i hi j hj => ?_⟩
  rw [List.map_singleton, List.mem_singleton] at hj
  rw [hj]
  exact live_lt nodes i hi

theorem nodes_callback (nodes : List.Forall₂ h.Node h.live l) (processes : Int → Option Nat)
    (size : Int) :
    List.Forall₂ (h.callback processes).Node (h.callback processes).live
      (update processes l size).1 := by
  rw [update_list]
  refine List.rel_filterMap (fun r curr node => ?_) nodes
  obtain ⟨found, -⟩ := node
  cases alive : processes curr.pid with
  | none => simp [found, alive]
  | some utime =>
    simp only [found, alive, Option.bind_eq_bind, Option.bind_some, Option.map_some]
    exact .some ⟨found, rfl⟩

theorem order_callback (order : (h.live.map Prod.fst).Pairwise (· < ·))
    (processes : Int → Option Nat) :
    ((h.callback processes).live.map Prod.fst).Pairwise (· < ·) := by
  rw [List.pairwise_map] at order ⊢
  refine order.filterMap _ fun r r' before kept stays kept' stays' => ?_
  simp only [Option.bind_eq_bind, Option.bind_eq_some_iff, Option.some.injEq] at stays stays'
  obtain ⟨_, -, _, -, rfl⟩ := stays
  obtain ⟨_, -, _, -, rfl⟩ := stays'
  exact before

end

theorem wqCallback_free {s : State} (free : s.lock = false) :
    wqCallback s = .ok (updateAll s) := by
  simp [wqCallback, spinLock, spinUnlock, updateAll, free, bind, Except.bind]

theorem Kept.init (processes : Int → Option Nat) : Kept (State.init processes) ⟨[], []⟩ :=
  ⟨.nil, .nil, by simp [State.init, i32], rfl⟩

/-- Every event keeps the list and its registrations together. -/
theorem Kept.step {s t : State} {h : History} {e : Event} (kept : Kept s h)
    (stepped : MP1.step s e = .ok t) : Kept t (record h s e) := by
  obtain ⟨order, nodes, size, free⟩ := kept
  obtain ⟨w, rfl, read, rfl⟩ | ⟨w, pid, rfl, read, -, -, rfl⟩ | ⟨rfl, -, rfl⟩ |
    ⟨pid, utime, rfl, rfl⟩ := step_cases stepped
  · rw [record, read]
    exact ⟨order, nodes, size, free⟩
  · rw [record, read]
    refine ⟨order_register order nodes pid, nodes_register nodes pid, ?_, free⟩
    simp only [addTail, size, i32, Int.bmod_add_bmod, List.length_append, List.length_singleton,
      Int.natCast_add, Int.natCast_one]
  · refine ⟨order_callback order s.processes, nodes_callback nodes s.processes s.size, ?_, free⟩
    have counted : s.size = i32 (s.list.length + 0) := by rw [size, Int.add_zero]
    have left := update_size s.processes (n := 0) counted
    rwa [Int.add_zero] at left
  · exact ⟨order, nodes, size, free⟩

theorem kept_of_run {ok : State × History → Event → Prop} {processes : Int → Option Nat}
    {es : List Event} {s : State} {h : History}
    (run : Run (ghosted step record) ok (State.init processes, ⟨[], []⟩) es (s, h)) :
    Kept s h := by
  apply run.invariant (I := fun x => Kept x.1 x.2) (.init processes)
  intro x e y kept _ stepped
  obtain ⟨stepped, recorded⟩ := ghosted_ok stepped
  rw [recorded]
  exact kept.step stepped

/-- `size` is right as long as an `int` can be. -/
theorem Kept.size_iff {s : State} {h : History} (kept : Kept s h) :
    s.size = s.list.length ↔ s.list.length < 2 ^ 31 := by
  rw [kept.size, i32, Int.bmod_def]
  split <;> omega

/-- A write registers only where an `int` can count one more. -/
def Room (s : State) : Event → Prop
  | .write w => w.currPid ≠ none → s.list.length + 1 < 2 ^ 31
  | _ => True

instance (s : State) (e : Event) : Decidable (Room s e) :=
  match e with
  | .write w => inferInstanceAs (Decidable (w.currPid ≠ none → s.list.length + 1 < 2 ^ 31))
  | .callback => .isTrue trivial
  | .process _ _ => .isTrue trivial

theorem length_room {processes : Int → Option Nat} {es : List Event} {s : State}
    (run : Run step Room (State.init processes) es s) : s.list.length < 2 ^ 31 := by
  apply run.invariant (I := fun s : State => s.list.length < 2 ^ 31) (by simp [State.init])
  intro s e t short room stepped
  obtain ⟨w, rfl, read, rfl⟩ | ⟨w, pid, rfl, read, -, -, rfl⟩ | ⟨rfl, -, rfl⟩ |
    ⟨pid, utime, rfl, rfl⟩ := step_cases stepped
  · exact short
  · have := room (by simp [read])
    simpa [addTail] using this
  · simp only [updateAll, update_list]
    exact Nat.lt_of_le_of_lt (List.length_filterMap_le _ _) short
  · exact short

/-- In every run that registers only where an `int` can count the entries, with processes coming
and going in between. -/
theorem registry_ordered {processes : Int → Option Nat} {es : List Event} {s : State} {h : History}
    (run : Run (ghosted step record) (fun x e => Room x.1 e) (State.init processes, ⟨[], []⟩) es
      (s, h)) : Ordered s h := by
  have kept := kept_of_run run
  refine ⟨kept.order, kept.nodes, kept.size_iff.mpr (length_room run.unghost), fun w read => ?_,
    _, wqCallback_free kept.free, update_list _ _ _⟩
  rw [mywrite, read]

/-- The first of two processes is gone when the callback runs. -/
theorem registry_ordered_one_left :
    let processes : Int → Option Nat := fun pid => if pid = 8 then some 5 else none
    let es : List Event :=
      [.write ⟨bytes "7", true⟩, .write ⟨bytes "x", true⟩, .write ⟨bytes "8", true⟩, .callback]
    ∃ x, Run (ghosted step record) (fun x e => Room x.1 e) (State.init processes, ⟨[], []⟩) es x ∧
      x.1.list = [⟨5, 8⟩] ∧ x.2.live = [(1, some 5)] ∧ Ordered x.1 x.2 := by
  intro processes es
  refine Run.exists_of_replay (fun x => (x.1.list, x.2.live)) (a := ([⟨5, 8⟩], [(1, some 5)]))
    (by decide) fun x run seen => ?_
  exact ⟨congrArg Prod.fst seen, congrArg Prod.snd seen, registry_ordered run⟩

/-- Process 7 can be registered any number of times. -/
theorem registers_many (n : Nat) :
    ∃ es, Run step (fun _ _ => True) (State.init fun _ => none) es
      ⟨List.replicate n ⟨0, 7⟩, i32 n, false, fun _ => none⟩ := by
  induction n with
  | zero => exact ⟨[], .init⟩
  | succ n ih =>
    obtain ⟨es, run⟩ := ih
    have read : (⟨bytes "7", true⟩ : Write).currPid = some 7 := by decide
    refine ⟨es ++ [.write ⟨bytes "7", true⟩], run.next trivial ?_⟩
    rw [step, mywrite, read]
    simp [spinLock, spinUnlock, addTail, bind, Except.bind, i32, List.replicate_succ']

/-- With 2^31 entries `size` is negative. -/
theorem registry_size_wraps :
    ¬ ∀ (processes : Int → Option Nat) (es : List Event) (s : State) (h : History),
      Run (ghosted step record) (fun _ _ => True) (State.init processes, ⟨[], []⟩) es (s, h) →
        Ordered s h := by
  intro ordered
  obtain ⟨es, run⟩ := registers_many (2 ^ 31)
  obtain ⟨h, ghost⟩ := run.ghost record ⟨[], []⟩
  have small := (kept_of_run ghost).size_iff.mp (ordered _ es _ h ghost).size
  rw [List.length_replicate] at small
  exact absurd small (Nat.lt_irrefl _)

end KernelModules.MP1
