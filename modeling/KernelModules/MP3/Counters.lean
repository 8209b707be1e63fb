import Mathlib.Data.Nat.ModEq
import KernelModules.Lib.Sum
import KernelModules.MP3.Session

/-!
# What the samples add up to

The callback takes the counters of every listed process and leaves zeros, so that the samples
and the counters together account for all that the processes ever accrued. This rests on the
processes being there: of one that has exited, the callback adds what its entry was left with.
-/

namespace KernelModules.MP3

/-! ## The three quantities -/

inductive Quantity
  | minor
  | major
  | cpu
  deriving DecidableEq, Repr

def Quantity.counter : Quantity → Process → Nat
  | .minor, p => p.minFlt
  | .major, p => p.majFlt
  | .cpu, p => p.utime + p.stime

/-- What the loop adds for an entry. -/
def Quantity.staged : Quantity → Entry → Nat
  | .minor, itr => itr.minorPf
  | .major, itr => itr.majorPf
  | .cpu, itr => itr.stime + itr.utime

def Quantity.field : Quantity → Sample → Nat
  | .minor, x => x.minor
  | .major, x => x.major
  | .cpu, x => x.cpu

/-- What stands in the counters of a process, 0 when there is none. -/
def Quantity.held (q : Quantity) (processes : Nat → Option Process) (pid : Nat) : Nat :=
  ((processes pid).map q.counter).getD 0

/-- The pids of the entries. -/
def pidsOf (l : List Entry) : Finset Nat := (l.map fun itr => toU32 itr.pid).toFinset

theorem pidsOf_cons (itr : Entry) (l : List Entry) :
    pidsOf (itr :: l) = insert (toU32 itr.pid) (pidsOf l) := by
  simp [pidsOf]

theorem mem_pidsOf {pid : Nat} {l : List Entry} :
    pid ∈ pidsOf l ↔ ∃ itr ∈ l, toU32 itr.pid = pid := by
  simp [pidsOf]

/-- Entries of processes that are gone. -/
def dead (processes : Nat → Option Process) (l : List Entry) : List Entry :=
  l.filter fun itr => decide (processes (toU32 itr.pid) = none)

theorem Sample.field_add (q : Quantity) (tmps : Sample) (itr : Entry) :
    q.field (tmps.add itr) = (q.field tmps + q.staged itr) % 2 ^ 64 := by
  cases q with
  | minor => rfl
  | major => rfl
  | cpu => exact Nat.add_mod_mod _ _ _

theorem Process.counter_add (q : Quantity) (p r : Process) :
    q.counter (p.add r) ≡ q.counter p + q.counter r [MOD 2 ^ 64] := by
  cases q with
  | minor => exact Nat.mod_modEq _ _
  | major => exact Nat.mod_modEq _ _
  | cpu =>
    simp only [Quantity.counter, Process.add, Arith.c_u64]
    rw [Nat.add_add_add_comm]
    exact (Nat.mod_modEq _ _).add (Nat.mod_modEq _ _)

/-! ## The loop -/

section

variable {processes : Nat → Option Process} {itr : Entry}

theorem getCpuUse_dead (gone : processes (toU32 itr.pid) = none) :
    getCpuUse processes itr = (processes, itr) := by
  simp [getCpuUse, findTaskByPid, gone]

/-- A process that is there gives its counters to the entry. -/
theorem getCpuUse_staged (alive : processes (toU32 itr.pid) ≠ none) (q : Quantity) :
    q.staged (getCpuUse processes itr).2 = q.held processes (toU32 itr.pid) := by
  obtain ⟨task, found⟩ := Option.ne_none_iff_exists'.mp alive
  cases q with
  | minor => simp [getCpuUse, findTaskByPid, found, Quantity.staged, Quantity.held,
      Quantity.counter]
  | major => simp [getCpuUse, findTaskByPid, found, Quantity.staged, Quantity.held,
      Quantity.counter]
  | cpu =>
    simp [getCpuUse, findTaskByPid, found, Quantity.staged, Quantity.held, Quantity.counter,
      Nat.add_comm]

/-- The counters of the entry's process are zeroed, and no process comes or goes. -/
theorem getCpuUse_processes (processes : Nat → Option Process) (itr : Entry) (pid : Nat) :
    (getCpuUse processes itr).1 pid =
      if pid = toU32 itr.pid then (processes pid).map fun _ => ⟨0, 0, 0, 0⟩ else processes pid := by
  unfold getCpuUse findTaskByPid
  split
  · rename_i gone
    by_cases own : pid = toU32 itr.pid
    · simp [own, gone]
    · simp [own]
  · rename_i task found
    by_cases own : pid = toU32 itr.pid
    · simp [own, found]
    · simp [own]

theorem held_cleared (q : Quantity) (p : Option Process) :
    ((p.map fun _ => (⟨0, 0, 0, 0⟩ : Process)).map q.counter).getD 0 = 0 := by
  cases p <;> cases q <;> rfl

theorem getCpuUse_held (q : Quantity) (processes : Nat → Option Process) (itr : Entry) (pid : Nat) :
    q.held (getCpuUse processes itr).1 pid =
      if pid = toU32 itr.pid then 0 else q.held processes pid := by
  rw [Quantity.held, getCpuUse_processes]
  split
  · exact held_cleared q _
  · rfl

theorem getCpuUse_none (processes : Nat → Option Process) (itr : Entry) (pid : Nat) :
    (getCpuUse processes itr).1 pid = none ↔ processes pid = none := by
  rw [getCpuUse_processes]
  split <;> simp

end

/-- The loop zeroes the counters of the listed processes. -/
theorem collect_processes (processes : Nat → Option Process) (tmps : Sample) (l : List Entry)
    (pid : Nat) :
    (collect processes tmps l).1 pid =
      if pid ∈ pidsOf l then (processes pid).map fun _ => ⟨0, 0, 0, 0⟩ else processes pid := by
  induction l generalizing processes tmps with
  | nil => rfl
  | cons itr l ih =>
    change (collect (getCpuUse processes itr).1 _ l).1 pid = _
    rw [ih, getCpuUse_processes, pidsOf_cons]
    by_cases own : pid = toU32 itr.pid <;> by_cases later : pid ∈ pidsOf l <;>
      simp [own, later, Function.comp_def]

/-- A sum of the loop: what the listed processes held, each counted once, and what the entries
of processes that are gone were left with. -/
theorem collect_field (q : Quantity) (processes : Nat → Option Process) (tmps : Sample)
    (l : List Entry) :
    q.field (collect processes tmps l).2.1 ≡
      q.field tmps + ∑ pid ∈ pidsOf l, q.held processes pid +
        ((dead processes l).map q.staged).sum [MOD 2 ^ 64] := by
  induction l generalizing processes tmps with
  | nil => rfl
  | cons itr l ih =>
    let entry := (getCpuUse processes itr).2
    have rest : ∑ pid ∈ pidsOf l, q.held (getCpuUse processes itr).1 pid =
        ∑ pid ∈ pidsOf l, if pid = toU32 itr.pid then 0 else q.held processes pid :=
      Finset.sum_congr rfl fun pid _ => getCpuUse_held q processes itr pid
    have gone : dead (getCpuUse processes itr).1 l = dead processes l := by
      simp only [dead, getCpuUse_none]
    -- the entry adds what its process held, or what it was left with
    have added : q.staged entry + ((dead processes l).map q.staged).sum =
        q.held processes (toU32 itr.pid) + ((dead processes (itr :: l)).map q.staged).sum := by
      by_cases missing : processes (toU32 itr.pid) = none
      · simp [entry, getCpuUse_dead missing, dead, missing, Quantity.held]
      · rw [getCpuUse_staged missing]
        simp [dead, missing]
    calc q.field (collect (getCpuUse processes itr).1 (tmps.add entry) l).2.1
        ≡ q.field (tmps.add entry) + ∑ pid ∈ pidsOf l, q.held (getCpuUse processes itr).1 pid +
            ((dead (getCpuUse processes itr).1 l).map q.staged).sum [MOD 2 ^ 64] := ih _ _
      _ ≡ q.field tmps + q.staged entry +
            ∑ pid ∈ pidsOf l, q.held (getCpuUse processes itr).1 pid +
            ((dead (getCpuUse processes itr).1 l).map q.staged).sum [MOD 2 ^ 64] := by
          rw [Sample.field_add]
          exact ((Nat.mod_modEq _ _).add_right _).add_right _
      _ = q.field tmps + ∑ pid ∈ pidsOf (itr :: l), q.held processes pid +
            ((dead processes (itr :: l)).map q.staged).sum := by
          rw [pidsOf_cons, sum_insert_cleared, rest, gone]
          omega

theorem collect_field_lt (q : Quantity) {processes : Nat → Option Process} {tmps : Sample}
    {l : List Entry} (fits : q.field tmps < 2 ^ 64) :
    q.field (collect processes tmps l).2.1 < 2 ^ 64 := by
  induction l generalizing processes tmps with
  | nil => exact fits
  | cons itr l ih =>
    apply ih
    rw [Sample.field_add]
    exact Nat.mod_lt _ (by decide)

/-- The fields of the sample a firing in `s` takes. -/
theorem collected_field (q : Quantity) (s : State) :
    q.field s.collected.2.1 =
      (∑ pid ∈ pidsOf s.head, q.held s.processes pid +
        ((dead s.processes s.head).map q.staged).sum) % 2 ^ 64 := by
  have zero : q.field ⟨s.jiffies, 0, 0, 0⟩ = 0 := by cases q <;> rfl
  have sum := collect_field q s.processes ⟨s.jiffies, 0, 0, 0⟩ s.head
  rw [zero, Nat.zero_add] at sum
  have small : q.field s.collected.2.1 < 2 ^ 64 := collect_field_lt q (by rw [zero]; decide)
  rw [← Nat.mod_eq_of_lt small]
  exact sum

/-! ## The books -/

/-- Kept of a run: the samples, what all processes accrued since the module was loaded, with
what they had then, and what those that exited still had. -/
structure Books where
  recorded : List Sample
  total : Quantity → Nat
  exited : Quantity → Nat

def Books.load (pids : Finset Nat) (processes : Nat → Option Process) : Books :=
  ⟨[], fun q => ∑ pid ∈ pids, q.held processes pid, fun _ => 0⟩

def account (g : Books) (s : State) : Event → Books
  | .fire => { g with recorded := g.recorded ++ callbackSample s }
  | .fork _ task => { g with total := fun q => g.total q + q.counter task }
  | .accrue pid task =>
    if (s.processes pid).isSome then { g with total := fun q => g.total q + q.counter task } else g
  | .exit pid => { g with exited := fun q => g.exited q + q.held s.processes pid }
  | _ => g

/-- What `work.c` and the kernel see to: a process unregisters before it exits, and a new
process gets a pid that is free. -/
def Cooperative (pids : Finset Nat) (s : State) : Event → Prop
  | .fire => s.pending = true
  | .fork pid _ => pid ∈ pids ∧ s.processes pid = none
  | .exit pid => ∀ itr ∈ s.head, toU32 itr.pid ≠ pid
  | _ => True

instance Cooperative.decidable (pids : Finset Nat) (s : State) (e : Event) :
    Decidable (Cooperative pids s e) :=
  match e with
  | .fire => inferInstanceAs (Decidable (s.pending = true))
  | .fork pid _ => inferInstanceAs (Decidable (pid ∈ pids ∧ s.processes pid = none))
  | .exit pid => inferInstanceAs (Decidable (∀ itr ∈ s.head, toU32 itr.pid ≠ pid))
  | .write _ => .isTrue trivial
  | .tick => .isTrue trivial
  | .accrue _ _ => .isTrue trivial

/-- The samples, the counters and what left with the processes make up the total. -/
structure Balanced (pids : Finset Nat) (x : State × Books) : Prop where
  listed : ∀ itr ∈ x.1.head, x.1.processes (toU32 itr.pid) ≠ none
  inside : ∀ pid, pid ∉ pids → x.1.processes pid = none
  balance : ∀ q : Quantity,
    (x.2.recorded.map q.field).sum + ∑ pid ∈ pids, q.held x.1.processes pid + x.2.exited q ≡
      x.2.total q [MOD 2 ^ 64]

section

variable {pids : Finset Nat} {s t : State} {g : Books}

theorem Balanced.sampled (inv : Balanced pids (s, g)) (unfilled : s.bufferFilledUp = false) :
    Balanced pids (takeSample (cancelDelayedWorkSync s), account g s .fire) := by
  obtain ⟨listed, inside, balance⟩ := inv
  have processes (pid : Nat) : (takeSample (cancelDelayedWorkSync s)).processes pid =
      if pid ∈ pidsOf s.head then (s.processes pid).map fun _ => ⟨0, 0, 0, 0⟩
      else s.processes pid := collect_processes _ _ _ pid
  have entries : (takeSample (cancelDelayedWorkSync s)).head.map Entry.pid =
      s.head.map Entry.pid := collect_pids _ _ _
  have sub : pidsOf s.head ⊆ pids := by
    intro pid mem
    obtain ⟨itr, hitr, rfl⟩ := mem_pidsOf.mp mem
    by_contra outside
    exact listed itr hitr (inside _ outside)
  constructor
  · intro itr hitr
    obtain ⟨old, hold, same⟩ := List.mem_map.mp (entries ▸ List.mem_map_of_mem hitr)
    change (takeSample (cancelDelayedWorkSync s)).processes _ ≠ none
    rw [processes, ← same]
    have alive := listed old hold
    split <;> simpa using alive
  · intro pid outside
    change (takeSample (cancelDelayedWorkSync s)).processes _ = none
    rw [processes, inside pid outside]
    split <;> rfl
  · intro q
    have none : dead s.processes s.head = [] := by
      apply List.filter_eq_nil_iff.mpr
      intro itr hitr
      simpa using listed itr hitr
    have taken : q.field s.collected.2.1 ≡ ∑ pid ∈ pidsOf s.head, q.held s.processes pid
        [MOD 2 ^ 64] := by
      rw [collected_field, none]
      exact Nat.mod_modEq _ _
    have left : ∑ pid ∈ pids, q.held (takeSample (cancelDelayedWorkSync s)).processes pid =
        ∑ pid ∈ pids, if pid ∈ pidsOf s.head then 0 else q.held s.processes pid := by
      apply Finset.sum_congr rfl
      intro pid _
      rw [Quantity.held, processes]
      split
      · exact held_cleared q _
      · rfl
    have recorded : ((account g s .fire).recorded.map q.field).sum =
        (g.recorded.map q.field).sum + q.field s.collected.2.1 := by
      simp [account, callbackSample, unfilled]
    change ((account g s .fire).recorded.map q.field).sum +
      ∑ pid ∈ pids, q.held (takeSample (cancelDelayedWorkSync s)).processes pid + g.exited q ≡ _
      [MOD 2 ^ 64]
    rw [recorded, left]
    calc _ ≡ (g.recorded.map q.field).sum + ∑ pid ∈ pidsOf s.head, q.held s.processes pid +
            (∑ pid ∈ pids, if pid ∈ pidsOf s.head then 0 else q.held s.processes pid) +
            g.exited q [MOD 2 ^ 64] := ((taken.add_left _).add_right _).add_right _
      _ = (g.recorded.map q.field).sum + ∑ pid ∈ pids, q.held s.processes pid + g.exited q := by
          rw [sum_cleared (fun pid => q.held s.processes pid) sub]
          omega
      _ ≡ g.total q [MOD 2 ^ 64] := balance q

theorem Balanced.written {w : Write} (inv : Balanced pids (s, g)) (h : mywrite s w = .ok t) :
    Balanced pids (t, g) := by
  obtain ⟨listed, inside, balance⟩ := inv
  rcases mywrite_ok h with ⟨-, rfl⟩ | ⟨-, -, new, alive, rfl⟩ | ⟨-, -, rfl⟩ | ⟨-, rest, sub, -, rfl⟩
  · exact ⟨listed, inside, balance⟩
  · refine ⟨fun itr hitr => ?_, inside, balance⟩
    rcases List.mem_append.mp hitr with old | last
    · exact listed itr old
    · rw [List.mem_singleton.mp last]
      exact alive
  · exact ⟨listed, inside, balance⟩
  · exact ⟨fun itr hitr => listed itr (sub.subset hitr), inside, balance⟩

/-- The counters of one process change. What they gain or lose is entered in the books. -/
theorem Balanced.updated {pid : Nat} {p : Option Process} {g' : Books}
    (inv : Balanced pids (s, g)) (mem : pid ∈ pids) (stays : pid ∈ pidsOf s.head → p ≠ none)
    (same : g'.recorded = g.recorded)
    (entered : ∀ q : Quantity, (p.map q.counter).getD 0 + g'.exited q + g.total q ≡
      q.held s.processes pid + g.exited q + g'.total q [MOD 2 ^ 64]) :
    Balanced pids ({ s with processes := Function.update s.processes pid p }, g') := by
  obtain ⟨listed, inside, balance⟩ := inv
  refine ⟨fun itr hitr => ?_, fun other outside => ?_, fun q => ?_⟩
  · by_cases own : toU32 itr.pid = pid
    · simp only [own, Function.update_self]
      exact stays (mem_pidsOf.mpr ⟨itr, hitr, own⟩)
    · simp only [Function.update_of_ne own]
      exact listed itr hitr
  · have apart : other ≠ pid := fun same => outside (same ▸ mem)
    simp only [Function.update_of_ne apart]
    exact inside other outside
  · have changed := sum_changed (fun i => q.held s.processes i)
      (fun i => q.held (Function.update s.processes pid p) i) mem
      fun i other => by simp only [Quantity.held, Function.update_of_ne other]
    have after : q.held (Function.update s.processes pid p) pid = (p.map q.counter).getD 0 := by
      rw [Quantity.held, Function.update_self]
    simp only [after] at changed
    apply Nat.ModEq.add_right_cancel' (q.held s.processes pid + g.exited q + g.total q)
    simp only [same]
    calc _ = (g.recorded.map q.field).sum + ∑ i ∈ pids, q.held s.processes i + g.exited q +
            ((p.map q.counter).getD 0 + g'.exited q + g.total q) := by omega
      _ ≡ g.total q + (q.held s.processes pid + g.exited q + g'.total q) [MOD 2 ^ 64] :=
          (balance q).add (entered q)
      _ = _ := by omega

theorem balanced_step {x y : State × Books} {e : Event} (inv : Balanced pids x)
    (allowed : Cooperative pids x.1 e) (h : ghosted step account x e = .ok y) :
    Balanced pids y := by
  obtain ⟨s, g⟩ := x
  obtain ⟨t, g'⟩ := y
  obtain ⟨stepped, booked⟩ := ghosted_ok h
  simp only at stepped booked allowed
  subst booked
  cases e with
  | write w => exact inv.written stepped
  | fire =>
    rcases workqueueCallback_ok stepped with ⟨filled, rfl⟩ | ⟨unfilled, -, rfl⟩
    · have filled : s.bufferFilledUp = true := filled
      have nothing : account g s .fire = g := by simp [account, callbackSample, filled]
      rw [nothing]
      exact ⟨inv.listed, inv.inside, inv.balance⟩
    · exact inv.sampled unfilled
  | tick =>
    cases stepped
    exact ⟨inv.listed, inv.inside, inv.balance⟩
  | fork pid task =>
    cases stepped
    obtain ⟨mem, unused⟩ := allowed
    refine inv.updated mem (fun _ => Option.some_ne_none task) rfl fun q => ?_
    rw [Quantity.held, unused, account, Option.map_some, Option.getD_some]
    exact congrArg (· % 2 ^ 64) (by simp only [Option.map_none, Option.getD_none]; omega)
  | accrue pid task =>
    cases stepped
    cases found : s.processes pid with
    | none =>
      have same : Function.update s.processes pid none = s.processes := by
        rw [← found, Function.update_eq_self]
      simp only [account, found, Option.isSome_none, Bool.false_eq_true, ↓reduceIte,
        Option.map_none, same]
      exact ⟨inv.listed, inv.inside, inv.balance⟩
    | some old =>
      have mem : pid ∈ pids := by
        by_contra outside
        rw [inv.inside pid outside] at found
        cases found
      refine inv.updated mem (by simp) (by simp [account, found]) fun q => ?_
      simp only [account, found, Option.isSome_some, ↓reduceIte, Option.map_some, Option.getD_some,
        Quantity.held]
      calc _ ≡ q.counter old + q.counter task + g.exited q + g.total q [MOD 2 ^ 64] :=
            ((Process.counter_add q old task).add_right _).add_right _
        _ = _ := by omega
  | exit pid =>
    cases stepped
    by_cases mem : pid ∈ pids
    · refine inv.updated mem (fun registered => ?_) rfl fun q => ?_
      · obtain ⟨itr, hitr, own⟩ := mem_pidsOf.mp registered
        exact absurd own (allowed itr hitr)
      · exact congrArg (· % 2 ^ 64) (by
          simp only [account, Option.map_none, Option.getD_none]
          omega)
    · have gone : s.processes pid = none := inv.inside pid mem
      have same : Function.update s.processes pid none = s.processes := by
        rw [← gone, Function.update_eq_self]
      have nothing : account g s (.exit pid) = g := by simp [account, Quantity.held, gone]
      rw [nothing, same]
      exact ⟨inv.listed, inv.inside, inv.balance⟩

end

/-- In every run in which registered processes unregister before they exit, the samples of each
quantity add up, modulo 2 ^ 64, to all that was accrued less what is still in the counters and
what processes had left when they exited. The processes' pids are among `pids`. -/
theorem accounting_conservative {pids : Finset Nat} {vm : Nat → Nat} {jiffies : Nat}
    {processes : Nat → Option Process} {es : List Event} {x : State × Books}
    (known : ∀ pid, pid ∉ pids → processes pid = none)
    (run : Run (ghosted step account) (fun x e => Cooperative pids x.1 e)
      (State.init vm jiffies processes, .load pids processes) es x) (q : Quantity) :
    (x.2.recorded.map q.field).sum + ∑ pid ∈ pids, q.held x.1.processes pid + x.2.exited q ≡
      x.2.total q [MOD 2 ^ 64] := by
  have inv : Balanced pids x := by
    apply run.invariant
    · refine ⟨by simp [State.init], known, fun q => ?_⟩
      simp only [Books.load, State.init, List.map_nil, List.sum_nil, Nat.zero_add, Nat.add_zero]
      rfl
    · intro x e y inv allowed stepped
      exact balanced_step inv allowed stepped
  exact inv.balance q

/-- A process registered twice, sampled, and gone after it unregistered. -/
theorem accounting_conservative_registered_twice :
    ∃ x, Run (ghosted step account) (fun x e => Cooperative {7} x.1 e)
        (State.init (fun _ => 0) 0 (fun _ => none), .load {7} (fun _ => none))
        [.fork 7 ⟨1, 0, 2, 3⟩, .write ⟨bytes "R 7", some ⟨0, 9, 9, 9, 9⟩⟩,
          .write ⟨bytes "R 7", some ⟨0, 9, 9, 9, 9⟩⟩, .fire, .accrue 7 ⟨4, 0, 0, 0⟩, .fire,
          .accrue 7 ⟨2, 0, 0, 0⟩, .write ⟨bytes "U 7", none⟩, .write ⟨bytes "U 7", none⟩,
          .exit 7] x ∧
      x.2.recorded = [⟨0, 1, 0, 5⟩, ⟨0, 4, 0, 0⟩] ∧
      ∀ q, (x.2.recorded.map (Quantity.field q)).sum +
          ∑ pid ∈ {7}, q.held x.1.processes pid + x.2.exited q ≡ x.2.total q [MOD 2 ^ 64] := by
  refine Run.exists_of_replay (fun x => x.2.recorded) (a := [⟨0, 1, 0, 5⟩, ⟨0, 4, 0, 0⟩])
    (by decide) fun x run recorded => ?_
  exact ⟨recorded, accounting_conservative (fun _ _ => rfl) run⟩

end KernelModules.MP3
