import Mathlib.Algebra.BigOperators.ModEq
import KernelModules.MP3.Counters

/-!
# Processes that exit while registered

The callback ignores the result of `get_cpu_use`. The entry of a process that is gone keeps what
its last sample read, or what `kmalloc` returned when there was none, and every later sample
adds it again.
-/

namespace KernelModules.MP3

/-- What each process accrued since it was last sampled, with what it had when the module was
loaded. -/
def unsampled (g : Nat → Quantity → Nat) (s : State) : Event → Nat → Quantity → Nat
  | .fork pid task => Function.update g pid fun q => q.counter task
  | .accrue pid task => Function.update g pid fun q => g pid q + q.counter task
  | .fire =>
    if s.bufferFilledUp then g else fun pid q => if pid ∈ pidsOf s.head then 0 else g pid q
  | _ => g

/-- The registered processes that are there. -/
def liveOf (s : State) : Finset Nat := (pidsOf s.head).filter fun pid => s.processes pid ≠ none

/-- The counters of the processes that are there hold what was not sampled yet. -/
def Unread (x : State × (Nat → Quantity → Nat)) : Prop :=
  ∀ pid q, x.1.processes pid ≠ none → q.held x.1.processes pid ≡ x.2 pid q [MOD 2 ^ 64]

section

variable {s t : State} {g : Nat → Quantity → Nat}

theorem Unread.sampled (inv : Unread (s, g)) (unfilled : s.bufferFilledUp = false) :
    Unread (takeSample (cancelDelayedWorkSync s), unsampled g s .fire) := by
  intro pid q alive
  have processes : (takeSample (cancelDelayedWorkSync s)).processes pid =
      if pid ∈ pidsOf s.head then (s.processes pid).map fun _ => ⟨0, 0, 0, 0⟩
      else s.processes pid := collect_processes _ _ _ pid
  have rest : unsampled g s .fire = fun pid q => if pid ∈ pidsOf s.head then 0 else g pid q := by
    simp [unsampled, unfilled]
  simp only [rest, Quantity.held, processes] at alive ⊢
  split
  · rw [held_cleared]
  · rename_i unlisted
    rw [if_neg unlisted] at alive
    exact inv pid q alive

theorem unread_step {x y : State × (Nat → Quantity → Nat)} {e : Event} (inv : Unread x)
    (h : ghosted step unsampled x e = .ok y) : Unread y := by
  obtain ⟨s, g⟩ := x
  obtain ⟨t, g'⟩ := y
  obtain ⟨stepped, noted⟩ := ghosted_ok h
  simp only at stepped noted
  subst noted
  cases e with
  | write w =>
    have same : t.processes = s.processes := by
      rcases mywrite_ok stepped with ⟨-, rfl⟩ | ⟨-, -, new, -, rfl⟩ | ⟨-, -, rfl⟩ |
        ⟨-, rest, -, -, rfl⟩ <;> rfl
    intro pid q alive
    simp only [same] at alive ⊢
    exact inv pid q alive
  | fire =>
    rcases workqueueCallback_ok stepped with ⟨filled, rfl⟩ | ⟨unfilled, -, rfl⟩
    · have filled : s.bufferFilledUp = true := filled
      have nothing : unsampled g s .fire = g := by simp [unsampled, filled]
      rw [nothing]
      exact inv
    · exact inv.sampled unfilled
  | tick => cases stepped; exact inv
  | fork pid task =>
    cases stepped
    intro other q alive
    by_cases own : other = pid
    · subst own
      simp only [unsampled, Quantity.held, Function.update_self]
      rfl
    · simp only [unsampled, Quantity.held, Function.update_of_ne own] at alive ⊢
      exact inv other q alive
  | accrue pid task =>
    cases stepped
    intro other q alive
    by_cases own : other = pid
    · subst own
      simp only [unsampled, Quantity.held, Function.update_self] at alive ⊢
      cases found : s.processes other with
      | none => simp [found] at alive
      | some old =>
        have before := inv other q (by simp [found])
        simp only [Quantity.held, found, Option.map_some, Option.getD_some] at before
        exact (Process.counter_add q old task).trans (before.add_right _)
    · simp only [unsampled, Quantity.held, Function.update_of_ne own] at alive ⊢
      exact inv other q alive
  | exit pid =>
    cases stepped
    intro other q alive
    by_cases own : other = pid
    · subst own
      simp at alive
    · simp only [unsampled, Quantity.held, Function.update_of_ne own] at alive ⊢
      exact inv other q alive

end

/-! ## One entry more or less -/

theorem Sample.eq_of_field {x y : Sample} (clock : x.jiffies = y.jiffies)
    (fields : ∀ q : Quantity, q.field x = q.field y) : x = y := by
  obtain ⟨a, b, c, d⟩ := x
  obtain ⟨a', b', c', d'⟩ := y
  have minor : b = b' := fields .minor
  have major : c = c' := fields .major
  have cpu : d = d' := fields .cpu
  simp only at clock
  rw [clock, minor, major, cpu]

section

variable {s : State} {itr : Entry} {before after : List Entry}

/-- The entry of a process that is gone adds what it stages. -/
theorem collected_field_without (q : Quantity) (listed : s.head = before ++ itr :: after)
    (gone : s.processes (toU32 itr.pid) = none) :
    q.field s.collected.2.1 ≡
      q.field ({ s with head := before ++ after } : State).collected.2.1 + q.staged itr
      [MOD 2 ^ 64] := by
  have pids : ∑ pid ∈ pidsOf s.head, q.held s.processes pid =
      ∑ pid ∈ pidsOf (before ++ after), q.held s.processes pid := by
    have more : pidsOf s.head = insert (toU32 itr.pid) (pidsOf (before ++ after)) := by
      ext pid
      simp [pidsOf, listed]
    rw [more]
    apply Finset.sum_insert_of_eq_zero_if_notMem
    intro
    simp [Quantity.held, gone]
  have left : ((dead s.processes s.head).map q.staged).sum =
      ((dead s.processes (before ++ after)).map q.staged).sum + q.staged itr := by
    simp only [listed, dead, List.filter_append, List.filter_cons, gone, decide_true, ↓reduceIte,
      List.map_append, List.map_cons, List.sum_append, List.sum_cons]
    omega
  rw [collected_field, collected_field, pids, left]
  calc _ ≡ _ [MOD 2 ^ 64] := Nat.mod_modEq _ _
    _ = ∑ pid ∈ pidsOf (before ++ after), q.held s.processes pid +
          ((dead s.processes (before ++ after)).map q.staged).sum + q.staged itr := by omega
    _ ≡ _ [MOD 2 ^ 64] := ((Nat.mod_modEq _ _).symm).add_right _

/-- Leaving out the entry of a process that is gone makes no difference exactly when the entry
stages zeros. -/
theorem collected_without_iff (listed : s.head = before ++ itr :: after)
    (gone : s.processes (toU32 itr.pid) = none) :
    ({ s with head := before ++ after } : State).collected.2.1 = s.collected.2.1 ↔
      ∀ q : Quantity, q.staged itr ≡ 0 [MOD 2 ^ 64] := by
  constructor
  · intro same q
    have sum := collected_field_without q listed gone
    rw [same] at sum
    exact (Nat.ModEq.add_left_cancel' _ (sum : _ + 0 ≡ _ + _ [MOD 2 ^ 64])).symm
  · intro zeros
    apply Sample.eq_of_field
    · simp only [State.collected, collect_jiffies]
    · intro q
      have sum := (collected_field_without q listed gone).trans ((zeros q).add_left _)
      have reduced (u : State) : q.field u.collected.2.1 % 2 ^ 64 = q.field u.collected.2.1 := by
        rw [collected_field, Nat.mod_mod]
      rw [← reduced, ← reduced s]
      exact sum.symm

end

theorem sum_live (q : Quantity) (s : State) :
    ∑ pid ∈ pidsOf s.head, q.held s.processes pid = ∑ pid ∈ liveOf s, q.held s.processes pid := by
  rw [liveOf, Finset.sum_filter]
  apply Finset.sum_congr rfl
  intro pid _
  split
  · rfl
  · rename_i gone
    simp [Quantity.held, not_not.mp gone]

section

variable {vm : Nat → Nat} {jiffies : Nat} {processes : Nat → Option Process} {es : List Event}
  {x : State × (Nat → Quantity → Nat)} {sample : Sample}

theorem unread_run
    (run : Run (ghosted step unsampled) (fun x e => Possible x.1 e)
      (State.init vm jiffies processes, fun pid q => q.held processes pid) es x) : Unread x := by
  apply run.invariant
  · exact fun _ _ _ => rfl
  · intro x e y inv _ stepped
    exact unread_step inv stepped

/-- Where the entries of processes that are gone stage zeros, a sample is what the others
accrued since they were last sampled. -/
theorem Unread.collected (unread : Unread x)
    (zeros : ∀ itr ∈ x.1.head, x.1.processes (toU32 itr.pid) = none →
      ∀ q : Quantity, q.staged itr ≡ 0 [MOD 2 ^ 64]) (q : Quantity) :
    q.field x.1.collected.2.1 = (∑ pid ∈ liveOf x.1, x.2 pid q) % 2 ^ 64 := by
  have none : ((dead x.1.processes x.1.head).map q.staged).sum ≡ 0 [MOD 2 ^ 64] := by
    apply Nat.ModEq.listSum_map_zero
    intro itr mem
    obtain ⟨listed, gone⟩ := List.mem_filter.mp mem
    exact zeros itr listed (of_decide_eq_true gone) q
  have live : ∑ pid ∈ liveOf x.1, q.held x.1.processes pid ≡ ∑ pid ∈ liveOf x.1, x.2 pid q
      [MOD 2 ^ 64] :=
    Nat.ModEq.sum fun pid mem => unread pid q (Finset.mem_filter.mp mem).2
  rw [collected_field, sum_live]
  exact live.add none

/-- In every state a run reaches, the sample of a firing holds what the registered processes
that are there accrued since they were last sampled, and each entry of one that is gone could as
well be missing, exactly when all of these entries hold zeros. -/
theorem exited_add_nothing_iff
    (run : Run (ghosted step unsampled) (fun x e => Possible x.1 e)
      (State.init vm jiffies processes, fun pid q => q.held processes pid) es x)
    (taken : callbackSample x.1 = [sample]) :
    (∀ q : Quantity, q.field sample = (∑ pid ∈ liveOf x.1, x.2 pid q) % 2 ^ 64) ∧
      (∀ before itr after, x.1.head = before ++ itr :: after →
        x.1.processes (toU32 itr.pid) = none →
        callbackSample { x.1 with head := before ++ after } = [sample]) ↔
    ∀ itr ∈ x.1.head, x.1.processes (toU32 itr.pid) = none →
      ∀ q : Quantity, q.staged itr ≡ 0 [MOD 2 ^ 64] := by
  obtain ⟨unfilled, rfl⟩ : x.1.bufferFilledUp = false ∧ x.1.collected.2.1 = sample := by
    unfold callbackSample at taken
    cases filled : x.1.bufferFilledUp <;> simp_all
  have sampled (head : List Entry) : callbackSample { x.1 with head := head } =
      [({ x.1 with head := head } : State).collected.2.1] := by
    simp [callbackSample, unfilled]
  constructor
  · rintro ⟨-, without⟩ itr mem gone
    obtain ⟨before, after, listed⟩ := List.append_of_mem mem
    have same := without before itr after listed gone
    rw [sampled, List.singleton_inj] at same
    exact (collected_without_iff listed gone).mp same
  · intro zeros
    constructor
    · exact (unread_run run).collected zeros
    · intro before itr after listed gone
      rw [sampled, List.singleton_inj]
      exact (collected_without_iff listed gone).mpr
        (zeros itr (by rw [listed]; simp) gone)

end

/-- A process that had nothing to report before it exited. -/
theorem exited_add_nothing_iff_idle_process :
    ∃ x, Run (ghosted step unsampled) (fun x e => Possible x.1 e)
        (State.init (fun _ => 0) 0 (fun _ => none),
          fun pid q => Quantity.held q (fun _ => none) pid)
        [.fork 7 ⟨0, 0, 0, 0⟩, .fork 8 ⟨3, 1, 0, 0⟩, .write ⟨bytes "R 7", some ⟨0, 9, 9, 9, 9⟩⟩,
          .fire, .write ⟨bytes "R 8", some ⟨0, 9, 9, 9, 9⟩⟩, .exit 7] x ∧
      callbackSample x.1 = [⟨0, 3, 1, 0⟩] ∧
      ∀ q, Quantity.field q ⟨0, 3, 1, 0⟩ = (∑ pid ∈ liveOf x.1, x.2 pid q) % 2 ^ 64 := by
  refine Run.exists_of_replay (fun x => (callbackSample x.1, x.1.head, x.1.processes 8))
    (a := ([⟨0, 3, 1, 0⟩], [⟨7, 0, 0, 0, 0⟩, ⟨8, 9, 9, 9, 9⟩], some ⟨3, 1, 0, 0⟩)) (by decide)
    fun x run fields => ?_
  obtain ⟨taken, listed, alive⟩ : callbackSample x.1 = [⟨0, 3, 1, 0⟩] ∧
      x.1.head = [⟨7, 0, 0, 0, 0⟩, ⟨8, 9, 9, 9, 9⟩] ∧ x.1.processes 8 = some ⟨3, 1, 0, 0⟩ := by
    simpa using fields
  refine ⟨taken, ((exited_add_nothing_iff run taken).mpr ?_).1⟩
  intro itr mem gone q
  rw [listed] at mem
  rcases List.mem_pair.mp mem with rfl | rfl
  · cases q <;> rfl
  · have pid : toU32 8 = 8 := by decide
    rw [pid, alive] at gone
    cases gone

/-- Five faults of a process that has exited since are counted in the next sample again. -/
theorem exited_counted_again :
    ¬ ∀ (vm : Nat → Nat) (jiffies : Nat) (processes : Nat → Option Process) (es : List Event)
      (x : State × (Nat → Quantity → Nat)) (sample : Sample),
      Run (ghosted step unsampled) (fun x e => Possible x.1 e)
        (State.init vm jiffies processes, fun pid q => q.held processes pid) es x →
      callbackSample x.1 = [sample] →
      ∀ q : Quantity, q.field sample = (∑ pid ∈ liveOf x.1, x.2 pid q) % 2 ^ 64 := by
  intro right
  have h : (replay (ghosted step unsampled) (fun x e => Possible x.1 e)
      (State.init (fun _ => 0) 0 (fun _ => none), fun pid q => Quantity.held q (fun _ => none) pid)
      [.fork 7 ⟨5, 0, 0, 0⟩, .write ⟨bytes "R 7", some ⟨0, 0, 0, 0, 0⟩⟩, .fire, .exit 7]).map
        (fun x => (callbackSample x.1, x.1.head.map Entry.pid, x.1.processes 7)) =
      some ([⟨0, 5, 0, 0⟩], [7], none) := by decide
  obtain ⟨x, replayed, fields⟩ := Option.map_eq_some_iff.mp h
  obtain ⟨taken, listed, gone⟩ : callbackSample x.1 = [⟨0, 5, 0, 0⟩] ∧
      x.1.head.map Entry.pid = [7] ∧ x.1.processes 7 = none := by
    simpa using fields
  have nobody : liveOf x.1 = ∅ := by
    apply Finset.filter_eq_empty_iff.mpr
    intro pid mem
    obtain ⟨itr, hitr, rfl⟩ := mem_pidsOf.mp mem
    have own : itr.pid = 7 := by
      have := List.mem_map_of_mem (f := Entry.pid) hitr
      rw [listed] at this
      exact List.mem_singleton.mp this
    have pid : toU32 7 = 7 := by decide
    rw [own, pid, gone]
    simp
  have wrong := right _ _ _ _ x _ (.of_replay replayed) taken .minor
  rw [nobody, Finset.sum_empty] at wrong
  exact absurd wrong (by decide)

end KernelModules.MP3
