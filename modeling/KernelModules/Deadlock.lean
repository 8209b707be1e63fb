import KernelModules.MP1.Interleaving
import KernelModules.MP3.Interleaving

/-!
# The lock and the work queues

Two modules wait for their work callbacks with the lock held that the callbacks take:
`unreg_entry` of the last pid and `mp3_exit` in `cancel_delayed_work_sync` and
`destroy_workqueue`, `mp1_exit` in `destroy_workqueue`. Which runs get around the deadlock.
-/

namespace KernelModules

/-- A run of either module keeps clear of deadlock as long as every step is careful, and the
first that is not ends in one as soon as the thread that has the lock goes on. -/
theorem deadlock_free_careful
    {vm : Nat → Nat} {jiffies : Nat} {tasks : Nat → Option MP3.Process} {n : Nat}
    {moves : List MP3.Move} {m : MP3.Machine}
    (run : Run MP3.Machine.step MP3.Machine.Careful (.init vm jiffies tasks n) moves m)
    {times : Int → Option Nat} {n' : Nat} {moves' : List MP1.Move} {m' : MP1.Machine}
    (run' : Run MP1.Machine.step MP1.Machine.Careful (.init times n') moves' m') :
    (¬ m.Deadlocked ∧ ∀ e k, ¬ m.Careful e → m.step e = .ok k →
      k.Deadlocked ∨ ∃ i l, k.step (.work i) = .ok l ∧ l.Deadlocked) ∧
    (¬ m'.Deadlocked ∧ ∀ e k, ¬ m'.Careful e → m'.step e = .ok k →
      k.Deadlocked ∨ ∃ i l, k.step (.work i) = .ok l ∧ l.Deadlocked) := by
  have sound := MP3.sound_run run
  have sound' := MP1.sound_run run'
  constructor
  · exact ⟨fun dead => dead.unsound sound, fun e k => MP3.careless_deadlocks sound⟩
  · exact ⟨fun dead => dead.unsound sound', fun e k => MP1.careless_deadlocks sound'⟩

/-- Both modules used and unloaded: in the one a process is registered, sampled and
unregistered, in the other registered and brought up to date. -/
theorem deadlock_free_careful_unloaded :
    (∃ m, Run MP3.Machine.step MP3.Machine.Careful
        (.init (fun _ => 0) 0 (fun pid => if pid = 7 then some ⟨1, 2, 3, 4⟩ else none) 2)
        [.write 0 ⟨bytes "R 7", some ⟨0, 0, 0, 0, 0⟩⟩, .lock 0, .work 0, .fire,
          .write 0 ⟨bytes "U 7", none⟩, .unload 1, .enter, .finish, .lock 0, .work 0, .cancelled 0,
          .lock 1, .work 1, .cancelled 1, .destroyed 1] m ∧
      m.phase = .removed ∧ m.module.lock = false ∧ ¬ m.Deadlocked) ∧
    ∃ m, Run MP1.Machine.step MP1.Machine.Careful
        (.init (fun pid => if pid = 7 then some 5 else none) 2)
        [.write 0 ⟨bytes "7", true⟩, .lock 0, .timer true, .start 0, .read 1 0 true, .work 0,
          .enter 0, .finish 0, .read 1 0 true, .unload 0, .lock 0, .work 0, .destroyed 0] m ∧
      m.phase = .removed ∧ m.module.list = [] ∧ ¬ m.Deadlocked := by
  constructor
  · refine Run.exists_of_replay (fun m => (m.phase, m.module.lock)) (a := (.removed, false))
      (by decide) fun m run seen => ?_
    obtain ⟨removed, free⟩ := Prod.mk.inj seen
    have unused : Run MP1.Machine.step MP1.Machine.Careful (.init (fun _ => none) 1) [] _ := .init
    exact ⟨removed, free, (deadlock_free_careful run unused).1.1⟩
  · refine Run.exists_of_replay (fun m => (m.phase, m.module.list)) (a := (.removed, []))
      (by decide) fun m run seen => ?_
    obtain ⟨removed, freed⟩ := Prod.mk.inj seen
    have unused : Run MP3.Machine.step MP3.Machine.Careful
      (.init (fun _ => 0) 0 (fun _ => none) 1) [] _ := .init
    exact ⟨removed, freed, (deadlock_free_careful unused run).2.1⟩

/-- Without care the three of them end in a deadlock: the last entry is unregistered, or the
module is unloaded, when its callback has started but does not have the lock yet. -/
theorem deadlock_reached :
    (∃ m, Run MP3.Machine.step (fun _ _ => True)
        (.init (fun _ => 0) 0 (fun pid => if pid = 7 then some ⟨1, 2, 3, 4⟩ else none) 1)
        [.write 0 ⟨bytes "R 7", some ⟨0, 0, 0, 0, 0⟩⟩, .lock 0, .work 0,
          .write 0 ⟨bytes "U 7", none⟩, .lock 0, .fire, .work 0] m ∧ m.Deadlocked) ∧
    (∃ m, Run MP3.Machine.step (fun _ _ => True)
        (.init (fun _ => 0) 0 (fun pid => if pid = 7 then some ⟨1, 2, 3, 4⟩ else none) 1)
        [.write 0 ⟨bytes "R 7", some ⟨0, 0, 0, 0, 0⟩⟩, .lock 0, .work 0, .fire, .unload 0,
          .lock 0, .work 0] m ∧ m.Deadlocked) ∧
    ∃ m, Run MP1.Machine.step (fun _ _ => True)
        (.init (fun pid => if pid = 7 then some 5 else none) 1)
        [.timer true, .unload 0, .lock 0, .work 0, .start 0] m ∧ m.Deadlocked := by
  refine ⟨?_, ?_, ?_⟩
  · refine Run.exists_of_replay (fun m => (m.module.lock, m.callback, m.threads))
      (a := (true, .waits, [.cancels (.unregister 7)])) (by decide) fun m _ seen => ?_
    obtain ⟨taken, waits, there⟩ := by simpa only [Prod.mk.injEq] using seen
    exact ⟨taken, waits, _, there ▸ List.mem_singleton_self _, .inr ⟨_, rfl⟩⟩
  · refine Run.exists_of_replay (fun m => (m.module.lock, m.callback, m.threads))
      (a := (true, .waits, [.cancels .exit])) (by decide) fun m _ seen => ?_
    obtain ⟨taken, waits, there⟩ := by simpa only [Prod.mk.injEq] using seen
    exact ⟨taken, waits, _, there ▸ List.mem_singleton_self _, .inr ⟨_, rfl⟩⟩
  · refine Run.exists_of_replay (fun m => (m.module.lock, m.works, m.threads))
      (a := (true, [.waits], [.destroys])) (by decide) fun m _ seen => ?_
    obtain ⟨taken, waits, there⟩ := by simpa only [Prod.mk.injEq] using seen
    exact ⟨taken, waits ▸ List.mem_singleton_self _, there ▸ List.mem_singleton_self _⟩

end KernelModules
