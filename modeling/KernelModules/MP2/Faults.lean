import KernelModules.MP2.System

/-!
# Null tasks

`yield_entry` uses the result of `find_by_pid` unchecked, and the dispatcher and
`set_task_sleep` use the `task_struct` that `reg_entry` looked up unchecked. A run in which
every yield names an entry with a process never faults: only such entries ever leave the
sleeping state, have a timer or become current.
-/

namespace KernelModules.MP2

/-- Every yield names a registered pid whose process was found at registration. -/
def YieldsBacked (s : State) (e : Event) : Prop :=
  ∀ pid ∈ e.yields, ∃ t ∈ findByPid s pid, t.tsk ≠ none

instance (s : State) (e : Event) : Decidable (YieldsBacked s e) :=
  inferInstanceAs (Decidable (∀ pid ∈ e.yields, ∃ t ∈ findByPid s pid, t.tsk ≠ none))

structure Backed (s : State) : Prop where
  unique : Unique s
  awake : ∀ t ∈ s.head, t.state ≠ .sleeping → t.tsk ≠ none
  armed : ∀ t ∈ s.head, t.tm ≠ none → t.tsk ≠ none
  current : ∀ a, s.currTsk = some a → ∃ t ∈ s.head, t.addr = a ∧ t.tsk ≠ none

/-- Changing entries in place keeps them backed when `curr_tsk` stays or is cleared and only
backed entries are woken or get a timer. -/
theorem Backed.update {s s' : State} (h : Backed s) {f : Task → Task} (keeps : Keeps f)
    (head : s'.head = s.head.map f)
    (woken : ∀ t ∈ s.head, (f t).state ≠ .sleeping ∨ (f t).tm ≠ none → t.tsk ≠ none)
    (curr : ∀ a, s'.currTsk = some a → ∃ t ∈ s.head, t.addr = a ∧ t.tsk ≠ none) : Backed s' where
  unique := by
    rw [Unique, head, keeps.map_addr]
    exact h.unique
  awake := by
    intro x hx ha
    rw [head] at hx
    obtain ⟨t, ht, rfl⟩ := List.mem_map.mp hx
    rw [(keeps t).2.2.1]
    exact woken t ht (.inl ha)
  armed := by
    intro x hx ha
    rw [head] at hx
    obtain ⟨t, ht, rfl⟩ := List.mem_map.mp hx
    rw [(keeps t).2.2.1]
    exact woken t ht (.inr ha)
  current := by
    intro a ha
    obtain ⟨t, ht, hta, htsk⟩ := curr a ha
    refine ⟨f t, head ▸ List.mem_map_of_mem ht, ?_, ?_⟩
    · rw [(keeps t).1]
      exact hta
    · rw [(keeps t).2.2.1]
      exact htsk

theorem Backed.tsk {s : State} (h : Backed s) {t : Task} (ht : t ∈ s.head)
    (live : t.state ≠ .sleeping ∨ t.tm ≠ none) : t.tsk ≠ none :=
  live.elim (h.awake t ht) (h.armed t ht)

/-- An update of one entry, whose process is known to be there. -/
theorem Backed.updateAt {s s' : State} (h : Backed s) {t : Task} (ht : t ∈ s.head)
    (backed : t.tsk ≠ none) {f : Task → Task} (keeps : Keeps f)
    (head : s'.head = updateAt t.addr f s.head)
    (curr : ∀ a, s'.currTsk = some a → s.currTsk = some a) : Backed s' := by
  apply h.update keeps.updateAt head
  · intro u hu live
    by_cases ha : u.addr = t.addr
    · rw [h.unique.eq hu ht ha]
      exact backed
    · simp only [ha, ↓reduceIte] at live
      exact h.tsk hu live
  · exact fun a ha => h.current a (curr a ha)

/-- A new entry is asleep and has no timer. -/
theorem Backed.enroll {s s' : State} (h : Backed s) {t : Task}
    (fresh : ∀ x ∈ s.head, x.addr ≠ t.addr) (sleeping : t.state = .sleeping) (idle : t.tm = none)
    (head : s'.head = s.head ++ [t]) (curr : s'.currTsk = s.currTsk) : Backed s' where
  unique := by
    rw [Unique, head]
    exact h.unique.append fresh
  awake := by
    intro x hx awake
    rw [head] at hx
    rcases List.mem_append.mp hx with hx | hx
    · exact h.awake x hx awake
    · rw [List.mem_singleton.mp hx] at awake
      exact absurd sleeping awake
  armed := by
    intro x hx armed
    rw [head] at hx
    rcases List.mem_append.mp hx with hx | hx
    · exact h.armed x hx armed
    · rw [List.mem_singleton.mp hx] at armed
      exact absurd idle armed
  current := by
    intro a ha
    obtain ⟨x, hx, rest⟩ := h.current a (curr ▸ ha)
    exact ⟨x, head ▸ List.mem_append_left _ hx, rest⟩

theorem Backed.remove {s s' : State} (h : Backed s) {t : Task}
    (head : s'.head = s.head.eraseP fun x => decide (x.addr = t.addr))
    (curr : s'.currTsk = if s.currTsk = some t.addr then none else s.currTsk) : Backed s' where
  unique := by
    rw [Unique, head]
    exact h.unique.erase _
  awake := by
    rw [head]
    exact fun x hx => h.awake x (List.mem_of_mem_eraseP hx)
  armed := by
    rw [head]
    exact fun x hx => h.armed x (List.mem_of_mem_eraseP hx)
  current := current_remove h.current head curr

/-- The dispatcher wakes an entry that was awake already. -/
theorem Backed.switch {s s' : State} (h : Backed s) {next : Task} (hm : next ∈ s.head)
    (awake : next.state ≠ .sleeping)
    (head : s'.head = s.head.map (switched s.currTsk next.addr))
    (curr : s'.currTsk = some next.addr) : Backed s' := by
  apply h.update (switched_keeps _ _) head
  · intro t ht live
    by_cases hn : t.addr = next.addr
    · rw [h.unique.eq ht hm hn]
      exact h.awake next hm awake
    · apply h.tsk ht
      rcases live with live | live
      · left
        intro sleeping
        simp [switched, hn, sleeping] at live
      · exact .inr live
  · intro a ha
    rw [curr, Option.some.injEq] at ha
    exact ⟨next, hm, ha, h.awake next hm awake⟩

theorem Backed.step {s s' : State} {e : Event} (h : Backed s) (possible : Possible s e)
    (backed : YieldsBacked s e) (eff : Effect s e s') : Backed s' := by
  -- the entry a yield finds is the one the guard speaks of
  have yielded {w : Write} {pid : Int} {t : Task} (he : e = .write w)
      (asked : w.request = some (.yield pid)) (found : findByPid s pid = some t) :
      t.tsk ≠ none := by
    obtain ⟨u, hu, tsk⟩ := backed pid (by simp [he, Event.yields, Event.request, asked])
    rw [found, Option.mem_some] at hu
    exact hu ▸ tsk
  cases eff with
  | idle _ head curr =>
    refine ⟨?_, ?_, ?_, ?_⟩
    · rw [Unique, head]
      exact h.unique
    · rw [head]
      exact h.awake
    · rw [head]
      exact h.armed
    · rw [head, curr]
      exact h.current
  | @enroll w _ pid p c _ _ head curr =>
    exact h.enroll (t := newTask w.slab s pid p c) possible rfl rfl head curr
  | remove _ _ _ _ head curr => exact h.remove head curr
  | activate pid t asked found _ head curr =>
    exact h.updateAt (findByPid_mem found) (yielded rfl asked found) (activated_keeps _) head
      fun a ha => curr ▸ ha
  | advance pid t asked found _ _ head curr =>
    exact h.updateAt (findByPid_mem found) (yielded rfl asked found) advanced_keeps head
      fun a ha => curr ▸ ha
  | suspend pid t asked found _ _ head curr =>
    exact h.updateAt (findByPid_mem found) (yielded rfl asked found) suspended_keeps head
      fun a ha => (still_current curr ha).1
  | expire head curr =>
    obtain ⟨t, ht, hta, armed⟩ := possible
    exact h.updateAt ht (h.armed t ht armed) expired_keeps (hta ▸ head) fun a ha => curr ▸ ha
  | switch next chosen _ head curr =>
    obtain ⟨hm, awake, _, _⟩ := (scan_spec s.head).1 next chosen
    exact h.switch hm awake head curr

/-! ## The dispatcher finds what it needs -/

theorem onProcess_some {s : State} {tsk : Option Nat} (h : tsk ≠ none) (f : Process → Process) :
    ∃ processes, onProcess s tsk f = .ok { s with processes := processes } := by
  cases tsk with
  | none => exact absurd rfl h
  | some p => exact ⟨_, rfl⟩

theorem setNewTask_backed {s : State} {a : Addr} {t : Task} (entry : s.entry a = some t)
    (backed : t.tsk ≠ none) : ∃ s', setNewTask s a = .ok s' := by
  simp only [setNewTask, entry, wakeUpProcess, schedSetscheduler]
  obtain ⟨_, woken⟩ := onProcess_some (s := s) backed fun p => { p with state := .running }
  rw [woken]
  simp only [bind, Except.bind]
  obtain ⟨_, raised⟩ := onProcess_some backed fun p => { p with policy := .fifo 99 }
  rw [raised]
  exact ⟨_, rfl⟩

theorem entry_update {s : State} {a b : Addr} {f : Task → Task} (keeps : Keeps f) {t : Task}
    (entry : s.entry b = some t) :
    (s.update a f).entry b = some (if t.addr = a then f t else t) := by
  simp only [State.entry, State.update, updateAt, List.find?_map]
  have same : ((fun t => decide (t.addr = b)) ∘ fun t => if t.addr = a then f t else t) =
      fun t : Task => decide (t.addr = b) := by
    funext t
    simp only [Function.comp, (keeps.updateAt (a := a) t).1]
  rw [same]
  rw [State.entry] at entry
  rw [entry]
  rfl

theorem demoted_keeps :
    Keeps fun t => if t.state = .running then { t with state := .ready } else t := by
  intro t
  by_cases h : t.state = .running <;> simp [h]

theorem dispatchRound_backed {s : State} (h : Backed s) : ∃ s', dispatchRound s = .ok s' := by
  unfold dispatchRound
  cases hn : (scan s.head).2 with
  | none => exact ⟨s, rfl⟩
  | some next =>
    obtain ⟨hm, awake, _, _⟩ := (scan_spec s.head).1 next hn
    have backed := h.awake next hm awake
    have entry := h.unique.entry hm
    by_cases same : s.currTsk = some next.addr
    · exact ⟨s, by simp [switchTo, same]⟩
    · simp only [Option.map_some, switchTo, same, ↓reduceIte]
      cases hc : s.currTsk with
      | none => exact setNewTask_backed entry backed
      | some curr =>
        obtain ⟨t, ht, rfl, htsk⟩ := h.current curr hc
        simp only [setOldTask, h.unique.entry ht, schedSetscheduler]
        obtain ⟨_, lowered⟩ := onProcess_some htsk fun p => { p with policy := .normal }
        rw [lowered]
        -- the policy change keeps the list, so the next entry is where the update left it
        have moved := entry_update (a := t.addr) demoted_keeps entry
        refine setNewTask_backed moved ?_
        rw [(demoted_keeps.updateAt next).2.2.1]
        exact backed

theorem step_backed {s : State} {e : Event} (h : Backed s) (backed : YieldsBacked s e) :
    ∃ s', step s e = .ok s' := by
  cases e with
  | write w =>
    simp only [step, mywrite]
    cases hr : w.request with
    | none => exact ⟨s, rfl⟩
    | some r =>
      cases r with
      | register => exact ⟨_, rfl⟩
      | deregister => exact ⟨_, rfl⟩
      | yield pid =>
        obtain ⟨t, found, tsk⟩ := backed pid (by simp [Event.yields, Event.request, hr])
        by_cases first : t.nextPeriod = 0
        · exact ⟨_, yieldEntry_first found first⟩
        · by_cases early : s.jiffies < t.nextPeriod
          · obtain ⟨p, hp⟩ := Option.ne_none_iff_exists'.mp tsk
            have := yieldEntry_early found first early
            rw [hp] at this
            exact ⟨_, this⟩
          · exact ⟨_, yieldEntry_late found first (by omega)⟩
  | expire a => exact ⟨_, rfl⟩
  | dispatch => exact dispatchRound_backed h
  | tick => exact ⟨_, rfl⟩
  | fork pid => exact ⟨_, rfl⟩
  | exit pid => exact ⟨_, rfl⟩

theorem reaches_backed {j : Nat} {processes : Nat → Option Process} {es : List Event} {s : State}
    (run : Reaches (fun s e => Possible s e ∧ YieldsBacked s e) j processes es s) : Backed s := by
  apply run.invariant
  · exact ⟨List.nodup_nil, by simp [State.init], by simp [State.init], by simp [State.init]⟩
  · exact fun s e t h allowed stepped => h.step allowed.1 allowed.2 (step_effect stepped)

/-- **No null task.** In a run whose yields all name an entry with a process, no event
faults: whatever the guard allows next goes through. -/
theorem never_faults {j : Nat} {processes : Nat → Option Process} {es : List Event} {s : State}
    (run : Reaches (fun s e => Possible s e ∧ YieldsBacked s e) j processes es s) (e : Event)
    (allowed : Possible s e ∧ YieldsBacked s e) : ∃ s', step s e = .ok s' :=
  step_backed (reaches_backed run) allowed.2

theorem never_faults_one_task :
    ∃ s s' : State, s.head.map Task.state = [.ready] ∧ step s .dispatch = .ok s' := by
  have ready : (replay step (fun s e => Possible s e ∧ YieldsBacked s e) (.init 1 fun _ => none)
      [.fork 7, .write (.text "R,7,500,86\n" 1), .write (.text "Y,7\n" 2)]).map
      (fun s => s.head.map Task.state) = some [.ready] := by decide
  obtain ⟨s, run, hs⟩ := Option.map_eq_some_iff.mp ready
  obtain ⟨s', round⟩ := never_faults (.of_replay run) .dispatch ⟨trivial, by simp [YieldsBacked,
    Event.yields, Event.request]⟩
  exact ⟨s, s', hs, round⟩

/-- A yield for a pid that is not registered follows NULL; so does the dispatcher when the
task it switches to was registered for a pid without a process. -/
theorem null_task_followed :
    step (.init 1 fun _ => none) (.write (.text "Y,5\n" 1)) = .error .nullTask ∧
    ∃ s, Reaches Possible 1 (fun _ => none)
      [.write (.text "R,9,500,86\n" 1), .write (.text "Y,9\n" 2)] s ∧
      step s .dispatch = .error .nullProcess := by
  refine ⟨rfl, ?_⟩
  have fault : (replay step Possible (.init 1 fun _ => none)
      [.write (.text "R,9,500,86\n" 1), .write (.text "Y,9\n" 2)]).map
      (fun s => match step s .dispatch with | .ok _ => none | .error f => some f) =
      some (some .nullProcess) := by decide
  obtain ⟨s, run, hs⟩ := Option.map_eq_some_iff.mp fault
  refine ⟨s, .of_replay run, ?_⟩
  split at hs
  · cases hs
  · rename_i f hf
    rw [hf, Option.some.inj hs]

end KernelModules.MP2
