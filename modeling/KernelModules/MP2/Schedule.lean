import KernelModules.MP2.System

/-!
# The scheduler's state

`Scheduled` ties the state of every entry to `curr_tsk`, the timer and `next_period`. Every
event keeps it, so it holds along every run. A dispatcher round leaves the awake task with
the shortest period running.
-/

namespace KernelModules.MP2

/-- A yield does not wrap `next_period`. -/
def NoWrap (s : State) (e : Event) : Prop :=
  ∀ pid ∈ e.yields, ∀ t ∈ findByPid s pid,
    (t.nextPeriod = 0 → s.jiffies + t.periodJiffies < 2 ^ 64) ∧
    t.nextPeriod + t.periodJiffies < 2 ^ 64

instance (s : State) (e : Event) : Decidable (NoWrap s e) :=
  inferInstanceAs (Decidable (∀ pid ∈ e.yields, ∀ t ∈ findByPid s pid,
    (t.nextPeriod = 0 → s.jiffies + t.periodJiffies < 2 ^ 64) ∧
    t.nextPeriod + t.periodJiffies < 2 ^ 64))

structure Scheduled (s : State) : Prop where
  clock : 1 ≤ s.jiffies
  unique : Unique s
  running : ∀ t ∈ s.head, t.state = .running ↔ s.currTsk = some t.addr
  /-- Only a task the scan can choose ever becomes current. -/
  current : ∀ a, s.currTsk = some a → ∃ t ∈ s.head, t.addr = a ∧ t.period < intMax
  /-- Before its first yield an entry sleeps, with no timer to wake it. -/
  fresh : ∀ t ∈ s.head, t.nextPeriod = 0 → t.state = .sleeping ∧ t.tm = none

/-- An update in place that keeps `curr_tsk`, does not touch the task that runs and starts no
other keeps the invariant. -/
theorem Scheduled.update {s s' : State} (h : Scheduled s) {a : Addr} {f : Task → Task}
    (keeps : Keeps f) (head : s'.head = updateAt a f s.head) (curr : s'.currTsk = s.currTsk)
    (time : s'.jiffies = s.jiffies)
    (running : ∀ t ∈ s.head, t.addr = a → ((f t).state = .running ↔ t.state = .running))
    (fresh : ∀ t ∈ s.head, t.addr = a → (f t).nextPeriod ≠ 0) : Scheduled s' where
  clock := time ▸ h.clock
  unique := by
    rw [Unique, head, updateAt_map_addr fun t => (keeps t).1]
    exact h.unique
  running := by
    intro x hx
    rw [head] at hx
    rw [curr]
    obtain ⟨t, ht, ⟨ha, rfl⟩ | ⟨_, rfl⟩⟩ := mem_updateAt hx
    · rw [running t ht ha, (keeps t).1]
      exact h.running t ht
    · exact h.running x ht
  current := by
    intro b hb
    rw [curr] at hb
    obtain ⟨t, ht, hta, small⟩ := h.current b hb
    refine ⟨if t.addr = a then f t else t, head ▸ List.mem_map_of_mem ht, ?_⟩
    have := keeps.updateAt (a := a) t
    rw [this.1, this.2.2.2.1]
    exact ⟨hta, small⟩
  fresh := by
    intro x hx
    rw [head] at hx
    obtain ⟨t, ht, ⟨ha, rfl⟩ | ⟨_, rfl⟩⟩ := mem_updateAt hx
    · intro hz
      exact absurd hz (fresh t ht ha)
    · exact h.fresh x ht

theorem Scheduled.enroll {s s' : State} (h : Scheduled s) {t : Task}
    (new : ∀ x ∈ s.head, x.addr ≠ t.addr) (sleeping : t.state = .sleeping) (tm : t.tm = none)
    (head : s'.head = s.head ++ [t]) (curr : s'.currTsk = s.currTsk)
    (time : s'.jiffies = s.jiffies) : Scheduled s' where
  clock := time ▸ h.clock
  unique := by
    rw [Unique, head]
    exact h.unique.append new
  running := by
    intro x hx
    rw [curr]
    rw [head] at hx
    rcases List.mem_append.mp hx with hx | hx
    · exact h.running x hx
    · rw [List.mem_singleton.mp hx, sleeping]
      refine ⟨fun hr => absurd hr (by decide), fun hc => ?_⟩
      obtain ⟨u, hu, hua, _⟩ := h.current _ hc
      exact absurd hua (new u hu)
  current := by
    intro a ha
    obtain ⟨u, hu, rest⟩ := h.current a (curr ▸ ha)
    exact ⟨u, head ▸ List.mem_append_left _ hu, rest⟩
  fresh := by
    intro x hx hz
    rw [head] at hx
    rcases List.mem_append.mp hx with hx | hx
    · exact h.fresh x hx hz
    · rw [List.mem_singleton.mp hx]
      exact ⟨sleeping, tm⟩

theorem Scheduled.remove {s s' : State} (h : Scheduled s) {a : Addr}
    (head : s'.head = s.head.eraseP fun x => decide (x.addr = a))
    (curr : s'.currTsk = if s.currTsk = some a then none else s.currTsk)
    (time : s'.jiffies = s.jiffies) : Scheduled s' where
  clock := time ▸ h.clock
  unique := by
    rw [Unique, head]
    exact h.unique.erase _
  running := by
    intro x hx
    rw [head] at hx
    obtain ⟨hx, ha⟩ := h.unique.erased hx
    rw [curr, h.running x hx]
    by_cases hc : s.currTsk = some a
    · simp [hc, Ne.symm ha]
    · simp [hc]
  current := current_remove h.current head curr
  fresh := by
    intro x hx
    rw [head] at hx
    exact h.fresh x (h.unique.erased hx).1

theorem Scheduled.suspend {s s' : State} (h : Scheduled s) {t : Task} (ht : t ∈ s.head)
    (wraps : t.nextPeriod + t.periodJiffies < 2 ^ 64) (later : t.nextPeriod ≠ 0)
    (head : s'.head = updateAt t.addr suspended s.head)
    (curr : s'.currTsk = if s.currTsk = some t.addr then none else s.currTsk)
    (time : s'.jiffies = s.jiffies) : Scheduled s' where
  clock := time ▸ h.clock
  unique := by
    rw [Unique, head, updateAt_map_addr fun t => (suspended_keeps t).1]
    exact h.unique
  running := by
    intro x hx
    rw [head] at hx
    rw [curr]
    obtain ⟨u, hu, ⟨ha, rfl⟩ | ⟨ha, rfl⟩⟩ := mem_updateAt hx
    · by_cases hc : s.currTsk = some t.addr
      · simp [suspended, hc]
      · simp [suspended, hc, ha]
    · rw [h.running x hu]
      by_cases hc : s.currTsk = some t.addr
      · simp [hc, Ne.symm ha]
      · simp [hc]
  current := by
    intro b hb
    obtain ⟨before, other⟩ := still_current curr hb
    obtain ⟨u, hu, rfl, small⟩ := h.current b before
    exact ⟨u, head ▸ List.mem_map.mpr ⟨u, hu, by simp [other]⟩, rfl, small⟩
  fresh := by
    intro x hx hz
    rw [head] at hx
    obtain ⟨u, hu, ⟨ha, rfl⟩ | ⟨_, rfl⟩⟩ := mem_updateAt hx
    · rw [h.unique.eq hu ht ha] at hz
      simp only [suspended, Arith.c_u64, Nat.mod_eq_of_lt wraps] at hz
      omega
    · exact h.fresh x hu hz

theorem Scheduled.switch {s s' : State} (h : Scheduled s) {next : Task}
    (chosen : (scan s.head).2 = some next)
    (head : s'.head = s.head.map (switched s.currTsk next.addr))
    (curr : s'.currTsk = some next.addr) (time : s'.jiffies = s.jiffies) : Scheduled s' where
  clock := time ▸ h.clock
  unique := by
    rw [Unique, head, (switched_keeps _ _).map_addr]
    exact h.unique
  running := by
    intro x hx
    rw [head] at hx
    obtain ⟨t, ht, rfl⟩ := List.mem_map.mp hx
    have hr := h.running t ht
    rw [curr]
    by_cases hn : t.addr = next.addr
    · simp [switched, hn]
    · by_cases hc : s.currTsk = some t.addr
      · simp [switched, hn, hc, hr.mpr hc, Ne.symm hn]
      · simp [switched, hn, hc, mt hr.mp hc, Ne.symm hn]
  current := by
    intro a ha
    obtain ⟨hn, _, small, _⟩ := (scan_spec s.head).1 next chosen
    rw [curr, Option.some.injEq] at ha
    refine ⟨switched s.currTsk next.addr next, ?_, ha, small⟩
    rw [head]
    exact List.mem_map_of_mem hn
  fresh := by
    intro x hx hz
    rw [head] at hx
    obtain ⟨t, ht, rfl⟩ := List.mem_map.mp hx
    obtain ⟨sleeping, tm⟩ := h.fresh t ht hz
    refine ⟨?_, tm⟩
    -- the scan passes over a sleeping entry, so it is not the one made running
    have hn : t.addr ≠ next.addr := by
      intro same
      obtain ⟨hm, awake, _, _⟩ := (scan_spec s.head).1 next chosen
      exact awake (h.unique.eq ht hm same ▸ sleeping)
    simp [switched, hn, sleeping]

theorem Scheduled.step {s s' : State} {e : Event} (h : Scheduled s) (possible : Possible s e)
    (wraps : NoWrap s e) (eff : Effect s e s') : Scheduled s' := by
  cases eff with
  | idle _ head curr _ time =>
    refine ⟨Nat.le_trans h.clock time, ?_, ?_, ?_, ?_⟩
    · rw [Unique, head]; exact h.unique
    · rw [head, curr]; exact h.running
    · rw [head, curr]; exact h.current
    · rw [head]; exact h.fresh
  | enroll pid p c _ _ head curr _ frame => 
    exact h.enroll (t := newTask _ s pid p c) possible rfl rfl head curr frame.1
  | remove pid t _ found head curr _ frame => exact h.remove head curr frame.1
  | activate pid t asked found first head curr _ frame =>
    have ht := findByPid_mem found
    have sleeping := (h.fresh t ht first).1
    have fits := (wraps pid (by simp [Event.yields, Event.request, asked]) t found).1 first
    apply h.update (activated_keeps _) head curr frame.1
    · intro u hu same
      rw [h.unique.eq hu ht same]
      simp [activated, sleeping]
    · intro u hu same
      rw [h.unique.eq hu ht same]
      have := h.clock
      simp only [activated, Arith.c_u64, Nat.mod_eq_of_lt fits]
      omega
  | advance pid t asked found later _ head curr _ frame =>
    have ht := findByPid_mem found
    have fits := (wraps pid (by simp [Event.yields, Event.request, asked]) t found).2
    apply h.update advanced_keeps head curr frame.1
    · intro u _ _
      rfl
    · intro u hu same
      rw [h.unique.eq hu ht same]
      simp only [advanced, Arith.c_u64, Nat.mod_eq_of_lt fits]
      omega
  | suspend pid t asked found later _ head curr _ frame =>
    exact h.suspend (findByPid_mem found)
      (wraps pid (by simp [Event.yields, Event.request, asked]) t found).2 later head curr frame.1
  | expire head curr _ frame =>
    apply h.update expired_keeps head curr frame.1
    · intro u _ _
      simp only [expired]
      split <;> simp_all
    · intro u hu same
      obtain ⟨t, ht, hta, armed⟩ := possible
      rw [← hta] at same
      rw [h.unique.eq hu ht same]
      exact fun hz => armed (h.fresh t ht hz).2
  | switch next chosen _ head curr _ frame => exact h.switch chosen head curr frame.1

theorem reaches_scheduled {j : Nat} {processes : Nat → Option Process} {es : List Event}
    {s : State} (start : 1 ≤ j)
    (run : Reaches (fun s e => Possible s e ∧ NoWrap s e) j processes es s) : Scheduled s := by
  apply run.invariant
  · exact ⟨start, List.nodup_nil, by simp [State.init], by simp [State.init], by simp [State.init]⟩
  · exact fun s e t h allowed stepped => h.step allowed.1 allowed.2 (step_effect stepped)

/-- **Rate-monotonic choice.** After a round the running task has the shortest period of all
that are not sleeping. -/
theorem round_rate_monotonic {s s' : State} (h : Scheduled s) (round : dispatchRound s = .ok s')
    {t u : Task} (ht : t ∈ s'.head) (running : t.state = .running) (hu : u ∈ s'.head)
    (awake : u.state ≠ .sleeping) : t.period ≤ u.period := by
  obtain ⟨chosen, nothing⟩ := scan_spec s.head
  obtain ⟨rfl, stays⟩ | ⟨next, hnext, _, rfl⟩ := dispatchRound_cases round
  · have hc := (h.running t ht).mp running
    cases hs : (scan s'.head).2 with
    | none =>
      obtain ⟨x, hx, hxa, small⟩ := h.current _ hc
      have := nothing hs t ht (by simp [running])
      rw [h.unique.eq hx ht hxa] at small
      omega
    | some next =>
      obtain ⟨hm, _, _, least⟩ := chosen next hs
      have same : t.addr = next.addr := Option.some.inj (hc ▸ stays next hs)
      rw [h.unique.eq ht hm same]
      exact least u hu awake
  · obtain ⟨hm, nextAwake, _, least⟩ := chosen next hnext
    obtain ⟨x, hx, rfl⟩ := List.mem_map.mp ht
    obtain ⟨y, hy, rfl⟩ := List.mem_map.mp hu
    have hxn : x.addr = next.addr := by
      by_contra hne
      have hr := h.running x hx
      by_cases hc : s.currTsk = some x.addr
      · simp [switched, hne, hc, hr.mpr hc] at running
      · simp only [switched, hne, ↓reduceIte, hc, false_and] at running
        exact hc (hr.mp running)
    have hya : y.state ≠ .sleeping := by
      intro sleeping
      by_cases hyn : y.addr = next.addr
      · exact nextAwake (h.unique.eq hy hm hyn ▸ sleeping)
      · simp [switched, hyn, sleeping] at awake
    change x.period ≤ y.period
    rw [h.unique.eq hx hm hxn]
    exact least y hy hya

/-- In every state of a run at most the current task is running, the current task is on the
list, and an entry that never yielded sleeps; and a round from there is rate-monotonic. -/
theorem scheduler_invariant {j : Nat} {processes : Nat → Option Process} {es : List Event}
    {s : State} (start : 1 ≤ j)
    (run : Reaches (fun s e => Possible s e ∧ NoWrap s e) j processes es s) :
    (∀ t ∈ s.head, t.state = .running ↔ s.currTsk = some t.addr) ∧
    (∀ t ∈ s.head, ∀ u ∈ s.head, t.state = .running → u.state = .running → t = u) ∧
    (∀ a, s.currTsk = some a → ∃ t ∈ s.head, t.addr = a) ∧
    (∀ t ∈ s.head, t.nextPeriod = 0 → t.state = .sleeping) ∧
    (∀ s', step s .dispatch = .ok s' → ∀ t ∈ s'.head, t.state = .running →
      ∀ u ∈ s'.head, u.state ≠ .sleeping → t.period ≤ u.period) := by
  have h := reaches_scheduled start run
  refine ⟨h.running, ?_, ?_, fun t ht hz => (h.fresh t ht hz).1, ?_⟩
  · intro t ht u hu hrt hru
    have same : some t.addr = some u.addr := ((h.running t ht).mp hrt).symm.trans
      ((h.running u hu).mp hru)
    exact h.unique.eq ht hu (Option.some.inj same)
  · intro a ha
    obtain ⟨t, ht, hta, _⟩ := h.current a ha
    exact ⟨t, ht, hta⟩
  · intro s' round t ht running u hu awake
    exact round_rate_monotonic h round ht running hu awake

theorem scheduler_invariant_one_task :
    ∃ s, s.currTsk = some 1 ∧ (∀ t ∈ s.head, t.state = .running ↔ s.currTsk = some t.addr) ∧
    (∀ t ∈ s.head, ∀ u ∈ s.head, t.state = .running → u.state = .running → t = u) ∧
    (∀ a, s.currTsk = some a → ∃ t ∈ s.head, t.addr = a) ∧
    (∀ t ∈ s.head, t.nextPeriod = 0 → t.state = .sleeping) ∧
    (∀ s', step s .dispatch = .ok s' → ∀ t ∈ s'.head, t.state = .running →
      ∀ u ∈ s'.head, u.state ≠ .sleeping → t.period ≤ u.period) := by
  have current : (replay step (fun s e => Possible s e ∧ NoWrap s e) (.init 1 fun _ => none)
      [.fork 7, .write (.text "R,7,500,86\n" 1), .write (.text "Y,7\n" 2), .dispatch]).map
      State.currTsk = some (some 1) := by decide
  obtain ⟨s, run, curr⟩ := Option.map_eq_some_iff.mp current
  exact ⟨s, curr, scheduler_invariant (by decide) (.of_replay run)⟩

end KernelModules.MP2
