import KernelModules.MP2.Schedule

/-!
# No task is forgotten

A sleeping entry is released by its timer, so it must have one; an awake entry is run by the
dispatcher, so the scan must be able to choose it. The first always holds. The second fails
for periods from `INT_MAX` on, with which no task is ever chosen.
-/

namespace KernelModules.MP2

/-! ## Sleeping entries have a timer -/

/-- An entry that sleeps after a yield is released by its timer before its period is over. -/
def Timed (t : Task) : Prop :=
  t.nextPeriod ≠ 0 → t.state = .sleeping → ∃ x ∈ t.tm, x + t.periodJiffies ≤ t.nextPeriod

theorem Timed.awake {t : Task} (awake : t.state ≠ .sleeping) : Timed t :=
  fun _ sleeping => absurd sleeping awake

/-- A late yield of a sleeping entry leaves the timer where it was. -/
theorem Timed.advanced {t : Task} (h : Timed t) (later : t.nextPeriod ≠ 0)
    (fits : t.nextPeriod + t.periodJiffies < 2 ^ 64) : Timed (advanced t) := by
  intro _ sleeping
  obtain ⟨x, armed, before⟩ := h later sleeping
  have next : (MP2.advanced t).nextPeriod = t.nextPeriod + t.periodJiffies :=
    Nat.mod_eq_of_lt fits
  refine ⟨x, armed, ?_⟩
  rw [next]
  change x + t.periodJiffies ≤ _
  omega

theorem Timed.suspended {t : Task} (fits : t.nextPeriod + t.periodJiffies < 2 ^ 64) :
    Timed (suspended t) := by
  intro _ _
  have next : (MP2.suspended t).nextPeriod = t.nextPeriod + t.periodJiffies :=
    Nat.mod_eq_of_lt fits
  exact ⟨t.nextPeriod, rfl, Nat.le_of_eq next.symm⟩

theorem Timed.switched {t : Task} {curr : Option Addr} {next : Addr} (h : Timed t) :
    Timed (switched curr next t) := by
  intro later sleeping
  by_cases hn : t.addr = next
  · simp [MP2.switched, hn] at sleeping
  · apply h later
    by_contra other
    by_cases hc : curr = some t.addr ∧ t.state = .running <;>
      simp [MP2.switched, hn, hc, other] at sleeping

theorem timed_updateAt {s s' : State} (unique : Unique s) (timed : ∀ t ∈ s.head, Timed t)
    {t : Task} (ht : t ∈ s.head) {f : Task → Task} (head : s'.head = updateAt t.addr f s.head)
    (this : Timed (f t)) : ∀ x ∈ s'.head, Timed x := by
  intro x hx
  rw [head] at hx
  obtain ⟨u, hu, ⟨ha, rfl⟩ | ⟨_, rfl⟩⟩ := mem_updateAt hx
  · rw [unique.eq hu ht ha]
    exact this
  · exact timed x hu

theorem timed_step {s s' : State} {e : Event} (unique : Unique s)
    (timed : ∀ t ∈ s.head, Timed t) (wraps : NoWrap s e) (eff : Effect s e s') :
    ∀ t ∈ s'.head, Timed t := by
  have fits {w : Write} {pid : Int} {t : Task} (he : e = .write w)
      (asked : w.request = some (.yield pid)) (found : findByPid s pid = some t) :
      t.nextPeriod + t.periodJiffies < 2 ^ 64 :=
    (wraps pid (by simp [he, Event.yields, Event.request, asked]) t found).2
  cases eff with
  | idle _ head =>
    rw [head]
    exact timed
  | enroll pid p c _ _ head =>
    intro t ht
    rw [head] at ht
    rcases List.mem_append.mp ht with ht | ht
    · exact timed t ht
    · rw [List.mem_singleton.mp ht]
      exact fun later => absurd rfl later
  | remove pid t _ _ head =>
    rw [head]
    exact fun x hx => timed x (List.mem_of_mem_eraseP hx)
  | activate pid t _ found _ head =>
    exact timed_updateAt unique timed (findByPid_mem found) head (.awake (by simp [activated]))
  | advance pid t asked found later _ head =>
    have ht := findByPid_mem found
    exact timed_updateAt unique timed ht head ((timed t ht).advanced later (fits rfl asked found))
  | suspend pid t asked found _ _ head =>
    exact timed_updateAt unique timed (findByPid_mem found) head (.suspended (fits rfl asked found))
  | expire head =>
    intro x hx
    rw [head] at hx
    obtain ⟨t, ht, ⟨_, rfl⟩ | ⟨_, rfl⟩⟩ := mem_updateAt hx
    · apply Timed.awake
      by_cases sleeping : t.state = .sleeping <;> simp [expired, sleeping]
    · exact timed x ht
  | switch next _ _ head =>
    intro x hx
    rw [head] at hx
    obtain ⟨t, ht, rfl⟩ := List.mem_map.mp hx
    exact (timed t ht).switched

/-- **Sleeping entries are released.** An entry on the list that has yielded and sleeps has
its timer armed, for no later than the begin of the period it waits for. -/
theorem sleeping_armed {j : Nat} {processes : Nat → Option Process} {es : List Event} {s : State}
    (run : Reaches (fun s e => Possible s e ∧ NoWrap s e) j processes es s) :
    ∀ t ∈ s.head, t.nextPeriod ≠ 0 → t.state = .sleeping →
      ∃ x, t.tm = some x ∧ x + t.periodJiffies ≤ t.nextPeriod := by
  have h : Unique s ∧ ∀ t ∈ s.head, Timed t := by
    apply run.invariant (I := fun s => Unique s ∧ ∀ t ∈ s.head, Timed t)
    · exact ⟨List.nodup_nil, by simp [State.init]⟩
    · rintro s e t ⟨unique, timed⟩ ⟨possible, wraps⟩ stepped
      have eff := step_effect stepped
      exact ⟨unique.step possible eff, timed_step unique timed wraps eff⟩
  exact h.2

/-- A task with a period of ten jiffies yields at 1, runs, and yields again at 2. -/
theorem sleeping_armed_after_yield :
    ∃ s : State, s.head.map (fun t => (t.state, t.tm, t.nextPeriod)) = [(.sleeping, some 11, 21)] ∧
      ∀ t ∈ s.head, t.nextPeriod ≠ 0 → t.state = .sleeping →
        ∃ x, t.tm = some x ∧ x + t.periodJiffies ≤ t.nextPeriod := by
  have slept : (replay step (fun s e => Possible s e ∧ NoWrap s e) (.init 1 fun _ => none)
      [.fork 7, .write (.text "R,7,100,1\n" 1), .write (.text "Y,7\n" 2), .dispatch, .tick,
        .write (.text "Y,7\n" 2)]).map
      (fun s => s.head.map fun t => (t.state, t.tm, t.nextPeriod)) =
      some [(.sleeping, some 11, 21)] := by decide
  obtain ⟨s, run, hs⟩ := Option.map_eq_some_iff.mp slept
  exact ⟨s, hs, sleeping_armed (.of_replay run)⟩

/-! ## Awake entries are run -/

/-- An awake entry on the list has the processor: the task that is current is running. -/
def Conserving (s : State) : Prop :=
  (∃ t ∈ s.head, t.state ≠ .sleeping) → ∃ c ∈ s.head, s.currTsk = some c.addr ∧ c.state = .running

/-- Ready and alone on the list, the task is chosen. -/
def Eligible (t : Task) : Prop :=
  (scan [{ t with state := .ready }]).2 = some { t with state := .ready }

/-- The scan starts from `INT_MAX` and looks for less. -/
theorem eligible_iff (t : Task) : Eligible t ↔ t.period < intMax := by
  by_cases small : t.period < intMax <;> simp [Eligible, scan, small]

/-- A task that is not eligible is chosen from no list. -/
theorem chosen_eligible {head : List Task} {t : Task} (h : (scan head).2 = some t) : Eligible t :=
  (eligible_iff t).mpr ((scan_spec head).1 t h).2.2.1

/-- No yield takes the current task for one that has never yielded. Its `next_period` is 0 only
if the clock read 0 or a sum wrapped. -/
def NoRestart (s : State) (e : Event) : Prop :=
  ∀ pid ∈ e.yields, ∀ t ∈ findByPid s pid, s.currTsk = some t.addr → t.nextPeriod ≠ 0

instance (s : State) (e : Event) : Decidable (NoRestart s e) :=
  inferInstanceAs (Decidable (∀ pid ∈ e.yields, ∀ t ∈ findByPid s pid,
    s.currTsk = some t.addr → t.nextPeriod ≠ 0))

/-- The current task is an entry on the list, running, and was chosen by the scan. -/
structure Occupied (s : State) : Prop where
  unique : Unique s
  current : ∀ a, s.currTsk = some a →
    ∃ t ∈ s.head, t.addr = a ∧ t.state = .running ∧ t.period < intMax

/-- An update in place of one entry, which stays running if it is still current. -/
theorem Occupied.update {s s' : State} (h : Occupied s) {a : Addr} {f : Task → Task}
    (keeps : Keeps f) (head : s'.head = updateAt a f s.head)
    (curr : ∀ b, s'.currTsk = some b → s.currTsk = some b)
    (running : s'.currTsk = some a → ∀ t ∈ s.head, t.addr = a → t.state = .running →
      (f t).state = .running) : Occupied s' where
  unique := by
    rw [Unique, head, updateAt_map_addr fun t => (keeps t).1]
    exact h.unique
  current := by
    intro b hb
    obtain ⟨t, ht, hta, run, small⟩ := h.current b (curr b hb)
    refine ⟨if t.addr = a then f t else t, head ▸ List.mem_map_of_mem ht, ?_⟩
    by_cases ha : t.addr = a
    · rw [if_pos ha, (keeps t).1, (keeps t).2.2.2.1]
      have same : b = a := hta ▸ ha
      exact ⟨hta, running (same ▸ hb) t ht ha run, small⟩
    · rw [if_neg ha]
      exact ⟨hta, run, small⟩

theorem Occupied.step {s s' : State} {e : Event} (h : Occupied s) (possible : Possible s e)
    (fresh : NoRestart s e) (eff : Effect s e s') : Occupied s' := by
  have unique := h.unique.step possible eff
  cases eff with
  | idle _ head curr =>
    refine ⟨unique, ?_⟩
    rw [head, curr]
    exact h.current
  | enroll _ _ _ _ _ head curr =>
    refine ⟨unique, fun a ha => ?_⟩
    obtain ⟨t, ht, rest⟩ := h.current a (curr ▸ ha)
    exact ⟨t, head ▸ List.mem_append_left _ ht, rest⟩
  | remove _ t _ _ head curr =>
    exact ⟨unique, current_remove h.current head curr⟩
  | activate pid t asked found first head curr =>
    apply h.update (activated_keeps _) head fun b hb => curr ▸ hb
    intro hc
    have later := fresh pid (by simp [Event.yields, Event.request, asked]) t found (curr ▸ hc)
    exact absurd first later
  | advance _ _ _ _ _ _ head curr =>
    exact h.update advanced_keeps head (fun b hb => curr ▸ hb) fun _ _ _ _ running => running
  | suspend _ t _ _ _ _ head curr =>
    apply h.update suspended_keeps head fun b hb => (still_current curr hb).1
    intro hc
    exact absurd rfl (still_current curr hc).2
  | expire head curr =>
    apply h.update expired_keeps head fun b hb => curr ▸ hb
    intro _ t _ _ running
    simp [expired, running]
  | switch next chosen _ head curr =>
    refine ⟨unique, fun a ha => ?_⟩
    obtain ⟨hm, _, small, _⟩ := (scan_spec s.head).1 next chosen
    rw [curr, Option.some.injEq] at ha
    exact ⟨switched s.currTsk next.addr next, head ▸ List.mem_map_of_mem hm, ha,
      by simp [switched], small⟩

theorem reaches_occupied {j : Nat} {processes : Nat → Option Process} {es : List Event}
    {s : State} (run : Reaches (fun s e => Possible s e ∧ NoRestart s e) j processes es s) :
    Occupied s := by
  apply run.invariant (I := Occupied)
  · exact ⟨List.nodup_nil, by simp [State.init]⟩
  · exact fun s e t h allowed stepped => h.step allowed.1 allowed.2 (step_effect stepped)

theorem Occupied.conserving {s : State} (h : Occupied s) {a : Addr} (curr : s.currTsk = some a) :
    Conserving s := by
  intro _
  obtain ⟨t, ht, hta, running, _⟩ := h.current a curr
  exact ⟨t, ht, by rw [curr, hta], running⟩

/-- A round leaves a task running exactly when the scan can choose one of those awake. -/
theorem round_conserving_iff {s s' : State} (h : Occupied s) (round : step s .dispatch = .ok s') :
    Conserving s' ↔ ((∃ t ∈ s.head, t.state ≠ .sleeping) →
      ∃ t ∈ s.head, t.state ≠ .sleeping ∧ t.period < intMax) := by
  have h' : Occupied s' := h.step (e := .dispatch) trivial
    (by simp [NoRestart, Event.yields, Event.request]) (step_effect round)
  obtain ⟨chosen, nothing⟩ := scan_spec s.head
  cases hn : (scan s.head).2 with
  | some next =>
    obtain ⟨hm, awake, small, _⟩ := chosen next hn
    refine iff_of_true ?_ fun _ => ⟨next, hm, awake, small⟩
    obtain ⟨rfl, stays⟩ | ⟨next', hnext, _, rfl⟩ := dispatchRound_cases round
    · exact h'.conserving (stays next hn)
    · exact h'.conserving rfl
  | none =>
    have same : s' = s := by
      obtain ⟨same, _⟩ | ⟨next, hnext, _⟩ := dispatchRound_cases round
      · exact same
      · rw [hn] at hnext
        cases hnext
    subst same
    constructor
    · intro conserving awake
      obtain ⟨c, hc, curr, running⟩ := conserving awake
      obtain ⟨t, ht, hta, _, small⟩ := h.current c.addr curr
      rw [h.unique.eq ht hc hta] at small
      exact ⟨c, hc, by simp [running], small⟩
    · intro small awake
      obtain ⟨t, ht, ht', small⟩ := small awake
      exact absurd (nothing hn t ht ht') (Nat.not_le.mpr small)

/-- **Work conservation.** Right after a round the awake tasks have the processor and no task is
passed over for its period, exactly when all periods on the list are below `INT_MAX`; the
processor alone is used exactly when some awake task has such a period. -/
theorem work_conserving_iff {j : Nat} {processes : Nat → Option Process} {es : List Event}
    {s s' : State} (run : Reaches (fun s e => Possible s e ∧ NoRestart s e) j processes es s)
    (round : step s .dispatch = .ok s') :
    (Conserving s' ∧ (∀ t ∈ s.head, Eligible t) ↔ ∀ t ∈ s.head, t.period < intMax) ∧
    (Conserving s' ↔ ((∃ t ∈ s.head, t.state ≠ .sleeping) →
      ∃ t ∈ s.head, t.state ≠ .sleeping ∧ t.period < intMax)) := by
  have conserving := round_conserving_iff (reaches_occupied run) round
  refine ⟨?_, conserving⟩
  rw [conserving]
  simp only [eligible_iff]
  constructor
  · exact fun h => h.2
  · intro small
    refine ⟨?_, small⟩
    rintro ⟨t, ht, awake⟩
    exact ⟨t, ht, awake, small t ht⟩

theorem work_conserving_iff_one_task :
    ∃ s s' : State, step s .dispatch = .ok s' ∧ s.head.map Task.state = [.ready] ∧
      s'.currTsk = some 1 ∧ Conserving s' ∧ ∀ t ∈ s.head, Eligible t := by
  have ready : (replay step (fun s e => Possible s e ∧ NoRestart s e) (.init 1 fun _ => none)
      [.fork 7, .write (.text "R,7,100,1\n" 1), .write (.text "Y,7\n" 2)]).map
      (fun s => (s.head.map fun t => (t.state, t.period),
        (step s .dispatch).toOption.map State.currTsk)) =
      some ([(.ready, 100)], some (some 1)) := by decide
  obtain ⟨s, run, hs⟩ := Option.map_eq_some_iff.mp ready
  simp only [Prod.mk.injEq] at hs
  obtain ⟨head, after⟩ := hs
  obtain ⟨s', round, curr⟩ := Option.map_eq_some_iff.mp after
  have round := ok_of_toOption round
  have small : ∀ t ∈ s.head, t.period < intMax := by
    intro t ht
    have mem := List.mem_map_of_mem (f := fun t : Task => (t.state, t.period)) ht
    rw [head, List.mem_singleton, Prod.mk.injEq] at mem
    rw [mem.2]
    decide
  have states : s.head.map Task.state = [.ready] := by
    simpa using congrArg (List.map Prod.fst) head
  exact ⟨s, s', round, states, curr, (work_conserving_iff (.of_replay run) round).1.mpr small⟩

/-- A task with period `INT_MAX` is admitted, yields, and is not chosen by the round. -/
theorem work_not_conserved :
    ∃ s s' : State, Reaches Possible 1 (fun _ => none)
        [.fork 7, .write (.text "R,7,2147483647,1\n" 1), .write (.text "Y,7\n" 2)] s ∧
      step s .dispatch = .ok s' ∧ ¬ Conserving s' ∧ ∃ t ∈ s'.head, ¬ Eligible t := by
  have idle : (replay step Possible (.init 1 fun _ => none)
      [.fork 7, .write (.text "R,7,2147483647,1\n" 1), .write (.text "Y,7\n" 2)]).map
      (fun s => (step s .dispatch).toOption.map fun s' =>
        (s'.currTsk, s'.head.map fun t => (t.state, t.period))) =
      some (some (none, [(.ready, intMax)])) := by decide
  obtain ⟨s, run, after⟩ := Option.map_eq_some_iff.mp idle
  obtain ⟨s', round, hs'⟩ := Option.map_eq_some_iff.mp after
  simp only [Prod.mk.injEq] at hs'
  obtain ⟨t, ht, state⟩ :=
    List.mem_map.mp (hs'.2 ▸ List.mem_singleton_self (TaskState.ready, intMax))
  simp only [Prod.mk.injEq] at state
  refine ⟨s, s', .of_replay run, ok_of_toOption round, fun conserving => ?_, t, ht, ?_⟩
  · obtain ⟨c, _, curr, _⟩ := conserving ⟨t, ht, by simp [state.1]⟩
    rw [hs'.1] at curr
    cases curr
  · rw [eligible_iff, state.2]
    exact Nat.lt_irrefl _

end KernelModules.MP2
