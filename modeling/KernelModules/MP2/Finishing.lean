import Mathlib.Algebra.Order.BigOperators.Group.List
import KernelModules.Lib.Progress
import KernelModules.MP2.Apps

/-!
# Userapps can finish

A process that is blocked has an entry that will wake it, the current task is never that of a
blocked process, and the scan can choose every entry whose period is below `INT_MAX`. So as long
as a program is left, timers and the dispatcher bring some process to where it can go on, and
every program can be brought to its end.
-/

namespace KernelModules.MP2

section

variable {m m' : System} {app : Userapp} {a : System.Act} {s s' : State} {t : Task} {e : Event}

/-! ## What a step asks of the module -/

/-- A step leaves the module alone or is one of its events, and takes no entry of a blocked
process away. -/
theorem Attended.event (h : Attended m) (enabled : m.Enabled a) (stepped : m.step a = .ok m') :
    m'.module = m.module ∨ ∃ e, Possible m.module e ∧ MP2.step m.module e = .ok m'.module ∧
      ∀ t ∈ e.removes m.module, ∀ p ∈ t.tsk, ¬ Blocked m.module p := by
  have nothing {e : Event} (other : e.removes m.module = none) :
      ∀ t ∈ e.removes m.module, ∀ p ∈ t.tsk, ¬ Blocked m.module p := by
    intro t ht
    rw [other] at ht
    cases ht
  cases a with
  | exec app =>
    cases stepped
    exact .inr ⟨.fork app.pid, trivial, rfl, nothing rfl⟩
  | kernel e =>
    obtain ⟨s, done, rest⟩ := bind_ok stepped
    cases rest
    refine .inr ⟨e, ?_, module?_ok done, nothing ?_⟩
    · cases e with
      | expire a =>
        obtain ⟨t, ht, addr, x, armed, -⟩ := enabled
        exact ⟨t, ht, addr, by rw [Option.mem_def.mp armed]; simp⟩
      | write w => exact absurd enabled id
      | _ => trivial
    · cases e with
      | write w => exact absurd enabled id
      | _ => rfl
  | run app call =>
    have ha : app ∈ m.apps := enabled.1
    change m.main app call = .ok m' at stepped
    cases at' : app.pc with
    | regist =>
      rw [System.main, at'] at stepped
      obtain ⟨s, done, rfl⟩ := write_ok stepped
      refine .inr ⟨_, enabled_possible enabled _, done, nothing ?_⟩
      simp [Event.removes, Event.request, regist_request]
    | check =>
      rw [h.checked enabled at'] at stepped
      cases stepped
      exact .inl rfl
    | yield time =>
      rw [System.main, at'] at stepped
      obtain ⟨s, done, rfl⟩ := write_ok stepped
      refine .inr ⟨_, enabled_possible enabled _, done, nothing ?_⟩
      simp [Event.removes, Event.request, yield_request]
    | work time =>
      rw [System.main, at'] at stepped
      cases stepped
      exact .inl rfl
    | deregister =>
      rw [System.main, at'] at stepped
      obtain ⟨s, done, rfl⟩ := write_ok stepped
      refine .inr ⟨_, enabled_possible enabled _, done, ?_⟩
      obtain ⟨u, -, found, owns⟩ := h.found ha (by rw [at']; rfl)
      intro t ht p hp
      rw [Event.removes, Event.request, deregister_request] at ht
      obtain rfl := Option.some.inj (found.symm.trans ht)
      rw [owns.2.1, Option.mem_some] at hp
      exact hp ▸ enabled.2.1
    | exit =>
      rw [System.main, at'] at stepped
      cases stepped
      exact .inr ⟨.exit app.pid, trivial, rfl, nothing rfl⟩

/-! ## The current task goes on -/

/-- The process of the current task is not blocked. -/
def Unblocked (s : State) : Prop :=
  ∀ t ∈ s.head, s.currTsk = some t.addr → ∀ p ∈ t.tsk, ¬ Blocked s p

/-- No process has two entries. -/
def Apart (s : State) : Prop :=
  ∀ t ∈ s.head, ∀ u ∈ s.head, ∀ p ∈ t.tsk, u.tsk = some p → t = u

theorem Unblocked.step (h : Unblocked s) (backed : Backed s) (apart : Apart s)
    (unique : Unique s') (eff : ProcessEffect s e s') : Unblocked s' := by
  cases eff with
  | inPlace f keeps _ _ head curr processes =>
    intro x hx current p hp blocked
    rw [head] at hx
    obtain ⟨t, ht, rfl⟩ := List.mem_map.mp hx
    rw [curr, (keeps t).1] at current
    rw [(keeps t).2.2.1] at hp
    exact h t ht current p hp ((blocked_congr processes p).mp blocked)
  | spawn q x fresh _ head curr processes =>
    intro t ht current p hp blocked
    rw [head] at ht
    rw [curr] at current
    rw [Blocked, processes] at blocked
    by_cases this : p = q
    · simp only [State.setProcess, if_pos this] at blocked
      obtain ⟨y, hy, asleep⟩ := Option.map_eq_some_iff.mp blocked
      rw [fresh y hy] at asleep
      cases asleep
    · rw [setProcess_other this] at blocked
      exact h t ht current p hp blocked
  | enroll t _ head curr processes =>
    intro x hx current p hp blocked
    -- the current task was on the list before
    obtain ⟨u, hu, addr, -⟩ := backed.current x.addr (curr ▸ current)
    have same : u = x := unique.eq (head ▸ List.mem_append_left _ hu) hx addr
    exact h x (same ▸ hu) (curr ▸ current) p hp ((blocked_congr processes p).mp blocked)
  | remove t _ ht head curr processes =>
    intro x hx current p hp blocked
    rw [head] at hx
    exact h x (List.mem_of_mem_eraseP hx) (still_current curr current).1 p hp
      ((blocked_congr processes p).mp blocked)
  | suspend t q ht tsk _ head curr processes =>
    intro x hx current p hp blocked
    obtain ⟨before, other⟩ := still_current curr current
    rw [head] at hx
    obtain ⟨u, hu, ⟨addr, rfl⟩ | ⟨-, rfl⟩⟩ := mem_updateAt hx
    · exact other addr
    · rcases blocked_touch_block processes blocked with rfl | blocked
      · exact other (congrArg Task.addr (apart x hu t ht p hp tsk))
      · exact h x hu before p hp blocked
  | switch next hm head curr processes =>
    intro x hx current p hp blocked
    rw [head] at hx
    obtain ⟨t, ht, rfl⟩ := List.mem_map.mp hx
    rw [curr, Option.some.injEq] at current
    obtain rfl : t = next := backed.unique.eq ht hm current.symm
    obtain ⟨q, hq, asleep⟩ := Option.map_eq_some_iff.mp blocked
    rw [processes] at hq
    obtain ⟨-, rfl⟩ | ⟨other, -⟩ := handover_cases hq
    · cases asleep
    · exact other ((backed.unique.tskAt ht).trans hp)

/-! ## Programs with periods that the scan can choose -/

/-- A program is started with a period below `INT_MAX`. -/
def System.Act.Modest : System.Act → Prop
  | .exec app => app.period.toNat < intMax
  | _ => True

/-- No further program is started. -/
def System.Act.Closing : System.Act → Prop
  | .exec _ => False
  | _ => True

instance : DecidablePred System.Act.Modest := fun a =>
  match a with
  | .exec app => inferInstanceAs (Decidable (app.period.toNat < intMax))
  | .run _ _ => .isTrue trivial
  | .kernel _ => .isTrue trivial

theorem System.Act.Closing.modest (h : a.Closing) : a.Modest := by
  cases a with
  | exec app => exact absurd h id
  | run app call => trivial
  | kernel e => trivial

structure Unstuck (m : System) : Prop extends Attended m where
  awaited : Awaited m.module
  unblocked : Unblocked m.module
  modest : ∀ app ∈ m.apps, app.period.toNat < intMax

theorem Attended.apart (h : Attended m) : Apart m.module := by
  intro t ht u hu p hp tsk
  obtain ⟨app, -, owns, -⟩ := h.owned t ht
  obtain ⟨app', -, owns', -⟩ := h.owned u hu
  rw [owns.2.1, Option.mem_some] at hp
  rw [owns'.2.1, Option.some.injEq] at tsk
  exact h.alone ht hu (by rw [owns.1, owns'.1, hp, tsk])

/-- The periods of the programs stay, and a new one brings its own. -/
theorem Attended.period (h : Attended m) (enabled : m.Enabled a) (stepped : m.step a = .ok m') :
    ∀ x ∈ m'.apps, (∃ app ∈ m.apps, x.pid = app.pid ∧ x.period = app.period) ∨
      ∃ app, a = .exec app ∧ x.period = app.period := by
  have gone {pid : Nat} {pc : Pc} {s : State} : ∀ x ∈ (m.goto pid pc s).apps,
      ∃ app ∈ m.apps, x.pid = app.pid ∧ x.period = app.period := by
    intro x hx
    obtain ⟨app, ha, rfl⟩ := List.mem_map.mp hx
    refine ⟨app, ha, ?_⟩
    by_cases this : app.pid = pid <;> simp [Userapp.moved, this]
  cases a with
  | exec app =>
    cases stepped
    intro x hx
    rcases List.mem_append.mp hx with hx | hx
    · exact .inl ⟨x, hx, rfl, rfl⟩
    · rw [List.mem_singleton.mp hx]
      exact .inr ⟨app, rfl, rfl⟩
  | kernel e =>
    obtain ⟨s, -, rest⟩ := bind_ok stepped
    cases rest
    exact fun x hx => .inl ⟨x, hx, rfl, rfl⟩
  | run app call =>
    change m.main app call = .ok m' at stepped
    intro x hx
    left
    cases at' : app.pc with
    | check =>
      rw [h.checked enabled at'] at stepped
      cases stepped
      exact gone x hx
    | work time =>
      rw [System.main, at'] at stepped
      cases stepped
      exact gone x hx
    | exit =>
      rw [System.main, at'] at stepped
      cases stepped
      exact ⟨x, (List.mem_filter.mp hx).1, rfl, rfl⟩
    | _ =>
      rw [System.main, at'] at stepped
      obtain ⟨s, -, rfl⟩ := write_ok stepped
      exact gone x hx

theorem Unstuck.step (h : Unstuck m) (enabled : m.Enabled a) (modest : a.Modest)
    (stepped : m.step a = .ok m') : Unstuck m' := by
  have attended := h.toAttended.step enabled stepped
  have periods : ∀ x ∈ m'.apps, x.period.toNat < intMax := by
    intro x hx
    rcases h.period enabled stepped x hx with ⟨app, ha, -, same⟩ | ⟨app, rfl, same⟩
    · exact same ▸ h.modest app ha
    · exact same ▸ modest
  rcases h.event enabled stepped with same | ⟨e, possible, done, spared⟩
  · exact ⟨attended, same ▸ h.awaited, same ▸ h.unblocked, periods⟩
  · have eff := step_processEffect done
    have unique := h.backed.unique.step possible (step_effect done)
    refine ⟨attended, (h.awaited.step_iff h.backed.unique eff).mpr ?_,
      h.unblocked.step h.backed h.apart unique eff, periods⟩
    exact fun t ht p hp blocked => absurd blocked (spared t ht p hp)

/-! ## What is left to do -/

/-- A bound on the steps a program has left. -/
def Userapp.left (app : Userapp) : Nat :=
  match app.pc with
  | .regist => 2 * app.setTimes.toNat + 6
  | .check => 2 * app.setTimes.toNat + 5
  | .yield time => 2 * (app.setTimes.toNat - time) + 4
  | .work time => 2 * (app.setTimes.toNat - time) + 3
  | .deregister => 2
  | .exit => 1

def System.left (m : System) : Nat := (m.apps.map Userapp.left).sum

theorem left_pos (app : Userapp) : 0 < app.left := by
  unfold Userapp.left
  cases app.pc <;> simp only <;> omega

theorem left_afterYield (app : Userapp) (time : Nat) :
    ({ app with pc := app.afterYield time } : Userapp).left <
      ({ app with pc := .yield time } : Userapp).left := by
  unfold Userapp.afterYield
  split
  · exact Nat.lt_succ_self _
  · simp only [Userapp.left]
    omega

theorem left_afterWork (app : Userapp) (time : Nat) :
    ({ app with pc := app.afterWork time } : Userapp).left <
      ({ app with pc := .work time } : Userapp).left := by
  unfold Userapp.afterWork
  split
  · simp only [Userapp.left]
    omega
  · simp only [Userapp.left, Userapp.setTimes] at *
    omega

theorem Attended.left_goto (h : Attended m) (ha : app ∈ m.apps) {pc : Pc}
    (less : ({ app with pc := pc } : Userapp).left < app.left) :
    (m.goto app.pid pc s).left < m.left := by
  rw [System.left, System.goto, List.map_map]
  refine List.sum_lt_sum _ _ (fun x hx => ?_) ⟨app, ha, ?_⟩
  · by_cases this : x.pid = app.pid
    · rw [Function.comp, moved_here this, h.same hx ha this]
      exact Nat.le_of_lt less
    · rw [Function.comp, moved_other this]
  · rw [Function.comp, moved_here rfl]
    exact less

theorem sum_filter (p : Userapp → Bool) (f : Userapp → Nat) (l : List Userapp) :
    ((l.filter p).map f).sum = (l.map fun x => if p x then f x else 0).sum := by
  induction l with
  | nil => rfl
  | cons x l ih => cases hp : p x <;> simp [hp, ih]

theorem Attended.left_exits (ha : app ∈ m.apps) :
    System.left ⟨s, m.apps.filter fun x => decide (x.pid ≠ app.pid)⟩ < m.left := by
  rw [System.left, sum_filter]
  refine List.sum_lt_sum _ _ (fun x _ => ?_) ⟨app, ha, ?_⟩
  · split
    · exact Nat.le_refl _
    · exact Nat.zero_le _
  · simpa using left_pos app

/-- The step of a program leaves less to do. -/
theorem Attended.left_run (h : Attended m) {call : Call} (enabled : m.Enabled (.run app call))
    (stepped : m.step (.run app call) = .ok m') : m'.left < m.left := by
  have ha : app ∈ m.apps := enabled.1
  have here {pc : Pc} (at' : app.pc = pc) : ({ app with pc := pc } : Userapp) = app := by rw [← at']
  change m.main app call = .ok m' at stepped
  cases at' : app.pc with
  | regist =>
    rw [System.main, at'] at stepped
    obtain ⟨s, -, rfl⟩ := write_ok stepped
    refine h.left_goto ha ?_
    rw [← here at']
    exact Nat.lt_succ_self _
  | check =>
    rw [h.checked enabled at'] at stepped
    cases stepped
    refine h.left_goto ha ?_
    conv_rhs => rw [← here at']
    split
    · exact Nat.lt_succ_self _
    · simp only [Userapp.left]
      omega
  | yield time =>
    rw [System.main, at'] at stepped
    obtain ⟨s, -, rfl⟩ := write_ok stepped
    refine h.left_goto ha ?_
    conv_rhs => rw [← here at']
    exact left_afterYield app time
  | work time =>
    rw [System.main, at'] at stepped
    cases stepped
    refine h.left_goto ha ?_
    conv_rhs => rw [← here at']
    exact left_afterWork app time
  | deregister =>
    rw [System.main, at'] at stepped
    obtain ⟨s, -, rfl⟩ := write_ok stepped
    refine h.left_goto ha ?_
    rw [← here at']
    exact Nat.lt_succ_self _
  | exit =>
    rw [System.main, at'] at stepped
    cases stepped
    exact Attended.left_exits ha

/-! ## Some program can go on -/

abbrev System.Closes (m : System) (a : System.Act) : Prop := m.Enabled a ∧ a.Closing

theorem Unstuck.closes (h : Unstuck m) (closes : m.Closes a) (stepped : m.step a = .ok m') :
    Unstuck m' := h.step closes.1 closes.2.modest stepped

/-- Time passes. -/
theorem System.waits (m : System) (n : Nat) :
    ∃ as, Run System.step System.Closes m as
      { m with module := { m.module with jiffies := m.module.jiffies + n } } := by
  induction n with
  | zero => exact ⟨[], .init⟩
  | succ n ih =>
    obtain ⟨as, run⟩ := ih
    exact ⟨_, run.next (e := System.Act.kernel .tick) ⟨trivial, trivial⟩ rfl⟩

/-- An entry that waits for its timer comes to be awake. -/
theorem System.wakes (ht : t ∈ m.module.head) (wakes : Wakes t) :
    ∃ as m', Run System.step System.Closes m as m' ∧ m'.apps = m.apps ∧
      ∃ u ∈ m'.module.head, u.state ≠ .sleeping := by
  rcases wakes with ⟨asleep, armed⟩ | ready
  · obtain ⟨x, hx⟩ := Option.ne_none_iff_exists'.mp armed
    obtain ⟨as, waited⟩ := m.waits (x - m.module.jiffies)
    have due : x ≤ m.module.jiffies + (x - m.module.jiffies) := by omega
    have run := waited.next (e := System.Act.kernel (.expire t.addr))
      ⟨⟨t, ht, rfl, x, hx, due⟩, trivial⟩ rfl
    refine ⟨_, _, run, rfl, expired t, ?_, by simp [expired, asleep]⟩
    rw [expire_head]
    exact List.mem_map.mpr ⟨t, ht, if_pos rfl⟩
  · exact ⟨[], m, .init, rfl, t, ht, by rw [ready]; decide⟩

/-- After a round with an entry awake some program can go on. -/
theorem Unstuck.round (h : Unstuck m) (ht : t ∈ m.module.head) (awake : t.state ≠ .sleeping) :
    ∃ m', Run System.step System.Closes m [.kernel .dispatch] m' ∧ m'.apps = m.apps ∧
      ∃ app ∈ m'.apps, ¬ Blocked m'.module app.pid := by
  obtain ⟨s, round⟩ := dispatchRound_backed h.backed
  have stepped : m.step (.kernel .dispatch) = .ok { m with module := s } := by
    rw [System.step, System.module?, show MP2.step m.module .dispatch = .ok s from round]
    rfl
  have closes : m.Closes (.kernel .dispatch) := ⟨trivial, trivial⟩
  refine ⟨_, .single closes stepped, rfl, ?_⟩
  have later := h.closes closes stepped
  have small : t.period < intMax := by
    obtain ⟨app, ha, owns, -⟩ := h.owned t ht
    exact owns.2.2.1 ▸ h.modest app ha
  -- the task that is current after the round is not blocked
  have current {next : Task} (chosen : (scan m.module.head).2 = some next)
      (curr : s.currTsk = some next.addr) (head : ∃ f, Keeps f ∧ s.head = m.module.head.map f) :
      ∃ app ∈ m.apps, ¬ Blocked s app.pid := by
    obtain ⟨hm, -⟩ := (scan_spec m.module.head).1 next chosen
    obtain ⟨app, ha, owns, -⟩ := h.owned next hm
    obtain ⟨f, keeps, head⟩ := head
    refine ⟨app, ha, later.unblocked (f next) ?_ ?_ app.pid ?_⟩
    · rw [head]
      exact List.mem_map_of_mem hm
    · rw [(keeps next).1]
      exact curr
    · rw [(keeps next).2.2.1, owns.2.1]
      rfl
  obtain ⟨rfl, stays⟩ | ⟨next, chosen, -, rfl⟩ := dispatchRound_cases round
  · cases chosen : (scan m.module.head).2 with
    | none =>
      have long := (scan_spec m.module.head).2 chosen t ht awake
      omega
    | some next =>
      exact current chosen (stays next chosen) ⟨id, keeps_id, (List.map_id _).symm⟩
  · exact current chosen rfl ⟨_, switched_keeps _ _, rfl⟩

/-- As long as a program is left one of them comes to where it can go on. -/
theorem Unstuck.frees (h : Unstuck m) (left : m.apps ≠ []) :
    ∃ as m', Run System.step System.Closes m as m' ∧ m'.apps = m.apps ∧
      ∃ app ∈ m'.apps, ¬ Blocked m'.module app.pid := by
  by_cases free : ∃ app ∈ m.apps, ¬ Blocked m.module app.pid
  · exact ⟨[], m, .init, rfl, free⟩
  · simp only [not_exists, not_and, not_not] at free
    obtain ⟨app, ha⟩ := List.exists_mem_of_ne_nil _ left
    obtain ⟨t, ht, -, wakes⟩ := h.awaited app.pid (free app ha)
    obtain ⟨as, m₁, run, apps, u, hu, awake⟩ := System.wakes ht wakes
    have h₁ : Unstuck m₁ := run.invariant h fun _ _ _ h closes stepped => h.closes closes stepped
    obtain ⟨m₂, round, apps', freed⟩ := h₁.round hu awake
    exact ⟨_, m₂, run.append round, apps'.trans apps, freed⟩

theorem fresh_addr (l : List Task) : ∃ a, ∀ t ∈ l, t.addr ≠ a := by
  refine ⟨(l.map Task.addr).sum + 1, fun t ht same => ?_⟩
  have bound : t.addr ≤ (l.map Task.addr).sum :=
    List.le_sum_of_mem (List.mem_map_of_mem (f := Task.addr) ht)
  exact Nat.not_succ_le_self _ (same ▸ bound)

/-- As long as there is something left to do some of it can be done. -/
theorem Unstuck.advances (h : Unstuck m) (left : m.left ≠ 0) :
    ∃ as m', Run System.step System.Closes m as m' ∧ m'.left < m.left := by
  have some : m.apps ≠ [] := by
    intro none
    rw [System.left, none] at left
    exact left rfl
  obtain ⟨as, m₁, run, apps, app, ha, free⟩ := h.frees some
  have h₁ : Unstuck m₁ := run.invariant h fun _ _ _ h closes stepped => h.closes closes stepped
  obtain ⟨slab, fresh⟩ := fresh_addr m₁.module.head
  have enabled : m₁.Enabled (.run app (.quiet slab)) :=
    ⟨ha, free, fresh, List.length_replicate, List.length_replicate⟩
  obtain ⟨m₂, stepped⟩ := h₁.toAttended.progress enabled
  have less := h₁.left_run enabled stepped
  rw [System.left, System.left, apps] at less
  exact ⟨_, m₂, run.next ⟨enabled, trivial⟩ stepped, less⟩

section

variable {j : Nat} {alive : Nat → Bool} {as : List System.Act}

theorem reaches_unstuck
    (run : Run System.step (fun m a => m.Enabled a ∧ a.Modest) (System.init j (untouched alive))
      as m) : Unstuck m := by
  apply run.invariant
  · refine ⟨reaches_attended .init, ?_, by simp [Unblocked, System.init, State.init],
      by simp [System.init]⟩
    intro pid blocked
    obtain ⟨p, hp, asleep⟩ := Option.map_eq_some_iff.mp blocked
    rw [untouched_running hp] at asleep
    cases asleep
  · exact fun s e t h allowed stepped => h.step allowed.1 allowed.2 stepped

/-- **Userapps can finish.** From every state that processes executing `main` can bring the module
to, if each asked for a period below `INT_MAX`, timers, rounds and the processes' own steps lead
to a state in which all of them are gone and the module has neither an entry nor a current
task. -/
theorem userapps_can_finish
    (run : Run System.step (fun m a => m.Enabled a ∧ a.Modest) (System.init j (untouched alive))
      as m) :
    ∃ as' m', Run System.step System.Closes m as' m' ∧ m'.apps = [] ∧ m'.module.head = [] ∧
      m'.module.currTsk = none := by
  obtain ⟨as', m', rest, done, none⟩ := Run.finishes System.left
    (fun _ _ _ h closes stepped => Unstuck.closes h closes stepped)
    (fun _ h left => h.advances left) (reaches_unstuck run)
  have gone : m'.apps = [] := by
    apply List.eq_nil_iff_forall_not_mem.mpr
    intro app ha
    have bound : app.left ≤ (m'.apps.map Userapp.left).sum :=
      List.le_sum_of_mem (List.mem_map_of_mem (f := Userapp.left) ha)
    have := left_pos app
    rw [System.left] at none
    omega
  exact ⟨as', m', rest, gone, done.empty gone⟩

/-- A process that sleeps until its second period. -/
theorem userapps_can_finish_asleep :
    ∃ m as' m', Blocked m.module 7 ∧ Run System.step System.Closes m as' m' ∧ m'.apps = [] ∧
      m'.module.head = [] ∧ m'.module.currTsk = none := by
  obtain ⟨m, run, asleep⟩ : ∃ m, Run System.step (fun m a => m.Enabled a ∧ a.Modest)
      (.init 1 (untouched fun _ => false))
      [.exec ⟨7, 100, 1, 2, .regist⟩, .run ⟨7, 100, 1, 2, .regist⟩ (.quiet 1),
        .run ⟨7, 100, 1, 2, .check⟩ (.quiet 2), .run ⟨7, 100, 1, 2, .yield 0⟩ (.quiet 2),
        .kernel .dispatch, .run ⟨7, 100, 1, 2, .work 0⟩ (.quiet 2),
        .run ⟨7, 100, 1, 2, .yield 1⟩ (.quiet 2)] m ∧ Blocked m.module 7 :=
    Run.exists_of_replay (fun m => decide (Blocked m.module 7)) (a := true) (by decide +kernel)
      fun _ _ seen => of_decide_eq_true seen
  obtain ⟨as', m', rest, gone⟩ := userapps_can_finish run
  exact ⟨m, as', m', asleep, rest, gone⟩

end

end

end KernelModules.MP2
