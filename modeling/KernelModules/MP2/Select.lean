import KernelModules.MP2.System

/-!
# Between the scan and the switch

With `spin_lock` and `spin_unlock` compiled out, the pointer the scan chose is followed later,
when the entry may have been freed or put to sleep. The dispatcher's round is two steps here,
and every other event can come between them. An address that was freed can be handed out
again, so a stale pointer may even lead to another entry.
-/

namespace KernelModules.MP2.Select

/-- `selected` is the local variable `next` between the scan and the switch, itself `none` for
NULL, and `none` outside. -/
structure Round where
  module : State
  selected : Option (Option Addr)

def Round.init (jiffies : Nat) (processes : Nat → Option Process) : Round :=
  ⟨.init jiffies processes, none⟩

inductive Act
  | select
  | switch
  | event (e : Event)
  deriving DecidableEq, Repr

def act (m : Round) : Act → Except Fault Round
  | .select => .ok { m with selected := some ((scan m.module.head).2.map Task.addr) }
  | .switch => (switchTo m.module m.selected.join).map fun s => ⟨s, none⟩
  | .event e => (step m.module e).map fun s => { m with module := s }

/-- A selection and the switch that follows it, with nothing between, are the atomic round. -/
theorem select_switch (s : State) :
    ((act ⟨s, none⟩ .select).bind (act · .switch)).map Round.module = step s .dispatch := by
  simp only [act, Except.bind, step, dispatchRound, Option.join_some]
  cases switchTo s ((scan s.head).2.map Task.addr) <;> rfl

/-- The order of the dispatcher's steps, and what the kernel guarantees of the others. -/
def Enabled (m : Round) : Act → Prop
  | .select => m.selected = none
  | .switch => m.selected ≠ none
  | .event e => e ≠ .dispatch ∧ Possible m.module e

instance (m : Round) (a : Act) : Decidable (Enabled m a) :=
  match a with
  | .select => inferInstanceAs (Decidable (m.selected = none))
  | .switch => inferInstanceAs (Decidable (m.selected ≠ none))
  | .event e => inferInstanceAs (Decidable (e ≠ .dispatch ∧ Possible m.module e))

/-- The request frees the entry at `a` or puts it to sleep. -/
def Disturbs (s : State) (a : Addr) : Request → Prop
  | .register _ _ _ => False
  | .deregister pid => ∃ t ∈ findByPid s pid, t.addr = a
  | .yield pid => ∃ t ∈ findByPid s pid,
      t.addr = a ∧ t.nextPeriod ≠ 0 ∧ s.jiffies < t.nextPeriod

instance (s : State) (a : Addr) (r : Request) : Decidable (Disturbs s a r) :=
  match r with
  | .register _ _ _ => .isFalse id
  | .deregister pid => inferInstanceAs (Decidable (∃ t ∈ findByPid s pid, t.addr = a))
  | .yield pid => inferInstanceAs (Decidable (∃ t ∈ findByPid s pid,
      t.addr = a ∧ t.nextPeriod ≠ 0 ∧ s.jiffies < t.nextPeriod))

/-- Nothing disturbs the selected entry before the switch. -/
def Undisturbed (m : Round) : Act → Prop
  | .event e => ∀ next ∈ m.selected, ∀ a ∈ next, ∀ r ∈ e.request, ¬ Disturbs m.module a r
  | _ => True

instance (m : Round) (a : Act) : Decidable (Undisturbed m a) :=
  match a with
  | .event e => inferInstanceAs (Decidable
      (∀ next ∈ m.selected, ∀ a ∈ next, ∀ r ∈ e.request, ¬ Disturbs m.module a r))
  | .select => .isTrue trivial
  | .switch => .isTrue trivial

/-- An entry on the list that the dispatcher may run. -/
def Live (s : State) (a : Addr) : Prop := ∃ t ∈ s.head, t.addr = a ∧ t.state ≠ .sleeping

section

variable {s s' : State} {e : Event} {a : Addr}

theorem Live.update (live : Live s a) {b : Addr} {f : Task → Task}
    (head : s'.head = updateAt b f s.head) (keeps : Keeps f)
    (awake : ∀ t ∈ s.head, t.addr = b → b = a → t.state ≠ .sleeping → (f t).state ≠ .sleeping) :
    Live s' a := by
  obtain ⟨t, ht, rfl, ha⟩ := live
  refine ⟨if t.addr = b then f t else t, head ▸ List.mem_map_of_mem ht, ?_⟩
  by_cases hb : t.addr = b
  · rw [if_pos hb]
    exact ⟨(keeps t).1, awake t ht hb hb.symm ha⟩
  · rw [if_neg hb]
    exact ⟨rfl, ha⟩

theorem Live.step (live : Live s a) (calm : ∀ r ∈ e.request, ¬ Disturbs s a r)
    (eff : Effect s e s') : Live s' a := by
  cases eff with
  | idle _ head =>
    unfold Live
    rw [head]
    exact live
  | enroll _ _ _ _ _ head =>
    obtain ⟨t, ht, rest⟩ := live
    exact ⟨t, head ▸ List.mem_append_left _ ht, rest⟩
  | remove pid t asked found head =>
    obtain ⟨u, hu, rfl, awake⟩ := live
    have other : u.addr ≠ t.addr := fun same => calm _ asked ⟨t, found, same.symm⟩
    exact ⟨u, head ▸ erase_mem hu other, rfl, awake⟩
  | activate _ _ _ _ _ head =>
    exact live.update head (activated_keeps _) fun t _ _ _ _ => by simp [activated]
  | advance _ _ _ _ _ _ head => exact live.update head advanced_keeps fun t _ _ _ awake => awake
  | suspend pid t asked found later early head =>
    apply live.update head suspended_keeps
    intro u _ _ same
    exact absurd ⟨t, found, same, later, early⟩ (calm _ asked)
  | expire head =>
    apply live.update head expired_keeps
    intro t _ _ _ awake
    simp [expired, awake]
  | switch next _ _ head =>
    obtain ⟨t, ht, rfl, awake⟩ := live
    refine ⟨switched s.currTsk next.addr t, head ▸ List.mem_map_of_mem ht, rfl, ?_⟩
    intro sleeping
    simp only [switched] at sleeping
    split at sleeping
    · cases sleeping
    · split at sleeping
      · cases sleeping
      · exact awake sleeping

/-- `curr_tsk` is NULL or leads to an entry on the list. -/
def OnHead (s : State) : Prop := ∀ a, s.currTsk = some a → ∃ t ∈ s.head, t.addr = a

theorem OnHead.keep (h : OnHead s) {f : Task → Task} (keeps : Keeps f)
    (head : s'.head = s.head.map f) (curr : ∀ a, s'.currTsk = some a → s.currTsk = some a) :
    OnHead s' := by
  intro a ha
  obtain ⟨t, ht, hta⟩ := h a (curr a ha)
  exact ⟨f t, head ▸ List.mem_map_of_mem ht, (keeps t).1.trans hta⟩

theorem OnHead.step (h : OnHead s) (eff : Effect s e s') : OnHead s' := by
  cases eff with
  | idle _ head curr =>
    unfold OnHead
    rw [head, curr]
    exact h
  | enroll _ _ _ _ _ head curr =>
    intro a ha
    obtain ⟨t, ht, hta⟩ := h a (curr ▸ ha)
    exact ⟨t, head ▸ List.mem_append_left _ ht, hta⟩
  | remove _ t _ _ head curr =>
    intro a ha
    obtain ⟨before, other⟩ := still_current curr ha
    obtain ⟨u, hu, rfl⟩ := h a before
    exact ⟨u, head ▸ erase_mem hu other, rfl⟩
  | activate _ _ _ _ _ head curr =>
    exact h.keep (activated_keeps _).updateAt head fun a ha => curr ▸ ha
  | advance _ _ _ _ _ _ head curr => exact h.keep advanced_keeps.updateAt head fun a ha => curr ▸ ha
  | suspend _ _ _ _ _ _ head curr =>
    exact h.keep suspended_keeps.updateAt head fun a ha => (still_current curr ha).1
  | expire head curr => exact h.keep expired_keeps.updateAt head fun a ha => curr ▸ ha
  | switch next chosen _ head curr =>
    intro a ha
    rw [curr, Option.some.injEq] at ha
    obtain ⟨hm, _⟩ := (scan_spec s.head).1 next chosen
    exact ⟨switched s.currTsk next.addr next, head ▸ List.mem_map_of_mem hm, ha⟩

theorem OnHead.switchTo (h : OnHead s) {next : Option Addr} (moved : switchTo s next = .ok s')
    (live : ∀ a, next = some a → Live s a) : OnHead s' := by
  cases next with
  | none =>
    cases moved
    exact h
  | some a =>
    by_cases same : s.currTsk = some a
    · simp only [MP2.switchTo, same, ↓reduceIte, Except.ok.injEq] at moved
      exact moved ▸ h
    · obtain ⟨t, ht, hta, _⟩ := live a rfl
      rw [switchTo_ok moved same]
      rintro b ⟨⟩
      exact ⟨switched s.currTsk a t, List.mem_map_of_mem ht, hta⟩

end

/-- What is selected can still be run, and what is current is on the list. -/
structure Careful (m : Round) : Prop where
  selected : ∀ a, m.selected = some (some a) → Live m.module a
  current : OnHead m.module

theorem Careful.act {m m' : Round} {x : Act} (h : Careful m) (calm : Undisturbed m x)
    (acted : act m x = .ok m') : Careful m' := by
  cases x with
  | select =>
    cases acted
    refine ⟨fun a ha => ?_, h.current⟩
    obtain ⟨t, chosen, rfl⟩ := Option.map_eq_some_iff.mp (Option.some.inj ha)
    obtain ⟨hm, awake, _, _⟩ := (scan_spec m.module.head).1 t chosen
    exact ⟨t, hm, rfl, awake⟩
  | switch =>
    obtain ⟨s, moved, rfl⟩ := map_ok acted
    refine ⟨fun a ha => ?_, ?_⟩
    · cases ha
    · exact h.current.switchTo moved fun a ha => h.selected a (Option.join_eq_some_iff.mp ha)
  | event e =>
    obtain ⟨s, stepped, rfl⟩ := map_ok acted
    have eff := step_effect stepped
    exact ⟨fun a ha => (h.selected a ha).step (calm _ ha a rfl) eff, h.current.step eff⟩

/-- **Only live tasks are dispatched** in a run that leaves the selected entry alone until the
switch: then the entry a switch is about to run is on the list and awake, and `curr_tsk` never
leads to an entry that was freed. -/
theorem dispatched_live {j : Nat} {processes : Nat → Option Process} {xs : List Act} {m : Round}
    (run : Run act (fun m x => Enabled m x ∧ Undisturbed m x) (.init j processes) xs m) :
    (∀ a, m.selected = some (some a) →
      ∃ t ∈ m.module.head, t.addr = a ∧ t.state ≠ .sleeping) ∧
    (∀ a, m.module.currTsk = some a → ∃ t ∈ m.module.head, t.addr = a) := by
  have h : Careful m := by
    apply run.invariant (I := Careful)
    · exact ⟨by simp [Round.init], by simp [OnHead, Round.init, State.init]⟩
    · exact fun m x m' h allowed acted => h.act allowed.2 acted
  exact ⟨h.selected, h.current⟩

/-- Another task yields and its neighbour leaves while one is selected. -/
theorem dispatched_live_among_others :
    ∃ m : Round, m.selected = some (some 1) ∧ m.module.head.map Task.addr = [1] ∧
      (∃ t ∈ m.module.head, t.addr = 1 ∧ t.state ≠ .sleeping) ∧
      (∀ a, m.module.currTsk = some a → ∃ t ∈ m.module.head, t.addr = a) := by
  have selected : (replay act (fun m x => Enabled m x ∧ Undisturbed m x) (.init 1 fun _ => none)
      [.event (.fork 7), .event (.write (.text "R,7,100,1\n" 1)),
        .event (.write (.text "R,8,200,1\n" 2)), .event (.write (.text "Y,7\n" 3)), .select,
        .event (.write (.text "Y,8\n" 3)), .event (.write (.text "D,8\n" 3))]).map
      (fun m => (m.selected, m.module.head.map Task.addr)) = some (some (some 1), [1]) := by decide
  obtain ⟨m, run, hm⟩ := Option.map_eq_some_iff.mp selected
  simp only [Prod.mk.injEq] at hm
  have live := dispatched_live (.of_replay run)
  exact ⟨m, hm.1, hm.2, live.1 1 hm.1, live.2⟩

/-- The selected entry is freed before the switch, which follows the pointer all the same; or it
yields once more, and the switch runs an entry that sleeps. -/
theorem dispatched_stale :
    (∃ m, Run act Enabled (.init 1 fun _ => none)
      [.event (.fork 7), .event (.write (.text "R,7,100,1\n" 1)),
        .event (.write (.text "Y,7\n" 2)), .select, .event (.write (.text "D,7\n" 2))] m ∧
      m.selected = some (some 1) ∧ m.module.currTsk ≠ some 1 ∧ (∀ t ∈ m.module.head, t.addr ≠ 1) ∧
      act m .switch = .error .freedTask) ∧
    (∃ m m', Run act Enabled (.init 1 fun _ => none)
      [.event (.fork 7), .event (.write (.text "R,7,100,1\n" 1)),
        .event (.write (.text "Y,7\n" 2)), .select, .event (.write (.text "Y,7\n" 2))] m ∧
      m.module.head.map Task.state = [.sleeping] ∧ act m .switch = .ok m' ∧
      m'.module.currTsk = some 1 ∧ m'.module.head.map Task.state = [.running]) := by
  have freed : (replay act Enabled (.init 1 fun _ => none)
      [.event (.fork 7), .event (.write (.text "R,7,100,1\n" 1)),
        .event (.write (.text "Y,7\n" 2)), .select, .event (.write (.text "D,7\n" 2))]).map
      (fun m => (m.selected, m.module.currTsk, m.module.head)) =
      some (some (some 1), none, []) := by decide
  have slept : (replay act Enabled (.init 1 fun _ => none)
      [.event (.fork 7), .event (.write (.text "R,7,100,1\n" 1)),
        .event (.write (.text "Y,7\n" 2)), .select, .event (.write (.text "Y,7\n" 2))]).map
      (fun m => (m.module.head.map Task.state, (act m .switch).toOption.map fun m' =>
        (m'.module.currTsk, m'.module.head.map Task.state))) =
      some ([.sleeping], some (some 1, [.running])) := by decide
  constructor
  · obtain ⟨m, run, hm⟩ := Option.map_eq_some_iff.mp freed
    simp only [Prod.mk.injEq] at hm
    obtain ⟨selected, curr, head⟩ := hm
    refine ⟨m, .of_replay run, selected, by simp [curr], by simp [head], ?_⟩
    simp [act, selected, switchTo, curr, setNewTask, State.entry, head, bind, Except.bind,
      Except.map]
  · obtain ⟨m, run, hm⟩ := Option.map_eq_some_iff.mp slept
    simp only [Prod.mk.injEq] at hm
    obtain ⟨m', switched, hm'⟩ := Option.map_eq_some_iff.mp hm.2
    simp only [Prod.mk.injEq] at hm'
    exact ⟨m, m', .of_replay run, hm.1, ok_of_toOption switched, hm'.1, hm'.2⟩

end KernelModules.MP2.Select
