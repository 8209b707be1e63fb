import KernelModules.MP2.System

/-!
# What the module does to processes

`set_task_sleep` blocks a process and `set_new_task` wakes it and raises its priority; what the
module keeps of this is only in its entries. `dereg_entry` and `freeone` take an entry away and
leave its process as it is: blocked for good if nothing else wakes it, and with `SCHED_FIFO` if
it was current.
-/

namespace KernelModules.MP2

/-- Processes that the module has not touched. -/
def untouched (alive : Nat → Bool) (pid : Nat) : Option Process :=
  if alive pid then some ⟨.running, .normal⟩ else none

/-- `set_task_sleep` has put the process to sleep, and `set_new_task` has not woken it since. -/
def Blocked (s : State) (pid : Nat) : Prop :=
  (s.processes pid).map Process.state = some .uninterruptible

/-- The process has the policy that `set_new_task` gives. -/
def Urgent (s : State) (pid : Nat) : Prop :=
  (s.processes pid).map Process.policy = some (.fifo 99)

/-- The entry will lead to a switch to its process: its timer makes it ready, or it is. -/
def Wakes (t : Task) : Prop := (t.state = .sleeping ∧ t.tm ≠ none) ∨ t.state = .ready

instance (s : State) (pid : Nat) : Decidable (Blocked s pid) :=
  inferInstanceAs (Decidable (_ = _))

instance (s : State) (pid : Nat) : Decidable (Urgent s pid) :=
  inferInstanceAs (Decidable (_ = _))

instance (t : Task) : Decidable (Wakes t) :=
  inferInstanceAs (Decidable ((t.state = .sleeping ∧ t.tm ≠ none) ∨ t.state = .ready))

/-- The entry an event takes away, if it is a request to deregister one. -/
def Event.removes (e : Event) (s : State) : Option Task :=
  match e.request with
  | some (.deregister pid) => findByPid s pid
  | _ => none

/-! ## What an event does to entries and processes -/

def block (p : Process) : Process := { p with state := .uninterruptible }

/-- All that an event can do to the list of entries, to `curr_tsk` and to the processes. -/
inductive ProcessEffect (s : State) : Event → State → Prop
  | inPlace {e : Event} {s' : State} (f : Task → Task) (keeps : Keeps f)
      (patient : ∀ t, Wakes t → Wakes (f t)) (other : e.removes s = none)
      (head : s'.head = s.head.map f) (curr : s'.currTsk = s.currTsk)
      (processes : s'.processes = s.processes) : ProcessEffect s e s'
  | spawn {e : Event} {s' : State} (pid : Nat) (p : Option Process)
      (fresh : ∀ x ∈ p, x = ⟨.running, .normal⟩) (other : e.removes s = none)
      (head : s'.head = s.head) (curr : s'.currTsk = s.currTsk)
      (processes : s'.processes = (s.setProcess pid p).processes) : ProcessEffect s e s'
  | enroll {e : Event} {s' : State} (t : Task) (other : e.removes s = none)
      (head : s'.head = s.head ++ [t]) (curr : s'.currTsk = s.currTsk)
      (processes : s'.processes = s.processes) : ProcessEffect s e s'
  | remove {e : Event} {s' : State} (t : Task) (asked : e.removes s = some t) (ht : t ∈ s.head)
      (head : s'.head = s.head.eraseP fun x => decide (x.addr = t.addr))
      (curr : s'.currTsk = if s.currTsk = some t.addr then none else s.currTsk)
      (processes : s'.processes = s.processes) : ProcessEffect s e s'
  | suspend {e : Event} {s' : State} (t : Task) (p : Nat) (ht : t ∈ s.head)
      (tsk : t.tsk = some p) (other : e.removes s = none)
      (head : s'.head = updateAt t.addr suspended s.head)
      (curr : s'.currTsk = if s.currTsk = some t.addr then none else s.currTsk)
      (processes : s'.processes = touch (some p) block s.processes) : ProcessEffect s e s'
  | switch {s' : State} (next : Task) (hm : next ∈ s.head)
      (head : s'.head = s.head.map (switched s.currTsk next.addr))
      (curr : s'.currTsk = some next.addr)
      (processes : s'.processes = s.handover next.addr) : ProcessEffect s .dispatch s'

theorem ProcessEffect.unchanged {s s' : State} {e : Event} (other : e.removes s = none)
    (head : s'.head = s.head) (curr : s'.currTsk = s.currTsk)
    (processes : s'.processes = s.processes) : ProcessEffect s e s' :=
  .inPlace id (fun _ => ⟨rfl, rfl, rfl, rfl, rfl⟩) (fun _ h => h) other (by simpa using head) curr
    processes

theorem ProcessEffect.updated {s s' : State} {e : Event} {a : Addr} {f : Task → Task}
    (keeps : Keeps f) (patient : ∀ t, Wakes t → Wakes (f t)) (other : e.removes s = none)
    (head : s'.head = updateAt a f s.head) (curr : s'.currTsk = s.currTsk)
    (processes : s'.processes = s.processes) : ProcessEffect s e s' := by
  apply ProcessEffect.inPlace _ keeps.updateAt _ other head curr processes
  intro t ht
  by_cases ha : t.addr = a
  · simpa [ha] using patient t ht
  · simpa [ha] using ht

theorem mywrite_processEffect {s s' : State} {w : Write} (h : mywrite s w = .ok s') :
    ProcessEffect s (.write w) s' := by
  obtain ⟨rfl, _, missing⟩ | ⟨pid, period, computation, asked, _, rfl⟩ | ⟨pid, asked, yielded⟩ |
    ⟨pid, t, asked, found, rfl⟩ := mywrite_cases h
  · refine .unchanged ?_ rfl rfl rfl
    unfold Event.removes
    split
    · exact missing _ ‹_›
    · rfl
  · exact .enroll _ (by simp [Event.removes, Event.request, asked]) rfl rfl rfl
  · have other : (Event.write w).removes s = none := by simp [Event.removes, Event.request, asked]
    obtain ⟨t, found, ⟨_, rfl⟩ | ⟨_, _, rfl⟩ | ⟨_, _, p, tsk, rfl⟩⟩ := yieldEntry_cases yielded
    · exact .updated (activated_keeps _) (fun _ _ => .inr rfl) other rfl rfl rfl
    · exact .updated advanced_keeps (fun _ ht => ht) other rfl rfl rfl
    · exact .suspend t p (findByPid_mem found) tsk other rfl rfl rfl
  · exact .remove t (by simp [Event.removes, Event.request, asked, found]) (findByPid_mem found)
      rfl rfl rfl

theorem expired_patient (t : Task) (h : Wakes t) : Wakes (expired t) := by
  rcases h with ⟨sleeping, _⟩ | ready
  · exact .inr (by simp [expired, sleeping])
  · exact .inr (by simp [expired, ready])

theorem step_processEffect {s s' : State} {e : Event} (h : step s e = .ok s') :
    ProcessEffect s e s' := by
  cases e with
  | write w => exact mywrite_processEffect h
  | expire a =>
    cases h
    exact .updated expired_keeps expired_patient rfl (expire_head s a) rfl rfl
  | dispatch =>
    obtain ⟨rfl, _⟩ | ⟨next, chosen, _, rfl⟩ := dispatchRound_cases h
    · exact .unchanged rfl rfl rfl rfl
    · exact .switch next ((scan_spec s.head).1 next chosen).1 rfl rfl rfl
  | tick => cases h; exact .unchanged rfl rfl rfl rfl
  | fork pid => cases h; exact .spawn pid _ (by simp) rfl rfl rfl rfl
  | exit pid => cases h; exact .spawn pid none (by simp) rfl rfl rfl rfl

theorem blocked_congr {s s' : State} (processes : s'.processes = s.processes) (pid : Nat) :
    Blocked s' pid ↔ Blocked s pid := by
  simp [Blocked, processes]

theorem urgent_congr {s s' : State} (processes : s'.processes = s.processes) (pid : Nat) :
    Urgent s' pid ↔ Urgent s pid := by
  simp [Urgent, processes]

theorem blocked_touch_block {s s' : State} {p pid : Nat}
    (processes : s'.processes = touch (some p) block s.processes) (h : Blocked s' pid) :
    pid = p ∨ Blocked s pid := by
  by_cases hp : pid = p
  · exact .inl hp
  · refine .inr ?_
    simpa [Blocked, processes, touch, hp] using h

/-- After a switch a process is the one switched to, or what it was before but for the
priority of the one switched from. -/
theorem handover_cases {s : State} {next : Addr} {pid : Nat} {p : Process}
    (h : s.handover next pid = some p) :
    (s.tskAt next = some pid ∧ p = ⟨.running, .fifo 99⟩) ∨
    (s.tskAt next ≠ some pid ∧ ∃ q, s.processes pid = some q ∧
      p = if s.currTsk.bind s.tskAt = some pid then demote q else q) := by
  have touched {tsk : Option Nat} {f : Process → Process} {processes : Nat → Option Process}
      {p : Process} (h : touch tsk f processes pid = some p) :
      ∃ q, processes pid = some q ∧ p = if tsk = some pid then f q else q := by
    cases tsk with
    | none => exact ⟨p, h, by simp⟩
    | some r =>
      by_cases hr : pid = r
      · subst hr
        obtain ⟨q, hq, rfl⟩ := Option.map_eq_some_iff.mp (by simpa [touch] using h)
        exact ⟨q, hq, by simp⟩
      · exact ⟨p, by simpa [touch, hr] using h, by simp [Ne.symm hr]⟩
  obtain ⟨q, hq, rfl⟩ := touched h
  obtain ⟨r, hr, rfl⟩ := touched hq
  by_cases hn : s.tskAt next = some pid
  · exact .inl ⟨hn, by simp [hn, promote]⟩
  · exact .inr ⟨hn, r, hr, by simp [hn]⟩

theorem Unique.tskAt {s : State} (h : Unique s) {t : Task} (ht : t ∈ s.head) :
    s.tskAt t.addr = t.tsk := by
  rw [State.tskAt, h.entry ht, Option.bind_some]

/-! ## Blocked processes are woken -/

/-- Every blocked process has an entry on the list that will wake it. -/
def Awaited (s : State) : Prop := ∀ pid, Blocked s pid → ∃ t ∈ s.head, t.tsk = some pid ∧ Wakes t

/-- Without the entry `t` its process, if blocked, has another that will wake it. -/
def Spared (s : State) (t : Task) : Prop :=
  ∀ pid ∈ t.tsk, Blocked s pid → ∃ u ∈ s.head, u.addr ≠ t.addr ∧ u.tsk = some pid ∧ Wakes u

instance (s : State) (t : Task) : Decidable (Spared s t) :=
  inferInstanceAs (Decidable (∀ pid ∈ t.tsk, Blocked s pid →
    ∃ u ∈ s.head, u.addr ≠ t.addr ∧ u.tsk = some pid ∧ Wakes u))

theorem Awaited.remove_iff {s s' : State} (h : Awaited s) (unique : Unique s) {t : Task}
    (ht : t ∈ s.head) (head : s'.head = s.head.eraseP fun x => decide (x.addr = t.addr))
    (processes : s'.processes = s.processes) : Awaited s' ↔ Spared s t := by
  have same := blocked_congr processes
  constructor
  · intro awaited pid _ blocked
    obtain ⟨u, hu, tsk, wakes⟩ := awaited pid ((same pid).mpr blocked)
    rw [head] at hu
    obtain ⟨hu, other⟩ := unique.erased hu
    exact ⟨u, hu, other, tsk, wakes⟩
  · intro spared pid blocked
    obtain ⟨u, hu, tsk, wakes⟩ := h pid ((same pid).mp blocked)
    by_cases hut : u.addr = t.addr
    · rw [unique.eq hu ht hut] at tsk
      obtain ⟨v, hv, other, rest⟩ := spared pid tsk ((same pid).mp blocked)
      exact ⟨v, head ▸ erase_mem hv other, rest⟩
    · exact ⟨u, head ▸ erase_mem hu hut, tsk, wakes⟩

theorem Awaited.switch {s s' : State} (h : Awaited s) (unique : Unique s) {next : Task}
    (head : s'.head = s.head.map (switched s.currTsk next.addr))
    (processes : s'.processes = s.handover next.addr) : Awaited s' := by
  intro pid blocked
  obtain ⟨p, hp, asleep⟩ := Option.map_eq_some_iff.mp blocked
  rw [processes] at hp
  obtain ⟨_, rfl⟩ | ⟨other, q, hq, rfl⟩ := handover_cases hp
  · cases asleep
  · have before : Blocked s pid := by
      rw [Blocked, hq, Option.map_some, ← asleep]
      by_cases hc : s.currTsk.bind s.tskAt = some pid <;> simp [hc, demote]
    obtain ⟨t, ht, tsk, wakes⟩ := h pid before
    have hn : t.addr ≠ next.addr := fun same => other (by rw [← same, unique.tskAt ht, tsk])
    refine ⟨switched s.currTsk next.addr t, head ▸ List.mem_map_of_mem ht, tsk, ?_⟩
    -- an entry that waits is not running, so the switch leaves its state alone
    rcases wakes with ⟨sleeping, armed⟩ | ready
    · exact .inl ⟨by simp [switched, hn, sleeping], armed⟩
    · exact .inr (by simp [switched, hn, ready])

/-- Only taking an entry away can strand a process. -/
theorem Awaited.step_iff {s s' : State} {e : Event} (h : Awaited s) (unique : Unique s)
    (eff : ProcessEffect s e s') : Awaited s' ↔ ∀ t ∈ e.removes s, Spared s t := by
  cases eff with
  | inPlace f keeps patient other head _ processes =>
    refine iff_of_true (fun pid blocked => ?_) (by simp [other])
    obtain ⟨t, ht, tsk, wakes⟩ := h pid ((blocked_congr processes pid).mp blocked)
    exact ⟨f t, head ▸ List.mem_map_of_mem ht, by rw [(keeps t).2.2.1, tsk], patient t wakes⟩
  | spawn p x fresh other head _ processes =>
    refine iff_of_true (fun pid blocked => ?_) (by simp [other])
    rw [Blocked, processes, State.setProcess] at blocked
    rw [head]
    by_cases hp : pid = p
    · simp only [hp, ↓reduceIte, Option.map_eq_some_iff] at blocked
      obtain ⟨y, hy, asleep⟩ := blocked
      rw [fresh y hy] at asleep
      cases asleep
    · simp only [hp, ↓reduceIte] at blocked
      exact h pid blocked
  | enroll t other head _ processes =>
    refine iff_of_true (fun pid blocked => ?_) (by simp [other])
    obtain ⟨t, ht, rest⟩ := h pid ((blocked_congr processes pid).mp blocked)
    exact ⟨t, head ▸ List.mem_append_left _ ht, rest⟩
  | remove t asked ht head _ processes =>
    simpa [asked] using h.remove_iff unique ht head processes
  | suspend t p ht tsk other head _ processes =>
    refine iff_of_true (fun pid blocked => ?_) (by simp [other])
    have member {u : Task} (hu : u ∈ s.head) :
        (if u.addr = t.addr then suspended u else u) ∈ s'.head := head ▸ List.mem_map_of_mem hu
    rcases blocked_touch_block processes blocked with rfl | blocked
    · have ht := member ht
      rw [if_pos rfl] at ht
      exact ⟨_, ht, tsk, .inl ⟨rfl, by simp [suspended]⟩⟩
    · obtain ⟨u, hu, tsk, wakes⟩ := h pid blocked
      refine ⟨_, member hu, ?_⟩
      by_cases hut : u.addr = t.addr
      · rw [if_pos hut]
        exact ⟨tsk, .inl ⟨rfl, by simp [suspended]⟩⟩
      · rw [if_neg hut]
        exact ⟨tsk, wakes⟩
  | switch next _ head _ processes =>
    exact iff_of_true (h.switch unique head processes) (by simp [Event.removes, Event.request])

/-- Every entry goes, with its timer. -/
def freeall (s : State) : State :=
  s.head.foldl (fun s itr => freeone s itr.addr) { s with currTsk := none }

theorem freeall_fold (ts : List Task) (s : State) (head : s.head = ts) :
    ts.foldl (fun s itr => freeone s itr.addr) s = { s with head := [] } := by
  induction ts generalizing s with
  | nil => rw [List.foldl_nil, ← head]
  | cons t ts ih =>
    have rest : (freeone s t.addr).head = ts := by simp [freeone, head]
    rw [List.foldl_cons, ih _ rest]
    rfl

theorem freeall_eq (s : State) : freeall s = { s with head := [], currTsk := none } :=
  freeall_fold s.head _ rfl

/-- The module from `mp2_init` to `mp2_exit` and after. -/
structure Life where
  module : State
  loaded : Bool

inductive Op
  | event (e : Event)
  /-- `mp2_exit`: the file goes, `freeall` runs, the dispatcher is stopped. -/
  | unload
  deriving DecidableEq, Repr

def Life.step (m : Life) : Op → Except Fault Life
  | .event e => (MP2.step m.module e).map fun s => { m with module := s }
  | .unload => .ok ⟨freeall m.module, false⟩

/-- Requests arrive only while the file is there. -/
def Life.Enabled (m : Life) : Op → Prop
  | .event e => Possible m.module e ∧ (m.loaded = true ∨ e.request = none)
  | .unload => m.loaded = true

instance Life.decidableEnabled (m : Life) (o : Op) : Decidable (m.Enabled o) :=
  match o with
  | .event e =>
    inferInstanceAs (Decidable (Possible m.module e ∧ (m.loaded = true ∨ e.request = none)))
  | .unload => inferInstanceAs (Decidable (m.loaded = true))

/-- No deregistration takes the last entry that will wake a blocked process, and the module is
not unloaded while the process of an entry is blocked. -/
def Life.Spares (m : Life) : Op → Prop
  | .event e => ∀ t ∈ e.removes m.module, Spared m.module t
  | .unload => ∀ t ∈ m.module.head, ∀ pid ∈ t.tsk, ¬ Blocked m.module pid

instance Life.decidableSpares (m : Life) (o : Op) : Decidable (m.Spares o) :=
  match o with
  | .event e => inferInstanceAs (Decidable (∀ t ∈ e.removes m.module, Spared m.module t))
  | .unload =>
    inferInstanceAs (Decidable (∀ t ∈ m.module.head, ∀ pid ∈ t.tsk, ¬ Blocked m.module pid))

def Life.init (jiffies : Nat) (alive : Nat → Bool) : Life :=
  ⟨.init jiffies (untouched alive), true⟩

theorem untouched_running {alive : Nat → Bool} {pid : Nat} {p : Process}
    (h : untouched alive pid = some p) : p = ⟨.running, .normal⟩ := by
  unfold untouched at h
  split at h
  · exact (Option.some.inj h).symm
  · cases h

theorem Awaited.unload_iff {s : State} (h : Awaited s) :
    Awaited (freeall s) ↔ ∀ t ∈ s.head, ∀ pid ∈ t.tsk, ¬ Blocked s pid := by
  rw [freeall_eq]
  constructor
  · intro awaited t _ pid _ blocked
    obtain ⟨u, hu, _⟩ := awaited pid blocked
    cases hu
  · intro free pid blocked
    obtain ⟨t, ht, tsk, _⟩ := h pid blocked
    exact absurd blocked (free t ht pid tsk)

theorem Life.awaited_step_iff {m m' : Life} {o : Op} (unique : Unique m.module)
    (h : Awaited m.module) (stepped : m.step o = .ok m') : Awaited m'.module ↔ m.Spares o := by
  cases o with
  | event e =>
    obtain ⟨s, moved, rfl⟩ := map_ok stepped
    exact h.step_iff unique (step_processEffect moved)
  | unload =>
    cases stepped
    exact h.unload_iff

theorem Life.unique_step {m m' : Life} {o : Op} (unique : Unique m.module)
    (enabled : m.Enabled o) (stepped : m.step o = .ok m') : Unique m'.module := by
  cases o with
  | event e =>
    obtain ⟨s, moved, rfl⟩ := map_ok stepped
    exact unique.step enabled.1 (step_effect moved)
  | unload =>
    cases stepped
    rw [freeall_eq]
    exact List.nodup_nil

/-- **No process is stranded.** As long as no step strands one, every blocked process has an
entry that will wake it; the first step that does strand one leaves a process without. -/
theorem awaited_while_spared {j : Nat} {alive : Nat → Bool} {os : List Op} {m : Life}
    (run : Run Life.step (fun m o => m.Enabled o ∧ m.Spares o) (.init j alive) os m) :
    Awaited m.module ∧ ∀ o m', m.step o = .ok m' → (Awaited m'.module ↔ m.Spares o) := by
  have h : Unique m.module ∧ Awaited m.module := by
    apply run.invariant (I := fun m => Unique m.module ∧ Awaited m.module)
    · refine ⟨List.nodup_nil, fun pid blocked => ?_⟩
      obtain ⟨p, hp, asleep⟩ := Option.map_eq_some_iff.mp blocked
      rw [untouched_running hp] at asleep
      cases asleep
    · rintro m o m' ⟨unique, awaited⟩ ⟨enabled, spares⟩ stepped
      exact ⟨Life.unique_step unique enabled stepped,
        (Life.awaited_step_iff unique awaited stepped).mpr spares⟩
  exact ⟨h.2, fun o m' stepped => Life.awaited_step_iff h.1 h.2 stepped⟩

/-- A task yields, is run, yields before its next period has begun and so is put to sleep, and
is woken when its timer has expired; then its process deregisters it and the module goes. -/
theorem awaited_while_spared_woken :
    ∃ m : Life, m.module.head = [] ∧ m.loaded = false ∧ Awaited m.module ∧
      ∀ o m', m.step o = .ok m' → (Awaited m'.module ↔ m.Spares o) := by
  have ends : (replay Life.step (fun m o => m.Enabled o ∧ m.Spares o) (.init 1 fun _ => false)
      [.event (.fork 7), .event (.write (.text "R,7,100,1\n" 1)),
        .event (.write (.text "Y,7\n" 2)), .event .dispatch, .event (.write (.text "Y,7\n" 2)),
        .event (.expire 1), .event .dispatch, .event (.write (.text "D,7\n" 2)), .unload]).map
      (fun m => (m.module.head, m.loaded)) = some ([], false) := by decide
  obtain ⟨m, run, hm⟩ := Option.map_eq_some_iff.mp ends
  simp only [Prod.mk.injEq] at hm
  exact ⟨m, hm.1, hm.2, awaited_while_spared (.of_replay run)⟩

/-- Deregistered while it sleeps, or when the module goes, a process has nothing left that
would wake it. -/
theorem stranded :
    ∃ m : Life, Run Life.step Life.Enabled (.init 1 fun _ => false)
        [.event (.fork 7), .event (.write (.text "R,7,100,1\n" 1)),
          .event (.write (.text "Y,7\n" 2)), .event .dispatch,
          .event (.write (.text "Y,7\n" 2))] m ∧
      ∀ o ∈ [Op.event (.write (.text "D,7\n" 2)), Op.unload], m.Enabled o ∧
        ∃ m', m.step o = .ok m' ∧ Blocked m'.module 7 ∧ m'.module.head = [] ∧
          ¬ Awaited m'.module := by
  have asleep : (replay Life.step Life.Enabled (.init 1 fun _ => false)
      [.event (.fork 7), .event (.write (.text "R,7,100,1\n" 1)),
        .event (.write (.text "Y,7\n" 2)), .event .dispatch,
        .event (.write (.text "Y,7\n" 2))]).map
      (fun m => [Op.event (.write (.text "D,7\n" 2)), Op.unload].map fun o =>
        (decide (m.Enabled o), (m.step o).toOption.map fun m' =>
          (decide (Blocked m'.module 7), m'.module.head))) =
      some [(true, some (true, [])), (true, some (true, []))] := by decide
  obtain ⟨m, run, hm⟩ := Option.map_eq_some_iff.mp asleep
  refine ⟨m, .of_replay run, fun o ho => ?_⟩
  have result := List.mem_map_of_mem (f := fun o => (decide (m.Enabled o),
    (m.step o).toOption.map fun m' => (decide (Blocked m'.module 7), m'.module.head))) ho
  rw [hm] at result
  simp only [List.mem_cons, List.not_mem_nil, or_false, or_self, Prod.mk.injEq,
    decide_eq_true_eq] at result
  obtain ⟨enabled, after⟩ := result
  obtain ⟨m', stepped, hm'⟩ := Option.map_eq_some_iff.mp after
  simp only [Prod.mk.injEq, decide_eq_true_eq] at hm'
  obtain ⟨blocked, empty⟩ := hm'
  refine ⟨enabled, m', ok_of_toOption stepped, blocked, empty, fun awaited => ?_⟩
  obtain ⟨t, ht, _⟩ := awaited 7 blocked
  rw [empty] at ht
  cases ht

/-! ## Real-time priority is exclusive -/

/-- A process with real-time priority that can run is that of the current task, and every
process that has the priority has an entry on the list. -/
structure Exclusive (s : State) : Prop where
  current : ∀ pid, Urgent s pid → ¬ Blocked s pid →
    ∃ t ∈ s.head, s.currTsk = some t.addr ∧ t.tsk = some pid
  listed : ∀ pid, Urgent s pid → ∃ t ∈ s.head, t.tsk = some pid

/-- The process of `t` does not have real-time priority, or it has another entry and `t` is not
the one that lets it run. -/
def Relinquished (s : State) (t : Task) : Prop :=
  ∀ pid ∈ t.tsk, Urgent s pid → (s.currTsk = some t.addr → Blocked s pid) ∧
    ∃ u ∈ s.head, u.addr ≠ t.addr ∧ u.tsk = some pid

/-- An entry that a deregistration takes away is relinquished. -/
def Relinquishes (s : State) (e : Event) : Prop := ∀ t ∈ e.removes s, Relinquished s t

instance (s : State) (e : Event) : Decidable (Relinquishes s e) :=
  inferInstanceAs (Decidable (∀ t ∈ e.removes s, ∀ pid ∈ t.tsk, Urgent s pid →
    (s.currTsk = some t.addr → Blocked s pid) ∧
      ∃ u ∈ s.head, u.addr ≠ t.addr ∧ u.tsk = some pid))

/-- What keeps the processes and the current task keeps the priorities exclusive if each entry
still has a counterpart on the list. -/
theorem Exclusive.transfer {s s' : State} (h : Exclusive s)
    (member : ∀ t ∈ s.head, ∃ u ∈ s'.head, u.addr = t.addr ∧ u.tsk = t.tsk)
    (curr : s'.currTsk = s.currTsk) {pid : Nat} (urgent : Urgent s pid) :
    (¬ Blocked s pid → ∃ t ∈ s'.head, s'.currTsk = some t.addr ∧ t.tsk = some pid) ∧
    ∃ t ∈ s'.head, t.tsk = some pid := by
  constructor
  · intro free
    obtain ⟨t, ht, current, tsk⟩ := h.current pid urgent free
    obtain ⟨u, hu, addr, same⟩ := member t ht
    exact ⟨u, hu, by rw [curr, current, addr], by rw [same, tsk]⟩
  · obtain ⟨t, ht, tsk⟩ := h.listed pid urgent
    obtain ⟨u, hu, _, same⟩ := member t ht
    exact ⟨u, hu, by rw [same, tsk]⟩

theorem Exclusive.kept {s s' : State} (h : Exclusive s)
    (member : ∀ t ∈ s.head, ∃ u ∈ s'.head, u.addr = t.addr ∧ u.tsk = t.tsk)
    (curr : s'.currTsk = s.currTsk) (processes : s'.processes = s.processes) : Exclusive s' := by
  have urgent := urgent_congr processes
  have blocked := blocked_congr processes
  constructor
  · intro pid hu hb
    exact (h.transfer member curr ((urgent pid).mp hu)).1 fun b => hb ((blocked pid).mpr b)
  · intro pid hu
    exact (h.transfer member curr ((urgent pid).mp hu)).2

theorem Exclusive.spawn {s s' : State} (h : Exclusive s) {p : Nat} {x : Option Process}
    (fresh : ∀ y ∈ x, y = ⟨.running, .normal⟩) (head : s'.head = s.head)
    (curr : s'.currTsk = s.currTsk) (processes : s'.processes = (s.setProcess p x).processes) :
    Exclusive s' := by
  have other {pid : Nat} (urgent : Urgent s' pid) : s'.processes pid = s.processes pid := by
    rw [processes, State.setProcess]
    refine if_neg fun hp => ?_
    obtain ⟨y, hy, policy⟩ := Option.map_eq_some_iff.mp urgent
    rw [processes, State.setProcess] at hy
    simp only [hp, ↓reduceIte] at hy
    rw [fresh y hy] at policy
    cases policy
  have member : ∀ t ∈ s.head, ∃ u ∈ s'.head, u.addr = t.addr ∧ u.tsk = t.tsk :=
    fun t ht => ⟨t, head ▸ ht, rfl, rfl⟩
  constructor
  · intro pid urgent free
    have same := other urgent
    rw [Urgent, same] at urgent
    rw [Blocked, same] at free
    exact (h.transfer member curr urgent).1 free
  · intro pid urgent
    rw [Urgent, other urgent] at urgent
    exact (h.transfer member curr urgent).2

theorem Exclusive.suspend {s s' : State} (h : Exclusive s) (unique : Unique s) {t : Task} {p : Nat}
    (ht : t ∈ s.head) (tsk : t.tsk = some p) (head : s'.head = updateAt t.addr suspended s.head)
    (curr : s'.currTsk = if s.currTsk = some t.addr then none else s.currTsk)
    (processes : s'.processes = touch (some p) block s.processes) : Exclusive s' := by
  have before {pid : Nat} (urgent : Urgent s' pid) : Urgent s pid := by
    rw [Urgent, processes] at urgent
    by_cases hp : pid = p
    · simpa [Urgent, touch, hp, Function.comp_def, block] using urgent
    · simpa [Urgent, touch, hp] using urgent
  have member {u : Task} (hu : u ∈ s.head) :
      (if u.addr = t.addr then suspended u else u) ∈ s'.head := head ▸ List.mem_map_of_mem hu
  constructor
  · intro pid urgent free
    -- what is not blocked afterwards is not the process just put to sleep
    have differs : pid ≠ p := by
      rintro rfl
      obtain ⟨x, hx, _⟩ := Option.map_eq_some_iff.mp (before urgent)
      exact free (by simp [Blocked, processes, touch, hx, block])
    have free' : ¬ Blocked s pid := by simpa [Blocked, processes, touch, differs] using free
    obtain ⟨u, hu, current, tsk'⟩ := h.current pid (before urgent) free'
    have hut : u.addr ≠ t.addr := by
      intro same
      rw [unique.eq hu ht same, tsk] at tsk'
      exact differs (Option.some.inj tsk').symm
    refine ⟨u, by simpa [hut] using member hu, ?_, tsk'⟩
    rw [curr, if_neg (by simpa [current] using hut), current]
  · intro pid urgent
    obtain ⟨u, hu, tsk'⟩ := h.listed pid (before urgent)
    refine ⟨_, member hu, ?_⟩
    rw [(suspended_keeps.updateAt u).2.2.1, tsk']

theorem Exclusive.switch {s s' : State} (h : Exclusive s) (unique : Unique s) {next : Task}
    (hm : next ∈ s.head) (head : s'.head = s.head.map (switched s.currTsk next.addr))
    (curr : s'.currTsk = some next.addr) (processes : s'.processes = s.handover next.addr) :
    Exclusive s' := by
  have urgent_cases {pid : Nat} (urgent : Urgent s' pid) :
      next.tsk = some pid ∨ (Urgent s pid ∧ s.currTsk.bind s.tskAt ≠ some pid ∧
        (Blocked s pid → Blocked s' pid)) := by
    obtain ⟨p, hp, policy⟩ := Option.map_eq_some_iff.mp urgent
    have hp' := hp
    rw [processes] at hp'
    obtain ⟨tsk, _⟩ | ⟨_, q, hq, rfl⟩ := handover_cases hp'
    · exact .inl (unique.tskAt hm ▸ tsk)
    · by_cases hc : s.currTsk.bind s.tskAt = some pid
      · simp [hc, demote] at policy
      · simp only [hc, ↓reduceIte] at policy hp
        exact .inr ⟨by simp [Urgent, hq, policy], hc, by simp [Blocked, hq, hp]⟩
  have switched_next : ∃ t ∈ s'.head, s'.currTsk = some t.addr ∧ t.tsk = next.tsk :=
    ⟨switched s.currTsk next.addr next, head ▸ List.mem_map_of_mem hm, curr, rfl⟩
  constructor
  · intro pid urgent free
    rcases urgent_cases urgent with tsk | ⟨before, old, blocked⟩
    · exact tsk ▸ switched_next
    · obtain ⟨t, ht, current, tsk⟩ := h.current pid before fun b => free (blocked b)
      exact absurd (by rw [current, Option.bind_some, unique.tskAt ht, tsk]) old
  · intro pid urgent
    rcases urgent_cases urgent with tsk | ⟨before, _⟩
    · obtain ⟨t, ht, _, same⟩ := switched_next
      exact ⟨t, ht, same.trans tsk⟩
    · obtain ⟨t, ht, tsk⟩ := h.listed pid before
      exact ⟨switched s.currTsk next.addr t, head ▸ List.mem_map_of_mem ht, tsk⟩

theorem Exclusive.remove_iff {s s' : State} (h : Exclusive s) (unique : Unique s) {t : Task}
    (ht : t ∈ s.head) (head : s'.head = s.head.eraseP fun x => decide (x.addr = t.addr))
    (curr : s'.currTsk = if s.currTsk = some t.addr then none else s.currTsk)
    (processes : s'.processes = s.processes) : Exclusive s' ↔ Relinquished s t := by
  have same_urgent := urgent_congr processes
  have same_blocked := blocked_congr processes
  constructor
  · intro exclusive pid _ urgent
    have urgent' := (same_urgent pid).mpr urgent
    constructor
    · intro current
      by_contra free
      obtain ⟨u, _, current', _⟩ :=
        exclusive.current pid urgent' fun b => free ((same_blocked pid).mp b)
      rw [curr, if_pos current] at current'
      cases current'
    · obtain ⟨u, hu, tsk⟩ := exclusive.listed pid urgent'
      rw [head] at hu
      obtain ⟨hu, other⟩ := unique.erased hu
      exact ⟨u, hu, other, tsk⟩
  · intro relinquished
    constructor
    · intro pid urgent free
      rw [same_urgent] at urgent
      rw [same_blocked] at free
      obtain ⟨u, hu, current, tsk⟩ := h.current pid urgent free
      have hut : u.addr ≠ t.addr := by
        intro same
        rw [unique.eq hu ht same] at tsk current
        exact free ((relinquished pid tsk urgent).1 current)
      refine ⟨u, head ▸ erase_mem hu hut, ?_, tsk⟩
      rw [curr, if_neg (by simpa [current] using hut), current]
    · intro pid urgent
      rw [same_urgent] at urgent
      obtain ⟨u, hu, tsk⟩ := h.listed pid urgent
      by_cases hut : u.addr = t.addr
      · rw [unique.eq hu ht hut] at tsk
        obtain ⟨_, v, hv, other, tsk'⟩ := relinquished pid tsk urgent
        exact ⟨v, head ▸ erase_mem hv other, tsk'⟩
      · exact ⟨u, head ▸ erase_mem hu hut, tsk⟩

/-- Only taking an entry away can leave a process with a priority it no longer has a task for. -/
theorem Exclusive.step_iff {s s' : State} {e : Event} (h : Exclusive s) (unique : Unique s)
    (eff : ProcessEffect s e s') : Exclusive s' ↔ Relinquishes s e := by
  cases eff with
  | inPlace f keeps _ other head curr processes =>
    refine iff_of_true (h.kept (fun t ht => ?_) curr processes) (by simp [Relinquishes, other])
    exact ⟨f t, head ▸ List.mem_map_of_mem ht, (keeps t).1, (keeps t).2.2.1⟩
  | spawn p x fresh other head curr processes =>
    exact iff_of_true (h.spawn fresh head curr processes) (by simp [Relinquishes, other])
  | enroll t other head curr processes =>
    refine iff_of_true (h.kept (fun u hu => ?_) curr processes) (by simp [Relinquishes, other])
    exact ⟨u, head ▸ List.mem_append_left _ hu, rfl, rfl⟩
  | remove t asked ht head curr processes =>
    simpa [Relinquishes, asked] using h.remove_iff unique ht head curr processes
  | suspend t p ht tsk other head curr processes =>
    exact iff_of_true (h.suspend unique ht tsk head curr processes) (by simp [Relinquishes, other])
  | switch next hm head curr processes =>
    exact iff_of_true (h.switch unique hm head curr processes)
      (by simp [Relinquishes, Event.removes, Event.request])

/-- **Real-time priority is exclusive.** As long as deregistrations take away only relinquished
entries, only the process of the current task runs with it; the first that takes another leaves
a process with the priority and without the task. -/
theorem exclusive_while_relinquished {j : Nat} {alive : Nat → Bool} {es : List Event} {s : State}
    (run : Reaches (fun s e => Possible s e ∧ Relinquishes s e) j (untouched alive) es s) :
    Exclusive s ∧ ∀ e s', step s e = .ok s' → (Exclusive s' ↔ Relinquishes s e) := by
  have h : Unique s ∧ Exclusive s := by
    apply run.invariant (I := fun s => Unique s ∧ Exclusive s)
    · have normal (pid : Nat) : ¬ Urgent (State.init j (untouched alive)) pid := by
        intro urgent
        obtain ⟨p, hp, policy⟩ := Option.map_eq_some_iff.mp urgent
        rw [untouched_running hp] at policy
        cases policy
      exact ⟨List.nodup_nil, fun pid urgent => absurd urgent (normal pid),
        fun pid urgent => absurd urgent (normal pid)⟩
    · rintro s e s' ⟨unique, exclusive⟩ ⟨possible, relinquishes⟩ stepped
      exact ⟨unique.step possible (step_effect stepped),
        (exclusive.step_iff unique (step_processEffect stepped)).mpr relinquishes⟩
  exact ⟨h.2, fun e s' stepped => h.2.step_iff h.1 (step_processEffect stepped)⟩

/-- Of two tasks the one with the shorter period sleeps, the other is run, is preempted when the
first is back, and is deregistered then. -/
theorem exclusive_while_relinquished_preempted :
    ∃ s : State, s.currTsk = some 1 ∧ Urgent s 7 ∧ Exclusive s ∧
      ∀ e s', step s e = .ok s' → (Exclusive s' ↔ Relinquishes s e) := by
  have ends : (replay step (fun s e => Possible s e ∧ Relinquishes s e)
      (.init 1 (untouched fun pid => pid == 7 || pid == 8))
      [.write (.text "R,7,100,1\n" 1), .write (.text "R,8,200,1\n" 2), .write (.text "Y,7\n" 3),
        .write (.text "Y,8\n" 3), .dispatch, .write (.text "Y,7\n" 3), .dispatch, .expire 1,
        .dispatch, .write (.text "D,8\n" 3)]).map
      (fun s => (s.currTsk, decide (Urgent s 7))) = some (some 1, true) := by decide
  obtain ⟨s, run, hs⟩ := Option.map_eq_some_iff.mp ends
  simp only [Prod.mk.injEq, decide_eq_true_eq] at hs
  exact ⟨s, hs.1, hs.2, exclusive_while_relinquished (.of_replay run)⟩

/-- A task that deregisters while it is current leaves its process with real-time priority. -/
theorem priority_left_behind :
    ∃ s s' : State, Reaches Possible 1 (untouched fun pid => pid == 7)
        [.write (.text "R,7,100,1\n" 1), .write (.text "Y,7\n" 2), .dispatch] s ∧
      step s (.write (.text "D,7\n" 2)) = .ok s' ∧ Urgent s' 7 ∧ ¬ Blocked s' 7 ∧
      s'.currTsk = none ∧ s'.head = [] ∧ ¬ Exclusive s' := by
  have left : (replay step Possible (.init 1 (untouched fun pid => pid == 7))
      [.write (.text "R,7,100,1\n" 1), .write (.text "Y,7\n" 2), .dispatch]).map
      (fun s => (step s (.write (.text "D,7\n" 2))).toOption.map fun s' =>
        (decide (Urgent s' 7), decide (Blocked s' 7), s'.currTsk, s'.head)) =
      some (some (true, false, none, [])) := by decide
  obtain ⟨s, run, after⟩ := Option.map_eq_some_iff.mp left
  obtain ⟨s', stepped, hs'⟩ := Option.map_eq_some_iff.mp after
  simp only [Prod.mk.injEq, decide_eq_true_eq, decide_eq_false_iff_not] at hs'
  obtain ⟨urgent, free, curr, head⟩ := hs'
  refine ⟨s, s', .of_replay run, ok_of_toOption stepped, urgent, free, curr, head, ?_⟩
  intro exclusive
  obtain ⟨t, ht, _⟩ := exclusive.listed 7 urgent
  rw [head] at ht
  cases ht

end KernelModules.MP2
