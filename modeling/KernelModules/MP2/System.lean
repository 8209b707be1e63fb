import KernelModules.Lib.Run
import KernelModules.MP2.Write

/-!
# The module as a system

The timer callback, the dispatcher and the events that drive the module: writes, timer
expirations, dispatcher rounds, the clock, and processes that come and go. `step_effect` says
once all that an event can do to the list of entries and to `curr_tsk`.
-/

namespace KernelModules.MP2

/-- Runs with the timer no longer pending. -/
def tmCallback (s : State) (data : Addr) : State :=
  (s.update data fun t =>
    if t.state = .sleeping then { t with state := .ready } else t).wakeDispatcher

def setNewTask (s : State) (tsk : Addr) : Except Fault State :=
  match s.entry tsk with
  | none => .error .freedTask
  | some t => do
    let s ← wakeUpProcess s t.tsk
    let s := s.update tsk fun t => { t with state := .running }
    let s ← schedSetscheduler s t.tsk (.fifo 99)
    .ok { s with currTsk := some tsk }

def setOldTask (s : State) (tsk : Addr) : Except Fault State :=
  match s.entry tsk with
  | none => .error .freedTask
  | some t =>
    let s := s.update tsk fun t => if t.state = .running then { t with state := .ready } else t
    schedSetscheduler s t.tsk .normal

/-- The scan for the shortest period among the tasks that are not sleeping: `min_period` and
`next` after the loop. -/
def scan (head : List Task) : Nat × Option Task :=
  head.foldl (fun best itr =>
    if itr.state ≠ .sleeping ∧ itr.period < best.1 then (itr.period, some itr) else best)
    (intMax, none)

/-- The rest of a round once `next` is chosen. -/
def switchTo (s : State) (next : Option Addr) : Except Fault State :=
  match next with
  | none => .ok s
  | some next =>
    if s.currTsk = some next then .ok s
    else do
      let s ← match s.currTsk with
        | none => .ok s
        | some curr => setOldTask s curr
      setNewTask s next

/-- One round of the loop in `dispatch_fn`, up to the point where the thread goes to sleep. -/
def dispatchRound (s : State) : Except Fault State := switchTo s ((scan s.head).2.map Task.addr)

inductive Event
  | write (w : Write)
  /-- The timer of the entry at `a` expires. -/
  | expire (a : Addr)
  | dispatch
  | tick
  | fork (pid : Nat)
  | exit (pid : Nat)
  deriving DecidableEq, Repr

def State.setProcess (s : State) (pid : Nat) (p : Option Process) : State :=
  { s with processes := fun q => if q = pid then p else s.processes q }

def step (s : State) : Event → Except Fault State
  | .write w => mywrite s w
  | .expire a => .ok (tmCallback (s.update a fun t => { t with tm := none }) a)
  | .dispatch => dispatchRound s
  | .tick => .ok { s with jiffies := s.jiffies + 1 }
  | .fork pid => .ok (s.setProcess pid (some ⟨.running, .normal⟩))
  | .exit pid => .ok (s.setProcess pid none)

/-- What the kernel guarantees: the allocator never hands out an address in use, and only a
pending timer expires. -/
def Possible (s : State) : Event → Prop
  | .write w => ∀ t ∈ s.head, t.addr ≠ w.slab
  | .expire a => ∃ t ∈ s.head, t.addr = a ∧ t.tm ≠ none
  | _ => True

instance (s : State) (e : Event) : Decidable (Possible s e) :=
  match e with
  | .write w => inferInstanceAs (Decidable (∀ t ∈ s.head, t.addr ≠ w.slab))
  | .expire a => inferInstanceAs (Decidable (∃ t ∈ s.head, t.addr = a ∧ t.tm ≠ none))
  | .dispatch => .isTrue trivial
  | .tick => .isTrue trivial
  | .fork _ => .isTrue trivial
  | .exit _ => .isTrue trivial

/-- The states the module reaches from `mp2_init` under a guard at least as strong as what
the kernel guarantees. -/
abbrev Reaches (ok : State → Event → Prop) (jiffies : Nat) (processes : Nat → Option Process)
    (es : List Event) (s : State) : Prop :=
  Run step ok (State.init jiffies processes) es s

/-! ## The scan -/

/-- The loop invariant of the scan: `next`, if any, is an awake entry seen so far, `min_period`
is its period or `INT_MAX`, and no awake entry seen so far has a smaller one. -/
theorem scan_fold (ts seen : List Task) (best : Nat × Option Task)
    (bound : best.1 ≤ intMax)
    (chosen : ∀ t, best.2 = some t →
      t ∈ seen ∧ t.state ≠ .sleeping ∧ t.period = best.1 ∧ t.period < intMax)
    (none : best.2 = none → best.1 = intMax)
    (least : ∀ t ∈ seen, t.state ≠ .sleeping → best.1 ≤ t.period) :
    let r := ts.foldl (fun best itr =>
      if itr.state ≠ .sleeping ∧ itr.period < best.1 then (itr.period, some itr) else best) best
    r.1 ≤ intMax ∧
    (∀ t, r.2 = some t →
      t ∈ seen ++ ts ∧ t.state ≠ .sleeping ∧ t.period = r.1 ∧ t.period < intMax) ∧
    (r.2 = .none → r.1 = intMax) ∧
    (∀ t ∈ seen ++ ts, t.state ≠ .sleeping → r.1 ≤ t.period) := by
  induction ts generalizing seen best with
  | nil => simpa using ⟨bound, chosen, none, least⟩
  | cons x xs ih =>
    simp only [List.foldl_cons]
    have shift : seen ++ x :: xs = (seen ++ [x]) ++ xs := by simp
    rw [shift]
    by_cases hx : x.state ≠ .sleeping ∧ x.period < best.1
    · simp only [hx, ne_eq, not_false_eq_true, and_self, ↓reduceIte]
      apply ih
      · exact Nat.le_trans (Nat.le_of_lt hx.2) bound
      · rintro t ⟨⟩
        exact ⟨by simp, hx.1, rfl, Nat.lt_of_lt_of_le hx.2 bound⟩
      · simp
      · intro t ht awake
        rcases List.mem_append.mp ht with ht | ht
        · exact Nat.le_trans (Nat.le_of_lt hx.2) (least t ht awake)
        · rw [List.mem_singleton.mp ht]
    · simp only [hx, ↓reduceIte]
      apply ih _ _ bound _ none
      · intro t ht awake
        rcases List.mem_append.mp ht with ht | ht
        · exact least t ht awake
        · rw [List.mem_singleton.mp ht] at awake ⊢
          exact Nat.le_of_not_lt fun lt => hx ⟨awake, lt⟩
      · intro t ht
        obtain ⟨hm, rest⟩ := chosen t ht
        exact ⟨List.mem_append_left _ hm, rest⟩

theorem scan_spec (head : List Task) :
    (∀ t, (scan head).2 = some t →
      t ∈ head ∧ t.state ≠ .sleeping ∧ t.period < intMax ∧
      ∀ u ∈ head, u.state ≠ .sleeping → t.period ≤ u.period) ∧
    ((scan head).2 = none → ∀ u ∈ head, u.state ≠ .sleeping → intMax ≤ u.period) := by
  obtain ⟨_, chosen, none, least⟩ := scan_fold head [] (intMax, none) (Nat.le_refl _)
    (by simp) (by simp) (by simp)
  simp only [List.nil_append] at chosen least
  constructor
  · intro t ht
    obtain ⟨hm, awake, period, small⟩ := chosen t ht
    refine ⟨hm, awake, small, fun u hu au => ?_⟩
    rw [period]
    exact least u hu au
  · intro hn u hu au
    have := least u hu au
    rwa [none hn] at this

/-! ## What each event does -/

/-- An expired timer is no longer pending; a sleeping entry becomes ready. -/
def expired (t : Task) : Task :=
  { t with tm := none, state := if t.state = .sleeping then .ready else t.state }

/-- A switch to `next`: the task that was current goes back to ready. -/
def switched (curr : Option Addr) (next : Addr) (t : Task) : Task :=
  { t with state :=
      if t.addr = next then .running
      else if curr = some t.addr ∧ t.state = .running then .ready
      else t.state }

theorem expire_head (s : State) (a : Addr) :
    (tmCallback (s.update a fun t => { t with tm := none }) a).head =
      updateAt a expired s.head := by
  simp only [tmCallback, State.wakeDispatcher, State.update]
  rw [updateAt_updateAt (by simp)]
  congr 1
  funext t
  by_cases h : t.state = .sleeping <;> simp [expired, h]

/-- A change to the process behind a `task_struct` pointer. -/
def touch (tsk : Option Nat) (f : Process → Process) (processes : Nat → Option Process) :
    Nat → Option Process :=
  match tsk with
  | none => processes
  | some p => fun q => if q = p then (processes q).map f else processes q

/-- The `task_struct` of the entry a pointer leads to. -/
def State.tskAt (s : State) (a : Addr) : Option Nat := (s.entry a).bind Task.tsk

def demote (p : Process) : Process := { p with policy := .normal }

def promote (_ : Process) : Process := ⟨.running, .fifo 99⟩

/-- The processes after a switch to `next`. -/
def State.handover (s : State) (next : Addr) : Nat → Option Process :=
  touch (s.tskAt next) promote (touch (s.currTsk.bind s.tskAt) demote s.processes)

theorem onProcess_ok {s s' : State} {tsk : Option Nat} {f : Process → Process}
    (h : onProcess s tsk f = .ok s') : s' = { s with processes := touch tsk f s.processes } := by
  cases tsk with
  | none => cases h
  | some p => cases h; rfl

theorem setOldTask_ok {s s' : State} {a : Addr} (h : setOldTask s a = .ok s') :
    s' = { s with
      head := updateAt a
        (fun t => if t.state = .running then { t with state := .ready } else t) s.head
      processes := touch (s.tskAt a) demote s.processes } := by
  unfold setOldTask at h
  unfold State.tskAt
  split at h
  · cases h
  · rename_i t entry
    rw [onProcess_ok h, entry]
    rfl

theorem touch_touch (tsk : Option Nat) (f g : Process → Process)
    (processes : Nat → Option Process) :
    touch tsk f (touch tsk g processes) = touch tsk (fun p => f (g p)) processes := by
  cases tsk with
  | none => rfl
  | some p =>
    funext q
    by_cases hq : q = p
    · simp [touch, hq, Function.comp_def]
    · simp [touch, hq]

theorem setNewTask_ok {s s' : State} {a : Addr} (h : setNewTask s a = .ok s') :
    s' = { s with
      head := updateAt a (fun t => { t with state := .running }) s.head
      currTsk := some a
      processes := touch (s.tskAt a) promote s.processes } := by
  unfold setNewTask at h
  unfold State.tskAt
  split at h
  · cases h
  · rename_i t entry
    obtain ⟨s₁, h₁, h⟩ := bind_ok h
    obtain ⟨s₂, h₂, h⟩ := bind_ok h
    cases h
    rw [onProcess_ok h₂, onProcess_ok h₁, entry]
    simp only [State.update, touch_touch]
    rfl

theorem tskAt_updateAt {s s' : State} {a : Addr} {f : Task → Task}
    (keeps : ∀ t, (f t).addr = t.addr ∧ (f t).tsk = t.tsk)
    (head : s'.head = updateAt a f s.head) (b : Addr) : s'.tskAt b = s.tskAt b := by
  have addr : ((fun t => decide (t.addr = b)) ∘ fun t => if t.addr = a then f t else t) =
      fun t : Task => decide (t.addr = b) := by
    funext t
    by_cases ha : t.addr = a <;> simp [ha, (keeps t).1]
  rw [State.tskAt, State.entry, head, updateAt, List.find?_map, addr, State.tskAt, State.entry]
  cases s.head.find? fun t => decide (t.addr = b) with
  | none => rfl
  | some t => by_cases ha : t.addr = a <;> simp [ha, (keeps t).2]

/-- The two updates of a switch, of the entry that was current and of the next one. -/
theorem switched_updates {curr : Addr} {next : Addr} (other : curr ≠ next) (head : List Task) :
    updateAt next (fun t => { t with state := .running })
      (updateAt curr (fun t => if t.state = .running then { t with state := .ready } else t) head) =
      head.map (switched (some curr) next) := by
  simp only [updateAt, List.map_map]
  apply List.map_congr_left
  intro t _
  by_cases ht : t.addr = next
  · simp [switched, ht, Ne.symm other]
  · by_cases hcurr : t.addr = curr
    · subst hcurr
      by_cases hr : t.state = .running <;> simp [switched, ht, hr]
    · simp [switched, ht, hcurr, Ne.symm hcurr]

/-- All a switch to another task can do when it does not fault. -/
theorem switchTo_ok {s s' : State} {next : Addr} (h : switchTo s (some next) = .ok s')
    (other : s.currTsk ≠ some next) : s' = { s with
      head := s.head.map (switched s.currTsk next)
      currTsk := some next
      processes := s.handover next } := by
  simp only [switchTo, other, ↓reduceIte] at h
  unfold State.handover
  cases hc : s.currTsk with
  | none =>
    rw [hc] at h
    rw [setNewTask_ok h]
    congr 1
    apply List.map_congr_left
    intro t _
    by_cases ht : t.addr = next <;> simp [switched, ht]
  | some curr =>
    rw [hc] at h
    obtain ⟨s₁, h₁, h⟩ := bind_ok h
    have old := setOldTask_ok h₁
    have same : s₁.tskAt next = s.tskAt next := by
      apply tskAt_updateAt _ (congrArg State.head old)
      intro t
      by_cases hr : t.state = .running <;> simp [hr]
    rw [setNewTask_ok h, same, old]
    have differ : curr ≠ next := fun e => other (hc.trans (congrArg some e))
    simp only [switched_updates differ]
    rfl

/-- All a dispatcher round can do when it does not fault. -/
theorem dispatchRound_cases {s s' : State} (h : dispatchRound s = .ok s') :
    (s' = s ∧ ∀ t, (scan s.head).2 = some t → s.currTsk = some t.addr) ∨
    ∃ next, (scan s.head).2 = some next ∧ s.currTsk ≠ some next.addr ∧ s' = { s with
      head := s.head.map (switched s.currTsk next.addr)
      currTsk := some next.addr
      processes := s.handover next.addr } := by
  unfold dispatchRound at h
  cases hn : (scan s.head).2 with
  | none =>
    rw [hn] at h
    cases h
    exact .inl ⟨rfl, by simp⟩
  | some next =>
    rw [hn] at h
    by_cases same : s.currTsk = some next.addr
    · simp only [Option.map_some, switchTo, same, ↓reduceIte, Except.ok.injEq] at h
      exact .inl ⟨h.symm, by rintro t ⟨⟩; exact same⟩
    · exact .inr ⟨next, rfl, same, switchTo_ok h same⟩

/-- The request an event carries, if it is a write that leads to one. -/
def Event.request : Event → Option Request
  | .write w => w.request
  | _ => none

/-- The pid an event asks to yield, if that is what it asks for. -/
def Event.yields (e : Event) : Option Int :=
  match e.request with
  | some (.yield pid) => some pid
  | _ => none

/-- `s'` is at the same time as `s`, with `n` more wake-ups of the dispatcher on their way. -/
def Frame (s s' : State) (n : Nat) : Prop := s'.jiffies = s.jiffies ∧ s'.wakeups = s.wakeups + n

/-- All that an event can do to the list of entries and to `curr_tsk`. -/
inductive Effect (s : State) : Event → State → Prop
  | idle {e : Event} {s' : State} (other : e.yields = none) (head : s'.head = s.head)
      (curr : s'.currTsk = s.currTsk) (usage : s'.usage = s.usage)
      (time : s.jiffies ≤ s'.jiffies) (wakes : s'.wakeups = s.wakeups) : Effect s e s'
  | enroll {w : Write} {s' : State} (pid : Int) (period computation : Nat)
      (asked : w.request = some (.register pid period computation))
      (admitted : (admissionControl .c s.usage period computation (toU32 pid) 0).1 = 0)
      (head : s'.head = s.head ++ [newTask w.slab s pid period computation])
      (curr : s'.currTsk = s.currTsk)
      (usage : s'.usage = (admissionControl .c s.usage period computation (toU32 pid) 0).2)
      (frame : Frame s s' 0) : Effect s (.write w) s'
  | remove {w : Write} {s' : State} (pid : Int) (t : Task)
      (asked : w.request = some (.deregister pid)) (found : findByPid s pid = some t)
      (head : s'.head = s.head.eraseP fun x => decide (x.addr = t.addr))
      (curr : s'.currTsk = if s.currTsk = some t.addr then none else s.currTsk)
      (usage : s'.usage = (admissionControl .c s.usage t.period t.computation t.pid 1).2)
      (frame : Frame s s' 1) : Effect s (.write w) s'
  | activate {w : Write} {s' : State} (pid : Int) (t : Task)
      (asked : w.request = some (.yield pid)) (found : findByPid s pid = some t)
      (first : t.nextPeriod = 0) (head : s'.head = updateAt t.addr (activated s.jiffies) s.head)
      (curr : s'.currTsk = s.currTsk) (usage : s'.usage = s.usage)
      (frame : Frame s s' 1) : Effect s (.write w) s'
  | advance {w : Write} {s' : State} (pid : Int) (t : Task)
      (asked : w.request = some (.yield pid)) (found : findByPid s pid = some t)
      (later : t.nextPeriod ≠ 0) (late : t.nextPeriod ≤ s.jiffies)
      (head : s'.head = updateAt t.addr advanced s.head)
      (curr : s'.currTsk = s.currTsk) (usage : s'.usage = s.usage)
      (frame : Frame s s' 1) : Effect s (.write w) s'
  | suspend {w : Write} {s' : State} (pid : Int) (t : Task)
      (asked : w.request = some (.yield pid)) (found : findByPid s pid = some t)
      (later : t.nextPeriod ≠ 0) (early : s.jiffies < t.nextPeriod)
      (head : s'.head = updateAt t.addr suspended s.head)
      (curr : s'.currTsk = if s.currTsk = some t.addr then none else s.currTsk)
      (usage : s'.usage = s.usage) (frame : Frame s s' 1) : Effect s (.write w) s'
  | expire {a : Addr} {s' : State} (head : s'.head = updateAt a expired s.head)
      (curr : s'.currTsk = s.currTsk) (usage : s'.usage = s.usage)
      (frame : Frame s s' 1) : Effect s (.expire a) s'
  | switch {s' : State} (next : Task) (chosen : (scan s.head).2 = some next)
      (other : s.currTsk ≠ some next.addr)
      (head : s'.head = s.head.map (switched s.currTsk next.addr))
      (curr : s'.currTsk = some next.addr) (usage : s'.usage = s.usage)
      (frame : Frame s s' 0) : Effect s .dispatch s'

theorem mywrite_effect {s s' : State} {w : Write} (h : mywrite s w = .ok s') :
    Effect s (.write w) s' := by
  obtain ⟨rfl, other, _⟩ | ⟨pid, period, computation, asked, admitted, rfl⟩ |
    ⟨pid, asked, yielded⟩ | ⟨pid, t, asked, found, rfl⟩ := mywrite_cases h
  · refine .idle ?_ rfl rfl rfl (Nat.le_refl _) rfl
    unfold Event.yields
    split
    · exact absurd ‹_› (other _)
    · rfl
  · exact .enroll pid period computation asked admitted rfl rfl rfl ⟨rfl, rfl⟩
  · obtain ⟨t, found, ⟨first, rfl⟩ | ⟨later, late, rfl⟩ | ⟨later, early, _, _, rfl⟩⟩ :=
      yieldEntry_cases yielded
    · exact .activate pid t asked found first rfl rfl rfl ⟨rfl, rfl⟩
    · exact .advance pid t asked found later late rfl rfl rfl ⟨rfl, rfl⟩
    · exact .suspend pid t asked found later early rfl rfl rfl ⟨rfl, rfl⟩
  · exact .remove pid t asked found rfl rfl rfl ⟨rfl, rfl⟩

theorem step_effect {s s' : State} {e : Event} (h : step s e = .ok s') : Effect s e s' := by
  cases e with
  | write w => exact mywrite_effect h
  | expire a => cases h; exact .expire (expire_head s a) rfl rfl ⟨rfl, rfl⟩
  | dispatch =>
    obtain ⟨rfl, _⟩ | ⟨next, chosen, other, rfl⟩ := dispatchRound_cases h
    · exact .idle rfl rfl rfl rfl (Nat.le_refl _) rfl
    · exact .switch next chosen other rfl rfl rfl ⟨rfl, rfl⟩
  | tick => cases h; exact .idle rfl rfl rfl rfl (Nat.le_succ _) rfl
  | fork pid => cases h; exact .idle rfl rfl rfl rfl (Nat.le_refl _) rfl
  | exit pid => cases h; exact .idle rfl rfl rfl rfl (Nat.le_refl _) rfl

/-- Leaves alone what a registration fixed. -/
def Keeps (f : Task → Task) : Prop :=
  ∀ t, (f t).addr = t.addr ∧ (f t).pid = t.pid ∧ (f t).tsk = t.tsk ∧
    (f t).period = t.period ∧ (f t).computation = t.computation

theorem activated_keeps (jiffies : Nat) : Keeps (activated jiffies) :=
  fun _ => ⟨rfl, rfl, rfl, rfl, rfl⟩

theorem advanced_keeps : Keeps advanced := fun _ => ⟨rfl, rfl, rfl, rfl, rfl⟩

theorem suspended_keeps : Keeps suspended := fun _ => ⟨rfl, rfl, rfl, rfl, rfl⟩

theorem expired_keeps : Keeps expired := fun _ => ⟨rfl, rfl, rfl, rfl, rfl⟩

theorem switched_keeps (curr : Option Addr) (next : Addr) : Keeps (switched curr next) :=
  fun _ => ⟨rfl, rfl, rfl, rfl, rfl⟩

theorem Keeps.updateAt {a : Addr} {f : Task → Task} (h : Keeps f) :
    Keeps fun t => if t.addr = a then f t else t := by
  intro t
  by_cases ht : t.addr = a
  · simpa [ht] using h t
  · simp [ht]

/-- Apart from an admitted registration and a deregistration, an event changes entries in
place, keeps what their registration fixed, and leaves the fraction alone. -/
theorem Effect.shape {s s' : State} {e : Event} (h : Effect s e s') :
    (∃ f, Keeps f ∧ s'.head = s.head.map f ∧ s'.usage = s.usage) ∨
    (∃ w pid p c, e = .write w ∧ w.request = some (.register pid p c) ∧
      (admissionControl .c s.usage p c (toU32 pid) 0).1 = 0 ∧
      s'.head = s.head ++ [newTask w.slab s pid p c] ∧
      s'.usage = (admissionControl .c s.usage p c (toU32 pid) 0).2) ∨
    (∃ w pid t, e = .write w ∧ w.request = some (.deregister pid) ∧ findByPid s pid = some t ∧
      s'.head = (s.head.eraseP fun x => decide (x.addr = t.addr)) ∧
      s'.usage = (admissionControl .c s.usage t.period t.computation t.pid 1).2) := by
  cases h with
  | idle _ head _ usage =>
    exact .inl ⟨id, fun _ => ⟨rfl, rfl, rfl, rfl, rfl⟩, by simp [head], usage⟩
  | enroll pid p c asked admitted head _ usage =>
    exact .inr (.inl ⟨_, pid, p, c, rfl, asked, admitted, head, usage⟩)
  | remove pid t asked found head _ usage =>
    exact .inr (.inr ⟨_, pid, t, rfl, asked, found, head, usage⟩)
  | activate _ _ _ _ _ head _ usage => exact .inl ⟨_, (activated_keeps _).updateAt, head, usage⟩
  | advance _ _ _ _ _ _ head _ usage => exact .inl ⟨_, advanced_keeps.updateAt, head, usage⟩
  | suspend _ _ _ _ _ _ head _ usage => exact .inl ⟨_, suspended_keeps.updateAt, head, usage⟩
  | expire head _ usage => exact .inl ⟨_, expired_keeps.updateAt, head, usage⟩
  | switch _ _ _ head _ usage => exact .inl ⟨_, switched_keeps _ _, head, usage⟩

theorem Keeps.map_addr {f : Task → Task} (h : Keeps f) (ts : List Task) :
    (ts.map f).map Task.addr = ts.map Task.addr := by
  rw [List.map_map]
  exact List.map_congr_left fun t _ => (h t).1

theorem Keeps.utilization {f : Task → Task} (h : Keeps f) (ts : List Task) :
    utilization (ts.map f) = utilization ts := by
  simp only [MP2.utilization, List.map_map]
  congr 1
  apply List.map_congr_left
  intro t _
  simp [(h t).2.2.2.1, (h t).2.2.2.2]

/-! ## Addresses are unique -/

def Unique (s : State) : Prop := (s.head.map Task.addr).Nodup

theorem Unique.append {s : State} (h : Unique s) {t : Task}
    (fresh : ∀ x ∈ s.head, x.addr ≠ t.addr) : ((s.head ++ [t]).map Task.addr).Nodup := by
  rw [List.map_append, List.map_singleton]
  apply List.Nodup.append h (List.nodup_singleton _)
  simpa [List.disjoint_singleton] using fresh

theorem Unique.erase {s : State} (h : Unique s) (p : Task → Bool) :
    ((s.head.eraseP p).map Task.addr).Nodup :=
  h.sublist (List.eraseP_sublist.map _)

theorem Unique.eq {s : State} (h : Unique s) {t u : Task} (ht : t ∈ s.head) (hu : u ∈ s.head)
    (same : t.addr = u.addr) : t = u :=
  List.inj_on_of_nodup_map h ht hu same

/-- With unique addresses an entry on the list is the one its address leads to. -/
theorem Unique.entry {s : State} (h : Unique s) {t : Task} (ht : t ∈ s.head) :
    s.entry t.addr = some t := by
  unfold State.entry
  cases hf : s.head.find? fun x => decide (x.addr = t.addr) with
  | none => exact absurd (List.find?_eq_none.mp hf t ht) (by simp)
  | some u =>
    have hu := List.find?_some hf
    simp only [decide_eq_true_eq] at hu
    rw [h.eq (List.mem_of_find?_eq_some hf) ht hu]

theorem Unique.erased {s : State} (h : Unique s) {a : Addr} {t : Task}
    (ht : t ∈ s.head.eraseP fun x => decide (x.addr = a)) : t ∈ s.head ∧ t.addr ≠ a := by
  refine ⟨List.mem_of_mem_eraseP ht, fun ha => ?_⟩
  obtain ⟨u, before, after, _, hu, split, erased⟩ :=
    List.exists_of_eraseP (p := fun x : Task => decide (x.addr = a)) (List.mem_of_mem_eraseP ht)
      (by simpa using ha)
  simp only [decide_eq_true_eq] at hu
  rw [Unique, split, List.map_append, List.map_cons] at h
  rw [erased] at ht
  -- the erased entry and `t` would both have address `a`
  have hd := List.nodup_middle.mp h
  apply (List.nodup_cons.mp hd).1
  rw [hu, ← ha, ← List.map_append]
  exact List.mem_map_of_mem ht

theorem erase_mem {s : State} {a : Addr} {t : Task} (ht : t ∈ s.head) (ha : t.addr ≠ a) :
    t ∈ s.head.eraseP fun x => decide (x.addr = a) :=
  (List.mem_eraseP_of_neg (by simpa using ha)).mpr ht

/-! ## What is current stays on the list -/

/-- After a task has given up the processor, what is current was so before and is another. -/
theorem still_current {curr curr' : Option Addr} {a b : Addr}
    (h : curr' = if curr = some a then none else curr) (hb : curr' = some b) :
    curr = some b ∧ b ≠ a := by
  rw [h] at hb
  split at hb
  · cases hb
  · rename_i other
    exact ⟨hb, fun same => other (same ▸ hb)⟩

/-- A deregistration leaves the entry of the current task, with whatever holds of it. -/
theorem current_remove {s s' : State} {P : Task → Prop} {a : Addr}
    (current : ∀ b, s.currTsk = some b → ∃ t ∈ s.head, t.addr = b ∧ P t)
    (head : s'.head = s.head.eraseP fun x => decide (x.addr = a))
    (curr : s'.currTsk = if s.currTsk = some a then none else s.currTsk) :
    ∀ b, s'.currTsk = some b → ∃ t ∈ s'.head, t.addr = b ∧ P t := by
  intro b hb
  obtain ⟨before, other⟩ := still_current curr hb
  obtain ⟨t, ht, rfl, rest⟩ := current b before
  exact ⟨t, head ▸ erase_mem ht other, rfl, rest⟩

theorem Unique.step {s s' : State} {e : Event} (h : Unique s) (possible : Possible s e)
    (eff : Effect s e s') : Unique s' := by
  obtain ⟨f, keeps, head, _⟩ | ⟨w, pid, p, c, rfl, _, _, head, _⟩ | ⟨w, pid, t, _, _, _, head, _⟩ :=
    eff.shape
  · rw [Unique, head, keeps.map_addr]
    exact h
  · rw [Unique, head]
    exact h.append possible
  · rw [Unique, head]
    exact h.erase _

end KernelModules.MP2
