import KernelModules.MP2.Admission

/-!
# The three requests

`reg_entry`, `yield_entry` and `dereg_entry` with the functions they call. Each has a lemma
that says all it can do to the module's state; later modules read these and not the
definitions.
-/

namespace KernelModules.MP2

/-- The entry `reg_entry` fills in, at the address `kmem_cache_alloc` returned. -/
def newTask (slab : Addr) (s : State) (pid : Int) (period computation : Nat) : Task where
  addr := slab
  tsk := findTaskByPid s (toU32 pid)
  tm := none
  period := period
  computation := computation
  pid := toU32 pid
  state := .sleeping
  nextPeriod := 0

/-- Returns 1 when admission control refuses the task. -/
def regEntry (A : Arith) (slab : Addr) (s : State) (pid : Int) (period computation : Nat) :
    Nat × State :=
  let r := admissionControl A s.usage period computation (toU32 pid) 0
  let s' := { s with usage := r.2 }
  if r.1 ≠ 0 then (1, s')
  else (0, { s' with head := s'.head ++ [newTask slab s' pid period computation] })

/-- Returns 0 when no entry has the pid. -/
def setTaskSleep (s : State) (pid : Int) : Except Fault (Nat × State) :=
  match findByPid s pid with
  | none => .ok (0, s)
  | some tmp => do
    let s := if s.currTsk = some tmp.addr then { s with currTsk := none } else s
    let s := s.update tmp.addr fun t => { t with state := .sleeping }
    let s ← setTaskState s tmp.tsk .uninterruptible
    .ok (1, s)

def yieldEntry (s : State) (pid : Int) : Except Fault State :=
  match findByPid s pid with
  | none => .error .nullTask
  | some yieldTsk => do
    let s ←
      if yieldTsk.nextPeriod = 0 then
        .ok (s.update yieldTsk.addr fun t =>
          { t with nextPeriod := Arith.c.u64 (s.jiffies + t.periodJiffies), state := .ready })
      else do
        let s ←
          if s.jiffies < yieldTsk.nextPeriod then do
            let r ← setTaskSleep s pid
            .ok (r.2.update yieldTsk.addr fun t => { t with tm := some t.nextPeriod })
          else .ok s
        .ok (s.update yieldTsk.addr fun t =>
          { t with nextPeriod := Arith.c.u64 (t.nextPeriod + t.periodJiffies) })
    .ok s.wakeDispatcher

/-- The timer goes with the entry: `del_timer_sync`, `list_del`, `kmem_cache_free`. -/
def freeone (s : State) (a : Addr) : State :=
  { s with head := s.head.eraseP fun t => decide (t.addr = a) }

/-- Returns 1 when no entry has the pid. -/
def deregEntry (A : Arith) (s : State) (pid : Int) : Nat × State :=
  match findByPid s pid with
  | none => (1, s)
  | some tsk =>
    let s := if s.currTsk = some tsk.addr then { s with currTsk := none } else s
    let s := { s with usage := (admissionControl A s.usage tsk.period tsk.computation tsk.pid 1).2 }
    (0, (freeone s tsk.addr).wakeDispatcher)

inductive Request
  | register (pid : Int) (period computation : Nat)
  | yield (pid : Int)
  | deregister (pid : Int)
  deriving DecidableEq, Repr

/-- The call a request leads to. `slab` is the address the allocator hands out if asked. -/
def perform (A : Arith) (slab : Addr) (s : State) : Request → Except Fault State
  | .register pid period computation => .ok (regEntry A slab s pid period computation).2
  | .yield pid => yieldEntry s pid
  | .deregister pid => .ok (deregEntry A s pid).2

/-! ## Lists of entries -/

theorem updateAt_updateAt {a : Addr} {f g : Task → Task} (keeps : ∀ t, (g t).addr = t.addr)
    (ts : List Task) : updateAt a f (updateAt a g ts) = updateAt a (fun t => f (g t)) ts := by
  simp only [updateAt, List.map_map]
  apply List.map_congr_left
  intro t _
  by_cases ht : t.addr = a <;> simp [ht, keeps]

theorem updateAt_map_addr {a : Addr} {f : Task → Task} (keeps : ∀ t, (f t).addr = t.addr)
    (ts : List Task) : (updateAt a f ts).map Task.addr = ts.map Task.addr := by
  simp only [updateAt, List.map_map]
  apply List.map_congr_left
  intro t _
  by_cases ht : t.addr = a <;> simp [ht, keeps]

theorem mem_updateAt {a : Addr} {f : Task → Task} {ts : List Task} {x : Task}
    (h : x ∈ updateAt a f ts) : ∃ t ∈ ts, (t.addr = a ∧ x = f t) ∨ (t.addr ≠ a ∧ x = t) := by
  obtain ⟨t, ht, rfl⟩ := List.mem_map.mp h
  by_cases ha : t.addr = a
  · exact ⟨t, ht, .inl ⟨ha, by simp [ha]⟩⟩
  · exact ⟨t, ht, .inr ⟨ha, by simp [ha]⟩⟩

theorem findByPid_mem {s : State} {pid : Int} {t : Task} (h : findByPid s pid = some t) :
    t ∈ s.head := List.mem_of_find?_eq_some h

/-! ## What each request does -/

theorem regEntry_refused {A : Arith} {slab : Addr} {s : State} {pid : Int} {p c : Nat}
    (h : (admissionControl A s.usage p c (toU32 pid) 0).1 ≠ 0) :
    regEntry A slab s pid p c = (1, s) := by
  simp only [regEntry, refused_unchanged h, h, ne_eq, not_false_eq_true, ↓reduceIte]

theorem regEntry_admitted {A : Arith} {slab : Addr} {s : State} {pid : Int} {p c : Nat}
    (h : (admissionControl A s.usage p c (toU32 pid) 0).1 = 0) :
    regEntry A slab s pid p c = (0, { s with
      usage := (admissionControl A s.usage p c (toU32 pid) 0).2
      head := s.head ++ [newTask slab s pid p c] }) := by
  simp [regEntry, h, newTask, findTaskByPid]

theorem deregEntry_missing {A : Arith} {s : State} {pid : Int} (h : findByPid s pid = none) :
    deregEntry A s pid = (1, s) := by
  simp [deregEntry, h]

theorem deregEntry_found {A : Arith} {s : State} {pid : Int} {t : Task}
    (h : findByPid s pid = some t) :
    deregEntry A s pid = (0, { s with
      head := s.head.eraseP fun x => decide (x.addr = t.addr)
      currTsk := if s.currTsk = some t.addr then none else s.currTsk
      usage := (admissionControl A s.usage t.period t.computation t.pid 1).2
      wakeups := s.wakeups + 1 }) := by
  by_cases hc : s.currTsk = some t.addr <;>
    simp [deregEntry, h, hc, freeone, State.wakeDispatcher]

theorem setTaskSleep_found {s : State} {pid : Int} {t : Task} (h : findByPid s pid = some t) :
    setTaskSleep s pid =
      match t.tsk with
      | none => .error .nullProcess
      | some p => .ok (1, { s with
          head := updateAt t.addr (fun x => { x with state := .sleeping }) s.head
          currTsk := if s.currTsk = some t.addr then none else s.currTsk
          processes := fun q => if q = p then
            (s.processes q).map fun x => { x with state := .uninterruptible }
            else s.processes q }) := by
  by_cases hc : s.currTsk = some t.addr <;> cases hp : t.tsk <;>
    simp [setTaskSleep, h, hc, hp, setTaskState, onProcess, State.update, State.updateProcess,
      bind, Except.bind]

/-- The first yield of an entry. -/
def activated (jiffies : Nat) (t : Task) : Task :=
  { t with nextPeriod := Arith.c.u64 (jiffies + t.periodJiffies), state := .ready }

/-- A yield after the next period has begun. -/
def advanced (t : Task) : Task :=
  { t with nextPeriod := Arith.c.u64 (t.nextPeriod + t.periodJiffies) }

/-- A yield before the next period has begun: the timer is armed with the value before the
advance. -/
def suspended (t : Task) : Task :=
  { t with
    state := .sleeping
    tm := some t.nextPeriod
    nextPeriod := Arith.c.u64 (t.nextPeriod + t.periodJiffies) }

theorem yieldEntry_missing {s : State} {pid : Int} (h : findByPid s pid = none) :
    yieldEntry s pid = .error .nullTask := by
  simp [yieldEntry, h]

theorem yieldEntry_first {s : State} {pid : Int} {t : Task} (h : findByPid s pid = some t)
    (first : t.nextPeriod = 0) :
    yieldEntry s pid = .ok { s with
      head := updateAt t.addr (activated s.jiffies) s.head
      wakeups := s.wakeups + 1 } := by
  simp only [yieldEntry, h, first, ↓reduceIte]
  rfl

theorem yieldEntry_late {s : State} {pid : Int} {t : Task} (h : findByPid s pid = some t)
    (later : t.nextPeriod ≠ 0) (late : t.nextPeriod ≤ s.jiffies) :
    yieldEntry s pid = .ok { s with
      head := updateAt t.addr advanced s.head
      wakeups := s.wakeups + 1 } := by
  simp only [yieldEntry, h, later, Nat.not_lt.mpr late, ↓reduceIte]
  rfl

theorem yieldEntry_early {s : State} {pid : Int} {t : Task} (h : findByPid s pid = some t)
    (later : t.nextPeriod ≠ 0) (early : s.jiffies < t.nextPeriod) :
    yieldEntry s pid =
      match t.tsk with
      | none => .error .nullProcess
      | some p => .ok { s with
          head := updateAt t.addr suspended s.head
          currTsk := if s.currTsk = some t.addr then none else s.currTsk
          processes := fun q => if q = p then
            (s.processes q).map fun x => { x with state := .uninterruptible }
            else s.processes q
          wakeups := s.wakeups + 1 } := by
  cases hp : t.tsk with
  | none =>
    simp only [yieldEntry, h, later, early, ↓reduceIte, setTaskSleep_found h, hp]
    rfl
  | some p =>
    simp only [yieldEntry, h, later, early, ↓reduceIte, setTaskSleep_found h, hp, bind, Except.bind,
      State.update, implies_true, updateAt_updateAt]
    rfl

/-- All a yield can do when it does not fault. -/
theorem yieldEntry_cases {s s' : State} {pid : Int} (h : yieldEntry s pid = .ok s') :
    ∃ t, findByPid s pid = some t ∧
      ((t.nextPeriod = 0 ∧ s' = { s with
          head := updateAt t.addr (activated s.jiffies) s.head
          wakeups := s.wakeups + 1 }) ∨
       (t.nextPeriod ≠ 0 ∧ t.nextPeriod ≤ s.jiffies ∧ s' = { s with
          head := updateAt t.addr advanced s.head
          wakeups := s.wakeups + 1 }) ∨
       (t.nextPeriod ≠ 0 ∧ s.jiffies < t.nextPeriod ∧ ∃ p, t.tsk = some p ∧ s' = { s with
          head := updateAt t.addr suspended s.head
          currTsk := if s.currTsk = some t.addr then none else s.currTsk
          processes := fun q => if q = p then
            (s.processes q).map fun x => { x with state := .uninterruptible }
            else s.processes q
          wakeups := s.wakeups + 1 })) := by
  cases ht : findByPid s pid with
  | none => rw [yieldEntry_missing ht] at h; cases h
  | some t =>
    refine ⟨t, rfl, ?_⟩
    by_cases first : t.nextPeriod = 0
    · rw [yieldEntry_first ht first] at h
      cases h
      exact .inl ⟨first, rfl⟩
    · by_cases early : s.jiffies < t.nextPeriod
      · rw [yieldEntry_early ht first early] at h
        cases hp : t.tsk with
        | none => rw [hp] at h; cases h
        | some p =>
          rw [hp] at h
          cases h
          exact .inr (.inr ⟨first, early, p, rfl, rfl⟩)
      · rw [yieldEntry_late ht first (by omega)] at h
        cases h
        exact .inr (.inl ⟨first, by omega, rfl⟩)

end KernelModules.MP2
