import KernelModules.MP2.Faults
import KernelModules.MP2.Processes
import KernelModules.MP2.Reading
import KernelModules.MP2.Userapp

/-!
# Userapps and the module

`main` of `userapp.c` registers, looks for its pid in the status report, yields and works in
turn, and deregisters. Processes that execute it come and go and share one module with the
timers and the dispatcher. `Attended` says how the entries on the list and the places the
programs are at belong together.
-/

namespace KernelModules.MP2

/-- Where `main` is: at the call it makes next. `time` is the counter of `loop`. -/
inductive Pc
  | regist
  | check
  | yield (time : Nat)
  /-- In the body of `loop`, up to where it yields again or returns. -/
  | work (time : Nat)
  | deregister
  /-- At the `return` of `main`. -/
  | exit
  deriving DecidableEq, Repr

/-- A process that executes `main`, with the values that `main` gets from its arguments. -/
structure Userapp where
  pid : Nat
  period : BitVec 32
  computation : BitVec 32
  times : BitVec 32
  pc : Pc
  deriving DecidableEq, Repr

namespace Userapp

def currPid (app : Userapp) : BitVec 32 := BitVec.ofNat 32 app.pid

/-- `times` as the `int` that `loop` takes. -/
def setTimes (app : Userapp) : Int := app.times.toInt

/-- `loop` behind a yield. -/
def afterYield (app : Userapp) (time : Nat) : Pc :=
  if (time : Int) < app.setTimes then .work time else .deregister

/-- `loop` behind the work. -/
def afterWork (app : Userapp) (time : Nat) : Pc :=
  if app.setTimes ≤ (time + 1 : Nat) then .deregister else .yield (time + 1)

/-- The app at `pc` if it is the process `pid`, else where it was. -/
def moved (app : Userapp) (pid : Nat) (pc : Pc) : Userapp :=
  if app.pid = pid then { app with pc := pc } else app

end Userapp

/-- The module and the processes that execute `main`. -/
structure System where
  module : State
  apps : List Userapp

/-- What the module finds when it is called: the stack of a write and what `kmem_cache_alloc`
returns to it, the length of a read and the two buffers that `kmalloc` returns. None is NULL. -/
structure Call where
  stack : List UInt8
  slab : Addr
  len : Nat
  tmpbuf : List UInt8
  buf : List UInt8
  deriving DecidableEq, Repr

/-- Nothing on the stack, an allocation at `slab`, and buffers that were zeroed. -/
def Call.quiet (slab : Addr) : Call :=
  ⟨[], slab, 4096, .replicate buffsize 0, .replicate buffsize 0⟩

inductive System.Act
  /-- A new process executes `main`. -/
  | exec (app : Userapp)
  /-- A process goes on to its next call. -/
  | run (app : Userapp) (call : Call)
  /-- A timer expires, the dispatcher makes a round or time passes. -/
  | kernel (e : Event)
  deriving DecidableEq, Repr

inductive Failure
  | fault (f : Fault)
  | overrun (o : Overrun)
  deriving DecidableEq, Repr

namespace System

def init (jiffies : Nat) (processes : Nat → Option Process) : System :=
  ⟨State.init jiffies processes, []⟩

/-- The process `pid` goes to `pc` and leaves the module as `s`. -/
def goto (m : System) (pid : Nat) (pc : Pc) (s : State) : System :=
  ⟨s, m.apps.map fun app => app.moved pid pc⟩

def module? (m : System) (e : Event) : Except Failure State :=
  match MP2.step m.module e with
  | .ok s => .ok s
  | .error f => .error (.fault f)

/-- `fprintf` and `fflush` of a request. -/
def write (m : System) (app : Userapp) (text : List UInt8) (call : Call) (pc : Pc) :
    Except Failure System := do
  let s ← m.module? (.write ⟨text, call.stack, call.slab⟩)
  .ok (m.goto app.pid pc s)

def main (m : System) (app : Userapp) (call : Call) : Except Failure System :=
  match app.pc with
  | .regist => m.write app (MP2.regist app.currPid app.period app.computation) call .check
  | .check =>
    match myread m.module call.len 0 call.tmpbuf call.buf with
    | .error o => .error (.overrun o)
    | .ok (data, _) =>
      .ok (m.goto app.pid
        (if (MP2.check app.currPid.toInt data).2 = 0 then .yield 0 else .exit) m.module)
  | .yield time => m.write app (MP2.yield app.currPid) call (app.afterYield time)
  | .work time => .ok (m.goto app.pid (app.afterWork time) m.module)
  | .deregister => m.write app (MP2.deregister app.currPid) call .exit
  | .exit =>
    .ok ⟨m.module.setProcess app.pid none, m.apps.filter fun x => decide (x.pid ≠ app.pid)⟩

def step (m : System) : Act → Except Failure System
  | .exec app =>
    .ok ⟨m.module.setProcess app.pid (some ⟨.running, .normal⟩),
      m.apps ++ [{ app with pc := .regist }]⟩
  | .run app call => m.main app call
  | .kernel e => do
    let s ← m.module? e
    .ok { m with module := s }

/-- So many pids fit the buffers of `myread`, whatever they are. -/
def limit : Nat := 185

/-- What the kernel sees to: a new process gets a pid that is not in use, a blocked process does
not go on, an allocation succeeds with memory that is not in use, and a timer expires when it is
due. A request, a read and a round of the dispatcher are one step each: with `LOCK_FREE` no lock
sees to that, and without it none spans the selection and the switch of a round. -/
def Enabled (m : System) : Act → Prop
  | .exec app =>
    0 < app.pid ∧ app.pid < 2 ^ 31 ∧ m.module.processes app.pid = none ∧ m.apps.length < limit
  | .run app call =>
    app ∈ m.apps ∧ ¬ Blocked m.module app.pid ∧ (∀ t ∈ m.module.head, t.addr ≠ call.slab) ∧
      call.tmpbuf.length = buffsize ∧ call.buf.length = buffsize
  | .kernel (.expire a) => ∃ t ∈ m.module.head, t.addr = a ∧ ∃ x ∈ t.tm, x ≤ m.module.jiffies
  | .kernel .dispatch => True
  | .kernel .tick => True
  | .kernel _ => False

instance decidableEnabled (m : System) (a : Act) : Decidable (m.Enabled a) :=
  match a with
  | .exec app =>
    inferInstanceAs (Decidable (0 < app.pid ∧ app.pid < 2 ^ 31 ∧
      m.module.processes app.pid = none ∧ m.apps.length < limit))
  | .run app call =>
    inferInstanceAs (Decidable (app ∈ m.apps ∧ ¬ Blocked m.module app.pid ∧
      (∀ t ∈ m.module.head, t.addr ≠ call.slab) ∧ call.tmpbuf.length = buffsize ∧
      call.buf.length = buffsize))
  | .kernel (.expire a) =>
    inferInstanceAs (Decidable (∃ t ∈ m.module.head, t.addr = a ∧ ∃ x ∈ t.tm, x ≤ m.module.jiffies))
  | .kernel .dispatch => .isTrue trivial
  | .kernel .tick => .isTrue trivial
  | .kernel (.write _) => .isFalse id
  | .kernel (.fork _) => .isFalse id
  | .kernel (.exit _) => .isFalse id

end System

/-- Between registration and deregistration, where the process may have an entry. -/
def Pc.registered : Pc → Bool
  | .regist => false
  | .exit => false
  | _ => true

/-- Behind the check, where it has one. -/
def Pc.admitted : Pc → Bool
  | .yield _ => true
  | .work _ => true
  | .deregister => true
  | _ => false

/-- The entry is the one that the process has asked for. -/
def Userapp.Owns (app : Userapp) (t : Task) : Prop :=
  t.pid = app.pid ∧ t.tsk = some app.pid ∧ t.period = app.period.toNat ∧
    t.computation = app.computation.toNat

/-- The programs are those of different live processes. -/
structure Populated (m : System) : Prop where
  pids : (m.apps.map Userapp.pid).Nodup
  few : m.apps.length ≤ System.limit
  range : ∀ app ∈ m.apps, 0 < app.pid ∧ app.pid < 2 ^ 31
  alive : ∀ app ∈ m.apps, m.module.processes app.pid ≠ none

/-- Every entry is that of a registered program, and a program behind its check has one. -/
structure Attended (m : System) : Prop extends Populated m where
  backed : Backed m.module
  owned : ∀ t ∈ m.module.head, ∃ app ∈ m.apps, app.Owns t ∧ app.pc.registered = true
  single : (m.module.head.map Task.pid).Nodup
  entered : ∀ app ∈ m.apps, app.pc.admitted = true → ∃ t ∈ m.module.head, app.Owns t

/-! ## What the module keeps of processes -/

theorem touch_alive (tsk : Option Nat) {f : Process → Process} {processes : Nat → Option Process}
    {q : Nat} (alive : processes q ≠ none) : touch tsk f processes q ≠ none := by
  cases tsk with
  | none => exact alive
  | some p =>
    by_cases hq : q = p
    · subst hq
      simpa [touch] using alive
    · simpa [touch, hq] using alive

/-- Only its exit takes a process away. -/
theorem step_alive {s s' : State} {e : Event} (h : step s e = .ok s') {q : Nat}
    (alive : s.processes q ≠ none) (stays : e ≠ .exit q) : s'.processes q ≠ none := by
  cases e with
  | write w =>
    obtain ⟨rfl, -⟩ | ⟨pid, p, c, -, -, rfl⟩ | ⟨pid, -, yielded⟩ | ⟨pid, t, -, -, rfl⟩ :=
      mywrite_cases h
    · exact alive
    · exact alive
    · obtain ⟨t, -, ⟨-, rfl⟩ | ⟨-, -, rfl⟩ | ⟨-, -, p, -, rfl⟩⟩ := yieldEntry_cases yielded
      · exact alive
      · exact alive
      · exact touch_alive (some p) alive
    · exact alive
  | expire a => cases h; exact alive
  | dispatch =>
    obtain ⟨rfl, -⟩ | ⟨next, -, -, rfl⟩ := dispatchRound_cases h
    · exact alive
    · exact touch_alive _ (touch_alive _ alive)
  | tick => cases h; exact alive
  | fork pid =>
    cases h
    by_cases hq : q = pid
    · simp [State.setProcess, hq]
    · simpa [State.setProcess, hq] using alive
  | exit pid =>
    cases h
    have hq : q ≠ pid := by
      rintro rfl
      exact stays rfl
    simpa [State.setProcess, hq] using alive

/-! ## Pids as they are printed -/

section

variable {app : Userapp}

theorem toU32_currPid (small : app.pid < 2 ^ 31) : toU32 app.currPid.toInt = app.pid := by
  rw [toU32_toInt, Userapp.currPid, BitVec.toNat_ofNat]
  omega

theorem currPid_toInt (small : app.pid < 2 ^ 31) : app.currPid.toInt = app.pid := by
  rw [BitVec.toInt_eq_toNat_cond, Userapp.currPid, BitVec.toNat_ofNat]
  split <;> omega

theorem toI32_pid {n : Nat} (small : n < 2 ^ 31) : toI32 n = n := by
  unfold toI32
  rw [Int.bmod_def]
  split <;> omega

theorem width_pid {n : Nat} (small : n < 2 ^ 31) : width (toI32 n) ≤ 10 := by
  rw [toI32_pid small, width, if_neg (by omega), Int.natAbs_natCast]
  have digits : Nat.log 10 n < 10 := Nat.log_lt_of_lt_pow' (by decide) (by omega)
  omega

end

/-! ## The programs and their entries -/

section

variable {m : System} {app app' : Userapp} {t u : Task} {s : State}

theorem Attended.same (h : Attended m) (ha : app ∈ m.apps) (ha' : app' ∈ m.apps)
    (pid : app.pid = app'.pid) : app = app' :=
  List.inj_on_of_nodup_map h.pids ha ha' pid

theorem Attended.alone (h : Attended m) (ht : t ∈ m.module.head) (hu : u ∈ m.module.head)
    (pid : t.pid = u.pid) : t = u :=
  List.inj_on_of_nodup_map h.single ht hu pid

theorem Attended.owner (h : Attended m) (ha : app ∈ m.apps) (ht : t ∈ m.module.head)
    (pid : t.pid = app.pid) : app.Owns t ∧ app.pc.registered = true := by
  obtain ⟨app', ha', owns, registered⟩ := h.owned t ht
  rw [h.same ha ha' (pid.symm.trans owns.1)]
  exact ⟨owns, registered⟩

/-- Behind its check a process is found by its pid. -/
theorem Attended.found (h : Attended m) (ha : app ∈ m.apps) (admitted : app.pc.admitted = true) :
    ∃ t ∈ m.module.head, findByPid m.module app.currPid.toInt = some t ∧ app.Owns t := by
  obtain ⟨u, hu, owns⟩ := h.entered app ha admitted
  have pid := toU32_currPid (h.range app ha).2
  cases hf : findByPid m.module app.currPid.toInt with
  | none =>
    have other := List.find?_eq_none.mp hf u hu
    simp [owns.1, pid] at other
  | some t =>
    have ht := findByPid_mem hf
    have named := List.find?_some hf
    simp only [decide_eq_true_eq, pid] at named
    exact ⟨t, ht, rfl, (h.owner ha ht named).1⟩

/-- With no more processes than fit the report does. -/
theorem Attended.fits (h : Attended m) : (report m.module.head).length ≤ buffsize := by
  have listed : m.module.head.map Task.pid ⊆ m.apps.map Userapp.pid := by
    intro pid hp
    obtain ⟨t, ht, rfl⟩ := List.mem_map.mp hp
    obtain ⟨app, ha, owns, -⟩ := h.owned t ht
    exact owns.1 ▸ List.mem_map_of_mem ha
  have few : m.module.head.length ≤ System.limit := by
    have short := (List.subperm_of_subset h.single listed).length_le
    rw [List.length_map, List.length_map] at short
    exact short.trans h.few
  have lines : ((m.module.head.map Task.pid).map fun pid => width (toI32 pid) + 1).sum ≤
      m.module.head.length * 11 := by
    have each : ∀ n ∈ (m.module.head.map Task.pid).map fun pid => width (toI32 pid) + 1,
        n ≤ 11 := by
      intro n hn
      obtain ⟨pid, hp, rfl⟩ := List.mem_map.mp hn
      obtain ⟨app, ha, rfl⟩ := List.mem_map.mp (listed hp)
      exact Nat.succ_le_succ (width_pid (h.range app ha).2)
    have bound := List.sum_le_card_nsmul _ _ each
    rwa [List.length_map, List.length_map] at bound
  have count : width (m.module.head.length : Int) ≤ 3 := by
    rw [width, if_neg (by omega), Int.natAbs_natCast]
    have digits : Nat.log 10 m.module.head.length < 3 :=
      Nat.log_lt_of_lt_pow' (by decide) (by unfold System.limit at few; omega)
    omega
  rw [report_width, reportWidth, List.length_map]
  unfold System.limit at few
  unfold buffsize
  omega

/-- The check finds the entry of the process exactly when there is one. -/
theorem Attended.check_iff (h : Attended m) (ha : app ∈ m.apps) :
    (check app.currPid.toInt (report m.module.head)).2 = 0 ↔ ∃ t ∈ m.module.head, app.Owns t := by
  have small := (h.range app ha).2
  have short : m.module.head.length < 2 ^ 31 := by
    have := length_le_report m.module.head
    have := h.fits
    unfold buffsize at this
    omega
  have positive : 0 < app.currPid.toInt := by
    rw [currPid_toInt small]
    exact_mod_cast (h.range app ha).1
  have listed : (∃ t ∈ m.module.head, toI32 t.pid = app.currPid.toInt) ↔
      ∃ t ∈ m.module.head, app.Owns t := by
    apply exists_congr
    intro t
    apply and_congr_right
    intro ht
    obtain ⟨app', ha', owns, -⟩ := h.owned t ht
    have small' : t.pid < 2 ^ 31 := owns.1 ▸ (h.range app' ha').2
    rw [toI32_pid small', currPid_toInt small]
    constructor
    · intro pid
      exact (h.owner ha ht (by exact_mod_cast pid)).1
    · intro owned
      exact_mod_cast owned.1
  rw [check_report positive short]
  simp only [listed]
  split <;> simp_all

/-! ## Every step keeps them together -/

theorem moved_here (pid : app.pid = app'.pid) (pc : Pc) :
    app.moved app'.pid pc = { app with pc := pc } := if_pos pid

theorem moved_other (pid : app.pid ≠ app'.pid) (pc : Pc) : app.moved app'.pid pc = app := if_neg pid

theorem moved_same (app app' : Userapp) (pc : Pc) :
    ∃ pc', app.moved app'.pid pc = { app with pc := pc' } := by
  by_cases this : app.pid = app'.pid
  · exact ⟨pc, moved_here this pc⟩
  · exact ⟨app.pc, moved_other this pc⟩

theorem Populated.change (h : Populated m) (alive : ∀ app ∈ m.apps, s.processes app.pid ≠ none)
    {g : Userapp → Userapp} (same : ∀ app, ∃ pc, g app = { app with pc := pc }) :
    Populated ⟨s, m.apps.map g⟩ := by
  have pid (app : Userapp) : (g app).pid = app.pid := by
    obtain ⟨pc, moved⟩ := same app
    rw [moved]
  have pids : (m.apps.map g).map Userapp.pid = m.apps.map Userapp.pid := by
    rw [List.map_map]
    exact List.map_congr_left fun app _ => pid app
  refine ⟨pids ▸ h.pids, by simpa using h.few, ?_, ?_⟩
  · intro x hx
    obtain ⟨app, ha, rfl⟩ := List.mem_map.mp hx
    rw [pid]
    exact h.range app ha
  · intro x hx
    obtain ⟨app, ha, rfl⟩ := List.mem_map.mp hx
    rw [pid]
    exact alive app ha

/-- Entries change in place, programs go on, and both stay together. -/
theorem Attended.change (h : Attended m) (backed : Backed s) {f : Task → Task} (keeps : Keeps f)
    (head : s.head = m.module.head.map f) (alive : ∀ app ∈ m.apps, s.processes app.pid ≠ none)
    {g : Userapp → Userapp} (same : ∀ app, ∃ pc, g app = { app with pc := pc })
    (registered : ∀ app ∈ m.apps, ∀ t ∈ m.module.head, app.Owns t → app.pc.registered = true →
      (g app).pc.registered = true)
    (entered : ∀ app ∈ m.apps, (g app).pc.admitted = true → ∃ t ∈ m.module.head, app.Owns t) :
    Attended ⟨s, m.apps.map g⟩ := by
  have owns (app : Userapp) (t : Task) (owned : app.Owns t) : (g app).Owns (f t) := by
    obtain ⟨pc, moved⟩ := same app
    rw [moved]
    obtain ⟨-, pid, tsk, period, computation⟩ := keeps t
    exact ⟨pid.trans owned.1, tsk.trans owned.2.1, period.trans owned.2.2.1,
      computation.trans owned.2.2.2⟩
  have pids : s.head.map Task.pid = m.module.head.map Task.pid := by
    rw [head, List.map_map]
    exact List.map_congr_left fun t _ => (keeps t).2.1
  refine ⟨h.toPopulated.change alive same, backed, ?_, pids ▸ h.single, ?_⟩
  · intro x hx
    rw [head] at hx
    obtain ⟨t, ht, rfl⟩ := List.mem_map.mp hx
    obtain ⟨app, ha, owned, before⟩ := h.owned t ht
    exact ⟨g app, List.mem_map_of_mem ha, owns app t owned, registered app ha t ht owned before⟩
  · intro x hx admitted
    obtain ⟨app, ha, rfl⟩ := List.mem_map.mp hx
    obtain ⟨t, ht, owned⟩ := entered app ha admitted
    exact ⟨f t, head ▸ List.mem_map_of_mem ht, owns app t owned⟩

theorem keeps_id : Keeps id := fun _ => ⟨rfl, rfl, rfl, rfl, rfl⟩

/-- The module does something on its own. -/
theorem Attended.alters (h : Attended m) (backed : Backed s) {f : Task → Task} (keeps : Keeps f)
    (head : s.head = m.module.head.map f) (alive : ∀ app ∈ m.apps, s.processes app.pid ≠ none) :
    Attended { m with module := s } := by
  have unmoved := h.change backed keeps head alive (g := id) (fun app => ⟨app.pc, rfl⟩)
    (fun _ _ _ _ _ before => before) fun app ha admitted => h.entered app ha admitted
  rwa [List.map_id] at unmoved

/-- A program goes on while entries change in place. -/
theorem Attended.goto (h : Attended m) (ha : app ∈ m.apps) (backed : Backed s) {f : Task → Task}
    (keeps : Keeps f) (head : s.head = m.module.head.map f)
    (alive : ∀ app ∈ m.apps, s.processes app.pid ≠ none) {pc : Pc}
    (registered : (∃ t ∈ m.module.head, app.Owns t) → pc.registered = true)
    (entered : pc.admitted = true → ∃ t ∈ m.module.head, app.Owns t) :
    Attended (m.goto app.pid pc s) := by
  apply h.change backed keeps head alive (moved_same · app pc)
  · intro app' ha' t ht owned before
    by_cases this : app'.pid = app.pid
    · rw [moved_here this]
      exact registered ⟨t, ht, h.same ha' ha this ▸ owned⟩
    · rw [moved_other this]
      exact before
  · intro app' ha' admitted
    by_cases this : app'.pid = app.pid
    · rw [moved_here this] at admitted
      rw [h.same ha' ha this]
      exact entered admitted
    · rw [moved_other this] at admitted
      exact h.entered app' ha' admitted

theorem Attended.still (h : Attended m) (ha : app ∈ m.apps) {pc : Pc}
    (registered : (∃ t ∈ m.module.head, app.Owns t) → pc.registered = true)
    (entered : pc.admitted = true → ∃ t ∈ m.module.head, app.Owns t) :
    Attended (m.goto app.pid pc m.module) :=
  h.goto ha h.backed keeps_id (List.map_id _).symm h.alive registered entered

/-- The other programs keep their entries. -/
theorem Attended.others (h : Attended m) {pc : Pc} (fresh : pc.admitted = false)
    (stays : ∀ t ∈ m.module.head, t.pid ≠ app.pid → t ∈ s.head) :
    ∀ x ∈ (m.goto app.pid pc s).apps, x.pc.admitted = true → ∃ t ∈ s.head, x.Owns t := by
  intro x hx admitted
  obtain ⟨app', ha', rfl⟩ := List.mem_map.mp hx
  by_cases this : app'.pid = app.pid
  · rw [moved_here this] at admitted
    exact absurd (fresh.symm.trans admitted) (by decide)
  · rw [moved_other this] at admitted ⊢
    obtain ⟨t, ht, owned⟩ := h.entered app' ha' admitted
    exact ⟨t, stays t ht (owned.1 ▸ this), owned⟩

/-- An admitted registration. -/
theorem Attended.enroll (h : Attended m) (ha : app ∈ m.apps) (fresh : app.pc.registered = false)
    (backed : Backed s) (processes : s.processes = m.module.processes) (owns : app.Owns t)
    (head : s.head = m.module.head ++ [t]) : Attended (m.goto app.pid .check s) := by
  have absent : ∀ u ∈ m.module.head, u.pid ≠ app.pid := by
    intro u hu pid
    rw [(h.owner ha hu pid).2] at fresh
    cases fresh
  have alive : ∀ app ∈ m.apps, s.processes app.pid ≠ none := processes ▸ h.alive
  refine ⟨h.toPopulated.change alive (moved_same · app .check), backed, ?_, ?_, ?_⟩
  · intro x hx
    rw [System.goto, head] at hx
    rcases List.mem_append.mp hx with hx | hx
    · obtain ⟨app', ha', owned, before⟩ := h.owned x hx
      have other : app'.pid ≠ app.pid := fun same => absent x hx (owned.1.trans same)
      exact ⟨app', List.mem_map.mpr ⟨app', ha', moved_other other _⟩, owned, before⟩
    · rw [List.mem_singleton.mp hx]
      exact ⟨{ app with pc := .check }, List.mem_map.mpr ⟨app, ha, moved_here rfl _⟩, owns, rfl⟩
  · rw [System.goto, head, List.map_append, List.map_singleton]
    apply List.Nodup.append h.single (List.nodup_singleton _)
    rw [List.disjoint_singleton, owns.1]
    intro listed
    obtain ⟨u, hu, same⟩ := List.mem_map.mp listed
    exact absent u hu same
  · apply h.others rfl
    intro u hu _
    exact head ▸ List.mem_append_left _ hu

/-- A deregistration. -/
theorem Attended.remove (h : Attended m) (ht : t ∈ m.module.head) (owns : app.Owns t)
    (backed : Backed s) (processes : s.processes = m.module.processes)
    (head : s.head = m.module.head.eraseP fun x => decide (x.addr = t.addr)) :
    Attended (m.goto app.pid .exit s) := by
  have alive : ∀ app ∈ m.apps, s.processes app.pid ≠ none := processes ▸ h.alive
  refine ⟨h.toPopulated.change alive (moved_same · app .exit), backed, ?_, ?_, ?_⟩
  · intro x hx
    rw [System.goto, head] at hx
    obtain ⟨hx, apart⟩ := h.backed.unique.erased hx
    obtain ⟨app', ha', owned, before⟩ := h.owned x hx
    have other : app'.pid ≠ app.pid := by
      intro same
      exact apart (congrArg Task.addr (h.alone hx ht ((owned.1.trans same).trans owns.1.symm)))
    exact ⟨app', List.mem_map.mpr ⟨app', ha', moved_other other _⟩, owned, before⟩
  · rw [System.goto, head]
    exact h.single.sublist (List.eraseP_sublist.map _)
  · apply h.others rfl
    intro u hu other
    rw [head]
    apply erase_mem hu
    intro same
    rw [h.backed.unique.eq hu ht same] at other
    exact other owns.1

/-- A new process, and one whose program is over. -/
theorem Backed.spawn {s : State} (h : Backed s) (pid : Nat) (p : Option Process) :
    Backed (s.setProcess pid p) :=
  ⟨h.unique, h.awake, h.armed, h.current⟩

theorem setProcess_other {s : State} {pid q : Nat} {p : Option Process} (other : q ≠ pid) :
    (s.setProcess pid p).processes q = s.processes q := if_neg other

theorem Attended.exec (h : Attended m) {app : Userapp}
    (enabled : m.Enabled (.exec app)) :
    Attended ⟨m.module.setProcess app.pid (some ⟨.running, .normal⟩),
      m.apps ++ [{ app with pc := .regist }]⟩ := by
  obtain ⟨positive, small, free, room⟩ := enabled
  have other : ∀ x ∈ m.apps, x.pid ≠ app.pid := by
    intro x hx same
    exact h.alive x hx (same ▸ free)
  refine ⟨⟨?_, ?_, ?_, ?_⟩, h.backed.spawn _ _, ?_, h.single, ?_⟩
  · rw [List.map_append, List.map_singleton]
    apply List.Nodup.append h.pids (List.nodup_singleton _)
    rw [List.disjoint_singleton]
    intro listed
    obtain ⟨x, hx, same⟩ := List.mem_map.mp listed
    exact other x hx same
  · rw [List.length_append, List.length_singleton]
    exact room
  · intro x hx
    rcases List.mem_append.mp hx with hx | hx
    · exact h.range x hx
    · rw [List.mem_singleton.mp hx]
      exact ⟨positive, small⟩
  · intro x hx
    rcases List.mem_append.mp hx with hx | hx
    · rw [setProcess_other (other x hx)]
      exact h.alive x hx
    · rw [List.mem_singleton.mp hx]
      simp [State.setProcess]
  · intro t ht
    obtain ⟨x, hx, owned⟩ := h.owned t ht
    exact ⟨x, List.mem_append_left _ hx, owned⟩
  · intro x hx admitted
    rcases List.mem_append.mp hx with hx | hx
    · exact h.entered x hx admitted
    · rw [List.mem_singleton.mp hx] at admitted
      cases admitted

theorem Attended.exits (h : Attended m) (ha : app ∈ m.apps) (left : app.pc.registered = false) :
    Attended ⟨m.module.setProcess app.pid none,
      m.apps.filter fun x => decide (x.pid ≠ app.pid)⟩ := by
  have stays {x : Userapp} (hx : x ∈ m.apps.filter fun x => decide (x.pid ≠ app.pid)) :
      x ∈ m.apps ∧ x.pid ≠ app.pid := by
    simpa using List.mem_filter.mp hx
  refine ⟨⟨?_, ?_, ?_, ?_⟩, h.backed.spawn _ _, ?_, h.single, ?_⟩
  · exact h.pids.sublist (List.filter_sublist.map _)
  · exact (List.length_filter_le _ _).trans h.few
  · exact fun x hx => h.range x (stays hx).1
  · intro x hx
    rw [setProcess_other (stays hx).2]
    exact h.alive x (stays hx).1
  · intro t ht
    obtain ⟨x, hx, owned, before⟩ := h.owned t ht
    have other : x.pid ≠ app.pid := by
      intro same
      rw [h.same hx ha same, left] at before
      cases before
    exact ⟨x, List.mem_filter.mpr ⟨hx, by simpa using other⟩, owned, before⟩
  · exact fun x hx => h.entered x (stays hx).1

/-! ## The requests the programs make -/

theorem step_write (s : State) (w : Write) : MP2.step s (.write w) = mywrite s w := rfl

theorem module?_ok {e : Event} (h : m.module? e = .ok s) : MP2.step m.module e = .ok s := by
  unfold System.module? at h
  split at h
  · cases h
    assumption
  · cases h

theorem write_ok {m' : System} {text : List UInt8} {call : Call} {pc : Pc}
    (h : m.write app text call pc = .ok m') :
    ∃ s, MP2.step m.module (.write ⟨text, call.stack, call.slab⟩) = .ok s ∧
      m' = m.goto app.pid pc s := by
  obtain ⟨s, done, moved⟩ := bind_ok h
  cases moved
  exact ⟨s, module?_ok done, rfl⟩

theorem Attended.alive_step (h : Attended m) {e : Event} (stepped : MP2.step m.module e = .ok s)
    (stays : ∀ app ∈ m.apps, e ≠ .exit app.pid) : ∀ app ∈ m.apps, s.processes app.pid ≠ none :=
  fun app ha => step_alive stepped (h.alive app ha) (stays app ha)

/-- A request that is not a yield needs no entry. -/
theorem yieldsBacked_of_none {e : Event} (other : e.yields = none) : YieldsBacked s e := by
  intro pid hp
  rw [other] at hp
  cases hp

section

variable {call : Call}

/-- What a program finds when it calls the module. -/
theorem enabled_possible (enabled : m.Enabled (.run app call)) (text : List UInt8) :
    Possible m.module (.write ⟨text, call.stack, call.slab⟩) := enabled.2.2.1

theorem Attended.registers (h : Attended m) (enabled : m.Enabled (.run app call))
    (at' : app.pc = .regist)
    (done : MP2.step m.module (.write ⟨regist app.currPid app.period app.computation, call.stack,
      call.slab⟩) = .ok s) : Attended (m.goto app.pid .check s) := by
  have ha := enabled.1
  have request := regist_request app.currPid app.period app.computation call.stack call.slab
  have other : (Event.write ⟨regist app.currPid app.period app.computation, call.stack,
      call.slab⟩).yields = none := by
    simp [Event.yields, Event.request, request]
  have backed : Backed s := h.backed.step (enabled_possible enabled _) (yieldsBacked_of_none other)
    (step_effect done)
  have fresh : app.pc.registered = false := by rw [at']; rfl
  obtain ⟨rfl, -⟩ | ⟨pid, p, c, asked, -, rfl⟩ | ⟨pid, asked, -⟩ | ⟨pid, t, asked, -⟩ :=
    mywrite_cases (step_write m.module _ ▸ done)
  · exact h.still ha (fun _ => rfl) (by simp [Pc.admitted])
  · rw [request, Option.some.injEq, Request.register.injEq] at asked
    obtain ⟨rfl, rfl, rfl⟩ := asked
    have pid := toU32_currPid (h.range app ha).2
    obtain ⟨p, alive⟩ := Option.ne_none_iff_exists'.mp (h.alive app ha)
    refine h.enroll ha fresh backed rfl (t := newTask call.slab m.module app.currPid.toInt _ _)
      ⟨pid, ?_, rfl, rfl⟩ rfl
    simp [newTask, findTaskByPid, pid, alive]
  · rw [request] at asked
    cases asked
  · rw [request] at asked
    cases asked

theorem Attended.deregisters (h : Attended m) (enabled : m.Enabled (.run app call))
    (at' : app.pc = .deregister)
    (done : MP2.step m.module (.write ⟨deregister app.currPid, call.stack, call.slab⟩) = .ok s) :
    Attended (m.goto app.pid .exit s) := by
  have ha := enabled.1
  have request := deregister_request app.currPid call.stack call.slab
  have other : (Event.write ⟨deregister app.currPid, call.stack, call.slab⟩).yields = none := by
    simp [Event.yields, Event.request, request]
  have backed : Backed s := h.backed.step (enabled_possible enabled _) (yieldsBacked_of_none other)
    (step_effect done)
  obtain ⟨t, ht, found, owns⟩ := h.found ha (by rw [at']; rfl)
  obtain ⟨-, -, missing⟩ | ⟨pid, p, c, asked, -⟩ | ⟨pid, asked, -⟩ | ⟨pid, u, asked, found', rfl⟩ :=
    mywrite_cases (step_write m.module _ ▸ done)
  · rw [missing _ request] at found
    cases found
  · rw [request] at asked
    cases asked
  · rw [request] at asked
    cases asked
  · rw [request, Option.some.injEq, Request.deregister.injEq] at asked
    obtain rfl := asked
    obtain rfl := Option.some.inj (found.symm.trans found')
    exact h.remove ht owns backed rfl rfl

/-- A yield finds the entry of its process, and that has one. -/
theorem Attended.yieldsBacked (h : Attended m) (ha : app ∈ m.apps)
    (admitted : app.pc.admitted = true) (stack : List UInt8) (slab : Addr) :
    YieldsBacked m.module (.write ⟨yield app.currPid, stack, slab⟩) := by
  obtain ⟨t, -, found, owns⟩ := h.found ha admitted
  intro pid hp
  rw [Event.yields, Event.request, yield_request] at hp
  cases hp
  exact ⟨t, found, by rw [owns.2.1]; simp⟩

theorem Attended.yields (h : Attended m) (enabled : m.Enabled (.run app call))
    (admitted : app.pc.admitted = true) {pc : Pc}
    (registered : pc.registered = true)
    (done : MP2.step m.module (.write ⟨yield app.currPid, call.stack, call.slab⟩) = .ok s) :
    Attended (m.goto app.pid pc s) := by
  have ha := enabled.1
  have eff := step_effect done
  have request := yield_request app.currPid call.stack call.slab
  have backed := h.backed.step (enabled_possible enabled _) (h.yieldsBacked ha admitted _ _) eff
  have alive := h.alive_step done fun _ _ => by simp
  obtain ⟨f, keeps, head, -⟩ | ⟨w, pid, p, c, he, asked, -⟩ | ⟨w, pid, t, he, asked, -⟩ := eff.shape
  · exact h.goto ha backed keeps head alive (fun _ => registered) fun _ => h.entered app ha admitted
  · rw [Event.write.injEq] at he
    rw [← he, request] at asked
    cases asked
  · rw [Event.write.injEq] at he
    rw [← he, request] at asked
    cases asked

end

theorem Attended.kernel (h : Attended m) {e : Event} (enabled : m.Enabled (.kernel e))
    (stepped : MP2.step m.module e = .ok s) : Attended { m with module := s } := by
  have other : e.request = none := by
    cases e with
    | write w => exact absurd enabled id
    | _ => rfl
  have quiet : e.yields = none := by rw [Event.yields, other]
  have possible : Possible m.module e := by
    cases e with
    | expire a =>
      obtain ⟨t, ht, addr, x, armed, -⟩ := enabled
      exact ⟨t, ht, addr, by rw [Option.mem_def.mp armed]; simp⟩
    | write w => exact absurd enabled id
    | _ => trivial
  have stays : ∀ app ∈ m.apps, e ≠ .exit app.pid := by
    rintro app - rfl
    exact enabled
  have eff := step_effect stepped
  have backed := h.backed.step possible (yieldsBacked_of_none quiet) eff
  obtain ⟨f, keeps, head, -⟩ | ⟨w, pid, p, c, rfl, asked, -⟩ | ⟨w, pid, t, rfl, asked, -⟩ :=
    eff.shape
  · exact h.alters backed keeps head (h.alive_step stepped stays)
  · exact absurd enabled id
  · exact absurd enabled id

theorem afterYield_registered (app : Userapp) (time : Nat) :
    (app.afterYield time).registered = true := by
  unfold Userapp.afterYield
  split <;> rfl

theorem afterWork_registered (app : Userapp) (time : Nat) :
    (app.afterWork time).registered = true := by
  unfold Userapp.afterWork
  split <;> rfl

/-- What the check leaves depends on whether the process has an entry. -/
theorem Attended.checked (h : Attended m) {call : Call} (enabled : m.Enabled (.run app call))
    (at' : app.pc = .check) :
    m.main app call = .ok (m.goto app.pid
      (if (check app.currPid.toInt (report m.module.head)).2 = 0 then .yield 0 else .exit)
      m.module) := by
  obtain ⟨-, -, -, tmpbuf, buf⟩ := enabled
  simp only [System.main, at', myread_report call.len tmpbuf buf h.fits]

/-- **Programs and entries stay together**, whatever happens next. -/
theorem Attended.step {m' : System} {a : System.Act} (h : Attended m) (enabled : m.Enabled a)
    (stepped : m.step a = .ok m') : Attended m' := by
  cases a with
  | exec app => cases stepped; exact h.exec enabled
  | kernel e =>
    obtain ⟨s, done, rest⟩ := bind_ok stepped
    cases rest
    exact h.kernel enabled (module?_ok done)
  | run app call =>
    have ha : app ∈ m.apps := enabled.1
    change m.main app call = .ok m' at stepped
    cases at' : app.pc with
    | regist =>
      rw [System.main, at'] at stepped
      obtain ⟨s, done, rfl⟩ := write_ok stepped
      exact h.registers enabled at' done
    | check =>
      rw [h.checked enabled at'] at stepped
      cases stepped
      have listed := h.check_iff ha
      by_cases owns : ∃ t ∈ m.module.head, app.Owns t
      · rw [if_pos (listed.mpr owns)]
        exact h.still ha (fun _ => rfl) fun _ => owns
      · rw [if_neg (mt listed.mp owns)]
        exact h.still ha (fun entry => absurd entry owns) (by simp [Pc.admitted])
    | yield time =>
      rw [System.main, at'] at stepped
      obtain ⟨s, done, rfl⟩ := write_ok stepped
      exact h.yields enabled (by rw [at']; rfl) (afterYield_registered app time) done
    | work time =>
      rw [System.main, at'] at stepped
      cases stepped
      exact h.still ha (fun _ => afterWork_registered app time)
        fun _ => h.entered app ha (by rw [at']; rfl)
    | deregister =>
      rw [System.main, at'] at stepped
      obtain ⟨s, done, rfl⟩ := write_ok stepped
      exact h.deregisters enabled at' done
    | exit =>
      rw [System.main, at'] at stepped
      cases stepped
      exact h.exits ha (by rw [at']; rfl)

/-- A step that is enabled goes through. -/
theorem Attended.progress {a : System.Act} (h : Attended m) (enabled : m.Enabled a) :
    ∃ m', m.step a = .ok m' := by
  have module {e : Event} (backed : YieldsBacked m.module e) : ∃ s, m.module? e = .ok s := by
    obtain ⟨s, stepped⟩ := step_backed h.backed backed
    exact ⟨s, by rw [System.module?, stepped]⟩
  cases a with
  | exec app => exact ⟨_, rfl⟩
  | kernel e =>
    have quiet : e.yields = none := by
      cases e with
      | write w => exact absurd enabled id
      | _ => rfl
    obtain ⟨s, done⟩ := module (yieldsBacked_of_none quiet)
    exact ⟨{ m with module := s }, by rw [System.step, done]; rfl⟩
  | run app call =>
    have ha : app ∈ m.apps := enabled.1
    have write {text : List UInt8} {pc : Pc}
        (backed : YieldsBacked m.module (.write ⟨text, call.stack, call.slab⟩)) :
        ∃ m', m.write app text call pc = .ok m' := by
      obtain ⟨s, done⟩ := module backed
      exact ⟨m.goto app.pid pc s, by rw [System.write, done]; rfl⟩
    cases at' : app.pc with
    | regist =>
      simp only [System.step, System.main, at']
      exact write (yieldsBacked_of_none (by simp [Event.yields, Event.request, regist_request]))
    | check => exact ⟨_, h.checked enabled at'⟩
    | yield time =>
      simp only [System.step, System.main, at']
      exact write (h.yieldsBacked ha (by rw [at']; rfl) _ _)
    | work time => exact ⟨_, by simp only [System.step, System.main, at']; rfl⟩
    | deregister =>
      simp only [System.step, System.main, at']
      exact write (yieldsBacked_of_none (by simp [Event.yields, Event.request, deregister_request]))
    | exit => exact ⟨_, by simp only [System.step, System.main, at']; rfl⟩

/-- Without programs there is nothing on the list. -/
theorem Attended.empty (h : Attended m) (gone : m.apps = []) :
    m.module.head = [] ∧ m.module.currTsk = none := by
  have head : m.module.head = [] := by
    apply List.eq_nil_iff_forall_not_mem.mpr
    intro t ht
    obtain ⟨app, ha, -⟩ := h.owned t ht
    rw [gone] at ha
    cases ha
  refine ⟨head, Option.eq_none_iff_forall_ne_some.mpr fun a curr => ?_⟩
  obtain ⟨t, ht, -⟩ := h.backed.current a curr
  rw [head] at ht
  cases ht

section

variable {j : Nat} {processes : Nat → Option Process} {as : List System.Act}

theorem reaches_attended
    (run : Run System.step System.Enabled (System.init j processes) as m) : Attended m := by
  apply run.invariant
  · exact ⟨⟨List.nodup_nil, Nat.zero_le _, by simp [System.init], by simp [System.init]⟩,
      ⟨List.nodup_nil, by simp [System.init, State.init], by simp [System.init, State.init],
        by simp [System.init, State.init]⟩, by simp [System.init, State.init], List.nodup_nil,
      by simp [System.init]⟩
  · exact fun s e t h enabled stepped => h.step enabled stepped

/-- **Entries are those of programs.** Every entry is the one that a registered program has asked
for, and a program behind its check has exactly one; when the last has gone none is left. -/
theorem entries_are_userapps
    (run : Run System.step System.Enabled (System.init j processes) as m) :
    (∀ t ∈ m.module.head, ∃ app ∈ m.apps, app.Owns t ∧ app.pc.registered = true) ∧
    (∀ app ∈ m.apps, app.pc.admitted = true →
      ∃ t ∈ m.module.head, app.Owns t ∧ ∀ u ∈ m.module.head, u.pid = app.pid → u = t) ∧
    (m.apps = [] → m.module.head = [] ∧ m.module.currTsk = none) := by
  have h := reaches_attended run
  refine ⟨h.owned, ?_, h.empty⟩
  intro app ha admitted
  obtain ⟨t, ht, owns⟩ := h.entered app ha admitted
  exact ⟨t, ht, owns, fun u hu pid => h.alone hu ht (pid.trans owns.1.symm)⟩

/-- One process has come and gone. -/
theorem entries_are_userapps_gone :
    ∃ m : System, m.apps = [] ∧ m.module.head = [] ∧ m.module.currTsk = none := by
  obtain ⟨m, run, gone⟩ : ∃ m, Run System.step System.Enabled (.init 1 fun _ => none)
      [.exec ⟨7, 100, 1, 0, .regist⟩, .run ⟨7, 100, 1, 0, .regist⟩ (.quiet 1),
        .run ⟨7, 100, 1, 0, .check⟩ (.quiet 2), .run ⟨7, 100, 1, 0, .yield 0⟩ (.quiet 2),
        .kernel .dispatch, .run ⟨7, 100, 1, 0, .deregister⟩ (.quiet 2),
        .run ⟨7, 100, 1, 0, .exit⟩ (.quiet 2)] m ∧ m.apps = [] :=
    Run.exists_of_replay (fun m => m.apps) (a := []) (by decide +kernel) fun _ _ seen => seen
  exact ⟨m, gone, (entries_are_userapps run).2.2 gone⟩

end

end

end KernelModules.MP2
