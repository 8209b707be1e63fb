import KernelModules.MP3.Counters
import KernelModules.MP3.Work
import KernelModules.Lib.Progress

/-!
# Works and the module

Processes that execute `main` of `work.c` come and go, are killed, and share one module with its
work queue and with other processes. A work that cannot allocate returns without unregistering,
as does one that is killed; `record` counts the entries they leave behind.
-/

namespace KernelModules.MP3

/-- The module and the processes that execute `main`, by pid. -/
structure Bench where
  module : State
  works : Nat → Option Work

inductive Bench.Act
  /-- A new process executes `main` with these arguments. -/
  | exec (pid : Nat) (msize : Int) (argv2 : List UInt8) (naccess : Int)
  /-- A process goes on. `block` is what `kmalloc` returns if the module calls it. -/
  | run (pid : Nat) (d : Draw) (block : Option Entry)
  | kill (pid : Nat)
  /-- What happens in the module and to other processes. -/
  | kernel (e : Event)

inductive Bench.Failure
  | fault (f : Fault)
  | misuse (m : Misuse)
  deriving DecidableEq, Repr

/-- What `echo` writes to the status file. -/
def Request.echoed (r : Request) : List UInt8 := r.letter :: 32 :: (formatInt r.pid ++ [10])

def Place.registered : Place → Bool
  | .registers => false
  | .returns => false
  | _ => true

namespace Bench

def init (vm : Nat → Nat) (jiffies : Nat) (processes : Nat → Option Process) : Bench :=
  ⟨State.init vm jiffies processes, fun _ => none⟩

def module? (b : Bench) (e : Event) : Except Failure State :=
  match MP3.step b.module e with
  | .ok s => .ok s
  | .error f => .error (.fault f)

/-- The process `pid` is at `w` and leaves the module as `s`. -/
def goto (b : Bench) (pid : Nat) (w : Option Work) (s : State) : Bench :=
  ⟨s, Function.update b.works pid w⟩

/-- `system` with an `echo` of the request. -/
def echo (b : Bench) (pid : Nat) (w : Work) (r : Request) (block : Option Entry) (place : Place) :
    Except Failure Bench := do
  let s ← b.module? (.write ⟨r.echoed, block⟩)
  .ok (b.goto pid (some { w with place := place }) s)

def setProcess (b : Bench) (pid : Nat) (task : Option Process) : State :=
  { b.module with processes := Function.update b.module.processes pid task }

/-- A process goes on without the module. -/
def goOn (b : Bench) (pid : Nat) (w : Work) (d : Draw) : Except Failure Bench :=
  match w.goes d with
  | .ok w => .ok (b.goto pid (some w) b.module)
  | .error m => .error (.misuse m)

def main (b : Bench) (pid : Nat) (w : Work) (d : Draw) (block : Option Entry) :
    Except Failure Bench :=
  match w.place with
  | .registers => b.echo pid w (.register pid) block (.allocates 0)
  | .unregisters => b.echo pid w (.unregister pid) block .returns
  | .returns => .ok (b.goto pid none (b.setProcess pid none))
  | _ => b.goOn pid w d

def step (b : Bench) : Act → Except Failure Bench
  | .exec pid msize argv2 naccess =>
    .ok (b.goto pid (some (.start msize argv2 naccess)) (b.setProcess pid (some ⟨0, 0, 0, 0⟩)))
  | .run pid d block =>
    match b.works pid with
    | none => .ok b
    | some w => b.main pid w d block
  | .kill pid => .ok (b.goto pid none (b.setProcess pid none))
  | .kernel e => do
    let s ← b.module? e
    .ok { b with module := s }

/-- What the kernel and the C library see to: a new process gets a pid that is not in use, an
allocation in the kernel does not fail, and one in a process may; the works write nothing else to
the status file, and nobody else does. -/
def Enabled (b : Bench) : Act → Prop
  | .exec pid msize _ naccess =>
    0 < pid ∧ pid < 2 ^ 31 ∧ b.module.processes pid = none ∧ fitsInt msize ∧ fitsInt naccess
  | .run pid d block => block ≠ none ∧ ∃ w ∈ b.works pid, d.Proper w
  | .kill pid => (b.works pid).isSome
  | .kernel (.write _) => False
  | .kernel (.fork pid _) => b.module.processes pid = none
  | .kernel (.exit pid) => (b.works pid).isNone
  | .kernel e => Possible b.module e

instance decidableEnabled (b : Bench) (a : Act) : Decidable (b.Enabled a) :=
  match a with
  | .exec pid msize _ naccess =>
    inferInstanceAs (Decidable (0 < pid ∧ pid < 2 ^ 31 ∧ b.module.processes pid = none ∧
      fitsInt msize ∧ fitsInt naccess))
  | .run pid d block => inferInstanceAs (Decidable (block ≠ none ∧ ∃ w ∈ b.works pid, d.Proper w))
  | .kill pid => inferInstanceAs (Decidable ((b.works pid).isSome = true))
  | .kernel (.write _) => .isFalse id
  | .kernel (.fork pid _) => inferInstanceAs (Decidable (b.module.processes pid = none))
  | .kernel (.exit pid) => inferInstanceAs (Decidable ((b.works pid).isNone = true))
  | .kernel .fire => inferInstanceAs (Decidable (Possible b.module .fire))
  | .kernel .tick => .isTrue trivial
  | .kernel (.accrue _ _) => .isTrue trivial

/-- The process has registered and not unregistered. -/
def registered (v : Option Work) : Bool := v.any fun w => w.place.registered

/-- The process ends and its entry stays. -/
def leaves (b : Bench) : Act → Nat → Bool
  | .run pid _ _, q => decide (q = pid) && (b.works pid).any fun w => decide (w.place = .abandons 0)
  | .kill pid, q => decide (q = pid) && registered (b.works pid)
  | .exec _ _ _ _, _ => false
  | .kernel _, _ => false

/-- Kept of a run: for each pid the entries that were left behind. -/
def record (g : Nat → Nat) (b : Bench) (a : Act) : Nat → Nat := fun q => g q + (b.leaves a q).toNat

end Bench

/-! ## The echo -/

section

variable {r : Request} {s : State}

/-- The module reads the request that `main` writes. -/
theorem request_echoed (low : 1 ≤ r.pid) (high : r.pid < 2 ^ 31) (block : Option Entry) :
    (Write.mk r.echoed block).request = some r := by
  have fits : fitsInt r.pid = true := fitsInt_iff.mpr ⟨by omega, high⟩
  have plain : ∀ b ∈ r.echoed, b ≠ 0 := by
    intro b mem
    simp only [Request.echoed, List.mem_cons, List.mem_append, List.not_mem_nil, or_false] at mem
    rcases mem with rfl | rfl | mem | rfl
    · cases r <;> simp [Request.letter]
    · decide
    · exact formatInt_ne (by decide) (by decide) b mem
    · decide
  rw [request_eq_some_iff]
  exact ⟨32, _, cstr_eq_self plain, (kstrtoint_formatInt fits).2, low⟩

theorem toU32_pid {pid : Nat} (small : pid < 2 ^ 31) : toU32 (pid : Int) = pid := by
  unfold toU32
  omega

/-- A live process registers. -/
theorem step_register {pid : Nat} (free : s.lock = false) (positive : 0 < pid)
    (small : pid < 2 ^ 31) (alive : s.processes pid ≠ none) {block : Option Entry}
    (granted : block ≠ none) :
    ∃ new : Entry, new.pid = pid ∧
      MP3.step s (.write ⟨(Request.register pid).echoed, block⟩) =
        .ok { s with head := s.head ++ [new], pending := s.head.isEmpty || s.pending } := by
  obtain ⟨newStruct, rfl⟩ := Option.ne_none_iff_exists'.mp granted
  obtain ⟨task, found⟩ := Option.ne_none_iff_exists'.mp alive
  have request := request_echoed (r := .register pid) (Int.ofNat_le.mpr positive)
    (Int.ofNat_lt.mpr small) (some newStruct)
  refine ⟨{ newStruct with pid := pid }, rfl, ?_⟩
  simp only [MP3.step, mywrite, request, regEntry, findTaskByPid, toU32_pid small, found,
    spinLock_free free, bind, Except.bind]
  cases hs : s.head <;> simp [spinUnlock, queueDelayedWork, free]

/-- A process that is listed unregisters. -/
theorem step_unregister {pid : Nat} (free : s.lock = false) (positive : 0 < pid)
    (small : pid < 2 ^ 31) (listed : (pid : Int) ∈ s.head.map Entry.pid) (block : Option Entry) :
    ∃ rest, rest.map Entry.pid = (s.head.map Entry.pid).erase pid ∧ rest.Sublist s.head ∧
      MP3.step s (.write ⟨(Request.unregister pid).echoed, block⟩) =
        .ok { s with
          head := rest
          offset := if rest = [] then 0 else s.offset
          pending := !rest.isEmpty && s.pending } := by
  have request := request_echoed (r := .unregister pid) (Int.ofNat_le.mpr positive)
    (Int.ofNat_lt.mpr small) block
  obtain ⟨itr, mem, same⟩ := List.mem_map.mp listed
  have found : getByPid { s with lock := true } pid ≠ none := by
    simp only [getByPid, ne_eq, List.find?_eq_none, not_forall]
    exact ⟨itr, mem, by simp [same]⟩
  obtain ⟨task, found⟩ := Option.ne_none_iff_exists'.mp found
  refine ⟨s.head.eraseP fun itr => decide (itr.pid = (pid : Int)), ?_, List.eraseP_sublist, ?_⟩
  · rw [List.erase_eq_eraseP', List.eraseP_map]
    rfl
  · simp only [MP3.step, mywrite, request, unregEntry, spinLock_free free, bind, Except.bind, found]
    cases hr : s.head.eraseP fun itr => decide (itr.pid = (pid : Int)) <;>
      simp [spinUnlock, cancelDelayedWorkSync, free]

/-- No process goes away but by its exit. -/
theorem step_alive {t : State} {e : Event} {q : Nat} (h : MP3.step s e = .ok t)
    (alive : s.processes q ≠ none) (stays : e ≠ .exit q) : t.processes q ≠ none := by
  cases e with
  | write w =>
    rcases mywrite_ok h with ⟨-, rfl⟩ | ⟨-, -, new, -, rfl⟩ | ⟨-, -, rfl⟩ | ⟨-, rest, -, -, rfl⟩
    all_goals exact alive
  | fire =>
    rcases workqueueCallback_ok h with ⟨-, rfl⟩ | ⟨-, -, rfl⟩
    · exact alive
    · change (collect s.processes _ _).1 q ≠ none
      rw [collect_processes]
      split
      · simpa using alive
      · exact alive
  | tick => cases h; exact alive
  | fork pid task =>
    cases h
    by_cases this : q = pid
    · simp [this]
    · simpa [this] using alive
  | accrue pid task =>
    cases h
    by_cases this : q = pid
    · subst this
      simpa using alive
    · simpa [this] using alive
  | exit pid =>
    cases h
    have this : q ≠ pid := by
      rintro rfl
      exact stays rfl
    simpa [this] using alive

end

/-! ## The module and its works -/

open Bench

/-- Every entry is that of a registered process or was left behind, and every process is where its
program can be. -/
structure Manned (b : Bench) (g : Nat → Nat) : Prop where
  free : b.module.lock = false
  idle : b.module.head = [] → b.module.pending = false ∧ b.module.offset = 0
  named : ∀ itr ∈ b.module.head, ∃ pid : Nat, itr.pid = pid
  entries : ∀ pid : Nat, (b.module.head.map Entry.pid).count (pid : Int) =
    (registered (b.works pid)).toNat + g pid
  alive : ∀ pid w, b.works pid = some w →
    b.module.processes pid ≠ none ∧ 0 < pid ∧ pid < 2 ^ 31 ∧ w.Fit

/-- What a work is called with stays as it is, and a new one is called with what it is. -/
def Bench.Called (b : Bench) (a : Act) (b' : Bench) : Prop :=
  ∀ q w', b'.works q = some w' →
    (∃ w, b.works q = some w ∧ w'.locality = w.locality ∧ w'.naccess = w.naccess) ∨
    ∃ msize argv2 naccess, a = .exec q msize argv2 naccess ∧ w' = .start msize argv2 naccess

/-- A work goes on to an access in which `addr` overflows. -/
def Bench.Stuck (b : Bench) : Act → Prop
  | .run pid d _ => ∃ w ∈ b.works pid, w.Stuck d
  | _ => False

section

variable {b : Bench} {g g' : Nat → Nat} {pid : Nat} {w : Work} {s : State} {v : Option Work}

/-- One process goes on, and the module does something for it. -/
theorem Manned.turn (inv : Manned b g) (free : s.lock = false)
    (idle : s.head = [] → s.pending = false ∧ s.offset = 0)
    (named : ∀ itr ∈ s.head, ∃ pid : Nat, itr.pid = pid)
    (here : (s.head.map Entry.pid).count (pid : Int) = (registered v).toNat + g' pid)
    (others : ∀ q ≠ pid, (s.head.map Entry.pid).count (q : Int) =
      (b.module.head.map Entry.pid).count (q : Int) ∧ g' q = g q ∧
      s.processes q = b.module.processes q)
    (alive : ∀ w ∈ v, s.processes pid ≠ none ∧ 0 < pid ∧ pid < 2 ^ 31 ∧ w.Fit) :
    Manned (b.goto pid v s) g' := by
  refine ⟨free, idle, named, fun q => ?_, fun q w at_ => ?_⟩
  · by_cases this : q = pid
    · subst this
      simpa [Bench.goto] using here
    · obtain ⟨count, ghost, -⟩ := others q this
      simp only [Bench.goto, Function.update_of_ne this, count, ghost]
      exact inv.entries q
  · by_cases this : q = pid
    · subst this
      simp only [Bench.goto, Function.update_self] at at_
      exact alive w at_
    · simp only [Bench.goto, Function.update_of_ne this] at at_ ⊢
      rw [(others q this).2.2]
      exact inv.alive q w at_

/-- A process goes on by itself. -/
theorem Manned.goes {w' : Work} (inv : Manned b g) (at_ : b.works pid = some w)
    (fit : w'.Fit) (same : w'.place.registered = w.place.registered) :
    Manned (b.goto pid (some w') b.module) g := by
  obtain ⟨alive, positive, small, -⟩ := inv.alive pid w at_
  refine inv.turn inv.free inv.idle inv.named ?_ (fun q _ => ⟨rfl, rfl, rfl⟩) ?_
  · rw [inv.entries pid, at_]
    simp [registered, same]
  · rintro w ⟨⟩
    exact ⟨alive, positive, small, fit⟩

/-- The entry of a process that ends stays on the list. -/
theorem Manned.ends (inv : Manned b g)
    (left : g' = fun q => g q + (decide (q = pid) && registered (b.works pid)).toNat) :
    Manned (b.goto pid none (b.setProcess pid none)) g' := by
  refine inv.turn inv.free inv.idle inv.named ?_ (fun q other => ⟨rfl, ?_, ?_⟩) ?_
  · rw [left]
    change (b.module.head.map Entry.pid).count (pid : Int) = _
    rw [inv.entries pid]
    simp [registered, Nat.add_comm]
  · simp [left, other]
  · exact Function.update_of_ne other _ _
  · rintro w ⟨⟩

theorem echo_ok {r : Request} {block : Option Entry} {place : Place}
    (stepped : MP3.step b.module (.write ⟨r.echoed, block⟩) = .ok s) :
    b.echo pid w r block place = .ok (b.goto pid (some { w with place := place }) s) := by
  simp only [Bench.echo, Bench.module?, stepped, bind, Except.bind]

theorem Manned.registers (inv : Manned b g) (at_ : b.works pid = some w)
    (here : w.place = .registers) {block : Option Entry} (granted : block ≠ none) :
    ∃ s, b.echo pid w (.register pid) block (.allocates 0) =
        .ok (b.goto pid (some { w with place := .allocates 0 }) s) ∧
      Manned (b.goto pid (some { w with place := .allocates 0 }) s) g := by
  obtain ⟨alive, positive, small, fit⟩ := inv.alive pid w at_
  simp only [Work.Fit, here] at fit
  obtain ⟨new, named, stepped⟩ := step_register inv.free positive small alive granted
  refine ⟨_, echo_ok stepped, ?_⟩
  have entries := inv.entries pid
  refine inv.turn inv.free (by simp) ?_ ?_ (fun q other => ⟨?_, rfl, rfl⟩) ?_
  · intro itr mem
    rcases List.mem_append.mp mem with mem | mem
    · exact inv.named itr mem
    · rw [List.mem_singleton.mp mem]
      exact ⟨pid, named⟩
  · simp only [registered, at_, Option.any_some, here, Place.registered, Bool.toNat_false]
      at entries
    simp [entries, named, registered, Place.registered, Nat.add_comm]
  · have differ : ¬ (pid : Int) = q := by
      intro same
      exact other (Int.ofNat.inj same).symm
    simp [named, differ]
  · rintro w ⟨⟩
    refine ⟨alive, positive, small, ⟨fit.1.msize, fit.1.naccess⟩, ?_, ?_, ?_⟩
    · have := fit.1.msize.1
      dsimp only
      omega
    · simp [fit.2]
    · simp [fit.2]

theorem Manned.unregisters (inv : Manned b g) (at_ : b.works pid = some w)
    (here : w.place = .unregisters) (block : Option Entry) :
    ∃ s, b.echo pid w (.unregister pid) block .returns =
        .ok (b.goto pid (some { w with place := .returns }) s) ∧
      Manned (b.goto pid (some { w with place := .returns }) s) g := by
  obtain ⟨alive, positive, small, fit⟩ := inv.alive pid w at_
  simp only [Work.Fit, here] at fit
  have entries := inv.entries pid
  simp only [registered, at_, Option.any_some, here, Place.registered, Bool.toNat_true] at entries
  have listed : (pid : Int) ∈ b.module.head.map Entry.pid := by
    apply List.count_pos_iff.mp
    omega
  obtain ⟨rest, pids, sub, stepped⟩ := step_unregister inv.free positive small listed block
  refine ⟨_, echo_ok stepped, ?_⟩
  refine inv.turn inv.free ?_ (fun itr mem => inv.named itr (sub.subset mem)) ?_
    (fun q other => ⟨?_, rfl, rfl⟩) ?_
  · intro emptied
    have emptied : rest = [] := emptied
    simp [emptied]
  · rw [pids, List.count_erase_self, entries]
    simp [registered, Place.registered]
  · have differ : (q : Int) ≠ pid := fun same => other (Int.ofNat.inj same)
    rw [pids, List.count_erase_of_ne differ]
  · rintro w ⟨⟩
    exact ⟨alive, positive, small, fit.2⟩

theorem Manned.exec (inv : Manned b g) {msize naccess : Int} {argv2 : List UInt8}
    (enabled : b.Enabled (.exec pid msize argv2 naccess)) :
    Manned (b.goto pid (some (.start msize argv2 naccess))
      (b.setProcess pid (some ⟨0, 0, 0, 0⟩))) g := by
  obtain ⟨positive, small, free, -⟩ := enabled
  have nobody : b.works pid = none := by
    cases at_ : b.works pid with
    | none => rfl
    | some w => exact absurd free (inv.alive pid w at_).1
  have entries := inv.entries pid
  rw [nobody] at entries
  have starts : (Work.start msize argv2 naccess).place.registered = false := by
    unfold Work.start
    simp only
    split_ifs <;> rfl
  refine inv.turn inv.free inv.idle inv.named ?_ (fun q other => ⟨rfl, rfl, ?_⟩) ?_
  · change (b.module.head.map Entry.pid).count (pid : Int) = _
    rw [entries]
    simp [registered, starts]
  · exact Function.update_of_ne other _ _
  · rintro w ⟨⟩
    exact ⟨by simp [Bench.setProcess], positive, small, start_fit msize argv2 naccess⟩

/-- What happens beside the works leaves the pids on the list as they are. -/
theorem Manned.kernel (inv : Manned b g) {e : Event} (enabled : b.Enabled (.kernel e)) :
    ∃ s, MP3.step b.module e = .ok s ∧ Manned ⟨s, b.works⟩ g := by
  have keeps {s : State} (stepped : MP3.step b.module e = .ok s) (free : s.lock = false)
      (idle : s.head = [] → s.pending = false ∧ s.offset = 0)
      (pids : s.head.map Entry.pid = b.module.head.map Entry.pid)
      (stays : ∀ q, b.works q ≠ none → e ≠ .exit q) : Manned ⟨s, b.works⟩ g := by
    refine ⟨free, idle, ?_, ?_, ?_⟩
    · intro itr mem
      obtain ⟨old, before, same⟩ := List.mem_map.mp (pids ▸ List.mem_map_of_mem mem)
      exact same ▸ inv.named old before
    · intro q
      rw [pids]
      exact inv.entries q
    · intro q w at_
      have at_ : b.works q = some w := at_
      obtain ⟨alive, rest⟩ := inv.alive q w at_
      exact ⟨step_alive stepped alive (stays q (by simp [at_])), rest⟩
  cases e with
  | write w => exact absurd enabled id
  | fire =>
    have queued : b.module.pending = true := enabled
    cases filled : b.module.bufferFilledUp with
    | true =>
      have stepped : MP3.step b.module .fire = .ok (cancelDelayedWorkSync b.module) := by
        simp [MP3.step, workqueueCallback, cancelDelayedWorkSync, filled]
      refine ⟨_, stepped, keeps stepped inv.free ?_ rfl fun _ _ => by simp⟩
      intro none
      exact ⟨rfl, (inv.idle none).2⟩
    | false =>
      have stepped : MP3.step b.module .fire = .ok (takeSample (cancelDelayedWorkSync b.module)) :=
        workqueueCallback_samples filled inv.free
      have pids : (takeSample (cancelDelayedWorkSync b.module)).head.map Entry.pid =
          b.module.head.map Entry.pid := collect_pids _ _ _
      refine ⟨_, stepped, keeps stepped inv.free ?_ pids fun _ _ => by simp⟩
      -- work is queued only while entries are listed
      intro none
      rw [none, List.map_nil, eq_comm, List.map_eq_nil_iff] at pids
      rw [(inv.idle pids).1] at queued
      cases queued
  | tick => exact ⟨_, rfl, keeps rfl inv.free inv.idle rfl fun _ _ => by simp⟩
  | fork pid task => exact ⟨_, rfl, keeps rfl inv.free inv.idle rfl fun _ _ => by simp⟩
  | accrue pid task => exact ⟨_, rfl, keeps rfl inv.free inv.idle rfl fun _ _ => by simp⟩
  | exit pid =>
    refine ⟨_, rfl, keeps rfl inv.free inv.idle rfl ?_⟩
    rintro q works ⟨⟩
    exact works (Option.isNone_iff_eq_none.mp enabled)

theorem record_stays {a : Act} (stays : ∀ q, b.leaves a q = false) : Bench.record g b a = g := by
  funext q
  rw [Bench.record, stays q]
  rfl

theorem called_goto {a : Act} (same : ∀ w' ∈ v, ∃ w, b.works pid = some w ∧
    w'.locality = w.locality ∧ w'.naccess = w.naccess) : b.Called a (b.goto pid v s) := by
  intro q w' at_
  by_cases this : q = pid
  · subst this
    simp only [Bench.goto, Function.update_self] at at_
    exact .inl (same w' at_)
  · simp only [Bench.goto, Function.update_of_ne this] at at_
    exact .inl ⟨w', at_, rfl, rfl⟩

/-- Only the end of the clean-up after a failed `malloc` takes a process from where it is
registered. -/
theorem goes_registered {w' : Work} {d : Draw} (h : w.goes d = .ok w')
    (inside : w.place.outside = false) (stays : w.place ≠ .abandons 0) :
    w'.place.registered = w.place.registered := by
  have next := (goes_ok h).2 inside
  generalize w.place = p at next stays
  generalize w'.place = p' at next
  cases next with
  | abandoned => exact absurd rfl stays
  | _ => rfl

/-- A work in its own code. -/
theorem Manned.goes_on (inv : Manned b g) (at_ : b.works pid = some w)
    (inside : w.place.outside = false) {d : Draw} (proper : d.Proper w) (block : Option Entry) :
    (∃ b', b.goOn pid w d = .ok b' ∧ Manned b' (Bench.record g b (.run pid d block)) ∧
      b.Called (.run pid d block) b') ∨
    b.goOn pid w d = .error (.misuse .overflow) ∧ b.Stuck (.run pid d block) := by
  unfold Bench.goOn
  obtain ⟨w', gone, fit⟩ | ⟨stuck, overflow⟩ :=
    goes_fit (inv.alive pid w at_).2.2.2 proper
  · rw [gone]
    refine .inl ⟨_, rfl, ?_, called_goto ?_⟩
    · by_cases last : w.place = .abandons 0
      · have returned : w' = { w with place := .returns } := by
          simp only [Work.goes, last, Except.ok.injEq] at gone
          exact gone.symm
        obtain ⟨alive, positive, small, -⟩ := inv.alive pid w at_
        refine inv.turn inv.free inv.idle inv.named ?_ (fun q other => ⟨rfl, ?_, rfl⟩) ?_
        · rw [inv.entries pid]
          simp [Bench.record, Bench.leaves, at_, last, returned, registered, Place.registered,
            Nat.add_comm]
        · simp [Bench.record, Bench.leaves, other]
        · rintro w ⟨⟩
          exact ⟨alive, positive, small, fit⟩
      · rw [record_stays (by simp [Bench.leaves, at_, last])]
        exact inv.goes at_ fit (goes_registered gone inside last)
    · rintro u ⟨⟩
      rw [(goes_ok gone).1]
      exact ⟨w, at_, rfl, rfl⟩
  · rw [overflow]
    exact .inr ⟨rfl, w, at_, stuck⟩

/-- The step lemma. -/
theorem manned_step {a : Act} (inv : Manned b g) (enabled : b.Enabled a) :
    (∃ b', b.step a = .ok b' ∧ Manned b' (Bench.record g b a) ∧ b.Called a b') ∨
    b.step a = .error (.misuse .overflow) ∧ b.Stuck a := by
  cases a with
  | exec pid msize argv2 naccess =>
    refine .inl ⟨_, rfl, ?_, ?_⟩
    · rw [record_stays fun _ => rfl]
      exact inv.exec enabled
    · intro q w' at_
      by_cases this : q = pid
      · subst this
        simp only [Bench.goto, Function.update_self] at at_
        exact .inr ⟨msize, argv2, naccess, rfl, (Option.some.inj at_).symm⟩
      · simp only [Bench.goto, Function.update_of_ne this] at at_
        exact .inl ⟨w', at_, rfl, rfl⟩
  | kill pid =>
    refine .inl ⟨_, rfl, inv.ends rfl, called_goto ?_⟩
    rintro w ⟨⟩
  | kernel e =>
    obtain ⟨s, stepped, kept⟩ := inv.kernel enabled
    refine .inl ⟨⟨s, b.works⟩, ?_, ?_, fun q w at_ => .inl ⟨w, at_, rfl, rfl⟩⟩
    · simp only [Bench.step, Bench.module?, stepped, bind, Except.bind]
    · rwa [record_stays fun _ => rfl]
  | run pid d block =>
    obtain ⟨granted, w, at_, proper⟩ := enabled
    have at_ : b.works pid = some w := at_
    have step : b.step (.run pid d block) = b.main pid w d block := by
      simp only [Bench.step, at_]
    have keeps (place : Place) (s : State) :
        b.Called (.run pid d block) (b.goto pid (some { w with place := place }) s) := by
      apply called_goto
      rintro u ⟨⟩
      exact ⟨w, at_, rfl, rfl⟩
    rw [step]
    cases here : w.place with
    | registers =>
      obtain ⟨s, done, kept⟩ := inv.registers at_ here granted
      simp only [Bench.main, here, done]
      refine .inl ⟨_, rfl, ?_, keeps _ _⟩
      rwa [record_stays (by simp [Bench.leaves, at_, here])]
    | unregisters =>
      obtain ⟨s, done, kept⟩ := inv.unregisters at_ here block
      simp only [Bench.main, here, done]
      refine .inl ⟨_, rfl, ?_, keeps _ _⟩
      rwa [record_stays (by simp [Bench.leaves, at_, here])]
    | returns =>
      refine .inl ⟨b.goto pid none (b.setProcess pid none), by simp only [Bench.main, here], ?_,
        called_goto (by rintro w ⟨⟩)⟩
      apply inv.ends
      funext q
      simp [Bench.record, Bench.leaves, at_, here, registered, Place.registered]
    | allocates i =>
      simp only [Bench.main, here]
      exact inv.goes_on at_ (by rw [here]; rfl) proper block
    | abandons n =>
      simp only [Bench.main, here]
      exact inv.goes_on at_ (by rw [here]; rfl) proper block
    | accesses k j addr =>
      simp only [Bench.main, here]
      exact inv.goes_on at_ (by rw [here]; rfl) proper block
    | frees i =>
      simp only [Bench.main, here]
      exact inv.goes_on at_ (by rw [here]; rfl) proper block

/-! ## Termination -/

/-- The most steps that the process `pid` still takes. -/
def Bench.left (b : Bench) (pid : Nat) : Nat := ((b.works pid).map Work.left).getD 0

def Bench.Act.runs (pid : Nat) : Act → Bool
  | .run q _ _ => decide (q = pid)
  | _ => false

def Bench.Act.execs (pid : Nat) : Act → Bool
  | .exec q _ _ _ => decide (q = pid)
  | _ => false

/-- What holds of every run. -/
theorem Manned.run {es : List Act} {b' : Bench} (inv : Manned b g)
    (run : Run Bench.step Bench.Enabled b es b') : ∃ g', Manned b' g' := by
  refine run.invariant (I := fun b => ∃ g, Manned b g) ⟨g, inv⟩ ?_
  rintro b a b' ⟨g, inv⟩ enabled stepped
  obtain ⟨b'', stepped', kept, -⟩ | ⟨overflow, -⟩ := manned_step inv enabled
  · cases stepped.symm.trans stepped'
    exact ⟨_, kept⟩
  · cases stepped.symm.trans overflow

theorem left_pos (w : Work) : 0 < w.left := by
  unfold Work.left
  cases w.place <;> simp

end

/-! ## Runs -/

theorem Manned.init (vm : Nat → Nat) (jiffies : Nat) (processes : Nat → Option Process) :
    Manned (Bench.init vm jiffies processes) fun _ => 0 := by
  refine ⟨rfl, fun _ => ⟨rfl, rfl⟩, ?_, fun _ => rfl, ?_⟩
  · rintro itr ⟨⟩
  · rintro pid w ⟨⟩

section

variable {vm : Nat → Nat} {jiffies : Nat} {processes : Nat → Option Process} {es : List Act}

end

/-! ## How many accesses are safe -/

/-- A process that is not told to access at random makes at most so many accesses an iteration. -/
def Bench.Act.Within (limit : Int) : Act → Prop
  | .exec _ _ argv2 naccess => argv2.headD 0 = 82 ∨ naccess ≤ limit
  | _ => True

instance (limit : Int) (a : Act) : Decidable (a.Within limit) :=
  match a with
  | .exec _ _ argv2 naccess => inferInstanceAs (Decidable (argv2.headD 0 = 82 ∨ naccess ≤ limit))
  | .run _ _ _ => .isTrue trivial
  | .kill _ => .isTrue trivial
  | .kernel _ => .isTrue trivial

/-- The runs of such processes. -/
abbrev Modest (limit : Int) (start : Bench) (es : List Act) (b : Bench) : Prop :=
  Run Bench.step (fun b a => b.Enabled a ∧ a.Within limit) start es b

section

variable {limit : Int} {b : Bench} {es : List Act}

end

end KernelModules.MP3
