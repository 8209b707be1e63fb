import Mathlib.Tactic.Common

/-!
# A lock between threads and callbacks

Threads and callbacks take turns at one lock. Some of the threads' operations, while they hold
it, wait until no callback is under way: if a callback is under way and waits for the lock then,
neither of the two goes on. An abstract view of such a program keeps who has the lock and who
waits, and a program whose steps are seen as `Move`s keeps clear of that.
-/

namespace KernelModules

/-- A thread does not have the lock, has it, or has it in an operation that waits for the
callbacks. -/
inductive Hold
  | out
  | holds
  | syncs
  deriving DecidableEq, Repr

/-- A callback is not under way, waits for the lock, or has it. -/
inductive Callback
  | idle
  | waits
  | holds
  deriving DecidableEq, Repr

/-- A module is in use, being unloaded, or gone from the file system. -/
inductive Phase
  | live
  | going
  | removed
  deriving DecidableEq, Repr

/-- Why a party cannot make a step: it is somewhere else, the lock is held, a callback is not
over or not there, the module is not in use, or a NULL from `kmalloc` is used. -/
inductive Blocked
  | elsewhere
  | lock
  | callback
  | phase
  | oops
  deriving DecidableEq, Repr

structure Handover (ι κ : Type) where
  lock : Bool
  thread : ι → Hold
  callback : κ → Callback

variable {ι κ : Type}

/-- One party at a time has the lock, and no callback waits for it while a thread that has it
waits for the callbacks. -/
structure Handover.Sound (c : Handover ι κ) : Prop where
  taken : ∀ i, c.thread i ≠ .out → c.lock = true
  taken' : ∀ k, c.callback k = .holds → c.lock = true
  alone : ∀ i j, c.thread i ≠ .out → c.thread j ≠ .out → i = j
  alone' : ∀ k l, c.callback k = .holds → c.callback l = .holds → k = l
  apart : ∀ i k, c.thread i ≠ .out → c.callback k ≠ .holds
  clear : ∀ i k, c.thread i = .syncs → c.callback k ≠ .waits

/-- Only the thread `i` is seen to change. -/
def Handover.ByThread (c d : Handover ι κ) (i : ι) : Prop :=
  (∀ j, j ≠ i → d.thread j = c.thread j) ∧ ∀ k, d.callback k = c.callback k

/-- Only the callback `k` is seen to change. -/
def Handover.ByCallback (c d : Handover ι κ) (k : κ) : Prop :=
  (∀ i, d.thread i = c.thread i) ∧ ∀ l, l ≠ k → d.callback l = c.callback l

/-- The steps that keep clear. A thread takes the lock for an operation that waits for the
callbacks only when none waits for the lock, and a callback starts only when no thread is in
such an operation. Whoever gives up the lock may or may not release it. -/
inductive Handover.Move (c d : Handover ι κ) : Prop
  | stay (lock : d.lock = c.lock) (threads : ∀ i, d.thread i = c.thread i)
      (callbacks : ∀ k, d.callback k = c.callback k)
  | take (i : ι) (free : c.lock = false) (lock : d.lock = true) (only : c.ByThread d i)
      (careful : d.thread i = .syncs → ∀ k, c.callback k ≠ .waits)
  | give (i : ι) (had : c.thread i ≠ .out) (gone : d.thread i = .out) (only : c.ByThread d i)
  | start (k : κ) (lock : d.lock = c.lock) (waits : d.callback k = .waits) (only : c.ByCallback d k)
      (careful : ∀ i, c.thread i ≠ .syncs)
  | enter (k : κ) (free : c.lock = false) (lock : d.lock = true) (only : c.ByCallback d k)
  | leave (k : κ) (had : c.callback k = .holds) (gone : d.callback k = .idle)
      (only : c.ByCallback d k)

namespace Handover

variable {c d : Handover ι κ}

/-- Before anybody has moved. -/
theorem Sound.initial (out : ∀ i, c.thread i = .out) (idle : ∀ k, c.callback k = .idle) :
    c.Sound := by
  constructor
  all_goals simp [out, idle]

/-- With the lock free nobody has it. -/
theorem Sound.nobody (sound : c.Sound) (free : c.lock = false) (i : ι) : c.thread i = .out := by
  by_contra had
  rw [sound.taken i had] at free
  cases free

theorem Sound.nobody' (sound : c.Sound) (free : c.lock = false) (k : κ) :
    c.callback k ≠ .holds := by
  intro had
  rw [sound.taken' k had] at free
  cases free

theorem Sound.take (sound : c.Sound) {i : ι} (free : c.lock = false) (lock : d.lock = true)
    (only : c.ByThread d i) (careful : d.thread i = .syncs → ∀ k, c.callback k ≠ .waits) :
    d.Sound := by
  obtain ⟨threads, callbacks⟩ := only
  have own (j : ι) (has : d.thread j ≠ .out) : j = i := by
    by_contra other
    rw [threads j other] at has
    exact has (sound.nobody free j)
  refine ⟨fun _ _ => lock, fun _ _ => lock, ?_, ?_, ?_, ?_⟩
  · intro j j' has has'
    rw [own j has, own j' has']
  · intro k l has
    rw [callbacks] at has
    exact absurd has (sound.nobody' free k)
  · intro j k _
    rw [callbacks]
    exact sound.nobody' free k
  · intro j k syncs
    rw [own j (by rw [syncs]; decide)] at syncs
    rw [callbacks]
    exact careful syncs k

theorem Sound.give (sound : c.Sound) {i : ι} (had : c.thread i ≠ .out) (gone : d.thread i = .out)
    (only : c.ByThread d i) : d.Sound := by
  obtain ⟨threads, callbacks⟩ := only
  have nobody (j : ι) : d.thread j = .out := by
    by_cases same : j = i
    · rw [same, gone]
    · rw [threads j same]
      by_contra has
      exact same (sound.alone j i has had)
  have none (k : κ) : d.callback k ≠ .holds := by
    rw [callbacks]
    exact sound.apart i k had
  refine ⟨fun j has => absurd (nobody j) has, fun k has => absurd has (none k),
    fun j _ has => absurd (nobody j) has, fun k _ has => absurd has (none k), fun _ k _ => none k,
    fun j _ syncs => ?_⟩
  rw [nobody j] at syncs
  cases syncs

theorem Sound.start (sound : c.Sound) {k : κ} (lock : d.lock = c.lock)
    (waits : d.callback k = .waits) (only : c.ByCallback d k)
    (careful : ∀ i, c.thread i ≠ .syncs) : d.Sound := by
  obtain ⟨threads, callbacks⟩ := only
  have before (l : κ) (has : d.callback l = .holds) : c.callback l = .holds := by
    by_cases same : l = k
    · rw [same, waits] at has
      cases has
    · rw [← callbacks l same, has]
  refine ⟨?_, ?_, ?_, ?_, ?_, ?_⟩
  · intro i has
    rw [lock]
    exact sound.taken i (threads i ▸ has)
  · intro l has
    rw [lock]
    exact sound.taken' l (before l has)
  · intro i j has has'
    exact sound.alone i j (threads i ▸ has) (threads j ▸ has')
  · intro l l' has has'
    exact sound.alone' l l' (before l has) (before l' has')
  · intro i l has holds
    exact sound.apart i l (threads i ▸ has) (before l holds)
  · intro i l syncs
    exact absurd (threads i ▸ syncs) (careful i)

theorem Sound.enter (sound : c.Sound) {k : κ} (free : c.lock = false) (lock : d.lock = true)
    (only : c.ByCallback d k) : d.Sound := by
  obtain ⟨threads, callbacks⟩ := only
  have nobody (i : ι) : d.thread i = .out := by
    rw [threads]
    exact sound.nobody free i
  have own (l : κ) (has : d.callback l = .holds) : l = k := by
    by_contra other
    rw [callbacks l other] at has
    exact sound.nobody' free l has
  refine ⟨fun _ _ => lock, fun _ _ => lock, fun i _ has => absurd (nobody i) has, ?_,
    fun i _ has => absurd (nobody i) has, fun i _ syncs => ?_⟩
  · intro l l' has has'
    rw [own l has, own l' has']
  · rw [nobody i] at syncs
    cases syncs

theorem Sound.leave (sound : c.Sound) {k : κ} (had : c.callback k = .holds)
    (gone : d.callback k = .idle) (only : c.ByCallback d k) : d.Sound := by
  obtain ⟨threads, callbacks⟩ := only
  have nobody (i : ι) : d.thread i = .out := by
    rw [threads]
    by_contra has
    exact sound.apart i k has had
  have none (l : κ) : d.callback l ≠ .holds := by
    intro has
    by_cases same : l = k
    · rw [same, gone] at has
      cases has
    · rw [callbacks l same] at has
      exact same (sound.alone' l k has had)
  refine ⟨fun i has => absurd (nobody i) has, fun l has => absurd has (none l),
    fun i _ has => absurd (nobody i) has, fun l _ has => absurd has (none l), fun _ l _ => none l,
    fun i _ syncs => ?_⟩
  rw [nobody i] at syncs
  cases syncs

theorem Sound.move (sound : c.Sound) (move : c.Move d) : d.Sound := by
  cases move with
  | stay lock threads callbacks =>
    obtain ⟨taken, taken', alone, alone', apart, clear⟩ := sound
    constructor
    all_goals simp only [lock, threads, callbacks]
    all_goals assumption
  | take i free lock only careful => exact sound.take free lock only careful
  | give i had gone only => exact sound.give had gone only
  | start k lock waits only careful => exact sound.start lock waits only careful
  | enter k free lock only => exact sound.enter free lock only
  | leave k had gone only => exact sound.leave had gone only

end Handover

end KernelModules
