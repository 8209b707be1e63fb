import KernelModules.MP3.Monitor

/-!
# The module and the monitor on one buffer

The module appends samples and puts -1 behind the last one, the monitor erases what it prints:
the buffer begins with a part that is drained, then come the samples that were not read yet,
then -1, and then whatever was there before. As long as the monitor runs only when there is
something to read within its reach, it prints samples and nothing else.
-/

namespace KernelModules.MP3

inductive Action
  | module (e : Event)
  /-- A run of the monitor. -/
  | monitor
  deriving DecidableEq, Repr

def act (s : State) : Action → Except Fault State
  | .module e => step s e
  | .monitor => .ok { s with vm := (monitor s.vm).2 }

/-- Kept of a run: the samples, how many of them since the list was last empty and since the
monitor last ran, those of the latest session with samples and how many of these the monitor
has had in reach, and the lines printed. -/
structure Trace where
  recorded : List Sample
  session : Nat
  unread : Nat
  latest : List Sample
  read : Nat
  printed : List Line
  deriving DecidableEq, Repr

def Trace.empty : Trace := ⟨[], 0, 0, [], 0, []⟩

/-- The samples within the reach of the monitor. -/
def reach : Nat := bufdMax / 4

def Trace.sample (g : Trace) (x : Sample) : Trace :=
  { g with
    recorded := g.recorded ++ [x]
    session := g.session + 1
    unread := g.unread + 1
    latest := if g.session = 0 then [x] else g.latest ++ [x]
    read := if g.session = 0 then 0 else g.read }

def trace (g : Trace) (s : State) : Action → Trace
  | .module .fire => (callbackSample s).foldl Trace.sample g
  | .module (.write w) => if empties s w then { g with session := 0 } else g
  | .module _ => g
  | .monitor =>
    { g with
      unread := 0
      read := min g.latest.length reach
      printed := g.printed ++ (monitor s.vm).1 }

/-- Only queued work fires; the monitor runs whenever it likes. -/
def Allowed (x : State × Trace) : Action → Prop
  | .module e => Possible x.1 e
  | .monitor => True

instance Allowed.decidable (x : State × Trace) (a : Action) : Decidable (Allowed x a) :=
  match a with
  | .module e => inferInstanceAs (Decidable (Possible x.1 e))
  | .monitor => .isTrue trivial

/-! ## The buffer -/

/-- The buffer holds the samples `latest`, of which the first `read` are drained. -/
structure Window (vm : Nat → Nat) (latest : List Sample) (read : Nat) : Prop where
  within : read ≤ latest.length
  drained : ∀ i, i < 4 * read → vm i = termination
  live : Laid vm (4 * read) ((latest.drop read).flatMap Sample.fields)
  terminated : latest ≠ [] → 4 * latest.length < vmElementSize →
    vm (4 * latest.length) = termination

section

variable {vm : Nat → Nat} {latest : List Sample} {read : Nat} {x : Sample}

theorem window_empty (vm : Nat → Nat) : Window vm [] 0 :=
  ⟨Nat.le_refl 0, fun _ h => absurd h (Nat.not_lt_zero _), laid_nil _ _, fun h => absurd rfl h⟩

/-- The first sample of a session starts the buffer over, whatever was in it. -/
theorem window_first (vm : Nat → Nat) (x : Sample) : Window (store vm (stores 0 x)) [x] 0 := by
  refine ⟨Nat.zero_le _, fun _ h => absurd h (Nat.not_lt_zero _), ?_, fun _ _ => ?_⟩
  · rw [List.drop_zero, List.flatMap_singleton]
    exact store_laid
  · exact store_terminated (by decide)

/-- A further sample overwrites the -1 behind the last one. -/
theorem Window.next (window : Window vm latest read)
    (room : 4 * latest.length < vmElementSize) :
    Window (store vm (stores (4 * latest.length) x)) (latest ++ [x]) read := by
  obtain ⟨within, drained, live, -⟩ := window
  have next := nextOffset_small room
  constructor
  · rw [List.length_append]
    omega
  · intro i below
    rw [store_below (by omega), drained i below]
  · have behind : 4 * read + ((latest.drop read).flatMap Sample.fields).length =
        4 * latest.length := by
      rw [fields_length, List.length_drop]
      omega
    rw [List.drop_append_of_le_length within, List.flatMap_append, laid_append, behind,
      List.flatMap_singleton]
    refine ⟨live.congr ?_, store_laid⟩
    intro j _ below
    rw [behind] at below
    exact store_below below
  · intro _ short
    rw [List.length_append, List.length_singleton, Nat.mul_add, Nat.mul_one] at short ⊢
    exact store_terminated (by omega)

theorem four_reach : 4 * reach = bufdMax := by decide

/-- Behind the samples in reach stands -1: the one the module put there, or, where the reach
ends, the first element of the buffer, which is drained by then. -/
theorem Window.stop (window : Window vm latest read) (pending : read < min latest.length reach) :
    erased vm (4 * read) (4 * (min latest.length reach - read))
      (wrap (4 * min latest.length reach)) = termination := by
  have ring := four_reach
  unfold wrap
  split
  · unfold erased
    split
    · rfl
    · exact window.drained 0 (by omega)
  · have all : min latest.length reach = latest.length := by omega
    have inside : bufdMax < vmElementSize := by decide
    rw [all, erased, if_neg (by omega)]
    apply window.terminated
    · rintro rfl
      simp at pending
    · omega

/-- The samples the monitor finds. -/
def unreadOf (latest : List Sample) (read : Nat) : List Sample :=
  (latest.drop read).take (reach - read)

theorem unreadOf_length (latest : List Sample) (read : Nat) :
    (unreadOf latest read).length = min latest.length reach - read := by
  rw [unreadOf, List.length_take, List.length_drop]
  omega

theorem drop_read (reached : read ≤ reach) :
    latest.drop read = unreadOf latest read ++ latest.drop (min latest.length reach) := by
  have rest : latest.drop reach = latest.drop (min latest.length reach) := by
    by_cases short : latest.length ≤ reach
    · rw [Nat.min_eq_left short, List.drop_length, List.drop_eq_nil_of_le short]
    · rw [Nat.min_eq_right (by omega)]
  rw [← rest, unreadOf]
  conv_lhs => rw [← List.take_append_drop (reach - read) (latest.drop read)]
  rw [List.drop_drop, Nat.add_sub_cancel' reached]

/-- The monitor prints the samples in its reach that are not drained, and erases them. -/
theorem Window.monitor (window : Window vm latest read) (pending : read < min latest.length reach)
    (clock : ∀ x ∈ latest, x.jiffies ≠ termination) :
    monitor vm = (linesAt (4 * read) (unreadOf latest read),
      erased vm (4 * read) (4 * (min latest.length reach - read))) := by
  have ring := four_reach
  have count := unreadOf_length latest read
  have laid : Laid vm (4 * read) ((unreadOf latest read).flatMap Sample.fields) := by
    have live := window.live
    rw [← List.take_append_drop (reach - read) (latest.drop read), List.flatMap_append,
      laid_append] at live
    exact live.1
  have known : ∀ x ∈ unreadOf latest read, x.jiffies ≠ termination := fun x hx =>
    clock x (List.mem_of_mem_drop (List.mem_of_mem_take hx))
  have begins : vm (4 * read) ≠ termination := by
    cases found : unreadOf latest read with
    | nil =>
      rw [found, List.length_nil] at count
      omega
    | cons x l =>
      rw [found] at laid known
      rw [laid.1]
      exact known x List.mem_cons_self
  have start : scan vm bufdMax 0 = wrap (4 * read) := by
    rw [wrap_small (by omega)]
    exact scan_first (fun j _ below => window.drained j below) begins (Nat.zero_le _) (by omega)
  have behind : 4 * read + 4 * (min latest.length reach - read) = 4 * min latest.length reach := by
    omega
  rw [MP3.monitor, start, printLines_samples laid (by omega) known
    (by rw [count, behind]; exact window.stop pending) (by omega), count]

/-- What the monitor leaves is drained as far as it reaches. -/
theorem Window.drain (window : Window vm latest read) (pending : read < min latest.length reach) :
    Window (erased vm (4 * read) (4 * (min latest.length reach - read))) latest
      (min latest.length reach) := by
  obtain ⟨within, drained, live, terminated⟩ := window
  constructor
  · exact Nat.min_le_left _ _
  · intro i below
    unfold erased
    split
    · rfl
    · exact drained i (by omega)
  · rw [drop_read (by omega), List.flatMap_append, laid_append, fields_length,
      unreadOf_length] at live
    have position : 4 * read + 4 * (min latest.length reach - read) =
        4 * min latest.length reach := by omega
    rw [position] at live
    apply live.2.congr
    intro j above _
    rw [erased, if_neg (by omega)]
  · intro some short
    unfold erased
    split
    · rfl
    · exact terminated some short

/-- With nothing but -1 in its reach the monitor prints nothing. -/
theorem monitor_nothing (blank : ∀ i, i ≤ bufdMax → vm i = termination) :
    MP3.monitor vm = ([], vm) := by
  have behind : scan vm bufdMax 0 = bufdMax := by
    rw [scan_none fun j _ below => blank j (by omega), Nat.zero_add]
  rw [MP3.monitor, behind]
  simp only [printLines, blank bufdMax (Nat.le_refl _), ne_eq, not_true_eq_false, ↓reduceIte]

theorem Window.blank (window : Window vm latest read) (reached : read ≤ reach)
    (blank : ∀ i, i ≤ bufdMax → vm i = termination) :
    Window vm latest (min latest.length reach) := by
  obtain ⟨within, drained, live, terminated⟩ := window
  have ring := four_reach
  refine ⟨Nat.min_le_left _ _, fun i below => blank i (by omega), ?_, terminated⟩
  rw [drop_read reached, List.flatMap_append, laid_append, fields_length, unreadOf_length] at live
  have position : 4 * read + 4 * (min latest.length reach - read) =
      4 * min latest.length reach := by omega
  rw [position] at live
  exact live.2

end

/-! ## What an action does -/

section

variable {s t : State} {g g' : Trace} {a : Action}

/-- The module leaves the buffer alone, and may end a session, or takes a sample; the monitor
runs. -/
theorem act_ok (h : ghosted act trace (s, g) a = .ok (t, g')) :
    (a ≠ .monitor ∧ t.vm = s.vm ∧ t.bufferFilledUp = s.bufferFilledUp ∧
      (t.offset = s.offset ∧ g' = g ∨ t.offset = 0 ∧ g' = { g with session := 0 })) ∨
    (a = .module .fire ∧ s.bufferFilledUp = false ∧ ∃ x : Sample, x.jiffies = s.jiffies ∧
      t.vm = store s.vm (stores s.offset x) ∧ t.offset = nextOffset s.offset ∧
      t.bufferFilledUp = decide (nextOffset s.offset ≥ vmElementSize) ∧ g' = g.sample x) ∨
    (a = .monitor ∧ t = { s with vm := (monitor s.vm).2 } ∧ g' = trace g s .monitor) := by
  obtain ⟨stepped, rfl⟩ := ghosted_ok h
  simp only at stepped
  cases a with
  | monitor =>
    cases stepped
    exact .inr (.inr ⟨rfl, rfl, rfl⟩)
  | module e =>
    cases e with
    | write w =>
      have buffer : t.vm = s.vm := by
        rcases mywrite_ok stepped with ⟨-, rfl⟩ | ⟨-, -, new, -, rfl⟩ | ⟨-, -, rfl⟩ |
          ⟨-, rest, -, -, rfl⟩ <;> rfl
      obtain ⟨filled, offset⟩ := mywrite_offset stepped
      refine .inl ⟨by simp, buffer, filled, ?_⟩
      cases ended : empties s w with
      | false =>
        simp only [ended, Bool.false_eq_true, ↓reduceIte] at offset
        exact .inl ⟨offset, by simp [trace, ended]⟩
      | true =>
        simp only [ended, ↓reduceIte] at offset
        exact .inr ⟨offset, by simp [trace, ended]⟩
    | fire =>
      rcases workqueueCallback_ok stepped with ⟨filled, rfl⟩ | ⟨unfilled, -, rfl⟩
      · have filled : s.bufferFilledUp = true := filled
        exact .inl ⟨by simp, rfl, rfl, .inl ⟨rfl, by simp [trace, callbackSample, filled]⟩⟩
      · have unfilled : s.bufferFilledUp = false := unfilled
        refine .inr (.inl ⟨rfl, unfilled, s.collected.2.1, collect_jiffies _ _ _, rfl, rfl, ?_, ?_⟩)
        · change (s.bufferFilledUp || decide (nextOffset s.offset ≥ vmElementSize)) = _
          rw [unfilled, Bool.false_or]
        · simp [trace, callbackSample, unfilled]
    | tick => cases stepped; exact .inl ⟨by simp, rfl, rfl, .inl ⟨rfl, rfl⟩⟩
    | fork pid task => cases stepped; exact .inl ⟨by simp, rfl, rfl, .inl ⟨rfl, rfl⟩⟩
    | accrue pid task => cases stepped; exact .inl ⟨by simp, rfl, rfl, .inl ⟨rfl, rfl⟩⟩
    | exit pid => cases stepped; exact .inl ⟨by simp, rfl, rfl, .inl ⟨rfl, rfl⟩⟩

end

/-- The trace describes the sampler, whenever the monitor runs. -/
structure Counted (x : State × Trace) : Prop where
  offset : x.1.offset = 4 * x.2.session
  latest : x.2.session ≠ 0 → x.2.latest.length = x.2.session
  room : x.1.bufferFilledUp = false → x.1.offset < vmElementSize
  within : x.2.read ≤ min x.2.latest.length reach

theorem Counted.sample {s t : State} {g : Trace} {x : Sample} (inv : Counted (s, g))
    (unfilled : s.bufferFilledUp = false) (offset : t.offset = nextOffset s.offset)
    (filled : t.bufferFilledUp = decide (nextOffset s.offset ≥ vmElementSize)) :
    Counted (t, g.sample x) := by
  obtain ⟨position, latest, room, within⟩ := inv
  simp only at position latest room within
  have next := nextOffset_small (room unfilled)
  refine ⟨?_, fun _ => ?_, fun more => ?_, ?_⟩
  · change t.offset = 4 * (g.session + 1)
    rw [offset, next, position]
    omega
  · simp only [Trace.sample]
    split
    · rename_i first
      rw [first]
      rfl
    · rename_i later
      rw [List.length_append, latest later, List.length_singleton]
  · rw [filled, decide_eq_false_iff_not] at more
    simp only [offset]
    omega
  · simp only [Trace.sample]
    split
    · exact Nat.zero_le _
    · rw [List.length_append]
      omega

theorem counted_act {x y : State × Trace} {a : Action} (inv : Counted x)
    (h : ghosted act trace x a = .ok y) : Counted y := by
  obtain ⟨s, g⟩ := x
  obtain ⟨t, g'⟩ := y
  rcases act_ok h with ⟨-, -, filled, ⟨offset, rfl⟩ | ⟨offset, rfl⟩⟩ |
    ⟨-, unfilled, x, -, -, offset, filled, rfl⟩ | ⟨-, rfl, rfl⟩
  · exact ⟨offset.trans inv.offset, inv.latest, fun more => offset ▸ inv.room (filled ▸ more),
      inv.within⟩
  · exact ⟨offset, fun more => absurd rfl more, fun _ => offset ▸ vmElementSize_pos, inv.within⟩
  · exact inv.sample unfilled offset filled
  · exact ⟨inv.offset, inv.latest, inv.room, Nat.le_refl _⟩

/-- A sample goes behind the ones of its session, or starts the buffer over. -/
theorem Counted.window {s : State} {g : Trace} (inv : Counted (s, g))
    (unfilled : s.bufferFilledUp = false)
    (window : g.session ≠ 0 → Window s.vm g.latest g.read) (x : Sample) :
    Window (store s.vm (stores s.offset x)) (g.sample x).latest (g.sample x).read := by
  have offset : s.offset = 4 * g.session := inv.offset
  by_cases first : g.session = 0
  · rw [offset, first]
    simp only [Trace.sample, first, ↓reduceIte]
    exact window_first s.vm x
  · have count : g.latest.length = g.session := inv.latest first
    have room : s.offset < vmElementSize := inv.room unfilled
    rw [offset, ← count] at room ⊢
    simp only [Trace.sample, first, ↓reduceIte]
    exact (window first).next room

/-! ## Runs that keep to the samples -/

/-- The monitor runs when the latest session has a sample within its reach that was not read
yet, or when there is nothing but -1 within its reach; and the clock never shows -1. -/
def Fresh (x : State × Trace) : Action → Prop
  | .module .fire => x.1.pending = true ∧ x.1.jiffies ≠ termination
  | .module _ => True
  | .monitor =>
    x.2.read < min x.2.latest.length reach ∨ ∀ i, i ≤ bufdMax → x.1.vm i = termination

instance Fresh.decidable (x : State × Trace) (a : Action) : Decidable (Fresh x a) :=
  match a with
  | .module .fire => inferInstanceAs (Decidable (x.1.pending = true ∧ x.1.jiffies ≠ termination))
  | .module (.write _) => .isTrue trivial
  | .module .tick => .isTrue trivial
  | .module (.fork _ _) => .isTrue trivial
  | .module (.accrue _ _) => .isTrue trivial
  | .module (.exit _) => .isTrue trivial
  | .monitor =>
    inferInstanceAs (Decidable
      (x.2.read < min x.2.latest.length reach ∨ ∀ i, i ≤ bufdMax → x.1.vm i = termination))

/-- The buffer as the trace has it. -/
structure Clean (x : State × Trace) : Prop where
  counted : Counted x
  window : Window x.1.vm x.2.latest x.2.read
  clock : ∀ sample ∈ x.2.latest, sample.jiffies ≠ termination

section

variable {s t : State} {g : Trace}

theorem mem_latest_sample {x y : Sample} (mem : y ∈ (g.sample x).latest) :
    y ∈ g.latest ∨ y = x := by
  simp only [Trace.sample] at mem
  split at mem
  · exact .inr (List.mem_singleton.mp mem)
  · rcases List.mem_append.mp mem with old | new
    · exact .inl old
    · exact .inr (List.mem_singleton.mp new)

/-- What the monitor prints in a clean state. -/
theorem Clean.printed (inv : Clean (s, g)) (fresh : Fresh (s, g) .monitor) :
    (monitor s.vm).1 = linesAt (4 * g.read) (unreadOf g.latest g.read) ∨
      (monitor s.vm).1 = [] := by
  rcases fresh with pending | blank
  · exact .inl (by rw [inv.window.monitor pending inv.clock])
  · exact .inr (by rw [monitor_nothing blank])

theorem clean_act {x y : State × Trace} {a : Action} (inv : Clean x) (fresh : Fresh x a)
    (h : ghosted act trace x a = .ok y) : Clean y := by
  have counted := counted_act inv.counted h
  obtain ⟨s, g⟩ := x
  obtain ⟨t, g'⟩ := y
  rcases act_ok h with ⟨-, buffer, -, ⟨-, rfl⟩ | ⟨-, rfl⟩⟩ |
    ⟨rfl, unfilled, x, clock, buffer, -, -, rfl⟩ | ⟨rfl, rfl, rfl⟩
  · exact ⟨counted, buffer ▸ inv.window, inv.clock⟩
  · exact ⟨counted, buffer ▸ inv.window, inv.clock⟩
  · refine ⟨counted, buffer ▸ inv.counted.window unfilled (fun _ => inv.window) x, ?_⟩
    intro sample mem
    rcases mem_latest_sample mem with old | rfl
    · exact inv.clock sample old
    · rw [clock]
      exact fresh.2
  · refine ⟨counted, ?_, inv.clock⟩
    rcases fresh with pending | blank
    · simp only [inv.window.monitor pending inv.clock]
      exact inv.window.drain pending
    · simp only [monitor_nothing blank]
      exact inv.window.blank (Nat.le_trans inv.counted.within (Nat.min_le_right _ _)) blank

end

theorem clean_init (vm : Nat → Nat) (jiffies : Nat) (processes : Nat → Option Process) :
    Clean (State.init vm jiffies processes, .empty) :=
  ⟨⟨rfl, fun more => absurd rfl more, fun _ => vmElementSize_pos, Nat.zero_le _⟩, window_empty vm,
    fun _ mem => absurd mem List.not_mem_nil⟩

theorem mem_linesAt {i : Nat} {l : List Sample} {line : Line} (mem : line ∈ linesAt i l) :
    ∃ x ∈ l, ∃ j, line = x.line j := by
  induction l generalizing i with
  | nil => exact absurd mem List.not_mem_nil
  | cons x l ih =>
    rcases List.mem_cons.mp mem with rfl | later
    · exact ⟨x, List.mem_cons_self, i, rfl⟩
    · obtain ⟨y, hy, found⟩ := ih later
      exact ⟨y, List.mem_cons_of_mem x hy, found⟩

/-- What has been printed comes from the callback. -/
structure Honest (x : State × Trace) : Prop where
  clean : Clean x
  latest : ∀ sample ∈ x.2.latest, sample ∈ x.2.recorded
  printed : ∀ line ∈ x.2.printed, ∃ sample ∈ x.2.recorded, ∃ i, line = sample.line i

theorem honest_act {x y : State × Trace} {a : Action} (inv : Honest x) (fresh : Fresh x a)
    (h : ghosted act trace x a = .ok y) : Honest y := by
  have clean := clean_act inv.clean fresh h
  obtain ⟨s, g⟩ := x
  obtain ⟨t, g'⟩ := y
  rcases act_ok h with ⟨-, -, -, ⟨-, rfl⟩ | ⟨-, rfl⟩⟩ | ⟨-, -, x, -, -, -, -, rfl⟩ |
    ⟨rfl, rfl, rfl⟩
  · exact ⟨clean, inv.latest, inv.printed⟩
  · exact ⟨clean, inv.latest, inv.printed⟩
  · refine ⟨clean, fun sample mem => ?_, fun line mem => ?_⟩
    · apply List.mem_append.mpr
      rcases mem_latest_sample mem with old | rfl
      · exact .inl (inv.latest sample old)
      · exact .inr List.mem_cons_self
    · obtain ⟨sample, stored, found⟩ := inv.printed line mem
      exact ⟨sample, List.mem_append_left _ stored, found⟩
  · refine ⟨clean, inv.latest, fun line mem => ?_⟩
    rcases List.mem_append.mp mem with old | new
    · exact inv.printed line old
    · rcases inv.clean.printed fresh with some | none
      · rw [some] at new
        obtain ⟨sample, unread, found⟩ := mem_linesAt new
        exact ⟨sample, inv.latest sample (List.mem_of_mem_drop (List.mem_of_mem_take unread)),
          found⟩
      · rw [none] at new
        exact absurd new List.not_mem_nil

/-- In every run that keeps to the conditions of `Fresh`, every line the monitor prints is one
sample that the callback stored, field by field. -/
theorem lines_are_samples {vm : Nat → Nat} {jiffies : Nat} {processes : Nat → Option Process}
    {as : List Action} {x : State × Trace}
    (run : Run (ghosted act trace) Fresh (State.init vm jiffies processes, .empty) as x) :
    ∀ line ∈ x.2.printed, ∃ sample ∈ x.2.recorded, ∃ i, line = sample.line i := by
  have inv : Honest x := by
    apply run.invariant
    · exact ⟨clean_init vm jiffies processes, fun _ mem => absurd mem List.not_mem_nil,
        fun _ mem => absurd mem List.not_mem_nil⟩
    · intro x a y inv fresh stepped
      exact honest_act inv fresh stepped
  exact inv.printed

/-- The monitor runs after the second session has overwritten a part of the first. -/
theorem lines_are_samples_overwritten :
    ∃ x, Run (ghosted act trace) Fresh (State.init (fun _ => 5) 0 (fun _ => none), .empty)
        [.module (.fork 7 ⟨1, 0, 2, 3⟩),
          .module (.write ⟨bytes "R 7", some ⟨0, 0, 0, 0, 0⟩⟩), .module .fire, .module .fire,
          .module (.write ⟨bytes "U 7", none⟩),
          .module (.write ⟨bytes "R 7", some ⟨0, 0, 0, 0, 0⟩⟩), .module .tick, .module .fire,
          .monitor] x ∧
      x.2.printed.map Line.values = [[1, 0, 0, 0]] ∧
      ∀ line ∈ x.2.printed, ∃ sample ∈ x.2.recorded, ∃ i, line = sample.line i := by
  refine Run.exists_of_replay (fun x => x.2.printed.map Line.values) (a := [[1, 0, 0, 0]])
    (by decide +kernel) fun x run printed => ?_
  exact ⟨printed, lines_are_samples run⟩

/-- A monitor that runs before the first sample prints what `vmalloc` left in the buffer. -/
theorem lines_fabricated :
    ¬ ∀ (vm : Nat → Nat) (jiffies : Nat) (processes : Nat → Option Process) (as : List Action)
      (x : State × Trace),
      Run (ghosted act trace) Allowed (State.init vm jiffies processes, .empty) as x →
      ∀ line ∈ x.2.printed, ∃ sample ∈ x.2.recorded, ∃ i, line = sample.line i := by
  intro right
  have h : (replay (ghosted act trace) Allowed
      (State.init (fun i => if i < 4 then 5 else termination) 0 (fun _ => none), .empty)
      [.monitor]).map (fun x => (x.2.recorded, x.2.printed)) =
      some ([], [[(0, 5), (1, 5), (2, 5), (3, 5)]]) := by decide +kernel
  obtain ⟨x, replayed, fields⟩ := Option.map_eq_some_iff.mp h
  obtain ⟨recorded, printed⟩ := Prod.mk.inj fields
  obtain ⟨sample, stored, -⟩ := right _ _ _ _ x (.of_replay replayed)
    [(0, 5), (1, 5), (2, 5), (3, 5)] (by rw [printed]; exact List.mem_cons_self)
  rw [recorded] at stored
  exact absurd stored List.not_mem_nil

end KernelModules.MP3
