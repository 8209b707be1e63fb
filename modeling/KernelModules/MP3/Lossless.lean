import KernelModules.MP3.Drain

/-!
# What the monitor misses

Run as `test.sh` runs it, after new samples and before the next session begins, the monitor
prints every sample once and in order, provided that sessions stay within `BUFD_MAX` elements.
The module records up to `VM_ELEMENT_SIZE` of them, and what lies behind `BUFD_MAX` is never
printed.
-/

namespace KernelModules.MP3

/-- The discipline of `test.sh`: a monitor run has a sample to read that is new since the last
run, a session begins to record when all samples before it have been read, and no session
records more samples than the monitor's part of the buffer holds. The clock never shows -1. -/
def Disciplined (x : State × Trace) : Action → Prop
  | .module .fire =>
    x.1.pending = true ∧ (x.2.session = 0 → x.2.unread = 0) ∧ x.2.session < bufdMax / 4 ∧
      x.1.jiffies ≠ termination
  | .module _ => True
  | .monitor => 0 < x.2.unread

instance Disciplined.decidable (x : State × Trace) (a : Action) : Decidable (Disciplined x a) :=
  match a with
  | .module .fire =>
    inferInstanceAs (Decidable (x.1.pending = true ∧ (x.2.session = 0 → x.2.unread = 0) ∧
      x.2.session < bufdMax / 4 ∧ x.1.jiffies ≠ termination))
  | .module (.write _) => .isTrue trivial
  | .module .tick => .isTrue trivial
  | .module (.fork _ _) => .isTrue trivial
  | .module (.accrue _ _) => .isTrue trivial
  | .module (.exit _) => .isTrue trivial
  | .monitor => inferInstanceAs (Decidable (0 < x.2.unread))

/-- The samples are those printed so far and those waiting in the buffer. -/
structure Complete (x : State × Trace) : Prop where
  clean : Clean x
  short : x.2.latest.length ≤ reach
  split : ∃ past, x.2.recorded = past ++ x.2.latest.drop x.2.read ∧
    x.2.unread = (x.2.latest.drop x.2.read).length ∧
    x.2.printed.map Line.values = past.map Sample.fields

section

variable {s : State} {g : Trace}

theorem Complete.unread (inv : Complete (s, g)) (unread : 0 < g.unread) :
    g.read < min g.latest.length reach := by
  obtain ⟨past, -, count, -⟩ := inv.split
  have short : g.latest.length ≤ reach := inv.short
  simp only [List.length_drop] at count
  omega

theorem Complete.fresh {a : Action} (inv : Complete (s, g)) (disciplined : Disciplined (s, g) a) :
    Fresh (s, g) a := by
  cases a with
  | monitor => exact .inl (inv.unread disciplined)
  | module e =>
    cases e with
    | fire => exact ⟨disciplined.1, disciplined.2.2.2⟩
    | write w => trivial
    | tick => trivial
    | fork pid task => trivial
    | accrue pid task => trivial
    | exit pid => trivial

theorem unreadOf_all {latest : List Sample} {read : Nat} (short : latest.length ≤ reach) :
    unreadOf latest read = latest.drop read := by
  apply List.take_of_length_le
  rw [List.length_drop]
  omega

theorem complete_act {x y : State × Trace} {a : Action} (inv : Complete x)
    (disciplined : Disciplined x a) (h : ghosted act trace x a = .ok y) : Complete y := by
  obtain ⟨s, g⟩ := x
  obtain ⟨t, g'⟩ := y
  have clean := clean_act inv.clean (inv.fresh disciplined) h
  obtain ⟨past, recorded, count, printed⟩ := inv.split
  have short : g.latest.length ≤ reach := inv.short
  simp only at recorded count printed
  rcases act_ok h with ⟨-, -, -, ⟨-, rfl⟩ | ⟨-, rfl⟩⟩ | ⟨rfl, -, x, -, -, -, -, rfl⟩ |
    ⟨rfl, rfl, rfl⟩
  · exact ⟨clean, short, past, recorded, count, printed⟩
  · exact ⟨clean, short, past, recorded, count, printed⟩
  · obtain ⟨-, drained, room, -⟩ := disciplined
    by_cases first : g.session = 0
    · have nothing : g.latest.drop g.read = [] := by
        apply List.eq_nil_of_length_eq_zero
        rw [← count]
        exact drained first
      have latest : (g.sample x).latest = [x] := by simp [Trace.sample, first]
      have read : (g.sample x).read = 0 := by simp [Trace.sample, first]
      refine ⟨clean, ?_, past, ?_, ?_, printed⟩
      · rw [latest]
        exact show 1 ≤ reach by decide
      · rw [latest, read, Trace.sample, recorded, nothing, List.append_nil]
        rfl
      · rw [latest, read]
        change g.unread + 1 = 1
        rw [count, nothing]
        rfl
    · have length : g.latest.length = g.session := inv.clean.counted.latest first
      have within : g.read ≤ g.latest.length := inv.clean.window.within
      have latest : (g.sample x).latest = g.latest ++ [x] := by simp [Trace.sample, first]
      have read : (g.sample x).read = g.read := by simp [Trace.sample, first]
      refine ⟨clean, ?_, past, ?_, ?_, printed⟩
      · rw [latest, List.length_append, List.length_singleton, length]
        exact room
      · rw [latest, read, List.drop_append_of_le_length within, ← List.append_assoc, ← recorded]
        rfl
      · rw [latest, read, List.drop_append_of_le_length within, List.length_append, ← count]
        rfl
  · have all : min g.latest.length reach = g.latest.length := Nat.min_eq_left short
    refine ⟨clean, short, past ++ g.latest.drop g.read, ?_, ?_, ?_⟩
    · simp only [trace, all, List.drop_length, List.append_nil, recorded]
    · simp only [trace, all, List.drop_length, List.length_nil]
    · simp only [trace, inv.clean.window.monitor (inv.unread disciplined) inv.clean.clock,
        List.map_append, printed, linesAt_values, unreadOf_all short]

end

/-- In every disciplined run the lines printed are the samples recorded before the monitor last
ran, each once and in order. -/
theorem monitor_lossless {vm : Nat → Nat} {jiffies : Nat} {processes : Nat → Option Process}
    {as : List Action} {x : State × Trace}
    (run : Run (ghosted act trace) Disciplined (State.init vm jiffies processes, .empty) as x) :
    x.2.printed.map Line.values =
      (x.2.recorded.take (x.2.recorded.length - x.2.unread)).map Sample.fields := by
  have inv : Complete x := by
    apply run.invariant
    · exact ⟨clean_init vm jiffies processes, Nat.zero_le _, [], rfl, rfl, rfl⟩
    · intro x a y inv disciplined stepped
      exact complete_act inv disciplined stepped
  obtain ⟨past, recorded, count, printed⟩ := inv.split
  have before : x.2.recorded.length - x.2.unread = past.length := by
    rw [recorded, count, List.length_append]
    omega
  rw [printed, before, recorded, List.take_left]

/-- Two sessions, the first one read in two runs of the monitor. -/
theorem monitor_lossless_two_sessions :
    ∃ x, Run (ghosted act trace) Disciplined (State.init (fun _ => 5) 0 (fun _ => none), .empty)
        [.module (.fork 7 ⟨1, 0, 2, 3⟩),
          .module (.write ⟨bytes "R 7", some ⟨0, 0, 0, 0, 0⟩⟩), .module .fire, .monitor,
          .module .tick, .module .fire, .module .tick, .module .fire,
          .module (.write ⟨bytes "U 7", none⟩), .monitor,
          .module (.write ⟨bytes "R 7", some ⟨0, 0, 0, 0, 0⟩⟩),
          .module (.accrue 7 ⟨4, 0, 0, 0⟩), .module .fire, .monitor] x ∧
      x.2.recorded = [⟨0, 1, 0, 5⟩, ⟨1, 0, 0, 0⟩, ⟨2, 0, 0, 0⟩, ⟨2, 4, 0, 0⟩] ∧
      x.2.printed.map Line.values =
        [[0, 1, 0, 5], [1, 0, 0, 0], [2, 0, 0, 0], [2, 4, 0, 0]] := by
  refine Run.exists_of_replay (fun x => (x.2.recorded, x.2.unread))
    (a := ([⟨0, 1, 0, 5⟩, ⟨1, 0, 0, 0⟩, ⟨2, 0, 0, 0⟩, ⟨2, 4, 0, 0⟩], 0)) (by decide +kernel)
    fun x run fields => ?_
  obtain ⟨recorded, unread⟩ := Prod.mk.inj fields
  refine ⟨recorded, ?_⟩
  rw [monitor_lossless run, recorded, unread]
  rfl

/-! ## The capacity -/

/-- The lines of `n` runs of the monitor, one after the other. -/
def monitors : Nat → (Nat → Nat) → List Line
  | 0, _ => []
  | n + 1, buf => (monitor buf).1 ++ monitors n (monitor buf).2

theorem monitors_line {n : Nat} {buf : Nat → Nat} {line : Line} (mem : line ∈ monitors n buf) :
    ∃ (buf : Nat → Nat) (i : Nat), buf i ≠ termination ∧ line = (printLine buf i).1 := by
  induction n generalizing buf with
  | zero => exact absurd mem List.not_mem_nil
  | succ n ih =>
    rcases List.mem_append.mp mem with now | later
    · exact printLines_line now
    · exact ih later

/-- A sample that is printed lies in the monitor's part of the buffer and does not begin
with -1. -/
theorem printed_inside {n i : Nat} {buf : Nat → Nat} {x : Sample}
    (mem : x.line i ∈ monitors n buf) : i + 1 < bufdMax ∧ x.jiffies ≠ termination := by
  obtain ⟨buf, j, begins, same⟩ := monitors_line mem
  simp only [Sample.line, printLine, printField, List.cons.injEq, Prod.mk.injEq] at same
  obtain ⟨⟨rfl, first⟩, ⟨second, -⟩, -⟩ := same
  rw [second, first]
  exact ⟨wrap_lt _, begins⟩

/-- Until the monitor runs, the buffer holds the latest session whole, whatever the monitor did
before. -/
theorem whole_session {vm : Nat → Nat} {jiffies : Nat} {processes : Nat → Option Process}
    {as : List Action} {x : State × Trace}
    (run : Run (ghosted act trace) Allowed (State.init vm jiffies processes, .empty) as x) :
    Counted x ∧ (x.2.read = 0 → Window x.1.vm x.2.latest 0) := by
  apply run.invariant
  · exact ⟨(clean_init vm jiffies processes).counted, fun _ => window_empty vm⟩
  · rintro ⟨s, g⟩ a ⟨t, g'⟩ ⟨counted, whole⟩ - stepped
    refine ⟨counted_act counted stepped, ?_⟩
    rcases act_ok stepped with ⟨-, buffer, -, ⟨-, rfl⟩ | ⟨-, rfl⟩⟩ |
      ⟨-, unfilled, x, -, buffer, -, -, rfl⟩ | ⟨rfl, rfl, rfl⟩
    · exact fun read => buffer ▸ whole read
    · exact fun read => buffer ▸ whole read
    · intro read
      have window := counted.window unfilled (fun later => ?_) x
      · have read : (g.sample x).read = 0 := read
        rw [read] at window
        exact buffer ▸ window
      · have before : g.read = 0 := by simpa [Trace.sample, later] using read
        rw [before]
        exact whole before
    · intro read
      have none : g.latest = [] := by
        have empty : min g.latest.length reach = 0 := read
        have positive : 0 < reach := by decide
        exact List.eq_nil_of_length_eq_zero (by omega)
      simp only [trace, none]
      exact window_empty _

theorem getElem_mem_linesAt {l : List Sample} {i j : Nat} (bound : j < l.length) :
    l[j].line (i + 4 * j) ∈ linesAt i l := by
  induction l generalizing i j with
  | nil => exact absurd bound (Nat.not_lt_zero j)
  | cons x l ih =>
    cases j with
    | zero => exact List.mem_cons_self
    | succ j =>
      have later := ih (i := i + 4) (j := j) (Nat.lt_of_succ_lt_succ bound)
      rw [Nat.add_assoc, Nat.add_comm 4, ← Nat.mul_succ] at later
      exact List.mem_cons_of_mem _ later

/-- Whatever happened before, any number of runs of the monitor after the latest session print
every sample of it, exactly when there are no more than 12000 and none was taken when the clock
showed -1. `read` is 0 as long as the monitor has not run since the session took a sample. -/
theorem capacity_agreed_iff {vm : Nat → Nat} {jiffies : Nat} {processes : Nat → Option Process}
    {as : List Action} {x : State × Trace}
    (run : Run (ghosted act trace) Allowed (State.init vm jiffies processes, .empty) as x)
    (after : x.2.read = 0) (n : Nat) :
    (∀ j (bound : j < x.2.latest.length),
      x.2.latest[j].line (4 * j) ∈ monitors (n + 1) x.1.vm) ↔
    x.2.latest.length ≤ 12000 ∧ ∀ sample ∈ x.2.latest, sample.jiffies ≠ termination := by
  constructor
  · intro all
    constructor
    · by_contra long
      have inside := (printed_inside (all 12000 (by omega))).1
      exact absurd inside (by decide)
    · intro sample mem
      obtain ⟨j, bound, rfl⟩ := List.getElem_of_mem mem
      exact (printed_inside (all j bound)).2
  · rintro ⟨short, clock⟩ j bound
    have window := (whole_session run).2 after
    have waiting : 0 < min x.2.latest.length reach := by
      have positive : 0 < reach := by decide
      omega
    have everything : unreadOf x.2.latest 0 = x.2.latest := by
      rw [unreadOf_all (show x.2.latest.length ≤ reach from short), List.drop_zero]
    have mem := getElem_mem_linesAt (i := 0) bound
    rw [Nat.zero_add] at mem
    apply List.mem_append_left
    rw [window.monitor waiting clock, everything]
    exact mem

/-- A session of two samples. -/
theorem capacity_agreed_iff_two_samples :
    ∃ x, Run (ghosted act trace) Allowed (State.init (fun _ => 5) 0 (fun _ => none), .empty)
        [.module (.fork 7 ⟨1, 0, 2, 3⟩),
          .module (.write ⟨bytes "R 7", some ⟨0, 0, 0, 0, 0⟩⟩), .module .fire, .module .fire,
          .module (.write ⟨bytes "U 7", none⟩)] x ∧
      x.2.latest.length = 2 ∧ ∀ j (bound : j < x.2.latest.length),
        x.2.latest[j].line (4 * j) ∈ monitors 1 x.1.vm := by
  refine Run.exists_of_replay (fun x => (x.2.latest, x.2.read))
    (a := ([⟨0, 1, 0, 5⟩, ⟨0, 0, 0, 0⟩], 0)) (by decide +kernel) fun x run fields => ?_
  obtain ⟨latest, read⟩ := Prod.mk.inj fields
  refine ⟨by rw [latest]; rfl, (capacity_agreed_iff run read 0).mpr ?_⟩
  rw [latest]
  decide

section

variable {start x : State × Trace} {as : List Action}

/-- A session that has begun can take as many samples as the test on `offset` lets it. -/
theorem fires_trace (run : Run (ghosted act trace) Allowed start as x)
    (queued : x.1.pending = true) (free : x.1.lock = false)
    (unfilled : x.1.bufferFilledUp = false) (begun : x.2.session ≠ 0) (n : Nat)
    (fits : x.1.offset + 4 * n < vmElementSize) :
    ∃ y, Run (ghosted act trace) Allowed start (as ++ List.replicate n (.module .fire)) y ∧
      y.1.pending = true ∧ y.1.lock = false ∧ y.1.bufferFilledUp = false ∧
      y.1.offset = x.1.offset + 4 * n ∧ y.2.session = x.2.session + n ∧ y.2.read = x.2.read := by
  induction n with
  | zero =>
    rw [List.replicate_zero, List.append_nil]
    exact ⟨x, run, queued, free, unfilled, rfl, rfl, rfl⟩
  | succ n ih =>
    obtain ⟨y, reached, queued, free, unfilled, offset, session, read⟩ := ih (by omega)
    have small : y.1.offset < vmElementSize := by omega
    have next : nextOffset y.1.offset = x.1.offset + 4 * (n + 1) := by
      rw [nextOffset_small small, offset]
      omega
    have stepped : act y.1 (.module .fire) = .ok (takeSample (cancelDelayedWorkSync y.1)) :=
      workqueueCallback_samples (s := cancelDelayedWorkSync y.1) unfilled free
    have traced : trace y.2 y.1 (.module .fire) = y.2.sample y.1.collected.2.1 := by
      simp [trace, callbackSample, unfilled]
    have later : y.2.session ≠ 0 := by omega
    refine ⟨(takeSample (cancelDelayedWorkSync y.1), y.2.sample y.1.collected.2.1), ?_, rfl, free,
      ?_, next, ?_, ?_⟩
    · rw [List.replicate_succ', ← List.append_assoc]
      exact reached.next queued (by simp only [ghosted, stepped, Except.map, traced])
    · change (y.1.bufferFilledUp || decide (nextOffset y.1.offset ≥ vmElementSize)) = false
      rw [unfilled, next, Bool.false_or, decide_eq_false_iff_not]
      omega
    · change y.2.session + 1 = x.2.session + (n + 1)
      omega
    · simp only [Trace.sample, later, ↓reduceIte, read]

end

/-- Of a session of 12001 samples, which the module takes without declaring the buffer filled,
the last one is never printed. -/
theorem sample_out_of_reach :
    ¬ ∀ (vm : Nat → Nat) (jiffies : Nat) (processes : Nat → Option Process) (as : List Action)
      (x : State × Trace),
      Run (ghosted act trace) Allowed (State.init vm jiffies processes, .empty) as x →
      x.1.bufferFilledUp = false → x.2.read = 0 → ∀ n j (bound : j < x.2.latest.length),
      x.2.latest[j].line (4 * j) ∈ monitors (n + 1) x.1.vm := by
  intro all
  have h : (replay (ghosted act trace) Allowed (State.init (fun _ => 5) 0 (fun _ => none), .empty)
      [.module (.fork 7 ⟨1, 0, 2, 3⟩),
        .module (.write ⟨bytes "R 7", some ⟨0, 0, 0, 0, 0⟩⟩), .module .fire]).map
        (fun x => (x.1.pending, x.1.lock, x.1.bufferFilledUp, x.1.offset, x.2.session, x.2.read)) =
      some (true, false, false, 4, 1, 0) := by decide +kernel
  obtain ⟨x, replayed, fields⟩ := Option.map_eq_some_iff.mp h
  obtain ⟨queued, free, unfilled, offset, session, read⟩ : x.1.pending = true ∧ x.1.lock = false ∧
      x.1.bufferFilledUp = false ∧ x.1.offset = 4 ∧ x.2.session = 1 ∧ x.2.read = 0 := by
    simpa using fields
  obtain ⟨y, run, -, -, room, -, count, none⟩ := fires_trace (.of_replay replayed) queued free
    unfilled (by rw [session]; decide) 12000 (by rw [offset]; decide)
  have length : y.2.latest.length = 12001 := by
    rw [(whole_session run).1.latest (by omega), count, session]
  have mem := all _ _ _ _ y run room (none.trans read) 0 12000 (by omega)
  exact absurd (printed_inside mem).1 (by decide)

end KernelModules.MP3
