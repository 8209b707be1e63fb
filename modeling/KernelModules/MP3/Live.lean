import KernelModules.Lib.Progress
import KernelModules.MP3.Drain

/-!
# A monitor that runs while samples are taken

`main` of `monitor.c` access by access, with callbacks, requests and processes in between: the
loop looks for the first element that is not -1, and then each element of a line is read and
printed, and erased in a further step. The callback runs as a whole, under its spin lock.
-/

namespace KernelModules.MP3

/-- Where the monitor is. `line` is what it has printed of the current line. -/
inductive Reader
  | away
  /-- In the `for` loop. -/
  | scans (index : Nat)
  /-- At the condition of the `while` loop. -/
  | tests (index : Nat)
  /-- At a `printf`. -/
  | prints (line : List Nat) (index : Nat)
  /-- At the assignment behind it. -/
  | erases (line : List Nat) (index : Nat)
  deriving DecidableEq, Repr

/-- One access: where the monitor goes, the buffer, and the line it has completed. -/
def Reader.advance (vm : Nat → Nat) : Reader → Reader × (Nat → Nat) × List (List Nat)
  | .away => (.away, vm, [])
  | .scans index =>
    if index < bufdMax ∧ vm index = termination then (.scans (index + 1), vm, [])
    else (.tests index, vm, [])
  | .tests index => (if vm index ≠ termination then .prints [] index else .away, vm, [])
  | .prints line index => (.erases (line ++ [vm index]) index, vm, [])
  | .erases line index =>
    if line.length < 4 then
      (.prints line (wrap (index + 1)), Function.update vm index termination, [])
    else (.tests (wrap (index + 1)), Function.update vm index termination, [line])

/-- The module, the monitor, and the lines of all its runs. -/
structure Live where
  module : State
  reader : Reader
  out : List (List Nat)

namespace Live

inductive Act
  | module (e : Event)
  /-- The monitor is run. -/
  | start
  | advance
  deriving DecidableEq, Repr

def step (m : Live) : Act → Except Fault Live
  | .module e => (MP3.step m.module e).map fun s => { m with module := s }
  | .start => .ok { m with reader := .scans 0 }
  | .advance =>
    let (reader, vm, lines) := m.reader.advance m.module.vm
    .ok ⟨{ m.module with vm := vm }, reader, m.out ++ lines⟩

def init (vm : Nat → Nat) (jiffies : Nat) (processes : Nat → Option Process) : Live :=
  ⟨State.init vm jiffies processes, .away, []⟩

end Live

/-- Kept of a run: the trace of the module, and how many elements of the latest session are
erased. -/
structure Feed where
  trace : Trace
  drained : Nat
  deriving DecidableEq, Repr

def Feed.empty : Feed := ⟨.empty, 0⟩

def feed (g : Feed) (m : Live) : Live.Act → Feed
  | .module e =>
    let trace := MP3.trace g.trace m.module (.module e)
    ⟨trace, if g.trace.session = 0 ∧ trace.session = 1 then 0 else g.drained⟩
  | .start => g
  | .advance =>
    match m.reader with
    | .erases _ _ => { g with drained := g.drained + 1 }
    | _ => g

/-- A monitor is run when none is, and finds something to read. A session begins to record when
all samples before it were read and the monitor is away, and stays within the part of the
buffer that the monitor reads. No jiffies look like -1. -/
def Watched (x : Live × Feed) : Live.Act → Prop
  | .module .fire =>
    x.1.module.pending = true ∧ x.2.trace.session < reach ∧ x.1.module.jiffies ≠ termination ∧
      (x.2.trace.session = 0 → x.1.reader = .away ∧ x.2.drained = 4 * x.2.trace.latest.length)
  | .module _ => True
  | .start => x.1.reader = .away ∧ x.2.drained < 4 * x.2.trace.latest.length
  | .advance => True

instance Watched.decidable (x : Live × Feed) (a : Live.Act) : Decidable (Watched x a) :=
  match a with
  | .module .fire =>
    inferInstanceAs (Decidable (x.1.module.pending = true ∧ x.2.trace.session < reach ∧
      x.1.module.jiffies ≠ termination ∧ (x.2.trace.session = 0 →
        x.1.reader = .away ∧ x.2.drained = 4 * x.2.trace.latest.length)))
  | .module (.write _) => .isTrue trivial
  | .module .tick => .isTrue trivial
  | .module (.fork _ _) => .isTrue trivial
  | .module (.accrue _ _) => .isTrue trivial
  | .module (.exit _) => .isTrue trivial
  | .start =>
    inferInstanceAs (Decidable (x.1.reader = .away ∧ x.2.drained < 4 * x.2.trace.latest.length))
  | .advance => .isTrue trivial

/-! ## The monitor left alone -/

def Live.Alone (_ : Live) (a : Live.Act) : Prop := a = .advance

section

variable (s : State) (out : List (List Nat))

theorem alone_advance (r : Reader) :
    Run Live.step Live.Alone ⟨s, r, out⟩ [.advance]
      ⟨{ s with vm := (r.advance s.vm).2.1 }, (r.advance s.vm).1, out ++ (r.advance s.vm).2.2⟩ :=
  .single rfl rfl

/-- An element of a line that goes on. -/
theorem alone_field {line : List Nat} (i : Nat) (more : line.length < 3) :
    Run Live.step Live.Alone ⟨s, .prints line i, out⟩ [.advance, .advance]
      ⟨{ s with vm := Function.update s.vm i termination },
        .prints (line ++ [s.vm i]) (wrap (i + 1)), out⟩ := by
  have printed := alone_advance s out (.prints line i)
  have erased := alone_advance s out (.erases (line ++ [s.vm i]) i)
  have short : (line ++ [s.vm i]).length < 4 := by
    rw [List.length_append, List.length_singleton]
    omega
  simp only [Reader.advance, List.append_nil] at printed
  simp only [Reader.advance, if_pos short, List.append_nil] at erased
  exact printed.append erased

/-- The last element of a line. -/
theorem alone_last {line : List Nat} (i : Nat) (last : line.length = 3) :
    Run Live.step Live.Alone ⟨s, .prints line i, out⟩ [.advance, .advance]
      ⟨{ s with vm := Function.update s.vm i termination }, .tests (wrap (i + 1)),
        out ++ [line ++ [s.vm i]]⟩ := by
  have printed := alone_advance s out (.prints line i)
  have erased := alone_advance s out (.erases (line ++ [s.vm i]) i)
  have full : ¬ (line ++ [s.vm i]).length < 4 := by
    rw [List.length_append, List.length_singleton]
    omega
  simp only [Reader.advance, List.append_nil] at printed
  simp only [Reader.advance, if_neg full] at erased
  exact printed.append erased

theorem alone_line {i : Nat} (left : s.vm i ≠ termination) :
    ∃ as, Run Live.step Live.Alone ⟨s, .tests i, out⟩ as
      ⟨{ s with vm := (printLine s.vm i).2.1 }, .tests (printLine s.vm i).2.2,
        out ++ [(printLine s.vm i).1.values]⟩ := by
  have tested := alone_advance s out (.tests i)
  simp only [Reader.advance, if_pos left, List.append_nil] at tested
  have first := tested.append (alone_field _ _ i (show 0 < 3 by decide))
  have second := first.append (alone_field _ _ (wrap (i + 1)) (show 1 < 3 by decide))
  have third := second.append (alone_field _ _ (wrap (wrap (i + 1) + 1)) (show 2 < 3 by decide))
  exact ⟨_, third.append (alone_last _ _ (wrap (wrap (wrap (i + 1) + 1) + 1)) rfl)⟩

theorem alone_lines {fuel i : Nat} (reach : i ≤ bufdMax) (enough : (unerased s.vm).card ≤ fuel) :
    ∃ as, Run Live.step Live.Alone ⟨s, .tests i, out⟩ as
      ⟨{ s with vm := (printLines fuel s.vm i).2 }, .away,
        out ++ (printLines fuel s.vm i).1.map Line.values⟩ := by
  induction fuel generalizing s out i with
  | zero =>
    have erased : s.vm i = termination := by
      by_contra left
      have mem : i ∈ unerased s.vm :=
        Finset.mem_filter.mpr ⟨Finset.mem_range_succ_iff.mpr reach, left⟩
      rw [Finset.card_eq_zero.mp (Nat.le_zero.mp enough)] at mem
      exact absurd mem (Finset.notMem_empty i)
    have tested := alone_advance s out (.tests i)
    simp only [Reader.advance, erased, ne_eq, not_true_eq_false, ↓reduceIte] at tested
    exact ⟨_, tested⟩
  | succ fuel ih =>
    simp only [printLines]
    by_cases left : s.vm i ≠ termination
    · have fewer := printLine_unerased reach left
      obtain ⟨as, line⟩ := alone_line s out left
      obtain ⟨as', rest⟩ := ih { s with vm := (printLine s.vm i).2.1 }
        (out ++ [(printLine s.vm i).1.values]) (wrap_le _)
        (Nat.le_of_lt_succ (Nat.lt_of_lt_of_le fewer enough))
      rw [if_pos left, List.map_cons, List.append_cons]
      exact ⟨_, line.append rest⟩
    · have tested := alone_advance s out (.tests i)
      simp only [Reader.advance, if_neg left] at tested
      rw [if_neg left]
      exact ⟨_, tested⟩

theorem alone_scan {n i : Nat} (inside : i + n = bufdMax) :
    ∃ as, Run Live.step Live.Alone ⟨s, .scans i, out⟩ as ⟨s, .tests (scan s.vm n i), out⟩ := by
  induction n generalizing i with
  | zero =>
    have scanned := alone_advance s out (.scans i)
    have behind : ¬ (i < bufdMax ∧ s.vm i = termination) := by omega
    simp only [Reader.advance, if_neg behind, List.append_nil] at scanned
    exact ⟨_, scanned⟩
  | succ n ih =>
    have scanned := alone_advance s out (.scans i)
    have below : i < bufdMax := by omega
    unfold scan
    by_cases left : s.vm i ≠ termination
    · have found : ¬ (i < bufdMax ∧ s.vm i = termination) := fun drained => left drained.2
      simp only [Reader.advance, if_neg found, List.append_nil] at scanned
      rw [if_pos left]
      exact ⟨_, scanned⟩
    · simp only [Reader.advance, if_pos (And.intro below (not_not.mp left)),
        List.append_nil] at scanned
      obtain ⟨as, rest⟩ := ih (i := i + 1) (by omega)
      rw [if_neg left]
      exact ⟨_, scanned.append rest⟩

/-- The monitor that is left alone does what `monitor` says. -/
theorem alone_monitor :
    ∃ as, Run Live.step Live.Alone ⟨s, .scans 0, out⟩ as
      ⟨{ s with vm := (monitor s.vm).2 }, .away, out ++ (monitor s.vm).1.map Line.values⟩ := by
  have inside := scan_le s.vm bufdMax 0
  have enough : (unerased s.vm).card ≤ bufdMax + 1 :=
    calc (unerased s.vm).card ≤ (Finset.range (bufdMax + 1)).card := Finset.card_filter_le _ _
      _ = bufdMax + 1 := Finset.card_range _
  obtain ⟨as, scanned⟩ := alone_scan s out (Nat.zero_add bufdMax)
  obtain ⟨as', printed⟩ := alone_lines s out
    (show scan s.vm bufdMax 0 ≤ bufdMax by omega) enough
  exact ⟨_, scanned.append printed⟩

/-- An action of the module and the monitor as wholes is a run of their single steps. -/
theorem act_live {t : State} {a : Action} (h : MP3.act s a = .ok t) :
    ∃ as, Run Live.step (fun _ _ => True) ⟨s, .away, out⟩ as
      ⟨t, .away, out ++ (if a = .monitor then (monitor s.vm).1.map Line.values else [])⟩ := by
  cases a with
  | module e =>
    have stepped : MP3.step s e = .ok t := h
    rw [if_neg (by simp), List.append_nil]
    exact ⟨[.module e], .single trivial (by simp only [Live.step, stepped, Except.map])⟩
  | monitor =>
    cases h
    obtain ⟨as, alone⟩ := alone_monitor s out
    rw [if_pos rfl]
    exact ⟨_, (Run.single (e := .start) trivial rfl).append (alone.imp fun _ _ _ => trivial)⟩

end

/-! ## The invariant -/

def Reader.line : Reader → List Nat
  | .prints line _ => line
  | .erases line _ => line
  | _ => []

/-- What is printed and not erased yet. -/
def Reader.ahead : Reader → Nat
  | .erases _ _ => 1
  | _ => 0

/-- Where the monitor can be when `d` of the elements of `n` samples are erased. -/
def Reader.At (n d : Nat) : Reader → Prop
  | .away => d % 4 = 0
  | .scans i => i ≤ d ∧ d < 4 * n ∧ d % 4 = 0
  | .tests i => i = wrap d ∧ d % 4 = 0 ∧ 0 < n
  | .prints line i => i = d ∧ d < 4 * n ∧ line.length = d % 4
  | .erases line i => i = d ∧ d < 4 * n ∧ line.length = d % 4 + 1

/-- The elements of the latest session with samples. -/
def Trace.elements (g : Trace) : List Nat := g.latest.flatMap Sample.fields

structure Flowing (x : Live × Feed) : Prop where
  offset : x.1.module.offset = 4 * x.2.trace.session
  latest : x.2.trace.session ≠ 0 → x.2.trace.latest.length = x.2.trace.session
  short : x.2.trace.latest.length ≤ reach
  unfilled : x.1.module.bufferFilledUp = false
  clock : ∀ y ∈ x.2.trace.latest, y.jiffies ≠ termination
  within : x.2.drained ≤ 4 * x.2.trace.latest.length
  gone : ∀ i, i < x.2.drained → x.1.module.vm i = termination
  live : Laid x.1.module.vm x.2.drained (x.2.trace.elements.drop x.2.drained)
  terminated : x.2.trace.latest ≠ [] →
    x.1.module.vm (4 * x.2.trace.latest.length) = termination
  place : x.1.reader.At x.2.trace.latest.length x.2.drained
  lines : ∀ l ∈ x.1.out, l.length = 4
  printed : ∃ past, x.2.trace.recorded = past ++ x.2.trace.latest ∧
    x.1.out.flatten ++ x.1.reader.line = past.flatMap Sample.fields ++
      x.2.trace.elements.take (x.2.drained + x.1.reader.ahead)

theorem elements_length (g : Trace) : g.elements.length = 4 * g.latest.length := fields_length _

theorem drop_fields (l : List Sample) (k : Nat) :
    (l.flatMap Sample.fields).drop (4 * k) = (l.drop k).flatMap Sample.fields := by
  induction l generalizing k with
  | nil => simp
  | cons x l ih =>
    cases k with
    | zero => rfl
    | succ k =>
      rw [List.flatMap_cons, List.drop_succ_cons, Nat.mul_succ, Nat.add_comm, ← List.drop_drop,
        List.drop_left' (Sample.fields_length x), ih]

section

variable {s t : State} {r : Reader} {out : List (List Nat)} {g : Trace} {d : Nat}

/-- The first element that is not erased. -/
theorem Flowing.next (inv : Flowing (⟨s, r, out⟩, ⟨g, d⟩)) (left : d < 4 * g.latest.length) :
    g.elements.take (d + 1) = g.elements.take d ++ [s.vm d] ∧
      Laid s.vm (d + 1) (g.elements.drop (d + 1)) := by
  have bound : d < g.elements.length := by
    rw [elements_length]
    exact left
  have live : Laid s.vm d (g.elements.drop d) := inv.live
  rw [List.drop_eq_getElem_cons bound] at live
  refine ⟨?_, live.2⟩
  rw [List.take_succ_eq_append_getElem bound, live.1]

/-- A line begins with the time of its sample, which is not -1. -/
theorem Flowing.begins (inv : Flowing (⟨s, r, out⟩, ⟨g, d⟩)) (left : d < 4 * g.latest.length)
    (first : d % 4 = 0) : s.vm d ≠ termination := by
  obtain ⟨k, rfl⟩ : ∃ k, d = 4 * k := ⟨d / 4, by omega⟩
  have bound : k < g.latest.length := by omega
  have live : Laid s.vm (4 * k) (g.elements.drop (4 * k)) := inv.live
  rw [Trace.elements, drop_fields, List.drop_eq_getElem_cons bound] at live
  rw [live.1]
  exact inv.clock _ (List.getElem_mem bound)

/-- Everything but the reader, the buffer and the lines stays as it is. -/
theorem Flowing.reads (inv : Flowing (⟨s, r, out⟩, ⟨g, d⟩)) {r' : Reader}
    (place : r'.At g.latest.length d) (line : r'.line = r.line) (ahead : r'.ahead = r.ahead) :
    Flowing (⟨s, r', out⟩, ⟨g, d⟩) := by
  obtain ⟨offset, latest, short, unfilled, clock, within, gone, live, terminated, -, lines,
    printed⟩ := inv
  refine ⟨offset, latest, short, unfilled, clock, within, gone, live, terminated, place, lines, ?_⟩
  simp only [line, ahead]
  exact printed

theorem four_reach' {n : Nat} (short : n ≤ reach) : 4 * n ≤ bufdMax := by
  rw [← four_reach]
  exact Nat.mul_le_mul_left 4 short

theorem Flowing.scans {i : Nat} (inv : Flowing (⟨s, .scans i, out⟩, ⟨g, d⟩)) :
    Flowing (⟨s, if i < bufdMax ∧ s.vm i = termination then .scans (i + 1) else .tests i, out⟩,
      ⟨g, d⟩) := by
  obtain ⟨before, left, first⟩ : i ≤ d ∧ d < 4 * g.latest.length ∧ d % 4 = 0 := inv.place
  have inside : 4 * g.latest.length ≤ bufdMax := four_reach' inv.short
  have live := inv.begins left first
  by_cases drained : i < bufdMax ∧ s.vm i = termination
  · rw [if_pos drained]
    have other : i ≠ d := fun same => live (same ▸ drained.2)
    exact inv.reads ⟨by omega, left, first⟩ rfl rfl
  · rw [if_neg drained]
    have here : i = d := by
      by_contra other
      exact drained ⟨by omega, inv.gone i (show i < d by omega)⟩
    have small : wrap d = d := wrap_small (by omega)
    exact inv.reads ⟨by rw [small, here], first, by omega⟩ rfl rfl

/-- The loop goes on as long as something is left. -/
theorem Flowing.tests {i : Nat} (inv : Flowing (⟨s, .tests i, out⟩, ⟨g, d⟩)) :
    s.vm i ≠ termination ↔ d < 4 * g.latest.length := by
  obtain ⟨here, first, some⟩ : i = wrap d ∧ d % 4 = 0 ∧ 0 < g.latest.length := inv.place
  have inside : 4 * g.latest.length ≤ bufdMax := four_reach' inv.short
  have within : d ≤ 4 * g.latest.length := inv.within
  constructor
  · intro live
    by_contra finished
    have all : d = 4 * g.latest.length := by omega
    by_cases ring : d < bufdMax
    · rw [here, wrap_small ring, all] at live
      exact live (inv.terminated (List.ne_nil_of_length_pos some))
    · have round : wrap d = 0 := by rw [wrap, if_pos (by omega)]
      rw [here, round] at live
      exact live (inv.gone 0 (show 0 < d by omega))
  · intro left
    rw [here, wrap_small (show d < bufdMax by omega)]
    exact inv.begins left first

theorem Flowing.prints {line : List Nat} {i : Nat}
    (inv : Flowing (⟨s, .prints line i, out⟩, ⟨g, d⟩)) :
    Flowing (⟨s, .erases (line ++ [s.vm i]) i, out⟩, ⟨g, d⟩) := by
  obtain ⟨rfl, left, length⟩ : i = d ∧ d < 4 * g.latest.length ∧ line.length = d % 4 := inv.place
  have next := (inv.next left).1
  obtain ⟨offset, latest, short, unfilled, clock, within, gone, live, terminated, -, lines,
    past, recorded, printed⟩ := inv
  refine ⟨offset, latest, short, unfilled, clock, within, gone, live, terminated, ?_, lines,
    past, recorded, ?_⟩
  · exact ⟨rfl, left, by simp [length]⟩
  · simp only [Reader.line, Reader.ahead, Nat.add_zero] at printed ⊢
    rw [next, ← List.append_assoc, ← List.append_assoc, printed]

theorem Flowing.erases {line : List Nat} {i : Nat}
    (inv : Flowing (⟨s, .erases line i, out⟩, ⟨g, d⟩)) :
    Flowing (⟨{ s with vm := ((Reader.erases line i).advance s.vm).2.1 },
      ((Reader.erases line i).advance s.vm).1, out ++ ((Reader.erases line i).advance s.vm).2.2⟩,
      ⟨g, d + 1⟩) := by
  obtain ⟨rfl, left, length⟩ : i = d ∧ d < 4 * g.latest.length ∧ line.length = d % 4 + 1 :=
    inv.place
  have behind := (inv.next left).2
  have inside : 4 * g.latest.length ≤ bufdMax := four_reach' inv.short
  obtain ⟨offset, latest, short, unfilled, clock, -, gone, -, terminated, -, lines, past,
    recorded, printed⟩ := inv
  have gone' (j : Nat) (below : j < i + 1) :
      Function.update s.vm i termination j = termination := by
    by_cases here : j = i
    · rw [here, Function.update_self]
    · rw [Function.update_of_ne here]
      exact gone j (show j < i by omega)
  have live' : Laid (Function.update s.vm i termination) (i + 1) (g.elements.drop (i + 1)) := by
    refine behind.congr fun j above _ => ?_
    exact Function.update_of_ne (by omega) _ _
  have terminated' (some : g.latest ≠ []) :
      Function.update s.vm i termination (4 * g.latest.length) = termination := by
    have other : 4 * g.latest.length ≠ i := by omega
    rw [Function.update_of_ne other]
    exact terminated some
  simp only [Reader.advance]
  by_cases more : line.length < 4
  · rw [if_pos more]
    have place : (Reader.prints line (wrap (i + 1))).At g.latest.length (i + 1) :=
      ⟨wrap_small (by omega), by omega, by omega⟩
    refine ⟨offset, latest, short, unfilled, clock, left, gone', live', terminated', place, ?_,
      past, recorded, ?_⟩
    · simpa using lines
    · simp only [List.append_nil]
      exact printed
  · rw [if_neg more]
    have full : line.length = 4 := by omega
    have place : (Reader.tests (wrap (i + 1))).At g.latest.length (i + 1) :=
      ⟨rfl, by omega, by omega⟩
    refine ⟨offset, latest, short, unfilled, clock, left, gone', live', terminated', place, ?_,
      past, recorded, ?_⟩
    · intro l hl
      rcases List.mem_append.mp hl with before | last
      · exact lines l before
      · rw [List.mem_singleton.mp last]
        exact full
    · simp only [Reader.line, Reader.ahead, List.append_nil, List.flatten_append,
        List.flatten_singleton, Nat.add_zero] at printed ⊢
      exact printed

theorem Flowing.advances (inv : Flowing (⟨s, r, out⟩, ⟨g, d⟩)) :
    Flowing (⟨{ s with vm := (r.advance s.vm).2.1 }, (r.advance s.vm).1,
      out ++ (r.advance s.vm).2.2⟩, feed ⟨g, d⟩ ⟨s, r, out⟩ .advance) := by
  have still {r' : Reader} (moved : Flowing (⟨s, r', out⟩, ⟨g, d⟩)) :
      Flowing (⟨{ s with vm := s.vm }, r', out ++ []⟩, ⟨g, d⟩) := by
    rwa [List.append_nil]
  cases r with
  | away => exact still inv
  | scans i =>
    have moved := still inv.scans
    simp only [Reader.advance, feed]
    split at moved
    · rwa [if_pos ‹_›]
    · rwa [if_neg ‹_›]
  | tests i =>
    obtain ⟨here, first, some⟩ : i = wrap d ∧ d % 4 = 0 ∧ 0 < g.latest.length := inv.place
    have inside : 4 * g.latest.length ≤ bufdMax := four_reach' inv.short
    simp only [Reader.advance, feed]
    by_cases live : s.vm i ≠ termination
    · have left := inv.tests.mp live
      rw [if_pos live]
      have place : (Reader.prints [] i).At g.latest.length d :=
        ⟨by rw [here, wrap_small (by omega)], left, first.symm⟩
      exact still (inv.reads place rfl rfl)
    · rw [if_neg live]
      have place : Reader.away.At g.latest.length d := first
      exact still (inv.reads place rfl rfl)
  | prints line i => exact still inv.prints
  | erases line i => exact inv.erases

theorem Flowing.started (inv : Flowing (⟨s, r, out⟩, ⟨g, d⟩)) (away : r = .away)
    (left : d < 4 * g.latest.length) : Flowing (⟨s, .scans 0, out⟩, ⟨g, d⟩) := by
  subst away
  have place : (Reader.scans 0).At g.latest.length d := ⟨Nat.zero_le d, left, inv.place⟩
  exact inv.reads place rfl rfl

/-- What the module does apart from taking samples. -/
theorem Flowing.other (inv : Flowing (⟨s, r, out⟩, ⟨g, d⟩)) (vm : t.vm = s.vm)
    (filled : t.bufferFilledUp = s.bufferFilledUp) :
    (t.offset = s.offset → Flowing (⟨t, r, out⟩, ⟨g, d⟩)) ∧
    (t.offset = 0 → Flowing (⟨t, r, out⟩, ⟨{ g with session := 0 }, d⟩)) := by
  obtain ⟨offset, latest, short, unfilled, clock, within, gone, live, terminated, place, lines,
    printed⟩ := inv
  simp only at offset unfilled gone live terminated
  rw [← vm] at gone live terminated
  rw [← filled] at unfilled
  constructor
  · intro same
    exact ⟨same.trans offset, latest, short, unfilled, clock, within, gone, live, terminated,
      place, lines, printed⟩
  · intro zero
    exact ⟨zero, fun some => absurd rfl some, short, unfilled, clock, within, gone, live,
      terminated, place, lines, printed⟩

/-- The first sample of a session, taken when all before it were read. -/
theorem Flowing.first (inv : Flowing (⟨s, r, out⟩, ⟨g, d⟩)) {x : Sample}
    (begins : g.session = 0) (away : r = .away) (read : d = 4 * g.latest.length)
    (known : x.jiffies ≠ termination) (vm : t.vm = store s.vm (stores s.offset x))
    (offset : t.offset = nextOffset s.offset)
    (filled : t.bufferFilledUp = decide (nextOffset s.offset ≥ vmElementSize)) :
    Flowing (⟨t, r, out⟩, ⟨g.sample x, 0⟩) := by
  subst away
  have before : s.offset = 0 := by
    have := inv.offset
    simp only at this
    omega
  have next : nextOffset s.offset = 4 := by
    rw [before]
    decide
  have latest : (g.sample x).latest = [x] := by simp [Trace.sample, begins]
  have session : (g.sample x).session = 1 := by simp [Trace.sample, begins]
  have elements : (g.sample x).elements = x.fields := by simp [Trace.elements, latest]
  obtain ⟨past, recorded, printed⟩ := inv.printed
  constructor
  · simp only [offset, next, session]
  · intro _
    simp only [latest, session, List.length_singleton]
  · simp only [latest, List.length_singleton]
    decide
  · simp only [filled, next]
    decide
  · intro y hy
    simp only [latest, List.mem_singleton] at hy
    exact hy ▸ known
  · exact Nat.zero_le _
  · exact fun i below => absurd below (Nat.not_lt_zero i)
  · simp only [elements, List.drop_zero, vm, before]
    exact store_laid
  · intro _
    simp only [latest, List.length_singleton, vm, before]
    exact store_terminated (by decide)
  · exact Nat.zero_mod 4
  · exact inv.lines
  · have whole : g.recorded = past ++ g.latest := recorded
    refine ⟨past ++ g.latest, ?_, ?_⟩
    · change g.recorded ++ [x] = past ++ g.latest ++ (g.sample x).latest
      rw [latest, whole]
    · simp only [Reader.line, Reader.ahead, Nat.add_zero, List.take_zero, List.append_nil,
        List.flatMap_append] at printed ⊢
      rw [printed, read, ← elements_length, List.take_length]
      rfl

theorem Reader.At.mono {n m d : Nat} (place : r.At n d) (more : n ≤ m) : r.At m d := by
  cases r with
  | away => exact place
  | scans i => exact ⟨place.1, by have := place.2.1; omega, place.2.2⟩
  | tests i => exact ⟨place.1, place.2.1, by have := place.2.2; omega⟩
  | prints line i => exact ⟨place.1, by have := place.2.1; omega, place.2.2⟩
  | erases line i => exact ⟨place.1, by have := place.2.1; omega, place.2.2⟩

theorem Reader.At.ahead {n d : Nat} (place : r.At n d) (within : d ≤ 4 * n) :
    d + r.ahead ≤ 4 * n := by
  cases r with
  | away => exact within
  | scans i => exact within
  | tests i => exact within
  | prints line i => exact within
  | erases line i => exact place.2.1

/-- A further sample, wherever the monitor is. -/
theorem Flowing.sampled (inv : Flowing (⟨s, r, out⟩, ⟨g, d⟩)) {x : Sample}
    (later : g.session ≠ 0) (short : g.session < reach)
    (known : x.jiffies ≠ termination) (vm : t.vm = store s.vm (stores s.offset x))
    (offset : t.offset = nextOffset s.offset)
    (filled : t.bufferFilledUp = decide (nextOffset s.offset ≥ vmElementSize)) :
    Flowing (⟨t, r, out⟩, ⟨g.sample x, d⟩) := by
  have count : g.latest.length = g.session := inv.latest later
  have before : s.offset = 4 * g.latest.length := by
    rw [count]
    exact inv.offset
  have within : d ≤ 4 * g.latest.length := inv.within
  have inside : 4 * (g.latest.length + 1) ≤ bufdMax := four_reach' (by omega)
  have room : bufdMax < vmElementSize := by decide
  have next : nextOffset s.offset = 4 * (g.latest.length + 1) := by
    rw [nextOffset_small (by omega), before]
    omega
  have latest : (g.sample x).latest = g.latest ++ [x] := by simp [Trace.sample, later]
  have length : (g.sample x).latest.length = g.latest.length + 1 := by
    rw [latest, List.length_append, List.length_singleton]
  have elements : (g.sample x).elements = g.elements ++ x.fields := by
    simp [Trace.elements, latest]
  have ahead : d + r.ahead ≤ g.elements.length := by
    rw [elements_length]
    exact inv.place.ahead within
  obtain ⟨past, recorded, printed⟩ := inv.printed
  constructor
  · change t.offset = 4 * (g.session + 1)
    rw [offset, next, count]
  · intro _
    change (g.sample x).latest.length = g.session + 1
    rw [length, count]
  · change (g.sample x).latest.length ≤ reach
    omega
  · change t.bufferFilledUp = false
    rw [filled, decide_eq_false_iff_not]
    omega
  · intro y mem
    rcases List.mem_append.mp (latest ▸ mem) with old | new
    · exact inv.clock y old
    · rw [List.mem_singleton.mp new]
      exact known
  · change d ≤ 4 * (g.sample x).latest.length
    omega
  · intro i below
    have below : i < d := below
    change t.vm i = termination
    rw [vm, store_below (by omega)]
    exact inv.gone i below
  · have live : Laid s.vm d (g.elements.drop d) := inv.live
    have behind : d + (g.elements.drop d).length = s.offset := by
      rw [List.length_drop, elements_length]
      omega
    change Laid t.vm d ((g.sample x).elements.drop d)
    rw [elements, List.drop_append_of_le_length (by omega), laid_append, behind, vm]
    refine ⟨live.congr fun j _ below => ?_, store_laid⟩
    exact store_below (by omega)
  · intro _
    change t.vm (4 * (g.sample x).latest.length) = termination
    have last : 4 * (g.sample x).latest.length = s.offset + 4 := by omega
    rw [last, vm]
    exact store_terminated (by omega)
  · have place : r.At g.latest.length d := inv.place
    change r.At (g.sample x).latest.length d
    exact place.mono (by omega)
  · exact inv.lines
  · have whole : g.recorded = past ++ g.latest := recorded
    refine ⟨past, ?_, ?_⟩
    · change g.recorded ++ [x] = past ++ (g.sample x).latest
      rw [latest, whole, List.append_assoc]
    · simp only [elements, List.take_append_of_le_length ahead]
      exact printed

/-- What the module does. -/
theorem Flowing.acts (inv : Flowing (⟨s, r, out⟩, ⟨g, d⟩)) {e : Event}
    (watched : Watched (⟨s, r, out⟩, ⟨g, d⟩) (.module e)) (h : MP3.step s e = .ok t) :
    Flowing (⟨t, r, out⟩, feed ⟨g, d⟩ ⟨s, r, out⟩ (.module e)) := by
  have traced : ghosted act trace (s, g) (.module e) = .ok (t, MP3.trace g s (.module e)) := by
    simp only [ghosted, act, h, Except.map]
  have kept {g' : Trace} (same : g'.session = 0 ∨ g'.session = g.session) :
      ¬ (g.session = 0 ∧ g'.session = 1) := by omega
  simp only [feed]
  rcases act_ok traced with ⟨-, vm, filled, ⟨offset, ghost⟩ | ⟨offset, ghost⟩⟩ |
    ⟨fires, -, x, clock, vm, offset, filled, ghost⟩ | ⟨impossible, -⟩
  · rw [ghost, if_neg (kept (.inr rfl))]
    exact (inv.other vm filled).1 offset
  · rw [ghost, if_neg (kept (.inl rfl))]
    exact (inv.other vm filled).2 offset
  · cases fires
    obtain ⟨-, short, known, begins⟩ := watched
    rw [← clock] at known
    rw [ghost]
    by_cases first : g.session = 0
    · obtain ⟨away, read⟩ := begins first
      rw [if_pos ⟨first, congrArg (· + 1) first⟩]
      exact inv.first first away read known vm offset filled
    · rw [if_neg fun both => first both.1]
      exact inv.sampled first short known vm offset filled
  · cases impossible

end

theorem flowing_step {x y : Live × Feed} {a : Live.Act} (inv : Flowing x) (watched : Watched x a)
    (h : ghosted Live.step feed x a = .ok y) : Flowing y := by
  obtain ⟨⟨s, r, out⟩, g, d⟩ := x
  obtain ⟨⟨t, r', out'⟩, g'⟩ := y
  obtain ⟨stepped, rfl⟩ := ghosted_ok h
  cases a with
  | module e =>
    obtain ⟨u, moved, same⟩ := map_ok stepped
    cases same
    exact inv.acts watched moved
  | start =>
    cases stepped
    exact inv.started watched.1 watched.2
  | advance =>
    cases stepped
    exact inv.advances

theorem flowing_init (vm : Nat → Nat) (jiffies : Nat) (processes : Nat → Option Process) :
    Flowing (Live.init vm jiffies processes, .empty) := by
  constructor
  · rfl
  · exact fun some => absurd rfl some
  · exact Nat.zero_le _
  · rfl
  · exact fun _ mem => absurd mem List.not_mem_nil
  · exact Nat.le_refl 0
  · exact fun _ below => absurd below (Nat.not_lt_zero _)
  · exact laid_nil _ _
  · exact fun some => absurd rfl some
  · exact Nat.zero_mod 4
  · exact fun _ mem => absurd mem List.not_mem_nil
  · exact ⟨[], rfl, rfl⟩

/-- Every state of a watched run. -/
theorem Watched.flowing {vm : Nat → Nat} {jiffies : Nat} {processes : Nat → Option Process}
    {as : List Live.Act} {x : Live × Feed}
    (run : Run (ghosted Live.step feed) Watched (Live.init vm jiffies processes, .empty) as x) :
    Flowing x :=
  run.invariant (flowing_init vm jiffies processes) fun _ _ _ => flowing_step

/-! ## Lines and samples -/

/-- Lists of `n` elements are told apart by what they are put together to. -/
theorem prefix_of_flatten {α : Type} {n : Nat} (positive : 0 < n) {lines whole : List (List α)}
    (same : ∀ l ∈ lines, l.length = n) (same' : ∀ l ∈ whole, l.length = n)
    (front : lines.flatten <+: whole.flatten) : lines <+: whole := by
  induction lines generalizing whole with
  | nil => exact List.nil_prefix
  | cons l lines ih =>
    have length : l.length = n := same l List.mem_cons_self
    cases whole with
    | nil =>
      have short := front.length_le
      rw [List.flatten_cons, List.length_append, List.flatten_nil, List.length_nil] at short
      omega
    | cons k whole =>
      have length' : k.length = n := same' k List.mem_cons_self
      obtain ⟨rest, whole_eq⟩ := front
      rw [List.flatten_cons, List.flatten_cons, List.append_assoc] at whole_eq
      obtain ⟨rfl, behind⟩ := List.append_inj whole_eq (length.trans length'.symm)
      rw [List.prefix_cons_inj]
      exact ih (fun l mem => same l (List.mem_cons_of_mem _ mem))
        (fun l mem => same' l (List.mem_cons_of_mem _ mem)) ⟨rest, behind⟩

theorem recorded_fields (l : List Sample) :
    (l.map Sample.fields).flatten = l.flatMap Sample.fields := rfl

theorem mem_fields {l : List Sample} : ∀ line ∈ l.map Sample.fields, line.length = 4 := by
  intro line mem
  obtain ⟨x, -, rfl⟩ := List.mem_map.mp mem
  exact Sample.fields_length x

section

variable {x : Live × Feed}

theorem Flowing.front (inv : Flowing x) :
    x.1.out.flatten ++ x.1.reader.line <+: (x.2.trace.recorded.map Sample.fields).flatten := by
  obtain ⟨past, recorded, printed⟩ := inv.printed
  rw [printed, recorded, recorded_fields, List.flatMap_append]
  exact (List.prefix_append_right_inj _).mpr (List.take_prefix _ _)

/-- The lines completed are the first samples. -/
theorem Flowing.out_prefix (inv : Flowing x) :
    x.1.out <+: x.2.trace.recorded.map Sample.fields := by
  apply prefix_of_flatten (show 0 < 4 by decide) inv.lines mem_fields
  exact (List.prefix_append _ _).trans inv.front

/-- With everything erased, and no line begun, all of them are complete. -/
theorem Flowing.out_all (inv : Flowing x) (all : x.2.drained = 4 * x.2.trace.latest.length)
    (line : x.1.reader.line = []) (ahead : x.1.reader.ahead = 0) :
    x.1.out = x.2.trace.recorded.map Sample.fields := by
  obtain ⟨past, recorded, printed⟩ := inv.printed
  rw [line, ahead, List.append_nil, Nat.add_zero, all, ← elements_length, List.take_length,
    Trace.elements, ← List.flatMap_append, ← recorded, ← recorded_fields] at printed
  apply inv.out_prefix.eq_of_length_le
  apply (prefix_of_flatten (show 0 < 4 by decide) mem_fields inv.lines ?_).length_le
  rw [printed]

end

/-- While samples are taken and the monitor reads and erases, one element after the other: the
lines it has completed are the samples from the first one on, each whole, once and in order, and
when it finds -1 where the next line would begin, they are all samples recorded so far. -/
theorem live_monitor_lossless {vm : Nat → Nat} {jiffies : Nat} {processes : Nat → Option Process}
    {as : List Live.Act} {x : Live × Feed}
    (run : Run (ghosted Live.step feed) Watched (Live.init vm jiffies processes, .empty) as x) :
    x.1.out <+: x.2.trace.recorded.map Sample.fields ∧
    ∀ i, x.1.reader = .tests i → x.1.module.vm i = termination →
      x.1.out = x.2.trace.recorded.map Sample.fields := by
  have inv : Flowing x := Watched.flowing run
  refine ⟨inv.out_prefix, fun i tests stop => ?_⟩
  obtain ⟨⟨s, r, out⟩, g, d⟩ := x
  have tests : r = .tests i := tests
  subst tests
  have within : d ≤ 4 * g.latest.length := inv.within
  have finished : d = 4 * g.latest.length := by
    by_contra left
    exact inv.tests.mpr (by omega) stop
  exact inv.out_all finished rfl rfl

/-- A second session, the monitor in the middle of the second line of the first one when it
ends and in the middle of a line when a sample is taken. -/
theorem live_monitor_lossless_two_sessions :
    ∃ x, Run (ghosted Live.step feed) Watched
        (Live.init (fun _ => 5) 0 (fun _ => none), .empty)
        ([.module (.fork 7 ⟨1, 0, 2, 3⟩),
          .module (.write ⟨bytes "R 7", some ⟨0, 0, 0, 0, 0⟩⟩), .module .fire, .start] ++
          List.replicate 5 .advance ++ [.module .tick, .module .fire] ++
          List.replicate 10 .advance ++ [.module (.write ⟨bytes "U 7", none⟩)] ++
          List.replicate 5 .advance ++
          [.module (.write ⟨bytes "R 7", some ⟨0, 0, 0, 0, 0⟩⟩), .module .tick, .module .fire,
            .start] ++ List.replicate 10 .advance) x ∧
      x.2.trace.recorded = [⟨0, 1, 0, 5⟩, ⟨1, 0, 0, 0⟩, ⟨2, 0, 0, 0⟩] ∧
      x.1.out = [[0, 1, 0, 5], [1, 0, 0, 0], [2, 0, 0, 0]] := by
  refine Run.exists_of_replay
    (fun x => (x.2.trace.recorded, x.1.reader, decide (x.1.module.vm 4 = termination)))
    (a := ([⟨0, 1, 0, 5⟩, ⟨1, 0, 0, 0⟩, ⟨2, 0, 0, 0⟩], .tests 4, true)) (by decide +kernel)
    fun x run seen => ?_
  obtain ⟨recorded, rest⟩ := Prod.mk.inj seen
  obtain ⟨reader, stop⟩ := Prod.mk.inj rest
  refine ⟨recorded, ?_⟩
  rw [(live_monitor_lossless run).2 4 reader (of_decide_eq_true stop), recorded]
  rfl

/-! ## The monitor finishes -/

/-- A bound on the accesses that are left when `d` elements of `n` samples are erased and no
more come. -/
def Reader.left (n d : Nat) : Reader → Nat
  | .away => 0
  | .scans i => 4 * (4 * n - d) + 4 + (d - i)
  | .tests _ => 4 * (4 * n - d) + 3
  | .prints _ _ => 4 * (4 * n - d) + 2
  | .erases _ _ => 4 * (4 * n - d) + 1

def leftOf (x : Live × Feed) : Nat := x.1.reader.left x.2.trace.latest.length x.2.drained

section

variable {s : State} {r : Reader} {out : List (List Nat)} {g : Trace} {d : Nat}

theorem leftOf_zero {x : Live × Feed} (done : leftOf x = 0) : x.1.reader = .away := by
  obtain ⟨⟨s, r, out⟩, g⟩ := x
  unfold leftOf Reader.left at done
  cases r with
  | away => rfl
  | scans i => simp only at done; omega
  | tests i => simp only at done; omega
  | prints line i => simp only at done; omega
  | erases line i => simp only at done; omega

theorem Flowing.less (inv : Flowing (⟨s, r, out⟩, ⟨g, d⟩)) (busy : r ≠ .away) :
    leftOf (⟨{ s with vm := (r.advance s.vm).2.1 }, (r.advance s.vm).1,
      out ++ (r.advance s.vm).2.2⟩, feed ⟨g, d⟩ ⟨s, r, out⟩ .advance) <
      leftOf (⟨s, r, out⟩, ⟨g, d⟩) := by
  cases r with
  | away => exact absurd rfl busy
  | scans i =>
    obtain ⟨before, left, first⟩ : i ≤ d ∧ d < 4 * g.latest.length ∧ d % 4 = 0 := inv.place
    simp only [leftOf, feed, Reader.advance]
    by_cases drained : i < bufdMax ∧ s.vm i = termination
    · have other : i ≠ d := fun same => inv.begins left first (same ▸ drained.2)
      rw [if_pos drained]
      simp only [Reader.left]
      omega
    · rw [if_neg drained]
      simp only [Reader.left]
      omega
  | tests i =>
    simp only [leftOf, feed, Reader.advance]
    by_cases live : s.vm i ≠ termination
    · rw [if_pos live]
      exact Nat.lt_succ_self _
    · rw [if_neg live]
      exact Nat.succ_pos _
  | prints line i => exact Nat.lt_succ_self _
  | erases line i =>
    obtain ⟨-, left, -⟩ : i = d ∧ d < 4 * g.latest.length ∧ line.length = d % 4 + 1 := inv.place
    simp only [leftOf, feed, Reader.advance]
    by_cases more : line.length < 4
    · rw [if_pos more]
      simp only [Reader.left]
      omega
    · rw [if_neg more]
      simp only [Reader.left]
      omega

end

/-- Left alone, the monitor prints what was recorded before it comes to its end. -/
def Ending (g : Trace) (x : Live × Feed) : Prop :=
  Flowing x ∧ x.2.trace = g ∧ (x.1.reader = .away → x.1.out = g.recorded.map Sample.fields)

theorem ending_step {g : Trace} {x y : Live × Feed} {a : Live.Act} (ending : Ending g x)
    (alone : Live.Alone x.1 a) (h : ghosted Live.step feed x a = .ok y) : Ending g y := by
  obtain ⟨inv, rfl, printed⟩ := ending
  cases alone
  have watched : Watched x .advance := trivial
  have next : Flowing y := flowing_step inv watched h
  obtain ⟨⟨s, r, out⟩, g, d⟩ := x
  obtain ⟨stepped, ghost⟩ := ghosted_ok h
  obtain ⟨m, g'⟩ := y
  simp only at ghost
  subst ghost
  cases stepped
  cases r with
  | away =>
    refine ⟨next, rfl, fun _ => ?_⟩
    change out ++ [] = _
    rw [List.append_nil]
    exact printed rfl
  | scans i =>
    refine ⟨next, rfl, fun away => ?_⟩
    simp only at away
    split at away <;> cases away
  | tests i =>
    refine ⟨next, rfl, fun away => ?_⟩
    have within : d ≤ 4 * g.latest.length := inv.within
    have finished : d = 4 * g.latest.length := by
      by_contra left
      have live := inv.tests.mpr (by omega)
      simp only [if_pos live] at away
      cases away
    change out ++ [] = _
    rw [List.append_nil]
    exact inv.out_all finished rfl rfl
  | prints line i => exact ⟨next, rfl, fun away => by cases away⟩
  | erases line i =>
    refine ⟨next, rfl, fun away => ?_⟩
    simp only at away
    split at away <;> cases away

theorem ending_less {g : Trace} {x : Live × Feed} (ending : Ending g x) (busy : leftOf x ≠ 0) :
    ∃ as y, Run (ghosted Live.step feed) (fun x a => Live.Alone x.1 a) x as y ∧
      leftOf y < leftOf x := by
  obtain ⟨⟨s, r, out⟩, g, d⟩ := x
  have away : r ≠ .away := fun away => busy (by rw [leftOf, away]; rfl)
  have alone : Live.Alone ⟨s, r, out⟩ .advance := rfl
  exact ⟨_, _, .single alone rfl, ending.1.less away⟩

/-- From every state of a watched run in which the monitor is on its way, its own accesses lead
to its end, when it has printed all samples recorded. -/
theorem live_monitor_finishes {vm : Nat → Nat} {jiffies : Nat} {processes : Nat → Option Process}
    {as : List Live.Act} {x : Live × Feed}
    (run : Run (ghosted Live.step feed) Watched (Live.init vm jiffies processes, .empty) as x)
    (busy : x.1.reader ≠ .away) :
    ∃ as' y, Run (ghosted Live.step feed) (fun x a => Live.Alone x.1 a) x as' y ∧
      y.1.reader = .away ∧ y.1.out = x.2.trace.recorded.map Sample.fields := by
  have ending : Ending x.2.trace x := ⟨Watched.flowing run, rfl, fun away => absurd away busy⟩
  obtain ⟨as', y, rest, ⟨-, -, printed⟩, done⟩ := Run.finishes leftOf
    (fun _ _ _ ending alone h => ending_step ending alone h) (fun _ => ending_less) ending
  exact ⟨as', y, rest, leftOf_zero done, printed (leftOf_zero done)⟩

/-- A monitor with one field printed, of two samples. -/
theorem live_monitor_finishes_two_samples :
    ∃ x as' y, Run (ghosted Live.step feed) Watched
        (Live.init (fun _ => 5) 0 (fun _ => none), .empty)
        ([.module (.fork 7 ⟨1, 0, 2, 3⟩),
          .module (.write ⟨bytes "R 7", some ⟨0, 0, 0, 0, 0⟩⟩), .module .fire, .module .fire,
          .start] ++ List.replicate 3 .advance) x ∧
      Run (ghosted Live.step feed) (fun x a => Live.Alone x.1 a) x as' y ∧
      y.1.out = [[0, 1, 0, 5], [0, 0, 0, 0]] := by
  obtain ⟨x, run, recorded, reader⟩ : ∃ x, Run (ghosted Live.step feed) Watched
      (Live.init (fun _ => 5) 0 (fun _ => none), .empty)
      ([.module (.fork 7 ⟨1, 0, 2, 3⟩),
        .module (.write ⟨bytes "R 7", some ⟨0, 0, 0, 0, 0⟩⟩), .module .fire, .module .fire,
        .start] ++ List.replicate 3 .advance) x ∧
      x.2.trace.recorded = [⟨0, 1, 0, 5⟩, ⟨0, 0, 0, 0⟩] ∧ x.1.reader = .erases [0] 0 := by
    refine Run.exists_of_replay (fun x => (x.2.trace.recorded, x.1.reader))
      (a := ([⟨0, 1, 0, 5⟩, ⟨0, 0, 0, 0⟩], .erases [0] 0)) (by decide +kernel)
      fun x _ seen => ?_
    exact Prod.mk.inj seen
  have busy : x.1.reader ≠ .away := by
    rw [reader]
    decide
  obtain ⟨as', y, rest, -, printed⟩ := live_monitor_finishes run busy
  refine ⟨x, as', y, run, rest, ?_⟩
  rw [printed, recorded]
  rfl

end KernelModules.MP3
