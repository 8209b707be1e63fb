import Mathlib.Data.Finset.Card
import KernelModules.MP3.Session

/-!
# The monitor

`main` of `monitor.c` on the mapped buffer: look for the first element that is not -1, print and
erase lines of four elements from there until a line would begin with -1, and go on at the
beginning of the buffer at `BUFD_MAX`.
-/

namespace KernelModules.MP3

def bufdMax : Nat := 48000

/-- A line as it is printed: the elements with the indices they were read at. -/
abbrev Line := List (Nat × Nat)

def Line.values (line : Line) : List Nat := line.map Prod.snd

/-- The loop that looks for an element that is not -1, for at most `n` elements from `index`. -/
def scan (buf : Nat → Nat) : Nat → Nat → Nat
  | 0, index => index
  | n + 1, index => if buf index ≠ termination then index else scan buf n (index + 1)

/-- The index after one that was counted up. -/
def wrap (index : Nat) : Nat := if index ≥ bufdMax then 0 else index

/-- Print an element, erase it and count up the index. -/
def printField (buf : Nat → Nat) (index : Nat) : (Nat × Nat) × (Nat → Nat) × Nat :=
  ((index, buf index), Function.update buf index termination, wrap (index + 1))

/-- The body of the `while` loop. -/
def printLine (buf : Nat → Nat) (index : Nat) : Line × (Nat → Nat) × Nat :=
  let (first, buf, index) := printField buf index
  let (second, buf, index) := printField buf index
  let (third, buf, index) := printField buf index
  let (fourth, buf, index) := printField buf index
  ([first, second, third, fourth], buf, index)

/-- The `while` loop, for at most `fuel` lines. -/
def printLines : Nat → (Nat → Nat) → Nat → List Line × (Nat → Nat)
  | 0, buf, _ => ([], buf)
  | fuel + 1, buf, index =>
    if buf index ≠ termination then
      let (line, buf, index) := printLine buf index
      let (lines, buf) := printLines fuel buf index
      (line :: lines, buf)
    else ([], buf)

/-- One run of the monitor: the lines it prints and the buffer it leaves. -/
def monitor (buf : Nat → Nat) : List Line × (Nat → Nat) :=
  printLines (bufdMax + 1) buf (scan buf bufdMax 0)

/-! ## The loop ends -/

/-- The elements in reach of the loop that are not erased. -/
def unerased (buf : Nat → Nat) : Finset Nat :=
  (Finset.range (bufdMax + 1)).filter fun i => buf i ≠ termination

theorem unerased_update (buf : Nat → Nat) (i : Nat) :
    unerased (Function.update buf i termination) ⊆ unerased buf := by
  intro j hj
  obtain ⟨reach, left⟩ := Finset.mem_filter.mp hj
  refine Finset.mem_filter.mpr ⟨reach, fun erased => left ?_⟩
  by_cases same : j = i
  · rw [same, Function.update_self]
  · rw [Function.update_of_ne same, erased]

theorem wrap_le (i : Nat) : wrap i ≤ bufdMax := by
  unfold wrap
  split <;> omega

theorem wrap_lt (i : Nat) : wrap i < bufdMax := by
  have positive : 0 < bufdMax := by decide
  unfold wrap
  split <;> omega

/-- A line erases the element it was begun for, and goes on within reach. -/
theorem printLine_unerased {buf : Nat → Nat} {i : Nat} (reach : i ≤ bufdMax)
    (left : buf i ≠ termination) :
    (unerased (printLine buf i).2.1).card < (unerased buf).card := by
  have one : (unerased (Function.update buf i termination)).card < (unerased buf).card := by
    apply Finset.card_lt_card
    refine ⟨unerased_update buf i, fun back => ?_⟩
    have mem : i ∈ unerased buf := Finset.mem_filter.mpr ⟨Finset.mem_range_succ_iff.mpr reach, left⟩
    have gone := (Finset.mem_filter.mp (back mem)).2
    exact gone (Function.update_self i termination buf)
  apply Nat.lt_of_le_of_lt (Finset.card_le_card _) one
  exact (unerased_update _ _).trans ((unerased_update _ _).trans (unerased_update _ _))

/-- Fuel for every element that is not erased is enough: more makes no difference. -/
theorem printLines_fuel {fuel : Nat} {buf : Nat → Nat} {i : Nat} (reach : i ≤ bufdMax)
    (enough : (unerased buf).card ≤ fuel) (more : Nat) :
    printLines (fuel + more) buf i = printLines fuel buf i := by
  induction fuel generalizing buf i with
  | zero =>
    have erased : buf i = termination := by
      by_contra left
      have mem : i ∈ unerased buf :=
        Finset.mem_filter.mpr ⟨Finset.mem_range_succ_iff.mpr reach, left⟩
      rw [Finset.card_eq_zero.mp (Nat.le_zero.mp enough)] at mem
      exact absurd mem (Finset.notMem_empty i)
    cases more with
    | zero => rfl
    | succ more => simp [printLines, erased]
  | succ fuel ih =>
    rw [Nat.succ_add]
    simp only [printLines]
    by_cases left : buf i ≠ termination
    · have fewer := printLine_unerased reach left
      have next : (printLine buf i).2.2 ≤ bufdMax := wrap_le _
      have rest := ih next (Nat.le_of_lt_succ (Nat.lt_of_lt_of_le fewer enough))
      rw [if_pos left, if_pos left, rest]
    · rw [if_neg left, if_neg left]

theorem scan_le (buf : Nat → Nat) (n i : Nat) : scan buf n i ≤ i + n := by
  induction n generalizing i with
  | zero => exact Nat.le_refl i
  | succ n ih =>
    unfold scan
    split
    · omega
    · have := ih (i + 1)
      omega

/-- The monitor stops by itself, on any contents of the buffer. -/
theorem monitor_stops (buf : Nat → Nat) (more : Nat) :
    printLines (bufdMax + 1 + more) buf (scan buf bufdMax 0) = monitor buf := by
  apply printLines_fuel
  · have := scan_le buf bufdMax 0
    omega
  · calc (unerased buf).card ≤ (Finset.range (bufdMax + 1)).card := Finset.card_filter_le _ _
      _ = bufdMax + 1 := Finset.card_range _

/-! ## What a run of the monitor prints -/

/-- Every line begins with an element that is not -1, and is read from indices below
`BUFD_MAX` after the first. -/
theorem printLines_line {fuel : Nat} {buf : Nat → Nat} {i : Nat} {line : Line}
    (printed : line ∈ (printLines fuel buf i).1) :
    ∃ (buf : Nat → Nat) (i : Nat), buf i ≠ termination ∧ line = (printLine buf i).1 := by
  induction fuel generalizing buf i with
  | zero => simp [printLines] at printed
  | succ fuel ih =>
    simp only [printLines] at printed
    by_cases left : buf i ≠ termination
    · rw [if_pos left] at printed
      rcases List.mem_cons.mp printed with rfl | later
      · exact ⟨buf, i, left, rfl⟩
      · exact ih later
    · rw [if_neg left] at printed
      simp at printed

/-- The line of a sample that is stored from index `i` on. -/
def Sample.line (x : Sample) (i : Nat) : Line :=
  [(i, x.jiffies), (i + 1, x.minor), (i + 2, x.major), (i + 3, x.cpu)]

theorem Sample.line_values (x : Sample) (i : Nat) : (x.line i).values = x.fields := rfl

/-- The lines of samples that are stored one after the other from index `i` on. -/
def linesAt : Nat → List Sample → List Line
  | _, [] => []
  | i, x :: l => x.line i :: linesAt (i + 4) l

theorem linesAt_values (i : Nat) (l : List Sample) :
    (linesAt i l).map Line.values = l.map Sample.fields := by
  induction l generalizing i with
  | nil => rfl
  | cons x l ih => rw [linesAt, List.map_cons, List.map_cons, ih, Sample.line_values]

/-- The buffer with `n` elements from `i` on erased. -/
def erased (buf : Nat → Nat) (i n : Nat) : Nat → Nat :=
  fun j => if i ≤ j ∧ j < i + n then termination else buf j

theorem erased_zero (buf : Nat → Nat) (i : Nat) : erased buf i 0 = buf := by
  funext j
  have : ¬ (i ≤ j ∧ j < i + 0) := by omega
  rw [erased, if_neg this]

theorem erased_erased (buf : Nat → Nat) (i n m : Nat) :
    erased (erased buf i n) (i + n) m = erased buf i (n + m) := by
  funext j
  unfold erased
  by_cases first : i ≤ j ∧ j < i + n <;> by_cases second : i + n ≤ j ∧ j < i + n + m <;>
    by_cases both : i ≤ j ∧ j < i + (n + m) <;>
    simp only [first, second, both, and_self, ↓reduceIte] <;> omega

section

variable {buf : Nat → Nat} {i : Nat}

theorem wrap_small (small : i < bufdMax) : wrap i = i := by
  rw [wrap, if_neg (by omega)]

theorem printLine_sample {x : Sample} (laid : Laid buf i x.fields) (fits : i + 4 ≤ bufdMax) :
    printLine buf i = (x.line i, erased buf i 4, wrap (i + 4)) := by
  obtain ⟨first, second, third, fourth, -⟩ := laid
  let one := Function.update buf i termination
  let two := Function.update one (i + 1) termination
  let three := Function.update two (i + 2) termination
  have skips (f : Nat → Nat) (k n : Nat) (other : n ≠ k) :
      Function.update f (i + k) termination (i + n) = f (i + n) :=
    Function.update_of_ne (by omega) _ _
  have second : one (i + 1) = x.minor := (skips buf 0 1 (by decide)).trans second
  have third : two (i + 2) = x.major :=
    (skips one 1 2 (by decide)).trans ((skips buf 0 2 (by decide)).trans third)
  have fourth : three (i + 3) = x.cpu :=
    (skips two 2 3 (by decide)).trans
      ((skips one 1 3 (by decide)).trans ((skips buf 0 3 (by decide)).trans fourth))
  have left : Function.update three (i + 3) termination = erased buf i 4 := by
    funext j
    simp only [three, two, one, Function.update_apply, erased]
    by_cases inside : i ≤ j ∧ j < i + 4
    · rw [if_pos inside]
      split_ifs <;> first | rfl | omega
    · rw [if_neg inside, if_neg (by omega), if_neg (by omega), if_neg (by omega),
        if_neg (by omega)]
  simp only [printLine, printField, wrap_small (show i + 1 < bufdMax by omega),
    wrap_small (show i + 1 + 1 < bufdMax by omega),
    wrap_small (show i + 1 + 1 + 1 < bufdMax by omega), Sample.line]
  rw [← first, ← second, ← third, ← fourth, ← left]

/-- Samples that lie in the buffer one after the other, up to where a line would begin with -1,
are printed and erased. -/
theorem printLines_samples {l : List Sample} {fuel : Nat}
    (laid : Laid buf i (l.flatMap Sample.fields)) (fits : i + 4 * l.length ≤ bufdMax)
    (clock : ∀ x ∈ l, x.jiffies ≠ termination)
    (stop : erased buf i (4 * l.length) (wrap (i + 4 * l.length)) = termination)
    (enough : l.length ≤ fuel) :
    printLines fuel buf (wrap i) = (linesAt i l, erased buf i (4 * l.length)) := by
  induction l generalizing fuel buf i with
  | nil =>
    rw [List.length_nil, Nat.mul_zero, erased_zero] at stop ⊢
    rw [Nat.add_zero] at stop
    cases fuel with
    | zero => rfl
    | succ fuel => simp [printLines, linesAt, stop]
  | cons x l ih =>
    rw [List.length_cons] at fits enough stop ⊢
    obtain ⟨fuel, rfl⟩ : ∃ k, fuel = k + 1 := ⟨fuel - 1, by omega⟩
    rw [List.flatMap_cons, laid_append, Sample.fields_length] at laid
    obtain ⟨line, rest⟩ := laid
    have begins : buf i ≠ termination := by
      rw [line.1]
      exact clock x List.mem_cons_self
    have total : 4 * (l.length + 1) = 4 + 4 * l.length := by omega
    have after : Laid (erased buf i 4) (i + 4) (l.flatMap Sample.fields) := by
      apply rest.congr
      intro j above _
      rw [erased, if_neg (by omega)]
    have later : printLines fuel (erased buf i 4) (wrap (i + 4)) =
        (linesAt (i + 4) l, erased (erased buf i 4) (i + 4) (4 * l.length)) := by
      apply ih after (by omega) (fun y hy => clock y (List.mem_cons_of_mem x hy)) _ (by omega)
      rw [erased_erased, ← total, Nat.add_assoc, ← total]
      exact stop
    rw [wrap_small (show i < bufdMax by omega)]
    simp only [printLines, if_pos begins, printLine_sample line (show i + 4 ≤ bufdMax by omega),
      later, linesAt, erased_erased, ← total]

theorem scan_first {n d : Nat} (drained : ∀ j, i ≤ j → j < d → buf j = termination)
    (live : buf d ≠ termination) (above : i ≤ d) (below : d < i + n) : scan buf n i = d := by
  induction n generalizing i with
  | zero => omega
  | succ n ih =>
    unfold scan
    by_cases here : i = d
    · rw [here, if_pos live]
    · rw [if_neg (not_not.mpr (drained i (Nat.le_refl i) (by omega)))]
      exact ih (fun j hj => drained j (by omega)) (by omega) (by omega)

theorem scan_none {n : Nat} (drained : ∀ j, i ≤ j → j < i + n → buf j = termination) :
    scan buf n i = i + n := by
  induction n generalizing i with
  | zero => rfl
  | succ n ih =>
    unfold scan
    rw [if_neg (not_not.mpr (drained i (Nat.le_refl i) (by omega))),
      ih fun j above below => drained j (by omega) (by omega)]
    omega

end

end KernelModules.MP3
