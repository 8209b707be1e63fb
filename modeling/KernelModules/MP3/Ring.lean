import KernelModules.MP3.Monitor

/-!
# The monitor goes around once

The loop that prints has no counter of its own: it ends where a line would begin with -1. Every
line moves the index four places on around the ring of `BUFD_MAX` elements, whose size is a
multiple of four, so after `BUFD_MAX / 4` lines the loop is back at the element it printed
first. When the loop that looks for an element finds none it ends at `BUFD_MAX`, outside of the
ring, and at most one line is printed from there.
-/

namespace KernelModules.MP3

def Line.places (line : Line) : List Nat := line.map Prod.fst

/-- The places that are printed. -/
def places (lines : List Line) : List Nat := lines.flatMap Line.places

/-! ## What the loops access -/

/-- `scan`, with the indices it reads. -/
def scanTrace (buf : Nat → Nat) : Nat → Nat → Nat × List Nat
  | 0, index => (index, [])
  | n + 1, index =>
    if buf index ≠ termination then (index, [index])
    else
      let (found, seen) := scanTrace buf n (index + 1)
      (found, index :: seen)

/-- `printLines`, with the indices it reads and writes: the one that is tested, and those of the
line. -/
def printLinesTrace : Nat → (Nat → Nat) → Nat → (List Line × (Nat → Nat)) × List Nat
  | 0, buf, _ => (([], buf), [])
  | fuel + 1, buf, index =>
    if buf index ≠ termination then
      let (line, buf, next) := printLine buf index
      let ((lines, buf), seen) := printLinesTrace fuel buf next
      ((line :: lines, buf), index :: line.places ++ seen)
    else (([], buf), [index])

/-- `monitor`, with the indices it accesses. -/
def monitorTrace (buf : Nat → Nat) : (List Line × (Nat → Nat)) × List Nat :=
  let (index, seen) := scanTrace buf bufdMax 0
  let (result, seen') := printLinesTrace (bufdMax + 1) buf index
  (result, seen ++ seen')

theorem scanTrace_fst (buf : Nat → Nat) (n i : Nat) : (scanTrace buf n i).1 = scan buf n i := by
  induction n generalizing i with
  | zero => rfl
  | succ n ih =>
    simp only [scanTrace, scan]
    by_cases live : buf i ≠ termination
    · rw [if_pos live, if_pos live]
    · rw [if_neg live, if_neg live]
      exact ih (i + 1)

theorem printLinesTrace_fst (fuel : Nat) (buf : Nat → Nat) (i : Nat) :
    (printLinesTrace fuel buf i).1 = printLines fuel buf i := by
  induction fuel generalizing buf i with
  | zero => rfl
  | succ fuel ih =>
    simp only [printLinesTrace, printLines]
    by_cases live : buf i ≠ termination
    · rw [if_pos live, if_pos live]
      simp only [← ih]
    · rw [if_neg live, if_neg live]

theorem monitorTrace_fst (buf : Nat → Nat) : (monitorTrace buf).1 = monitor buf := by
  simp only [monitorTrace, monitor, printLinesTrace_fst, scanTrace_fst]

theorem monitorTrace_snd (buf : Nat → Nat) :
    (monitorTrace buf).2 =
      (scanTrace buf bufdMax 0).2 ++
        (printLinesTrace (bufdMax + 1) buf (scan buf bufdMax 0)).2 := by
  simp only [monitorTrace, scanTrace_fst]

theorem scanTrace_reach (buf : Nat → Nat) (n i : Nat) : ∀ j ∈ (scanTrace buf n i).2, j < i + n := by
  induction n generalizing i with
  | zero => simp [scanTrace]
  | succ n ih =>
    intro j seen
    simp only [scanTrace] at seen
    by_cases live : buf i ≠ termination
    · rw [if_pos live] at seen
      obtain rfl := List.mem_singleton.mp seen
      omega
    · rw [if_neg live] at seen
      rcases List.mem_cons.mp seen with rfl | later
      · omega
      · have := ih (i + 1) j later
        omega

/-- A line is read at the index it is begun for, and at places within the ring. -/
theorem printLine_reach {buf : Nat → Nat} {i : Nat} (reach : i ≤ bufdMax) :
    ∀ j ∈ (printLine buf i).1.places, j ≤ bufdMax := by
  intro j seen
  change j ∈ [i, wrap (i + 1), wrap (wrap (i + 1) + 1), wrap (wrap (wrap (i + 1) + 1) + 1)] at seen
  rcases List.mem_cons.mp seen with rfl | later
  · exact reach
  · simp only [List.mem_cons, List.not_mem_nil, or_false] at later
    rcases later with rfl | rfl | rfl
    all_goals exact wrap_le _

theorem printLinesTrace_reach (fuel : Nat) (buf : Nat → Nat) {i : Nat} (reach : i ≤ bufdMax) :
    ∀ j ∈ (printLinesTrace fuel buf i).2, j ≤ bufdMax := by
  induction fuel generalizing buf i with
  | zero => simp [printLinesTrace]
  | succ fuel ih =>
    intro j seen
    simp only [printLinesTrace] at seen
    by_cases live : buf i ≠ termination
    · rw [if_pos live] at seen
      rcases List.mem_append.mp seen with here | later
      · rcases List.mem_cons.mp here with rfl | inside
        · exact reach
        · exact printLine_reach reach j inside
      · exact ih _ (wrap_le _) j later
    · rw [if_neg live] at seen
      obtain rfl := List.mem_singleton.mp seen
      exact reach

/-- The monitor accesses no element beyond the one at `BUFD_MAX`. -/
theorem monitorTrace_reach (buf : Nat → Nat) : ∀ j ∈ (monitorTrace buf).2, j ≤ bufdMax := by
  intro j seen
  rw [monitorTrace_snd] at seen
  rcases List.mem_append.mp seen with early | late
  · have := scanTrace_reach buf bufdMax 0 j early
    omega
  · refine printLinesTrace_reach _ buf ?_ j late
    have := scan_le buf bufdMax 0
    omega

/-! ## What the loop leaves -/

theorem printLine_frame (buf : Nat → Nat) (i j : Nat) :
    (printLine buf i).2.1 j = if j ∈ (printLine buf i).1.places then termination else buf j := by
  simp only [printLine, printField, Line.places, List.map_cons, List.map_nil, List.mem_cons,
    List.not_mem_nil, or_false, Function.update_apply, ite_or]
  split_ifs <;> rfl

/-- What is printed is erased, and everything else is left as it was. -/
theorem printLines_frame (fuel : Nat) (buf : Nat → Nat) (i j : Nat) :
    (printLines fuel buf i).2 j =
      if j ∈ places (printLines fuel buf i).1 then termination else buf j := by
  induction fuel generalizing buf i with
  | zero => simp [printLines, places]
  | succ fuel ih =>
    simp only [printLines]
    by_cases live : buf i ≠ termination
    · rw [if_pos live]
      simp only [ih, printLine_frame, places, List.flatMap_cons, List.mem_append, ite_or]
      split_ifs <;> rfl
    · rw [if_neg live]
      simp [places]

/-! ## How long the loop runs -/

/-- The place `j` steps on from `d`. -/
def around (d j : Nat) : Nat := (d + j) % bufdMax

theorem wrap_around (d j : Nat) : wrap (around d j + 1) = around d (j + 1) := by
  unfold wrap around bufdMax
  split <;> omega

theorem printLine_around (buf : Nat → Nat) (d j : Nat) :
    (printLine buf (around d j)).1.places =
        [around d j, around d (j + 1), around d (j + 2), around d (j + 3)] ∧
      (printLine buf (around d j)).2.2 = around d (j + 4) := by
  simp [printLine, printField, Line.places, wrap_around]

/-- From `d` on the first `k` lines have been erased, and the next one is as well. -/
theorem printLine_gone {d k : Nat} {buf : Nat → Nat}
    (gone : ∀ j < 4 * k, buf (around d j) = termination) :
    ∀ j < 4 * (k + 1), (printLine buf (around d (4 * k))).2.1 (around d j) = termination := by
  intro j below
  rw [printLine_frame, (printLine_around buf d (4 * k)).1]
  split
  · rfl
  · rename_i fresh
    apply gone
    by_contra above
    obtain ⟨m, rfl⟩ := Nat.exists_eq_add_of_le (Nat.le_of_not_lt above)
    have few : m = 0 ∨ m = 1 ∨ m = 2 ∨ m = 3 := by omega
    rcases few with rfl | rfl | rfl | rfl
    all_goals simp at fresh

/-- From `d` on the first `k` lines have been erased: no more lines follow than the ring has
left. -/
theorem printLines_length (fuel d : Nat) {k : Nat} {buf : Nat → Nat} (within : k ≤ bufdMax / 4)
    (gone : ∀ j < 4 * k, buf (around d j) = termination) :
    (printLines fuel buf (around d (4 * k))).1.length ≤ bufdMax / 4 - k := by
  induction fuel generalizing k buf with
  | zero => simp [printLines]
  | succ fuel ih =>
    simp only [printLines]
    by_cases live : buf (around d (4 * k)) ≠ termination
    · rw [if_pos live]
      have more : k < bufdMax / 4 := by
        -- after the last line of the ring the index is back at `d`
        refine Nat.lt_of_le_of_ne within fun full => live ?_
        have back : around d (4 * k) = around d 0 := by
          rw [full]
          simp [around, bufdMax]
        rw [back]
        exact gone 0 (by rw [full]; decide)
      have rest := ih (k := k + 1) more (printLine_gone gone)
      rw [Nat.mul_succ, ← (printLine_around buf d (4 * k)).2] at rest
      have room : bufdMax / 4 - (k + 1) + 1 ≤ bufdMax / 4 - k := by omega
      exact (Nat.succ_le_succ rest).trans room
    · rw [if_neg live]
      simp

/-- More fuel than lines makes no difference. -/
theorem printLines_of_length_le {n more : Nat} {buf : Nat → Nat} {i : Nat}
    (short : (printLines (n + more) buf i).1.length ≤ n) :
    printLines (n + more) buf i = printLines n buf i := by
  induction n generalizing buf i with
  | zero =>
    rw [Nat.zero_add] at short ⊢
    cases more with
    | zero => rfl
    | succ more =>
      simp only [printLines] at short ⊢
      by_cases live : buf i ≠ termination
      · rw [if_pos live] at short
        simp at short
      · rw [if_neg live]
  | succ n ih =>
    rw [Nat.succ_add] at short ⊢
    simp only [printLines] at short ⊢
    by_cases live : buf i ≠ termination
    · rw [if_pos live] at short ⊢
      rw [if_pos live, ih (Nat.le_of_succ_le_succ short)]
    · rw [if_neg live, if_neg live]

theorem scan_before {buf : Nat → Nat} {n i j : Nat} (above : i ≤ j) (below : j < scan buf n i) :
    buf j = termination := by
  induction n generalizing i with
  | zero =>
    change j < i at below
    omega
  | succ n ih =>
    unfold scan at below
    split at below
    · omega
    · rename_i erased
      by_cases here : j = i
      · rw [here]
        exact not_not.mp erased
      · exact ih (by omega) below

/-- When no element is found the index is one past the ring, where at most one line begins: it
ends at an element that is -1. -/
theorem printLines_outside_length (fuel : Nat) {buf : Nat → Nat}
    (drained : ∀ j < bufdMax, buf j = termination) :
    (printLines fuel buf bufdMax).1.length ≤ 1 := by
  have stops (n : Nat) : (printLines n (printLine buf bufdMax).2.1 3).1 = [] := by
    have erased : (printLine buf bufdMax).2.1 3 = termination := by
      rw [printLine_frame, drained 3 (by decide), ite_self]
    cases n with
    | zero => rfl
    | succ n =>
      simp only [printLines]
      rw [if_neg (not_not.mpr erased)]
  cases fuel with
  | zero => exact Nat.zero_le 1
  | succ fuel =>
    simp only [printLines]
    by_cases live : buf bufdMax ≠ termination
    · have next : (printLine buf bufdMax).2.2 = 3 := by
        simp [printLine, printField, wrap, bufdMax]
      rw [if_pos live, next, stops]
      exact Nat.le_refl 1
    · rw [if_neg live]
      exact Nat.zero_le 1

/-- At most one line is printed for every four elements of the ring. -/
theorem printLines_scan_length (fuel : Nat) (buf : Nat → Nat) :
    (printLines fuel buf (scan buf bufdMax 0)).1.length ≤ bufdMax / 4 := by
  by_cases drained : ∀ j < bufdMax, buf j = termination
  · rw [scan_none fun j _ below => drained j (by omega), Nat.zero_add]
    exact (printLines_outside_length fuel drained).trans (by decide)
  · have inside : scan buf bufdMax 0 < bufdMax := by
      refine Nat.lt_of_le_of_ne ?_ fun none_found => drained fun j below => ?_
      · have := scan_le buf bufdMax 0
        omega
      · exact scan_before (n := bufdMax) (Nat.zero_le j) (none_found.symm ▸ below)
    have start : around (scan buf bufdMax 0) (4 * 0) = scan buf bufdMax 0 := by
      rw [around, Nat.mul_zero, Nat.add_zero, Nat.mod_eq_of_lt inside]
    have bound : (printLines fuel buf (around (scan buf bufdMax 0) (4 * 0))).1.length ≤
        bufdMax / 4 - 0 := printLines_length fuel _ (Nat.zero_le _) (by simp)
    rwa [start] at bound

/-- On any contents of the buffer the monitor ends by itself after at most `BUFD_MAX / 4` lines,
accesses no element beyond the one at `BUFD_MAX`, erases what it prints and leaves everything
else as it was. -/
theorem monitor_terminates_and_frames (buf : Nat → Nat) :
    (monitor buf).1.length ≤ bufdMax / 4 ∧
      (∀ more, printLines (bufdMax / 4 + more) buf (scan buf bufdMax 0) = monitor buf) ∧
      (monitorTrace buf).1 = monitor buf ∧
      (∀ i ∈ (monitorTrace buf).2, i ≤ bufdMax) ∧
      ∀ i, (monitor buf).2 i = if i ∈ places (monitor buf).1 then termination else buf i := by
  have enough (more : Nat) : printLines (bufdMax / 4 + more) buf (scan buf bufdMax 0) =
      printLines (bufdMax / 4) buf (scan buf bufdMax 0) :=
    printLines_of_length_le (printLines_scan_length _ buf)
  have whole : monitor buf = printLines (bufdMax / 4) buf (scan buf bufdMax 0) := by
    have fuel : bufdMax + 1 = bufdMax / 4 + 36001 := by decide
    rw [monitor, fuel, enough]
  refine ⟨printLines_scan_length _ buf, fun more => ?_, monitorTrace_fst buf,
    monitorTrace_reach buf, printLines_frame _ buf _⟩
  rw [enough, whole]

end KernelModules.MP3
