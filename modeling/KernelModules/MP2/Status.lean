import KernelModules.Lib.Report
import KernelModules.MP2.System

/-!
# The status report

`myread` prints the pids into one buffer, the number of entries into a second, and copies the
first behind the second, with the NUL that ends it. It delivers that NUL as the last byte, which
`check` of `userapp` reads as one more line.
-/

namespace KernelModules.MP2

/-- The size of both buffers of `myread`. -/
def buffsize : Nat := 2048

/-- One pass of the loop of `myread`, over `tmpbuf`, `off` and `size`. -/
def addPid (acc : List UInt8 × Nat × Nat) (itr : Task) :
    Except Overrun (List UInt8 × Nat × Nat) := do
  let tmpbuf ← sprintf acc.1 acc.2.1 (formatInt (toI32 itr.pid) ++ [10])
  .ok (tmpbuf, strlen tmpbuf, acc.2.2 + 1)

/-- A read at `offset` into a buffer of any length. `tmpbuf` and `buf` are the buffers as `kmalloc`
hands them out. -/
def myreadReply (s : State) (_len offset : Nat) (tmpbuf buf : List UInt8) : Except Overrun Reply :=
  if 0 < offset then .ok ⟨[], 0, offset⟩
  else do
    let tmpbuf ← store tmpbuf 0 [0]
    let (tmpbuf, off, size) ← s.head.foldlM addPid (tmpbuf, 0, 0)
    let buf ← sprintf buf 0 (formatInt size ++ [10])
    let totalLen := strlen buf + off
    let buf ← store buf (strlen buf) (tmpbuf.take (off + 1))
    .ok ⟨buf.take (totalLen + 1), totalLen + 1, offset + (totalLen + 1)⟩

/-- The bytes that `myread` copies to the user, whose number is returned, and the new offset. -/
def myread (s : State) (len offset : Nat) (tmpbuf buf : List UInt8) :
    Except Overrun (List UInt8 × Nat) :=
  (myreadReply s len offset tmpbuf buf).map fun r => (r.copied, r.offset)

/-- The loop of `check` with `pid` as it was read last. -/
def checkLoop (currPid pid : Int) (rfp : List UInt8) : Nat :=
  match h : fgets 256 rfp with
  | none => 1
  | some (line, rfp') =>
    have : rfp'.length < rfp.length := fgets_lt (by decide) h
    let pid := (sscanfInt line).getD pid
    if pid = currPid then 0 else checkLoop currPid pid rfp'
termination_by rfp.length

/-- `size` and the result of `check`, which reads the stream `rfp`. -/
def check (currPid : Int) (rfp : List UInt8) : Int × Nat :=
  -- a failed `fgets` leaves `line` as it is, empty
  let (line, rfp) := (fgets 256 rfp).getD ([], rfp)
  ((sscanfInt line).getD 0, checkLoop currPid 0 rfp)

/-! ## What is read -/

def pidLine (t : Task) : List UInt8 := formatInt (toI32 t.pid) ++ [10]

def pidLines (ts : List Task) : List UInt8 := ts.flatMap pidLine

/-- The count line, a line for each pid, and the NUL. -/
def report (ts : List Task) : List UInt8 :=
  formatInt ts.length ++ 10 :: (pidLines ts ++ [0])

theorem ne_zero_line (i : Int) : ∀ b ∈ formatInt i ++ [10], b ≠ 0 := by
  intro b hb
  rcases List.mem_append.mp hb with hb | hb
  · exact formatInt_ne (by decide) (by decide) b hb
  · rw [List.mem_singleton.mp hb]
    decide

/-- A pass of the loop prints a line and counts it. -/
theorem addPid_eq (tmpbuf : List UInt8) (off size : Nat) (t : Task) :
    addPid (tmpbuf, off, size) t =
      (appendLine (tmpbuf, off) (pidLine t)).map fun acc => (acc.1, acc.2, size + 1) := by
  rw [addPid, appendLine, pidLine]
  cases sprintf tmpbuf off (formatInt (toI32 t.pid) ++ [10]) <;> rfl

theorem addPid_foldlM (ts : List Task) (acc : List UInt8 × Nat) (size : Nat) :
    ts.foldlM addPid (acc.1, acc.2, size) =
      ((ts.map pidLine).foldlM appendLine acc).map fun acc => (acc.1, acc.2, size + ts.length) := by
  induction ts generalizing acc size with
  | nil => rfl
  | cons t ts ih =>
    rw [List.foldlM_cons, List.map_cons, List.foldlM_cons, addPid_eq]
    cases appendLine acc (pidLine t) with
    | error e => rfl
    | ok acc' =>
      rw [List.length_cons, Nat.add_comm ts.length, ← Nat.add_assoc]
      exact ih acc' (size + 1)

theorem pidLine_ne_zero (ts : List Task) : ∀ line ∈ ts.map pidLine, ∀ b ∈ line, b ≠ 0 := by
  intro line hl
  obtain ⟨t, -, rfl⟩ := List.mem_map.mp hl
  exact ne_zero_line (toI32 t.pid)

theorem flatten_pidLine (ts : List Task) : (ts.map pidLine).flatten = pidLines ts :=
  List.flatMap_def.symm

theorem addPid_fold (ts : List Task) {tmpbuf : List UInt8} (h : Holds tmpbuf [])
    (fits : (pidLines ts).length + 1 ≤ tmpbuf.length) :
    ∃ tmpbuf', ts.foldlM addPid (tmpbuf, 0, 0) = .ok (tmpbuf', (pidLines ts).length, ts.length) ∧
      Holds tmpbuf' (pidLines ts) := by
  rw [← flatten_pidLine] at fits ⊢
  obtain ⟨tmpbuf', folded, holds⟩ := h.appendLines (pidLine_ne_zero ts) fits
  refine ⟨tmpbuf', ?_, holds⟩
  have loop := addPid_foldlM ts (tmpbuf, 0) 0
  rw [loop, show (tmpbuf, 0) = (tmpbuf, ([] : List UInt8).length) from rfl, folded, Nat.zero_add]
  rfl

theorem pidLines_ne_zero (ts : List Task) : ∀ b ∈ pidLines ts, b ≠ 0 := by
  intro b hb
  obtain ⟨t, _, hb⟩ := List.mem_flatMap.mp hb
  exact ne_zero_line _ b hb

theorem report_length (ts : List Task) :
    (report ts).length = (formatInt ts.length ++ [10]).length + (pidLines ts).length + 1 := by
  simp only [report, List.length_append, List.length_cons, List.length_nil]
  omega

/-- The text that `tmpbuf` holds at first is empty. -/
theorem emptied_tmpbuf {tmpbuf : List UInt8} (ht : tmpbuf.length = buffsize) :
    ∃ mem, store tmpbuf 0 [0] = .ok mem ∧ Holds mem [] ∧ mem.length = buffsize := by
  have room : ([] : List UInt8).length + 1 ≤ tmpbuf.length := by
    rw [ht]
    decide
  obtain ⟨mem, stored, holds, length⟩ := sprintf_start (by simp) room
  exact ⟨mem, stored, holds, length.trans ht⟩

/-- What a first read delivers, as long as it fits the buffers. -/
theorem myreadReply_report {s : State} {tmpbuf buf : List UInt8} (len : Nat)
    (ht : tmpbuf.length = buffsize) (hb : buf.length = buffsize)
    (fits : (report s.head).length ≤ buffsize) :
    myreadReply s len 0 tmpbuf buf =
      .ok ⟨report s.head, (report s.head).length, (report s.head).length⟩ := by
  have size := report_length s.head
  obtain ⟨tmp₀, emptied, empty, len₀⟩ := emptied_tmpbuf ht
  have room₀ : (pidLines s.head).length + 1 ≤ tmp₀.length := by omega
  obtain ⟨tmp, folded, pids⟩ := addPid_fold s.head empty room₀
  obtain ⟨buf₀, counted, count, len₁⟩ : ∃ mem, sprintf buf 0 (formatInt s.head.length ++ [10]) =
      .ok mem ∧ Holds mem (formatInt s.head.length ++ [10]) ∧ mem.length = buf.length :=
    sprintf_start (ne_zero_line _) (by rw [hb]; omega)
  have room₁ : (formatInt s.head.length ++ [10] ++ pidLines s.head).length + 1 ≤ buf₀.length := by
    rw [List.length_append, len₁, hb]
    omega
  obtain ⟨buf₁, copied, whole, _⟩ := count.sprintf (pidLines_ne_zero s.head) room₁
  -- what is copied behind the count line is the text in `tmpbuf` and its NUL
  have behind : tmp.take ((pidLines s.head).length + 1) = pidLines s.head ++ [0] := pids.take
  have delivered :
      buf₁.take ((formatInt s.head.length ++ [10]).length + (pidLines s.head).length + 1) =
        report s.head := by
    rw [← List.length_append, whole.take]
    simp [report]
  rw [myreadReply, if_neg (by decide), emptied]
  change (s.head.foldlM addPid (tmp₀, 0, 0) >>= _) = _
  rw [folded]
  change (sprintf buf 0 (formatInt s.head.length ++ [10]) >>= _) = _
  rw [counted]
  change (store buf₀ (strlen buf₀) (tmp.take ((pidLines s.head).length + 1)) >>= fun buf =>
    .ok (Reply.mk (buf.take (strlen buf₀ + (pidLines s.head).length + 1))
      (strlen buf₀ + (pidLines s.head).length + 1)
      (0 + (strlen buf₀ + (pidLines s.head).length + 1)))) = _
  rw [behind, count.strlen, show store buf₀ _ (pidLines s.head ++ [0]) = .ok buf₁ from copied]
  change Except.ok (Reply.mk _ _ _) = _
  rw [delivered, Nat.zero_add, ← size]

/-- Behind the beginning nothing is left to read. -/
theorem myreadReply_end {s : State} {offset : Nat} (later : 0 < offset) (len : Nat)
    (tmpbuf buf : List UInt8) : myreadReply s len offset tmpbuf buf = .ok ⟨[], 0, offset⟩ :=
  if_pos later

theorem myread_report {s : State} {tmpbuf buf : List UInt8} (len : Nat)
    (ht : tmpbuf.length = buffsize) (hb : buf.length = buffsize)
    (fits : (report s.head).length ≤ buffsize) :
    myread s len 0 tmpbuf buf = .ok (report s.head, (report s.head).length) := by
  rw [myread, myreadReply_report len ht hb fits]
  rfl

/-! ## What `check` makes of it -/

theorem checkLoop_end {currPid pid : Int} {rfp : List UInt8} (h : fgets 256 rfp = none) :
    checkLoop currPid pid rfp = 1 := by
  rw [checkLoop]
  split
  · rfl
  · rename_i some
    rw [h] at some
    cases some

theorem checkLoop_line {currPid pid : Int} {rfp line rest : List UInt8}
    (h : fgets 256 rfp = some (line, rest)) :
    checkLoop currPid pid rfp =
      if (sscanfInt line).getD pid = currPid then 0
      else checkLoop currPid ((sscanfInt line).getD pid) rest := by
  rw [checkLoop]
  split
  · rename_i none
    rw [h] at none
    cases none
  · rename_i line' rest' some
    rw [h] at some
    cases some
    rfl

theorem fgets_line {i : Int} (fits : fitsInt i = true) (rest : List UInt8) :
    fgets 256 (formatInt i ++ 10 :: rest) = some (formatInt i ++ [10], rest) := by
  apply fgets_append
  · exact formatInt_ne (by decide) (by decide)
  · exact Nat.lt_of_le_of_lt (formatInt_length_le fits) (by decide)

theorem fitsInt_toI32 (n : Nat) : fitsInt (toI32 n) = true := fitsInt_iff.mpr (toI32_bounds n)

/-- The line with the NUL leaves `pid` as it was, and it was compared before. -/
theorem checkLoop_lines {currPid : Int} (ts : List Task) {pid : Int} (other : pid ≠ currPid) :
    checkLoop currPid pid (pidLines ts ++ [0]) =
      if ∃ t ∈ ts, toI32 t.pid = currPid then 0 else 1 := by
  induction ts generalizing pid with
  | nil =>
    have last : fgets 256 (pidLines [] ++ [0]) = some ([0], []) := by decide
    have nothing : sscanfInt [0] = none := by decide
    rw [checkLoop_line last, nothing, Option.getD_none, if_neg other, checkLoop_end rfl]
    simp
  | cons t ts ih =>
    have line : fgets 256 (pidLines (t :: ts) ++ [0]) = some (pidLine t, pidLines ts ++ [0]) := by
      have lines :
          pidLines (t :: ts) ++ [0] = formatInt (toI32 t.pid) ++ 10 :: (pidLines ts ++ [0]) := by
        simp [pidLines, pidLine]
      rw [lines, fgets_line (fitsInt_toI32 _), pidLine]
    rw [checkLoop_line line, pidLine, sscanfInt_formatInt (fitsInt_toI32 _), Option.getD_some]
    by_cases here : toI32 t.pid = currPid
    · rw [if_pos here, if_pos ⟨t, List.mem_cons_self, here⟩]
    · rw [if_neg here, ih here]
      simp [here]

theorem check_report {currPid : Int} (pos : 0 < currPid) {ts : List Task}
    (few : ts.length < 2 ^ 31) :
    check currPid (report ts) =
      ((ts.length : Int), if ∃ t ∈ ts, toI32 t.pid = currPid then 0 else 1) := by
  have fits : fitsInt ts.length = true := fitsInt_iff.mpr ⟨by omega, by omega⟩
  rw [check, report, fgets_line fits, Option.getD_some]
  simp only [sscanfInt_formatInt fits, Option.getD_some, checkLoop_lines ts (Int.ne_of_lt pos)]

theorem length_le_report (ts : List Task) : ts.length ≤ (report ts).length := by
  have lines : ts.length ≤ (pidLines ts).length := by
    induction ts with
    | nil => exact Nat.le_refl _
    | cons t ts ih =>
      simp only [pidLines, pidLine, List.flatMap_cons, List.length_append, List.length_cons,
        List.length_nil] at ih ⊢
      omega
  simp only [report, List.length_append, List.length_cons]
  omega

/-- **The report is read as it was meant.** A first read of the file delivers the report and the
next one its end; `check` finds in it the number of entries and whether its pid has one. -/
theorem status_round_trip {s : State} (pids : ∀ t ∈ s.head, t.pid < 2 ^ 32)
    (fits : (report s.head).length ≤ buffsize) (currPid : Int) (pos : 0 < currPid)
    (small : currPid < 2 ^ 31) (len : Nat) {tmpbuf buf : List UInt8}
    (ht : tmpbuf.length = buffsize) (hb : buf.length = buffsize) :
    ∃ data, myread s len 0 tmpbuf buf = .ok (data, data.length) ∧
      (∀ len tmpbuf buf, myread s len data.length tmpbuf buf = .ok ([], data.length)) ∧
      (check currPid data).1 = s.head.length ∧
      ((check currPid data).2 = 0 ↔ ∃ t ∈ s.head, (t.pid : Int) = currPid) := by
  refine ⟨report s.head, myread_report len ht hb fits, ?_, ?_⟩
  · intro len tmpbuf buf
    have some : 0 < (report s.head).length := by
      simp only [report, List.length_append, List.length_cons]
      omega
    rw [myread, myreadReply_end some]
    rfl
  · have few : s.head.length < 2 ^ 31 := by
      have := length_le_report s.head
      unfold buffsize at fits
      omega
    have same : (∃ t ∈ s.head, toI32 t.pid = currPid) ↔ ∃ t ∈ s.head, (t.pid : Int) = currPid := by
      apply exists_congr
      intro t
      apply and_congr_right
      intro ht
      exact toI32_eq_iff (pids t ht) pos small
    rw [check_report pos few]
    simp only [same, true_and]
    split <;> simp_all

/-- Two tasks are registered, the second with a pid that is printed as a negative number. -/
theorem status_round_trip_two_tasks :
    ∃ (s : State) (data : List UInt8), s.head.map Task.pid = [7, 4294967291] ∧
      myread s 4096 0 (.replicate buffsize 90) (.replicate buffsize 165) = .ok (data, data.length) ∧
      (check 7 data).1 = 2 ∧ (check 7 data).2 = 0 := by
  have reported : (replay step Possible (.init 1 fun _ => none)
      [.write (.text "R,7,500,86\n" 1), .write (.text "R,-5,300,43\n" 2)]).map
      (fun s => (s.head.map Task.pid, report s.head)) =
      some ([7, 4294967291], bytes "2\n7\n-5\n" ++ [0]) := by decide
  obtain ⟨s, _, hs⟩ := Option.map_eq_some_iff.mp reported
  obtain ⟨listed, printed⟩ := Prod.mk.inj hs
  have pids : ∀ t ∈ s.head, t.pid < 2 ^ 32 := by
    intro t ht
    have mem := List.mem_map_of_mem (f := Task.pid) ht
    rw [listed] at mem
    have small : ∀ n ∈ [7, 4294967291], n < 2 ^ 32 := by decide
    exact small t.pid mem
  have fits : (report s.head).length ≤ buffsize := by
    rw [printed]
    decide
  obtain ⟨data, read, _, size, found⟩ := status_round_trip pids fits 7 (by decide) (by decide)
    4096 List.length_replicate List.length_replicate
  have count : s.head.length = 2 := by simpa using congrArg List.length listed
  refine ⟨s, data, listed, read, by rw [size, count]; rfl, found.mpr ?_⟩
  obtain ⟨t, ht, pid⟩ := List.mem_map.mp (listed ▸ List.mem_cons_self : 7 ∈ s.head.map Task.pid)
  exact ⟨t, ht, by rw [pid]; rfl⟩

end KernelModules.MP2
