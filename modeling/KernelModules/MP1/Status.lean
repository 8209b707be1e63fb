import KernelModules.Lib.Report
import KernelModules.MP1.Order

/-!
# The status report

`myread` prints a line for every entry into one buffer, of a size that does not depend on their
number. It copies the lines with their NUL and counts that NUL in its result but not in the
offset. For an empty registry it copies a message and returns 0.
-/

namespace KernelModules.MP1

/-- The size of the buffer of `myread`. -/
def buffsize : Nat := 2048

def errinfo : List UInt8 := bytes "No PID is regiested :(\n"

/-- The line `"PID%d: %lu ms \n"` of an entry. -/
def line (j : ProcCpu) : List UInt8 :=
  bytes "PID" ++ formatInt j.pid ++ bytes ": " ++ digits j.cpuUsage ++ bytes " ms \n"

/-- One pass of the loop of `myread`, over `kbuf` and `shift`. -/
def addLine (acc : List UInt8 × Nat) (j : ProcCpu) : Except Overrun (List UInt8 × Nat) := do
  let kbuf ← sprintf acc.1 acc.2 (line j)
  .ok (kbuf, strlen kbuf)

/-- A read at `offset` into a buffer of any length. `kbuf` is the buffer as `kmalloc` hands it
out. -/
def myread (s : State) (_len offset : Nat) (kbuf : List UInt8) : Except Overrun Reply :=
  let copied := if s.size = 0 then errinfo ++ [0] else []
  let offset := offset + copied.length
  if 0 < offset then .ok ⟨copied, 0, offset⟩
  else do
    let (kbuf, shift) ← s.list.foldlM addLine (kbuf, 0)
    .ok ⟨kbuf.take (shift + 1), shift + 1, offset + shift⟩

/-- The lines of all entries, or the message for an empty registry, with the NUL. -/
def report (s : State) : List UInt8 :=
  (if s.list = [] then errinfo else s.list.flatMap line) ++ [0]

/-! ## What a read does -/

section

variable {s : State}

theorem myread_empty (empty : s.size = 0) (len offset : Nat) (kbuf : List UInt8) :
    myread s len offset kbuf = .ok ⟨errinfo ++ [0], 0, offset + (errinfo ++ [0]).length⟩ := by
  have moved : 0 < offset + (errinfo ++ [0]).length := by
    rw [List.length_append]
    exact Nat.succ_pos _
  simp only [myread, if_pos empty, if_pos moved]

theorem myread_end (registered : s.size ≠ 0) {offset : Nat} (later : 0 < offset) (len : Nat)
    (kbuf : List UInt8) : myread s len offset kbuf = .ok ⟨[], 0, offset⟩ := by
  simp only [myread, if_neg registered, List.length_nil, Nat.add_zero, if_pos later]

theorem myread_start (registered : s.size ≠ 0) (len : Nat) (kbuf : List UInt8) :
    myread s len 0 kbuf = (s.list.foldlM addLine (kbuf, 0)).map fun acc =>
      ⟨acc.1.take (acc.2 + 1), acc.2 + 1, acc.2⟩ := by
  simp only [myread, if_neg registered, List.length_nil, Nat.lt_irrefl, if_false, Nat.zero_add]
  cases s.list.foldlM addLine (kbuf, 0) <;> rfl

end

/-! ## Within the buffer -/

/-- The number of bytes of a line: 10 around the two numbers. -/
def lineWidth (pid : Int) (cpuUsage : Nat) : Nat := 10 + width pid + width cpuUsage

theorem line_length (j : ProcCpu) : (line j).length = lineWidth j.pid j.cpuUsage := by
  have pid : (bytes "PID").length = 3 := by decide
  have colon : (bytes ": ").length = 2 := by decide
  have ms : (bytes " ms \n").length = 5 := by decide
  have usage : (digits j.cpuUsage).length = width j.cpuUsage := by
    rw [digits_length, width, if_neg (by omega), Nat.zero_add]
    rfl
  simp only [line, List.length_append, formatInt_length, usage, pid, colon, ms, lineWidth]
  omega

def textWidth (l : List ProcCpu) : Nat := (l.map fun j => lineWidth j.pid j.cpuUsage).sum

theorem text_length (l : List ProcCpu) : (l.flatMap line).length = textWidth l := by
  rw [List.length_flatMap, textWidth]
  simp only [line_length]

theorem line_ne_zero (j : ProcCpu) : ∀ b ∈ line j, b ≠ 0 := by
  have number : ∀ b ∈ digits j.cpuUsage, b ≠ 0 :=
    fun b hb => isDigit_ne (isDigit_of_mem_digits hb) (by decide)
  have text {s : String} (all : (bytes s).all (· != 0) = true) : ∀ b ∈ bytes s, b ≠ 0 := by
    simpa using all
  have pid : ∀ b ∈ formatInt j.pid, b ≠ 0 := formatInt_ne (by decide) (by decide)
  simp only [line, List.forall_mem_append]
  exact ⟨⟨⟨⟨text (by decide), pid⟩, text (by decide)⟩, number⟩, text (by decide)⟩

/-- The report and its NUL are within the buffer, and so is all that a read prints. -/
structure ReportFits (s : State) : Prop where
  text : (s.list.flatMap line).length + 1 ≤ buffsize
  prints : ∀ len offset kbuf, kbuf.length = buffsize →
    ∃ reply, myread s len offset kbuf = .ok reply

theorem addLine_foldlM (l : List ProcCpu) (acc : List UInt8 × Nat) :
    l.foldlM addLine acc = (l.map line).foldlM appendLine acc := by
  rw [List.foldlM_map]
  rfl

theorem ReportFits.of_width {s : State} (fits : textWidth s.list < buffsize) : ReportFits s := by
  have text : (s.list.flatMap line).length + 1 ≤ buffsize := by
    rw [text_length]
    exact fits
  refine ⟨text, fun len offset kbuf allocated => ?_⟩
  by_cases registered : s.size = 0
  · exact ⟨_, myread_empty registered len offset kbuf⟩
  rcases Nat.eq_zero_or_pos offset with rfl | later
  · have plain : ∀ l ∈ s.list.map line, ∀ b ∈ l, b ≠ 0 := by
      intro l hl
      obtain ⟨j, -, rfl⟩ := List.mem_map.mp hl
      exact line_ne_zero j
    rw [List.flatMap_def, ← allocated] at text
    obtain ⟨acc, folded⟩ := appendLines_start plain text
    rw [myread_start registered, addLine_foldlM, folded]
    exact ⟨_, rfl⟩
  · exact ⟨_, myread_end registered later len kbuf⟩

/-- Every registration and every callback leaves lines that fit the buffer, with their NUL. -/
def Fits (s : State) : Event → Prop
  | .write w => ∀ pid ∈ w.currPid, textWidth s.list + lineWidth pid 0 < buffsize
  | .callback =>
    (s.list.filterMap fun j => (s.processes j.pid).map (lineWidth j.pid)).sum < buffsize
  | .process _ _ => True

instance (s : State) (e : Event) : Decidable (Fits s e) :=
  match e with
  | .write w =>
    inferInstanceAs (Decidable (∀ pid ∈ w.currPid, textWidth s.list + lineWidth pid 0 < buffsize))
  | .callback =>
    inferInstanceAs (Decidable
      ((s.list.filterMap fun j => (s.processes j.pid).map (lineWidth j.pid)).sum < buffsize))
  | .process _ _ => .isTrue trivial

theorem textWidth_update (processes : Int → Option Nat) (l : List ProcCpu) (size : Int) :
    textWidth (update processes l size).1 =
      (l.filterMap fun j => (processes j.pid).map (lineWidth j.pid)).sum := by
  rw [update_list, textWidth, List.map_filterMap]
  simp only [Option.map_map]
  rfl

theorem textWidth_room {processes : Int → Option Nat} {es : List Event} {s : State}
    (run : Run step Fits (State.init processes) es s) : textWidth s.list < buffsize := by
  have empty : textWidth [] < buffsize := by decide
  apply run.invariant (I := fun s : State => textWidth s.list < buffsize) empty
  intro s e t short fits stepped
  obtain ⟨w, rfl, read, rfl⟩ | ⟨w, pid, rfl, read, -, -, rfl⟩ | ⟨rfl, -, rfl⟩ |
    ⟨pid, utime, rfl, rfl⟩ := step_cases stepped
  · exact short
  · have room := fits pid read
    simpa [addTail, textWidth] using room
  · simp only [updateAll, textWidth_update]
    exact fits
  · exact short

/-- Process 7, registered often enough, fills more than the buffer. -/
theorem textWidth_replicate (n : Nat) : textWidth (List.replicate n ⟨0, 7⟩) = n * 12 := by
  have one : lineWidth 7 0 = 12 := by decide
  simp [textWidth, one]

/-! ## What a read owes -/

/-- One read: how much is asked for, and the buffer that `kmalloc` hands out. -/
structure Read where
  len : Nat
  kbuf : List UInt8
  allocated : kbuf.length = buffsize

/-- No first read does what it owes: the message is copied with a result of 0, and the lines are
counted differently in the result and in the offset. -/
theorem contract_iff (s : State) (calls : List Read) :
    Contract (fun c offset => myread s c.len offset c.kbuf) Read.len (report s) calls ↔
      calls = [] := by
  constructor
  · intro contract
    cases calls with
    | nil => rfl
    | cons call calls =>
      exfalso
      obtain ⟨reply, first, -, returned, offset⟩ := contract.first
      by_cases empty : s.size = 0
      · obtain rfl := Except.ok.inj ((myread_empty empty call.len 0 call.kbuf).symm.trans first)
        exact absurd returned (by decide)
      · obtain ⟨acc, -, rfl⟩ := map_ok ((myread_start empty call.len call.kbuf).symm.trans first)
        -- the result is one more than the offset
        have counted : acc.2 + 1 = acc.2 := returned.trans offset.symm
        omega
  · rintro rfl
    exact contract_nil

end KernelModules.MP1
