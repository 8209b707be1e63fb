import KernelModules.MP2.Pids
import KernelModules.MP2.Status

/-!
# Reading the status report

The two buffers of `myread` have a size that does not depend on the number of entries, and a
task that asks for no computation is always admitted. A first read copies the whole report,
however little was asked for.
-/

namespace KernelModules.MP2

/-! ## Past the buffers -/

/-- A report that is too long is printed or copied past the end of a buffer. -/
theorem myreadReply_overrun {s : State} {tmpbuf buf : List UInt8} (len : Nat)
    (ht : tmpbuf.length = buffsize) (hb : buf.length = buffsize)
    (long : buffsize < (report s.head).length) :
    myreadReply s len 0 tmpbuf buf = .error .pastEnd := by
  rw [report_length] at long
  obtain ⟨tmp₀, emptied, empty, len₀⟩ := emptied_tmpbuf ht
  rw [myreadReply, if_neg (Nat.lt_irrefl 0), emptied]
  change (s.head.foldlM addPid (tmp₀, 0, 0) >>= _) = _
  by_cases room : (pidLines s.head).length + 1 ≤ tmp₀.length
  · obtain ⟨tmp, folded, pids⟩ := addPid_fold s.head empty room
    rw [folded]
    change (sprintf buf 0 (formatInt s.head.length ++ [10]) >>= _) = _
    by_cases count : (formatInt s.head.length ++ [10]).length + 1 ≤ buf.length
    · obtain ⟨buf₀, counted, holds, len₁⟩ := sprintf_start (ne_zero_line s.head.length) count
      rw [counted]
      change (store buf₀ (strlen buf₀) (tmp.take ((pidLines s.head).length + 1)) >>= _) = _
      have past : buf₀.length < (formatInt s.head.length ++ [10]).length +
          (pidLines s.head ++ [0]).length := by
        rw [len₁, hb, List.length_append, List.length_append]
        rw [List.length_append] at long
        simp only [List.length_singleton] at long ⊢
        omega
      rw [pids.take, holds.strlen, store_overrun past]
      rfl
    · rw [sprintf_overrun (by omega)]
      rfl
  · have past : tmp₀.length < ([] ++ (s.head.map pidLine).flatten).length + 1 := by
      rw [List.nil_append, flatten_pidLine]
      omega
    have loop := addPid_foldlM s.head (tmp₀, 0) 0
    rw [loop, show (tmp₀, 0) = (tmp₀, ([] : List UInt8).length) from rfl,
      empty.appendLines_overrun (pidLine_ne_zero s.head) past]
    rfl

/-! ## Within the buffers -/

/-- The number of bytes of the report for some pids: the count line, their lines and the NUL. -/
def reportWidth (pids : List Nat) : Nat :=
  width pids.length + 1 + (pids.map fun pid => width (toI32 pid) + 1).sum + 1

theorem report_width (ts : List Task) : (report ts).length = reportWidth (ts.map Task.pid) := by
  have lines : (pidLines ts).length = (ts.map fun t => width (toI32 t.pid) + 1).sum := by
    rw [pidLines, List.length_flatMap]
    simp only [pidLine, List.length_append, formatInt_length, List.length_singleton]
  rw [report_length, lines, reportWidth, List.length_append, formatInt_length, List.map_map,
    List.length_map]
  rfl

/-- Fewer pids do not need more room. -/
theorem reportWidth_sublist {pids pids' : List Nat} (sub : pids.Sublist pids') :
    reportWidth pids ≤ reportWidth pids' := by
  have count : width pids.length ≤ width pids'.length := by
    unfold width
    rw [if_neg (by omega), if_neg (by omega), Int.natAbs_natCast, Int.natAbs_natCast]
    have := Nat.log_mono_right (b := 10) sub.length_le
    omega
  have lines : (pids.map fun pid => width (toI32 pid) + 1).sum ≤
      (pids'.map fun pid => width (toI32 pid) + 1).sum := (sub.map _).sum_le_sum (by simp)
  unfold reportWidth
  omega

/-- The report is within both buffers, and so is all that a read prints and copies. -/
structure ReportFits (s : State) : Prop where
  pids : (pidLines s.head).length + 1 ≤ buffsize
  whole : (report s.head).length ≤ buffsize
  prints : ∀ len offset tmpbuf buf, tmpbuf.length = buffsize → buf.length = buffsize →
    ∃ reply, myreadReply s len offset tmpbuf buf = .ok reply

theorem ReportFits.of_width {s : State} (fits : reportWidth (s.head.map Task.pid) ≤ buffsize) :
    ReportFits s := by
  rw [← report_width] at fits
  have pids : (pidLines s.head).length + 1 ≤ buffsize := by
    rw [report_length] at fits
    omega
  refine ⟨pids, fits, fun len offset tmpbuf buf ht hb => ?_⟩
  rcases Nat.eq_zero_or_pos offset with rfl | later
  · exact ⟨_, myreadReply_report len ht hb fits⟩
  · exact ⟨_, myreadReply_end later len tmpbuf buf⟩

/-- A register request that is admitted leaves a report that fits the buffers. -/
def Request.Fits (s : State) : Request → Prop
  | .register pid p c => (admissionControl .c s.usage p c (toU32 pid) 0).1 = 0 →
      reportWidth (s.head.map Task.pid ++ [toU32 pid]) ≤ buffsize
  | _ => True

instance (s : State) (r : Request) : Decidable (r.Fits s) :=
  match r with
  | .register pid p c => inferInstanceAs (Decidable
      ((admissionControl .c s.usage p c (toU32 pid) 0).1 = 0 →
        reportWidth (s.head.map Task.pid ++ [toU32 pid]) ≤ buffsize))
  | .yield _ => .isTrue trivial
  | .deregister _ => .isTrue trivial

def Fits (s : State) (e : Event) : Prop := ∀ r ∈ e.request, r.Fits s

instance (s : State) (e : Event) : Decidable (Fits s e) :=
  inferInstanceAs (Decidable (∀ r ∈ e.request, r.Fits s))

theorem reportWidth_room {j : Nat} {processes : Nat → Option Process} {es : List Event} {s : State}
    (run : Reaches Fits j processes es s) : reportWidth (s.head.map Task.pid) ≤ buffsize := by
  have empty : reportWidth [] ≤ buffsize := by decide
  apply run.invariant (I := fun s : State => reportWidth (s.head.map Task.pid) ≤ buffsize) empty
  intro s e s' short fits stepped
  obtain ⟨f, keeps, head, -⟩ | ⟨w, pid, p, c, rfl, asked, admitted, head, -⟩ |
    ⟨w, pid, t, rfl, -, -, head, -⟩ := (step_effect stepped).shape
  · rw [head, keeps.map_pid]
    exact short
  · have room := fits _ asked admitted
    rw [head, List.map_append]
    exact room
  · rw [head]
    exact (reportWidth_sublist (List.eraseP_sublist.map _)).trans short

/-- Process 7 can be registered any number of times, as long as it asks for no computation. -/
theorem registers_many (n : Nat) :
    ∃ es s, Reaches Possible 0 (fun _ => none) es s ∧ s.usage.numerator = 0 ∧
      s.head.map Task.pid = List.replicate n 7 ∧ ∀ t ∈ s.head, t.addr < n := by
  induction n with
  | zero => exact ⟨[], _, .init, rfl, rfl, by simp [State.init]⟩
  | succ n ih =>
    obtain ⟨es, s, run, none, pids, addrs⟩ := ih
    have asked : (Write.text "R,7,500,0\n" n).request = some (.register 7 500 0) := by
      change (Write.text "R,7,500,0\n" 0).request = _
      decide
    have admitted : (admissionControl .c s.usage 500 0 (toU32 7) 0).1 = 0 := by
      simp [admissionControl, none]
    have fresh : Possible s (.write (.text "R,7,500,0\n" n)) :=
      fun t ht => Nat.ne_of_lt (addrs t ht)
    refine ⟨es ++ [.write (.text "R,7,500,0\n" n)],
      { s with
        usage := (admissionControl .c s.usage 500 0 (toU32 7) 0).2
        head := s.head ++ [newTask n s 7 500 0] }, run.next fresh ?_, ?_, ?_, ?_⟩
    · rw [step, mywrite, asked]
      exact congrArg (fun r : Nat × State => Except.ok r.2) (regEntry_admitted admitted)
    · simp [admissionControl, none]
    · rw [List.map_append, pids, List.replicate_succ']
      rfl
    · intro t ht
      rcases List.mem_append.mp ht with old | new
      · exact Nat.lt_succ_of_lt (addrs t old)
      · rw [List.mem_singleton.mp new]
        exact Nat.lt_succ_self n

theorem reportWidth_replicate (n : Nat) :
    reportWidth (List.replicate n 7) = width n + 1 + n * 2 + 1 := by
  have line : width (toI32 7) = 1 := by decide
  simp [reportWidth, line]

/-! ## What a read owes -/

/-- One read: how much is asked for, and the buffers that `kmalloc` hands out. -/
structure Read where
  len : Nat
  tmpbuf : List UInt8
  buf : List UInt8
  allocated : tmpbuf.length = buffsize ∧ buf.length = buffsize

/-- Reads do what they owe exactly when the report fits the buffers and the first one asks for
all of it. -/
theorem contract_iff (s : State) (calls : List Read) :
    Contract (fun c offset => myreadReply s c.len offset c.tmpbuf c.buf) Read.len (report s.head)
      calls ↔
      ∀ c ∈ calls.head?, (report s.head).length ≤ buffsize ∧ (report s.head).length ≤ c.len := by
  cases calls with
  | nil => exact iff_of_true contract_nil (by simp)
  | cons call calls =>
    simp only [List.head?_cons, Option.mem_some_iff, forall_eq']
    obtain ⟨ht, hb⟩ := call.allocated
    constructor
    · intro contract
      obtain ⟨reply, first, short, -⟩ := contract.first
      have fits : (report s.head).length ≤ buffsize := by
        by_contra long
        rw [myreadReply_overrun call.len ht hb (Nat.lt_of_not_le long)] at first
        cases first
      rw [myreadReply_report call.len ht hb fits] at first
      obtain rfl := Except.ok.inj first
      exact ⟨fits, short⟩
    · rintro ⟨fits, short⟩
      have some : 0 < (report s.head).length := by
        rw [report_length]
        exact Nat.succ_pos _
      refine contract_whole (List.length_pos_iff.mp some) ?_ short (fun c => ?_) calls
      · exact myreadReply_report call.len ht hb fits
      · exact myreadReply_end some c.len c.tmpbuf c.buf

end KernelModules.MP2
