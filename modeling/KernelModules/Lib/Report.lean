import Mathlib.Data.Nat.Log
import KernelModules.Lib.Run
import KernelModules.Lib.Stdio

/-!
# Reports printed line by line

A read callback prints its report into a buffer, one `sprintf` for each line behind the lines
before it. The prints stay within the buffer exactly when the whole text does, with its NUL.
What the callback owes its caller is said over successive reads of one open file.
-/

namespace KernelModules

/-! ## Widths -/

/-- The number of bytes `%d` prints. -/
def width (i : Int) : Nat := (if i < 0 then 1 else 0) + (Nat.log 10 i.natAbs + 1)

theorem digits_length (n : Nat) : (digits n).length = Nat.log 10 n + 1 := by
  have bound {k : Nat} (positive : 0 < k) : (digits n).length ≤ k ↔ n < 10 ^ k := by
    rw [digits, List.length_map]
    exact Nat.length_toDigits_le_iff (by decide) positive
  apply Nat.le_antisymm
  · exact (bound (Nat.succ_pos _)).mpr (Nat.lt_pow_succ_log_self (by decide) n)
  · rcases Nat.eq_zero_or_pos (Nat.log 10 n) with zero | positive
    · rw [zero]
      exact List.length_pos_iff.mpr (digits_ne_nil n)
    · by_contra short
      have below := (bound positive).mp (by omega)
      have nonzero : n ≠ 0 := by
        rintro rfl
        simp at positive
      exact absurd (Nat.pow_log_le_self 10 nonzero) (Nat.not_le.mpr below)

theorem formatInt_length (i : Int) : (formatInt i).length = width i := by
  unfold formatInt width
  split
  · rw [List.length_cons, digits_length]
    omega
  · rw [digits_length]
    omega

/-! ## Printing behind a text -/

/-- Memory that holds a text and the NUL behind it. -/
def Holds (mem text : List UInt8) : Prop := (∀ b ∈ text, b ≠ 0) ∧ ∃ junk, mem = text ++ 0 :: junk

section

variable {mem text : List UInt8}

theorem Holds.strlen (h : Holds mem text) : strlen mem = text.length := by
  obtain ⟨plain, junk, rfl⟩ := h
  rw [KernelModules.strlen, cstr_append plain]

theorem Holds.take (h : Holds mem text) : mem.take (text.length + 1) = text ++ [0] := by
  obtain ⟨_, junk, rfl⟩ := h
  rw [List.append_cons, List.take_left' (by simp)]

/-- A text printed behind another. -/
theorem sprintf_holds {rest new : List UInt8} (clean : ∀ b ∈ text, b ≠ 0)
    (plain : ∀ b ∈ new, b ≠ 0) (fits : new.length + 1 ≤ rest.length) :
    ∃ mem, sprintf (text ++ rest) text.length new = .ok mem ∧ Holds mem (text ++ new) ∧
      mem.length = (text ++ rest).length := by
  have room : (new ++ [0]).length ≤ rest.length := by simpa using fits
  have stored := store_append text room
  refine ⟨_, stored, ⟨?_, rest.drop (new.length + 1), by simp⟩, store_length stored⟩
  intro b hb
  rcases List.mem_append.mp hb with hb | hb
  · exact clean b hb
  · exact plain b hb

theorem sprintf_start {new : List UInt8} (plain : ∀ b ∈ new, b ≠ 0)
    (fits : new.length + 1 ≤ mem.length) :
    ∃ mem', sprintf mem 0 new = .ok mem' ∧ Holds mem' new ∧ mem'.length = mem.length := by
  have printed := sprintf_holds (by simp : ∀ b ∈ ([] : List UInt8), b ≠ 0) plain fits
  simpa using printed

theorem Holds.sprintf {new : List UInt8} (h : Holds mem text) (plain : ∀ b ∈ new, b ≠ 0)
    (fits : (text ++ new).length + 1 ≤ mem.length) :
    ∃ mem', sprintf mem text.length new = .ok mem' ∧ Holds mem' (text ++ new) ∧
      mem'.length = mem.length := by
  obtain ⟨clean, junk, rfl⟩ := h
  apply sprintf_holds clean plain
  simp only [List.length_append, List.length_cons] at fits ⊢
  omega

theorem store_overrun {off : Nat} {data : List UInt8} (long : mem.length < off + data.length) :
    store mem off data = .error .pastEnd := if_neg (Nat.not_le.mpr long)

theorem sprintf_overrun {off : Nat} {new : List UInt8} (long : mem.length < off + new.length + 1) :
    sprintf mem off new = .error .pastEnd := by
  apply store_overrun
  rw [List.length_append, List.length_singleton]
  omega

end

/-! ## Lines -/

/-- Print a line at `acc.2`, and find out where the text ends now. -/
def appendLine (acc : List UInt8 × Nat) (line : List UInt8) :
    Except Overrun (List UInt8 × Nat) := do
  let mem ← sprintf acc.1 acc.2 line
  .ok (mem, strlen mem)

section

variable {lines : List (List UInt8)} {mem text : List UInt8}

theorem Holds.appendLine {line : List UInt8} (h : Holds mem text) (plain : ∀ b ∈ line, b ≠ 0)
    (fits : (text ++ line).length + 1 ≤ mem.length) :
    ∃ mem', appendLine (mem, text.length) line = .ok (mem', (text ++ line).length) ∧
      Holds mem' (text ++ line) ∧ mem'.length = mem.length := by
  obtain ⟨mem', printed, holds, length⟩ := h.sprintf plain fits
  refine ⟨mem', ?_, holds, length⟩
  rw [KernelModules.appendLine, printed, ← holds.strlen]
  rfl

/-- Lines that fit are printed one behind the other. -/
theorem Holds.appendLines (h : Holds mem text) (plain : ∀ line ∈ lines, ∀ b ∈ line, b ≠ 0)
    (fits : (text ++ lines.flatten).length + 1 ≤ mem.length) :
    ∃ mem', lines.foldlM KernelModules.appendLine (mem, text.length) =
        .ok (mem', (text ++ lines.flatten).length) ∧ Holds mem' (text ++ lines.flatten) := by
  induction lines generalizing mem text with
  | nil => exact ⟨mem, by simp [pure, Except.pure], by simpa using h⟩
  | cons line lines ih =>
    rw [List.flatten_cons, ← List.append_assoc] at fits ⊢
    have room : (text ++ line).length + 1 ≤ mem.length := by
      rw [List.length_append] at fits
      omega
    obtain ⟨mem', printed, holds, length⟩ := h.appendLine (plain line List.mem_cons_self) room
    obtain ⟨mem'', folded, holds'⟩ :=
      ih holds (fun l hl => plain l (List.mem_cons_of_mem _ hl)) (length.symm ▸ fits)
    refine ⟨mem'', ?_, holds'⟩
    rw [List.foldlM_cons, printed]
    exact folded

/-- Lines that do not fit are printed past the end. -/
theorem Holds.appendLines_overrun (h : Holds mem text) (plain : ∀ line ∈ lines, ∀ b ∈ line, b ≠ 0)
    (long : mem.length < (text ++ lines.flatten).length + 1) :
    lines.foldlM KernelModules.appendLine (mem, text.length) = .error .pastEnd := by
  induction lines generalizing mem text with
  | nil =>
    -- the text and its NUL are in the memory already
    obtain ⟨-, junk, rfl⟩ := h
    simp at long
  | cons line lines ih =>
    rw [List.flatten_cons, ← List.append_assoc] at long
    rw [List.foldlM_cons]
    by_cases room : (text ++ line).length + 1 ≤ mem.length
    · obtain ⟨mem', printed, holds, length⟩ := h.appendLine (plain line List.mem_cons_self) room
      rw [printed]
      exact ih holds (fun l hl => plain l (List.mem_cons_of_mem _ hl)) (length.symm ▸ long)
    · have past : mem.length < text.length + line.length + 1 := by
        rw [List.length_append] at room
        omega
      rw [KernelModules.appendLine, sprintf_overrun past]
      rfl

/-- The first line goes to the beginning of the buffer, whatever is there. -/
theorem appendLines_start (plain : ∀ line ∈ lines, ∀ b ∈ line, b ≠ 0)
    (fits : lines.flatten.length + 1 ≤ mem.length) :
    ∃ acc, lines.foldlM appendLine (mem, 0) = .ok acc := by
  cases lines with
  | nil => exact ⟨_, rfl⟩
  | cons line lines =>
    rw [List.flatten_cons] at fits
    have room : line.length + 1 ≤ mem.length := by
      rw [List.length_append] at fits
      omega
    obtain ⟨mem', printed, holds, length⟩ := sprintf_start (plain line List.mem_cons_self) room
    obtain ⟨mem'', folded, -⟩ := holds.appendLines
      (fun l hl => plain l (List.mem_cons_of_mem _ hl)) (length.symm ▸ fits)
    refine ⟨(mem'', (line ++ lines.flatten).length), ?_⟩
    rw [List.foldlM_cons, appendLine, printed, ← folded, ← holds.strlen]
    rfl

end

/-! ## Successive reads -/

/-- What a read callback leaves: the bytes it copied to the user, its result and the offset. -/
structure Reply where
  copied : List UInt8
  returned : Nat
  offset : Nat
  deriving DecidableEq, Repr

/-- A read as it was made, at the offset it was made at. -/
structure Reading (κ : Type) where
  call : κ
  offset : Nat
  reply : Reply

section

variable {κ : Type} (read : κ → Nat → Except Overrun Reply)

/-- Successive reads, each at the offset the one before left. -/
def reads : List κ → Nat → Except Overrun (List (Reading κ))
  | [], _ => .ok []
  | call :: calls, offset => do
    let reply ← read call offset
    let later ← reads calls reply.offset
    .ok (⟨call, offset, reply⟩ :: later)

/-- What is owed: every read copies no more than was asked for, returns how much it copied and
moves the offset by as much, and what is copied until a read returns 0 is the report. -/
def Contract (len : κ → Nat) (report : List UInt8) (calls : List κ) : Prop :=
  ∃ trace, reads read calls 0 = .ok trace ∧
    (∀ x ∈ trace, x.reply.copied.length ≤ len x.call ∧
      x.reply.returned = x.reply.copied.length ∧
      x.reply.offset = x.offset + x.reply.copied.length) ∧
    ∀ before x after, trace = before ++ x :: after → (∀ y ∈ before, y.reply.returned ≠ 0) →
      x.reply.returned = 0 → before.flatMap (fun y => y.reply.copied) = report

variable {read} {len : κ → Nat} {report : List UInt8} {call : κ} {calls : List κ}

theorem contract_nil : Contract read len report [] := by
  refine ⟨[], rfl, by simp, fun before x after none => ?_⟩
  simp at none

/-- The first read, at the beginning of the file. -/
theorem Contract.first (h : Contract read len report (call :: calls)) :
    ∃ reply, read call 0 = .ok reply ∧ reply.copied.length ≤ len call ∧
      reply.returned = reply.copied.length ∧ reply.offset = reply.copied.length := by
  obtain ⟨trace, made, each, -⟩ := h
  obtain ⟨reply, first, later⟩ := bind_ok made
  obtain ⟨rest, -, done⟩ := bind_ok later
  cases done
  obtain ⟨short, returned, offset⟩ := each _ List.mem_cons_self
  exact ⟨reply, first, short, returned, by rw [offset, Nat.zero_add]⟩

/-- At its end a file has nothing more, whatever is asked for. -/
theorem reads_at_end {offset : Nat} (ended : ∀ call, read call offset = .ok ⟨[], 0, offset⟩)
    (calls : List κ) :
    reads read calls offset = .ok (calls.map fun call => ⟨call, offset, ⟨[], 0, offset⟩⟩) := by
  induction calls with
  | nil => rfl
  | cons call calls ih =>
    rw [reads, ended]
    change (reads read calls offset >>= _) = _
    rw [ih]
    rfl

/-- A file that is read as a whole by the first read. -/
theorem contract_whole (nonempty : report ≠ [])
    (first : read call 0 = .ok ⟨report, report.length, report.length⟩)
    (short : report.length ≤ len call)
    (ended : ∀ call, read call report.length = .ok ⟨[], 0, report.length⟩) (calls : List κ) :
    Contract read len report (call :: calls) := by
  refine ⟨⟨call, 0, ⟨report, report.length, report.length⟩⟩ ::
    calls.map fun call => ⟨call, report.length, ⟨[], 0, report.length⟩⟩, ?_, ?_, ?_⟩
  · rw [reads, first]
    change (reads read calls report.length >>= _) = _
    rw [reads_at_end ended]
    rfl
  · intro x hx
    rcases List.mem_cons.mp hx with rfl | later
    · exact ⟨short, rfl, (Nat.zero_add _).symm⟩
    · obtain ⟨call', -, rfl⟩ := List.mem_map.mp later
      exact ⟨Nat.zero_le _, rfl, rfl⟩
  · intro before x after split live ends
    cases before with
    | nil =>
      -- the first read does not return 0
      obtain ⟨rfl, -⟩ := List.cons.inj split
      exact absurd (List.length_eq_zero_iff.mp ends) nonempty
    | cons y before =>
      obtain ⟨rfl, rest⟩ := List.cons.inj split
      cases before with
      | nil => simp
      | cons z before =>
        -- the second one does
        have made : z ∈ calls.map fun call => (⟨call, report.length, ⟨[], 0, report.length⟩⟩ :
            Reading κ) := by
          rw [rest]
          simp
        obtain ⟨call', -, rfl⟩ := List.mem_map.mp made
        exact absurd rfl (live _ (List.mem_cons_of_mem _ List.mem_cons_self))

end

end KernelModules
