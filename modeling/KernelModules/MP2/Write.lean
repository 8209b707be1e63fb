import KernelModules.Lib.CString
import KernelModules.MP2.Requests

/-!
# The write callback

`mywrite` copies the bytes written to `/proc/mp2/status` behind a NUL, looks for two commas
and parses what stands between them. The check that prints "The operation is not supported"
returns nothing and changes nothing; the fields of a text that does not parse stay 0.
-/

namespace KernelModules.MP2

/-- One `write`: the bytes handed over, the bytes that happen to lie behind `buff` on the
kernel stack, and the address the allocator hands out if the write leads to a call of it. -/
structure Write where
  userbuff : List UInt8
  stack : List UInt8
  slab : Addr
  deriving DecidableEq, Repr

/-- `buff` with the NUL at `buff[len]`, and the memory behind it. -/
def Write.buff (w : Write) : List UInt8 := w.userbuff ++ 0 :: w.stack

/-- The index of the first `c` in the C string `s` at or after `start`, `none` for -1. -/
def findchar (s : List UInt8) (c : UInt8) (start : Nat) : Option Nat :=
  ((s.drop start).findIdx? (· == c)).map (· + start)

/-- The three `int` variables `pid`, `period` and `computation` after parsing. A failed
`kstrtoint` leaves its variable 0. -/
def Write.fields (w : Write) : Int × Int × Int :=
  let text := cstr w.buff
  let int (mem : List UInt8) : Int := (kstrtoint (cstr mem)).getD 0
  let second := findchar text 44 2
  -- with no second field `second + 1` is 0 and the search starts over
  let third := findchar text 44 (match second with | none => 0 | some i => i + 1)
  match second, third with
  | none, _ => (int (w.buff.drop 2), 0, 0)
  | some i, some j =>
    if text.length > j + 2 then
      let buff := (w.buff.set i 0).set j 0
      (int (buff.drop 2), int (buff.drop (i + 1)), int (buff.drop (j + 1)))
    else (0, 0, 0)
  | some _, none => (0, 0, 0)

/-- The `switch` on `buff[0]`. -/
def Write.request (w : Write) : Option Request :=
  let (pid, period, computation) := w.fields
  match w.buff.headD 0 with
  | 82 => some (.register pid (toU32 period) (toU32 computation))
  | 89 => some (.yield pid)
  | 68 => some (.deregister pid)
  | _ => none

def mywrite (s : State) (w : Write) : Except Fault State :=
  match w.request with
  | none => .ok s
  | some r => perform .c w.slab s r

/-- A write that has nothing behind its buffer. -/
def Write.text (s : String) (slab : Addr) : Write := ⟨bytes s, [], slab⟩

example : (Write.text "R,7,500,86\n" 0).request = some (.register 7 500 86) := by decide

/-- All a write can do when it does not fault: nothing, if it asks for nothing or is refused, or
what the request it carries does. -/
theorem mywrite_cases {s s' : State} {w : Write} (h : mywrite s w = .ok s') :
    (s' = s ∧ (∀ pid, w.request ≠ some (.yield pid)) ∧
      ∀ pid, w.request = some (.deregister pid) → findByPid s pid = none) ∨
    (∃ pid period computation, w.request = some (.register pid period computation) ∧
      (admissionControl .c s.usage period computation (toU32 pid) 0).1 = 0 ∧ s' = { s with
        usage := (admissionControl .c s.usage period computation (toU32 pid) 0).2
        head := s.head ++ [newTask w.slab s pid period computation] }) ∨
    (∃ pid, w.request = some (.yield pid) ∧ yieldEntry s pid = .ok s') ∨
    (∃ pid t, w.request = some (.deregister pid) ∧ findByPid s pid = some t ∧ s' = { s with
      head := s.head.eraseP fun x => decide (x.addr = t.addr)
      currTsk := if s.currTsk = some t.addr then none else s.currTsk
      usage := (admissionControl .c s.usage t.period t.computation t.pid 1).2
      wakeups := s.wakeups + 1 }) := by
  unfold mywrite at h
  cases hr : w.request with
  | none =>
    rw [hr] at h
    cases h
    exact .inl ⟨rfl, by simp, by simp⟩
  | some r =>
    rw [hr] at h
    cases r with
    | register pid period computation =>
      by_cases admitted : (admissionControl .c s.usage period computation (toU32 pid) 0).1 = 0
      · simp only [perform, regEntry_admitted admitted, Except.ok.injEq] at h
        exact .inr (.inl ⟨pid, period, computation, rfl, admitted, h.symm⟩)
      · simp only [perform, regEntry_refused admitted, Except.ok.injEq] at h
        exact .inl ⟨h.symm, by simp, by simp⟩
    | yield pid => exact .inr (.inr (.inl ⟨pid, rfl, h⟩))
    | deregister pid =>
      cases found : findByPid s pid with
      | none =>
        simp only [perform, deregEntry_missing found, Except.ok.injEq] at h
        refine .inl ⟨h.symm, by simp, ?_⟩
        rintro pid ⟨⟩
        exact found
      | some t =>
        simp only [perform, deregEntry_found found, Except.ok.injEq] at h
        exact .inr (.inr (.inr ⟨pid, t, rfl, found, h.symm⟩))

end KernelModules.MP2
