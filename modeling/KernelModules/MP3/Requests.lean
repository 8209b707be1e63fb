import KernelModules.MP3.Sampler

/-!
# What the write callback acts on

`mywrite` looks at the first byte and, whatever stands between, parses what begins at the third.
A request is written as a letter, one separator and a pid. Where the separator is left out the
first digit of the pid is taken for it, and the request acts on another process.
-/

namespace KernelModules.MP3

def Request.letter : Request → UInt8
  | .register _ => 82
  | .unregister _ => 85

def Request.pid : Request → Int
  | .register pid => pid
  | .unregister pid => pid

/-- The letter of the request, one separator that is not a digit, and the pid as `kstrtoint`
reads it. -/
def Request.Written (r : Request) (text : List UInt8) : Prop :=
  ∃ sep rest, text = r.letter :: sep :: rest ∧ isDigit sep = false ∧
    kstrtoint rest = some r.pid ∧ 1 ≤ r.pid ∧ r.pid < 2 ^ 31

/-- A digit stands where the separator belongs, and what follows is read as a positive number. -/
def Unseparated (text : List UInt8) : Prop :=
  ∃ (r : Request) (sep : UInt8) (rest : List UInt8), text = r.letter :: sep :: rest ∧
    isDigit sep = true ∧ kstrtoint rest = some r.pid ∧ 1 ≤ r.pid

/-- The NUL that `mywrite` appends ends the text where it ends anyway. -/
theorem cstr_append_nul (mem : List UInt8) : cstr (mem ++ [0]) = cstr mem := cstr_padded mem 1

theorem kstrtoint_bounds {s : List UInt8} {i : Int} (read : kstrtoint s = some i) :
    -2 ^ 31 ≤ i ∧ i < 2 ^ 31 := by
  have fits := (Option.filter_eq_some_iff.mp read).2
  simpa [fitsInt] using fits

theorem cstr_eq_cons {mem rest : List UInt8} {b : UInt8} (text : cstr mem = b :: rest) :
    ∃ tail, mem = b :: tail ∧ cstr tail = rest := by
  cases mem with
  | nil => cases text
  | cons c tail =>
    rw [cstr_cons] at text
    split at text
    · cases text
    · cases text
      exact ⟨tail, rfl, rfl⟩

theorem request_short {w : Write} (short : (cstr w.userbuff).length < 3) : w.request = none := by
  rw [← cstr_append_nul] at short
  exact if_pos (.inr short)

theorem request_long {w : Write} {letter sep b : UInt8} {rest : List UInt8}
    (text : cstr w.userbuff = letter :: sep :: b :: rest) :
    w.request =
      if letter ≠ 82 ∧ letter ≠ 85 then none
      else
        let pid := (kstrtoint (b :: rest)).getD 0
        if pid = 0 ∨ pid < 0 then none
        else if letter = 82 then some (.register pid) else some (.unregister pid) := by
  rw [← cstr_append_nul] at text
  obtain ⟨tail, buff, text'⟩ := cstr_eq_cons text
  obtain ⟨tail', rfl, field⟩ := cstr_eq_cons text'
  have long : ¬ (cstr (w.userbuff ++ [0])).length < 3 := by
    rw [text]
    simp
  simp only [Write.request, or_iff_left long]
  simp only [buff, List.headD_cons, List.drop_succ_cons, List.drop_zero, field]
  by_cases other : letter ≠ 82 ∧ letter ≠ 85
  · rw [if_pos other, if_pos other]
  · rw [if_neg other, if_neg other]
    rcases Decidable.or_iff_not_not_and_not.mpr other with rfl | rfl <;> rfl

/-- The tests of `mywrite` together: the letter, and a positive number from the third byte. -/
theorem request_eq_some_iff (w : Write) (r : Request) :
    w.request = some r ↔
      ∃ sep rest, cstr w.userbuff = r.letter :: sep :: rest ∧ kstrtoint rest = some r.pid ∧
        1 ≤ r.pid := by
  rcases text : cstr w.userbuff with _ | ⟨letter, _ | ⟨sep, _ | ⟨b, rest⟩⟩⟩
  · simp [request_short (w := w) (by simp [text])]
  · simp [request_short (w := w) (by simp [text])]
  · have empty : kstrtoint [] = none := by decide
    simp [request_short (w := w) (by simp [text]), empty]
  · rw [request_long text]
    simp only [List.cons.injEq, ↓existsAndEq, and_true]
    cases read : kstrtoint (b :: rest) with
    | none => simp
    | some pid =>
      have positive : ¬ (pid = 0 ∨ pid < 0) ↔ 1 ≤ pid := by omega
      simp only [Option.getD_some, Option.some.injEq, Option.ite_none_left_eq_some, positive]
      have same (i : Int) : 1 ≤ pid ∧ pid = i ↔ pid = i ∧ 1 ≤ i :=
        ⟨fun ⟨h, e⟩ => ⟨e, e ▸ h⟩, fun ⟨e, h⟩ => ⟨e ▸ h, e⟩⟩
      cases r with
      | register i =>
        by_cases letter_r : letter = 82
        · simpa [letter_r, Request.letter, Request.pid] using same i
        · simp [letter_r, Request.letter]
      | unregister i =>
        by_cases letter_u : letter = 85
        · simpa [letter_u, Request.letter, Request.pid] using same i
        · by_cases letter_r : letter = 82
          · simp [letter_r, Request.letter]
          · simp [letter_u, letter_r, Request.letter]

/-- A request is read from any text that its writing has, and from no other unless a digit is
taken for the separator. -/
theorem request_iff_written_or (w : Write) (r : Request) :
    w.request = some r ↔
      r.Written (cstr w.userbuff) ∨
        ∃ sep rest, cstr w.userbuff = r.letter :: sep :: rest ∧ isDigit sep = true ∧
          kstrtoint rest = some r.pid ∧ 1 ≤ r.pid := by
  rw [request_eq_some_iff]
  constructor
  · rintro ⟨sep, rest, text, read, positive⟩
    cases digit : isDigit sep with
    | false => exact .inl ⟨sep, rest, text, digit, read, positive, (kstrtoint_bounds read).2⟩
    | true => exact .inr ⟨sep, rest, text, digit, read, positive⟩
  · rintro (⟨sep, rest, text, -, read, positive, -⟩ | ⟨sep, rest, text, -, read, positive⟩)
    all_goals exact ⟨sep, rest, text, read, positive⟩

/-- What is asked of the parser for one text: a request is performed exactly when it is written
there, and a text in which none is written changes nothing. -/
structure Parses (s : State) (w : Write) : Prop where
  exact : ∀ r, w.request = some r ↔ r.Written (cstr w.userbuff)
  register : ∀ pid, (Request.register pid).Written (cstr w.userbuff) →
    mywrite s w = regEntry s w.block pid
  unregister : ∀ pid, (Request.unregister pid).Written (cstr w.userbuff) →
    mywrite s w = unregEntry s pid
  ignored : (∀ r : Request, ¬ r.Written (cstr w.userbuff)) → mywrite s w = .ok s

/-- A text is parsed as the grammar has it, in every state, exactly when no digit stands between
the letter and a positive number. -/
theorem parses_iff_separated (s : State) (w : Write) :
    Parses s w ↔ ¬ Unseparated (cstr w.userbuff) := by
  constructor
  · rintro parses ⟨r, sep, rest, text, digit, read, positive⟩
    have performed : w.request = some r :=
      (request_iff_written_or w r).mpr (.inr ⟨sep, rest, text, digit, read, positive⟩)
    obtain ⟨sep', rest', text', other, -⟩ := (parses.exact r).mp performed
    rw [text] at text'
    cases text'
    rw [digit] at other
    cases other
  · intro separated
    have exact (r : Request) : w.request = some r ↔ r.Written (cstr w.userbuff) := by
      rw [request_iff_written_or, or_iff_left]
      exact fun ⟨sep, rest, unseparated⟩ => separated ⟨r, sep, rest, unseparated⟩
    refine ⟨exact, fun pid written => ?_, fun pid written => ?_, fun none_written => ?_⟩
    · rw [mywrite, (exact (.register pid)).mpr written]
    · rw [mywrite, (exact (.unregister pid)).mpr written]
    · have ignored : w.request = none := by
        rw [Option.eq_none_iff_forall_ne_some]
        exact fun r performed => none_written r ((exact r).mp performed)
      rw [mywrite, ignored]

/-- The text `R123` registers process 23. -/
theorem digit_taken_for_separator : ¬ ∀ (s : State) (w : Write), Parses s w := by
  intro parses
  let w : Write := ⟨bytes "R123", some ⟨0, 0, 0, 0, 0⟩⟩
  have performed : w.request = some (.register 23) := by decide
  obtain ⟨sep, rest, text, other, -⟩ :=
    ((parses (.init (fun _ => 0) 0 fun _ => none) w).exact (.register 23)).mp performed
  have digit : cstr w.userbuff = 82 :: 49 :: bytes "23" := by decide
  rw [digit] at text
  cases text
  exact absurd other (by decide)

end KernelModules.MP3
