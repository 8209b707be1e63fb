import KernelModules.Lib.CString
import Mathlib.Data.List.Basic

/-!
# Formatted numbers and lines

`printf`'s `%d`, and of the C library's input functions `fgets` and `sscanf` with `%d`. What
`%d` prints is read back by `kstrtoint` and by `sscanf`.
-/

namespace KernelModules

/-! ## Printing -/

def digits (n : Nat) : List UInt8 := (Nat.toDigits 10 n).map fun c => UInt8.ofNat c.toNat

/-- What `%d` prints. -/
def formatInt (i : Int) : List UInt8 := if i < 0 then 45 :: digits i.natAbs else digits i.natAbs

example : formatInt (-42) = bytes "-42" := by decide

theorem digit_toNat {c : Char} (h : c.isDigit = true) :
    (UInt8.ofNat c.toNat).toNat = c.toNat ∧ 48 ≤ c.toNat ∧ c.toNat ≤ 57 := by
  have range : 48 ≤ c.toNat ∧ c.toNat ≤ 57 := Char.isDigit_iff_toNat.mp h
  exact ⟨UInt8.toNat_ofNat_of_lt (Nat.lt_of_le_of_lt range.2 (by decide)), range⟩

theorem digits_ne_nil (n : Nat) : digits n ≠ [] := by simp [digits]

theorem isDigit_of_mem_digits {n : Nat} {b : UInt8} (h : b ∈ digits n) : isDigit b = true := by
  obtain ⟨c, hc, rfl⟩ := List.mem_map.mp h
  obtain ⟨same, low, high⟩ := digit_toNat (Nat.isDigit_of_mem_toDigits (by decide) (by decide) hc)
  simp [isDigit, same, low, high]

theorem digits_length_le {n k : Nat} (hk : 0 < k) (h : n < 10 ^ k) : (digits n).length ≤ k := by
  rw [digits, List.length_map]
  exact (Nat.length_toDigits_le_iff (by decide) hk).mpr h

theorem decimal_digits (n : Nat) : decimal (digits n) = some n := by
  have all : (digits n).all isDigit = true :=
    List.all_eq_true.mpr fun b hb => isDigit_of_mem_digits hb
  rw [decimal, if_pos ⟨digits_ne_nil n, all⟩, digits, List.foldl_map]
  congr 1
  calc (Nat.toDigits 10 n).foldl (fun m c => 10 * m + ((UInt8.ofNat c.toNat).toNat - 48)) 0
      = (Nat.toDigits 10 n).foldl (fun m c => 10 * m + (c.toNat - '0'.toNat)) 0 := by
        apply List.foldl_ext
        intro m c hc
        rw [(digit_toNat (Nat.isDigit_of_mem_toDigits (by decide) (by decide) hc)).1]
        rfl
    _ = n := Nat.ofDigitChars_ten_toDigits

theorem isDigit_ne {b : UInt8} (h : isDigit b = true) {c : UInt8} (hc : isDigit c = false) :
    b ≠ c := by
  rintro rfl
  rw [h] at hc
  cases hc

/-- Only digits and the sign are printed. -/
theorem formatInt_ne {i : Int} {c : UInt8} (hc : isDigit c = false) (sign : c ≠ 45) :
    ∀ b ∈ formatInt i, b ≠ c := by
  intro b hb
  unfold formatInt at hb
  split at hb
  · rcases List.mem_cons.mp hb with rfl | hb
    · exact sign.symm
    · exact isDigit_ne (isDigit_of_mem_digits hb) hc
  · exact isDigit_ne (isDigit_of_mem_digits hb) hc

theorem formatInt_ne_nil (i : Int) : formatInt i ≠ [] := by
  unfold formatInt
  split
  · simp
  · exact digits_ne_nil _

theorem fitsInt_iff {i : Int} : fitsInt i = true ↔ -2 ^ 31 ≤ i ∧ i < 2 ^ 31 := by simp [fitsInt]

theorem formatInt_length_le {i : Int} (fits : fitsInt i = true) : (formatInt i).length ≤ 11 := by
  obtain ⟨low, high⟩ := fitsInt_iff.mp fits
  have short : (digits i.natAbs).length ≤ 10 := digits_length_le (by decide) (by omega)
  unfold formatInt
  split
  · rw [List.length_cons]
    omega
  · omega

/-! ## Memory -/

/-- A store past the end of the memory that was allocated. -/
inductive Overrun
  | pastEnd
  deriving DecidableEq, Repr

def store (mem : List UInt8) (off : Nat) (data : List UInt8) : Except Overrun (List UInt8) :=
  if off + data.length ≤ mem.length then
    .ok (mem.take off ++ data ++ mem.drop (off + data.length))
  else .error .pastEnd

/-- `sprintf` to `mem + off`, of a text that is already formatted. -/
def sprintf (mem : List UInt8) (off : Nat) (text : List UInt8) : Except Overrun (List UInt8) :=
  store mem off (text ++ [0])

def strlen (mem : List UInt8) : Nat := (cstr mem).length

theorem store_append (before : List UInt8) {data after : List UInt8}
    (fits : data.length ≤ after.length) :
    store (before ++ after) before.length data =
      .ok (before ++ data ++ after.drop data.length) := by
  rw [store, if_pos (by simpa using fits), List.take_left, List.drop_append]
  simp

theorem store_length {mem data mem' : List UInt8} {off : Nat} (h : store mem off data = .ok mem') :
    mem'.length = mem.length := by
  unfold store at h
  split at h
  · cases h
    simp only [List.length_append, List.length_take, List.length_drop]
    omega
  · cases h

/-! ## Reading back -/

/-- A text that starts with a digit has no sign. -/
theorem signedDecimal_digit {b : UInt8} {s : List UInt8} (h : isDigit b = true) :
    signedDecimal (b :: s) = (decimal (b :: s)).map fun n => (n : Int) := by
  unfold signedDecimal
  split
  · rename_i same
    cases same
    cases h
  · rename_i same
    cases same
    cases h
  · rfl

theorem signedDecimal_formatInt (i : Int) : signedDecimal (formatInt i) = some i := by
  by_cases negative : i < 0
  · simp [formatInt, negative, signedDecimal, decimal_digits, abs_of_neg]
  · obtain ⟨b, s, hd⟩ := List.exists_cons_of_ne_nil (digits_ne_nil i.natAbs)
    have hb : isDigit b = true := isDigit_of_mem_digits (hd ▸ List.mem_cons_self)
    rw [formatInt, if_neg negative, hd, signedDecimal_digit hb, ← hd, decimal_digits]
    simp [abs_of_nonneg (Int.not_lt.mp negative)]

theorem decimalInt_formatInt {i : Int} (fits : fitsInt i = true) :
    decimalInt (formatInt i) = some i := by
  rw [decimalInt, signedDecimal_formatInt, Option.filter_some, if_pos fits]

/-- A number is read back, with or without a newline behind it. -/
theorem kstrtoint_formatInt {i : Int} (fits : fitsInt i = true) :
    kstrtoint (formatInt i) = some i ∧ kstrtoint (formatInt i ++ [10]) = some i := by
  constructor
  · have last : (formatInt i).getLast? ≠ some 10 := fun h =>
      formatInt_ne (by decide) (by decide) 10 (List.mem_of_getLast? h) rfl
    rw [kstrtoint, chomp, if_neg last, decimalInt_formatInt fits]
  · rw [kstrtoint, chomp, if_pos List.getLast?_concat, List.dropLast_concat,
      decimalInt_formatInt fits]

theorem cstr_append {text : List UInt8} (h : ∀ b ∈ text, b ≠ 0) (mem : List UInt8) :
    cstr (text ++ 0 :: mem) = text := by
  rw [cstr, List.takeWhile_append_of_pos (by simpa using h)]
  simp

/-! ## Lines -/

/-- Up to and with the first newline, at most `n` bytes. -/
def lineOf : Nat → List UInt8 → List UInt8
  | 0, _ => []
  | _ + 1, [] => []
  | n + 1, b :: s => if b = 10 then [b] else b :: lineOf n s

/-- `fgets` with a buffer of `n` bytes, one of them for the NUL: the bytes of the line and what
remains of the stream, `none` for NULL at the end of it. -/
def fgets (n : Nat) (stream : List UInt8) : Option (List UInt8 × List UInt8) :=
  if stream = [] then none
  else
    let line := lineOf (n - 1) stream
    some (line, stream.drop line.length)

theorem lineOf_append {text : List UInt8} (plain : ∀ b ∈ text, b ≠ 10) {n : Nat}
    (short : text.length < n) (rest : List UInt8) :
    lineOf n (text ++ 10 :: rest) = text ++ [10] := by
  induction text generalizing n with
  | nil =>
    obtain ⟨m, rfl⟩ := Nat.exists_eq_add_of_lt short
    simp [lineOf]
  | cons b text ih =>
    cases n with
    | zero => cases short
    | succ n =>
      have hb : b ≠ 10 := plain b List.mem_cons_self
      rw [List.cons_append, lineOf, if_neg hb,
        ih (fun c hc => plain c (List.mem_cons_of_mem _ hc)) (Nat.lt_of_succ_lt_succ short)]
      rfl

theorem fgets_append {text : List UInt8} (plain : ∀ b ∈ text, b ≠ 10) {n : Nat}
    (short : text.length < n - 1) (rest : List UInt8) :
    fgets n (text ++ 10 :: rest) = some (text ++ [10], rest) := by
  have split : text ++ 10 :: rest = (text ++ [10]) ++ rest := by simp
  rw [fgets, if_neg (by simp)]
  simp only [lineOf_append plain short]
  rw [split, List.drop_left]

/-- Every call but the last takes something from the stream. -/
theorem fgets_lt {n : Nat} {stream line rest : List UInt8} (hn : 2 ≤ n)
    (h : fgets n stream = some (line, rest)) : rest.length < stream.length := by
  obtain ⟨m, rfl⟩ : ∃ m, n = m + 2 := ⟨n - 2, by omega⟩
  cases stream with
  | nil => cases h
  | cons b s =>
    rw [fgets, if_neg (by simp)] at h
    obtain ⟨rfl, rfl⟩ := Prod.mk.inj (Option.some.inj h)
    have taken : 0 < (lineOf (m + 2 - 1) (b :: s)).length := by
      rw [show m + 2 - 1 = m + 1 from rfl, lineOf]
      split <;> simp
    rw [List.length_drop, List.length_cons]
    omega

/-! ## Scanning -/

/-- `isspace` in the C locale. -/
def isSpace (b : UInt8) : Bool := b == 32 || (decide (9 ≤ b.toNat) && decide (b.toNat ≤ 13))

/-- `sscanf` with `%d`, `none` when nothing matches and the variable is left alone. A number that
does not fit an `int` is undefined behaviour and counts as no match. -/
def sscanfInt (s : List UInt8) : Option Int :=
  let scanned : Option Int :=
    match (cstr s).dropWhile isSpace with
    | 45 :: s => (decimal (s.takeWhile isDigit)).map fun n : Nat => -(n : Int)
    | 43 :: s => (decimal (s.takeWhile isDigit)).map fun n : Nat => (n : Int)
    | s => (decimal (s.takeWhile isDigit)).map fun n : Nat => (n : Int)
  scanned.filter fitsInt

example : sscanfInt (bytes " -42x") = some (-42) := by decide

theorem takeWhile_digits (n : Nat) : (digits n ++ [10]).takeWhile isDigit = digits n := by
  rw [List.takeWhile_append_of_pos fun b hb => isDigit_of_mem_digits hb]
  exact List.append_nil _

theorem isSpace_digit {b : UInt8} (h : isDigit b = true) : isSpace b = false := by
  simp only [isDigit, Bool.and_eq_true, decide_eq_true_eq] at h
  have blank : b ≠ 32 := by
    rintro rfl
    exact absurd h.1 (by decide)
  have high : ¬ b.toNat ≤ 13 := by omega
  simp [isSpace, blank, high]

/-- The number at the start of a printed line is read back. -/
theorem sscanfInt_formatInt {i : Int} (fits : fitsInt i = true) :
    sscanfInt (formatInt i ++ [10]) = some i := by
  have text : cstr (formatInt i ++ [10]) = formatInt i ++ [10] := by
    rw [cstr, List.takeWhile_append_of_pos]
    · rfl
    · intro b hb
      simpa using formatInt_ne (by decide) (by decide) b hb
  rw [sscanfInt, text]
  by_cases negative : i < 0
  · rw [formatInt, if_pos negative, List.cons_append, List.dropWhile_cons_of_neg (by decide)]
    simp only [takeWhile_digits, decimal_digits, Option.map_some]
    rw [Int.ofNat_natAbs_of_nonpos (Int.le_of_lt negative), Int.neg_neg, Option.filter_some,
      if_pos fits]
  · obtain ⟨b, s, hd⟩ := List.exists_cons_of_ne_nil (digits_ne_nil i.natAbs)
    have hb : isDigit b = true := isDigit_of_mem_digits (hd ▸ List.mem_cons_self)
    have start : (digits i.natAbs ++ [10]).dropWhile isSpace = digits i.natAbs ++ [10] := by
      rw [hd, List.cons_append, List.dropWhile_cons_of_neg (by simp [isSpace_digit hb])]
    rw [formatInt, if_neg negative, start]
    have number :
        (decimal ((digits i.natAbs ++ [10]).takeWhile isDigit)).map (fun n : Nat => (n : Int)) =
          some i := by
      rw [takeWhile_digits, decimal_digits, Option.map_some,
        Int.natAbs_of_nonneg (Int.not_lt.mp negative)]
    -- a digit is not a sign
    split
    · rename_i same
      rw [hd] at same
      cases same
      cases hb
    · rename_i same
      rw [hd] at same
      cases same
      cases hb
    · simp only [number, Option.filter_some, fits, ↓reduceIte]

end KernelModules
