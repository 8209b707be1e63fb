import KernelModules.Lib.Run
import KernelModules.Lib.Stdio
import KernelModules.MP3.Requests
import Mathlib.Data.List.Perm.Basic
import Mathlib.Tactic.Linarith

/-!
# The program `work`

`main` of `work.c` registers itself, allocates a block for each megabyte it is asked for, accesses
the blocks, gives them back and unregisters. `Fit` says what it has allocated at each place and
how far its variable `addr` has come, which is a sum that nothing bounds but the number of
accesses.
-/

namespace KernelModules.MP3

/-- `N_ITERATION`. -/
def nIteration : Nat := 20

/-- The length of `buffer`. -/
def bufferLength : Nat := 1024

/-- `RAND_MAX` and `INT_MAX`. -/
def randMax : Int := 2 ^ 31 - 1

inductive Misuse
  /-- An access outside of an array or a block, or a `free` of what is not allocated. -/
  | memory
  /-- A value that does not fit an `int`. -/
  | overflow
  deriving DecidableEq, Repr

def checked (i : Int) : Except Misuse Int := if fitsInt i then .ok i else .error .overflow

/-- Where `main` is: at what it does next. -/
inductive Place
  /-- At the `echo` that registers. -/
  | registers
  | allocates (i : Nat)
  /-- A `malloc` has failed, and `n` blocks are still to be freed. -/
  | abandons (n : Nat)
  /-- In iteration `k` with `j` accesses made. -/
  | accesses (k j : Nat) (addr : Int)
  | frees (i : Nat)
  /-- At the `echo` that unregisters. -/
  | unregisters
  /-- At a `return`. -/
  | returns
  deriving DecidableEq, Repr

/-- The arguments, `buffer`, the blocks that are allocated, and where `main` is. What is stored in
the blocks is never read. -/
structure Work where
  msize : Int
  locality : Bool
  naccess : Int
  buffer : Nat → Option Nat
  blocks : List Nat
  place : Place

/-- What the C library returns next: `malloc`, and `rand` up to three times. -/
structure Draw where
  malloc : Option Nat
  rand : Int
  rand' : Int
  rand'' : Int
  deriving DecidableEq, Repr

/-- What the C library may return. -/
structure Draw.Proper (d : Draw) (w : Work) : Prop where
  fresh : ∀ p ∈ d.malloc, p ∉ w.blocks
  rand : 0 ≤ d.rand ∧ d.rand ≤ randMax
  rand' : 0 ≤ d.rand' ∧ d.rand' ≤ randMax
  rand'' : 0 ≤ d.rand'' ∧ d.rand'' ≤ randMax

instance (d : Draw) (w : Work) : Decidable (d.Proper w) :=
  decidable_of_iff ((∀ p ∈ d.malloc, p ∉ w.blocks) ∧ (0 ≤ d.rand ∧ d.rand ≤ randMax) ∧
      (0 ≤ d.rand' ∧ d.rand' ≤ randMax) ∧ (0 ≤ d.rand'' ∧ d.rand'' ≤ randMax))
    ⟨fun ⟨fresh, rand, rand', rand''⟩ => ⟨fresh, rand, rand', rand''⟩,
      fun ⟨fresh, rand, rand', rand''⟩ => ⟨fresh, rand, rand', rand''⟩⟩

namespace Work

/-- `main` with its arguments: the first and the third as `atoi` reads them. -/
def start (msize : Int) (argv2 : List UInt8) (naccess : Int) : Work where
  msize := msize
  locality := decide (argv2.headD 0 ≠ 82)
  naccess := naccess
  buffer := fun _ => none
  blocks := []
  place :=
    if msize > 1024 ∨ msize < 1 then .returns
    else if naccess < 1 then .returns
    else .registers

/-- `buffer[blk][offset] = '*'`. -/
def store (w : Work) (blk offset : Int) : Except Misuse Unit :=
  match w.buffer blk.toNat with
  | none => .error .memory
  | some p =>
    if 0 ≤ blk ∧ blk < bufferLength ∧ p ∈ w.blocks ∧ 0 ≤ offset ∧ offset < 1024 * 1024 then .ok ()
    else .error .memory

def randAccess (w : Work) (rand : Int) : Except Misuse Unit := do
  let size ← checked (w.msize * 1024 * 1024)
  let target := rand.tmod size
  let target ← if target < 0 then checked (target * -1) else .ok target
  let blk := (target.tdiv 1024).tdiv 1024
  w.store blk (target - blk * 1024 * 1024)

def localAccess (addr rand rand' : Int) : Except Misuse Int :=
  if rand < 0 then checked (addr + 1) else checked (addr + rand'.tmod 300)

/-- The body of the innermost loops, with the `addr` it leaves. -/
def access (w : Work) (addr : Int) (d : Draw) : Except Misuse Int :=
  if w.locality then
    let locality := d.rand.tmod 10
    if locality > -2 ∧ locality < 2 then do
      w.randAccess d.rand'
      .ok addr
    else localAccess addr d.rand' d.rand''
  else do
    w.randAccess d.rand
    .ok addr

/-- `free(buffer[i])`. -/
def free (w : Work) (i : Nat) : Except Misuse Work :=
  if i < bufferLength then
    match w.buffer i with
    | none => .ok w
    | some p => if p ∈ w.blocks then .ok { w with blocks := w.blocks.erase p } else .error .memory
  else .error .memory

/-- What `main` does without the module. -/
def goes (w : Work) (d : Draw) : Except Misuse Work :=
  match w.place with
  | .allocates i =>
    if (i : Int) < w.msize then
      if i < bufferLength then
        match d.malloc with
        | none =>
          .ok { w with buffer := Function.update w.buffer i none, place := .abandons i }
        | some p =>
          .ok { w with
            buffer := Function.update w.buffer i (some p)
            blocks := p :: w.blocks
            place := .allocates (i + 1) }
      else .error .memory
    else .ok { w with place := .accesses 0 0 0 }
  | .abandons 0 => .ok { w with place := .returns }
  | .abandons (n + 1) => do
    let w ← w.free n
    .ok { w with place := .abandons n }
  | .accesses k j addr =>
    if k < nIteration then
      if (j : Int) < w.naccess then do
        let addr ← w.access addr d
        .ok { w with place := .accesses k (j + 1) addr }
      else .ok { w with place := .accesses (k + 1) 0 addr }
    else .ok { w with place := .frees 0 }
  | .frees i =>
    if (i : Int) < w.msize then do
      let w ← w.free i
      .ok { w with place := .frees (i + 1) }
    else .ok { w with place := .unregisters }
  | .registers => .ok w
  | .unregisters => .ok w
  | .returns => .ok w

end Work

/-! ## What is allocated -/

/-- The blocks are those that `n` elements of `buffer` from `i` on point to, each once. -/
structure Work.Holds (w : Work) (i n : Nat) : Prop where
  perm : (w.blocks.map some).Perm ((List.range' i n).map w.buffer)
  nodup : w.blocks.Nodup

section

variable {w : Work} {i n a p : Nat}

theorem Work.Holds.at (holds : w.Holds i n) (first : i ≤ a) (last : a < i + n) :
    ∃ p ∈ w.blocks, w.buffer a = some p := by
  have mem : w.buffer a ∈ (List.range' i n).map w.buffer :=
    List.mem_map_of_mem (List.mem_range'_1.mpr ⟨first, last⟩)
  obtain ⟨p, allocated, same⟩ := List.mem_map.mp (holds.perm.mem_iff.mpr mem)
  exact ⟨p, allocated, same.symm⟩

theorem Work.Holds.none_left (holds : w.Holds i 0) : w.blocks = [] :=
  List.map_eq_nil_iff.mp (List.perm_nil.mp holds.perm)

/-- An element behind those that are held can be overwritten. -/
theorem map_update_behind (buffer : Nat → Option Nat) (i : Nat) (v : Option Nat) :
    (List.range' 0 i).map (Function.update buffer i v) = (List.range' 0 i).map buffer := by
  apply List.map_congr_left
  intro a mem
  have other : a ≠ i := by
    have := (List.mem_range'_1.mp mem).2
    omega
  exact Function.update_of_ne other _ _

theorem Work.Holds.alloc (holds : w.Holds 0 i) (fresh : p ∉ w.blocks) (place : Place) :
    ({ w with
      buffer := Function.update w.buffer i (some p)
      blocks := p :: w.blocks
      place := place } : Work).Holds 0 (i + 1) := by
  refine ⟨?_, List.nodup_cons.mpr ⟨fresh, holds.nodup⟩⟩
  simp only [List.range'_1_concat, List.map_append, List.map_cons, List.map_nil,
    map_update_behind, Nat.zero_add, Function.update_self]
  exact (holds.perm.cons (some p)).trans (List.perm_append_singleton _ _).symm

/-- A `malloc` that fails. -/
theorem Work.Holds.fail (holds : w.Holds 0 i) (place : Place) :
    ({ w with buffer := Function.update w.buffer i none, place := place } : Work).Holds 0 i := by
  refine ⟨?_, holds.nodup⟩
  rw [map_update_behind]
  exact holds.perm

/-- A block that goes back leaves the blocks of the other elements. -/
theorem Work.Holds.free {j m : Nat} (holds : w.Holds i n) (first : i ≤ a) (last : a < i + n)
    (short : a < bufferLength)
    (rest : ((List.range' i n).map w.buffer).Perm (w.buffer a :: (List.range' j m).map w.buffer)) :
    ∃ w', w.free a = .ok w' ∧ w' = { w with blocks := w'.blocks } ∧ w'.Holds j m := by
  obtain ⟨p, allocated, here⟩ := holds.at first last
  refine ⟨{ w with blocks := w.blocks.erase p }, ?_, rfl, ?_, holds.nodup.erase p⟩
  · simp only [Work.free, if_pos short, here, if_pos allocated]
  · have erased := (holds.perm.trans rest).erase (some p)
    rw [here, List.erase_cons_head, ← List.map_erase (Option.some_injective _)] at erased
    exact erased

/-! ## The accesses -/

/-- What the tests at the start of `main` let through. -/
structure Work.Valid (w : Work) : Prop where
  msize : 1 ≤ w.msize ∧ w.msize ≤ 1024
  naccess : 1 ≤ w.naccess

theorem checked_ok {x : Int} (low : -2 ^ 31 ≤ x) (high : x < 2 ^ 31) : checked x = .ok x :=
  if_pos (fitsInt_iff.mpr ⟨low, high⟩)

/-- A random access hits a block, in bounds. -/
theorem randAccess_ok (valid : w.Valid) (holds : w.Holds 0 w.msize.toNat) {rand : Int}
    (drawn : 0 ≤ rand) : w.randAccess rand = .ok () := by
  obtain ⟨one, most⟩ := valid.msize
  have size : checked (w.msize * 1024 * 1024) = .ok (w.msize * 1024 * 1024) :=
    checked_ok (by omega) (by omega)
  have positive : 0 < w.msize * 1024 * 1024 := by omega
  have low := Int.tmod_nonneg (w.msize * 1024 * 1024) drawn
  have high := Int.tmod_lt_of_pos rand positive
  generalize hr : rand.tmod (w.msize * 1024 * 1024) = target at low high
  have blk : (target.tdiv 1024).tdiv 1024 = target / 1024 / 1024 := by
    rw [Int.tdiv_eq_ediv_of_nonneg low, Int.tdiv_eq_ediv_of_nonneg (by omega)]
  obtain ⟨p, allocated, here⟩ := holds.at (a := (target / 1024 / 1024).toNat) (Nat.zero_le _)
    (by omega)
  simp only [Work.randAccess, size, bind, Except.bind, hr, Int.not_lt.mpr low, ↓reduceIte, blk,
    Work.store, here, allocated, true_and]
  apply if_pos
  unfold bufferLength
  omega

/-- The next access is a local one, and adds more to `addr` than fits. -/
def Work.Overflows (w : Work) (d : Draw) (addr : Int) : Prop :=
  w.locality = true ∧ 2 ≤ d.rand.tmod 10 ∧ 2 ^ 31 ≤ addr + d.rand''.tmod 300

/-- A random access hits a block. A local access adds less than 300 to `addr` as long as that
fits. -/
theorem access_cases (valid : w.Valid) (holds : w.Holds 0 w.msize.toNat) {d : Draw} {addr : Int}
    (first : 0 ≤ d.rand) (second : 0 ≤ d.rand') (third : 0 ≤ d.rand'') (low : 0 ≤ addr) :
    (∃ addr', w.access addr d = .ok addr' ∧ addr ≤ addr' ∧ addr' ≤ addr + 299) ∨
    w.Overflows d addr ∧ w.access addr d = .error .overflow := by
  unfold Work.access Work.Overflows
  cases w.locality with
  | false =>
    refine .inl ⟨addr, ?_, by omega, by omega⟩
    simp only [Bool.false_eq_true, ↓reduceIte, randAccess_ok valid holds first]
    rfl
  | true =>
    simp only [↓reduceIte, true_and]
    split
    · refine .inl ⟨addr, ?_, by omega, by omega⟩
      rw [randAccess_ok valid holds second]
      rfl
    · rename_i near
      have drawn := Int.tmod_nonneg 10 first
      have step := Int.tmod_nonneg 300 third
      have short := Int.tmod_lt_of_pos d.rand'' (show (0 : Int) < 300 by decide)
      rw [Work.localAccess, if_neg (Int.not_lt.mpr second)]
      by_cases fits : addr + d.rand''.tmod 300 < 2 ^ 31
      · exact .inl ⟨_, checked_ok (by omega) fits, by omega, by omega⟩
      · refine .inr ⟨⟨by omega, by omega⟩, if_neg ?_⟩
        rw [fitsInt_iff]
        omega

/-! ## The program -/

/-- What holds where `main` is. -/
def Work.Fit (w : Work) : Prop :=
  match w.place with
  | .registers => w.Valid ∧ w.blocks = []
  | .allocates i => w.Valid ∧ (i : Int) ≤ w.msize ∧ w.Holds 0 i
  | .abandons n => w.Valid ∧ (n : Int) ≤ w.msize ∧ w.Holds 0 n
  | .accesses k j addr => w.Valid ∧ w.Holds 0 w.msize.toNat ∧ k ≤ nIteration ∧
    (j : Int) ≤ w.naccess ∧ (k = nIteration → j = 0) ∧ 0 ≤ addr ∧ addr ≤ 299 * (k * w.naccess + j)
  | .frees i => w.Valid ∧ (i : Int) ≤ w.msize ∧ w.Holds i (w.msize.toNat - i)
  | .unregisters => w.Valid ∧ w.blocks = []
  | .returns => w.blocks = []

theorem start_fit (msize : Int) (argv2 : List UInt8) (naccess : Int) :
    (Work.start msize argv2 naccess).Fit := by
  by_cases large : msize > 1024 ∨ msize < 1
  · simp [Work.Fit, Work.start, large]
  · by_cases few : naccess < 1
    · simp [Work.Fit, Work.start, large, few]
    · simp only [Work.Fit, Work.start, large, few, ↓reduceIte]
      exact ⟨⟨by dsimp only; omega, by dsimp only; omega⟩, trivial⟩

variable {d : Draw}

theorem allocates_goes (fit : w.Fit) (proper : d.Proper w) (here : w.place = .allocates i) :
    ∃ w', w.goes d = .ok w' ∧ w'.Fit := by
  simp only [Work.Fit, here] at fit
  obtain ⟨valid, reached, holds⟩ := fit
  simp only [Work.goes, here]
  by_cases more : (i : Int) < w.msize
  · have short : i < bufferLength := by
      have := valid.msize.2
      unfold bufferLength
      omega
    rw [if_pos more, if_pos short]
    cases malloc : d.malloc with
    | none =>
      exact ⟨_, rfl, ⟨⟨valid.msize, valid.naccess⟩, reached, holds.fail _⟩⟩
    | some p =>
      have fresh := proper.fresh p malloc
      exact ⟨_, rfl, ⟨⟨valid.msize, valid.naccess⟩, more, holds.alloc fresh _⟩⟩
  · rw [if_neg more]
    have all : w.msize.toNat = i := by omega
    refine ⟨_, rfl, ⟨⟨valid.msize, valid.naccess⟩, ?_, Nat.zero_le _, ?_, fun _ => rfl, le_refl _,
      ?_⟩⟩
    · rw [all]
      exact ⟨holds.perm, holds.nodup⟩
    · have := valid.naccess
      simp only [Nat.cast_zero]
      omega
    · simp

theorem abandons_goes (fit : w.Fit) (here : w.place = .abandons n) :
    ∃ w', w.goes d = .ok w' ∧ w'.Fit := by
  simp only [Work.Fit, here] at fit
  obtain ⟨valid, reached, holds⟩ := fit
  cases n with
  | zero =>
    simp only [Work.goes, here]
    exact ⟨_, rfl, holds.none_left⟩
  | succ n =>
    have last : ((List.range' 0 (n + 1)).map w.buffer).Perm
        (w.buffer n :: (List.range' 0 n).map w.buffer) := by
      simp only [List.range'_1_concat, List.map_append, List.map_cons, List.map_nil, Nat.zero_add]
      exact List.perm_append_singleton _ _
    have short : n < bufferLength := by
      have := valid.msize.2
      unfold bufferLength
      omega
    obtain ⟨w', freed, kept, left⟩ := holds.free (Nat.zero_le n) (by omega) short last
    simp only [Work.goes, here, freed]
    rw [kept]
    refine ⟨_, rfl, ⟨⟨valid.msize, valid.naccess⟩, ?_, ⟨?_, left.nodup⟩⟩⟩
    · push_cast at reached
      dsimp only
      omega
    · have := left.perm
      rw [kept] at this
      exact this

theorem frees_goes (fit : w.Fit) (here : w.place = .frees i) :
    ∃ w', w.goes d = .ok w' ∧ w'.Fit := by
  simp only [Work.Fit, here] at fit
  obtain ⟨valid, reached, holds⟩ := fit
  simp only [Work.goes, here]
  by_cases more : (i : Int) < w.msize
  · have short : i < bufferLength := by
      have := valid.msize.2
      unfold bufferLength
      omega
    obtain ⟨n, left⟩ : ∃ n, w.msize.toNat - i = n + 1 := ⟨w.msize.toNat - i - 1, by omega⟩
    rw [left] at holds
    have first : ((List.range' i (n + 1)).map w.buffer).Perm
        (w.buffer i :: (List.range' (i + 1) n).map w.buffer) := by
      rw [List.range'_succ, List.map_cons]
    obtain ⟨w', freed, kept, rest⟩ := holds.free (le_refl i) (by omega) short first
    rw [if_pos more, freed, kept]
    have fewer : w.msize.toNat - (i + 1) = n := by omega
    refine ⟨_, rfl, ⟨⟨valid.msize, valid.naccess⟩, more, ⟨?_, rest.nodup⟩⟩⟩
    have := rest.perm
    rw [kept] at this
    dsimp only
    rw [fewer]
    exact this
  · rw [if_neg more]
    have none_left : w.msize.toNat - i = 0 := by omega
    rw [none_left] at holds
    exact ⟨_, rfl, ⟨⟨valid.msize, valid.naccess⟩, holds.none_left⟩⟩

/-- The program is at an access, and `addr` overflows in it. -/
def Work.Stuck (w : Work) (d : Draw) : Prop :=
  ∃ k j addr, w.place = .accesses k j addr ∧ k < nIteration ∧ (j : Int) < w.naccess ∧
    w.Overflows d addr

/-- An iteration adds to `addr` in each of its accesses. -/
theorem accesses_goes {k j : Nat} {addr : Int} (fit : w.Fit) (proper : d.Proper w)
    (here : w.place = .accesses k j addr) :
    (∃ w', w.goes d = .ok w' ∧ w'.Fit) ∨ w.Stuck d ∧ w.goes d = .error .overflow := by
  simp only [Work.Fit, here] at fit
  obtain ⟨valid, holds, iteration, made, final, low, high⟩ := fit
  simp only [Work.goes, here]
  by_cases again : k < nIteration
  · rw [if_pos again]
    by_cases more : (j : Int) < w.naccess
    · rw [if_pos more]
      obtain ⟨addr', accessed, grown, most⟩ | ⟨large, overflow⟩ :=
        access_cases valid holds proper.rand.1 proper.rand'.1 proper.rand''.1 low
      · rw [accessed]
        refine .inl ⟨_, rfl, ⟨⟨valid.msize, valid.naccess⟩, ⟨holds.perm, holds.nodup⟩, iteration,
          more, fun last => ?_, le_trans low grown, ?_⟩⟩
        · omega
        · push_cast
          linarith
      · rw [overflow]
        exact .inr ⟨⟨k, j, addr, here, again, more, large⟩, rfl⟩
    · rw [if_neg more]
      have all : (j : Int) = w.naccess := le_antisymm made (Int.not_lt.mp more)
      refine .inl ⟨_, rfl, ⟨⟨valid.msize, valid.naccess⟩, ⟨holds.perm, holds.nodup⟩, again, ?_,
        fun _ => rfl, low, ?_⟩⟩
      · have := valid.naccess
        simp only [Nat.cast_zero]
        omega
      · rw [all] at high
        push_cast
        linarith
  · rw [if_neg again]
    have some_left : ((0 : Nat) : Int) ≤ w.msize := by
      have := valid.msize.1
      omega
    exact .inl ⟨_, rfl, ⟨valid.msize, valid.naccess⟩, some_left, ⟨holds.perm, holds.nodup⟩⟩

/-- Every step of the program goes through, unless `addr` overflows. -/
theorem goes_fit (fit : w.Fit) (proper : d.Proper w) :
    (∃ w', w.goes d = .ok w' ∧ w'.Fit) ∨ w.Stuck d ∧ w.goes d = .error .overflow := by
  cases here : w.place with
  | allocates i => exact .inl (allocates_goes fit proper here)
  | abandons n => exact .inl (abandons_goes fit here)
  | accesses k j addr => exact accesses_goes fit proper here
  | frees i => exact .inl (frees_goes fit here)
  | registers => exact .inl ⟨w, by simp only [Work.goes, here], fit⟩
  | unregisters => exact .inl ⟨w, by simp only [Work.goes, here], fit⟩
  | returns => exact .inl ⟨w, by simp only [Work.goes, here], fit⟩

/-! ## How far the program is -/

/-- Where `main` goes from a place without the module. -/
inductive Work.Next (w : Work) : Place → Place → Prop
  | allocate {i : Nat} (more : (i : Int) < w.msize) : w.Next (.allocates i) (.allocates (i + 1))
  | fail {i : Nat} (more : (i : Int) < w.msize) : w.Next (.allocates i) (.abandons i)
  | allocated {i : Nat} : w.Next (.allocates i) (.accesses 0 0 0)
  | abandon {n : Nat} : w.Next (.abandons (n + 1)) (.abandons n)
  | abandoned : w.Next (.abandons 0) .returns
  | access {k j : Nat} {addr addr' : Int} (again : k < nIteration) (more : (j : Int) < w.naccess) :
      w.Next (.accesses k j addr) (.accesses k (j + 1) addr')
  | iterate {k j : Nat} {addr : Int} (again : k < nIteration) (all : ¬ (j : Int) < w.naccess) :
      w.Next (.accesses k j addr) (.accesses (k + 1) 0 addr)
  | accessed {k j : Nat} {addr : Int} : w.Next (.accesses k j addr) (.frees 0)
  | free {i : Nat} (more : (i : Int) < w.msize) : w.Next (.frees i) (.frees (i + 1))
  | freed {i : Nat} : w.Next (.frees i) .unregisters

/-- The places where the next thing that `main` does is not its own. -/
def Place.outside : Place → Bool
  | .registers => true
  | .unregisters => true
  | .returns => true
  | _ => false

theorem free_ok {w' : Work} (h : w.free a = .ok w') : w' = { w with blocks := w'.blocks } := by
  unfold Work.free at h
  split at h
  · split at h
    · cases h
      rfl
    · obtain ⟨-, done⟩ := ite_ok h
      cases done
      rfl
  · cases h

/-- All that a step of the program can do. -/
theorem goes_ok {w' : Work} (h : w.goes d = .ok w') :
    w' = { w with buffer := w'.buffer, blocks := w'.blocks, place := w'.place } ∧
      (w.place.outside = false → w.Next w.place w'.place) := by
  unfold Work.goes at h
  cases here : w.place with
  | allocates i =>
    rw [here] at h
    simp only at h
    split_ifs at h with more
    · split at h
      · cases h
        exact ⟨rfl, fun _ => .fail more⟩
      · cases h
        exact ⟨rfl, fun _ => .allocate more⟩
    · cases h
      exact ⟨rfl, fun _ => .allocated⟩
  | abandons n =>
    rw [here] at h
    cases n with
    | zero =>
      cases h
      exact ⟨rfl, fun _ => .abandoned⟩
    | succ n =>
      obtain ⟨u, freed, done⟩ := bind_ok h
      cases done
      rw [free_ok freed]
      exact ⟨rfl, fun _ => .abandon⟩
  | accesses k j addr =>
    rw [here] at h
    simp only at h
    split_ifs at h with again more
    · obtain ⟨addr', -, done⟩ := bind_ok h
      cases done
      exact ⟨rfl, fun _ => .access again more⟩
    · cases h
      exact ⟨rfl, fun _ => .iterate again more⟩
    · cases h
      exact ⟨rfl, fun _ => .accessed⟩
  | frees i =>
    rw [here] at h
    simp only at h
    split_ifs at h with more
    · obtain ⟨u, freed, done⟩ := bind_ok h
      cases done
      rw [free_ok freed]
      exact ⟨rfl, fun _ => .free more⟩
    · cases h
      exact ⟨rfl, fun _ => .freed⟩
  | registers =>
    rw [here] at h
    cases h
    exact ⟨rfl, fun inside => by cases inside⟩
  | unregisters =>
    rw [here] at h
    cases h
    exact ⟨rfl, fun inside => by cases inside⟩
  | returns =>
    rw [here] at h
    cases h
    exact ⟨rfl, fun inside => by cases inside⟩

/-- The most steps that `main` still takes. -/
def Work.left (w : Work) : Nat :=
  let msize := w.msize.toNat
  let iteration := w.naccess.toNat + 1
  match w.place with
  | .registers => 2 * msize + nIteration * iteration + 6
  | .allocates i => msize - i + msize + nIteration * iteration + 5
  | .abandons n => n + 2
  | .accesses k j _ => (nIteration - k) * iteration - j + msize + 4
  | .frees i => msize - i + 3
  | .unregisters => 2
  | .returns => 1

end

end KernelModules.MP3
