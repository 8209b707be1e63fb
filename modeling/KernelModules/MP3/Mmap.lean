import KernelModules.MP3.Bound
import KernelModules.MP3.Ring

/-!
# Mapping the buffer

`mmap_callback` maps the buffer page by page, until the buffer or the requested area ends.
-/

namespace KernelModules.MP3

/-- A requested area. The kernel hands on areas of whole pages only, and none without any. -/
structure Vma (pageSize : Nat) where
  vmStart : Nat
  vmEnd : Nat
  nonempty : vmStart < vmEnd
  word : vmEnd < 2 ^ 64
  whole : pageSize ∣ vmEnd - vmStart

/-- The calls of `mmap_callback`: the frame of the page at an address of the buffer, 0 for none,
and whether a page of the area could be mapped to a frame, 0 for yes. A call that fails maps
nothing. -/
structure Pager where
  vmallocToPfn : Nat → Nat
  remapPfnRange : Nat → Nat → Int

def Vma.length {pageSize : Nat} (vma : Vma pageSize) : Nat := vma.vmEnd - vma.vmStart

section

variable (c : Pager) (pageSize vm : Nat) (vma : Vma pageSize)

/-- The loop of `mmap_callback`, with what has been mapped: addresses of the area with the
frames. `none` when `fuel` runs out. -/
def mmapLoop : Nat → Nat → List (Nat × Nat) → Option (Int × List (Nat × Nat))
  | 0, _, _ => none
  | fuel + 1, assignedSize, mapped =>
    if assignedSize < vmSize ∧ assignedSize < vma.length then
      let pAddr := c.vmallocToPfn (vm + assignedSize)
      if pAddr = 0 then some (-1, mapped)
      else if c.remapPfnRange (vma.vmStart + assignedSize) pAddr ≠ 0 then some (-1, mapped)
      else
        mmapLoop fuel ((assignedSize + pageSize) % 2 ^ 64)
          (mapped ++ [(vma.vmStart + assignedSize, pAddr)])
    else some (0, mapped)

def mmapCallback (fuel : Nat) : Option (Int × List (Nat × Nat)) :=
  mmapLoop c pageSize vm vma fuel 0 []

/-! ## Pages -/

/-- Page `k` of the area and of the buffer, as it is mapped. -/
def page (k : Nat) : Nat × Nat :=
  (vma.vmStart + k * pageSize, c.vmallocToPfn (vm + k * pageSize))

/-- The calls for page `k` fail. -/
def Fails (k : Nat) : Prop :=
  (page c pageSize vm vma k).2 = 0 ∨
    c.remapPfnRange (page c pageSize vm vma k).1 (page c pageSize vm vma k).2 ≠ 0

/-- Exactly the pages of `which` are mapped, each to the frame of the same page of the buffer,
none outside of the area and none twice. -/
structure Maps (which : Nat → Prop) (mapped : List (Nat × Nat)) : Prop where
  exact : ∀ p, p ∈ mapped ↔ ∃ k, which k ∧ p = page c pageSize vm vma k
  inside : ∀ p ∈ mapped, vma.vmStart ≤ p.1 ∧ p.1 + pageSize ≤ vma.vmEnd
  once : (mapped.map Prod.fst).Nodup

end

section

variable {c : Pager} {pageSize vm : Nat} {vma : Vma pageSize}

theorem Vma.pageSize_pos (vma : Vma pageSize) : 0 < pageSize :=
  Nat.pos_of_dvd_of_pos vma.whole (Nat.sub_pos_of_lt vma.nonempty)

/-- A page that begins in the area ends in it. -/
theorem Vma.page_end (vma : Vma pageSize) {k : Nat} (begins : k * pageSize < vma.length) :
    (k + 1) * pageSize ≤ vma.length := by
  obtain ⟨n, total⟩ := vma.whole
  change vma.length = pageSize * n at total
  rw [total, Nat.mul_comm pageSize] at begins ⊢
  exact Nat.mul_le_mul_right pageSize (Nat.lt_of_mul_lt_mul_right begins)

/-- The first `n` pages, when all of them begin in the area. -/
theorem maps_range (c : Pager) (vm : Nat) {n : Nat} (begins : ∀ k < n, k * pageSize < vma.length) :
    Maps c pageSize vm vma (· < n) ((List.range n).map (page c pageSize vm vma)) := by
  have positive := vma.pageSize_pos
  refine ⟨fun p => ?_, fun p mapped => ?_, ?_⟩
  · simp only [List.mem_map, List.mem_range]
    exact exists_congr fun k => and_congr_right fun _ => eq_comm
  · obtain ⟨k, below, rfl⟩ := List.mem_map.mp mapped
    have ends := vma.page_end (begins k (List.mem_range.mp below))
    rw [Nat.add_mul, Nat.one_mul, Vma.length] at ends
    constructor
    · exact Nat.le_add_right _ _
    · change vma.vmStart + k * pageSize + pageSize ≤ vma.vmEnd
      have := vma.nonempty
      omega
  · rw [List.map_map]
    refine List.Nodup.map (fun i j same => ?_) List.nodup_range
    have same : vma.vmStart + i * pageSize = vma.vmStart + j * pageSize := same
    exact Nat.eq_of_mul_eq_mul_right positive (Nat.add_left_cancel same)

/-! ## The loop -/

/-- The number of pages that begin both in the buffer and in the area. -/
def pageCount (vma : Vma pageSize) : Nat := (min vmSize vma.length + (pageSize - 1)) / pageSize

theorem lt_pageCount_iff (vma : Vma pageSize) (k : Nat) :
    k < pageCount vma ↔ k * pageSize < min vmSize vma.length := by
  have positive := vma.pageSize_pos
  rw [pageCount, ← Nat.succ_le_iff, Nat.le_div_iff_mul_le positive, Nat.succ_mul]
  omega

/-- The pages before `k` are mapped and page `k` fails. -/
theorem mmapLoop_fails {k : Nat} (begins : k < pageCount vma) (failed : Fails c pageSize vm vma k)
    (fuel : Nat) (mapped : List (Nat × Nat)) :
    mmapLoop c pageSize vm vma (fuel + 1) (k * pageSize) mapped = some (-1, mapped) := by
  rw [lt_pageCount_iff, Nat.lt_min] at begins
  unfold mmapLoop
  rw [if_pos begins]
  by_cases absent : c.vmallocToPfn (vm + k * pageSize) = 0
  · exact if_pos absent
  · exact (if_neg absent).trans (if_pos (failed.resolve_left absent))

/-- Page `k` is mapped, and the counter does not wrap. -/
theorem mmapLoop_maps {k : Nat} (begins : k < pageCount vma)
    (works : ¬ Fails c pageSize vm vma k) (fuel : Nat) (mapped : List (Nat × Nat)) :
    mmapLoop c pageSize vm vma (fuel + 1) (k * pageSize) mapped =
      mmapLoop c pageSize vm vma fuel ((k + 1) * pageSize)
        (mapped ++ [page c pageSize vm vma k]) := by
  rw [lt_pageCount_iff, Nat.lt_min] at begins
  obtain ⟨present, remapped⟩ := not_or.mp works
  have small : (k + 1) * pageSize < 2 ^ 64 := by
    have ends := vma.page_end begins.2
    have := vma.word
    unfold Vma.length at ends
    omega
  have next : (k * pageSize + pageSize) % 2 ^ 64 = (k + 1) * pageSize := by
    rw [← Nat.succ_mul, Nat.mod_eq_of_lt small]
  rw [mmapLoop, if_pos begins]
  simp only [next]
  exact (if_neg present).trans (if_neg remapped)

theorem mmapLoop_ends {k : Nat} (past : ¬ k < pageCount vma) (fuel : Nat)
    (mapped : List (Nat × Nat)) :
    mmapLoop c pageSize vm vma (fuel + 1) (k * pageSize) mapped = some (0, mapped) := by
  rw [lt_pageCount_iff, Nat.lt_min] at past
  rw [mmapLoop, if_neg past]

section

variable (c pageSize vm vma)

/-- How the loop ends: with all pages mapped, or at the first that fails. -/
def Outcome (ret : Int) (mapped : List (Nat × Nat)) : Prop :=
  (ret = 0 ∧ (∀ k < pageCount vma, ¬ Fails c pageSize vm vma k) ∧
    mapped = (List.range (pageCount vma)).map (page c pageSize vm vma)) ∨
  (ret = -1 ∧ ∃ k < pageCount vma, Fails c pageSize vm vma k ∧
    (∀ j < k, ¬ Fails c pageSize vm vma j) ∧
    mapped = (List.range k).map (page c pageSize vm vma))

end

/-- With the first `k` pages mapped, the loop comes to its end with fuel for the others. -/
theorem mmapLoop_outcome (c : Pager) (vm : Nat) {rest k : Nat} (left : k + rest = pageCount vma)
    (before : ∀ j < k, ¬ Fails c pageSize vm vma j) :
    ∃ ret mapped, Outcome c pageSize vm vma ret mapped ∧
      ∀ more, mmapLoop c pageSize vm vma (rest + 1 + more) (k * pageSize)
        ((List.range k).map (page c pageSize vm vma)) = some (ret, mapped) := by
  induction rest generalizing k with
  | zero =>
    obtain rfl : k = pageCount vma := left
    refine ⟨0, _, .inl ⟨rfl, before, rfl⟩, fun more => ?_⟩
    rw [Nat.zero_add, Nat.add_comm 1 more]
    exact mmapLoop_ends (Nat.lt_irrefl _) more _
  | succ rest ih =>
    have begins : k < pageCount vma := by omega
    have fuel (more : Nat) : rest + 1 + 1 + more = rest + 1 + more + 1 := by omega
    by_cases failed : Fails c pageSize vm vma k
    · refine ⟨-1, _, .inr ⟨rfl, k, begins, failed, before, rfl⟩, fun more => ?_⟩
      rw [fuel, mmapLoop_fails begins failed]
    · have before' : ∀ j < k + 1, ¬ Fails c pageSize vm vma j := by
        intro j below
        rcases Nat.lt_succ_iff_lt_or_eq.mp below with earlier | rfl
        · exact before j earlier
        · exact failed
      obtain ⟨ret, mapped, outcome, ends⟩ := ih (by omega) before'
      refine ⟨ret, mapped, outcome, fun more => ?_⟩
      rw [fuel, mmapLoop_maps begins failed, ← ends more, List.range_succ, List.map_append]
      rfl

end

/-! ## The pages of the monitor -/

/-- `NPAGES` of `monitor.c` -/
def npages : Nat := 128

/-- The bytes of element `i` of the area are in page `k`. -/
def InPage (pageSize i k : Nat) : Prop :=
  k * pageSize ≤ elementBytes * i ∧ elementBytes * (i + 1) ≤ (k + 1) * pageSize

theorem element_in_page {i : Nat} (reach : i ≤ bufdMax) :
    InPage 4096 i (i / 512) ∧ i / 512 * 4096 < min vmSize (npages * 4096) := by
  unfold InPage elementBytes vmSize npages
  unfold bufdMax at reach
  omega

/-- For every area and all outcomes of the calls, `mmap_callback` ends. When it returns 0 the
pages that begin in the buffer and in the area are mapped, and when a page fails, the pages
before it are, and it returns -1. In an area of the size `monitor.c` asks for, every element that
its `main` accesses is then in a page that is mapped to that element's page of the buffer. -/
theorem mmap_correspondence (c : Pager) (pageSize vm : Nat) (vma : Vma pageSize) :
    ∃ fuel ret mapped,
      (∀ more, mmapCallback c pageSize vm vma (fuel + more) = some (ret, mapped)) ∧
      (ret = 0 ↔ ∀ k, k * pageSize < min vmSize vma.length → ¬ Fails c pageSize vm vma k) ∧
      (ret = 0 →
        Maps c pageSize vm vma (fun k => k * pageSize < min vmSize vma.length) mapped ∧
        (pageSize = 4096 → vma.length = npages * 4096 →
          ∀ buf, ∀ i ∈ (monitorTrace buf).2, ∃ k,
            InPage pageSize i k ∧ page c pageSize vm vma k ∈ mapped)) ∧
      ∀ k, k * pageSize < min vmSize vma.length → Fails c pageSize vm vma k →
        (∀ j < k, ¬ Fails c pageSize vm vma j) →
        ret = -1 ∧ Maps c pageSize vm vma (· < k) mapped := by
  have start : 0 + pageCount vma = pageCount vma := Nat.zero_add _
  obtain ⟨ret, mapped, outcome, ends⟩ :=
    mmapLoop_outcome c vm start fun j below => absurd below (Nat.not_lt_zero j)
  refine ⟨pageCount vma + 1, ret, mapped, fun more => ?_, ?_⟩
  · rw [← ends more, Nat.zero_mul]
    rfl
  simp only [← lt_pageCount_iff]
  have begins {n : Nat} (few : n ≤ pageCount vma) : ∀ k < n, k * pageSize < vma.length := by
    intro k below
    have := (lt_pageCount_iff vma k).mp (Nat.lt_of_lt_of_le below few)
    omega
  obtain ⟨rfl, works, rfl⟩ | ⟨rfl, k, below, failed, before, rfl⟩ := outcome
  · have maps := maps_range c vm (begins (Nat.le_refl _))
    refine ⟨iff_of_true rfl works, fun _ => ⟨maps, fun size request buf i accessed => ?_⟩,
      fun k below failed => absurd failed (works k below)⟩
    obtain ⟨inside, mapped⟩ := element_in_page (monitorTrace_reach buf i accessed)
    refine ⟨i / 512, size ▸ inside, (maps.exact _).mpr ⟨i / 512, ?_, rfl⟩⟩
    rw [lt_pageCount_iff, request, size]
    exact mapped
  · have maps := maps_range c vm (begins (Nat.le_of_lt below))
    refine ⟨iff_of_false (by decide) fun works => works k below failed,
      fun zero => absurd zero (by decide), fun k' _ failed' before' => ⟨rfl, ?_⟩⟩
    have first : k' = k := by
      rcases Nat.lt_trichotomy k' k with earlier | same | later
      · exact absurd failed' (before k' earlier)
      · exact same
      · exact absurd failed (before' k later)
    rw [first]
    exact maps

end KernelModules.MP3
