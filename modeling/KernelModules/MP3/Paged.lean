import KernelModules.Lib.Paging
import KernelModules.MP3.Live
import KernelModules.MP3.Mmap

/-!
# The buffer in its frames

The module stores through the pages of `vmalloc`, the monitor reads and erases through those that
`mmap_callback` has mapped for it. Both access one array, the `vm` of the model.
-/

namespace KernelModules.MP3

/-- `PAGE_SIZE` of the machine. -/
def pageSize : Nat := 4096

/-- The pages of the buffer, and the elements of a page. -/
def vmPages : Nat := vmSize / pageSize
def pageElements : Nat := pageSize / elementBytes

/-- The frames of the buffer at `vm`. -/
def frames (c : Pager) (vm k : Nat) : Nat := c.vmallocToPfn (vm + k * pageSize)

def kernelMap (c : Pager) (vm : Nat) : PageMap := fun k =>
  if frames c vm k = 0 then none else some (frames c vm k)

/-- The area of the monitor, with what has been mapped. -/
def userMap (vma : Vma pageSize) (mapped : List (Nat × Nat)) : PageMap := fun k =>
  (mapped.find? fun p => decide (p.1 = vma.vmStart + k * pageSize)).map Prod.snd

/-! ## What `mmap_callback` has mapped -/

section

variable {c : Pager} {vm : Nat} {vma : Vma pageSize} {mapped : List (Nat × Nat)}

theorem mmapLoop_more {fuel assignedSize : Nat} {acc : List (Nat × Nat)}
    {r : Int × List (Nat × Nat)} (ends : mmapLoop c pageSize vm vma fuel assignedSize acc = some r)
    (more : Nat) : mmapLoop c pageSize vm vma (fuel + more) assignedSize acc = some r := by
  induction fuel generalizing assignedSize acc with
  | zero => cases ends
  | succ fuel ih =>
    rw [Nat.succ_add]
    unfold mmapLoop at ends ⊢
    split
    · rename_i inside
      rw [if_pos inside] at ends
      simp only at ends ⊢
      split
      · rename_i absent
        rwa [if_pos absent] at ends
      · rename_i present
        rw [if_neg present] at ends
        split
        · rename_i failed
          rwa [if_pos failed] at ends
        · rename_i remapped
          rw [if_neg remapped] at ends
          exact ih ends
    · rename_i past
      rwa [if_neg past] at ends

/-- Both mappings lead to the frames of the buffer. -/
theorem mmap_backs {fuel : Nat} (requested : vma.length = npages * pageSize)
    (returned : mmapCallback c pageSize vm vma fuel = some (0, mapped)) :
    Backs (frames c vm) vmPages (kernelMap c vm) ∧
      Backs (frames c vm) vmPages (userMap vma mapped) := by
  have pages : pageCount vma = vmPages := by
    rw [pageCount, requested]
    decide
  have start : 0 + pageCount vma = pageCount vma := Nat.zero_add _
  obtain ⟨ret, mapped', outcome, ends⟩ :=
    mmapLoop_outcome c vm start fun j below => absurd below (Nat.not_lt_zero j)
  have same : some (0, mapped) = some (ret, mapped') := by
    rw [← mmapLoop_more returned (pageCount vma + 1), ← ends fuel, Nat.zero_mul, Nat.add_comm]
    rfl
  obtain ⟨rfl, rfl⟩ := Prod.mk.inj (Option.some.inj same)
  obtain ⟨-, works, rfl⟩ | ⟨impossible, -⟩ := outcome
  · rw [pages] at works ⊢
    constructor
    · intro k below
      have present : frames c vm k ≠ 0 := fun absent => works k below (.inl absent)
      rw [kernelMap, if_neg present]
    · intro k below
      have found : (List.range vmPages).find?
          ((fun p => decide (p.1 = vma.vmStart + k * pageSize)) ∘ page c pageSize vm vma) =
            some k := by
        have apart (j : Nat) :
            (page c pageSize vm vma j).1 = vma.vmStart + k * pageSize ↔ j = k := by
          unfold page pageSize
          omega
        simp only [List.find?_range_eq_some, Function.comp_apply, apart, decide_eq_true_eq,
          List.mem_range]
        refine ⟨trivial, below, fun j earlier => ?_⟩
        simp [Nat.ne_of_lt earlier]
      rw [userMap, List.find?_map, found]
      rfl
  · exact absurd impossible (by decide)

end

/-! ## The system on frames -/

/-- The stores of an action, each through the mapping of the one who makes it. -/
def Live.puts (kernel user : PageMap) (m : Live) : Live.Act → List (Put Nat)
  | .module .fire => (callbackStores m.module).map fun x => ⟨kernel, x.1, x.2⟩
  | .advance =>
    match m.reader with
    | .erases _ index => [⟨user, index, termination⟩]
    | _ => []
  | _ => []

/-- The memory beside what is kept of a run. -/
def paged (kernel user : PageMap) (g : Feed × Option (Nat × Nat → Nat)) (m : Live) (a : Live.Act) :
    Feed × Option (Nat × Nat → Nat) :=
  (feed g.1 m a, g.2.bind fun phys => KernelModules.puts pageElements phys (m.puts kernel user a))

section

variable {kernel user : PageMap}

theorem other_vm {s t : State} {e : Event} (h : MP3.step s e = .ok t) (other : e ≠ .fire) :
    t.vm = s.vm := by
  have traced : ghosted act trace (s, .empty) (.module e) =
      .ok (t, MP3.trace .empty s (.module e)) := by
    simp only [ghosted, act, h, Except.map]
  rcases act_ok traced with ⟨-, vm, -⟩ | ⟨fires, -⟩ | ⟨impossible, -⟩
  · exact vm
  · cases fires
    exact absurd rfl other
  · cases impossible

/-- The stores are what an action does to the buffer. -/
theorem puts_vm (kernel user : PageMap) {m m' : Live} {a : Live.Act}
    (h : Live.step m a = .ok m') :
    m'.module.vm = (m.puts kernel user a).foldl
      (fun array p => Function.update array p.index p.value) m.module.vm := by
  cases a with
  | module e =>
    obtain ⟨t, stepped, rfl⟩ := map_ok h
    by_cases fires : e = .fire
    · subst fires
      have stored : t.vm = store m.module.vm (callbackStores m.module) :=
        workqueueCallback_vm (s := cancelDelayedWorkSync m.module) stepped
      simp only [Live.puts, List.foldl_map]
      exact stored
    · have nothing : m.puts kernel user (.module e) = [] := by
        cases e <;> first | rfl | exact absurd rfl fires
      rw [nothing]
      exact other_vm stepped fires
  | start =>
    cases h
    rfl
  | advance =>
    cases h
    obtain ⟨s, r, out⟩ := m
    cases r with
    | erases line index =>
      simp only [Live.puts]
      split <;> rfl
    | away => rfl
    | scans index => simp only [Live.puts]; split <;> rfl
    | tests index => rfl
    | prints line index => rfl

/-- They stay within the buffer. -/
theorem puts_inside {x : Live × Feed} {a : Live.Act} (inv : Flowing x) (watched : Watched x a) :
    ∀ p ∈ x.1.puts kernel user a, (p.map = kernel ∨ p.map = user) ∧
      p.index < vmPages * pageElements := by
  obtain ⟨⟨s, r, out⟩, g, d⟩ := x
  have inside : bufdMax + 4 < vmPages * pageElements := by decide
  cases a with
  | module e =>
    by_cases fires : e = .fire
    · subst fires
      obtain ⟨-, short, -⟩ := watched
      have offset : s.offset = 4 * g.session := inv.offset
      have unfilled : s.bufferFilledUp = false := inv.unfilled
      have small : 4 * (g.session + 1) ≤ bufdMax := four_reach' short
      have room : bufdMax < vmElementSize := by decide
      intro p mem
      obtain ⟨y, stored, rfl⟩ := List.mem_map.mp mem
      refine ⟨.inl rfl, ?_⟩
      have index : y.1 ∈ (stores s.offset s.collected.2.1).map Prod.fst := by
        simp only [callbackStores, unfilled, Bool.false_eq_true, ↓reduceIte] at stored
        exact List.mem_map_of_mem stored
      rw [mem_stores (by omega)] at index
      change y.1 < vmPages * pageElements
      omega
    · have nothing : Live.puts kernel user ⟨s, r, out⟩ (.module e) = [] := by
        cases e <;> first | rfl | exact absurd rfl fires
      rw [nothing]
      exact fun p mem => absurd mem List.not_mem_nil
  | start => exact fun p mem => absurd mem List.not_mem_nil
  | advance =>
    cases r with
    | erases line index =>
      obtain ⟨rfl, left, -⟩ : index = d ∧ d < 4 * g.latest.length ∧ line.length = d % 4 + 1 :=
        inv.place
      have small : 4 * g.latest.length ≤ bufdMax := four_reach' inv.short
      intro p mem
      rw [List.mem_singleton.mp mem]
      refine ⟨.inr rfl, ?_⟩
      change index < vmPages * pageElements
      omega
    | away => exact fun p mem => absurd mem List.not_mem_nil
    | scans index => exact fun p mem => absurd mem List.not_mem_nil
    | tests index => exact fun p mem => absurd mem List.not_mem_nil
    | prints line index => exact fun p mem => absurd mem List.not_mem_nil

end

/-- The element that the monitor accesses next. -/
def Reader.element : Reader → Option Nat
  | .away => none
  | .scans index => if index < bufdMax then some index else none
  | .tests index => some index
  | .prints _ index => some index
  | .erases _ index => some index

/-- It lies within the buffer. -/
theorem Flowing.element_inside {x : Live × Feed} (inv : Flowing x) :
    ∀ i ∈ x.1.reader.element, Inside i := by
  obtain ⟨⟨s, r, out⟩, g, d⟩ := x
  have short : 4 * g.latest.length ≤ bufdMax := four_reach' inv.short
  have inside {i : Nat} (small : i ≤ bufdMax) : Inside i := by
    unfold bufdMax at small
    unfold Inside elementBytes vmSize
    omega
  intro i mem
  cases r with
  | away => cases mem
  | scans index =>
    simp only [Reader.element, Option.mem_def, Option.ite_none_right_eq_some,
      Option.some.injEq] at mem
    exact inside (by omega)
  | tests index =>
    obtain ⟨here, -, -⟩ : index = wrap d ∧ d % 4 = 0 ∧ 0 < g.latest.length := inv.place
    cases mem
    have within : d ≤ 4 * g.latest.length := inv.within
    refine inside ?_
    rw [here, wrap]
    split <;> omega
  | prints line index =>
    obtain ⟨here, left, -⟩ : index = d ∧ d < 4 * g.latest.length ∧ line.length = d % 4 := inv.place
    cases mem
    exact inside (by omega)
  | erases line index =>
    obtain ⟨here, left, -⟩ : index = d ∧ d < 4 * g.latest.length ∧ line.length = d % 4 + 1 :=
      inv.place
    cases mem
    exact inside (by omega)

/-- The frames hold the buffer. -/
def Shown (c : Pager) (vm : Nat) (x : Live × Feed × Option (Nat × Nat → Nat)) : Prop :=
  Flowing (x.1, x.2.1) ∧ ∃ phys, x.2.2 = some phys ∧
    ∀ j < vmPages * pageElements, view pageElements (frames c vm) phys j = x.1.module.vm j

theorem shown_step {c : Pager} {vm : Nat} {kernel user : PageMap}
    (distinct : ∀ j < vmPages, ∀ k < vmPages, frames c vm j = frames c vm k → j = k)
    (backs : Backs (frames c vm) vmPages kernel) (backs' : Backs (frames c vm) vmPages user)
    {x y : Live × Feed × Option (Nat × Nat → Nat)} {a : Live.Act} (shown : Shown c vm x)
    (watched : Watched (x.1, x.2.1) a)
    (h : ghosted Live.step (paged kernel user) x a = .ok y) : Shown c vm y := by
  obtain ⟨inv, phys, memory, before⟩ := shown
  obtain ⟨stepped, ghost⟩ := ghosted_ok h
  have fed : ghosted Live.step feed (x.1, x.2.1) a = .ok (y.1, y.2.1) := by
    rw [ghost]
    simp only [ghosted, stepped, Except.map, paged]
  have through : ∀ p ∈ x.1.puts kernel user a, Backs (frames c vm) vmPages p.map ∧
      p.index < vmPages * pageElements := by
    intro p mem
    obtain ⟨maps, inside⟩ := puts_inside inv watched p mem
    rcases maps with rfl | rfl
    · exact ⟨backs, inside⟩
    · exact ⟨backs', inside⟩
  obtain ⟨phys', stored, after⟩ := puts_view distinct through before
  refine ⟨flowing_step inv watched fed, phys', ?_, fun j below => ?_⟩
  · rw [ghost, paged, memory]
    exact stored
  · rw [after j below, puts_vm kernel user stepped]

/-- When `mmap_callback` has returned 0 for the area of the monitor, and no two pages of the
buffer share a frame: in every watched run, with the callback storing through the pages of the
buffer and the monitor reading and erasing through what was mapped for it, no store misses its
page, both find in every element of the buffer what the run says is there, and the element that
the monitor accesses next is one of these. -/
theorem buffer_is_shared {c : Pager} {vm fuel : Nat} {vma : Vma pageSize}
    {mapped : List (Nat × Nat)} (requested : vma.length = npages * pageSize)
    (returned : mmapCallback c pageSize vm vma fuel = some (0, mapped))
    (distinct : ∀ j < vmPages, ∀ k < vmPages, frames c vm j = frames c vm k → j = k)
    {phys : Nat × Nat → Nat} {jiffies : Nat} {processes : Nat → Option Process}
    {as : List Live.Act} {x : Live × Feed × Option (Nat × Nat → Nat)}
    (run : Run (ghosted Live.step (paged (kernelMap c vm) (userMap vma mapped)))
      (fun x a => Watched (x.1, x.2.1) a)
      (Live.init (view pageElements (frames c vm) phys) jiffies processes, .empty, some phys)
      as x) :
    ∃ phys', x.2.2 = some phys' ∧
      (∀ i, Inside i →
        load pageElements (kernelMap c vm) phys' i = some (x.1.module.vm i) ∧
        load pageElements (userMap vma mapped) phys' i = some (x.1.module.vm i)) ∧
      ∀ i ∈ x.1.reader.element, Inside i := by
  obtain ⟨backs, backs'⟩ := mmap_backs requested returned
  have shown : Shown c vm x := by
    apply run.invariant (I := Shown c vm)
    · exact ⟨flowing_init _ jiffies processes, phys, rfl, fun _ _ => rfl⟩
    · intro x a y shown watched stepped
      exact shown_step distinct backs backs' shown watched stepped
  obtain ⟨inv, phys', memory, same⟩ := shown
  refine ⟨phys', memory, fun i within => ?_, inv.element_inside⟩
  have inside : i < vmPages * pageElements := by
    unfold Inside elementBytes vmSize at within
    have total : vmPages * pageElements = 64000 := by decide
    omega
  rw [backs.load inside, backs'.load inside, same i inside]
  exact ⟨rfl, rfl⟩

/-- The area that the monitor asks for, mapped to the frames from 7 on, and one sample, the first
two fields of which have been read. -/
theorem buffer_is_shared_one_sample :
    ∃ x phys, Run (ghosted Live.step
          (paged (kernelMap ⟨fun a => a / 4096 + 7, fun _ _ => 0⟩ 0)
            (userMap ⟨0, 524288, by decide, by decide, by decide⟩
              ((List.range 125).map fun k => (k * 4096, k + 7)))))
        (fun x a => Watched (x.1, x.2.1) a)
        (Live.init (fun _ => 5) 0 (fun _ => none), .empty, some fun _ => 5)
        ([.module (.fork 7 ⟨1, 0, 2, 3⟩),
          .module (.write ⟨bytes "R 7", some ⟨0, 0, 0, 0, 0⟩⟩), .module .fire, .start] ++
          List.replicate 6 .advance) x ∧
      x.2.2 = some phys ∧
      load pageElements (userMap ⟨0, 524288, by decide, by decide, by decide⟩
        ((List.range 125).map fun k => (k * 4096, k + 7))) phys 3 = some 5 ∧
      x.1.reader.element = some 2 ∧ Inside 2 := by
  have returned : mmapCallback ⟨fun a => a / 4096 + 7, fun _ _ => 0⟩ pageSize 0
      ⟨0, 524288, by decide, by decide, by decide⟩ 126 =
        some (0, (List.range 125).map fun k => (k * 4096, k + 7)) := by
    decide +kernel
  have distinct : ∀ j < vmPages, ∀ k < vmPages,
      frames ⟨fun a => a / 4096 + 7, fun _ _ => 0⟩ 0 j =
        frames ⟨fun a => a / 4096 + 7, fun _ _ => 0⟩ 0 k → j = k := by
    intro j _ k _ same
    simp only [frames, pageSize] at same
    omega
  obtain ⟨x, run, cpu, here⟩ : ∃ x, Run (ghosted Live.step
        (paged (kernelMap ⟨fun a => a / 4096 + 7, fun _ _ => 0⟩ 0)
          (userMap ⟨0, 524288, by decide, by decide, by decide⟩
            ((List.range 125).map fun k => (k * 4096, k + 7)))))
      (fun x a => Watched (x.1, x.2.1) a)
      (Live.init (fun _ => 5) 0 (fun _ => none), .empty, some fun _ => 5)
      ([.module (.fork 7 ⟨1, 0, 2, 3⟩),
        .module (.write ⟨bytes "R 7", some ⟨0, 0, 0, 0, 0⟩⟩), .module .fire, .start] ++
        List.replicate 6 .advance) x ∧ x.1.module.vm 3 = 5 ∧ x.1.reader = .prints [0, 1] 2 := by
    refine Run.exists_of_replay (fun x => (x.1.module.vm 3, x.1.reader))
      (a := (5, .prints [0, 1] 2)) (by decide +kernel) fun x run seen => ?_
    exact Prod.mk.inj seen
  obtain ⟨phys, memory, shared, next⟩ := @buffer_is_shared _ _ _ _ _ rfl returned distinct
    (fun _ => 5) 0 (fun _ => none) _ x run
  have element : x.1.reader.element = some 2 := by
    rw [here]
    rfl
  refine ⟨x, phys, run, memory, ?_, element, next 2 element⟩
  rw [(shared 3 (by decide)).2, cpu]

end KernelModules.MP3
