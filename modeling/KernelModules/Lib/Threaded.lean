import Mathlib.Data.List.Nodup
import Mathlib.Logic.Function.Basic

/-!
# Lists threaded through memory

A list runs in a circle through its nodes and a head that is not one of them, each with the
addresses of its two neighbours. Memory is partial: what is not there can neither be read nor
changed.
-/

namespace KernelModules

/-- `struct list_head`. -/
structure ListHead (α : Type) where
  next : α
  prev : α
  deriving DecidableEq, Repr

abbrev Links (α : Type) := α → Option (ListHead α)

namespace Links

section

variable {α : Type}

def next (m : Links α) (a : α) : Option α := (m a).map ListHead.next

def prev (m : Links α) (a : α) : Option α := (m a).map ListHead.prev

variable [DecidableEq α]

def setNext (m : Links α) (a b : α) : Option (Links α) :=
  (m a).map fun x => Function.update m a (some { x with next := b })

def setPrev (m : Links α) (a b : α) : Option (Links α) :=
  (m a).map fun x => Function.update m a (some { x with prev := b })

/-- `INIT_LIST_HEAD` -/
def init (m : Links α) (a : α) : Option (Links α) := do
  let m ← m.setNext a a
  m.setPrev a a

/-- `list_add_tail` -/
def addTail (m : Links α) (new head : α) : Option (Links α) := do
  let last ← m.prev head
  let m ← m.setPrev head new
  let m ← m.setNext new head
  let m ← m.setPrev new last
  m.setNext last new

/-- `__list_del_entry` -/
def unlink (m : Links α) (entry : α) : Option (Links α) := do
  let before ← m.prev entry
  let behind ← m.next entry
  let m ← m.setPrev behind before
  m.setNext before behind

/-- `list_del`, which leaves `poison` in the node. -/
def del (poison : ListHead α) (m : Links α) (entry : α) : Option (Links α) := do
  let m ← m.unlink entry
  let m ← m.setNext entry poison.next
  m.setPrev entry poison.prev

/-- `list_del_init` -/
def delInit (m : Links α) (entry : α) : Option (Links α) := do
  let m ← m.unlink entry
  m.init entry

/-! ## One store -/

/-- `m'` is `m` with other neighbours: the same nodes are there. -/
def Same (m m' : Links α) : Prop := ∀ a, m' a = none ↔ m a = none

variable {m m' : Links α} {a b c : α}

omit [DecidableEq α] in
theorem next_none (m : Links α) (a : α) : m.next a = none ↔ m a = none := Option.map_eq_none_iff

omit [DecidableEq α] in
theorem there_of_next (h : m.next a = some b) : m a ≠ none := fun gone => by
  rw [(next_none m a).mpr gone] at h
  cases h

theorem setNext_some (there : m a ≠ none) (b : α) :
    ∃ m', m.setNext a b = some m' ∧ Same m m' ∧ (∀ c ≠ a, m' c = m c) ∧
      m'.next = Function.update m.next a (some b) ∧ m'.prev = m.prev := by
  obtain ⟨x, found⟩ := Option.ne_none_iff_exists'.mp there
  refine ⟨Function.update m a (some { x with next := b }), by simp [setNext, found], ?_, ?_, ?_, ?_⟩
  · intro c
    by_cases here : c = a
    · simp [here, found]
    · rw [Function.update_of_ne here]
  · intro c other
    exact Function.update_of_ne other _ _
  · funext c
    by_cases here : c = a
    · simp [here, next]
    · simp [next, Function.update_of_ne here]
  · funext c
    by_cases here : c = a
    · simp [here, prev, found]
    · simp [prev, Function.update_of_ne here]

theorem setPrev_some (there : m a ≠ none) (b : α) :
    ∃ m', m.setPrev a b = some m' ∧ Same m m' ∧ (∀ c ≠ a, m' c = m c) ∧
      m'.next = m.next ∧ m'.prev = Function.update m.prev a (some b) := by
  obtain ⟨x, found⟩ := Option.ne_none_iff_exists'.mp there
  refine ⟨Function.update m a (some { x with prev := b }), by simp [setPrev, found], ?_, ?_, ?_, ?_⟩
  · intro c
    by_cases here : c = a
    · simp [here, found]
    · rw [Function.update_of_ne here]
  · intro c other
    exact Function.update_of_ne other _ _
  · funext c
    by_cases here : c = a
    · simp [here, next, found]
    · simp [next, Function.update_of_ne here]
  · funext c
    by_cases here : c = a
    · simp [here, prev]
    · simp [prev, Function.update_of_ne here]

end

end Links

/-! ## Threads -/

section

variable {α : Type} {m m' : Links α} {a b c x head : α} {l l' : List α}

/-- From `a` on, the nodes of `l` follow each other, and then `b`. -/
def Linked (m : Links α) : α → List α → α → Prop
  | a, [], b => m.next a = some b ∧ m.prev b = some a
  | a, x :: l, b => m.next a = some x ∧ m.prev x = some a ∧ Linked m x l b

theorem linked_append :
    Linked m a (l ++ x :: l') b ↔ Linked m a l x ∧ Linked m x l' b := by
  induction l generalizing a with
  | nil => simp only [List.nil_append, Linked, and_assoc]
  | cons y l ih => simp only [List.cons_append, Linked, ih, and_assoc]

/-- Only the neighbours of the nodes on the way count. -/
theorem Linked.congr (linked : Linked m a l b) (next : ∀ y ∈ a :: l, m'.next y = m.next y)
    (prev : ∀ y ∈ l ++ [b], m'.prev y = m.prev y) : Linked m' a l b := by
  induction l generalizing a with
  | nil =>
    exact ⟨(next a List.mem_cons_self).trans linked.1, (prev b (by simp)).trans linked.2⟩
  | cons x l ih =>
    refine ⟨(next a List.mem_cons_self).trans linked.1, (prev x (by simp)).trans linked.2.1, ?_⟩
    exact ih linked.2.2 (fun y hy => next y (List.mem_cons_of_mem a hy))
      fun y hy => prev y (List.mem_cons_of_mem x hy)

/-- The last node before the end. -/
def lastOf (a : α) : List α → α
  | [] => a
  | x :: l => lastOf x l

theorem lastOf_mem (a : α) (l : List α) : lastOf a l ∈ a :: l := by
  induction l generalizing a with
  | nil => exact List.mem_cons_self
  | cons x l ih => exact List.mem_cons_of_mem a (ih x)

theorem Linked.first (linked : Linked m a l b) : m.next a = some (l.headD b) := by
  cases l with
  | nil => exact linked.1
  | cons x l => exact linked.1

theorem Linked.last (linked : Linked m a l b) :
    m.next (lastOf a l) = some b ∧ m.prev b = some (lastOf a l) := by
  induction l generalizing a with
  | nil => exact linked
  | cons x l ih => exact ih linked.2.2

/-- The end replaced by another. -/
theorem Linked.relink (linked : Linked m a l b) (apart : (a :: l).Nodup)
    (next : ∀ y ∈ a :: l, y ≠ lastOf a l → m'.next y = m.next y)
    (prev : ∀ y ∈ l, m'.prev y = m.prev y)
    (last : m'.next (lastOf a l) = some c) (back : m'.prev c = some (lastOf a l)) :
    Linked m' a l c := by
  induction l generalizing a with
  | nil => exact ⟨last, back⟩
  | cons x l ih =>
    obtain ⟨first, apart⟩ := List.nodup_cons.mp apart
    have other : a ≠ lastOf x l := fun same => first (same ▸ lastOf_mem x l)
    refine ⟨(next a List.mem_cons_self other).trans linked.1,
      (prev x List.mem_cons_self).trans linked.2.1, ?_⟩
    exact ih linked.2.2 apart (fun y hy => next y (List.mem_cons_of_mem a hy))
      (fun y hy => prev y (List.mem_cons_of_mem x hy)) last back

theorem Linked.there (linked : Linked m a l b) : ∀ y ∈ a :: l, m y ≠ none := by
  induction l generalizing a with
  | nil =>
    intro y hy
    rw [List.mem_singleton.mp hy]
    exact Links.there_of_next linked.1
  | cons x l ih =>
    intro y hy
    rcases List.mem_cons.mp hy with rfl | later
    · exact Links.there_of_next linked.1
    · exact ih linked.2.2 y later

/-- The list `l` on `head`. -/
structure Threaded (m : Links α) (head : α) (l : List α) : Prop where
  linked : Linked m head l head
  nodup : (head :: l).Nodup

theorem Threaded.apart (t : Threaded m head l) : head ∉ l := (List.nodup_cons.mp t.nodup).1

theorem Threaded.first (t : Threaded m head l) : m.next head = some (l.headD head) :=
  t.linked.first

theorem Threaded.behind (t : Threaded m head (l ++ x :: l')) : m.next x = some (l'.headD head) :=
  (linked_append.mp t.linked).2.first

theorem Threaded.not_mem (t : Threaded m head (l ++ x :: l')) : x ∉ head :: (l ++ l') := by
  have perm : (head :: (l ++ x :: l')).Perm (x :: head :: (l ++ l')) :=
    (List.Perm.cons head List.perm_middle).trans (List.Perm.swap x head _)
  exact (List.nodup_cons.mp (perm.nodup_iff.mp t.nodup)).1

theorem Threaded.present (t : Threaded m head (l ++ x :: l')) : m x ≠ none :=
  t.linked.there x (List.mem_cons_of_mem _ (List.mem_append_right _ List.mem_cons_self))

/-- What is not on the list does not matter. -/
theorem Threaded.congr (t : Threaded m head l) (same : ∀ y ∈ head :: l, m' y = m y) :
    Threaded m' head l := by
  refine ⟨t.linked.congr (fun y hy => ?_) (fun y hy => ?_), t.nodup⟩
  · rw [Links.next, same y hy, Links.next]
  · have on : y ∈ head :: l := by
      rcases List.mem_append.mp hy with mem | mem
      · exact List.mem_cons_of_mem _ mem
      · exact List.mem_singleton.mp mem ▸ List.mem_cons_self
    rw [Links.prev, same y on, Links.prev]

variable [DecidableEq α]

theorem Threaded.addTail (t : Threaded m head l) (there : m x ≠ none) (new : x ∉ head :: l) :
    ∃ m', m.addTail x head = some m' ∧ Threaded m' head (l ++ [x]) ∧ m.Same m' := by
  have last := t.linked.last
  have on := lastOf_mem head l
  have otherHead : x ≠ head := fun same => new (same ▸ List.mem_cons_self)
  have otherLast : x ≠ lastOf head l := fun same => new (same ▸ on)
  have present := t.linked.there
  obtain ⟨m₁, set₁, same₁, -, next₁, prev₁⟩ :=
    Links.setPrev_some (present head List.mem_cons_self) x
  obtain ⟨m₂, set₂, same₂, -, next₂, prev₂⟩ :=
    Links.setNext_some (fun gone => there ((same₁ x).mp gone)) head
  obtain ⟨m₃, set₃, same₃, -, next₃, prev₃⟩ := Links.setPrev_some
    (fun gone => there ((same₁ x).mp ((same₂ x).mp gone))) (lastOf head l)
  obtain ⟨m₄, set₄, same₄, -, next₄, prev₄⟩ := Links.setNext_some
    (fun gone => present _ on ((same₁ _).mp ((same₂ _).mp ((same₃ _).mp gone)))) x
  have next (y : α) : m₄.next y = if y = lastOf head l then some x else
      if y = x then some head else m.next y := by
    rw [next₄, next₃, next₂, next₁, Function.update_apply, Function.update_apply]
  have prev (y : α) : m₄.prev y = if y = x then some (lastOf head l) else
      if y = head then some x else m.prev y := by
    rw [prev₄, prev₃, prev₂, prev₁, Function.update_apply, Function.update_apply]
  refine ⟨m₄, ?_, ⟨linked_append.mpr ⟨?_, ?_, ?_⟩, ?_⟩, ?_⟩
  · simp [Links.addTail, last.2, set₁, set₂, set₃, set₄]
  · refine t.linked.relink t.nodup (fun y hy inner => ?_) (fun y hy => ?_) ?_ ?_
    · have old : y ≠ x := fun same => new (same ▸ hy)
      rw [next, if_neg inner, if_neg old]
    · have old : y ≠ x := fun same => new (same ▸ List.mem_cons_of_mem _ hy)
      have inner : y ≠ head := fun same => t.apart (same ▸ hy)
      rw [prev, if_neg old, if_neg inner]
    · rw [next, if_pos rfl]
    · rw [prev, if_pos rfl]
  · rw [next, if_neg otherLast, if_pos rfl]
  · rw [prev, if_neg otherHead.symm, if_pos rfl]
  · rw [← List.cons_append]
    exact t.nodup.append (List.nodup_singleton x) (by simpa using new)
  · exact fun a => (same₄ a).trans ((same₃ a).trans ((same₂ a).trans (same₁ a)))

theorem Threaded.unlink (t : Threaded m head (l ++ x :: l')) :
    ∃ m', m.unlink x = some m' ∧ Threaded m' head (l ++ l') ∧ m.Same m' := by
  obtain ⟨front, back⟩ := linked_append.mp t.linked
  have nodup := t.nodup
  rw [← List.cons_append, List.nodup_append] at nodup
  obtain ⟨apart, apart', disjoint⟩ := nodup
  obtain ⟨outside, apart'⟩ := List.nodup_cons.mp apart'
  have before := front.last
  have behind := back.first
  have on := lastOf_mem head l
  have present := t.linked.there
  have rest : (head :: (l ++ l')).Nodup := by
    rw [← List.cons_append, List.nodup_append]
    exact ⟨apart, apart', fun y hy z hz => disjoint y hy z (List.mem_cons_of_mem x hz)⟩
  have onBehind : l'.headD head ∈ head :: (l ++ l') := by
    cases l' with
    | nil => exact List.mem_cons_self
    | cons z l' => simp
  have onBefore : lastOf head l ∈ head :: (l ++ l') := by
    rcases List.mem_cons.mp on with same | mem
    · rw [same]
      exact List.mem_cons_self
    · exact List.mem_cons_of_mem _ (List.mem_append_left _ mem)
  have there {y : α} (mem : y ∈ head :: (l ++ l')) : m y ≠ none := by
    apply present
    rw [← List.cons_append] at mem ⊢
    rcases List.mem_append.mp mem with early | late
    · exact List.mem_append_left _ early
    · exact List.mem_append_right _ (List.mem_cons_of_mem x late)
  obtain ⟨m₁, set₁, same₁, -, next₁, prev₁⟩ :=
    Links.setPrev_some (there onBehind) (lastOf head l)
  obtain ⟨m₂, set₂, same₂, -, next₂, prev₂⟩ := Links.setNext_some
    (fun gone => there onBefore ((same₁ _).mp gone)) (l'.headD head)
  have next (y : α) : m₂.next y = if y = lastOf head l then some (l'.headD head) else m.next y := by
    rw [next₂, next₁, Function.update_apply]
  have prev (y : α) : m₂.prev y = if y = l'.headD head then some (lastOf head l) else m.prev y := by
    rw [prev₂, prev₁, Function.update_apply]
  -- the part before `x`, which now ends where the part behind it begins
  have short : Linked m₂ head l (l'.headD head) := by
    refine front.relink apart (fun y _ inner => ?_) (fun y hy => ?_) ?_ ?_
    · rw [next, if_neg inner]
    · have inner : y ≠ l'.headD head := by
        rintro rfl
        cases l' with
        | nil => exact (List.nodup_cons.mp apart).1 hy
        | cons z l' => exact disjoint z (List.mem_cons_of_mem _ hy) z (by simp) rfl
      rw [prev, if_neg inner]
    · rw [next, if_pos rfl]
    · rw [prev, if_pos rfl]
  refine ⟨m₂, ?_, ⟨?_, rest⟩, fun a => (same₂ a).trans (same₁ a)⟩
  · simp only [Links.unlink, before.2, behind, bind, Option.bind, set₁, set₂]
  · cases l' with
    | nil =>
      rw [List.append_nil]
      exact short
    | cons z l' =>
      refine linked_append.mpr ⟨short, back.2.2.congr (fun y hy => ?_) (fun y hy => ?_)⟩
      · have outer : y ≠ lastOf head l := fun same =>
          disjoint _ on y (List.mem_cons_of_mem x hy) same.symm
        rw [next, if_neg outer]
      · have inner : y ≠ z := by
          rintro rfl
          rcases List.mem_append.mp hy with mem | mem
          · exact (List.nodup_cons.mp apart').1 mem
          · exact disjoint head List.mem_cons_self y (by simp) (List.mem_singleton.mp mem).symm
        have other : y ≠ (z :: l').headD head := inner
        rw [prev, if_neg other]

/-- Whatever is written to the node afterwards, the list is without it. -/
theorem Threaded.del (t : Threaded m head (l ++ x :: l')) (poison : ListHead α) :
    ∃ m', m.del poison x = some m' ∧ Threaded m' head (l ++ l') ∧ m.Same m' := by
  obtain ⟨m₁, gone, t₁, same₁⟩ := t.unlink
  have there₁ : m₁ x ≠ none := fun none => t.present ((same₁ x).mp none)
  obtain ⟨m₂, set₂, same₂, others₂, -⟩ := Links.setNext_some there₁ poison.next
  have there₂ : m₂ x ≠ none := fun none => there₁ ((same₂ x).mp none)
  obtain ⟨m₃, set₃, same₃, others₃, -⟩ := Links.setPrev_some there₂ poison.prev
  refine ⟨m₃, ?_, t₁.congr fun y hy => ?_, fun a => ?_⟩
  · simp only [Links.del, gone, set₂, set₃, bind, Option.bind]
  · have other : y ≠ x := fun same => t.not_mem (same ▸ hy)
    rw [others₃ y other, others₂ y other]
  · exact (same₃ a).trans ((same₂ a).trans (same₁ a))

theorem Threaded.delInit (t : Threaded m head (l ++ x :: l')) :
    ∃ m', m.delInit x = some m' ∧ Threaded m' head (l ++ l') ∧ m.Same m' := by
  obtain ⟨m₁, gone, t₁, same₁⟩ := t.unlink
  have there₁ : m₁ x ≠ none := fun none => t.present ((same₁ x).mp none)
  obtain ⟨m₂, set₂, same₂, others₂, -⟩ := Links.setNext_some there₁ x
  have there₂ : m₂ x ≠ none := fun none => there₁ ((same₂ x).mp none)
  obtain ⟨m₃, set₃, same₃, others₃, -⟩ := Links.setPrev_some there₂ x
  refine ⟨m₃, ?_, t₁.congr fun y hy => ?_, fun a => ?_⟩
  · simp only [Links.delInit, Links.init, gone, set₂, set₃, bind, Option.bind]
  · have other : y ≠ x := fun same => t.not_mem (same ▸ hy)
    rw [others₃ y other, others₂ y other]
  · exact (same₃ a).trans ((same₂ a).trans (same₁ a))

/-! ## Reading the list -/

/-- The nodes from the one behind `a` on, at most `fuel` of them. -/
def Links.walk (m : Links α) (head : α) : Nat → α → List α
  | 0, _ => []
  | fuel + 1, a =>
    match m.next a with
    | none => []
    | some b => if b = head then [] else b :: walk m head fuel b

theorem Linked.walk (linked : Linked m a l head) (apart : head ∉ l) {fuel : Nat}
    (enough : l.length ≤ fuel) : m.walk head (fuel + 1) a = l := by
  induction l generalizing a fuel with
  | nil => simp [Links.walk, linked.1]
  | cons x l ih =>
    obtain ⟨other, apart⟩ := List.ne_and_not_mem_of_not_mem_cons apart
    obtain ⟨fuel, rfl⟩ : ∃ k, fuel = k + 1 := ⟨fuel - 1, by rw [List.length_cons] at enough; omega⟩
    have rest := ih linked.2.2 apart (Nat.le_of_succ_le_succ enough)
    simp only [Links.walk] at rest ⊢
    simp only [linked.1, other.symm, ↓reduceIte, List.cons.injEq, true_and]
    exact rest

theorem Threaded.walk (t : Threaded m head l) {fuel : Nat} (enough : l.length ≤ fuel) :
    m.walk head (fuel + 1) head = l :=
  t.linked.walk t.apart enough

end

end KernelModules
