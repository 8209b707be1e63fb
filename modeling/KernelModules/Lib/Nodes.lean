import KernelModules.Lib.Threaded

/-!
# Nodes in blocks of memory

The nodes of a list are blocks of memory that begin with the links of the list and go on with
fields of type `β`. Blocks are allocated and freed. An operation has no result when it accesses
what is not there or frees what is not allocated, or when a loop of it does not end.
-/

namespace KernelModules

inductive Addr
  /-- The head of the list, which is not allocated. -/
  | head
  | block (n : Nat)
  /-- Where `list_del` points a node to. -/
  | poison
  deriving DecidableEq, Repr

/-- What an allocation returns, with anything in it. -/
structure Block (β : Type) where
  addr : Nat
  ptr : ListHead Addr
  fields : β
  deriving DecidableEq, Repr

/-- The links, the fields of the nodes, and the blocks that are allocated, of nodes and of
anything else. -/
structure Nodes (β : Type) where
  links : Links Addr
  fields : Nat → Option β
  blocks : List Nat

/-- What stops a program: a fault of its own, or memory. -/
inductive Trap (φ : Type)
  | fault (f : φ)
  /-- Memory is accessed or freed that is not allocated, or a loop over the list does not end. -/
  | memory
  deriving DecidableEq, Repr

/-- An operation on memory as a step of a program. -/
def memory {φ α : Type} (x : Option α) : Except (Trap φ) α :=
  match x with
  | some a => .ok a
  | none => .error .memory

namespace Nodes

section

variable {β γ : Type}

/-- A head on which nothing is threaded. -/
def empty : Nodes β :=
  ⟨Function.update (fun _ => none) .head (some ⟨.head, .head⟩), fun _ => none, []⟩

def kmalloc (h : Nodes β) (b : Block β) : Nodes β :=
  ⟨Function.update h.links (.block b.addr) (some b.ptr),
    Function.update h.fields b.addr (some b.fields), b.addr :: h.blocks⟩

/-- An allocation for something that is not a node. -/
def kmallocOther (h : Nodes β) (n : Nat) : Nodes β := { h with blocks := n :: h.blocks }

def kfree (h : Nodes β) (n : Nat) : Option (Nodes β) :=
  if n ∈ h.blocks then
    some ⟨Function.update h.links (.block n) none, Function.update h.fields n none,
      h.blocks.erase n⟩
  else none

def setFields (h : Nodes β) (n : Nat) (x : β) : Option (Nodes β) :=
  (h.fields n).map fun _ => { h with fields := Function.update h.fields n (some x) }

def listEmpty (h : Nodes β) : Option Bool := (h.links.next .head).map fun a => decide (a = .head)

def listAddTail (h : Nodes β) (n : Nat) : Option (Nodes β) :=
  (h.links.addTail (.block n) .head).map fun links => { h with links := links }

def listDel (h : Nodes β) (n : Nat) : Option (Nodes β) :=
  (h.links.del ⟨.poison, .poison⟩ (.block n)).map fun links => { h with links := links }

def listDelInit (h : Nodes β) (n : Nat) : Option (Nodes β) :=
  (h.links.delInit (.block n)).map fun links => { h with links := links }

/-- The loop of `list_for_each_entry_safe`: the node behind `tmp` is looked up after the body. -/
def forEachSafe (body : Nodes β → γ → Nat → Option (Nodes β × γ)) :
    Nat → Addr → Addr → Nodes β → γ → Option (Nodes β × γ)
  | 0, _, _, _, _ => none
  | fuel + 1, curr, tmp, h, g =>
    match curr with
    | .head => some (h, g)
    | .poison => none
    | .block n => do
      let (h, g) ← body h g n
      let next ← h.links.next tmp
      forEachSafe body fuel tmp next h g

/-- No list has more nodes than there are blocks. -/
def listForEachEntrySafe (body : Nodes β → γ → Nat → Option (Nodes β × γ)) (h : Nodes β) (g : γ) :
    Option (Nodes β × γ) := do
  let curr ← h.links.next .head
  let tmp ← h.links.next curr
  forEachSafe body (h.blocks.length + 1) curr tmp h g

/-- Such a loop that returns the first node it looks for, `none` when it comes back to the
head. -/
def search (p : β → Bool) (h : Nodes β) : Nat → Addr → Addr → Option (Option Nat)
  | 0, _, _ => none
  | fuel + 1, curr, tmp =>
    match curr with
    | .head => some none
    | .poison => none
    | .block n => do
      let x ← h.fields n
      if p x then some (some n)
      else do
        let next ← h.links.next tmp
        search p h fuel tmp next

def find (p : β → Bool) (h : Nodes β) : Option (Option Nat) := do
  let curr ← h.links.next .head
  let tmp ← h.links.next curr
  search p h (h.blocks.length + 1) curr tmp

/-- The nodes on the list, as one follows `next` from the head on. -/
def onList (h : Nodes β) : List Addr := h.links.walk .head (h.blocks.length + 1) .head

def fieldsAt (h : Nodes β) : Addr → Option β
  | .block n => h.fields n
  | _ => none

/-- The fields of the nodes on the list. -/
def entries (h : Nodes β) : List β := h.onList.filterMap h.fieldsAt

/-- What a loop makes of the nodes it passes, with `f` for its body: whether a node stays, with
which fields, and what is carried on. -/
def through (f : γ → Nat → β → γ × Option β) : γ → List (Nat × β) → γ × List (Nat × β)
  | g, [] => (g, [])
  | g, (n, x) :: l =>
    let (g, y) := f g n x
    let (g, l) := through f g l
    (g, (y.map fun y => (n, y)).toList ++ l)

end

end Nodes

/-! ## The invariant -/

/-- The nodes `l` are on the list and have their fields, and every block is one of them or of
`others`. -/
structure Nodes.Keeps {β : Type} (h : Nodes β) (l others : List Nat) : Prop where
  threaded : Threaded h.links .head (l.map Addr.block)
  stored : ∀ n ∈ l, h.fields n ≠ none
  blocks : h.blocks.Perm (l ++ others)
  nodup : h.blocks.Nodup

section

variable {β γ : Type} {h h' : Nodes β} {l l' others : List Nat} {n : Nat} {x : β}

/-- The fields of some nodes. -/
def Nodes.contents (h : Nodes β) (l : List Nat) : List β := l.filterMap h.fields

/-- Some nodes with their fields. -/
def Nodes.named (h : Nodes β) (l : List Nat) : List (Nat × β) :=
  l.filterMap fun n => (h.fields n).map fun x => (n, x)

theorem named_append : h.named (l ++ l') = h.named l ++ h.named l' :=
  List.filterMap_append

theorem named_cons (found : h.fields n = some x) : h.named (n :: l) = (n, x) :: h.named l := by
  apply List.filterMap_cons_some
  rw [found, Option.map_some]

theorem named_update {x : Option β} (other : n ∉ l)
    (fields : h'.fields = Function.update h.fields n x) : h'.named l = h.named l := by
  apply List.filterMap_congr
  intro a ha
  have apart : a ≠ n := fun same => other (same ▸ ha)
  rw [fields, Function.update_of_ne apart]

theorem contents_named (h : Nodes β) (l : List Nat) : h.contents l = (h.named l).map Prod.snd := by
  simp [Nodes.contents, Nodes.named, List.map_filterMap, Function.comp_def]

theorem contents_append : h.contents (l ++ l') = h.contents l ++ h.contents l' :=
  List.filterMap_append

theorem contents_cons (found : h.fields n = some x) : h.contents (n :: l) = x :: h.contents l :=
  List.filterMap_cons_some found

/-- The fields of other nodes. -/
theorem contents_update {x : Option β} (other : n ∉ l)
    (fields : h'.fields = Function.update h.fields n x) : h'.contents l = h.contents l := by
  rw [contents_named, contents_named, named_update other fields]

theorem block_mem : Addr.block n ∈ l.map Addr.block ↔ n ∈ l := by
  rw [List.mem_map]
  constructor
  · rintro ⟨a, ha, same⟩
    cases same
    exact ha
  · exact fun mem => ⟨n, mem, rfl⟩

/-- Where the list goes on. -/
def headAddr : List Nat → Addr
  | [] => .head
  | n :: _ => .block n

theorem headAddr_headD (l : List Nat) : (l.map Addr.block).headD .head = headAddr l := by
  cases l <;> rfl

namespace Nodes.Keeps

theorem empty : (Nodes.empty : Nodes β).Keeps [] [] := by
  refine ⟨⟨⟨rfl, rfl⟩, List.nodup_singleton _⟩, fun n mem => ?_, List.Perm.refl _, List.nodup_nil⟩
  exact absurd mem List.not_mem_nil

theorem reorder (keeps : h.Keeps l others) {others' : List Nat} (perm : others.Perm others') :
    h.Keeps l others' :=
  ⟨keeps.threaded, keeps.stored, keeps.blocks.trans (perm.append_left l), keeps.nodup⟩

theorem on_block (keeps : h.Keeps l others) (on : n ∈ l) : n ∈ h.blocks :=
  keeps.blocks.mem_iff.mpr (List.mem_append_left _ on)

theorem length_le (keeps : h.Keeps l others) : l.length ≤ h.blocks.length := by
  rw [keeps.blocks.length_eq, List.length_append]
  exact Nat.le_add_right _ _

theorem onList (keeps : h.Keeps l others) : h.onList = l.map Addr.block := by
  apply keeps.threaded.walk
  rw [List.length_map]
  exact keeps.length_le

theorem entries (keeps : h.Keeps l others) : h.entries = h.contents l := by
  rw [Nodes.entries, keeps.onList, List.filterMap_map]
  rfl

theorem contents_isEmpty (keeps : h.Keeps l others) : (h.contents l).isEmpty = l.isEmpty := by
  cases l with
  | nil => rfl
  | cons n l =>
    obtain ⟨x, stored⟩ := Option.ne_none_iff_exists'.mp (keeps.stored n List.mem_cons_self)
    rw [contents_cons stored]
    rfl

theorem node (keeps : h.Keeps (l ++ n :: l') others) :
    (∃ x, h.fields n = some x) ∧ n ∉ l ∧ n ∉ l' := by
  have on : n ∈ l ++ n :: l' := List.mem_append_right _ List.mem_cons_self
  have apart := (List.nodup_append.mp (keeps.blocks.nodup_iff.mp keeps.nodup)).1
  have once := (List.nodup_cons.mp (List.perm_middle.nodup_iff.mp apart)).1
  rw [List.mem_append, not_or] at once
  exact ⟨Option.ne_none_iff_exists'.mp (keeps.stored n on), once⟩

theorem first (keeps : h.Keeps l others) : h.links.next .head = some (headAddr l) := by
  rw [keeps.threaded.first, headAddr_headD]

theorem listEmpty (keeps : h.Keeps l others) : h.listEmpty = some l.isEmpty := by
  rw [Nodes.listEmpty, keeps.first]
  cases l <;> simp [headAddr]

theorem behind (keeps : h.Keeps (l ++ n :: l') others) :
    h.links.next (.block n) = some (headAddr l') := by
  have threaded := keeps.threaded
  rw [List.map_append, List.map_cons] at threaded
  rw [threaded.behind, headAddr_headD]

/-! ## Operations -/

/-- The links of a block that is not on the list do not matter. -/
theorem threaded_update (keeps : h.Keeps l others) (away : n ∉ l) (x : Option (ListHead Addr)) :
    Threaded (Function.update h.links (.block n) x) .head (l.map Addr.block) := by
  refine keeps.threaded.congr fun y hy => Function.update_of_ne ?_ _ _
  rintro rfl
  rw [List.mem_cons, block_mem] at hy
  simp [away] at hy

/-- A block that is allocated. -/
theorem kmalloc (keeps : h.Keeps l others) {b : Block β} (fresh : b.addr ∉ h.blocks) :
    (h.kmalloc b).Keeps l (b.addr :: others) ∧ (h.kmalloc b).named l = h.named l := by
  have new : b.addr ∉ l := fun on => fresh (keeps.on_block on)
  refine ⟨⟨keeps.threaded_update new _, fun n on => ?_, ?_,
    List.nodup_cons.mpr ⟨fresh, keeps.nodup⟩⟩, named_update new rfl⟩
  · have other : n ≠ b.addr := fun same => new (same ▸ on)
    change Function.update h.fields b.addr _ n ≠ none
    rw [Function.update_of_ne other]
    exact keeps.stored n on
  · exact (keeps.blocks.cons b.addr).trans List.perm_middle.symm

/-- A block that is allocated and set up. -/
theorem alloc (keeps : h.Keeps l others) {b : Block β} (fresh : b.addr ∉ h.blocks) (x : β) :
    ∃ h', (h.kmalloc b).setFields b.addr x = some h' ∧ h'.Keeps l (b.addr :: others) ∧
      h'.fields b.addr = some x ∧ h'.links (.block b.addr) ≠ none ∧
      h'.contents l = h.contents l := by
  have new : b.addr ∉ l := fun on => fresh (keeps.on_block on)
  obtain ⟨keeps', -⟩ := keeps.kmalloc (b := ⟨b.addr, b.ptr, x⟩) fresh
  refine ⟨h.kmalloc ⟨b.addr, b.ptr, x⟩, ?_, keeps', Function.update_self _ _ _, ?_,
    contents_update new rfl⟩
  · simp [Nodes.kmalloc, Nodes.setFields]
  · simp [Nodes.kmalloc]

/-- A block that is put on the list. -/
theorem addTail (keeps : h.Keeps l (n :: others)) (stored : h.fields n = some x)
    (there : h.links (.block n) ≠ none) :
    ∃ h', h.listAddTail n = some h' ∧ h'.Keeps (l ++ [n]) others ∧
      h'.contents (l ++ [n]) = h.contents l ++ [x] ∧ h'.fields = h.fields := by
  have apart := keeps.blocks.nodup_iff.mp keeps.nodup
  have new : n ∉ l := fun on =>
    (List.nodup_append.mp apart).2.2 n on n List.mem_cons_self rfl
  have away : Addr.block n ∉ Addr.head :: l.map Addr.block := by
    rw [List.mem_cons, block_mem]
    simp [new]
  obtain ⟨links, added, threaded, -⟩ := keeps.threaded.addTail there away
  refine ⟨{ h with links := links }, by simp only [Nodes.listAddTail, added, Option.map],
    ⟨?_, fun m on => ?_, ?_, keeps.nodup⟩, ?_, rfl⟩
  · rw [List.map_append]
    exact threaded
  · rcases List.mem_append.mp on with old | last
    · exact keeps.stored m old
    · rw [List.mem_singleton.mp last]
      exact fun none => Option.some_ne_none x (stored.symm.trans none)
  · rw [List.append_assoc]
    exact keeps.blocks
  · have same : Nodes.contents { h with links := links } l = h.contents l := rfl
    rw [contents_append, same]
    exact congrArg (h.contents l ++ ·) (contents_cons (h := h) (l := []) stored)

/-- A block that is allocated and not a node. -/
theorem other (keeps : h.Keeps l others) (fresh : n ∉ h.blocks) :
    (h.kmallocOther n).Keeps l (n :: others) :=
  ⟨keeps.threaded, keeps.stored, (keeps.blocks.cons n).trans List.perm_middle.symm,
    List.nodup_cons.mpr ⟨fresh, keeps.nodup⟩⟩

/-- Fields that are changed. -/
theorem set (keeps : h.Keeps (l ++ n :: l') others) (x : β) :
    ∃ h', h.setFields n x = some h' ∧ h'.Keeps (l ++ n :: l') others ∧
      h'.fields = Function.update h.fields n (some x) ∧ h'.blocks = h.blocks := by
  obtain ⟨⟨old, stored⟩, -⟩ := keeps.node
  refine ⟨{ h with fields := Function.update h.fields n (some x) },
    by simp only [Nodes.setFields, stored, Option.map],
    ⟨keeps.threaded, fun a on => ?_, keeps.blocks, keeps.nodup⟩, rfl, rfl⟩
  change Function.update h.fields n _ a ≠ none
  by_cases here : a = n
  · simp [here]
  · rw [Function.update_of_ne here]
    exact keeps.stored a on

/-- A node that is freed once it is off the list. -/
theorem freed (keeps : h.Keeps (l ++ n :: l') others) {links : Links Addr}
    (threaded : Threaded links .head ((l ++ l').map Addr.block)) :
    ∃ h', Nodes.kfree { h with links := links } n = some h' ∧ h'.Keeps (l ++ l') others ∧
      h'.fields = Function.update h.fields n none ∧ h'.blocks = h.blocks.erase n := by
  have on : n ∈ l ++ n :: l' := List.mem_append_right _ List.mem_cons_self
  obtain ⟨-, before, behind⟩ := keeps.node
  refine ⟨_, if_pos (keeps.on_block on), ⟨?_, fun a mem => ?_, ?_, keeps.nodup.erase n⟩, rfl,
    rfl⟩
  · refine threaded.congr fun y hy => Function.update_of_ne ?_ _ _
    rintro rfl
    rw [List.mem_cons, block_mem] at hy
    simp [before, behind] at hy
  · have here : a ≠ n := by
      rintro rfl
      simp [before, behind] at mem
    simp only [Function.update_of_ne here]
    apply keeps.stored
    rcases List.mem_append.mp mem with early | late
    · exact List.mem_append_left _ early
    · exact List.mem_append_right _ (List.mem_cons_of_mem n late)
  · have front : (l ++ n :: l' ++ others).Perm (n :: (l ++ l' ++ others)) := by
      rw [List.append_assoc, List.cons_append, List.append_assoc]
      exact List.perm_middle
    have erased := (keeps.blocks.trans front).erase n
    rwa [List.erase_cons_head] at erased

theorem del (keeps : h.Keeps (l ++ n :: l') others) :
    ∃ u h', h.listDel n = some u ∧ u.listEmpty = some (l ++ l').isEmpty ∧ u.kfree n = some h' ∧
      h'.Keeps (l ++ l') others ∧ h'.fields = Function.update h.fields n none ∧
      h'.blocks = h.blocks.erase n := by
  have threaded := keeps.threaded
  rw [List.map_append, List.map_cons] at threaded
  obtain ⟨links, deleted, threaded', -⟩ := threaded.del ⟨.poison, .poison⟩
  rw [← List.map_append] at threaded'
  obtain ⟨h', freed, kept⟩ := keeps.freed threaded'
  refine ⟨_, h', by simp only [Nodes.listDel, deleted, Option.map], ?_, freed, kept⟩
  rw [Nodes.listEmpty, threaded'.first, headAddr_headD]
  cases l ++ l' <;> simp [headAddr]

theorem delInit (keeps : h.Keeps (l ++ n :: l') others) :
    ∃ u h', h.listDelInit n = some u ∧ u.kfree n = some h' ∧ h'.Keeps (l ++ l') others := by
  have threaded := keeps.threaded
  rw [List.map_append, List.map_cons] at threaded
  obtain ⟨links, deleted, threaded', -⟩ := threaded.delInit
  rw [← List.map_append] at threaded'
  obtain ⟨h', freed, keeps', -⟩ := keeps.freed threaded'
  exact ⟨_, h', by simp only [Nodes.listDelInit, deleted, Option.map], freed, keeps'⟩

/-- A block that is not a node is freed. -/
theorem free (keeps : h.Keeps l (n :: others)) :
    ∃ h', h.kfree n = some h' ∧ h'.Keeps l others ∧ h'.contents l = h.contents l := by
  have split : h.blocks.Perm (n :: (l ++ others)) := keeps.blocks.trans List.perm_middle
  have on : n ∈ h.blocks := split.mem_iff.mpr List.mem_cons_self
  have away : n ∉ l := fun mem =>
    (List.nodup_cons.mp (split.nodup_iff.mp keeps.nodup)).1 (List.mem_append_left _ mem)
  refine ⟨_, if_pos on, ⟨keeps.threaded_update away _, fun a mem => ?_, ?_, keeps.nodup.erase n⟩,
    ?_⟩
  · have other : a ≠ n := fun same => away (same ▸ mem)
    simp only [Function.update_of_ne other]
    exact keeps.stored a mem
  · have erased := split.erase n
    rwa [List.erase_cons_head] at erased
  · exact contents_update away rfl

/-! ## Loops -/

/-- What the body of a loop does with a node: it keeps it with other fields, or takes it off the
list and frees it. -/
def Does (body : Nodes β → γ → Nat → Option (Nodes β × γ)) (f : γ → Nat → β → γ × Option β) :
    Prop :=
  ∀ {h : Nodes β} {l l' others : List Nat} {n : Nat} {x : β} (g : γ),
    h.Keeps (l ++ n :: l') others → h.fields n = some x →
    ∃ h', body h g n = some (h', (f g n x).1) ∧
      h'.Keeps (l ++ (if (f g n x).2.isSome then n :: l' else l')) others ∧
      h'.fields = Function.update h.fields n (f g n x).2

variable {body : Nodes β → γ → Nat → Option (Nodes β × γ)} {f : γ → Nat → β → γ × Option β}

/-- What the loop reads from `tmp` behind a node. -/
theorem next (keeps : h.Keeps (l ++ l') others) :
    ∃ next, h.links.next (headAddr l') = some next ∧ (l' ≠ [] → next = headAddr l'.tail) := by
  cases l' with
  | nil => exact ⟨_, keeps.first, fun some => absurd rfl some⟩
  | cons a l' => exact ⟨_, keeps.behind, fun _ => rfl⟩

/-- From node to node the loop does to the list what its body does to one of them. `l` is what
it has gone through and left. -/
theorem forEachSafe (does : Does body f) (keeps : h.Keeps (l ++ l') others) {fuel : Nat}
    {tmp : Addr} (behind : l' ≠ [] → tmp = headAddr l'.tail) (enough : l'.length < fuel) (g : γ) :
    ∃ h' rest, Nodes.forEachSafe body fuel (headAddr l') tmp h g =
        some (h', (Nodes.through f g (h.named l')).1) ∧
      h'.Keeps (l ++ rest) others ∧
      h'.named (l ++ rest) = h.named l ++ (Nodes.through f g (h.named l')).2 := by
  induction l' generalizing h l fuel tmp g with
  | nil =>
    obtain ⟨fuel, rfl⟩ : ∃ k, fuel = k + 1 := ⟨fuel - 1, by omega⟩
    exact ⟨h, [], rfl, keeps, named_append⟩
  | cons n l' ih =>
    obtain ⟨fuel, rfl⟩ : ∃ k, fuel = k + 1 := ⟨fuel - 1, by omega⟩
    have enough : l'.length < fuel := by
      rw [List.length_cons] at enough
      omega
    have behind : tmp = headAddr l' := behind (List.cons_ne_nil _ _)
    obtain ⟨⟨x, stored⟩, before, after⟩ := keeps.node
    obtain ⟨u, done, keeps', fields⟩ := does g keeps stored
    have old : u.named l = h.named l := named_update before fields
    have later : u.named l' = h.named l' := named_update after fields
    -- the node, if it stays, is the last of those the loop has gone through
    obtain ⟨m, keeps₁, passed⟩ : ∃ m, u.Keeps (l ++ m ++ l') others ∧
        u.named (l ++ m) = h.named l ++ ((f g n x).2.map fun y => (n, y)).toList := by
      cases kept : (f g n x).2 with
      | none =>
        rw [kept] at keeps'
        refine ⟨[], ?_, ?_⟩
        · rw [List.append_nil]
          exact keeps'
        · rw [List.append_nil, old, Option.map_none, Option.toList_none, List.append_nil]
      | some y =>
        rw [kept] at keeps' fields
        refine ⟨[n], ?_, ?_⟩
        · rw [List.append_assoc]
          exact keeps'
        · have here : u.named [n] = [(n, y)] := by
            simp [Nodes.named, fields]
          rw [named_append, old, here, Option.map_some, Option.toList_some]
    obtain ⟨next, read, behind'⟩ := keeps₁.next
    obtain ⟨h', rest, looped, keeps₂, list⟩ := ih keeps₁ behind' enough (f g n x).1
    rw [List.append_assoc] at keeps₂ list
    rw [named_cons stored]
    refine ⟨h', m ++ rest, ?_, keeps₂, ?_⟩
    · have here : headAddr (n :: l') = .block n := rfl
      rw [here, behind]
      simp only [Nodes.forEachSafe, done, read, bind, Option.bind, Nodes.through]
      rw [looped, later]
    · rw [list, passed, later, List.append_assoc]
      rfl

/-- How the loops start. -/
theorem second (keeps : h.Keeps l others) :
    ∃ tmp, h.links.next (headAddr l) = some tmp ∧ (l ≠ [] → tmp = headAddr l.tail) :=
  Nodes.Keeps.next (l := []) keeps

theorem listForEachEntrySafe (does : Does body f) (keeps : h.Keeps l others) (g : γ) :
    ∃ h' rest, h.listForEachEntrySafe body g =
        some (h', (Nodes.through f g (h.named l)).1) ∧
      h'.Keeps rest others ∧ h'.named rest = (Nodes.through f g (h.named l)).2 := by
  obtain ⟨tmp, second, behind⟩ := keeps.second
  have start : h.Keeps ([] ++ l) others := keeps
  obtain ⟨h', rest, looped, keeps', list⟩ :=
    start.forEachSafe does behind (Nat.lt_succ_of_le keeps.length_le) g
  refine ⟨h', rest, ?_, keeps', list⟩
  simp only [Nodes.listForEachEntrySafe, keeps.first, second, bind, Option.bind]
  exact looped

/-- A loop whose body only reads is a fold over the nodes. -/
theorem forEachSafe_reads {f : γ → Nat → β → γ}
    (reads : ∀ g n x, h.fields n = some x → body h g n = some (h, f g n x))
    (keeps : h.Keeps (l ++ l') others) {fuel : Nat} {tmp : Addr}
    (behind : l' ≠ [] → tmp = headAddr l'.tail) (enough : l'.length < fuel) (g : γ) :
    Nodes.forEachSafe body fuel (headAddr l') tmp h g =
      some (h, (h.named l').foldl (fun g p => f g p.1 p.2) g) := by
  induction l' generalizing l fuel tmp g with
  | nil =>
    obtain ⟨fuel, rfl⟩ : ∃ k, fuel = k + 1 := ⟨fuel - 1, by omega⟩
    rfl
  | cons n l' ih =>
    obtain ⟨fuel, rfl⟩ : ∃ k, fuel = k + 1 := ⟨fuel - 1, by omega⟩
    obtain ⟨⟨x, stored⟩, -⟩ := keeps.node
    have rest : h.Keeps (l ++ [n] ++ l') others := by
      rw [List.append_assoc]
      exact keeps
    have behind : tmp = headAddr l' := behind (List.cons_ne_nil _ _)
    obtain ⟨next, read, behind'⟩ := rest.next
    have here : headAddr (n :: l') = .block n := rfl
    rw [here, behind, named_cons stored, List.foldl_cons]
    simp only [Nodes.forEachSafe, reads g n x stored, read, bind, Option.bind]
    exact ih rest behind' (Nat.lt_of_succ_lt_succ enough) _

theorem listForEachEntrySafe_reads {f : γ → Nat → β → γ}
    (reads : ∀ g n x, h.fields n = some x → body h g n = some (h, f g n x))
    (keeps : h.Keeps l others) (g : γ) :
    h.listForEachEntrySafe body g = some (h, (h.named l).foldl (fun g p => f g p.1 p.2) g) := by
  obtain ⟨tmp, second, behind⟩ := keeps.second
  have start : h.Keeps ([] ++ l) others := keeps
  simp only [Nodes.listForEachEntrySafe, keeps.first, second, bind, Option.bind]
  exact start.forEachSafe_reads reads behind (Nat.lt_succ_of_le keeps.length_le) g

theorem search (keeps : h.Keeps (l ++ l') others) (p : β → Bool) {fuel : Nat} {tmp : Addr}
    (behind : l' ≠ [] → tmp = headAddr l'.tail) (enough : l'.length < fuel) :
    h.search p fuel (headAddr l') tmp = some (l'.find? fun n => (h.fields n).any p) := by
  induction l' generalizing l fuel tmp with
  | nil =>
    obtain ⟨fuel, rfl⟩ : ∃ k, fuel = k + 1 := ⟨fuel - 1, by omega⟩
    rfl
  | cons n l' ih =>
    obtain ⟨fuel, rfl⟩ : ∃ k, fuel = k + 1 := ⟨fuel - 1, by omega⟩
    obtain ⟨⟨x, stored⟩, -⟩ := keeps.node
    have rest : h.Keeps (l ++ [n] ++ l') others := by
      rw [List.append_assoc]
      exact keeps
    have behind : tmp = headAddr l' := behind (List.cons_ne_nil _ _)
    obtain ⟨next, read, behind'⟩ := rest.next
    have later := ih rest behind' (Nat.lt_of_succ_lt_succ enough)
    have here : headAddr (n :: l') = .block n := rfl
    rw [here, behind]
    simp only [Nodes.search, stored, bind, Option.bind, read, later]
    cases found : p x <;> simp [stored, found]

theorem find (keeps : h.Keeps l others) (p : β → Bool) :
    h.find p = some (l.find? fun n => (h.fields n).any p) := by
  obtain ⟨tmp, second, behind⟩ := keeps.second
  have start : h.Keeps ([] ++ l) others := keeps
  simp only [Nodes.find, keeps.first, second, bind, Option.bind]
  exact start.search p behind (Nat.lt_succ_of_le keeps.length_le)

end Nodes.Keeps

/-- The first node with fields of `p`, and the first fields of `p`. -/
theorem contents_find (p : β → Bool) (stored : ∀ n ∈ l, h.fields n ≠ none) :
    (l.find? (fun n => (h.fields n).any p) = none ∧ (h.contents l).find? p = none) ∨
    ∃ before n behind, l = before ++ n :: behind ∧
      l.find? (fun n => (h.fields n).any p) = some n ∧ (h.contents l).find? p ≠ none ∧
      (h.contents l).eraseP p = h.contents (before ++ behind) := by
  induction l with
  | nil => exact .inl ⟨rfl, rfl⟩
  | cons n l ih =>
    obtain ⟨x, found⟩ := Option.ne_none_iff_exists'.mp (stored n List.mem_cons_self)
    rw [contents_cons found]
    cases meant : p x with
    | true =>
      refine .inr ⟨[], n, l, rfl, ?_, ?_, ?_⟩
      · simp [found, meant]
      · simp [meant]
      · simp [meant]
    | false =>
      rcases ih fun m hm => stored m (List.mem_cons_of_mem n hm) with
        ⟨none, none'⟩ | ⟨before, m, behind, rfl, first, some, erased⟩
      · exact .inl ⟨by simp [found, meant, none], by simp [meant, none']⟩
      · refine .inr ⟨n :: before, m, behind, rfl, ?_, ?_, ?_⟩
        · simp only [List.find?_cons, found, Option.any_some, meant]
          exact first
        · simpa [meant] using some
        · rw [List.eraseP_cons_of_neg (by simp [meant]), erased, List.cons_append,
            contents_cons found]

theorem Nodes.Keeps.find_entry (keeps : h.Keeps l others) (p : β → Bool) :
    (h.find p = some none ∧ h.entries.find? p = none) ∨
    ∃ before n behind, l = before ++ n :: behind ∧ h.find p = some (some n) ∧
      h.entries.find? p ≠ none ∧ h.entries.eraseP p = h.contents (before ++ behind) := by
  rw [keeps.find, keeps.entries, Option.some_inj]
  rcases contents_find p keeps.stored with ⟨none, none'⟩ | ⟨before, n, behind, split, first, rest⟩
  · exact .inl ⟨none, none'⟩
  · exact .inr ⟨before, n, behind, split, congrArg some first, rest⟩

end

end KernelModules
