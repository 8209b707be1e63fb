import Mathlib.Logic.Function.Basic
import Mathlib.Tactic.Common

/-!
# An array in pages

The elements of an array are in pages, the pages in frames of memory, and whoever accesses it
does so through a mapping of its own. Accesses through mappings that lead to the same frames are
accesses to one array.
-/

namespace KernelModules

/-- From pages to frames; a page without a frame cannot be accessed. -/
abbrev PageMap := Nat → Option Nat

section

variable {α : Type}

/-- The frame and the place in it of element `i`, with `w` elements in a page. -/
def translate (w : Nat) (m : PageMap) (i : Nat) : Option (Nat × Nat) :=
  (m (i / w)).map fun f => (f, i % w)

def load (w : Nat) (m : PageMap) (phys : Nat × Nat → α) (i : Nat) : Option α :=
  (translate w m i).map phys

/-- One store: the mapping it goes through, the element and the value. -/
structure Put (α : Type) where
  map : PageMap
  index : Nat
  value : α

def put (w : Nat) (phys : Nat × Nat → α) (p : Put α) : Option (Nat × Nat → α) :=
  (translate w p.map p.index).map fun place => Function.update phys place p.value

def puts (w : Nat) (phys : Nat × Nat → α) (l : List (Put α)) : Option (Nat × Nat → α) :=
  l.foldlM (put w) phys

/-- The array whose page `k` is in frame `frame k`. -/
def view (w : Nat) (frame : Nat → Nat) (phys : Nat × Nat → α) (i : Nat) : α :=
  phys (frame (i / w), i % w)

/-- The first `n` pages are mapped to the frames of the array. -/
def Backs (frame : Nat → Nat) (n : Nat) (m : PageMap) : Prop := ∀ k < n, m k = some (frame k)

variable {w n : Nat} {frame : Nat → Nat} {m : PageMap} {phys : Nat × Nat → α} {i j : Nat}

theorem page_lt (inside : i < n * w) : i / w < n := by
  rw [Nat.mul_comm] at inside
  exact Nat.div_lt_of_lt_mul inside

theorem Backs.translate (backs : Backs frame n m) (inside : i < n * w) :
    translate w m i = some (frame (i / w), i % w) := by
  rw [KernelModules.translate, backs _ (page_lt inside), Option.map_some]

theorem Backs.load (backs : Backs frame n m) (inside : i < n * w) (phys : Nat × Nat → α) :
    load w m phys i = some (view w frame phys i) := by
  rw [KernelModules.load, backs.translate inside, Option.map_some, view]

/-- No two elements share a place. -/
theorem place_inj (distinct : ∀ j < n, ∀ k < n, frame j = frame k → j = k) (first : i < n * w)
    (second : j < n * w) (same : (frame (i / w), i % w) = (frame (j / w), j % w)) : i = j := by
  obtain ⟨frames, places⟩ := Prod.mk.inj same
  have pages := distinct _ (page_lt first) _ (page_lt second) frames
  calc i = w * (i / w) + i % w := (Nat.div_add_mod i w).symm
    _ = w * (j / w) + j % w := by rw [pages, places]
    _ = j := Nat.div_add_mod j w

/-- A store through a mapping is a store to the array. -/
theorem put_view (distinct : ∀ j < n, ∀ k < n, frame j = frame k → j = k) (phys : Nat × Nat → α)
    {p : Put α} (backs : Backs frame n p.map) (inside : p.index < n * w) :
    ∃ phys', put w phys p = some phys' ∧ ∀ j < n * w,
      view w frame phys' j = Function.update (view w frame phys) p.index p.value j := by
  refine ⟨_, by rw [put, backs.translate inside, Option.map_some], fun j below => ?_⟩
  unfold view
  by_cases here : j = p.index
  · rw [here, Function.update_self, Function.update_self]
  · have other : (frame (j / w), j % w) ≠ (frame (p.index / w), p.index % w) := fun same =>
      here (place_inj distinct below inside same)
    rw [Function.update_of_ne here, Function.update_of_ne other]

/-- Any stores, through whichever mappings. -/
theorem puts_view (distinct : ∀ j < n, ∀ k < n, frame j = frame k → j = k) {l : List (Put α)}
    (through : ∀ p ∈ l, Backs frame n p.map ∧ p.index < n * w) {array : Nat → α}
    (before : ∀ j < n * w, view w frame phys j = array j) :
    ∃ phys', puts w phys l = some phys' ∧ ∀ j < n * w, view w frame phys' j =
      l.foldl (fun array p => Function.update array p.index p.value) array j := by
  induction l generalizing phys array with
  | nil => exact ⟨phys, rfl, before⟩
  | cons p l ih =>
    obtain ⟨backs, inside⟩ := through p List.mem_cons_self
    obtain ⟨phys₁, stored, array₁⟩ := put_view distinct phys backs inside
    have before₁ (j : Nat) (below : j < n * w) :
        view w frame phys₁ j = Function.update array p.index p.value j := by
      rw [array₁ j below]
      by_cases here : j = p.index
      · rw [here, Function.update_self, Function.update_self]
      · rw [Function.update_of_ne here, Function.update_of_ne here, before j below]
    obtain ⟨phys', rest, array'⟩ :=
      ih (fun q hq => through q (List.mem_cons_of_mem p hq)) before₁
    refine ⟨phys', ?_, array'⟩
    rw [puts, List.foldlM_cons, stored]
    exact rest

end

end KernelModules
