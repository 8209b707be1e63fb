import KernelModules.MP3.Sampler

/-!
# The bound of the buffer

`VM_SIZE` counts bytes and `VM_ELEMENT_SIZE`, which the callback compares `offset` with, counts
elements of 8 bytes: a session fills the buffer with its 16000th sample and is stopped at its
32000th. The stores of a run stay inside the buffer exactly when no session gets that far.
-/

namespace KernelModules.MP3

/-- The bytes of an `unsigned long`. -/
def elementBytes : Nat := 8

/-- The element at index `i` lies inside the memory `vmalloc(VM_SIZE)` returned. -/
def Inside (i : Nat) : Prop := elementBytes * (i + 1) ≤ vmSize

instance (i : Nat) : Decidable (Inside i) :=
  inferInstanceAs (Decidable (elementBytes * (i + 1) ≤ vmSize))

/-- What the callback stores when it runs in `s`. -/
def callbackStores (s : State) : List (Nat × Nat) :=
  if s.bufferFilledUp then [] else stores s.offset s.collected.2.1

/-- The request takes the last entry off the list. -/
def empties (s : State) (w : Write) : Bool :=
  match w.request with
  | some (.unregister pid) => decide (s.head.map Entry.pid = [pid])
  | _ => false

/-- Kept of a run: the firings since the list was last empty, the most that any session saw,
and the indices stored to. -/
structure Sessions where
  firings : Nat
  longest : Nat
  stored : List Nat
  deriving DecidableEq, Repr

def Sessions.none : Sessions := ⟨0, 0, []⟩

def record (g : Sessions) (s : State) : Event → Sessions
  | .fire =>
    ⟨g.firings + 1, max g.longest (g.firings + 1), g.stored ++ (callbackStores s).map Prod.fst⟩
  | .write w => if empties s w then { g with firings := 0 } else g
  | _ => g

section

variable {s t : State} {g : Sessions}

/-- The memory after a firing is the memory before it with these stores made. -/
theorem workqueueCallback_vm (h : workqueueCallback s = .ok t) :
    t.vm = store s.vm (callbackStores s) := by
  rcases workqueueCallback_ok h with ⟨full, rfl⟩ | ⟨room, -, rfl⟩
  · simp [callbackStores, full, store]
  · simp [callbackStores, room, takeSample, queueDelayedWork]

theorem eraseP_eq_nil_iff {pid : Int} {head : List Entry}
    (found : head.find? (fun itr => decide (itr.pid = pid)) ≠ none) :
    head.eraseP (fun itr => decide (itr.pid = pid)) = [] ↔ head.map Entry.pid = [pid] := by
  cases head with
  | nil => simp at found
  | cons itr rest =>
    by_cases same : itr.pid = pid
    · simp [same]
    · simp [same]

/-- A request is turned away, adds the entry of a process that exists, keeps the lock for a pid
that is not listed, or removes an entry. -/
theorem mywrite_ok {w : Write} (h : mywrite s w = .ok t) :
    empties s w = false ∧ t = s ∨
    empties s w = false ∧ s.lock = false ∧ (∃ new : Entry, s.processes (toU32 new.pid) ≠ none ∧
      t = { s with head := s.head ++ [new], pending := s.head.isEmpty || s.pending }) ∨
    empties s w = false ∧ s.lock = false ∧ t = { s with lock := true } ∨
    s.lock = false ∧ ∃ rest, rest.Sublist s.head ∧ (rest = [] ↔ empties s w = true) ∧
      t = { s with
        head := rest
        offset := if empties s w then 0 else s.offset
        pending := !rest.isEmpty && s.pending } := by
  unfold mywrite at h
  unfold empties
  match request : w.request with
  | none =>
    rw [request] at h
    cases h
    exact .inl ⟨rfl, rfl⟩
  | some (.register pid) =>
    rw [request] at h
    rcases regEntry_ok h with rfl | ⟨free, alive, new, rfl, rfl⟩
    · exact .inl ⟨rfl, rfl⟩
    · exact .inr (.inl ⟨rfl, free, new, alive, rfl⟩)
  | some (.unregister pid) =>
    rw [request] at h
    obtain ⟨free, ⟨missing, rfl⟩ | ⟨found, rest, rfl, rfl⟩⟩ := unregEntry_ok h
    · have other : s.head.map Entry.pid ≠ [pid] := by
        intro last
        obtain ⟨itr, listed, same⟩ := List.map_eq_singleton_iff.mp last
        simp [getByPid, listed, same] at missing
      exact .inr (.inr (.inl ⟨decide_eq_false other, free, rfl⟩))
    · refine .inr (.inr (.inr ⟨free, s.head.eraseP fun itr => decide (itr.pid = pid),
        List.eraseP_sublist, ?_, ?_⟩))
      · rw [eraseP_eq_nil_iff found, decide_eq_true_eq]
      · simp only [eraseP_eq_nil_iff found, decide_eq_true_eq]

/-- A request leaves `BUFFER_FILLED_UP` as it is and resets `offset` when it empties the list. -/
theorem mywrite_offset {w : Write} (h : mywrite s w = .ok t) :
    t.bufferFilledUp = s.bufferFilledUp ∧
      t.offset = if empties s w then 0 else s.offset := by
  rcases mywrite_ok h with ⟨stays, rfl⟩ | ⟨stays, -, new, -, rfl⟩ | ⟨stays, -, rfl⟩ |
    ⟨-, rest, -, -, rfl⟩
  · simp [stays]
  · simp [stays]
  · simp [stays]
  · simp

/-- The counts describe the sampler: `offset` while there is room, and the indices stored to up
to the end of the buffer. -/
structure Tracks (x : State × Sessions) : Prop where
  current : x.2.firings ≤ x.2.longest
  room : x.1.bufferFilledUp = false → x.1.offset = 4 * x.2.firings ∧ x.2.longest < 32000
  full : x.1.bufferFilledUp = true → 32000 ≤ x.2.longest
  below : ∀ i ∈ x.2.stored, i ≤ 4 * x.2.longest
  reached : 16000 ≤ x.2.longest → 64000 ∈ x.2.stored

theorem nextOffset_small {offset : Nat} (small : offset < vmElementSize) :
    nextOffset offset = offset + 4 := by
  unfold vmElementSize at small
  simp only [nextOffset, Arith.c_u32]
  omega

theorem mem_stores {offset : Nat} {tmps : Sample} {i : Nat} (small : offset < vmElementSize) :
    i ∈ (stores offset tmps).map Prod.fst ↔
      offset ≤ i ∧ i < offset + 4 ∨ i = offset + 4 ∧ i < vmElementSize := by
  unfold stores
  rw [nextOffset_small small]
  split
  · simp only [List.append_nil, List.map_cons, List.map_nil, List.mem_cons, List.not_mem_nil,
      or_false]
    omega
  · simp only [List.cons_append, List.nil_append, List.map_cons, List.map_nil, List.mem_cons,
      List.not_mem_nil, or_false]
    omega

/-- A firing that finds the buffer full stores nothing, and the session that filled it was
longer than either bound. -/
theorem Tracks.ignored (tracks : Tracks (s, g)) (filled : s.bufferFilledUp = true) :
    Tracks (cancelDelayedWorkSync s, record g s .fire) := by
  have long := tracks.full filled
  have nothing : record g s .fire = ⟨g.firings + 1, max g.longest (g.firings + 1), g.stored⟩ := by
    simp [record, callbackStores, filled]
  rw [nothing]
  constructor
  · exact Nat.le_max_right _ _
  · intro unfilled
    cases filled.symm.trans unfilled
  · intro
    exact Nat.le_trans long (Nat.le_max_left _ _)
  · intro i hi
    exact Nat.le_trans (tracks.below i hi) (Nat.mul_le_mul_left 4 (Nat.le_max_left _ _))
  · intro
    exact tracks.reached (Nat.le_trans (by decide) long)

theorem Tracks.sampled (tracks : Tracks (s, g)) (unfilled : s.bufferFilledUp = false) :
    Tracks (takeSample (cancelDelayedWorkSync s), record g s .fire) := by
  obtain ⟨current, room, -, below, reached⟩ := tracks
  obtain ⟨offset, short⟩ := room unfilled
  simp only at current below reached offset short
  have small : s.offset < vmElementSize := by
    unfold vmElementSize
    omega
  have stored (i : Nat) : i ∈ (callbackStores s).map Prod.fst ↔
      s.offset ≤ i ∧ i < s.offset + 4 ∨ i = s.offset + 4 ∧ i < vmElementSize := by
    rw [callbackStores, if_neg (by simp [unfilled]), mem_stores small]
  have next : nextOffset s.offset = 4 * (g.firings + 1) := by
    rw [nextOffset_small small, offset]
    omega
  have flag : (takeSample (cancelDelayedWorkSync s)).bufferFilledUp =
      decide (32000 ≤ g.firings + 1) := by
    change (s.bufferFilledUp || decide (nextOffset s.offset ≥ vmElementSize)) = _
    rw [unfilled, next, Bool.false_or]
    unfold vmElementSize
    apply decide_eq_decide.mpr
    omega
  constructor
  · exact Nat.le_max_right _ _
  · intro more
    rw [flag, decide_eq_false_iff_not] at more
    exact ⟨next, by simp only [record]; omega⟩
  · intro filled
    rw [flag, decide_eq_true_eq] at filled
    simp only [record]
    omega
  · intro i hi
    simp only [record, List.mem_append, stored] at hi ⊢
    rcases hi with hi | hi
    · have := below i hi
      omega
    · omega
  · -- the 16000th firing of a session puts its terminator right behind the buffer
    intro far
    simp only [record, List.mem_append, stored] at far ⊢
    by_cases before : 16000 ≤ g.longest
    · exact .inl (reached before)
    · unfold vmElementSize
      omega

/-- Nothing changes but a session that may end. -/
theorem Tracks.quiet (tracks : Tracks (s, g)) (reset : Bool)
    (same : t.bufferFilledUp = s.bufferFilledUp)
    (offset : t.offset = if reset then 0 else s.offset) :
    Tracks (t, if reset then { g with firings := 0 } else g) := by
  obtain ⟨current, room, full, below, reached⟩ := tracks
  cases reset with
  | true =>
    refine ⟨Nat.zero_le _, fun unfilled => ⟨offset, ?_⟩, fun filled => ?_, below, reached⟩
    · exact (room (same ▸ unfilled)).2
    · exact full (same ▸ filled)
  | false =>
    refine ⟨current, fun unfilled => ?_, fun filled => full (same ▸ filled), below, reached⟩
    obtain ⟨before, short⟩ := room (same ▸ unfilled)
    exact ⟨offset.trans before, short⟩

theorem tracks_step {x y : State × Sessions} {e : Event} (tracks : Tracks x)
    (h : ghosted step record x e = .ok y) : Tracks y := by
  obtain ⟨s, g⟩ := x
  obtain ⟨t, g'⟩ := y
  obtain ⟨stepped, recorded⟩ := ghosted_ok h
  simp only at stepped recorded
  subst recorded
  cases e with
  | write w =>
    obtain ⟨same, offset⟩ := mywrite_offset stepped
    exact tracks.quiet _ same offset
  | fire =>
    rcases workqueueCallback_ok stepped with ⟨filled, rfl⟩ | ⟨unfilled, -, rfl⟩
    · exact tracks.ignored filled
    · exact tracks.sampled unfilled
  | tick => cases stepped; exact tracks.quiet false rfl rfl
  | fork pid task => cases stepped; exact tracks.quiet false rfl rfl
  | accrue pid task => cases stepped; exact tracks.quiet false rfl rfl
  | exit pid => cases stepped; exact tracks.quiet false rfl rfl

end

section

variable {ok : State × Sessions → Event → Prop} {vm : Nat → Nat} {jiffies : Nat}
  {processes : Nat → Option Process} {es : List Event} {x : State × Sessions}

theorem tracks_run
    (run : Run (ghosted step record) ok (State.init vm jiffies processes, .none) es x) :
    Tracks x := by
  apply run.invariant
  · exact ⟨Nat.le_refl _, fun _ => ⟨rfl, by simp [Sessions.none]⟩, by simp [State.init],
      by simp [Sessions.none], by simp [Sessions.none]⟩
  · intro x e y tracks _ stepped
    exact tracks_step tracks stepped

/-- Along any run, whatever decides which events happen, every store lies inside the buffer
exactly when no session fired more than 15999 times. -/
theorem stores_inside_iff
    (run : Run (ghosted step record) ok (State.init vm jiffies processes, .none) es x) :
    (∀ i ∈ x.2.stored, Inside i) ↔ x.2.longest ≤ 15999 := by
  have tracks := tracks_run run
  constructor
  · intro inside
    by_contra long
    have behind : Inside 64000 := inside _ (tracks.reached (by omega))
    exact absurd behind (by decide)
  · intro short i hi
    have := tracks.below i hi
    unfold Inside elementBytes vmSize
    omega

/-- Two samples of one process. -/
theorem stores_inside_iff_two_samples :
    ∃ x, Run (ghosted step record) (fun x e => Possible x.1 e)
        (State.init (fun _ => 0) 0 (fun _ => none), .none)
        [.fork 7 ⟨1, 0, 2, 3⟩, .write ⟨bytes "R 7", some ⟨0, 0, 0, 0, 0⟩⟩, .fire, .tick, .fire] x ∧
      x.2.longest = 2 ∧ ∀ i ∈ x.2.stored, Inside i := by
  refine Run.exists_of_replay (fun x => x.2.longest) (a := 2) (by decide) fun x run longest => ?_
  exact ⟨longest, (stores_inside_iff run).mpr (by omega)⟩

/-- Sampling that has begun goes on: the work stays queued, and a session gets as long as the
test on `offset` lets it. -/
theorem fires_run {start : State × Sessions}
    (run : Run (ghosted step record) (fun x e => Possible x.1 e) start es x)
    (queued : x.1.pending = true) (free : x.1.lock = false)
    (unfilled : x.1.bufferFilledUp = false) (n : Nat) (fits : x.1.offset + 4 * n < vmElementSize) :
    ∃ y, Run (ghosted step record) (fun x e => Possible x.1 e) start
        (es ++ List.replicate n .fire) y ∧
      y.1.pending = true ∧ y.1.lock = false ∧ y.1.bufferFilledUp = false ∧
      y.1.offset = x.1.offset + 4 * n ∧ y.2.firings = x.2.firings + n ∧
      y.1.head.map Entry.pid = x.1.head.map Entry.pid := by
  induction n with
  | zero =>
    rw [List.replicate_zero, List.append_nil]
    exact ⟨x, run, queued, free, unfilled, rfl, rfl, rfl⟩
  | succ n ih =>
    obtain ⟨y, reached, queued, free, unfilled, offset, firings, pids⟩ := ih (by omega)
    have small : y.1.offset < vmElementSize := by omega
    have next : nextOffset y.1.offset = x.1.offset + 4 * (n + 1) := by
      rw [nextOffset_small small, offset]
      omega
    have stepped : step y.1 .fire = .ok (takeSample (cancelDelayedWorkSync y.1)) :=
      workqueueCallback_samples (s := cancelDelayedWorkSync y.1) unfilled free
    refine ⟨(takeSample (cancelDelayedWorkSync y.1), record y.2 y.1 .fire), ?_, rfl, free, ?_,
      next, ?_, (collect_pids _ _ _).trans pids⟩
    · rw [List.replicate_succ', ← List.append_assoc]
      exact reached.next queued (by simp only [ghosted, stepped, Except.map])
    · change (y.1.bufferFilledUp || decide (nextOffset y.1.offset ≥ vmElementSize)) = false
      rw [unfilled, next, Bool.false_or, decide_eq_false_iff_not]
      omega
    · change y.2.firings + 1 = x.2.firings + (n + 1)
      omega

end

/-- A session of 16000 firings, each of them queued by the one before, stores behind the
buffer. -/
theorem stores_outside :
    ¬ ∀ (es : List Event) (x : State × Sessions),
      Run (ghosted step record) (fun x e => Possible x.1 e)
        (State.init (fun _ => 0) 0 (fun _ => none), .none) es x →
      ∀ i ∈ x.2.stored, Inside i := by
  intro inside
  have h : (replay (ghosted step record) (fun x e => Possible x.1 e)
      (State.init (fun _ => 0) 0 (fun _ => none), .none)
      [.fork 7 ⟨1, 0, 2, 3⟩, .write ⟨bytes "R 7", some ⟨0, 0, 0, 0, 0⟩⟩]).map
        (fun x => (x.1.pending, x.1.lock, x.1.bufferFilledUp, x.1.offset)) =
      some (true, false, false, 0) := by decide
  obtain ⟨x, replayed, fields⟩ := Option.map_eq_some_iff.mp h
  obtain ⟨queued, free, unfilled, offset⟩ : x.1.pending = true ∧ x.1.lock = false ∧
      x.1.bufferFilledUp = false ∧ x.1.offset = 0 := by simpa using fields
  obtain ⟨y, run, -, -, -, -, firings, -⟩ :=
    fires_run (.of_replay replayed) queued free unfilled 16000 (by rw [offset]; decide)
  have tracks := tracks_run run
  have long : 16000 ≤ y.2.longest := by
    have := tracks.current
    omega
  have behind : Inside 64000 := inside _ y run _ (tracks.reached long)
  exact absurd behind (by decide)

end KernelModules.MP3
