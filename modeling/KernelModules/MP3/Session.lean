import KernelModules.Lib.Memory
import KernelModules.MP3.Bound
import KernelModules.MP3.Lock

/-!
# Sessions

A session lasts from the first registration to the unregistration of the last entry. The work
is queued while one is on and there is room, `offset` counts its samples and the buffer holds
them. `BUFFER_FILLED_UP` is the one part of the sampler that outlives a session.
-/

namespace KernelModules.MP3

/-- The elements of the buffer that hold a sample. -/
def Sample.fields (x : Sample) : List Nat := [x.jiffies, x.minor, x.major, x.cpu]

@[simp] theorem Sample.fields_length (x : Sample) : x.fields.length = 4 := rfl

theorem fields_length (l : List Sample) : (l.flatMap Sample.fields).length = 4 * l.length := by
  induction l with
  | nil => rfl
  | cons x l ih =>
    rw [List.flatMap_cons, List.length_append, ih, Sample.fields_length, List.length_cons]
    omega

/-- Kept of a run: the samples recorded, all of them and those since the list was last empty. -/
structure Log where
  recorded : List Sample
  session : List Sample
  deriving DecidableEq, Repr

def Log.empty : Log := ⟨[], []⟩

/-- The sample a callback that runs in `s` records. -/
def callbackSample (s : State) : List Sample :=
  if s.bufferFilledUp then [] else [s.collected.2.1]

def log (g : Log) (s : State) : Event → Log
  | .fire => ⟨g.recorded ++ callbackSample s, g.session ++ callbackSample s⟩
  | .write w => if empties s w then { g with session := [] } else g
  | _ => g

/-! ## What a sample leaves in the buffer -/

section

variable {vm : Nat → Nat} {offset : Nat} {tmps : Sample}

theorem store_laid : Laid (store vm (stores offset tmps)) offset tmps.fields := by
  unfold stores
  split <;> simp [store, Sample.fields]

theorem store_below {i : Nat} (below : i < offset) :
    store vm (stores offset tmps) i = vm i := by
  have first : i ≠ offset := by omega
  have second : i ≠ offset + 1 := by omega
  have third : i ≠ offset + 2 := by omega
  have fourth : i ≠ offset + 3 := by omega
  have behind : i ≠ offset + 4 := by omega
  unfold stores
  split <;> simp [store, first, second, third, fourth, behind]

theorem store_terminated (room : nextOffset offset < vmElementSize) :
    store vm (stores offset tmps) (offset + 4) = termination := by
  have short : ¬ nextOffset offset ≥ vmElementSize := by omega
  simp [stores, store, short]

/-- The samples before stay where they are and the new one follows them. -/
theorem store_session {l : List Sample} (laid : Laid vm 0 (l.flatMap Sample.fields))
    (next : offset = 4 * l.length) :
    Laid (store vm (stores offset tmps)) 0 ((l ++ [tmps]).flatMap Sample.fields) := by
  rw [List.flatMap_append, laid_append, fields_length, Nat.zero_add, ← next,
    List.flatMap_singleton]
  refine ⟨laid.congr ?_, store_laid⟩
  intro j _ below
  rw [Nat.zero_add, fields_length, ← next] at below
  exact store_below below

end

/-! ## The invariant -/

theorem vmElementSize_pos : 0 < vmElementSize := by decide

/-- What holds between the operations: the state of the work, and the samples of the session in
the buffer. -/
structure Sampling (x : State × Log) : Prop where
  idle : x.1.head = [] → x.1.pending = false
  ended : x.1.head = [] → x.2.session = []
  armed : x.1.head ≠ [] → x.1.bufferFilledUp = false → x.1.pending = true
  offset : x.1.offset = 4 * x.2.session.length
  room : x.1.bufferFilledUp = false → x.1.offset < vmElementSize
  laid : Laid x.1.vm 0 (x.2.session.flatMap Sample.fields)
  terminated : x.2.session ≠ [] → x.1.offset < vmElementSize → x.1.vm x.1.offset = termination

section

variable {s t : State} {g : Log}

theorem Sampling.written {w : Write} (inv : Sampling (s, g)) (h : mywrite s w = .ok t) :
    Sampling (t, log g s (.write w)) := by
  obtain ⟨idle, ended, armed, offset, room, laid, terminated⟩ := inv
  simp only at idle ended armed offset room laid terminated
  rcases mywrite_ok h with ⟨stays, rfl⟩ | ⟨stays, -, new, -, rfl⟩ | ⟨stays, -, rfl⟩ |
    ⟨-, rest, sub, last, rfl⟩
  · simp only [log, stays, Bool.false_eq_true, ↓reduceIte]
    exact ⟨idle, ended, armed, offset, room, laid, terminated⟩
  · simp only [log, stays, Bool.false_eq_true, ↓reduceIte]
    refine ⟨by simp, by simp, fun _ unfilled => ?_, offset, room, laid, terminated⟩
    cases listed : s.head with
    | nil => rfl
    | cons itr l => simp [armed (by simp [listed]) unfilled]
  · simp only [log, stays, Bool.false_eq_true, ↓reduceIte]
    exact ⟨idle, ended, armed, offset, room, laid, terminated⟩
  · have queued : rest ≠ [] → s.bufferFilledUp = false → s.pending = true := by
      intro more
      apply armed
      intro none
      rw [none] at sub
      exact more (List.sublist_nil.mp sub)
    cases ended : empties s w with
    | false =>
      simp only [log, ended, Bool.false_eq_true, ↓reduceIte]
      have more : rest ≠ [] := fun none => absurd (last.mp none) (by simp [ended])
      refine ⟨fun none => absurd none more, fun none => absurd none more, fun _ unfilled => ?_,
        offset, room, laid, terminated⟩
      simp [queued more unfilled, more]
    | true =>
      simp only [log, ended, ↓reduceIte]
      have none := last.mpr ended
      refine ⟨by simp [none], fun _ => rfl, fun more => absurd none more, rfl,
        fun _ => vmElementSize_pos, laid_nil _ _, fun more => absurd rfl more⟩

/-- A firing that finds the buffer full leaves the work unqueued. -/
theorem Sampling.ignored (inv : Sampling (s, g)) (filled : s.bufferFilledUp = true) :
    Sampling (cancelDelayedWorkSync s, log g s .fire) := by
  have nothing : log g s .fire = g := by simp [log, callbackSample, filled]
  rw [nothing]
  refine ⟨fun _ => rfl, inv.ended, fun _ unfilled => ?_, inv.offset, inv.room, inv.laid,
    inv.terminated⟩
  cases filled.symm.trans unfilled

theorem Sampling.sampled (inv : Sampling (s, g)) (unfilled : s.bufferFilledUp = false)
    (queued : s.pending = true) :
    Sampling (takeSample (cancelDelayedWorkSync s), log g s .fire) := by
  obtain ⟨idle, -, -, offset, room, laid, -⟩ := inv
  simp only at idle offset room laid
  have next : nextOffset s.offset = s.offset + 4 := nextOffset_small (room unfilled)
  have recorded : log g s .fire =
      ⟨g.recorded ++ [s.collected.2.1], g.session ++ [s.collected.2.1]⟩ := by
    simp [log, callbackSample, unfilled]
  have entries : (takeSample (cancelDelayedWorkSync s)).head.map Entry.pid =
      s.head.map Entry.pid := collect_pids _ _ _
  -- a firing needs queued work, so the list it goes through is not empty
  have busy : (takeSample (cancelDelayedWorkSync s)).head ≠ [] := by
    intro none
    rw [none, List.map_nil, eq_comm, List.map_eq_nil_iff] at entries
    rw [idle entries] at queued
    cases queued
  rw [recorded]
  constructor
  · exact fun none => absurd none busy
  · exact fun none => absurd none busy
  · intro _ _
    rfl
  · change nextOffset s.offset = _
    rw [next, offset, List.length_append, List.length_singleton]
    omega
  · intro more
    change (s.bufferFilledUp || decide (nextOffset s.offset ≥ vmElementSize)) = false at more
    change nextOffset s.offset < _
    simp only [unfilled, Bool.false_or, decide_eq_false_iff_not] at more
    omega
  · exact store_session laid offset
  · intro _ short
    change nextOffset s.offset < _ at short
    change store s.vm _ (nextOffset s.offset) = _
    rw [next]
    exact store_terminated short

/-- The work, `offset` and the buffer are untouched by whatever else happens. -/
theorem Sampling.other (inv : Sampling (s, g)) (head : t.head = s.head)
    (pending : t.pending = s.pending) (filled : t.bufferFilledUp = s.bufferFilledUp)
    (offset : t.offset = s.offset) (vm : t.vm = s.vm) : Sampling (t, g) := by
  obtain ⟨idle, ended, armed, count, room, laid, terminated⟩ := inv
  constructor
  all_goals simp only [head, pending, filled, offset, vm]
  all_goals assumption

theorem sampling_step {x y : State × Log} {e : Event} (inv : Sampling x) (possible : Possible x.1 e)
    (h : ghosted step log x e = .ok y) : Sampling y := by
  obtain ⟨s, g⟩ := x
  obtain ⟨t, g'⟩ := y
  obtain ⟨stepped, recorded⟩ := ghosted_ok h
  simp only at stepped recorded possible
  subst recorded
  cases e with
  | write w => exact inv.written stepped
  | fire =>
    rcases workqueueCallback_ok stepped with ⟨filled, rfl⟩ | ⟨unfilled, -, rfl⟩
    · exact inv.ignored filled
    · exact inv.sampled unfilled possible
  | tick => cases stepped; exact inv.other rfl rfl rfl rfl rfl
  | fork pid task => cases stepped; exact inv.other rfl rfl rfl rfl rfl
  | accrue pid task => cases stepped; exact inv.other rfl rfl rfl rfl rfl
  | exit pid => cases stepped; exact inv.other rfl rfl rfl rfl rfl

end

section

variable {vm : Nat → Nat} {jiffies : Nat} {processes : Nat → Option Process} {es : List Event}
  {x : State × Log}

theorem sampling_run
    (run : Run (ghosted step log) (fun x e => Possible x.1 e)
      (State.init vm jiffies processes, .empty) es x) : Sampling x := by
  apply run.invariant
  · exact ⟨fun _ => rfl, fun _ => rfl, fun more => absurd rfl more, rfl,
      fun _ => vmElementSize_pos, laid_nil _ _, fun more => absurd rfl more⟩
  · intro x e y inv possible stepped
    exact sampling_step inv possible stepped

/-- In every state a run reaches, the work is queued when entries are listed and there is room,
and not without entries; `offset` counts the samples of the session, the buffer begins with
them, and -1 follows. -/
theorem sampler_invariant
    (run : Run (ghosted step log) (fun x e => Possible x.1 e)
      (State.init vm jiffies processes, .empty) es x) :
    (x.1.head = [] → x.1.pending = false) ∧
    (x.1.head ≠ [] → x.1.bufferFilledUp = false → x.1.pending = true) ∧
    x.1.offset = 4 * x.2.session.length ∧
    (List.range x.1.offset).map x.1.vm = x.2.session.flatMap Sample.fields ∧
    (x.2.session ≠ [] → x.1.offset < vmElementSize → x.1.vm x.1.offset = termination) := by
  have inv := sampling_run run
  refine ⟨inv.idle, inv.armed, inv.offset, ?_, inv.terminated⟩
  rw [inv.offset, ← fields_length]
  exact inv.laid.map_range

/-- A second process joins and the first one leaves between two samples. -/
theorem sampler_invariant_two_processes :
    ∃ x, Run (ghosted step log) (fun x e => Possible x.1 e)
        (State.init (fun _ => 0) 0 (fun _ => none), .empty)
        [.fork 7 ⟨1, 0, 2, 3⟩, .fork 8 ⟨4, 1, 0, 0⟩, .write ⟨bytes "R 7", some ⟨0, 0, 0, 0, 0⟩⟩,
          .fire, .write ⟨bytes "R 8", some ⟨0, 0, 0, 0, 0⟩⟩, .write ⟨bytes "U 7", none⟩, .tick,
          .fire] x ∧
      x.2.session = [⟨0, 1, 0, 5⟩, ⟨1, 4, 1, 0⟩] ∧
      (List.range x.1.offset).map x.1.vm = [0, 1, 0, 5, 1, 4, 1, 0] := by
  refine Run.exists_of_replay (fun x => x.2.session) (a := [⟨0, 1, 0, 5⟩, ⟨1, 4, 1, 0⟩])
    (by decide) fun x run session => ?_
  refine ⟨session, ?_⟩
  rw [(sampler_invariant run).2.2.2.1, session]
  rfl

end

end KernelModules.MP3
