import KernelModules.MP3.Session

/-!
# One session after another

What the callback records after the list was emptied depends on the history before in two ways
only: whether some session filled the buffer, since `BUFFER_FILLED_UP` is never reset, and
whether the lock was kept. In either case it never records again.
-/

namespace KernelModules.MP3

/-- The sample an event records, with the index it is stored at. -/
def recorded (s : State) : Event → List (Nat × Sample)
  | .fire => (callbackSample s).map fun x => (s.offset, x)
  | _ => []

/-- What is recorded along `es`, up to an event that cannot happen or does not return. -/
def recordings (s : State) : List Event → List (Nat × Sample)
  | [] => []
  | e :: es =>
    if Possible s e then
      match step s e with
      | .ok t => recorded s e ++ recordings t es
      | .error _ => []
    else []

/-! ## The contents of the buffer play no part -/

theorem step_vm (s : State) (vm : Nat → Nat) (e : Event) :
    ∃ vm', step { s with vm := vm } e = (step s e).map fun t => { t with vm := vm' } := by
  obtain ⟨head, old, offset, filled, lock, pending, jiffies, processes⟩ := s
  cases e with
  | write w =>
    refine ⟨vm, ?_⟩
    simp only [step, mywrite]
    cases w.request with
    | none => rfl
    | some request =>
      cases request with
      | register pid =>
        simp only [regEntry]
        split
        · rfl
        · split
          · rfl
          · cases lock <;> cases head <;> rfl
      | unregister pid =>
        cases lock with
        | true => rfl
        | false =>
          simp only [unregEntry, getByPid]
          cases found : head.find? fun itr => decide (itr.pid = pid) with
          | none => simp [spinLock, found, bind, Except.bind, Except.map]
          | some task =>
            cases last : (head.eraseP fun itr => decide (itr.pid = pid)).isEmpty <;>
              simp [spinLock, spinUnlock, cancelDelayedWorkSync, found, last, bind, Except.bind,
                Except.map]
  | fire =>
    cases filled with
    | true => exact ⟨vm, rfl⟩
    | false =>
      refine ⟨store vm (stores offset (collect processes ⟨jiffies, 0, 0, 0⟩ head).2.1), ?_⟩
      cases lock <;> rfl
  | tick => exact ⟨vm, rfl⟩
  | fork pid task => exact ⟨vm, rfl⟩
  | accrue pid task => exact ⟨vm, rfl⟩
  | exit pid => exact ⟨vm, rfl⟩

theorem possible_vm (s : State) (vm : Nat → Nat) (e : Event) :
    Possible { s with vm := vm } e ↔ Possible s e := by
  cases e <;> rfl

theorem recorded_vm (s : State) (vm : Nat → Nat) (e : Event) :
    recorded { s with vm := vm } e = recorded s e := by
  cases e <;> rfl

theorem recordings_vm (s : State) (vm : Nat → Nat) (es : List Event) :
    recordings { s with vm := vm } es = recordings s es := by
  induction es generalizing s vm with
  | nil => rfl
  | cons e es ih =>
    obtain ⟨vm', same⟩ := step_vm s vm e
    simp only [recordings, possible_vm, recorded_vm, same]
    split
    · cases step s e with
      | error fault => rfl
      | ok t => simp only [Except.map, ih]
    · rfl

/-! ## A sampler that has stopped -/

/-- The callback has declared the buffer filled, or the lock was kept. -/
def Stopped (s : State) : Prop := s.bufferFilledUp = true ∨ s.lock = true

section

variable {s t : State} {e : Event}

theorem step_filled (h : step s e = .ok t) (filled : s.bufferFilledUp = true) :
    t.bufferFilledUp = true := by
  cases e with
  | write w => rw [(mywrite_offset h).1, filled]
  | fire =>
    rcases workqueueCallback_ok h with ⟨-, rfl⟩ | ⟨unfilled, -, -⟩
    · exact filled
    · cases filled.symm.trans unfilled
  | tick => cases h; exact filled
  | fork pid task => cases h; exact filled
  | accrue pid task => cases h; exact filled
  | exit pid => cases h; exact filled

theorem Stopped.step (stopped : Stopped s) (h : step s e = .ok t) : Stopped t := by
  rcases stopped with filled | held
  · exact .inl (step_filled h filled)
  · refine .inr (Bool.eq_true_of_not_eq_false fun free => ?_)
    cases held.symm.trans ((step_lock h).mp free).1

theorem Stopped.recorded (stopped : Stopped s) (h : MP3.step s e = .ok t) :
    recorded s e = [] := by
  cases e with
  | fire =>
    rcases workqueueCallback_ok h with ⟨filled, -⟩ | ⟨unfilled, free, -⟩
    · have filled : s.bufferFilledUp = true := filled
      simp [MP3.recorded, callbackSample, filled]
    · rcases stopped with filled | held
      · cases filled.symm.trans unfilled
      · cases held.symm.trans free
  | _ => rfl

theorem Stopped.recordings (stopped : Stopped s) (es : List Event) : recordings s es = [] := by
  induction es generalizing s with
  | nil => rfl
  | cons e es ih =>
    simp only [MP3.recordings]
    split
    · cases stepped : MP3.step s e with
      | error fault => rfl
      | ok t =>
        simp only [stopped.recorded stepped, ih (stopped.step stepped), List.append_nil]
    · rfl

end

/-- A new process registers and is sampled. -/
def probe : List Event :=
  [.exit 7, .fork 7 ⟨0, 0, 0, 0⟩, .write ⟨bytes "R 7", some ⟨0, 0, 0, 0, 0⟩⟩, .fire]

/-- An empty list, with the work unqueued, that has not stopped takes the next sample. -/
theorem recordings_probe {s : State} (unfilled : s.bufferFilledUp = false) (free : s.lock = false)
    (none : s.head = []) : recordings s probe ≠ [] := by
  have request : (⟨bytes "R 7", some ⟨0, 0, 0, 0, 0⟩⟩ : Write).request = some (.register 7) := by
    decide
  have pid : toU32 7 = 7 := by decide
  simp [probe, recordings, Possible, step, mywrite, request, regEntry, findTaskByPid, pid, spinLock,
    free, none, queueDelayedWork, spinUnlock, bind, Except.bind, workqueueCallback,
    cancelDelayedWorkSync, unfilled, recorded, callbackSample]

/-- Two samplers between sessions, with the same processes and clock, record the same exactly
when both or neither have stopped. -/
theorem recordings_eq_iff {s t : State} (none : s.head = []) (none' : t.head = [])
    (pending : s.pending = t.pending) (offset : s.offset = t.offset)
    (counters : s.processes = t.processes) (clock : s.jiffies = t.jiffies) :
    (∀ es, recordings s es = recordings t es) ↔ (Stopped s ↔ Stopped t) := by
  have records (u : State) (none : u.head = []) (runs : ¬ Stopped u) : recordings u probe ≠ [] := by
    rw [Stopped, not_or, Bool.not_eq_true, Bool.not_eq_true] at runs
    exact recordings_probe runs.1 runs.2 none
  constructor
  · intro same
    constructor
    · intro stopped
      by_contra runs
      exact records t none' runs (by rw [← same, stopped.recordings])
    · intro stopped
      by_contra runs
      exact records s none runs (by rw [same, stopped.recordings])
  · intro both es
    by_cases stopped : Stopped s
    · rw [stopped.recordings, (both.mp stopped).recordings]
    · have runs : ¬ Stopped t := fun stops => stopped (both.mpr stops)
      rw [Stopped, not_or, Bool.not_eq_true, Bool.not_eq_true] at stopped runs
      have twin : t = { s with vm := t.vm } := by
        obtain ⟨head, vm, position, filled, lock, queued, jiffies, processes⟩ := t
        simp only at none' pending offset counters clock runs
        simp only [none, none', pending, offset, counters, clock, stopped, runs]
      rw [twin]
      exact (recordings_vm s t.vm es).symm

/-! ## Two histories -/

section

variable {vm : Nat → Nat} {jiffies : Nat} {processes : Nat → Option Process} {es : List Event}

/-- Emptying the list takes the work off the queue and resets `offset`. -/
theorem emptied {s : State} (run : Run step Possible (State.init vm jiffies processes) es s)
    (none : s.head = []) : s.pending = false ∧ s.offset = 0 := by
  obtain ⟨g, logged⟩ := run.ghost log Log.empty
  have inv := sampling_run logged
  refine ⟨inv.idle none, ?_⟩
  rw [inv.offset, inv.ended none]
  rfl

/-- A history stops the sampler by a session that fires 32000 times or by a request that keeps
the lock, and in no other way. -/
theorem stopped_iff {x : State × Sessions}
    (run : Run (ghosted step record) (fun x e => Possible x.1 e)
      (State.init vm jiffies processes, .none) es x) :
    Stopped x.1 ↔ ¬ (x.2.longest < 32000 ∧ Orderly (State.init vm jiffies processes) es x.1) := by
  have tracks := tracks_run run
  have orderly := lock_iff_orderly run.unghost rfl
  rw [Stopped, ← orderly]
  cases filled : x.1.bufferFilledUp with
  | false => simp [(tracks.room filled).2]
  | true => simp [tracks.full filled]

/-- The globals are as `mp3_init` leaves them, whatever is in the buffer. -/
def Restored (s : State) : Prop := s = State.init s.vm s.jiffies s.processes

theorem restored_iff {s : State} (run : Run step Possible (State.init vm jiffies processes) es s)
    (none : s.head = []) : Restored s ↔ ¬ Stopped s := by
  obtain ⟨pending, offset⟩ := emptied run none
  obtain ⟨head, vm, position, filled, lock, queued, jiffies, processes⟩ := s
  simp only at none pending offset
  subst none pending offset
  simp [Restored, State.init, Stopped]

/-- After two histories that both end with an empty list, with the same processes and clock,
every continuation records the same samples at the same indices in both, exactly when both or
neither have kept clear of sessions of 32000 firings and of requests to unregister a pid that
is not on the list; and a history that ends with an empty list restores the sampler exactly when
it has kept clear of both. -/
theorem sessions_independent_iff {vm' : Nat → Nat} {jiffies' : Nat}
    {processes' : Nat → Option Process} {es' : List Event} {x y : State × Sessions}
    (run : Run (ghosted step record) (fun x e => Possible x.1 e)
      (State.init vm jiffies processes, .none) es x)
    (run' : Run (ghosted step record) (fun x e => Possible x.1 e)
      (State.init vm' jiffies' processes', .none) es' y)
    (none : x.1.head = []) (none' : y.1.head = [])
    (counters : x.1.processes = y.1.processes) (clock : x.1.jiffies = y.1.jiffies) :
    ((∀ cont, recordings x.1 cont = recordings y.1 cont) ↔
      (x.2.longest < 32000 ∧ Orderly (State.init vm jiffies processes) es x.1 ↔
        y.2.longest < 32000 ∧ Orderly (State.init vm' jiffies' processes') es' y.1)) ∧
    (Restored x.1 ↔ x.2.longest < 32000 ∧ Orderly (State.init vm jiffies processes) es x.1) := by
  obtain ⟨pending, offset⟩ := emptied run.unghost none
  obtain ⟨pending', offset'⟩ := emptied run'.unghost none'
  constructor
  · rw [recordings_eq_iff none none' (pending.trans pending'.symm) (offset.trans offset'.symm)
      counters clock, stopped_iff run, stopped_iff run', not_iff_not]
  · rw [restored_iff run.unghost none, stopped_iff run, not_not]

end

/-- A session of one sample, after which the sampler is as `mp3_init` left it. -/
theorem sessions_independent_iff_short_session :
    ∃ x : State × Sessions, Run (ghosted step record) (fun x e => Possible x.1 e)
        (State.init (fun _ => 0) 0 (fun _ => none), .none)
        [.fork 7 ⟨1, 0, 2, 3⟩, .write ⟨bytes "R 7", some ⟨0, 0, 0, 0, 0⟩⟩, .fire,
          .write ⟨bytes "U 7", none⟩] x ∧
      Restored x.1 ∧ ∀ cont, recordings x.1 cont =
        recordings (State.init (fun _ => 0) x.1.jiffies x.1.processes) cont := by
  have h : (replay (ghosted step record) (fun x e => Possible x.1 e ∧ Listed x.1 e)
      (State.init (fun _ => 0) 0 (fun _ => none), .none)
      [.fork 7 ⟨1, 0, 2, 3⟩, .write ⟨bytes "R 7", some ⟨0, 0, 0, 0, 0⟩⟩, .fire,
        .write ⟨bytes "U 7", none⟩]).map (fun x => (x.1.head, x.2.longest)) = some ([], 1) := by
    decide
  obtain ⟨x, replayed, fields⟩ := Option.map_eq_some_iff.mp h
  obtain ⟨none, longest⟩ := Prod.mk.inj fields
  have orderly : Run (ghosted step record) (fun x e => Possible x.1 e ∧ Listed x.1 e) _ _ x :=
    .of_replay replayed
  have run : Run (ghosted step record) (fun x e => Possible x.1 e) _ _ x :=
    orderly.imp fun _ _ => And.left
  have fresh : Run (ghosted step record) (fun x e => Possible x.1 e)
      (State.init (fun _ => 0) x.1.jiffies x.1.processes, .none) []
      (State.init (fun _ => 0) x.1.jiffies x.1.processes, .none) := .init
  have history : Orderly _ _ x.1 := orderly.unghost
  have clear : x.2.longest < 32000 := by
    rw [longest]
    decide
  obtain ⟨same, restored⟩ := sessions_independent_iff run fresh none rfl rfl rfl
  refine ⟨x, run, restored.mpr ⟨clear, history⟩, same.mpr ?_⟩
  exact iff_of_true ⟨clear, history⟩ ⟨Nat.succ_pos 31999, .init⟩

theorem unregEntry_last {s : State} (pid : Int) (free : s.lock = false)
    (only : s.head.map Entry.pid = [pid]) :
    ∃ t, unregEntry s pid = .ok t ∧ t.head = [] ∧ t.bufferFilledUp = s.bufferFilledUp := by
  obtain ⟨itr, listed, same⟩ := List.map_eq_singleton_iff.mp only
  simp [unregEntry, spinLock, free, getByPid, listed, same, spinUnlock, cancelDelayedWorkSync, bind,
    Except.bind]

/-- A session of 32000 firings fills the buffer. After its last process has left, the sampler
records nothing, where after `mp3_init` it samples the next process. -/
theorem later_session_silent :
    ¬ ∀ (vm vm' : Nat → Nat) (jiffies jiffies' : Nat) (processes processes' : Nat → Option Process)
      (es es' : List Event) (s t : State),
      Run step Possible (State.init vm jiffies processes) es s →
      Run step Possible (State.init vm' jiffies' processes') es' t →
      s.head = [] → t.head = [] → s.processes = t.processes → s.jiffies = t.jiffies →
      ∀ cont, recordings s cont = recordings t cont := by
  intro independent
  have h : (replay (ghosted step record) (fun x e => Possible x.1 e)
      (State.init (fun _ => 0) 0 (fun _ => none), .none)
      [.fork 7 ⟨1, 0, 2, 3⟩, .write ⟨bytes "R 7", some ⟨0, 0, 0, 0, 0⟩⟩]).map
        (fun x => (x.1.pending, x.1.lock, x.1.bufferFilledUp, x.1.offset, x.1.head.map Entry.pid)) =
      some (true, false, false, 0, [7]) := by decide
  obtain ⟨x, replayed, fields⟩ := Option.map_eq_some_iff.mp h
  obtain ⟨queued, free, unfilled, offset, only⟩ : x.1.pending = true ∧ x.1.lock = false ∧
      x.1.bufferFilledUp = false ∧ x.1.offset = 0 ∧ x.1.head.map Entry.pid = [7] := by
    simpa using fields
  obtain ⟨y, run, queued, free, unfilled, position, -, pids⟩ :=
    fires_run (.of_replay replayed) queued free unfilled 31999 (by rw [offset]; decide)
  -- the 32000th firing
  have fired : step y.1 .fire = .ok (takeSample (cancelDelayedWorkSync y.1)) :=
    workqueueCallback_samples (s := cancelDelayedWorkSync y.1) unfilled free
  have filled : (takeSample (cancelDelayedWorkSync y.1)).bufferFilledUp = true := by
    change (y.1.bufferFilledUp || decide (nextOffset y.1.offset ≥ vmElementSize)) = true
    rw [unfilled, position, offset]
    decide
  obtain ⟨z, left, ended, still⟩ := unregEntry_last (s := takeSample (cancelDelayedWorkSync y.1))
    7 free ((collect_pids _ _ _).trans (pids.trans only))
  have request : (⟨bytes "U 7", none⟩ : Write).request = some (.unregister 7) := by decide
  have full := run.unghost.next (e := Event.fire) queued fired
  have history := full.next (e := Event.write ⟨bytes "U 7", none⟩) trivial
    (by rw [step, mywrite, request]; exact left)
  have same := independent _ (fun _ => 0) _ z.jiffies _ z.processes _ _ z _ history .init ended rfl
    rfl rfl probe
  have stopped : Stopped z := .inl (still.trans filled)
  rw [stopped.recordings] at same
  exact recordings_probe rfl rfl rfl same.symm

end KernelModules.MP3
