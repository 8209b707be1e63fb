import KernelModules.Lib.Spacing
import KernelModules.MP3.Session

/-!
# The delay of the work

The work is queued with a delay of `DELAYED` jiffies, by the first registration and then by
each sample, so a session has no more samples than its duration has delays. A session that ends
before its 80000th jiffy stays inside the buffer, and one jiffy more is too many.
-/

namespace KernelModules.MP3

/-- `USER_HZ` of the header the module includes. -/
def userHz : Nat := 100
def sampleRate : Nat := 20

def delayed : Nat := userHz / sampleRate

/-- The event queues the work. A callback runs after its work was taken off the queue. -/
def queues (s : State) (e : Event) : Bool :=
  match step s e with
  | .error _ => false
  | .ok t => match e with
    | .fire => t.pending
    | _ => !s.pending && t.pending

/-- Kept of a run: the samples, when the delay of the queued work runs out, and when the list
was last empty. -/
structure Clock where
  log : Log
  expires : Nat
  since : Nat
  deriving DecidableEq, Repr

def Clock.start (jiffies : Nat) : Clock := ⟨.empty, 0, jiffies⟩

def clock (c : Clock) (s : State) (e : Event) : Clock where
  log := log c.log s e
  expires := if queues s e then s.jiffies + delayed else c.expires
  since := if s.head = [] then s.jiffies else c.since

/-- The work fires when its delay is over. `jiffies` does not run through zero. -/
def Timely (x : State × Clock) : Event → Prop
  | .fire => x.1.pending = true ∧ x.2.expires ≤ x.1.jiffies
  | .tick => x.1.jiffies + 1 < 2 ^ 64
  | _ => True

/-- Every session ends before its jiffy `limit`. -/
def Brief (limit : Nat) (x : State × Clock) : Event → Prop
  | .tick => x.1.head ≠ [] → x.1.jiffies + 1 < x.2.since + limit
  | _ => True

instance (x : State × Clock) (e : Event) : Decidable (Timely x e) :=
  match e with
  | .fire => inferInstanceAs (Decidable (x.1.pending = true ∧ x.2.expires ≤ x.1.jiffies))
  | .tick => inferInstanceAs (Decidable (x.1.jiffies + 1 < 2 ^ 64))
  | .write _ => .isTrue trivial
  | .fork _ _ => .isTrue trivial
  | .accrue _ _ => .isTrue trivial
  | .exit _ => .isTrue trivial

instance (limit : Nat) (x : State × Clock) (e : Event) : Decidable (Brief limit x e) :=
  match e with
  | .tick => inferInstanceAs (Decidable (x.1.head ≠ [] → x.1.jiffies + 1 < x.2.since + limit))
  | .fire => .isTrue trivial
  | .write _ => .isTrue trivial
  | .fork _ _ => .isTrue trivial
  | .accrue _ _ => .isTrue trivial
  | .exit _ => .isTrue trivial

theorem Timely.possible {x : State × Clock} {e : Event} (timely : Timely x e) :
    Possible x.1 e := by
  cases e with
  | fire => exact timely.1
  | _ => trivial

/-! ## The samples of a session are spaced -/

def Clock.times (c : Clock) : List Nat := c.log.session.map Sample.jiffies

/-- The samples of the session are a delay apart, and the queued work expires a delay after
the last of them. -/
structure Timed (x : State × Clock) : Prop where
  sampling : Sampling (x.1, x.2.log)
  spaced : Spaced delayed x.2.since x.2.times
  past : latest x.2.since x.2.times ≤ x.1.jiffies
  due : x.1.pending = true → latest x.2.since x.2.times + delayed ≤ x.2.expires

section

variable {s t : State} {c : Clock}

theorem queues_write {w : Write} (h : mywrite s w = .ok t) :
    queues s (.write w) = (!s.pending && t.pending) := by
  simp only [queues, step, h]

theorem queues_fire (h : workqueueCallback (cancelDelayedWorkSync s) = .ok t) :
    queues s .fire = t.pending := by
  simp only [queues, step, h]

/-- While the list is empty the session has not begun. -/
theorem Timed.waiting (timed : Timed (s, c)) :
    Timed (s, { c with since := if s.head = [] then s.jiffies else c.since }) := by
  split
  · rename_i none
    obtain ⟨sampling, -, -, -⟩ := timed
    have ended : c.log.session = [] := sampling.ended none
    have times : Clock.times { c with since := s.jiffies } = [] := by simp [Clock.times, ended]
    refine ⟨sampling, ?_, ?_, fun queued => ?_⟩
    · rw [times]
      exact spaced_nil _ _
    · rw [times]
      exact Nat.le_refl _
    · cases (sampling.idle none).symm.trans queued
  · exact timed

/-- An event that neither queues the work nor adds a sample. -/
theorem Timed.quiet (timed : Timed (s, c)) {l : Log} (sampling : Sampling (t, l))
    (session : l.session = c.log.session ∨ l.session = []) (later : s.jiffies ≤ t.jiffies)
    (pending : t.pending = true → s.pending = true ∧ l.session = c.log.session) :
    Timed (t, { c with log := l }) := by
  obtain ⟨-, spaced, past, due⟩ := timed
  simp only at spaced past due
  rcases session with same | none
  · have times : Clock.times { c with log := l } = c.times := by simp [Clock.times, same]
    refine ⟨sampling, ?_, ?_, fun queued => ?_⟩
    · rwa [times]
    · rw [times]
      exact Nat.le_trans past later
    · rw [times]
      exact due (pending queued).1
  · have times : Clock.times { c with log := l } = [] := by simp [Clock.times, none]
    refine ⟨sampling, ?_, ?_, fun queued => ?_⟩
    · rw [times]
      exact spaced_nil _ _
    · have := spaced.length_le
      rw [times, latest_nil]
      change c.since ≤ t.jiffies
      omega
    · obtain ⟨before, same⟩ := pending queued
      have times' : c.times = [] := by simp [Clock.times, ← same, none]
      rw [times, latest_nil]
      have := due before
      rwa [times', latest_nil] at this

/-- Work that is queued after a request was queued before, or the list was empty. -/
theorem mywrite_queued {w : Write} (h : mywrite s w = .ok t) :
    t.jiffies = s.jiffies ∧
    (t.pending = true → empties s w = false ∧ (s.pending = true ∨ s.head = [])) := by
  rcases mywrite_ok h with ⟨stays, rfl⟩ | ⟨stays, -, new, -, rfl⟩ | ⟨stays, -, rfl⟩ |
    ⟨-, rest, -, last, rfl⟩
  · exact ⟨rfl, fun queued => ⟨stays, .inl queued⟩⟩
  · refine ⟨rfl, fun queued => ⟨stays, ?_⟩⟩
    rcases Bool.or_eq_true_iff.mp queued with first | before
    · exact .inr (List.isEmpty_iff.mp first)
    · exact .inl before
  · exact ⟨rfl, fun queued => ⟨stays, .inl queued⟩⟩
  · refine ⟨rfl, fun queued => ?_⟩
    obtain ⟨more, before⟩ := Bool.and_eq_true_iff.mp queued
    refine ⟨eq_false_of_ne_true fun emptied => ?_, .inl before⟩
    rw [last.mpr emptied] at more
    cases more

theorem Timed.written {w : Write} (timed : Timed (s, c)) (h : mywrite s w = .ok t) :
    Timed (t, { c with
      log := log c.log s (.write w)
      expires := if queues s (.write w) then s.jiffies + delayed else c.expires }) := by
  have sampling := timed.sampling.written h
  obtain ⟨same, queued⟩ := mywrite_queued h
  have kept : empties s w = false → log c.log s (.write w) = c.log := by
    intro stays
    simp [log, stays]
  have session : (log c.log s (.write w)).session = c.log.session ∨
      (log c.log s (.write w)).session = [] := by
    cases emptied : empties s w with
    | false => exact .inl (congrArg Log.session (kept emptied))
    | true => exact .inr (by simp [log, emptied])
  rw [queues_write h]
  cases again : !s.pending && t.pending with
  | false =>
    refine timed.quiet sampling session (Nat.le_of_eq same.symm) fun after => ?_
    rw [after, Bool.and_true, Bool.not_eq_false'] at again
    exact ⟨again, congrArg Log.session (kept (queued after).1)⟩
  | true =>
    -- the first registration begins a session
    obtain ⟨before, after⟩ := Bool.and_eq_true_iff.mp again
    obtain ⟨stays, first⟩ := queued after
    have none : s.head = [] := first.resolve_left fun busy => by simp [busy] at before
    have ended : c.log.session = [] := timed.sampling.ended none
    obtain ⟨-, spaced, past, -⟩ := timed
    rw [kept stays] at sampling ⊢
    have times : c.times = [] := by simp [Clock.times, ended]
    rw [times, latest_nil] at past
    simp only at past
    have times' : Clock.times { c with expires := s.jiffies + delayed } = [] := times
    refine ⟨sampling, ?_, ?_, fun _ => ?_⟩
    · simp only [↓reduceIte, times']
      exact spaced_nil _ _
    · simp only [↓reduceIte, times', latest_nil, same]
      exact past
    · simp only [↓reduceIte, times', latest_nil]
      exact Nat.add_le_add_right past _

theorem Timed.fired (timed : Timed (s, c)) (timely : Timely (s, c) .fire)
    (h : workqueueCallback (cancelDelayedWorkSync s) = .ok t) :
    Timed (t, { c with
      log := log c.log s .fire
      expires := if queues s .fire then s.jiffies + delayed else c.expires }) := by
  obtain ⟨queued, expired⟩ := timely
  rw [queues_fire h]
  rcases workqueueCallback_ok h with ⟨filled, rfl⟩ | ⟨unfilled, -, rfl⟩
  · have sampling := timed.sampling.ignored filled
    have same : log c.log s .fire = c.log := by simp [log, callbackSample, show
      s.bufferFilledUp = true from filled]
    rw [same] at sampling ⊢
    have cancelled : (cancelDelayedWorkSync s).pending ≠ true := Bool.false_ne_true
    exact timed.quiet sampling (.inl rfl) (Nat.le_refl _) fun queued => absurd queued cancelled
  · have sampling := timed.sampling.sampled unfilled queued
    have recorded : (log c.log s .fire).session = c.log.session ++ [s.collected.2.1] := by
      simp [log, callbackSample, show s.bufferFilledUp = false from unfilled]
    have stamped : s.collected.2.1.jiffies = s.jiffies := collect_jiffies _ _ _
    have again : (takeSample (cancelDelayedWorkSync s)).pending = true := rfl
    obtain ⟨-, spaced, -, due⟩ := timed
    have later := Nat.le_trans (due queued) expired
    have times : Clock.times { c with
        log := log c.log s .fire, expires := s.jiffies + delayed } = c.times ++ [s.jiffies] := by
      simp [Clock.times, recorded, stamped]
    rw [if_pos again]
    refine ⟨sampling, ?_, ?_, fun _ => ?_⟩
    · rw [times]
      exact spaced.concat later
    · rw [times, latest_concat]
      exact Nat.le_refl _
    · rw [times, latest_concat]

theorem timed_step {x y : State × Clock} {e : Event} (timed : Timed x) (timely : Timely x e)
    (h : ghosted step clock x e = .ok y) : Timed y := by
  obtain ⟨s, c⟩ := x
  obtain ⟨t, c'⟩ := y
  obtain ⟨stepped, recorded⟩ := ghosted_ok h
  simp only at stepped recorded
  subst recorded
  have begun := timed.waiting
  have quiet (same : log c.log s e = c.log) (still : queues s e = false)
      (sampling : Sampling (t, c.log)) (later : s.jiffies ≤ t.jiffies)
      (pending : t.pending = s.pending) : Timed (t, clock c s e) := by
    unfold clock
    rw [same, still]
    exact begun.quiet sampling (.inl rfl) later fun queued => ⟨pending ▸ queued, rfl⟩
  have unqueued : (!s.pending && s.pending) = false := Bool.not_and_self _
  cases e with
  | write w => exact begun.written stepped
  | fire => exact begun.fired timely stepped
  | tick =>
    cases stepped
    refine quiet rfl unqueued (timed.sampling.other rfl rfl rfl rfl rfl) ?_ rfl
    have exact' : Arith.c.u64 (s.jiffies + 1) = s.jiffies + 1 := Nat.mod_eq_of_lt timely
    simp only [exact']
    exact Nat.le_succ _
  | fork pid task =>
    cases stepped
    exact quiet rfl unqueued (timed.sampling.other rfl rfl rfl rfl rfl) (Nat.le_refl _) rfl
  | accrue pid task =>
    cases stepped
    exact quiet rfl unqueued (timed.sampling.other rfl rfl rfl rfl rfl) (Nat.le_refl _) rfl
  | exit pid =>
    cases stepped
    exact quiet rfl unqueued (timed.sampling.other rfl rfl rfl rfl rfl) (Nat.le_refl _) rfl

end

section

variable {vm : Nat → Nat} {jiffies : Nat} {processes : Nat → Option Process} {es : List Event}
  {x : State × Clock}

theorem timed_run
    (run : Run (ghosted step clock) Timely (State.init vm jiffies processes, .start jiffies) es x) :
    Timed x := by
  have none : Clock.times (.start jiffies) = [] := rfl
  apply run.invariant
  · refine ⟨?_, ?_, ?_, fun queued => absurd queued Bool.false_ne_true⟩
    · exact ⟨fun _ => rfl, fun _ => rfl, fun more => absurd rfl more, rfl,
        fun _ => vmElementSize_pos, laid_nil _ _, fun more => absurd rfl more⟩
    · rw [none]
      exact spaced_nil _ _
    · rw [none]
      exact Nat.le_refl _
  · intro x e y timed timely stepped
    exact timed_step timed timely stepped

theorem laid_jiffies {l : List Sample} {i n : Nat} (laid : Laid vm i (l.flatMap Sample.fields))
    (bound : n < l.length) : vm (i + 4 * n) = l[n].jiffies := by
  induction l generalizing i n with
  | nil => exact absurd bound (Nat.not_lt_zero n)
  | cons x l ih =>
    rw [List.flatMap_cons, laid_append, Sample.fields_length] at laid
    cases n with
    | zero => exact laid.1.1
    | succ n =>
      have rest := ih laid.2 (Nat.lt_of_succ_lt_succ bound)
      rwa [Nat.add_assoc, Nat.add_comm 4, ← Nat.mul_succ] at rest

/-- The first element of each sample in the buffer. -/
def stamps (s : State) : List Nat := (List.range (s.offset / 4)).map fun n => s.vm (4 * n)

theorem Sampling.stamps {s : State} {g : Log} (sampling : Sampling (s, g)) :
    stamps s = g.session.map Sample.jiffies := by
  have laid : Laid s.vm 0 (g.session.flatMap Sample.fields) := sampling.laid
  have offset : s.offset = 4 * g.session.length := sampling.offset
  have length : s.offset / 4 = g.session.length := by omega
  apply List.ext_getElem
  · simp [MP3.stamps, length]
  · intro n _ bound
    rw [List.length_map] at bound
    have first := laid_jiffies laid bound
    rw [Nat.zero_add] at first
    simp [MP3.stamps, first]

/-- In every state a run reaches, the samples in the buffer were taken a delay or more apart,
the first one a delay after the session began, so there is none for each delay that has not
gone by since. -/
theorem samples_spaced
    (run : Run (ghosted step clock) Timely (State.init vm jiffies processes, .start jiffies) es x) :
    Spaced delayed x.2.since (stamps x.1) ∧
    x.2.since + delayed * (x.1.offset / 4) ≤ x.1.jiffies := by
  have timed := timed_run run
  have same : stamps x.1 = x.2.times := timed.sampling.stamps
  have count : x.2.times.length = x.1.offset / 4 := by
    rw [← same, stamps, List.length_map, List.length_range]
  refine ⟨same ▸ timed.spaced, ?_⟩
  rw [← count]
  exact Nat.le_trans timed.spaced.length_le timed.past

/-- The work is queued at 3 and fires at 8 and, late, at 14. -/
theorem samples_spaced_late :
    ∃ x, Run (ghosted step clock) Timely (State.init (fun _ => 0) 3 (fun _ => none), .start 3)
        ([.fork 7 ⟨1, 0, 2, 3⟩, .write ⟨bytes "R 7", some ⟨0, 0, 0, 0, 0⟩⟩] ++
          List.replicate 5 .tick ++ [.fire] ++ List.replicate 6 .tick ++ [.fire]) x ∧
      stamps x.1 = [8, 14] ∧ Spaced delayed 3 (stamps x.1) := by
  refine Run.exists_of_replay (fun x => (x.2.since, stamps x.1)) (a := (3, [8, 14])) (by decide)
    fun x run seen => ?_
  obtain ⟨since, times⟩ := Prod.mk.inj seen
  exact ⟨times, since ▸ (samples_spaced run).1⟩

end

/-! ## Sessions that stay inside the buffer -/

section

variable {limit : Nat} {vm : Nat → Nat} {jiffies : Nat} {processes : Nat → Option Process}
  {es : List Event} {x : State × Clock}

/-- A write adds entries to the list, or takes them off, in no time. -/
theorem brief_step {x y : State × Clock} {e : Event} (short : limit ≤ 80000)
    (brief : x.1.head ≠ [] → x.1.jiffies < x.2.since + 80000) (within : Brief limit x e)
    (h : ghosted step clock x e = .ok y) : y.1.head ≠ [] → y.1.jiffies < y.2.since + 80000 := by
  obtain ⟨s, c⟩ := x
  obtain ⟨t, c'⟩ := y
  obtain ⟨stepped, recorded⟩ := ghosted_ok h
  simp only at stepped recorded brief
  subst recorded
  have still : s.jiffies < (clock c s e).since + 80000 := by
    by_cases none : s.head = []
    · simp [clock, none]
    · simpa [clock, none] using brief none
  intro busy
  cases e with
  | tick =>
    cases stepped
    have before : s.head ≠ [] := busy
    have since : (clock c s .tick).since = c.since := by simp [clock, before]
    have after : s.jiffies + 1 < c.since + limit := within before
    have : Arith.c.u64 (s.jiffies + 1) ≤ s.jiffies + 1 := Nat.mod_le _ _
    simp only [since]
    omega
  | write w => exact (mywrite_queued stepped).1 ▸ still
  | fire =>
    rcases workqueueCallback_ok stepped with ⟨-, rfl⟩ | ⟨-, -, rfl⟩
    · exact still
    · exact still
  | fork pid task => cases stepped; exact still
  | accrue pid task => cases stepped; exact still
  | exit pid => cases stepped; exact still

theorem brief_inside (short : limit ≤ 80000)
    (run : Run (ghosted step clock) (fun x e => Timely x e ∧ Brief limit x e)
      (State.init vm jiffies processes, .start jiffies) es x)
    (fires : Timely x .fire) {i : Nat} (mem : i ∈ (callbackStores x.1).map Prod.fst) :
    Inside i := by
  have brief : x.1.head ≠ [] → x.1.jiffies < x.2.since + 80000 := by
    apply run.invariant (I := fun x : State × Clock =>
      x.1.head ≠ [] → x.1.jiffies < x.2.since + 80000)
    · exact fun busy => absurd rfl busy
    · intro x e y inv allowed stepped
      exact brief_step short inv allowed.2 stepped
  have timed := timed_run (run.imp fun _ _ allowed => allowed.1)
  obtain ⟨queued, expired⟩ := fires
  have busy : x.1.head ≠ [] := fun none => by
    cases (timed.sampling.idle none).symm.trans queued
  have count := timed.spaced.length_le
  have due := timed.due queued
  have now := brief busy
  have offset : x.1.offset = 4 * x.2.log.session.length := timed.sampling.offset
  have length : x.2.times.length = x.2.log.session.length := List.length_map _
  have delay : delayed = 5 := rfl
  rw [length, delay] at count
  rw [delay] at due
  unfold callbackStores at mem
  split at mem
  · exact absurd mem List.not_mem_nil
  · have small : x.1.offset < vmElementSize := by
      unfold vmElementSize
      omega
    have := (mem_stores small).mp mem
    unfold Inside elementBytes vmSize
    omega

/-- The `n` first samples were taken as soon as they were due, the last one `k` jiffies ago. -/
structure Cadence (x : State × Clock) (n k : Nat) : Prop where
  busy : x.1.head ≠ []
  queued : x.1.pending = true
  free : x.1.lock = false
  unfilled : x.1.bufferFilledUp = false
  offset : x.1.offset = 4 * n
  since : x.2.since = 0
  now : x.1.jiffies = delayed * n + k
  due : x.2.expires = delayed * (n + 1)

section

variable {start : State × Clock} {n k : Nat}
  (run : Run (ghosted step clock) (fun x e => Timely x e ∧ Brief limit x e) start es x)
include run

theorem Cadence.tick (cadence : Cadence x n k) (within : delayed * n + k + 1 < limit)
    (small : limit ≤ 2 ^ 64) :
    ∃ es y, Run (ghosted step clock) (fun x e => Timely x e ∧ Brief limit x e) start es y ∧
      Cadence y n (k + 1) := by
  obtain ⟨busy, queued, free, unfilled, offset, since, now, due⟩ := cadence
  have clocked : clock x.2 x.1 .tick = x.2 := by
    have unqueued : queues x.1 .tick = false := Bool.not_and_self _
    simp [clock, log, unqueued, busy]
  have later : Arith.c.u64 (x.1.jiffies + 1) = delayed * n + (k + 1) := by
    rw [now]
    exact Nat.mod_eq_of_lt (by omega)
  have timely : Timely x .tick := by
    change x.1.jiffies + 1 < 2 ^ 64
    omega
  have brief : Brief limit x .tick := by
    intro _
    omega
  refine ⟨_, ({ x.1 with jiffies := Arith.c.u64 (x.1.jiffies + 1) }, x.2),
    run.next (e := Event.tick) ⟨timely, brief⟩ ?_, busy, queued, free, unfilled, offset, since,
    later, due⟩
  simp only [ghosted, step, Except.map, clocked]

theorem Cadence.ticks (cadence : Cadence x n 0) (k : Nat) (within : delayed * n + k < limit)
    (small : limit ≤ 2 ^ 64) :
    ∃ es y, Run (ghosted step clock) (fun x e => Timely x e ∧ Brief limit x e) start es y ∧
      Cadence y n k := by
  induction k with
  | zero => exact ⟨es, x, run, cadence⟩
  | succ k ih =>
    obtain ⟨es, y, reached, before⟩ := ih (by omega)
    exact before.tick reached within small

theorem Cadence.fire (cadence : Cadence x n delayed) (room : 4 * (n + 1) < vmElementSize) :
    ∃ es y, Run (ghosted step clock) (fun x e => Timely x e ∧ Brief limit x e) start es y ∧
      Cadence y (n + 1) 0 := by
  obtain ⟨busy, queued, free, unfilled, offset, since, now, due⟩ := cadence
  have small : x.1.offset < vmElementSize := by omega
  have next : nextOffset x.1.offset = 4 * (n + 1) := by
    rw [nextOffset_small small, offset]
    omega
  have stepped : step x.1 .fire = .ok (takeSample (cancelDelayedWorkSync x.1)) :=
    workqueueCallback_samples (s := cancelDelayedWorkSync x.1) unfilled free
  have again : queues x.1 .fire = true := queues_fire stepped
  have entries : (takeSample (cancelDelayedWorkSync x.1)).head.map Entry.pid =
      x.1.head.map Entry.pid := collect_pids _ _ _
  have timely : Timely x .fire := by
    refine ⟨queued, ?_⟩
    rw [due, now]
    exact Nat.le_refl _
  have after : ghosted step clock x .fire =
      .ok (takeSample (cancelDelayedWorkSync x.1), clock x.2 x.1 .fire) := by
    simp only [ghosted, stepped, Except.map]
  refine ⟨_, _, run.next (e := Event.fire) ⟨timely, trivial⟩ after, ?_, rfl, free, ?_, next, ?_,
    now, ?_⟩
  · intro none
    rw [none, List.map_nil, eq_comm, List.map_eq_nil_iff] at entries
    exact busy entries
  · change (x.1.bufferFilledUp || decide (nextOffset x.1.offset ≥ vmElementSize)) = false
    rw [unfilled, next, Bool.false_or, decide_eq_false_iff_not]
    omega
  · simp [clock, busy, since]
  · simp only [clock, again, ↓reduceIte, now]
    rfl

end

variable (limit) in
/-- Samples taken as soon as they are due go on as long as the session may. -/
theorem cadence_run (small : limit ≤ 2 ^ 64) (n : Nat) (within : delayed * n < limit)
    (room : 4 * n < vmElementSize) :
    ∃ es x, Run (ghosted step clock) (fun x e => Timely x e ∧ Brief limit x e)
      (State.init (fun _ => 0) 0 (fun _ => none), .start 0) es x ∧ Cadence x n 0 := by
  induction n with
  | zero =>
    refine ⟨[.fork 7 ⟨1, 0, 2, 3⟩, .write ⟨bytes "R 7", some ⟨0, 0, 0, 0, 0⟩⟩], ?_⟩
    have h : (replay (ghosted step clock) (fun x e => Timely x e ∧ Brief 0 x e)
        (State.init (fun _ => 0) 0 (fun _ => none), .start 0)
        [.fork 7 ⟨1, 0, 2, 3⟩, .write ⟨bytes "R 7", some ⟨0, 0, 0, 0, 0⟩⟩]).map
          (fun x => ((x.1.head.isEmpty, x.1.pending, x.1.lock, x.1.bufferFilledUp),
            x.1.offset, x.1.jiffies, x.2.since, x.2.expires)) =
        some ((false, true, false, false), 0, 0, 0, 5) := by decide
    obtain ⟨x, replayed, fields⟩ := Option.map_eq_some_iff.mp h
    obtain ⟨⟨busy, queued, free, unfilled⟩, offset, now, since, due⟩ :
        (x.1.head ≠ [] ∧ x.1.pending = true ∧ x.1.lock = false ∧ x.1.bufferFilledUp = false) ∧
        x.1.offset = 0 ∧ x.1.jiffies = 0 ∧ x.2.since = 0 ∧ x.2.expires = 5 := by
      simpa using fields
    refine ⟨x, (Run.of_replay replayed).imp fun x e allowed => ⟨allowed.1, ?_⟩, busy, queued,
      free, unfilled, offset, since, now, due⟩
    cases e with
    | tick => exact fun on => by have := allowed.2 on; omega
    | _ => trivial
  | succ n ih =>
    rw [Nat.mul_succ] at within
    obtain ⟨es, x, run, cadence⟩ := ih (by omega) (by omega)
    obtain ⟨es', y, waited, due⟩ := cadence.ticks run delayed within small
    exact due.fire waited room

/-- The stores of every callback lie inside the buffer, in whatever run, exactly when no session
may last to its 80000th jiffy. -/
theorem brief_sessions_inside_iff :
    (∀ (vm : Nat → Nat) (jiffies : Nat) (processes : Nat → Option Process) (es : List Event)
      (x : State × Clock),
      Run (ghosted step clock) (fun x e => Timely x e ∧ Brief limit x e)
        (State.init vm jiffies processes, .start jiffies) es x →
      Timely x .fire → ∀ i ∈ (callbackStores x.1).map Prod.fst, Inside i) ↔
    limit ≤ 80000 := by
  constructor
  · intro inside
    by_contra long
    have least : Brief 80001 ≤ Brief limit := by
      intro x e within
      cases e with
      | tick => exact fun on => by have := within on; omega
      | _ => trivial
    obtain ⟨es, x, run, cadence⟩ := cadence_run 80001 (by decide) 15999 (by decide)
      (by decide)
    obtain ⟨es', y, waited, due⟩ := cadence.ticks run delayed (by decide) (by decide)
    have small : y.1.offset < vmElementSize := by
      rw [due.offset]
      decide
    have stored : 64000 ∈ (callbackStores y.1).map Prod.fst := by
      rw [callbackStores, if_neg (by simp [due.unfilled]), mem_stores small, due.offset]
      decide
    have fires : Timely y .fire := by
      refine ⟨due.queued, ?_⟩
      rw [due.due, due.now]
      exact Nat.le_refl _
    have behind : Inside 64000 := inside _ _ _ _ y
      (waited.imp fun x e allowed => ⟨allowed.1, least x e allowed.2⟩) fires _ stored
    exact absurd behind (by decide)
  · intro short vm jiffies processes es x run fires i mem
    exact brief_inside short run fires mem

end

end KernelModules.MP3
