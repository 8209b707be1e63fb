import KernelModules.MP2.Schedule

/-!
# No job before its period

Ghost state records, for every entry, the times at which it was yielded since it was
registered. `Paced` relates that record to `next_period`, the timer and the state: an entry
that is not due yet sleeps, and its timer is not set for an earlier time.
-/

namespace KernelModules.MP2

/-- The times of the yields of the entry at each address. -/
abbrev Yields := Addr → List Nat

def recordYields (ys : Yields) (s : State) : Event → Yields
  | .write w =>
    match w.request with
    | some (.register _ _ _) => Function.update ys w.slab []
    | some (.yield pid) =>
      match findByPid s pid with
      | some t => Function.update ys t.addr (ys t.addr ++ [s.jiffies])
      | none => ys
    | _ => ys
  | _ => ys

/-- A timer expires at or after the time it is set for. -/
def Due (s : State) : Event → Prop
  | .expire a => ∀ t ∈ s.head, t.addr = a → ∀ x ∈ t.tm, x ≤ s.jiffies
  | _ => True

instance (s : State) (e : Event) : Decidable (Due s e) :=
  match e with
  | .expire a => inferInstanceAs (Decidable (∀ t ∈ s.head, t.addr = a → ∀ x ∈ t.tm, x ≤ s.jiffies))
  | .write _ => .isTrue trivial
  | .dispatch => .isTrue trivial
  | .tick => .isTrue trivial
  | .fork _ => .isTrue trivial
  | .exit _ => .isTrue trivial

/-- The begin of the period the last of the yields `ys` asked for. -/
def begin (t : Task) (first : Nat) (ys : List Nat) : Nat :=
  first + (ys.length - 1) * t.periodJiffies

structure Paced (now : Nat) (ys : List Nat) (t : Task) : Prop where
  past : ∀ first ∈ ys.head?, first ≤ now
  fresh : ys = [] → t.nextPeriod = 0
  /-- An entry activated at time 0 with a period of no jiffies is taken for new again. -/
  again : t.nextPeriod = 0 → ys = [] ∨ t.periodJiffies = 0
  schedule : ∀ first ∈ ys.head?, t.periodJiffies ≠ 0 →
    t.nextPeriod = first + ys.length * t.periodJiffies
  due : ∀ first ∈ ys.head?, begin t first ys ≤ now ∨
    (t.state = .sleeping ∧ ∀ x ∈ t.tm, begin t first ys ≤ x)

theorem Paced.later {now now' : Nat} {ys : List Nat} {t : Task} (h : Paced now ys t)
    (later : now ≤ now') : Paced now' ys t := by
  refine ⟨fun first hf => Nat.le_trans (h.past first hf) later, h.fresh, h.again, h.schedule,
    fun first hf => ?_⟩
  rcases h.due first hf with due | sleeping
  · exact .inl (Nat.le_trans due later)
  · exact .inr sleeping

theorem Paced.new {now : Nat} {t : Task} (h : t.nextPeriod = 0) : Paced now [] t :=
  ⟨by simp, by simp [h], by simp, by simp, by simp⟩

theorem head_append {ys : List Nat} (h : ys ≠ []) (time : Nat) :
    (ys ++ [time]).head? = ys.head? := by
  cases ys with
  | nil => exact absurd rfl h
  | cons y ys => rfl

/-- With a period of no jiffies every period begins with the first. -/
theorem Paced.instant {now : Nat} {ys : List Nat} {t : Task} (time : Nat)
    (past : ∀ first ∈ ys.head?, first ≤ now) (used : ys ≠ []) (zero : t.periodJiffies = 0) :
    Paced now (ys ++ [time]) t := by
  refine ⟨?_, by simp, fun _ => .inr zero, fun _ _ nonzero => absurd zero nonzero, ?_⟩
  · rw [head_append used]
    exact past
  · intro first hf
    rw [head_append used] at hf
    rw [begin, zero, Nat.mul_zero]
    exact .inl (past first hf)

theorem Paced.activated {now : Nat} {ys : List Nat} {t : Task} (h : Paced now ys t)
    (first : t.nextPeriod = 0) (fits : now + t.periodJiffies < 2 ^ 64) :
    Paced now (ys ++ [now]) (activated now t) := by
  have next : (MP2.activated now t).nextPeriod = now + t.periodJiffies := Nat.mod_eq_of_lt fits
  have pace : (MP2.activated now t).periodJiffies = t.periodJiffies := rfl
  by_cases new : ys = []
  · subst new
    refine ⟨?_, by simp, ?_, ?_, ?_⟩
    · rintro _ ⟨⟩
      exact Nat.le_refl _
    · rw [next, pace]
      omega
    · rintro _ ⟨⟩ _
      rw [next, pace]
      simp
    · rintro _ ⟨⟩
      exact .inl (by simp [begin])
  · exact .instant now h.past new ((h.again first).resolve_left new)

/-- The last yield moved `next_period` on to where the period after it begins. -/
theorem Paced.begin_next {now : Nat} {ys : List Nat} {t : Task} (h : Paced now ys t)
    {first : Nat} (hf : first ∈ ys.head?) (nonzero : t.periodJiffies ≠ 0) (time : Nat) :
    begin t first (ys ++ [time]) = t.nextPeriod := by
  rw [h.schedule first hf nonzero]
  simp [begin]

theorem Paced.yielded {now : Nat} {ys : List Nat} {t t' : Task} (h : Paced now ys t)
    (later : t.nextPeriod ≠ 0) (fits : t.nextPeriod + t.periodJiffies < 2 ^ 64)
    (next : t'.nextPeriod = Arith.c.u64 (t.nextPeriod + t.periodJiffies))
    (period : t'.period = t.period)
    (due : t.nextPeriod ≤ now ∨ (t'.state = .sleeping ∧ t'.tm = some t.nextPeriod)) :
    Paced now (ys ++ [now]) t' := by
  have hy : ys ≠ [] := mt h.fresh later
  have pace : t'.periodJiffies = t.periodJiffies := by rw [Task.periodJiffies, period]; rfl
  by_cases zero : t.periodJiffies = 0
  · exact .instant now h.past hy (pace.trans zero)
  rw [Arith.c_u64, Nat.mod_eq_of_lt fits] at next
  refine ⟨?_, by simp, ?_, ?_, ?_⟩
  · rw [head_append hy]
    exact h.past
  · rw [next]
    omega
  · intro first hf _
    rw [head_append hy] at hf
    rw [next, pace, h.schedule first hf zero, List.length_append, List.length_singleton,
      Nat.add_mul]
    omega
  · intro first hf
    rw [head_append hy] at hf
    have same : begin t' first (ys ++ [now]) = t.nextPeriod := by
      rw [← h.begin_next hf zero now, begin, begin, pace]
    rw [same]
    rcases due with due | ⟨sleeping, tm⟩
    · exact .inl due
    · exact .inr ⟨sleeping, by simp [tm]⟩

theorem Paced.expired {now : Nat} {ys : List Nat} {t : Task} (h : Paced now ys t)
    (armed : t.tm ≠ none) (due : ∀ x ∈ t.tm, x ≤ now) : Paced now ys (expired t) := by
  refine ⟨h.past, h.fresh, h.again, h.schedule, fun first hf => .inl ?_⟩
  rcases h.due first hf with passed | ⟨_, timer⟩
  · exact passed
  · obtain ⟨x, hx⟩ := Option.ne_none_iff_exists'.mp armed
    exact Nat.le_trans (timer x hx) (due x hx)

theorem Paced.state {now : Nat} {ys : List Nat} {t : Task} {state : TaskState}
    (h : Paced now ys t) (sleeps : t.state = .sleeping → state = .sleeping) :
    Paced now ys { t with state := state } := by
  refine ⟨h.past, h.fresh, h.again, h.schedule, fun first hf => ?_⟩
  rcases h.due first hf with passed | ⟨sleeping, timer⟩
  · exact .inl passed
  · exact .inr ⟨sleeps sleeping, timer⟩

/-- A write that is no yield leaves the record of every entry on the list alone. -/
theorem recordYields_other {ys : Yields} {s : State} {e : Event} (other : e.yields = none)
    (possible : Possible s e) {t : Task} (ht : t ∈ s.head) :
    recordYields ys s e t.addr = ys t.addr := by
  cases e with
  | write w =>
    simp only [recordYields]
    cases hr : w.request with
    | none => rfl
    | some r =>
      cases r with
      | register pid p c => exact Function.update_of_ne (possible t ht) _ _
      | yield pid => simp [Event.yields, Event.request, hr] at other
      | deregister pid => rfl
  | _ => rfl

theorem recordYields_register {ys : Yields} {s : State} {w : Write} {pid : Int} {p c : Nat}
    (asked : w.request = some (.register pid p c)) : recordYields ys s (.write w) w.slab = [] := by
  simp [recordYields, asked]

theorem recordYields_yield {ys : Yields} {s : State} {w : Write} {pid : Int} {t : Task}
    (asked : w.request = some (.yield pid)) (found : findByPid s pid = some t) :
    recordYields ys s (.write w) = Function.update ys t.addr (ys t.addr ++ [s.jiffies]) := by
  simp [recordYields, asked, found]

/-- A yield changes the entry it names and that entry's record, and no other. -/
theorem paced_update {s s' : State} {ys : Yields} (unique : Unique s)
    (paced : ∀ t ∈ s.head, Paced s.jiffies (ys t.addr) t) {f : Task → Task} (keeps : Keeps f)
    {t : Task} (ht : t ∈ s.head) (head : s'.head = updateAt t.addr f s.head)
    (time : s'.jiffies = s.jiffies)
    (this : Paced s.jiffies (ys t.addr ++ [s.jiffies]) (f t)) :
    ∀ x ∈ s'.head, Paced s'.jiffies
      (Function.update ys t.addr (ys t.addr ++ [s.jiffies]) x.addr) x := by
  intro x hx
  rw [time]
  rw [head] at hx
  obtain ⟨u, hu, ⟨ha, rfl⟩ | ⟨ha, rfl⟩⟩ := mem_updateAt hx
  · rw [(keeps u).1, ha, Function.update_self, unique.eq hu ht ha]
    exact this
  · rw [Function.update_of_ne ha]
    exact paced x hu

theorem paced_step {s s' : State} {e : Event} {ys : Yields} (unique : Unique s)
    (paced : ∀ t ∈ s.head, Paced s.jiffies (ys t.addr) t) (possible : Possible s e) (due : Due s e)
    (wraps : NoWrap s e) (eff : Effect s e s') :
    ∀ t ∈ s'.head, Paced s'.jiffies (recordYields ys s e t.addr) t := by
  cases eff with
  | idle other head _ _ time =>
    intro t ht
    rw [head] at ht
    rw [recordYields_other other possible ht]
    exact (paced t ht).later time
  | @enroll w _ pid p c asked _ head _ _ frame =>
    intro t ht
    rw [head] at ht
    rw [frame.1]
    rcases List.mem_append.mp ht with ht | ht
    · rw [recordYields_other (by simp [Event.yields, Event.request, asked]) possible ht]
      exact paced t ht
    · rw [List.mem_singleton.mp ht]
      change Paced _ (recordYields ys s (.write w) w.slab) _
      rw [recordYields_register asked]
      exact .new rfl
  | remove pid t asked found head _ _ frame =>
    intro x hx
    rw [head] at hx
    have hx := List.mem_of_mem_eraseP hx
    rw [recordYields_other (by simp [Event.yields, Event.request, asked]) possible hx, frame.1]
    exact paced x hx
  | activate pid t asked found first head _ _ frame =>
    have ht := findByPid_mem found
    have fits := (wraps pid (by simp [Event.yields, Event.request, asked]) t found).1 first
    rw [recordYields_yield asked found]
    exact paced_update unique paced (activated_keeps _) ht head frame.1
      ((paced t ht).activated first fits)
  | advance pid t asked found later late head _ _ frame =>
    have ht := findByPid_mem found
    have fits := (wraps pid (by simp [Event.yields, Event.request, asked]) t found).2
    rw [recordYields_yield asked found]
    exact paced_update unique paced advanced_keeps ht head frame.1
      ((paced t ht).yielded later fits rfl rfl (.inl late))
  | suspend pid t asked found later early head _ _ frame =>
    have ht := findByPid_mem found
    have fits := (wraps pid (by simp [Event.yields, Event.request, asked]) t found).2
    rw [recordYields_yield asked found]
    exact paced_update unique paced suspended_keeps ht head frame.1
      ((paced t ht).yielded later fits rfl rfl (.inr ⟨rfl, rfl⟩))
  | expire head _ _ frame =>
    intro x hx
    rw [head] at hx
    rw [frame.1]
    obtain ⟨t, ht, ⟨ha, rfl⟩ | ⟨_, rfl⟩⟩ := mem_updateAt hx
    · obtain ⟨u, hu, hua, armed⟩ := possible
      rw [unique.eq hu ht (hua.trans ha.symm)] at armed
      exact (paced t ht).expired armed (due t ht ha)
    · exact paced x ht
  | switch next chosen _ head _ _ frame =>
    intro x hx
    rw [head] at hx
    rw [frame.1]
    obtain ⟨t, ht, rfl⟩ := List.mem_map.mp hx
    apply (paced t ht).state
    intro sleeping
    obtain ⟨hm, awake, _, _⟩ := (scan_spec s.head).1 next chosen
    have hn : t.addr ≠ next.addr := fun same => awake (unique.eq ht hm same ▸ sleeping)
    simp [hn, sleeping]

/-- **The rate limit.** An entry first yielded at `first` and yielded `n` times in all is
ready or running only from `first + (n - 1) * pj` on. -/
theorem rate_limited {j : Nat} {processes : Nat → Option Process} {es : List Event} {s : State}
    {ys : Yields}
    (run : Run (ghosted step recordYields)
      (fun x e => Possible x.1 e ∧ Due x.1 e ∧ NoWrap x.1 e)
      (State.init j processes, fun _ => []) es (s, ys)) :
    ∀ t ∈ s.head, ∀ first ∈ (ys t.addr).head?, t.state = .ready ∨ t.state = .running →
      first + ((ys t.addr).length - 1) * t.periodJiffies ≤ s.jiffies := by
  have h : Unique s ∧ ∀ t ∈ s.head, Paced s.jiffies (ys t.addr) t := by
    apply run.invariant (I := fun x : State × Yields =>
      Unique x.1 ∧ ∀ t ∈ x.1.head, Paced x.1.jiffies (x.2 t.addr) t)
    · exact ⟨List.nodup_nil, by simp [State.init]⟩
    · rintro x e y ⟨unique, paced⟩ ⟨possible, due, wraps⟩ stepped
      obtain ⟨stepped, record⟩ := ghosted_ok stepped
      have eff := step_effect stepped
      rw [record]
      exact ⟨unique.step possible eff, paced_step unique paced possible due wraps eff⟩
  intro t ht first hf awake
  rcases (h.2 t ht).due first hf with due | ⟨sleeping, _⟩
  · exact due
  · rw [sleeping] at awake
    simp at awake

/-- A task with a period of two jiffies yields at 1 and again at 2, and is released at 3. -/
theorem rate_limited_early_yield :
    ∃ (s : State) (ys : Yields), s.jiffies = 3 ∧ ys 1 = [1, 2] ∧
      s.head.map Task.state = [.ready] ∧
      ∀ t ∈ s.head, ∀ first ∈ (ys t.addr).head?, t.state = .ready ∨ t.state = .running →
        first + ((ys t.addr).length - 1) * t.periodJiffies ≤ s.jiffies := by
  have released : (replay (ghosted step recordYields)
      (fun x e => Possible x.1 e ∧ Due x.1 e ∧ NoWrap x.1 e)
      (State.init 1 fun _ => none, fun _ => [])
      [.fork 7, .write (.text "R,7,20,1\n" 1), .write (.text "Y,7\n" 2), .dispatch, .tick,
        .write (.text "Y,7\n" 2), .tick, .expire 1]).map
      (fun x => (x.1.jiffies, x.2 1, x.1.head.map Task.state)) = some (3, [1, 2], [.ready]) := by
    decide
  obtain ⟨⟨s, ys⟩, run, hs⟩ := Option.map_eq_some_iff.mp released
  simp only [Prod.mk.injEq] at hs
  exact ⟨s, ys, hs.1, hs.2.1, hs.2.2, rate_limited (.of_replay run)⟩

end KernelModules.MP2
