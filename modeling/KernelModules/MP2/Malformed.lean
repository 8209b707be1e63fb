import KernelModules.MP2.System

/-!
# Malformed writes

What a well-formed write is, and exactly which malformed ones change nothing. The parser
falls through to the `switch` with whatever fields it has, so a malformed write is as good as
the request those fields make.
-/

namespace KernelModules.MP2

/-- `R,<int>,<int>,<int>`, `Y,<int>` or `D,<int>`, with at most one newline at the end. -/
def wellFormed (text : List UInt8) : Bool :=
  let int (field : List UInt8) : Bool := (decimalInt field).isSome
  match (chomp text).splitOn 44 with
  | [[82], pid, period, computation] => int pid && int period && int computation
  | [[89], pid] => int pid
  | [[68], pid] => int pid
  | _ => false

example : wellFormed (bytes "R,7,500,86\n") = true := by decide

/-- The list, its entries, `curr_tsk` and the two counters are as before. -/
def Unchanged (s : State) (r : Except Fault State) : Prop :=
  ∃ s', r = .ok s' ∧ s'.head = s.head ∧ s'.currTsk = s.currTsk ∧ s'.usage = s.usage

/-- A yield of the entry writes only values that are already there. -/
def YieldIdle (s : State) (t : Task) : Prop :=
  (t.nextPeriod = 0 → t.state = .ready ∧ (s.jiffies + t.periodJiffies) % 2 ^ 64 = 0) ∧
  (t.nextPeriod ≠ 0 → (t.nextPeriod + t.periodJiffies) % 2 ^ 64 = t.nextPeriod) ∧
  (s.jiffies < t.nextPeriod → t.state = .sleeping ∧ t.tm = some t.nextPeriod ∧ t.tsk ≠ none ∧
    s.currTsk ≠ some t.addr)

/-- The request changes nothing: admission control refuses it, no entry has its pid, or it
yields an entry that is left as it was. -/
def Request.Inert (s : State) : Request → Prop
  | .register pid p c => (admissionControl .c s.usage p c (toU32 pid) 0).1 ≠ 0
  | .deregister pid => findByPid s pid = none
  | .yield pid => ∃ t ∈ findByPid s pid, YieldIdle s t

theorem updateAt_eq_self {s : State} (unique : Unique s) {t : Task} (ht : t ∈ s.head)
    (f : Task → Task) : updateAt t.addr f s.head = s.head ↔ f t = t := by
  have pointwise : updateAt t.addr f s.head = s.head.map id ↔ _ := List.map_inj_left
  rw [List.map_id] at pointwise
  rw [pointwise]
  constructor
  · intro same
    simpa using same t ht
  · intro same u hu
    by_cases ha : u.addr = t.addr
    · simp [unique.eq hu ht ha, same]
    · simp [ha]

theorem activated_eq_self {j : Nat} {t : Task} :
    activated j t = t ↔ (j + t.periodJiffies) % 2 ^ 64 = t.nextPeriod ∧ t.state = .ready := by
  cases t
  simp [activated, eq_comm, and_comm]

theorem advanced_eq_self {t : Task} :
    advanced t = t ↔ (t.nextPeriod + t.periodJiffies) % 2 ^ 64 = t.nextPeriod := by
  cases t
  simp [advanced]

theorem suspended_eq_self {t : Task} :
    suspended t = t ↔ t.state = .sleeping ∧ t.tm = some t.nextPeriod ∧
      (t.nextPeriod + t.periodJiffies) % 2 ^ 64 = t.nextPeriod := by
  constructor
  · intro same
    have state := congrArg Task.state same
    have tm := congrArg Task.tm same
    have next := congrArg Task.nextPeriod same
    exact ⟨state.symm, tm.symm, next⟩
  · rintro ⟨state, tm, next⟩
    cases t
    simp_all [suspended]

theorem unchanged_ok {s s' : State} :
    Unchanged s (.ok s') ↔ s'.head = s.head ∧ s'.currTsk = s.currTsk ∧ s'.usage = s.usage := by
  constructor
  · rintro ⟨_, ⟨⟩, h⟩
    exact h
  · exact fun h => ⟨s', rfl, h⟩

theorem yieldEntry_unchanged_iff {s : State} (unique : Unique s) {pid : Int} {t : Task}
    (found : findByPid s pid = some t) : Unchanged s (yieldEntry s pid) ↔ YieldIdle s t := by
  have ht := findByPid_mem found
  by_cases first : t.nextPeriod = 0
  · rw [yieldEntry_first found first, unchanged_ok]
    simp [updateAt_eq_self unique ht, activated_eq_self, YieldIdle, first, and_comm]
  · by_cases early : s.jiffies < t.nextPeriod
    · rw [yieldEntry_early found first early]
      cases hp : t.tsk with
      | none =>
        simp [YieldIdle, first, early, hp, Unchanged]
      | some p =>
        have cleared : ((if s.currTsk = some t.addr then none else s.currTsk) = s.currTsk) ↔
            s.currTsk ≠ some t.addr := by
          by_cases hc : s.currTsk = some t.addr <;> simp [hc]
        rw [unchanged_ok, updateAt_eq_self unique ht, suspended_eq_self, cleared]
        constructor
        · rintro ⟨⟨sleeping, tm, next⟩, other, -⟩
          exact ⟨fun zero => absurd zero first, fun _ => next,
            fun _ => ⟨sleeping, tm, by simp [hp], other⟩⟩
        · rintro ⟨-, next, idle⟩
          obtain ⟨sleeping, tm, -, other⟩ := idle early
          exact ⟨⟨sleeping, tm, next first⟩, other, rfl⟩
    · rw [yieldEntry_late found first (by omega), unchanged_ok]
      simp [updateAt_eq_self unique ht, advanced_eq_self, YieldIdle, first, early]

theorem perform_unchanged_iff {s : State} (unique : Unique s) (slab : Addr) (r : Request) :
    Unchanged s (perform .c slab s r) ↔ r.Inert s := by
  cases r with
  | register pid p c =>
    by_cases admitted : (admissionControl .c s.usage p c (toU32 pid) 0).1 = 0
    · simp [perform, regEntry_admitted admitted, unchanged_ok, Request.Inert, admitted]
    · simp [perform, regEntry_refused admitted, unchanged_ok, Request.Inert, admitted]
  | deregister pid =>
    cases found : findByPid s pid with
    | none => simp [perform, deregEntry_missing found, unchanged_ok, Request.Inert, found]
    | some t =>
      have shorter : s.head.eraseP (fun x => decide (x.addr = t.addr)) ≠ s.head := by
        intro same
        have hl := List.length_eraseP_of_mem (p := fun x : Task => decide (x.addr = t.addr))
          (findByPid_mem found) (by simp)
        have hpos := List.length_pos_of_mem (findByPid_mem found)
        rw [same] at hl
        omega
      simp [perform, deregEntry_found found, unchanged_ok, Request.Inert, found, shorter]
  | yield pid =>
    cases found : findByPid s pid with
    | none => simp [perform, yieldEntry_missing found, Unchanged, Request.Inert, found]
    | some t => simp [perform, yieldEntry_unchanged_iff unique found, Request.Inert, found]

theorem reaches_unique {j : Nat} {processes : Nat → Option Process} {es : List Event} {s : State}
    (run : Reaches Possible j processes es s) : Unique s := by
  apply run.invariant (I := Unique) List.nodup_nil
  exact fun s e t h possible stepped => h.step possible (step_effect stepped)

/-- **When a malformed write has no effect.** In every reachable state: when its first byte
names no operation, or the request its fields make is inert there. -/
theorem malformed_unchanged_iff {j : Nat} {processes : Nat → Option Process} {es : List Event}
    {s : State} (run : Reaches Possible j processes es s) (w : Write) :
    (wellFormed (cstr w.buff) = false → Unchanged s (mywrite s w)) ↔
      (wellFormed (cstr w.buff) = true ∨ ∀ r ∈ w.request, r.Inert s) := by
  have unique := reaches_unique run
  have unchanged : Unchanged s (mywrite s w) ↔ ∀ r ∈ w.request, r.Inert s := by
    unfold mywrite
    cases w.request with
    | none => simp [unchanged_ok]
    | some r => simp [perform_unchanged_iff unique]
  rw [unchanged]
  cases wellFormed (cstr w.buff) <;> simp

theorem malformed_unchanged_iff_unknown_operation :
    ∃ s : State, s.head.map Task.load = [(500, 86)] ∧
      Unchanged s (mywrite s (.text "Q,7,500\n" 2)) := by
  have one : (replay step Possible (.init 1 fun _ => none)
      [.write (.text "R,7,500,86\n" 1)]).map (fun s => s.head.map Task.load) =
      some [(500, 86)] := by decide
  obtain ⟨s, run, hs⟩ := Option.map_eq_some_iff.mp one
  have none : ∀ r ∈ (Write.text "Q,7,500\n" 2).request, r.Inert s := by
    intro r hr
    have : (Write.text "Q,7,500\n" 2).request = none := by decide
    rw [this] at hr
    cases hr
  exact ⟨s, hs, (malformed_unchanged_iff (.of_replay run) _).mpr (.inr none) (by decide)⟩

/-- A register request without its last field puts an entry for pid 0 with period 0 and
computation 0 on the list. -/
theorem malformed_registers :
    wellFormed (cstr (Write.text "R,7,500\n" 1).buff) = false ∧
    ¬ Unchanged (.init 1 fun _ => none)
      (mywrite (.init 1 fun _ => none) (.text "R,7,500\n" 1)) := by
  refine ⟨by decide, ?_⟩
  change ¬ Unchanged _ (perform .c 1 (.init 1 fun _ => none) (.register 0 0 0))
  rw [perform_unchanged_iff (s := .init 1 fun _ => none) List.nodup_nil]
  exact fun refused => refused (by decide)

end KernelModules.MP2
