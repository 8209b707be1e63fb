import KernelModules.MP2.System
import Mathlib.Tactic.NormNum

/-!
# The fraction follows the list

`Accounted` says that the fraction in the globals stands for the sum of the shares of the
tasks on the list. It is kept as long as no product that is stored wraps around: always in
ideal arithmetic, and in the machine's under `SumFits` and `DiffFits`. What admission decides
then depends on the tasks alone, and the sum never passes 693 / 1000.
-/

namespace KernelModules.MP2

structure Accounted (s : State) : Prop where
  unique : Unique s
  periods : ∀ t ∈ s.head, 0 < t.period
  sum : Denotes s.usage.numerator s.usage.denominator (utilization s.head)

theorem Accounted.init (j : Nat) (processes : Nat → Option Process) :
    Accounted (.init j processes) :=
  ⟨List.nodup_nil, by simp [State.init], fun _ => rfl, fun h => absurd rfl h⟩

section
variable {A : Arith} {s s' : State} (h : Accounted s)
include h

theorem Accounted.enroll {slab : Addr} {pid : Int} {p c : Nat}
    (free : ∀ t ∈ s.head, t.addr ≠ slab) (hp : 0 < p) (exact : SumExact A s.usage p c)
    (admitted : (admissionControl A s.usage p c (toU32 pid) 0).1 = 0)
    (head : s'.head = s.head ++ [newTask slab s pid p c])
    (usage : s'.usage = (admissionControl A s.usage p c (toU32 pid) 0).2) : Accounted s' where
  unique := by
    rw [Unique, head]
    exact h.unique.append free
  periods := by
    intro t ht
    rw [head] at ht
    rcases List.mem_append.mp ht with ht | ht
    · exact h.periods t ht
    · rw [List.mem_singleton.mp ht]
      exact hp
  sum := by
    rw [head, usage, utilization_append_singleton]
    exact admitted_denotes h.sum hp exact admitted

theorem Accounted.erased {t : Task} (ht : t ∈ s.head) :
    utilization (s.head.eraseP fun x => decide (x.addr = t.addr)) =
      utilization s.head - (t.computation : ℚ) / t.period :=
  utilization_eraseP (h.unique.entry ht)

theorem Accounted.remove {t : Task} (ht : t ∈ s.head)
    (exact : DiffExact A s.usage t.period t.computation)
    (head : s'.head = s.head.eraseP fun x => decide (x.addr = t.addr))
    (usage : s'.usage = (admissionControl A s.usage t.period t.computation t.pid 1).2) :
    Accounted s' where
  unique := by
    rw [Unique, head]
    exact h.unique.erase _
  periods := by
    intro x hx
    rw [head] at hx
    exact h.periods x (List.mem_of_mem_eraseP hx)
  sum := by
    rw [head, usage, h.erased ht]
    exact removed_denotes t.pid h.sum (h.periods t ht) exact (share_le_utilization ht)

theorem Accounted.keep {f : Task → Task} (keeps : Keeps f) (head : s'.head = s.head.map f)
    (usage : s'.usage = s.usage) : Accounted s' where
  unique := by
    rw [Unique, head, keeps.map_addr]
    exact h.unique
  periods := by
    intro x hx
    rw [head] at hx
    obtain ⟨t, ht, rfl⟩ := List.mem_map.mp hx
    rw [(keeps t).2.2.2.1]
    exact h.periods t ht
  sum := by
    rw [head, usage, keeps.utilization]
    exact h.sum

theorem Accounted.regEntry {slab : Addr} {pid : Int} {p c : Nat}
    (free : ∀ t ∈ s.head, t.addr ≠ slab) (hp : 0 < p) (exact : SumExact A s.usage p c) :
    Accounted (regEntry A slab s pid p c).2 := by
  by_cases admitted : (admissionControl A s.usage p c (toU32 pid) 0).1 = 0
  · rw [regEntry_admitted admitted]
    exact h.enroll free hp exact admitted rfl rfl
  · rw [regEntry_refused admitted]
    exact h

theorem Accounted.deregEntry {pid : Int}
    (exact : ∀ t ∈ findByPid s pid, DiffExact A s.usage t.period t.computation) :
    Accounted (deregEntry A s pid).2 := by
  cases found : findByPid s pid with
  | none =>
    rw [deregEntry_missing found]
    exact h
  | some t =>
    rw [deregEntry_found found]
    exact h.remove (findByPid_mem found) (exact t found) rfl rfl

end

/-! ## Ideal arithmetic -/

/-- One request, with the address the allocator would hand out. -/
def requestStep (A : Arith) (s : State) (x : Request × Addr) : Except Fault State :=
  perform A x.2 s x.1

/-- A registration with a positive period, or a deregistration of a task on the list. -/
def Sound (s : State) (x : Request × Addr) : Prop :=
  (∀ t ∈ s.head, t.addr ≠ x.2) ∧
  match x.1 with
  | .register _ period _ => 1 ≤ period
  | .deregister pid => findByPid s pid ≠ none
  | .yield _ => False

instance (s : State) (x : Request × Addr) : Decidable (Sound s x) :=
  match x with
  | (.register _ period _, a) =>
    inferInstanceAs (Decidable ((∀ t ∈ s.head, t.addr ≠ a) ∧ 1 ≤ period))
  | (.deregister pid, a) =>
    inferInstanceAs (Decidable ((∀ t ∈ s.head, t.addr ≠ a) ∧ findByPid s pid ≠ none))
  | (.yield _, a) => inferInstanceAs (Decidable ((∀ t ∈ s.head, t.addr ≠ a) ∧ False))

theorem ideal_accounted {j : Nat} {processes : Nat → Option Process}
    {es : List (Request × Addr)} {s : State}
    (run : Run (requestStep .ideal) Sound (.init j processes) es s) : Accounted s := by
  apply run.invariant (.init j processes)
  rintro s ⟨r, slab⟩ t h ⟨free, sound⟩ stepped
  cases r with
  | register pid p c =>
    cases stepped
    exact h.regEntry free sound (sumExact_ideal _ _ _)
  | yield pid => exact sound.elim
  | deregister pid =>
    cases stepped
    exact h.deregEntry fun t _ => diffExact_ideal _ _ _

/-- **Over unbounded naturals the accounting is exact.** The fraction is the sum of the
shares, a request is admitted exactly when the new sum is at most 693 / 1000, a refused one
changes nothing, and a removal sets the numerator to 0 only when nothing is left. -/
theorem ideal_accounting {j : Nat} {processes : Nat → Option Process}
    {es : List (Request × Addr)} {s : State}
    (run : Run (requestStep .ideal) Sound (.init j processes) es s) :
    (s.usage.numerator = 0 → utilization s.head = 0) ∧
    (s.usage.numerator ≠ 0 → 0 < s.usage.denominator ∧
      (s.usage.numerator : ℚ) / s.usage.denominator = utilization s.head) ∧
    (∀ slab pid p c, 1 ≤ p →
      ((regEntry .ideal slab s pid p c).1 = 0 ↔
        utilization s.head + (c : ℚ) / p ≤ 693 / 1000) ∧
      ((regEntry .ideal slab s pid p c).1 ≠ 0 →
        (regEntry .ideal slab s pid p c).2.usage = s.usage ∧
        (regEntry .ideal slab s pid p c).2.head = s.head)) ∧
    (∀ pid t, findByPid s pid = some t →
      s.usage.numerator * t.period ≤ t.computation * s.usage.denominator →
      utilization (deregEntry .ideal s pid).2.head = 0) := by
  have h := ideal_accounted run
  refine ⟨h.sum.zero, h.sum.ratio, fun slab pid p c hp => ⟨?_, ?_⟩, ?_⟩
  · rw [← admitted_iff (toU32 pid) h.sum hp (sumExact_ideal _ _ _) (checkExact_ideal _ _ _)]
    by_cases admitted : (admissionControl .ideal s.usage p c (toU32 pid) 0).1 = 0
    · simp [regEntry_admitted admitted, admitted]
    · simp [regEntry_refused admitted, admitted]
  · intro refused
    by_cases admitted : (admissionControl .ideal s.usage p c (toU32 pid) 0).1 = 0
    · simp [regEntry_admitted admitted] at refused
    · simp [regEntry_refused admitted]
  · intro pid t found clamped
    have ht := findByPid_mem found
    rw [deregEntry_found found, h.erased ht]
    exact h.sum.clamped (h.periods t ht) (share_le_utilization ht) clamped

/-- Two tasks of the test script come, the first one leaves. -/
theorem ideal_accounting_two_tasks :
    ∃ s : State, s.head.map Task.load = [(300, 43)] ∧
      (s.usage.numerator = 0 → utilization s.head = 0) ∧
      (s.usage.numerator ≠ 0 → 0 < s.usage.denominator ∧
        (s.usage.numerator : ℚ) / s.usage.denominator = utilization s.head) ∧
      (∀ slab pid p c, 1 ≤ p →
        ((regEntry .ideal slab s pid p c).1 = 0 ↔
          utilization s.head + (c : ℚ) / p ≤ 693 / 1000) ∧
        ((regEntry .ideal slab s pid p c).1 ≠ 0 →
          (regEntry .ideal slab s pid p c).2.usage = s.usage ∧
          (regEntry .ideal slab s pid p c).2.head = s.head)) ∧
      (∀ pid t, findByPid s pid = some t →
        s.usage.numerator * t.period ≤ t.computation * s.usage.denominator →
        utilization (deregEntry .ideal s pid).2.head = 0) := by
  have left : (replay (requestStep .ideal) Sound (.init 1 fun _ => none)
      [(.register 7 500 86, 1), (.register 8 300 43, 2), (.deregister 7, 3)]).map
      (fun s => s.head.map Task.load) = some [(300, 43)] := by decide
  obtain ⟨s, run, loads⟩ := Option.map_eq_some_iff.mp left
  exact ⟨s, loads, ideal_accounting (.of_replay run)⟩

/-! ## The machine's arithmetic -/

/-- The fraction a register request would store fits 64 bits. -/
def SumFits (u : Usage) (p c : Nat) : Prop :=
  u.numerator ≠ 0 → u.numerator * p + c * u.denominator < 2 ^ 64 ∧ u.denominator * p < 2 ^ 64

/-- So do both sides of its comparison with 693 / 1000. -/
def CompareFits (u : Usage) (p c : Nat) : Prop :=
  u.numerator ≠ 0 →
    (u.numerator * p + c * u.denominator) * 1000 < 2 ^ 64 ∧ 693 * (u.denominator * p) < 2 ^ 64

/-- Both sides of the comparison for the first task fit 32 bits. -/
def FirstFits (u : Usage) (p c : Nat) : Prop :=
  u.numerator = 0 → c * 1000 < 2 ^ 32 ∧ 693 * p < 2 ^ 32

/-- The products a deregistration forms fit 64 bits. -/
def DiffFits (u : Usage) (p c : Nat) : Prop :=
  u.numerator * p < 2 ^ 64 ∧ c * u.denominator < 2 ^ 64 ∧
  (c * u.denominator < u.numerator * p → u.denominator * p < 2 ^ 64)

theorem SumFits.exact {u : Usage} {p c : Nat} (h : SumFits u p c) : SumExact .c u p c := by
  intro hn
  obtain ⟨sum, den⟩ := h hn
  simp only [Arith.c_u64]
  refine ⟨?_, ?_, ?_, ?_⟩ <;> apply Nat.mod_eq_of_lt <;> omega

theorem CompareFits.sumFits {u : Usage} {p c : Nat} (h : CompareFits u p c) : SumFits u p c := by
  intro hn
  obtain ⟨sum, den⟩ := h hn
  exact ⟨by omega, by omega⟩

theorem CompareFits.exact {u : Usage} {p c : Nat} (h : CompareFits u p c)
    (first : FirstFits u p c) : CheckExact .c u p c := by
  constructor
  · intro hn
    exact ⟨Nat.mod_eq_of_lt (first hn).1, Nat.mod_eq_of_lt (first hn).2⟩
  · intro hn
    exact ⟨Nat.mod_eq_of_lt (h hn).1, Nat.mod_eq_of_lt (h hn).2⟩

theorem DiffFits.exact {u : Usage} {p c : Nat} (h : DiffFits u p c) : DiffExact .c u p c :=
  ⟨Nat.mod_eq_of_lt h.1, Nat.mod_eq_of_lt h.2.1, fun large => Nat.mod_eq_of_lt (h.2.2 large)⟩

/-! ## Admission does not depend on history -/

/-- A registration with a positive period whose sum fits, or a deregistration whose products
fit. -/
def Fitting (s : State) (x : Request × Addr) : Prop :=
  (∀ t ∈ s.head, t.addr ≠ x.2) ∧
  match x.1 with
  | .register _ p c => 1 ≤ p ∧ SumFits s.usage p c
  | .deregister pid => ∀ t ∈ findByPid s pid, DiffFits s.usage t.period t.computation
  | .yield _ => False

instance (u : Usage) (p c : Nat) : Decidable (SumFits u p c) :=
  inferInstanceAs (Decidable (u.numerator ≠ 0 →
    u.numerator * p + c * u.denominator < 2 ^ 64 ∧ u.denominator * p < 2 ^ 64))

instance (u : Usage) (p c : Nat) : Decidable (CompareFits u p c) :=
  inferInstanceAs (Decidable (u.numerator ≠ 0 →
    (u.numerator * p + c * u.denominator) * 1000 < 2 ^ 64 ∧ 693 * (u.denominator * p) < 2 ^ 64))

instance (u : Usage) (p c : Nat) : Decidable (FirstFits u p c) :=
  inferInstanceAs (Decidable (u.numerator = 0 → c * 1000 < 2 ^ 32 ∧ 693 * p < 2 ^ 32))

instance (u : Usage) (p c : Nat) : Decidable (DiffFits u p c) :=
  inferInstanceAs (Decidable (u.numerator * p < 2 ^ 64 ∧ c * u.denominator < 2 ^ 64 ∧
    (c * u.denominator < u.numerator * p → u.denominator * p < 2 ^ 64)))

instance (s : State) (x : Request × Addr) : Decidable (Fitting s x) :=
  match x with
  | (.register _ p c, a) =>
    inferInstanceAs (Decidable ((∀ t ∈ s.head, t.addr ≠ a) ∧ 1 ≤ p ∧ SumFits s.usage p c))
  | (.deregister pid, a) =>
    inferInstanceAs (Decidable ((∀ t ∈ s.head, t.addr ≠ a) ∧
      ∀ t ∈ findByPid s pid, DiffFits s.usage t.period t.computation))
  | (.yield _, a) => inferInstanceAs (Decidable ((∀ t ∈ s.head, t.addr ≠ a) ∧ False))

theorem fitting_accounted {j : Nat} {processes : Nat → Option Process}
    {es : List (Request × Addr)} {s : State}
    (run : Run (requestStep .c) Fitting (.init j processes) es s) : Accounted s := by
  apply run.invariant (.init j processes)
  rintro s ⟨r, slab⟩ t h ⟨free, fits⟩ stepped
  cases r with
  | register pid p c =>
    cases stepped
    exact h.regEntry free fits.1 fits.2.exact
  | yield pid => exact fits.elim
  | deregister pid =>
    cases stepped
    exact h.deregEntry fun t found => (fits t found).exact

theorem verdict_eq {A : Arith} {u v : Usage} {p c pid : Nat}
    (h : (admissionControl A u p c pid 0).1 = 0 ↔ (admissionControl A v p c pid 0).1 = 0) :
    (admissionControl A u p c pid 0).1 = (admissionControl A v p c pid 0).1 := by
  have binary (w : Usage) : (admissionControl A w p c pid 0).1 = 0 ∨
      (admissionControl A w p c pid 0).1 = 1 := by
    simp only [admissionControl, zero_ne_one, ↓reduceIte]
    split <;> split <;> simp
  have hu := binary u
  have hv := binary v
  omega

/-- Two fractions for the same sum decide a request alike. -/
theorem verdict_of_sum {u v : Usage} {q : ℚ} (hu : Denotes u.numerator u.denominator q)
    (hv : Denotes v.numerator v.denominator q) {p c : Nat} (pid : Nat)
    (fu : CompareFits u p c) (fv : CompareFits v p c) :
    (admissionControl .c u p c pid 0).1 = (admissionControl .c v p c pid 0).1 := by
  by_cases hq : q = 0
  · have zu := hu.eq_zero_iff.mpr hq
    have zv := hv.eq_zero_iff.mpr hq
    simp only [admissionControl, zero_ne_one, zu, zv, ↓reduceIte]
    split <;> rfl
  · have nu := mt hu.eq_zero_iff.mp hq
    have nv := mt hv.eq_zero_iff.mp hq
    have cu := fu.exact fun z => absurd z nu
    have cv := fv.exact fun z => absurd z nv
    apply verdict_eq
    by_cases hp : 0 < p
    · rw [admitted_iff pid hu hp fu.sumFits.exact cu, admitted_iff pid hv hp fv.sumFits.exact cv]
    · -- with period 0 only the numerator `c * denominator` is left on either side
      have hp : p = 0 := by omega
      have du := (hu.ratio nu).1
      have dv := (hv.ratio nv).1
      rw [admitted_cross fu.sumFits.exact cu, admitted_cross fv.sumFits.exact cv]
      simp [nu, nv, hp, Nat.ne_of_gt du, Nat.ne_of_gt dv]

/-- **Admission depends on the tasks alone** along histories whose products fit. -/
theorem admission_history_independent {j j' : Nat} {processes processes' : Nat → Option Process}
    {es es' : List (Request × Addr)} {s s' : State}
    (run : Run (requestStep .c) Fitting (.init j processes) es s)
    (run' : Run (requestStep .c) Fitting (.init j' processes') es' s')
    (same : (s.head.map Task.load).Perm (s'.head.map Task.load)) (p c pid : Nat)
    (fits : CompareFits s.usage p c) (fits' : CompareFits s'.usage p c) :
    (admissionControl .c s.usage p c pid 0).1 = (admissionControl .c s'.usage p c pid 0).1 := by
  have h := (fitting_accounted run).sum
  have h' := (fitting_accounted run').sum
  rw [← utilization_perm same] at h'
  exact verdict_of_sum h h' pid fits fits'

/-- Registering and removing a second task changes the fraction and not the verdict. -/
theorem admission_history_independent_after_removal :
    ∃ s s' : State, s.usage ≠ s'.usage ∧ s.head.map Task.load = s'.head.map Task.load ∧
      (admissionControl .c s.usage 300 43 9 0).1 = (admissionControl .c s'.usage 300 43 9 0).1 := by
  have short : (replay (requestStep .c) Fitting (.init 1 fun _ => none)
      [(.register 7 500 86, 1)]).map (fun s => (s.head.map Task.load, s.usage)) =
      some ([(500, 86)], ⟨86, 500⟩) := by decide
  have long : (replay (requestStep .c) Fitting (.init 1 fun _ => none)
      [(.register 7 500 86, 1), (.register 8 100 10, 2), (.deregister 8, 3)]).map
      (fun s => (s.head.map Task.load, s.usage)) =
      some ([(500, 86)], ⟨860000, 5000000⟩) := by decide
  obtain ⟨s, run, hs⟩ := Option.map_eq_some_iff.mp short
  obtain ⟨s', run', hs'⟩ := Option.map_eq_some_iff.mp long
  simp only [Prod.mk.injEq] at hs hs'
  refine ⟨s, s', by rw [hs.2, hs'.2]; decide, by rw [hs.1, hs'.1], ?_⟩
  apply admission_history_independent (.of_replay run) (.of_replay run')
  · rw [hs.1, hs'.1]
  · rw [hs.2]
    decide
  · rw [hs'.2]
    decide

/-- A task that came and went multiplied the denominator by 2⁶⁰, to 0: with the same tasks on
the list a request for 7 / 10 is refused after one history and admitted after the other. -/
theorem admission_depends_on_history :
    ¬ ∀ (es es' : List (Request × Addr)) (s s' : State),
      Run (requestStep .c) Sound (.init 1 fun _ => none) es s →
      Run (requestStep .c) Sound (.init 1 fun _ => none) es' s' →
      (s.head.map Task.load).Perm (s'.head.map Task.load) → ∀ p c pid, 1 ≤ p →
      (admissionControl .c s.usage p c pid 0).1 = (admissionControl .c s'.usage p c pid 0).1 := by
  intro claim
  have short : (replay (requestStep .c) Sound (.init 1 fun _ => none)
      [(.register 1 16 1, 1)]).map (fun s => (s.head.map Task.load, s.usage)) =
      some ([(16, 1)], ⟨1, 16⟩) := by decide
  have long : (replay (requestStep .c) Sound (.init 1 fun _ => none)
      [(.register 1 16 1, 1), (.register 2 1073741824 0, 2), (.deregister 2, 3)]).map
      (fun s => (s.head.map Task.load, s.usage)) =
      some ([(16, 1)], ⟨2 ^ 60, 0⟩) := by decide
  obtain ⟨s, run, hs⟩ := Option.map_eq_some_iff.mp short
  obtain ⟨s', run', hs'⟩ := Option.map_eq_some_iff.mp long
  simp only [Prod.mk.injEq] at hs hs'
  have verdict := claim _ _ s s' (.of_replay run) (.of_replay run') (by rw [hs.1, hs'.1]) 10 7 3
    (by decide)
  rw [hs.2, hs'.2] at verdict
  exact absurd verdict (by decide)

/-! ## The bound on the sum -/

/-- The products that admission control forms for a request fit their widths, and the request
is not for period 0 and computation 0. -/
def Request.Admissible (s : State) : Request → Prop
  | .register _ p c => ¬ (p = 0 ∧ c = 0) ∧ FirstFits s.usage p c ∧ CompareFits s.usage p c
  | .deregister pid => ∀ t ∈ findByPid s pid, DiffFits s.usage t.period t.computation
  | .yield _ => True

instance (s : State) (r : Request) : Decidable (r.Admissible s) :=
  match r with
  | .register _ p c => inferInstanceAs (Decidable
      (¬ (p = 0 ∧ c = 0) ∧ FirstFits s.usage p c ∧ CompareFits s.usage p c))
  | .deregister pid => inferInstanceAs (Decidable
      (∀ t ∈ findByPid s pid, DiffFits s.usage t.period t.computation))
  | .yield _ => .isTrue trivial

def Admissible (s : State) (e : Event) : Prop := ∀ r ∈ e.request, r.Admissible s

instance (s : State) (e : Event) : Decidable (Admissible s e) :=
  inferInstanceAs (Decidable (∀ r ∈ e.request, r.Admissible s))

theorem Accounted.step {s s' : State} {e : Event} (h : Accounted s)
    (bound : utilization s.head ≤ 693 / 1000) (possible : Possible s e) (fits : Admissible s e)
    (eff : Effect s e s') : Accounted s' ∧ utilization s'.head ≤ 693 / 1000 := by
  obtain ⟨f, keeps, head, usage⟩ | ⟨w, pid, p, c, rfl, asked, admitted, head, usage⟩ |
    ⟨w, pid, t, rfl, asked, found, head, usage⟩ := eff.shape
  · refine ⟨h.keep keeps head usage, ?_⟩
    rw [head, keeps.utilization]
    exact bound
  · obtain ⟨nonzero, first, compare⟩ := fits _ asked
    have sum := compare.sumFits.exact
    have hp := admitted_period_pos h.sum sum (compare.exact first) nonzero admitted
    refine ⟨h.enroll possible hp sum admitted head usage, ?_⟩
    rw [head, utilization_append_singleton]
    exact (admitted_iff _ h.sum hp sum (compare.exact first)).mp admitted
  · have ht := findByPid_mem found
    refine ⟨h.remove ht (fits _ asked t found).exact head usage, ?_⟩
    have share : (0 : ℚ) ≤ (t.computation : ℚ) / t.period := by positivity
    rw [head, h.erased ht]
    linarith

theorem reaches_accounted {j : Nat} {processes : Nat → Option Process} {es : List Event} {s : State}
    (run : Reaches (fun s e => Possible s e ∧ Admissible s e) j processes es s) :
    Accounted s ∧ utilization s.head ≤ 693 / 1000 := by
  apply run.invariant (I := fun s => Accounted s ∧ utilization s.head ≤ 693 / 1000)
  · exact ⟨.init j processes, by norm_num [State.init]⟩
  · exact fun s e t h allowed stepped => h.1.step h.2 allowed.1 allowed.2 (step_effect stepped)

/-- **Admission safety** along the runs whose products fit. -/
theorem admission_safe {j : Nat} {processes : Nat → Option Process} {es : List Event} {s : State}
    (run : Reaches (fun s e => Possible s e ∧ Admissible s e) j processes es s) :
    (∀ t ∈ s.head, 1 ≤ t.period) ∧ utilization s.head ≤ 693 / 1000 := by
  obtain ⟨accounted, bound⟩ := reaches_accounted run
  exact ⟨accounted.periods, bound⟩

theorem admission_safe_two_tasks :
    ∃ s : State, s.head.map Task.load = [(500, 86), (300, 43)] ∧
      (∀ t ∈ s.head, 1 ≤ t.period) ∧ utilization s.head ≤ 693 / 1000 := by
  have loads : (replay step (fun s e => Possible s e ∧ Admissible s e) (.init 1 fun _ => none)
      [.write (.text "R,7,500,86\n" 1), .write (.text "R,8,300,43\n" 2)]).map
      (fun s => s.head.map Task.load) = some [(500, 86), (300, 43)] := by decide
  obtain ⟨s, run, hs⟩ := Option.map_eq_some_iff.mp loads
  exact ⟨s, hs, admission_safe (.of_replay run)⟩

/-- A task with period 0 and computation 0 is admitted; so is one that asks for 2²⁹
milliseconds in every one, since 1000 times that is 0 in 32 bits. -/
theorem admission_unsafe :
    (∃ s, Reaches Possible 1 (fun _ => none) [.write (.text "R,1,0,0\n" 1)] s ∧
      ¬ ∀ t ∈ s.head, 1 ≤ t.period) ∧
    (∃ s, Reaches Possible 1 (fun _ => none) [.write (.text "R,1,1,536870912\n" 1)] s ∧
      ¬ utilization s.head ≤ 693 / 1000) := by
  have zero : (replay step Possible (.init 1 fun _ => none) [.write (.text "R,1,0,0\n" 1)]).map
      (fun s => s.head.map Task.load) = some [(0, 0)] := by decide
  have wraps : (replay step Possible (.init 1 fun _ => none)
      [.write (.text "R,1,1,536870912\n" 1)]).map
      (fun s => s.head.map Task.load) = some [(1, 536870912)] := by decide
  obtain ⟨s, run, hs⟩ := Option.map_eq_some_iff.mp zero
  obtain ⟨s', run', hs'⟩ := Option.map_eq_some_iff.mp wraps
  refine ⟨⟨s, .of_replay run, fun periods => ?_⟩, s', .of_replay run', ?_⟩
  · obtain ⟨t, ht, load⟩ := List.mem_map.mp (hs ▸ List.mem_singleton_self (0, 0))
    have := periods t ht
    simp only [Task.load, Prod.mk.injEq] at load
    omega
  · rw [utilization_loads, hs']
    norm_num

end KernelModules.MP2
