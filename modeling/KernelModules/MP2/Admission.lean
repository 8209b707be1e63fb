import KernelModules.Lib.Fraction
import KernelModules.MP2.Task

/-!
# Admission control

`admission_control` keeps the sum of `computation / period` over the registered tasks as an
unreduced fraction in two globals. The conditions `SumExact`, `DiffExact` and `CheckExact`
say that the products a call forms are not reduced by the machine; they always hold in ideal
arithmetic. Under them the fraction follows the sum, and a request is admitted exactly when
the new sum is at most 693 / 1000.
-/

namespace KernelModules.MP2

/-- Returns 0 when the task is admitted. With `flag` 1 the task's share is taken out of the
fraction and the result means nothing. -/
def admissionControl (A : Arith) (u : Usage) (period computation _pid flag : Nat) : Nat × Usage :=
  if flag = 1 then
    if A.u64 (u.numerator * period) ≤ A.u64 (computation * u.denominator) then
      (1, { u with numerator := 0 })
    else
      -- the test above failed, so the difference does not borrow
      (1, { numerator := A.u64 (u.numerator * period) - A.u64 (computation * u.denominator)
            denominator := A.u64 (u.denominator * period) })
  else if u.numerator = 0 then
    if A.u32 (computation * 1000) ≤ A.u32 (693 * period) then
      (0, { numerator := computation, denominator := period })
    else (1, u)
  else
    let currDen := A.u64 (u.denominator * period)
    let currN := A.u64 (A.u64 (u.numerator * period) + A.u64 (computation * u.denominator))
    if A.u64 (currN * 1000) ≤ A.u64 (693 * currDen) then
      (0, { numerator := currN, denominator := currDen })
    else (1, u)

/-- The share of the processor the tasks ask for. -/
def utilization (ts : List Task) : ℚ := (ts.map fun t => (t.computation : ℚ) / t.period).sum

/-- The fraction a register request would store is not reduced. -/
def SumExact (A : Arith) (u : Usage) (period computation : Nat) : Prop :=
  u.numerator ≠ 0 →
    A.u64 (u.numerator * period) = u.numerator * period ∧
    A.u64 (computation * u.denominator) = computation * u.denominator ∧
    A.u64 (u.numerator * period + computation * u.denominator) =
      u.numerator * period + computation * u.denominator ∧
    A.u64 (u.denominator * period) = u.denominator * period

/-- The two sides of a register request's comparison with 693 / 1000 are not reduced. -/
def CheckExact (A : Arith) (u : Usage) (period computation : Nat) : Prop :=
  (u.numerator = 0 →
    A.u32 (computation * 1000) = computation * 1000 ∧ A.u32 (693 * period) = 693 * period) ∧
  (u.numerator ≠ 0 →
    A.u64 ((u.numerator * period + computation * u.denominator) * 1000) =
      (u.numerator * period + computation * u.denominator) * 1000 ∧
    A.u64 (693 * (u.denominator * period)) = 693 * (u.denominator * period))

/-- The products a deregistration forms are not reduced. -/
def DiffExact (A : Arith) (u : Usage) (period computation : Nat) : Prop :=
  A.u64 (u.numerator * period) = u.numerator * period ∧
  A.u64 (computation * u.denominator) = computation * u.denominator ∧
  (computation * u.denominator < u.numerator * period →
    A.u64 (u.denominator * period) = u.denominator * period)

theorem sumExact_ideal (u : Usage) (p c : Nat) : SumExact .ideal u p c :=
  fun _ => ⟨rfl, rfl, rfl, rfl⟩

theorem checkExact_ideal (u : Usage) (p c : Nat) : CheckExact .ideal u p c :=
  ⟨fun _ => ⟨rfl, rfl⟩, fun _ => ⟨rfl, rfl⟩⟩

theorem diffExact_ideal (u : Usage) (p c : Nat) : DiffExact .ideal u p c :=
  ⟨rfl, rfl, fun _ => rfl⟩

theorem refused_unchanged {A : Arith} {u : Usage} {p c pid : Nat}
    (h : (admissionControl A u p c pid 0).1 ≠ 0) : (admissionControl A u p c pid 0).2 = u := by
  simp only [admissionControl, zero_ne_one, ↓reduceIte] at h ⊢
  split
  · split <;> simp_all
  · split <;> simp_all

/-- What an admitted request stores. -/
theorem admitted_eq {A : Arith} {u : Usage} {p c pid : Nat} (exact : SumExact A u p c)
    (h : (admissionControl A u p c pid 0).1 = 0) :
    (admissionControl A u p c pid 0).2 =
      if u.numerator = 0 then ⟨c, p⟩
      else ⟨u.numerator * p + c * u.denominator, u.denominator * p⟩ := by
  simp only [admissionControl, zero_ne_one, ↓reduceIte] at h ⊢
  by_cases hn : u.numerator = 0
  · simp only [hn, ↓reduceIte] at h ⊢
    split at h
    · rename_i fits
      simp only [fits, ↓reduceIte]
    · simp at h
  · obtain ⟨h1, h2, h3, h4⟩ := exact hn
    simp only [hn, ↓reduceIte, h1, h2, h3, h4] at h ⊢
    split at h
    · rename_i fits
      simp only [fits, ↓reduceIte]
    · simp at h

/-- The comparison a register request is decided by. -/
theorem admitted_cross {A : Arith} {u : Usage} {p c pid : Nat} (exact : SumExact A u p c)
    (check : CheckExact A u p c) :
    (admissionControl A u p c pid 0).1 = 0 ↔
      if u.numerator = 0 then c * 1000 ≤ 693 * p
      else (u.numerator * p + c * u.denominator) * 1000 ≤ 693 * (u.denominator * p) := by
  simp only [admissionControl, zero_ne_one, ↓reduceIte]
  by_cases hn : u.numerator = 0
  · obtain ⟨h1, h2⟩ := check.1 hn
    simp only [hn, ↓reduceIte, h1, h2]
    split <;> simp_all
  · obtain ⟨h1, h2, h3, h4⟩ := exact hn
    obtain ⟨h5, h6⟩ := check.2 hn
    simp only [hn, ↓reduceIte, h1, h2, h3, h4, h5, h6]
    split <;> simp_all

theorem admitted_denotes {A : Arith} {u : Usage} {q : ℚ} {p c pid : Nat}
    (d : Denotes u.numerator u.denominator q) (hp : 0 < p) (exact : SumExact A u p c)
    (h : (admissionControl A u p c pid 0).1 = 0) :
    Denotes (admissionControl A u p c pid 0).2.numerator
      (admissionControl A u p c pid 0).2.denominator (q + (c : ℚ) / p) := by
  rw [admitted_eq exact h]
  by_cases hn : u.numerator = 0
  · simp only [hn, ↓reduceIte]
    rw [d.zero hn, zero_add]
    exact .of_pos hp rfl
  · simp only [hn, ↓reduceIte]
    exact d.add hn hp c

/-- **A request is admitted exactly when the new sum is at most 693 / 1000.** -/
theorem admitted_iff {A : Arith} {u : Usage} {q : ℚ} {p c : Nat} (pid : Nat)
    (d : Denotes u.numerator u.denominator q) (hp : 0 < p) (exact : SumExact A u p c)
    (check : CheckExact A u p c) :
    (admissionControl A u p c pid 0).1 = 0 ↔ q + (c : ℚ) / p ≤ 693 / 1000 := by
  rw [admitted_cross exact check]
  by_cases hn : u.numerator = 0
  · simp only [hn, ↓reduceIte]
    rw [d.zero hn, zero_add]
    exact_mod_cast (Denotes.of_pos hp rfl).le_const hp (by decide)
  · simp only [hn, ↓reduceIte]
    exact_mod_cast (d.add hn hp c).le_const (Nat.mul_pos (d.ratio hn).1 hp) (by decide)

/-- A request with period 0 is admitted only when its computation is 0 as well. -/
theorem admitted_period_pos {A : Arith} {u : Usage} {q : ℚ} {p c pid : Nat}
    (d : Denotes u.numerator u.denominator q) (exact : SumExact A u p c)
    (check : CheckExact A u p c) (some : ¬ (p = 0 ∧ c = 0))
    (h : (admissionControl A u p c pid 0).1 = 0) : 0 < p := by
  rw [admitted_cross exact check] at h
  by_contra hp
  have hp : p = 0 := by omega
  have hc : 0 < c := by omega
  by_cases hn : u.numerator = 0
  · simp only [hn, hp, ↓reduceIte] at h
    omega
  · have hd := (d.ratio hn).1
    simp only [hn, hp, ↓reduceIte, Nat.mul_zero, Nat.zero_add] at h
    have := Nat.mul_pos hc hd
    omega

/-- Removing a share that is part of the sum leaves a fraction for the rest. -/
theorem removed_denotes {A : Arith} {u : Usage} {q : ℚ} {p c : Nat} (pid : Nat)
    (d : Denotes u.numerator u.denominator q) (hp : 0 < p) (exact : DiffExact A u p c)
    (part : (c : ℚ) / p ≤ q) :
    Denotes (admissionControl A u p c pid 1).2.numerator
      (admissionControl A u p c pid 1).2.denominator (q - (c : ℚ) / p) := by
  obtain ⟨h1, h2, h3⟩ := exact
  simp only [admissionControl, ↓reduceIte, h1, h2]
  by_cases small : u.numerator * p ≤ c * u.denominator
  · simp only [small, ↓reduceIte]
    exact ⟨fun _ => d.clamped hp part small, fun h => absurd rfl h⟩
  · simp only [small, ↓reduceIte, h3 (by omega)]
    exact d.sub hp (by omega)

/-! ## Sums over the list of tasks -/

@[simp] theorem utilization_nil : utilization [] = 0 := rfl

theorem utilization_append_singleton (ts : List Task) (t : Task) :
    utilization (ts ++ [t]) = utilization ts + (t.computation : ℚ) / t.period := by
  simp [utilization]

/-- A task's period and computation, all that admission control knows of it. -/
def Task.load (t : Task) : Nat × Nat := (t.period, t.computation)

theorem utilization_loads (ts : List Task) :
    utilization ts = ((ts.map Task.load).map fun x => (x.2 : ℚ) / x.1).sum := by
  rw [List.map_map]
  rfl

theorem utilization_perm {ts us : List Task} (h : (ts.map Task.load).Perm (us.map Task.load)) :
    utilization ts = utilization us := by
  rw [utilization_loads, utilization_loads]
  exact (h.map _).sum_eq

theorem share_le_utilization {ts : List Task} {t : Task} (h : t ∈ ts) :
    (t.computation : ℚ) / t.period ≤ utilization ts := by
  apply List.single_le_sum
  · intro x hx
    obtain ⟨u, _, rfl⟩ := List.mem_map.mp hx
    positivity
  · exact List.mem_map.mpr ⟨t, h, rfl⟩

/-- Deleting one entry takes its share out of the sum. -/
theorem utilization_eraseP {ts : List Task} {p : Task → Bool} {t : Task}
    (h : ts.find? p = some t) :
    utilization (ts.eraseP p) = utilization ts - (t.computation : ℚ) / t.period := by
  induction ts with
  | nil => simp at h
  | cons x xs ih =>
    by_cases hx : p x = true
    · simp only [List.find?_cons, hx, Option.some.injEq] at h
      subst h
      simp [hx, utilization]
    · simp only [List.find?_cons, hx] at h
      have := ih h
      simp only [utilization, List.eraseP_cons, hx, cond_false, List.map_cons,
        List.sum_cons] at this ⊢
      linarith

end KernelModules.MP2
