import KernelModules.MP2.Accounting

/-!
# One entry per pid

`find_by_pid` stops at the first match, so a yield or a deregistration reaches one entry of its
pid. `reg_entry` does not look for the pid it is given: two requests for one pid make two
entries. As long as no pid is registered again while it has an entry, a pid names one entry and
a deregistration leaves nothing of it.
-/

namespace KernelModules.MP2

/-- A register request that is admitted is for a pid that has no entry. -/
def Request.NewPid (s : State) : Request → Prop
  | .register pid p c => (admissionControl .c s.usage p c (toU32 pid) 0).1 = 0 →
      ∀ t ∈ s.head, t.pid ≠ toU32 pid
  | _ => True

instance (s : State) (r : Request) : Decidable (r.NewPid s) :=
  match r with
  | .register pid p c => inferInstanceAs (Decidable
      ((admissionControl .c s.usage p c (toU32 pid) 0).1 = 0 → ∀ t ∈ s.head, t.pid ≠ toU32 pid))
  | .yield _ => .isTrue trivial
  | .deregister _ => .isTrue trivial

def NewPid (s : State) (e : Event) : Prop := ∀ r ∈ e.request, r.NewPid s

instance (s : State) (e : Event) : Decidable (NewPid s e) :=
  inferInstanceAs (Decidable (∀ r ∈ e.request, r.NewPid s))

/-- No two entries on the list have the same pid. -/
def Distinct (s : State) : Prop := (s.head.map Task.pid).Nodup

theorem Keeps.map_pid {f : Task → Task} (h : Keeps f) (ts : List Task) :
    (ts.map f).map Task.pid = ts.map Task.pid := by
  rw [List.map_map]
  exact List.map_congr_left fun t _ => (h t).2.1

theorem nodup_pid_append {ts : List Task} (h : (ts.map Task.pid).Nodup) (t : Task) :
    ((ts ++ [t]).map Task.pid).Nodup ↔ ∀ u ∈ ts, u.pid ≠ t.pid := by
  rw [List.map_append, List.map_singleton, ← List.concat_eq_append, List.nodup_concat]
  simp [h]

theorem Distinct.eq {s : State} (h : Distinct s) {t u : Task} (ht : t ∈ s.head) (hu : u ∈ s.head)
    (same : t.pid = u.pid) : t = u :=
  List.inj_on_of_nodup_map h ht hu same

theorem Distinct.enroll_iff {s s' : State} {slab : Addr} {pid : Int} {p c : Nat} (h : Distinct s)
    (admitted : (admissionControl .c s.usage p c (toU32 pid) 0).1 = 0)
    (performed : perform .c slab s (.register pid p c) = .ok s') :
    Distinct s' ↔ (Request.register pid p c).NewPid s := by
  simp only [perform, regEntry_admitted admitted, Except.ok.injEq] at performed
  subst performed
  exact (nodup_pid_append h _).trans ⟨fun fresh _ => fresh, fun fresh => fresh admitted⟩

/-- A second entry of a pid comes from the registration of a pid that has one. -/
theorem Distinct.step_iff {s s' : State} {e : Event} (h : Distinct s)
    (stepped : step s e = .ok s') : Distinct s' ↔ NewPid s e := by
  by_cases enrolls : ∃ w pid p c, e = .write w ∧ w.request = some (.register pid p c) ∧
      (admissionControl .c s.usage p c (toU32 pid) 0).1 = 0
  · obtain ⟨w, pid, p, c, rfl, asked, admitted⟩ := enrolls
    have performed : perform .c w.slab s (.register pid p c) = .ok s' := by
      simpa only [step, mywrite, asked] using stepped
    simpa [NewPid, Event.request, asked] using h.enroll_iff admitted performed
  · refine iff_of_true ?_ ?_
    · obtain ⟨f, keeps, head, _⟩ | ⟨w, pid, p, c, rfl, asked, admitted, _⟩ |
        ⟨_, _, _, _, _, _, head, _⟩ := (step_effect stepped).shape
      · rw [Distinct, head, keeps.map_pid]
        exact h
      · exact absurd ⟨w, pid, p, c, rfl, asked, admitted⟩ enrolls
      · rw [Distinct, head]
        exact h.sublist (List.eraseP_sublist.map _)
    · intro r asked
      cases e with
      | write w =>
        cases r with
        | register pid p c =>
          exact fun admitted => absurd ⟨w, pid, p, c, rfl, asked, admitted⟩ enrolls
        | yield pid => trivial
        | deregister pid => trivial
      | expire | dispatch | tick | fork | exit => cases asked

/-- With distinct pids a deregistration leaves no entry of its pid. -/
theorem Distinct.deregEntry {s : State} (h : Distinct s) (unique : Unique s) (A : Arith)
    (pid : Int) : ∀ t ∈ (deregEntry A s pid).2.head, t.pid ≠ toU32 pid := by
  cases found : findByPid s pid with
  | none =>
    rw [deregEntry_missing found]
    simpa [findByPid] using found
  | some t =>
    rw [deregEntry_found found]
    intro u hu same
    obtain ⟨hu, other⟩ := unique.erased hu
    have ht : t.pid = toU32 pid := by simpa using List.find?_some found
    exact other (congrArg Task.addr (h.eq hu (findByPid_mem found) (same.trans ht.symm)))

theorem reaches_distinct {j : Nat} {processes : Nat → Option Process} {es : List Event} {s : State}
    (run : Reaches (fun s e => Possible s e ∧ NewPid s e) j processes es s) :
    Unique s ∧ Distinct s := by
  apply run.invariant (I := fun s => Unique s ∧ Distinct s)
  · exact ⟨List.nodup_nil, List.nodup_nil⟩
  · rintro s e s' ⟨unique, distinct⟩ ⟨possible, newPid⟩ stepped
    exact ⟨unique.step possible (step_effect stepped), (distinct.step_iff stepped).mpr newPid⟩

/-- **One entry per pid**, as long as no pid is registered again while it has an entry, and not
after that. A deregistration then leaves no entry of its pid, and in the fraction, if no product
wraps and no request is for period 0 and computation 0, only the shares of the entries that
remain. -/
theorem one_entry_per_pid {j : Nat} {processes : Nat → Option Process} {es : List Event} {s : State}
    (run : Reaches (fun s e => Possible s e ∧ NewPid s e) j processes es s) :
    Distinct s ∧ (∀ e s', step s e = .ok s' → (Distinct s' ↔ NewPid s e)) ∧
    ∀ w pid s', w.request = some (.deregister pid) → step s (.write w) = .ok s' →
      (∀ t ∈ s'.head, t.pid ≠ toU32 pid) ∧
      (Reaches (fun s e => Possible s e ∧ Admissible s e) j processes es s →
        Admissible s (.write w) →
        Denotes s'.usage.numerator s'.usage.denominator (utilization s'.head)) := by
  obtain ⟨unique, distinct⟩ := reaches_distinct run
  refine ⟨distinct, fun e s' stepped => distinct.step_iff stepped, ?_⟩
  intro w pid s' asked stepped
  simp only [step, mywrite, asked, perform, Except.ok.injEq] at stepped
  subst stepped
  refine ⟨distinct.deregEntry unique .c pid, fun fitting fits => ?_⟩
  have accounted := (reaches_accounted fitting).1
  exact (accounted.deregEntry fun t found => (fits _ asked t found).exact).sum

/-- Two tasks are registered, and then one of them is deregistered. -/
theorem one_entry_per_pid_two_tasks :
    ∃ s s' : State, s.head.map Task.pid = [7, 8] ∧ s'.head.map Task.pid = [8] ∧ Distinct s ∧
      (∀ t ∈ s'.head, t.pid ≠ 7) ∧
      Denotes s'.usage.numerator s'.usage.denominator (utilization s'.head) := by
  have pids : (replay step (fun s e => (Possible s e ∧ NewPid s e) ∧ Possible s e ∧ Admissible s e)
      (.init 1 fun _ => none)
      [.write (.text "R,7,500,86\n" 1), .write (.text "R,8,300,43\n" 2)]).map
      (fun s => (s.head.map Task.pid, decide (Admissible s (.write (.text "D,7\n" 3))),
        (step s (.write (.text "D,7\n" 3))).toOption.map fun s' => s'.head.map Task.pid)) =
      some ([7, 8], true, some [8]) := by decide
  obtain ⟨s, run, hs⟩ := Option.map_eq_some_iff.mp pids
  simp only [Prod.mk.injEq, decide_eq_true_eq] at hs
  obtain ⟨before, fits, after⟩ := hs
  obtain ⟨s', stepped, after⟩ := Option.map_eq_some_iff.mp after
  have run := Run.of_replay run
  obtain ⟨distinct, _, removal⟩ := one_entry_per_pid (run.imp fun _ _ allowed => allowed.1)
  obtain ⟨gone, sum⟩ := removal (.text "D,7\n" 3) 7 s' (by decide) (ok_of_toOption stepped)
  exact ⟨s, s', before, after, distinct, gone, sum (run.imp fun _ _ allowed => allowed.2) fits⟩

/-- A pid is registered twice; after its deregistration an entry and its share remain. With
distinct pids, a product that wraps leaves a fraction that is no sum of shares, and so does a task
with period 0 and computation 0. -/
theorem two_entries_of_one_pid :
    (∃ s s' : State, Reaches Possible 1 (fun _ => none)
        [.write (.text "R,7,500,86\n" 1), .write (.text "R,7,500,86\n" 2)] s ∧
      step s (.write (.text "D,7\n" 3)) = .ok s' ∧ ¬ Distinct s ∧
      s'.head.map Task.pid = [7] ∧ s'.usage = ⟨86 * 500 * 500, 500 * 500 * 500⟩) ∧
    (∃ s s' : State, Reaches (fun s e => Possible s e ∧ NewPid s e) 1 (fun _ => none)
        [.write (.text "R,1,16,1\n" 1), .write (.text "R,2,1073741824,0\n" 2)] s ∧
      step s (.write (.text "D,2\n" 3)) = .ok s' ∧ s'.head.map Task.pid = [1] ∧
      ¬ Denotes s'.usage.numerator s'.usage.denominator (utilization s'.head)) ∧
    (∃ s s' : State, Reaches (fun s e => Possible s e ∧ NewPid s e) 1 (fun _ => none)
        [.write (.text "R,1,0,0\n" 1), .write (.text "R,2,10,5\n" 2)] s ∧
      step s (.write (.text "D,1\n" 3)) = .ok s' ∧ s'.head.map Task.load = [(10, 5)] ∧
      ¬ Denotes s'.usage.numerator s'.usage.denominator (utilization s'.head)) := by
  have twice : (replay step Possible (.init 1 fun _ => none)
      [.write (.text "R,7,500,86\n" 1), .write (.text "R,7,500,86\n" 2)]).map
      (fun s => (decide (s.head.map Task.pid).Nodup,
        (step s (.write (.text "D,7\n" 3))).toOption.map fun s' =>
          (s'.head.map Task.pid, s'.usage))) =
      some (false, some ([7], ⟨86 * 500 * 500, 500 * 500 * 500⟩)) := by decide
  have wraps : (replay step (fun s e => Possible s e ∧ NewPid s e) (.init 1 fun _ => none)
      [.write (.text "R,1,16,1\n" 1), .write (.text "R,2,1073741824,0\n" 2)]).map
      (fun s => (step s (.write (.text "D,2\n" 3))).toOption.map fun s' =>
        (s'.head.map Task.pid, s'.usage)) = some (some ([1], ⟨2 ^ 60, 0⟩)) := by decide
  have empty : (replay step (fun s e => Possible s e ∧ NewPid s e) (.init 1 fun _ => none)
      [.write (.text "R,1,0,0\n" 1), .write (.text "R,2,10,5\n" 2)]).map
      (fun s => (step s (.write (.text "D,1\n" 3))).toOption.map fun s' =>
        (s'.head.map Task.load, s'.usage)) = some (some ([(10, 5)], ⟨0, 10⟩)) := by decide
  refine ⟨?_, ?_, ?_⟩
  · obtain ⟨s, run, hs⟩ := Option.map_eq_some_iff.mp twice
    simp only [Prod.mk.injEq, decide_eq_false_iff_not] at hs
    obtain ⟨s', stepped, hs'⟩ := Option.map_eq_some_iff.mp hs.2
    simp only [Prod.mk.injEq] at hs'
    exact ⟨s, s', .of_replay run, ok_of_toOption stepped, hs.1, hs'⟩
  · obtain ⟨s, run, after⟩ := Option.map_eq_some_iff.mp wraps
    obtain ⟨s', stepped, hs'⟩ := Option.map_eq_some_iff.mp after
    simp only [Prod.mk.injEq] at hs'
    refine ⟨s, s', .of_replay run, ok_of_toOption stepped, hs'.1, ?_⟩
    rw [hs'.2]
    rintro ⟨_, sum⟩
    exact absurd (sum (by decide)).1 (by decide)
  · obtain ⟨s, run, after⟩ := Option.map_eq_some_iff.mp empty
    obtain ⟨s', stepped, hs'⟩ := Option.map_eq_some_iff.mp after
    simp only [Prod.mk.injEq] at hs'
    refine ⟨s, s', .of_replay run, ok_of_toOption stepped, hs'.1, ?_⟩
    rw [hs'.2, utilization_loads, hs'.1]
    rintro ⟨sum, _⟩
    have share := sum rfl
    norm_num at share

end KernelModules.MP2
