import KernelModules.Lib.Critical
import KernelModules.MP1.Status

/-!
# What the lock makes atomic

`mywrite`, `myread`, `wq_callback` and `mp1_exit` between `spin_lock` and `spin_unlock`, one
access to `list` or `size` at a time: `size++` loads and stores, the callback goes from node to
node while processes come and go, and `myread` prints line after line. Each of them is atomic
all the same, but for the callback's answers, which are each from the moment of its node.
-/

namespace KernelModules.MP1

/-- What the lock protects. -/
structure Registry where
  list : List ProcCpu
  size : Int
  deriving DecidableEq, Repr

/-- What is done under the lock: `mywrite` with its request, `myread` with the buffer that
`kmalloc` handed out, `wq_callback`, and `freell` in `mp1_exit`. -/
inductive Section
  | write (w : Write)
  | read (kbuf : List UInt8)
  | callback
  | exit
  deriving DecidableEq, Repr

/-- Where a section is. -/
inductive Place
  /-- At `list_add_tail`. -/
  | adds (newnode : ProcCpu)
  /-- `size++` loads, and has loaded. -/
  | loads
  | stores (size : Int)
  /-- The callback is at the node with this index. -/
  | visits (i : Nat)
  /-- At `list_del`: the node's process was not found. -/
  | drops (i : Nat)
  /-- `size--` loads, and has loaded. -/
  | loadsDown (i : Nat)
  | storesDown (i : Nat) (size : Int)
  /-- `myread` is at this node, with what it has printed: `kbuf` and `shift`. -/
  | prints (i : Nat) (acc : Except Overrun (List UInt8 × Nat))
  | printed (acc : Except Overrun (List UInt8 × Nat))
  | frees
  /-- At `spin_unlock`. -/
  | leaves

def Section.enter : Section → Place
  | .write w => .adds ⟨0, w.currPid.getD 0⟩
  | .read kbuf => .prints 0 (.ok (kbuf, 0))
  | .callback => .visits 0
  | .exit => .frees

def Place.ended : Place → Bool
  | .printed _ => true
  | .leaves => true
  | _ => false

/-- One access. The processes are those at that moment. -/
def Place.micro (processes : Int → Option Nat) (p : Place) (s : Registry) : Place × Registry :=
  match p with
  | .adds newnode => (.loads, { s with list := s.list ++ [newnode] })
  | .loads => (.stores s.size, s)
  | .stores size => (.leaves, { s with size := i32 (size + 1) })
  | .visits i =>
    match s.list[i]? with
    | none => (.leaves, s)
    | some curr =>
      let (ret, cpuUsage) := getCpuUse processes curr.pid curr.cpuUsage
      if ret = 0 then
        (.visits (i + 1), { s with list := s.list.set i { curr with cpuUsage := cpuUsage } })
      else (.drops i, s)
  | .drops i => (.loadsDown i, { s with list := s.list.eraseIdx i })
  | .loadsDown i => (.storesDown i s.size, s)
  | .storesDown i size => (.visits i, { s with size := i32 (size - 1) })
  | .prints i acc =>
    match s.list[i]? with
    | none => (.printed acc, s)
    | some j => (.prints (i + 1) (acc >>= fun acc => addLine acc j), s)
  | .printed acc => (.printed acc, s)
  | .frees =>
    match s.list with
    | [] => (.leaves, s)
    | _ :: rest => (.frees, { s with list := rest })
  | .leaves => (.leaves, s)

def sections : Sections Registry (Int → Option Nat) Section Place where
  enter := Section.enter
  micro := Place.micro
  ended := Place.ended

/-- The nodes the callback leaves, each with the time that was found when it was visited. -/
def visited (views : List (Int → Option Nat)) (l : List ProcCpu) : List ProcCpu :=
  (l.zip views).filterMap fun x => (x.2 x.1.pid).map fun utime => { x.1 with cpuUsage := utime }

/-- What a section does as a whole. -/
def Effect {ι : Type} (x : Left ι (Int → Option Nat) Section Place) (s t : Registry) : Prop :=
  match x.kind with
  | .write w => t = ⟨s.list ++ [⟨0, w.currPid.getD 0⟩], i32 (s.size + 1)⟩
  | .read kbuf => t = s ∧ x.place = .printed (s.list.foldlM addLine (kbuf, 0))
  | .callback => ∃ views, views.Sublist x.seen ∧ views.length = s.list.length ∧
      t = ⟨visited views s.list,
        (fun size => i32 (size - 1))^[s.list.length - (visited views s.list).length] s.size⟩
  | .exit => t = ⟨[], s.size⟩

/-! ## Sections as a whole -/

section

variable {seen : List (Int → Option Nat)} {p q : Place} {s t : Registry}

theorem goes_leaves (part : sections.goes seen .leaves s = some (q, t)) : q = .leaves ∧ t = s :=
  (Sections.goes_ended part rfl).2

theorem write_whole {newnode : ProcCpu} (part : sections.goes seen (.adds newnode) s = some (q, t))
    (ended : q.ended = true) : t = ⟨s.list ++ [newnode], i32 (s.size + 1)⟩ := by
  obtain ⟨_, _, -, part⟩ := Sections.goes_on part rfl ended
  obtain ⟨_, _, -, part⟩ := Sections.goes_on part rfl ended
  obtain ⟨_, _, -, part⟩ := Sections.goes_on part rfl ended
  exact (goes_leaves part).2

theorem exit_whole (part : sections.goes seen .frees s = some (q, t)) (ended : q.ended = true) :
    t = ⟨[], s.size⟩ := by
  obtain ⟨list, size⟩ := s
  induction list generalizing seen with
  | nil =>
    obtain ⟨_, _, -, part⟩ := Sections.goes_on part rfl ended
    exact (goes_leaves part).2
  | cons curr rest ih =>
    obtain ⟨_, _, -, part⟩ := Sections.goes_on part rfl ended
    exact ih part

/-! What the callback and `myread` do at a node, with the nodes `pre` behind them. -/

section

variable {pre rest : List ProcCpu} {curr : ProcCpu} {size : Int} {processes : Int → Option Nat}
  {acc : Except Overrun (List UInt8 × Nat)}

theorem prints_end : sections.micro processes (.prints pre.length acc) ⟨pre, size⟩ =
    (.printed acc, ⟨pre, size⟩) := by
  simp [sections, Place.micro]

theorem prints_node :
    sections.micro processes (.prints pre.length acc) ⟨pre ++ curr :: rest, size⟩ =
    (.prints (pre ++ [curr]).length (acc >>= fun acc => addLine acc curr),
      ⟨(pre ++ [curr]) ++ rest, size⟩) := by
  simp [sections, Place.micro]

theorem visits_end : sections.micro processes (.visits pre.length) ⟨pre, size⟩ =
    (.leaves, ⟨pre, size⟩) := by
  simp [sections, Place.micro]

theorem visits_found {utime : Nat} (found : processes curr.pid = some utime) :
    sections.micro processes (.visits pre.length) ⟨pre ++ curr :: rest, size⟩ =
      (.visits (pre ++ [{ curr with cpuUsage := utime }]).length,
        ⟨(pre ++ [{ curr with cpuUsage := utime }]) ++ rest, size⟩) := by
  simp [sections, Place.micro, getCpuUse, found]

theorem visits_gone (gone : processes curr.pid = none) :
    sections.micro processes (.visits pre.length) ⟨pre ++ curr :: rest, size⟩ =
      (.drops pre.length, ⟨pre ++ curr :: rest, size⟩) := by
  simp [sections, Place.micro, getCpuUse, gone]

theorem drops_node : sections.micro processes (.drops pre.length) ⟨pre ++ curr :: rest, size⟩ =
    (.loadsDown pre.length, ⟨pre ++ rest, size⟩) := by
  simp [sections, Place.micro, List.eraseIdx_append_of_length_le]

end

theorem read_goes (pre : List ProcCpu) {rest : List ProcCpu} {size : Int}
    {acc : Except Overrun (List UInt8 × Nat)}
    (part : sections.goes seen (.prints pre.length acc) ⟨pre ++ rest, size⟩ = some (q, t))
    (ended : q.ended = true) :
    t = ⟨pre ++ rest, size⟩ ∧ q = .printed (acc >>= fun acc => rest.foldlM addLine acc) := by
  induction rest generalizing seen pre acc with
  | nil =>
    obtain ⟨_, _, -, part⟩ := Sections.goes_on part rfl ended
    rw [List.append_nil, prints_end] at part
    obtain ⟨-, rfl, rfl⟩ := Sections.goes_ended part rfl
    refine ⟨by rw [List.append_nil], ?_⟩
    cases acc <;> rfl
  | cons j rest ih =>
    obtain ⟨_, _, -, part⟩ := Sections.goes_on part rfl ended
    rw [prints_node] at part
    obtain ⟨rfl, rfl⟩ := ih _ part
    refine ⟨by simp, ?_⟩
    cases acc <;> rfl

theorem visited_found {curr : ProcCpu} {utime : Nat} {processes : Int → Option Nat}
    (found : processes curr.pid = some utime) (views : List (Int → Option Nat))
    (rest : List ProcCpu) :
    visited (processes :: views) (curr :: rest) =
      { curr with cpuUsage := utime } :: visited views rest := by
  simp [visited, found]

theorem visited_gone {curr : ProcCpu} {processes : Int → Option Nat}
    (gone : processes curr.pid = none) (views : List (Int → Option Nat)) (rest : List ProcCpu) :
    visited (processes :: views) (curr :: rest) = visited views rest := by
  simp [visited, gone]

theorem visited_length (views : List (Int → Option Nat)) (l : List ProcCpu) :
    (visited views l).length ≤ l.length := by
  refine (List.length_filterMap_le _ _).trans ?_
  rw [List.length_zip]
  exact Nat.min_le_left _ _

theorem callback_goes (pre : List ProcCpu) {rest : List ProcCpu} {size : Int}
    (part : sections.goes seen (.visits pre.length) ⟨pre ++ rest, size⟩ = some (q, t))
    (ended : q.ended = true) :
    ∃ views, views.Sublist seen ∧ views.length = rest.length ∧
      t = ⟨pre ++ visited views rest,
        (fun size => i32 (size - 1))^[rest.length - (visited views rest).length] size⟩ := by
  induction rest generalizing seen pre size with
  | nil =>
    obtain ⟨_, _, -, part⟩ := Sections.goes_on part rfl ended
    rw [List.append_nil, visits_end] at part
    obtain ⟨-, rfl⟩ := goes_leaves part
    exact ⟨[], List.nil_sublist _, rfl, by simp [visited]⟩
  | cons curr rest ih =>
    obtain ⟨processes, later, rfl, moved⟩ := Sections.goes_on part rfl ended
    cases found : processes curr.pid with
    | some utime =>
      rw [visits_found found] at moved
      obtain ⟨views, sub, length, rfl⟩ := ih _ moved
      refine ⟨processes :: views, sub.cons_cons _, by simp [length], ?_⟩
      rw [visited_found found]
      simp
    | none =>
      rw [visits_gone found] at moved
      -- `list_del`, and `size--` in two steps
      obtain ⟨_, later₁, rfl, dropped⟩ := Sections.goes_on moved rfl ended
      rw [drops_node] at dropped
      obtain ⟨_, later₂, rfl, loaded⟩ := Sections.goes_on dropped rfl ended
      obtain ⟨_, later₃, rfl, stored⟩ := Sections.goes_on loaded rfl ended
      obtain ⟨views, sub, length, rfl⟩ := ih _ stored
      refine ⟨processes :: views, ?_, by simp [length], ?_⟩
      · exact (((sub.cons _).cons _).cons _).cons_cons _
      · have bound := visited_length views rest
        rw [visited_gone found, List.length_cons, Nat.succ_sub bound, Function.iterate_succ_apply]

theorem effect_of_whole {ι : Type} {x : Left ι (Int → Option Nat) Section Place}
    (whole : sections.Whole x s t) : Effect x s t := by
  obtain ⟨thread, kind, seen, place⟩ := x
  obtain ⟨part, ended⟩ := whole
  cases kind with
  | write w => exact write_whole part ended
  | read kbuf => exact read_goes [] part ended
  | callback =>
    obtain ⟨views, sub, length, left⟩ := callback_goes [] part ended
    exact ⟨views, sub, length, left⟩
  | exit => exact exit_whole part ended

end

/-! ## Runs -/

abbrev Threads (ι : Type) := Shared ι Registry (Int → Option Nat) Section Place

abbrev Told (ι : Type) := Story ι (Int → Option Nat) Section Place

/-- `mywrite` gets to its lock with a pid and a node, `myread` with a buffer. -/
def Enters {ι : Type} : Turn ι (Int → Option Nat) Section → Prop
  | .lock _ (.write w) => w.currPid ≠ none ∧ w.allocated = true
  | .lock _ (.read kbuf) => kbuf.length = buffsize
  | _ => True

instance Enters.decidable {ι : Type} (e : Turn ι (Int → Option Nat) Section) :
    Decidable (Enters e) :=
  match e with
  | .lock _ (.write w) => inferInstanceAs (Decidable (w.currPid ≠ none ∧ w.allocated = true))
  | .lock _ (.read kbuf) => inferInstanceAs (Decidable (kbuf.length = buffsize))
  | .lock _ .callback => .isTrue trivial
  | .lock _ .exit => .isTrue trivial
  | .micro _ => .isTrue trivial
  | .unlock _ => .isTrue trivial
  | .outside _ => .isTrue trivial

/-- However the threads' accesses are interleaved, with processes coming and going at any moment,
one thread at most is between `spin_lock` and `spin_unlock`, and whenever none is, the list and
`size` are what the sections left so far make of them, each as a whole and in the order in which
they were left. -/
theorem registry_atomic {ι : Type} [DecidableEq ι] {processes : Int → Option Nat}
    {es : List (Turn ι (Int → Option Nat) Section)} {x : Threads ι × Told ι}
    (run : Run (ghosted sections.step Sections.record) (fun _ e => Enters e)
      (Sections.idle ⟨[], 0⟩ processes, .none) es x) :
    (∀ i j, x.1.inside i ≠ none → x.1.inside j ≠ none → i = j) ∧
    (x.1.lock = false → Follows Effect ⟨[], 0⟩ x.2.left x.1.data) := by
  obtain ⟨m, g⟩ := x
  have between := Sections.between_run (Sections.laws_follows (⟨[], 0⟩ : Registry)) .nil run
  refine ⟨fun i j inside inside' => between.alone inside inside', fun free => ?_⟩
  obtain ⟨-, -, follows⟩ := between.idle free
  exact follows.imp fun _ _ _ whole => effect_of_whole whole

/-- Process 8 goes after the callback has found it and before it gets to 7. -/
theorem registry_atomic_two_nodes :
    let processes : Int → Option Nat := fun pid => if pid = 8 then some 5 else none
    ∃ x : Threads Nat × Told Nat,
      Run (ghosted sections.step Sections.record) (fun _ e => Enters e)
        (Sections.idle ⟨[], 0⟩ processes, .none)
        ([.lock 0 (.write ⟨bytes "8", true⟩), .micro 0, .micro 0, .micro 0, .unlock 0,
          .lock 1 (.write ⟨bytes "7", true⟩), .micro 1, .micro 1, .micro 1, .unlock 1,
          .lock 2 .callback, .micro 2, .outside fun _ => none] ++
          List.replicate 5 (.micro 2) ++ [.unlock 2]) x ∧
      x.1.data = ⟨[⟨5, 8⟩], 1⟩ ∧ Follows Effect ⟨[], 0⟩ x.2.left x.1.data := by
  intro processes
  refine Run.exists_of_replay (fun x => (x.1.lock, x.1.data)) (a := (false, ⟨[⟨5, 8⟩], 1⟩))
    (by decide) fun x run seen => ?_
  obtain ⟨free, data⟩ := Prod.mk.inj seen
  exact ⟨data, (registry_atomic run).2 free⟩

/-! ## Whole operations -/

/-- One process at a time appears, uses time or goes, none while the callback is at work, and
the module stays loaded. -/
def Steady {ι : Type} (x : Threads ι × Told ι) : Turn ι (Int → Option Nat) Section → Prop
  | .outside e =>
    (∃ pid utime, e = Function.update x.1.env pid utime) ∧
      ∀ i p, x.1.inside i ≠ some (.callback, p)
  | .lock _ .exit => False
  | _ => True

/-- The registry comes of whole operations. -/
def Sequential {ι : Type} (start : Int → Option Nat)
    (_ : List (Left ι (Int → Option Nat) Section Place)) (processes : Int → Option Nat)
    (s : Registry) : Prop :=
  ∃ es, Run step (fun _ _ => True) (State.init start) es ⟨s.list, s.size, false, processes⟩

/-- The callback sees the same processes all the time. -/
def Saw (k : Section) (seen : List (Int → Option Nat)) (processes : Int → Option Nat) : Prop :=
  match k with
  | .write w => w.currPid ≠ none ∧ w.allocated = true
  | .callback => ∀ e ∈ seen, e = processes
  | .exit => False
  | .read _ => True

theorem visited_steady {processes : Int → Option Nat} {views : List (Int → Option Nat)}
    {l : List ProcCpu} (steady : ∀ e ∈ views, e = processes) (length : views.length = l.length)
    (size : Int) : visited views l = (update processes l size).1 := by
  rw [update_list]
  induction l generalizing views with
  | nil => rw [List.eq_nil_of_length_eq_zero length]; rfl
  | cons curr rest ih =>
    cases views with
    | nil => cases length
    | cons e views =>
      obtain rfl := steady e List.mem_cons_self
      have later := ih (fun e' he' => steady e' (List.mem_cons_of_mem e he'))
        (Nat.succ.inj length)
      cases found : e curr.pid with
      | some utime => simp [visited_found found, later, found]
      | none => simp [visited_gone found, later, found]

/-- The loop counts down once for every node it drops. -/
theorem update_iterate (processes : Int → Option Nat) (l : List ProcCpu) (size : Int) :
    (update processes l size).2 =
      (fun size => i32 (size - 1))^[l.length - (update processes l size).1.length] size := by
  induction l generalizing size with
  | nil => rfl
  | cons curr rest ih =>
    rw [update_cons]
    cases found : processes curr.pid with
    | some utime => simpa using ih size
    | none =>
      have bound : (update processes rest (i32 (size - 1))).1.length ≤ rest.length := by
        rw [update_list]
        exact List.length_filterMap_le _ _
      simp only [Option.elim_none]
      rw [List.length_cons, Nat.succ_sub bound, Function.iterate_succ_apply, ih]

theorem sequential_laws {ι : Type} (start : Int → Option Nat) :
    Sections.Laws sections (fun (x : Threads ι × Told ι) e => Enters e ∧ Steady x e)
      (Sequential start) Saw where
  enter x i k allowed := by
    obtain ⟨enters, steady⟩ := allowed
    cases k with
    | write w => exact enters
    | read kbuf => trivial
    | callback => exact fun e he => absurd he List.not_mem_nil
    | exit => exact steady
  micro k seen e saw := by
    cases k with
    | callback =>
      intro e' he'
      rcases List.mem_append.mp he' with before | now
      · exact saw e' before
      · exact List.mem_singleton.mp now
    | _ => exact saw
  whole left x e s t reached saw whole := by
    obtain ⟨es, run⟩ := reached
    have effect := effect_of_whole whole
    obtain ⟨thread, kind, seen, place⟩ := x
    cases kind with
    | write w =>
      obtain ⟨parsed, allocated⟩ := saw
      obtain ⟨pid, read⟩ := Option.ne_none_iff_exists'.mp parsed
      obtain rfl : t = _ := effect
      refine ⟨_, run.next (e := Event.write w) trivial ?_⟩
      simp [step, mywrite, read, allocated, spinLock, spinUnlock, addTail, bind, Except.bind]
    | read kbuf =>
      obtain ⟨rfl, -⟩ := effect
      exact ⟨es, run⟩
    | callback =>
      obtain ⟨views, sub, length, rfl⟩ := effect
      have same := visited_steady (fun e' he' => saw e' (sub.subset he')) length s.size
      refine ⟨_, run.next (e := Event.callback) trivial ?_⟩
      rw [step, wqCallback_free rfl, same, ← update_iterate]
      rfl
    | exit => exact saw.elim
  outside x e left s allowed reached := by
    obtain ⟨es, run⟩ := reached
    obtain ⟨pid, utime, rfl⟩ := allowed.2.1
    exact ⟨_, run.next (e := .process pid utime) trivial rfl⟩
  meanwhile x e i k p allowed there saw := by
    cases k with
    | callback => exact absurd there (allowed.2.2 i p)
    | _ => exact saw

/-- As long as processes come and go between the callbacks only, whatever interleaving of accesses
there was, the registry is that of a run of whole operations whenever nobody is inside. -/
theorem registry_sequential {ι : Type} [DecidableEq ι] {start : Int → Option Nat}
    {es : List (Turn ι (Int → Option Nat) Section)} {x : Threads ι × Told ι}
    (run : Run (ghosted sections.step Sections.record) (fun x e => Enters e ∧ Steady x e)
      (Sections.idle ⟨[], 0⟩ start, .none) es x)
    (free : x.1.lock = false) :
    ∃ es', Run step (fun _ _ => True) (State.init start) es'
      ⟨x.1.data.list, x.1.data.size, false, x.1.env⟩ := by
  obtain ⟨m, g⟩ := x
  have initial : Sequential start ([] : List (Left ι (Int → Option Nat) Section Place)) start
      ⟨[], 0⟩ := ⟨[], .init⟩
  exact ((Sections.between_run (sequential_laws start) initial run).idle free).2.2

/-- Process 7 uses time while it is being registered, and a callback follows. -/
theorem registry_sequential_callback :
    let start : Int → Option Nat := fun _ => some 0
    ∃ x : Threads Nat × Told Nat,
      Run (ghosted sections.step Sections.record) (fun x e => Enters e ∧ Steady x e)
        (Sections.idle ⟨[], 0⟩ start, .none)
        [.lock 0 (.write ⟨bytes "7", true⟩), .micro 0, .outside (Function.update start 7 (some 3)),
          .micro 0, .micro 0, .unlock 0, .lock 1 .callback, .micro 1, .micro 1, .unlock 1] x ∧
      ∃ es', Run step (fun _ _ => True) (State.init start) es' ⟨[⟨3, 7⟩], 1, false, x.1.env⟩ := by
  intro start
  have before : Run (ghosted sections.step Sections.record)
      (fun (x : Threads Nat × Told Nat) e => Enters e ∧ Steady x e)
      (Sections.idle ⟨[], 0⟩ start, .none) [] (Sections.idle ⟨[], 0⟩ start, .none) := .init
  have locked := before.next (e := Turn.lock 0 (Section.write ⟨bytes "7", true⟩))
    ⟨⟨by decide, rfl⟩, trivial⟩ rfl
  have linked := locked.next (e := Turn.micro 0) ⟨trivial, trivial⟩ rfl
  have used := linked.next (e := Turn.outside (Function.update start 7 (some 3)))
    ⟨trivial, ⟨7, some 3, rfl⟩, fun i p => by
      by_cases own : i = 0 <;> simp [Sections.idle, own]⟩ rfl
  have loaded := used.next (e := Turn.micro 0) ⟨trivial, trivial⟩ rfl
  have stored := loaded.next (e := Turn.micro 0) ⟨trivial, trivial⟩ rfl
  have left := stored.next (e := Turn.unlock 0) ⟨trivial, trivial⟩ rfl
  have entered := left.next (e := Turn.lock 1 Section.callback) ⟨trivial, trivial⟩ rfl
  have visited := entered.next (e := Turn.micro 1) ⟨trivial, trivial⟩ rfl
  have ended := visited.next (e := Turn.micro 1) ⟨trivial, trivial⟩ rfl
  have run := ended.next (e := Turn.unlock 1) ⟨trivial, trivial⟩ rfl
  exact ⟨_, run, registry_sequential run rfl⟩

end KernelModules.MP1
