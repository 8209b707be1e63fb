import KernelModules.MP4.Compose
import KernelModules.MP4.Ownership

/-!
# What the target reaches

The credentials and the files of a running system: processes fork, execute files, create files
and exit, and files get their labels from outside. What a process may access follows from its
history: with the target in it nothing is granted that no label from outside grants, and files
that the system's own processes have created are closed to it.
-/

namespace KernelModules.MP4

/-- The credentials, and the inodes by number. -/
structure System where
  creds : Creds
  files : Nat → Option Inode

/-- What a process passes to the hook for a new inode, apart from its credential. -/
structure NewInode where
  path : List UInt8
  isDir : Bool
  dir : Bool
  name : Bool
  value : Bool
  len : Bool
  memory : Bool
  deriving DecidableEq, Repr

inductive System.Act
  /-- Any hook on credentials but that of an execution. -/
  | hook (h : Hook)
  /-- A process executes the file `ino`. -/
  | exec (ino cred : Nat) (credPrepared ctx : Bool)
  | create (ino cred : Nat) (new : NewInode)
  /-- `setfattr`, renaming or removal. -/
  | outside (ino : Nat) (inode : Option Inode)
  deriving DecidableEq, Repr

/-- The hook of an execution comes with the file it executes. -/
def Hook.executes : Hook → Bool
  | .setCreds _ => true
  | _ => false

namespace System

/-- The call of the hook for a new inode by a process with this credential. -/
def creation (s : System) (cred : Nat) (new : NewInode) : Creation :=
  ⟨some (s.creds.label cred), some new.isDir, new.dir, new.name, new.value, new.len, new.memory⟩

def bprm (s : System) (ino cred : Nat) (credPrepared ctx : Bool) : Binprm :=
  ⟨some (s.files ino), some cred, credPrepared, ctx⟩

def step (s : System) : Act → Except CredFault System
  | .hook h => (h.step s.creds).map fun creds => { s with creds := creds }
  | .exec ino cred credPrepared ctx =>
    ((Hook.setCreds (some (s.bprm ino cred credPrepared ctx))).step s.creds).map fun creds =>
      { s with creds := creds }
  | .create ino cred new =>
    .ok { s with
      files := Function.update s.files ino (MP4.create new.path (s.creation cred new)) }
  | .outside ino inode => .ok { s with files := Function.update s.files ino inode }

/-- What the kernel sees to. -/
def Proper (s : System) : Act → Prop
  | .hook h => h.executes = false ∧ h.Proper s.creds
  | .exec _ cred _ _ => s.creds.live cred
  | .create ino cred _ => s.files ino = none ∧ s.creds.live cred
  | .outside _ _ => True

instance decidableProper (s : System) (a : Act) : Decidable (s.Proper a) :=
  match a with
  | .hook h => inferInstanceAs (Decidable (h.executes = false ∧ h.Proper s.creds))
  | .exec _ cred _ _ => inferInstanceAs (Decidable (s.creds.live cred))
  | .create ino cred _ => inferInstanceAs (Decidable (s.files ino = none ∧ s.creds.live cred))
  | .outside _ _ => .isTrue trivial

end System

/-- Kept of a run: the past of the credentials, and the files that were created in the run and
not touched from outside since. -/
structure Origin where
  past : Past
  created : Nat → Bool

def Origin.none : Origin := ⟨.none, fun _ => false⟩

def origin (g : Origin) (s : System) : System.Act → Origin
  | .hook h => { g with past := past g.past s.creds h }
  | .exec ino cred credPrepared ctx =>
    { g with past := past g.past s.creds (.setCreds (some (s.bprm ino cred credPrepared ctx))) }
  | .create ino _ _ => { g with created := Function.update g.created ino true }
  | .outside ino _ => { g with created := Function.update g.created ino false }

/-- The system at boot, with the files of the disk. -/
def System.boot (booted : Nat → Bool) (files : Nat → Option Inode) : System :=
  ⟨.boot booted, files⟩

/-- What was created has no label. -/
structure Traced (x : System × Origin) : Prop where
  marked : Marked (x.1.creds, x.2.past)
  plain : ∀ ino i, x.2.created ino = true → x.1.files ino = some i → i.getxattr = some none

section

variable {s t : System} {g : Origin}

theorem Traced.hook (inv : Traced (s, g)) {h : Hook} {creds : Creds} (proper : h.Proper s.creds)
    (called : h.step s.creds = .ok creds) :
    Traced ({ s with creds := creds }, { g with past := past g.past s.creds h }) := by
  refine ⟨?_, inv.plain⟩
  apply marked_step inv.marked proper
  simp only [ghosted, called, Except.map]

theorem traced_step {x y : System × Origin} {a : System.Act} (inv : Traced x)
    (proper : x.1.Proper a) (h : ghosted System.step origin x a = .ok y) : Traced y := by
  obtain ⟨s, g⟩ := x
  obtain ⟨t, g'⟩ := y
  obtain ⟨stepped, recorded⟩ := ghosted_ok h
  simp only at stepped recorded proper
  subst recorded
  cases a with
  | hook h =>
    obtain ⟨creds, called, rfl⟩ := map_ok stepped
    exact inv.hook proper.2 called
  | exec ino cred credPrepared ctx =>
    obtain ⟨creds, called, rfl⟩ := map_ok stepped
    refine inv.hook ?_ called
    intro b same c applied
    cases same
    cases applied
    exact proper
  | create ino cred new =>
    cases stepped
    refine ⟨inv.marked, fun j i fresh found => ?_⟩
    by_cases same : j = ino
    · simp only [same, Function.update_self] at found
      exact (create_unlabelled found).1
    · simp only [origin, Function.update_of_ne same] at fresh found
      exact inv.plain j i fresh found
  | outside ino inode =>
    cases stepped
    refine ⟨inv.marked, fun j i fresh found => ?_⟩
    by_cases same : j = ino
    · simp [origin, same] at fresh
    · simp only [origin, Function.update_of_ne same] at fresh found
      exact inv.plain j i fresh found

theorem traced_run {booted : Nat → Bool} {files : Nat → Option Inode} {as : List System.Act}
    {x : System × Origin}
    (run : Run (ghosted System.step origin) (fun x a => x.1.Proper a)
      (System.boot booted files, .none) as x) : Traced x := by
  apply run.invariant
  · exact ⟨marked_boot booted, nofun⟩
  · intro x a y inv proper stepped
    exact traced_step inv proper stepped

end

/-! ## Access -/

section

variable {k : Caller} {i : Inode} {path : List UInt8} {mask : Mask}

/-- Of a subject's requests for a checked path, those are granted that the label grants. -/
theorem granted_labelGrants (found : i.dentry = some path)
    (checked : mp4ShouldSkipPath path = false) {security : Option Int}
    (subject : k.cred = some security) (asked : effective mask ≠ 0)
    (granted : mp4InodePermission k (some i) mask = .ok 0) :
    Within (effective mask) (labelGrants k i security) := by
  rw [mp4InodePermission_found_iff found subject, checked] at granted
  split at granted
  · exact granted
  · exact absurd (within_zero granted) asked

theorem getInodeSid_unlabelled (unlabelled : i.getxattr = some none) :
    getInodeSid k (some i) = noAccess := by
  simp only [getInodeSid, unlabelled, fillXattr]
  split <;> simp

theorem labelGrants_target :
    labelGrants k i (some targetSid) = grants targetSid (getInodeSid k (some i)) := by
  simp [labelGrants]

theorem labelGrants_unlabelled (unlabelled : i.getxattr = some none) :
    labelGrants k i (some noAccess) = BitVec.allOnes 32 := by
  have other : noAccess ≠ targetSid := by decide
  rw [labelGrants, getInodeSid_unlabelled unlabelled]
  split
  · rfl
  · rw [grants, if_pos rfl, if_neg other]

end

/-- The executions in the history of a credential include the target's. -/
def Targeted (g : Past) (cred : Nat) : Prop := ∃ bprm ∈ g.execs cred, bprm.marks

/-- In every state of a run, a process with an execution of the target in its history is granted
nothing on files that were created in the run and not touched from outside since, and on others
nothing that their label does not grant the target. -/
theorem target_confined {booted : Nat → Bool} {files : Nat → Option Inode}
    {as : List System.Act} {x : System × Origin}
    (run : Run (ghosted System.step origin) (fun x a => x.1.Proper a)
      (System.boot booted files, .none) as x)
    {cred ino : Nat} {i : Inode} (path : List UInt8) (k : Caller) (mask : Mask)
    (made : x.2.past.made cred = true) (targeted : Targeted x.2.past cred)
    (file : x.1.files ino = some i) (found : i.dentry = some path)
    (checked : mp4ShouldSkipPath path = false) (subject : k.cred = some (x.1.creds.label cred))
    (asked : effective mask ≠ 0) (granted : mp4InodePermission k (some i) mask = .ok 0) :
    x.2.created ino = false ∧ Within (effective mask) (grants targetSid (labelSid i.label)) := by
  have inv := traced_run run
  have label : x.1.creds.label cred = some targetSid :=
    (inv.marked.target_iff made).mpr targeted
  rw [label] at subject
  have within := granted_labelGrants found checked subject asked granted
  rw [labelGrants_target] at within
  have refused : ¬ Within (effective mask) (grants targetSid noAccess) := fun nothing =>
    asked (within_zero nothing)
  constructor
  · apply eq_false_of_ne_true
    intro created
    rw [getInodeSid_unlabelled (inv.plain ino i created file)] at within
    exact refused within
  · cases ctx : k.ctx with
    | true => rwa [getInodeSid_label found ctx] at within
    | false =>
      rw [getInodeSid_no_buffer ctx] at within
      exact absurd within refused

/-- A shell forks and the child executes the target, which then reads a file that was labelled
for it. -/
theorem target_confined_reads :
    let app : Inode := ⟨false, some (some (bytes "target")), some (bytes "/home/app")⟩
    let data : Inode := ⟨false, some (some (bytes "read-write")), some (bytes "/home/data")⟩
    ∃ x : System × Origin,
      Run (ghosted System.step origin) (fun x a => x.1.Proper a)
        (System.boot (fun cred => cred == 0) (Function.update (fun _ => none) 5 (some app)), .none)
        [.hook (.setUp 1), .hook (.prepare (some 1) 0 (some 10)), .exec 5 1 false true,
          .create 6 1 ⟨bytes "/home/data", false, true, true, true, true, true⟩,
          .outside 6 (some data)] x ∧
      x.2.created 6 = false ∧
        Within (effective mayWrite) (grants targetSid (labelSid data.label)) := by
  intro app data
  refine Run.exists_of_replay
    (fun x => (x.2.past.made 1, x.2.past.execs 1, x.1.files 6, x.1.creds.label 1))
    (a := (true, [⟨some (some app), some 1, false, true⟩], some data, some targetSid)) (by decide)
    fun x run fields => ?_
  obtain ⟨made, execs, file, label⟩ : x.2.past.made 1 = true ∧
      x.2.past.execs 1 = [⟨some (some app), some 1, false, true⟩] ∧ x.1.files 6 = some data ∧
      x.1.creds.label 1 = some targetSid := by
    simpa using fields
  have targeted : Targeted x.2.past 1 := by
    refine ⟨⟨some (some app), some 1, false, true⟩, ?_, rfl, app, rfl, by decide⟩
    rw [execs]
    exact List.mem_singleton_self _
  let k : Caller := ⟨some (some targetSid), true, true⟩
  exact target_confined run (bytes "/home/data") k mayWrite made targeted file rfl (by decide)
    (congrArg some label.symm) (by decide) (by decide)

/-- In every state of a run, a file that was created in it and not touched from outside since is
open, for whatever is asked, to exactly the processes without the target in their history. -/
theorem created_open_iff {booted : Nat → Bool} {files : Nat → Option Inode}
    {as : List System.Act} {x : System × Origin}
    (run : Run (ghosted System.step origin) (fun x a => x.1.Proper a)
      (System.boot booted files, .none) as x)
    {cred ino : Nat} {i : Inode} (path : List UInt8) (k : Caller) (mask : Mask)
    (made : x.2.past.made cred = true) (created : x.2.created ino = true)
    (file : x.1.files ino = some i) (found : i.dentry = some path)
    (checked : mp4ShouldSkipPath path = false) (fits : path.length < 256)
    (subject : k.cred = some (x.1.creds.label cred)) (buffer : k.pathBuff = true)
    (asked : effective mask ≠ 0) :
    mp4InodePermission k (some i) mask = .ok 0 ↔ ¬ Targeted x.2.past cred := by
  have inv := traced_run run
  have unlabelled := inv.plain ino i created file
  obtain ⟨flags, label, known, target⟩ := inv.marked.made_label made
  rw [label] at subject
  rw [mp4InodePermission_found_iff found subject, if_pos ⟨buffer, fits⟩, checked]
  simp only [Bool.false_eq_true, ↓reduceIte]
  change _ ↔ ¬ ∃ bprm ∈ x.2.past.execs cred, bprm.marks
  rw [← target]
  rcases known with rfl | rfl
  · rw [labelGrants_unlabelled unlabelled]
    exact iff_of_true within_allOnes (by decide)
  · rw [labelGrants_target, getInodeSid_unlabelled unlabelled]
    exact iff_of_false (fun nothing => asked (within_zero nothing)) fun other => other rfl

/-- The target makes a file that its parent can read and it cannot. -/
theorem created_open_iff_parent :
    let app : Inode := ⟨false, some (some (bytes "target")), some (bytes "/home/app")⟩
    ∃ x : System × Origin,
      Run (ghosted System.step origin) (fun x a => x.1.Proper a)
        (System.boot (fun cred => cred == 0) (Function.update (fun _ => none) 5 (some app)), .none)
        [.hook (.setUp 1), .hook (.prepare (some 1) 0 (some 10)), .hook (.setUp 2),
          .hook (.prepare (some 2) 1 (some 20)), .exec 5 2 false true,
          .create 6 2 ⟨bytes "/home/notes", false, true, true, true, true, true⟩] x ∧
      ¬ Targeted x.2.past 1 ∧ Targeted x.2.past 2 := by
  intro app
  let notes : Inode := ⟨false, some none, some (bytes "/home/notes")⟩
  let k (flags : Int) : Caller := ⟨some (some flags), true, true⟩
  refine Run.exists_of_replay
    (fun x => ((x.2.past.made 1, x.2.past.made 2, x.2.created 6), x.1.files 6,
      x.1.creds.label 1, x.1.creds.label 2))
    (a := ((true, true, true), some notes, some noAccess, some targetSid)) (by decide)
    fun x run fields => ?_
  obtain ⟨⟨made, made', created⟩, file, label, label'⟩ :
      (x.2.past.made 1 = true ∧ x.2.past.made 2 = true ∧ x.2.created 6 = true) ∧
      x.1.files 6 = some notes ∧ x.1.creds.label 1 = some noAccess ∧
      x.1.creds.label 2 = some targetSid := by
    simpa using fields
  have parent := created_open_iff run (bytes "/home/notes") (k noAccess) mayRead made created file
    rfl (by decide) (by decide) (congrArg some label.symm) rfl (by decide)
  have child := created_open_iff run (bytes "/home/notes") (k targetSid) mayRead made' created file
    rfl (by decide) (by decide) (congrArg some label'.symm) rfl (by decide)
  exact ⟨parent.mp (by decide), not_not.mp fun other => absurd (child.mpr other) (by decide)⟩

end KernelModules.MP4
