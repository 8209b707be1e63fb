import KernelModules.Lib.Run
import KernelModules.MP4.Create

/-!
# The credential hooks

`mp4_cred_alloc_blank`, `mp4_cred_prepare`, `mp4_bprm_set_creds` and `mp4_cred_free` on the
credentials of the system. The target label enters with the execution of a file that carries it
and spreads with copies; nothing takes it off a credential again.
-/

namespace KernelModules.MP4

/-- `ENOENT` of `asm-generic/errno-base.h`. -/
def enoent : Int := 2

/-- The field `security` of a credential. -/
inductive Pointer
  | null
  /-- The address 7 that `mp4_cred_free` leaves. -/
  | poison
  | block (addr : Nat)
  deriving DecidableEq, Repr

/-- The credentials by address, each with its field `security`, and the `mp4_flags` of the
allocated blobs. -/
structure Creds where
  security : Nat → Option Pointer
  heap : Nat → Option Int

inductive CredFault
  /-- An access through a pointer to nothing. -/
  | badPointer
  /-- `BUG_ON` -/
  | bug
  deriving DecidableEq, Repr

namespace Creds

def ptr (s : Creds) (cred : Nat) : Except CredFault Pointer :=
  match s.security cred with
  | none => .error .badPointer
  | some p => .ok p

def flags (s : Creds) : Pointer → Except CredFault Int
  | .null => .error .badPointer
  | .poison => .error .badPointer
  | .block addr =>
    match s.heap addr with
    | none => .error .badPointer
    | some flags => .ok flags

/-- The blob at `tsec`, with these flags, becomes the credential's. -/
def attach (s : Creds) (cred tsec : Nat) (flags : Int) : Creds :=
  ⟨Function.update s.security cred (some (.block tsec)), Function.update s.heap tsec (some flags)⟩

/-- `ptr->mp4_flags = flags` -/
def setFlags (s : Creds) (p : Pointer) (flags : Int) : Except CredFault Creds :=
  match p with
  | .null => .error .badPointer
  | .poison => .error .badPointer
  | .block addr =>
    match s.heap addr with
    | none => .error .badPointer
    | some _ => .ok { s with heap := Function.update s.heap addr (some flags) }

end Creds

/-! ## The hooks

`block` is what the allocation in a hook returns, `none` for NULL. A hook returns its code and
the credentials it leaves. -/

def mp4CredAllocBlank (s : Creds) (cred : Option Nat) (block : Option Nat) : Int × Creds :=
  match cred with
  | none => (-enoent, s)
  | some cred =>
    match block with
    | none => (-enomem, s)
    | some ptr => (0, s.attach cred ptr noAccess)

def mp4CredPrepare (s : Creds) (new : Option Nat) (old : Nat) (block : Option Nat) :
    Except CredFault (Int × Creds) :=
  match new with
  | none => .ok (-enoent, s)
  | some new => do
    let oldTsec ← s.ptr old
    match block with
    | none => .ok (-enomem, s)
    | some tsec =>
      if oldTsec = .null then .ok (0, s.attach new tsec noAccess)
      else do
        let flags ← s.flags oldTsec
        .ok (0, s.attach new tsec flags)

/-- `struct linux_binprm`. `file` is the inode of the file, `none` without a file and `some none`
without an inode; `ctx` says whether `get_inode_sid` finds memory for the attribute. -/
structure Binprm where
  file : Option (Option Inode)
  cred : Option Nat
  credPrepared : Bool
  ctx : Bool
  deriving DecidableEq, Repr

def Binprm.sid (bprm : Binprm) (node : Inode) : Int :=
  getInodeSid ⟨none, false, bprm.ctx⟩ (some node)

def mp4BprmSetCreds (s : Creds) (bprm : Option Binprm) : Except CredFault (Int × Creds) :=
  match bprm with
  | none => .ok (-enoent, s)
  | some bprm =>
    match bprm.file with
    | none => .ok (-enoent, s)
    | some none => .ok (-enoent, s)
    | some (some node) =>
      match bprm.cred with
      | none => .ok (-enoent, s)
      | some cred => do
        let ptr ← s.ptr cred
        if ptr = .null then .ok (-enoent, s)
        else if bprm.credPrepared then .ok (0, s)
        else if bprm.sid node = targetSid then do
          let s ← s.setFlags ptr targetSid
          .ok (0, s)
        else .ok (0, s)

def mp4CredFree (s : Creds) (cred : Option Nat) : Except CredFault Creds :=
  match cred with
  | none => .ok s
  | some cred => do
    match ← s.ptr cred with
    | .null => .ok s
    | .poison => .error .bug
    | .block addr =>
      .ok ⟨Function.update s.security cred (some .poison), Function.update s.heap addr none⟩

/-! ## Runs of the hooks -/

inductive Hook
  /-- The kernel has set up a new credential, `security` NULL. -/
  | setUp (cred : Nat)
  | allocBlank (cred : Option Nat) (block : Option Nat)
  | prepare (new : Option Nat) (old : Nat) (block : Option Nat)
  | setCreds (bprm : Option Binprm)
  | free (cred : Option Nat)
  deriving DecidableEq, Repr

/-- The code a hook returns, 0 for those without one, and the credentials it leaves. -/
def Hook.call (s : Creds) : Hook → Except CredFault (Int × Creds)
  | .setUp cred => .ok (0, { s with security := Function.update s.security cred (some .null) })
  | .allocBlank cred block => .ok (mp4CredAllocBlank s cred block)
  | .prepare new old block => mp4CredPrepare s new old block
  | .setCreds bprm => mp4BprmSetCreds s bprm
  | .free cred => (mp4CredFree s cred).map fun s => (0, s)

def Hook.step (s : Creds) (h : Hook) : Except CredFault Creds := (h.call s).map Prod.snd

/-- A credential that exists and was not freed. -/
def Creds.live (s : Creds) (cred : Nat) : Prop :=
  s.security cred ≠ none ∧ s.security cred ≠ some .poison

instance Creds.decidableLive (s : Creds) (cred : Nat) : Decidable (s.live cred) :=
  inferInstanceAs (Decidable (s.security cred ≠ none ∧ s.security cred ≠ some .poison))

/-- What the kernel sees to: an allocation returns a block that is not in use, labels are
allocated and prepared for new credentials, and the hooks get credentials that are live. -/
def Hook.Proper (s : Creds) : Hook → Prop
  | .setUp cred => ¬ s.live cred
  | .allocBlank cred block =>
    (∀ c ∈ cred, s.security c = some .null) ∧ ∀ b ∈ block, s.heap b = none
  | .prepare new old block =>
    (∀ c ∈ new, s.security c = some .null) ∧ s.live old ∧ ∀ b ∈ block, s.heap b = none
  | .setCreds bprm => ∀ b ∈ bprm, ∀ c ∈ b.cred, s.live c
  | .free cred => ∀ c ∈ cred, s.live c

instance Hook.decidableProper (s : Creds) (h : Hook) : Decidable (h.Proper s) :=
  match h with
  | .setUp cred => inferInstanceAs (Decidable (¬ s.live cred))
  | .allocBlank cred block =>
    inferInstanceAs (Decidable
      ((∀ c ∈ cred, s.security c = some .null) ∧ ∀ b ∈ block, s.heap b = none))
  | .prepare new old block =>
    inferInstanceAs (Decidable
      ((∀ c ∈ new, s.security c = some .null) ∧ s.live old ∧ ∀ b ∈ block, s.heap b = none))
  | .setCreds bprm => inferInstanceAs (Decidable (∀ b ∈ bprm, ∀ c ∈ b.cred, s.live c))
  | .free cred => inferInstanceAs (Decidable (∀ c ∈ cred, s.live c))

/-- Kept of a run: the credentials for which allocation or preparation succeeded, and the
executions that were applied to a credential or, before the copy, to those it was copied
from. -/
structure Past where
  made : Nat → Bool
  execs : Nat → List Binprm

def Past.none : Past := ⟨fun _ => false, fun _ => []⟩

/-- Only a hook that returns 0 counts. -/
def past (g : Past) (s : Creds) (h : Hook) : Past :=
  match h with
  | .setUp cred => ⟨Function.update g.made cred false, Function.update g.execs cred []⟩
  | .allocBlank (some cred) block =>
    if (mp4CredAllocBlank s (some cred) block).1 = 0 then
      { g with made := Function.update g.made cred true }
    else g
  | .prepare (some new) old block =>
    if (mp4CredPrepare s (some new) old block).toOption.map Prod.fst = some 0 then
      ⟨Function.update g.made new true, Function.update g.execs new (g.execs old)⟩
    else g
  | .setCreds (some bprm) =>
    if (mp4BprmSetCreds s (some bprm)).toOption.map Prod.fst = some 0 then
      match bprm.cred with
      | some cred => { g with execs := Function.update g.execs cred (g.execs cred ++ [bprm]) }
      | .none => g
    else g
  | .free (some cred) => { g with made := Function.update g.made cred false }
  | _ => g

/-- An execution that marks: of a file for which `get_inode_sid` returns the target id, with
`cred_prepared` unset. -/
def Binprm.marks (bprm : Binprm) : Prop :=
  bprm.credPrepared = false ∧ ∃ node, bprm.file = some (some node) ∧ bprm.sid node = targetSid

/-- The `mp4_flags` of a credential. -/
def Creds.label (s : Creds) (cred : Nat) : Option Int :=
  match s.security cred with
  | some (.block addr) => s.heap addr
  | _ => none

/-- The labels are those the executions account for, and no two credentials share a blob. -/
structure Marked (x : Creds × Past) : Prop where
  made : ∀ cred, x.2.made cred = true ↔ ∃ addr, x.1.security cred = some (.block addr)
  plain : ∀ cred, x.1.security cred = some .null → x.2.execs cred = []
  label : ∀ cred addr, x.1.security cred = some (.block addr) → ∃ flags,
    x.1.heap addr = some flags ∧ (flags = noAccess ∨ flags = targetSid) ∧
      (flags = targetSid ↔ ∃ bprm ∈ x.2.execs cred, bprm.marks)
  apart : ∀ cred cred' addr, x.1.security cred = some (.block addr) →
    x.1.security cred' = some (.block addr) → cred = cred'

section

variable {s t : Creds} {g : Past} {cred : Nat}

theorem Marked.setUp (inv : Marked (s, g)) (cred : Nat) :
    Marked ({ s with security := Function.update s.security cred (some .null) },
      past g s (.setUp cred)) := by
  obtain ⟨made, plain, label, apart⟩ := inv
  simp only at made plain label apart
  have other {c : Nat} {addr : Nat}
      (h : Function.update s.security cred (some .null) c = some (.block addr)) :
      c ≠ cred ∧ s.security c = some (.block addr) := by
    by_cases same : c = cred
    · subst same
      simp at h
    · exact ⟨same, by rwa [Function.update_of_ne same] at h⟩
  constructor
  · intro c
    by_cases same : c = cred
    · subst same
      simp [past]
    · simp only [past, Function.update_of_ne same]
      exact made c
  · intro c null
    by_cases same : c = cred
    · subst same
      simp [past]
    · simp only [Function.update_of_ne same] at null
      simp only [past, Function.update_of_ne same]
      exact plain c null
  · intro c addr block
    obtain ⟨apart, old⟩ := other block
    obtain ⟨flags, found, known⟩ := label c addr old
    refine ⟨flags, found, ?_⟩
    simp only [past, Function.update_of_ne apart]
    exact known
  · intro c c' addr block block'
    exact apart c c' addr (other block).2 (other block').2

/-- A new blob with the flags that the executions in `execs` account for. -/
theorem Marked.attach (inv : Marked (s, g)) (cred : Nat) (execs : List Binprm) {tsec : Nat}
    {flags : Int} (unused : s.heap tsec = none) (right : flags = noAccess ∨ flags = targetSid)
    (exact : flags = targetSid ↔ ∃ bprm ∈ execs, bprm.marks) :
    Marked (s.attach cred tsec flags,
      ⟨Function.update g.made cred true, Function.update g.execs cred execs⟩) := by
  obtain ⟨made, plain, label, apart⟩ := inv
  simp only at made plain label apart
  have taken {c addr : Nat} (old : s.security c = some (.block addr)) : addr ≠ tsec := by
    rintro rfl
    obtain ⟨flags, found, -⟩ := label c addr old
    rw [unused] at found
    cases found
  constructor
  · intro c
    by_cases same : c = cred
    · subst same
      simp [Creds.attach]
    · simp only [Creds.attach, Function.update_of_ne same]
      exact made c
  · intro c null
    by_cases same : c = cred
    · subst same
      simp [Creds.attach] at null
    · simp only [Creds.attach, Function.update_of_ne same] at null ⊢
      exact plain c null
  · intro c addr block
    by_cases same : c = cred
    · subst same
      obtain rfl : tsec = addr := by simpa [Creds.attach] using block
      exact ⟨flags, by simp [Creds.attach], right, by simpa using exact⟩
    · simp only [Creds.attach, Function.update_of_ne same] at block ⊢
      rw [Function.update_of_ne (taken block)]
      exact label c addr block
  · intro c c' addr block block'
    by_cases same : c = cred <;> by_cases same' : c' = cred
    · exact same.trans same'.symm
    · subst same
      simp only [Creds.attach, Function.update_self, Function.update_of_ne same'] at block block'
      obtain rfl : tsec = addr := by simpa using block
      exact absurd rfl (taken block')
    · subst same'
      simp only [Creds.attach, Function.update_self, Function.update_of_ne same] at block block'
      obtain rfl : tsec = addr := by simpa using block'
      exact absurd rfl (taken block)
    · simp only [Creds.attach, Function.update_of_ne same, Function.update_of_ne same']
        at block block'
      exact apart c c' addr block block'

/-- An execution leaves the flags of the credential or, when it marks, makes them the target's. -/
theorem Marked.exec {addr : Nat} {flags : Int} {bprm : Binprm} (inv : Marked (s, g))
    (block : s.security cred = some (.block addr))
    (marked : bprm.marks → flags = targetSid)
    (unmarked : ¬ bprm.marks → s.heap addr = some flags) :
    Marked ({ s with heap := Function.update s.heap addr (some flags) },
      { g with execs := Function.update g.execs cred (g.execs cred ++ [bprm]) }) := by
  obtain ⟨made, plain, label, apart⟩ := inv
  simp only at made plain label apart
  refine ⟨made, fun c null => ?_, fun c addr' block' => ?_, apart⟩
  · by_cases same : c = cred
    · subst same
      cases block.symm.trans null
    · simp only [Function.update_of_ne same]
      exact plain c null
  · by_cases same : c = cred
    · subst same
      obtain rfl : addr = addr' := by simpa using block.symm.trans block'
      obtain ⟨old, found, right, exact⟩ := label c addr block
      refine ⟨flags, Function.update_self _ _ _, ?_⟩
      simp only [Function.update_self, List.mem_append, List.mem_singleton]
      by_cases marks : bprm.marks
      · exact ⟨.inr (marked marks), fun _ => ⟨bprm, .inr rfl, marks⟩, fun _ => marked marks⟩
      · obtain rfl : old = flags := Option.some.inj (found.symm.trans (unmarked marks))
        refine ⟨right, exact.trans ⟨?_, ?_⟩⟩
        · rintro ⟨b, mem, hit⟩
          exact ⟨b, .inl mem, hit⟩
        · rintro ⟨b, mem | rfl, hit⟩
          · exact ⟨b, mem, hit⟩
          · exact absurd hit marks
    · have distinct : addr' ≠ addr := by
        rintro rfl
        exact same (apart c cred addr' block' block)
      simp only [Function.update_of_ne distinct, Function.update_of_ne same]
      exact label c addr' block'

theorem Marked.free {addr : Nat} (inv : Marked (s, g))
    (block : s.security cred = some (.block addr)) :
    Marked (⟨Function.update s.security cred (some .poison), Function.update s.heap addr none⟩,
      { g with made := Function.update g.made cred false }) := by
  obtain ⟨made, plain, label, apart⟩ := inv
  simp only at made plain label apart
  have other {c : Nat} {p : Pointer} (alive : p ≠ .poison)
      (h : Function.update s.security cred (some .poison) c = some p) :
      c ≠ cred ∧ s.security c = some p := by
    by_cases same : c = cred
    · subst same
      rw [Function.update_self, Option.some.injEq] at h
      exact absurd h.symm alive
    · exact ⟨same, by rwa [Function.update_of_ne same] at h⟩
  constructor
  · intro c
    by_cases same : c = cred
    · subst same
      simp
    · simp only [Function.update_of_ne same]
      exact made c
  · intro c null
    exact plain c (other (by decide) null).2
  · intro c addr' block'
    obtain ⟨same, old⟩ := other (by simp) block'
    have distinct : addr' ≠ addr := by
      rintro rfl
      exact same (apart c cred addr' old block)
    simp only [Function.update_of_ne distinct]
    exact label c addr' old
  · intro c c' addr' block' block''
    exact apart c c' addr' (other (by simp) block').2 (other (by simp) block'').2

/-! ## What a hook does -/

theorem ptr_ok {p : Pointer} (h : s.ptr cred = .ok p) : s.security cred = some p := by
  unfold Creds.ptr at h
  split at h
  · cases h
  · rename_i found
    cases h
    exact found

theorem live_ptr {p : Pointer} (live : s.live cred) (h : s.security cred = some p) :
    p = .null ∨ ∃ addr, p = .block addr := by
  cases p with
  | null => exact .inl rfl
  | poison => exact absurd h live.2
  | block addr => exact .inr ⟨addr, rfl⟩

/-- A preparation fails and changes nothing, or attaches a blob: a blank one when the old
credential has none, else one with the same flags. -/
theorem mp4CredPrepare_ok {new : Option Nat} {old : Nat} {block : Option Nat} {ret : Int}
    (h : mp4CredPrepare s new old block = .ok (ret, t)) :
    ret ≠ 0 ∧ t = s ∨
    ret = 0 ∧ ∃ cred tsec, new = some cred ∧ block = some tsec ∧
      (s.security old = some .null ∧ t = s.attach cred tsec noAccess ∨
        ∃ addr flags, s.security old = some (.block addr) ∧ s.heap addr = some flags ∧
          t = s.attach cred tsec flags) := by
  unfold mp4CredPrepare at h
  cases new with
  | none =>
    cases h
    exact .inl ⟨by decide, rfl⟩
  | some cred =>
    obtain ⟨oldTsec, found, h⟩ := bind_ok h
    have found := ptr_ok found
    cases block with
    | none =>
      cases h
      exact .inl ⟨by decide, rfl⟩
    | some tsec =>
      simp only at h
      split at h
      · rename_i null
        cases h
        exact .inr ⟨rfl, cred, tsec, rfl, rfl, .inl ⟨null ▸ found, rfl⟩⟩
      · obtain ⟨flags, copied, h⟩ := bind_ok h
        cases h
        refine .inr ⟨rfl, cred, tsec, rfl, rfl, .inr ?_⟩
        cases oldTsec with
        | null => cases copied
        | poison => cases copied
        | block addr =>
          simp only [Creds.flags] at copied
          split at copied
          · cases copied
          · rename_i stored
            cases copied
            exact ⟨addr, flags, found, stored, rfl⟩

/-- The execution hook fails and changes nothing, or is applied to a credential. -/
theorem mp4BprmSetCreds_ok {bprm : Option Binprm} {ret : Int}
    (h : mp4BprmSetCreds s bprm = .ok (ret, t)) :
    ret ≠ 0 ∧ t = s ∨
    ret = 0 ∧ ∃ b cred p, bprm = some b ∧ b.cred = some cred ∧ s.security cred = some p ∧
      p ≠ .null ∧ (¬ b.marks ∧ t = s ∨ b.marks ∧ s.setFlags p targetSid = .ok t) := by
  unfold mp4BprmSetCreds at h
  cases bprm with
  | none =>
    cases h
    exact .inl ⟨by decide, rfl⟩
  | some b =>
    simp only at h
    match file : b.file with
    | none =>
      rw [file] at h
      cases h
      exact .inl ⟨by decide, rfl⟩
    | some none =>
      rw [file] at h
      cases h
      exact .inl ⟨by decide, rfl⟩
    | some (some node) =>
      simp only [file] at h
      cases applied : b.cred with
      | none =>
        rw [applied] at h
        cases h
        exact .inl ⟨by decide, rfl⟩
      | some cred =>
        rw [applied] at h
        obtain ⟨p, found, h⟩ := bind_ok h
        have found := ptr_ok found
        have marks : b.marks ↔ b.credPrepared = false ∧ b.sid node = targetSid := by
          simp [Binprm.marks, file]
        split at h
        · cases h
          exact .inl ⟨by decide, rfl⟩
        · rename_i labelled
          split at h
          · rename_i prepared
            cases h
            exact .inr ⟨rfl, b, cred, p, rfl, applied, found, labelled,
              .inl ⟨by simp [marks, prepared], rfl⟩⟩
          · rename_i unprepared
            split at h
            · rename_i target
              obtain ⟨u, set, h⟩ := bind_ok h
              cases h
              exact .inr ⟨rfl, b, cred, p, rfl, applied, found, labelled,
                .inr ⟨marks.mpr ⟨eq_false_of_ne_true unprepared, target⟩, set⟩⟩
            · rename_i other
              cases h
              exact .inr ⟨rfl, b, cred, p, rfl, applied, found, labelled,
                .inl ⟨by simp [marks, other], rfl⟩⟩

theorem setFlags_ok {p : Pointer} {flags : Int} (h : s.setFlags p flags = .ok t) :
    ∃ addr, p = .block addr ∧ t = { s with heap := Function.update s.heap addr (some flags) } := by
  cases p with
  | null => cases h
  | poison => cases h
  | block addr =>
    simp only [Creds.setFlags] at h
    split at h
    · cases h
    · cases h
      exact ⟨addr, rfl, rfl⟩

theorem mp4CredFree_ok {cred : Option Nat} (h : mp4CredFree s cred = .ok t) :
    (t = s ∧ ∀ c ∈ cred, s.security c = some .null) ∨
    ∃ c addr, cred = some c ∧ s.security c = some (.block addr) ∧
      t = ⟨Function.update s.security c (some .poison), Function.update s.heap addr none⟩ := by
  unfold mp4CredFree at h
  cases cred with
  | none =>
    cases h
    exact .inl ⟨rfl, by simp⟩
  | some c =>
    obtain ⟨p, found, h⟩ := bind_ok h
    have found := ptr_ok found
    cases p with
    | null =>
      cases h
      exact .inl ⟨rfl, by simpa using found⟩
    | poison => cases h
    | block addr =>
      cases h
      exact .inr ⟨c, addr, rfl, found, rfl⟩

theorem Marked.prepared {new : Option Nat} {old : Nat} {block : Option Nat} {ret : Int}
    (inv : Marked (s, g)) (proper : (Hook.prepare new old block).Proper s)
    (h : mp4CredPrepare s new old block = .ok (ret, t)) :
    Marked (t, past g s (.prepare new old block)) := by
  rcases mp4CredPrepare_ok h with ⟨failed, rfl⟩ | ⟨rfl, cred, tsec, rfl, rfl, copied⟩
  · cases new with
    | none => exact inv
    | some cred => simpa [past, h, Except.toOption, failed] using inv
  · have unused : s.heap tsec = none := proper.2.2 tsec rfl
    have counted : past g s (.prepare (some cred) old (some tsec)) =
        ⟨Function.update g.made cred true, Function.update g.execs cred (g.execs old)⟩ := by
      simp [past, h, Except.toOption]
    rw [counted]
    rcases copied with ⟨null, rfl⟩ | ⟨addr, flags, labelled, stored, rfl⟩
    · have none : g.execs old = [] := inv.plain old null
      rw [none]
      exact inv.attach cred [] unused (.inl rfl) (by simp [noAccess, targetSid])
    · obtain ⟨flags', found, right, exact⟩ := inv.label old addr labelled
      obtain rfl : flags' = flags := Option.some.inj (found.symm.trans stored)
      exact inv.attach cred (g.execs old) unused right exact

theorem Marked.executed {bprm : Option Binprm} {ret : Int} (inv : Marked (s, g))
    (proper : (Hook.setCreds bprm).Proper s) (h : mp4BprmSetCreds s bprm = .ok (ret, t)) :
    Marked (t, past g s (.setCreds bprm)) := by
  rcases mp4BprmSetCreds_ok h with ⟨failed, rfl⟩ |
    ⟨rfl, b, cred, p, rfl, applied, found, labelled, done⟩
  · cases bprm with
    | none => exact inv
    | some b => simpa [past, h, Except.toOption, failed] using inv
  · have counted : past g s (.setCreds (some b)) =
        { g with execs := Function.update g.execs cred (g.execs cred ++ [b]) } := by
      simp [past, h, Except.toOption, applied]
    rw [counted]
    rcases done with ⟨unmarked, same⟩ | ⟨marks, set⟩
    · rw [same]
      obtain ⟨addr, rfl⟩ := (live_ptr (proper b rfl cred applied) found).resolve_left labelled
      obtain ⟨flags, stored, -⟩ := inv.label cred addr found
      have kept : Marked ({ s with heap := Function.update s.heap addr (some flags) },
          { g with execs := Function.update g.execs cred (g.execs cred ++ [b]) }) :=
        inv.exec found (fun marks => absurd marks unmarked) fun _ => stored
      rw [← stored, Function.update_eq_self] at kept
      exact kept
    · obtain ⟨addr, rfl, rfl⟩ := setFlags_ok set
      exact inv.exec found (fun _ => rfl) (fun unmarked => absurd marks unmarked)

theorem marked_step {x y : Creds × Past} {h : Hook} (inv : Marked x) (proper : h.Proper x.1)
    (stepped : ghosted Hook.step past x h = .ok y) : Marked y := by
  obtain ⟨s, g⟩ := x
  obtain ⟨t, g'⟩ := y
  obtain ⟨moved, rfl⟩ := ghosted_ok stepped
  obtain ⟨⟨ret, u⟩, called, rfl⟩ := map_ok moved
  simp only at called proper
  cases h with
  | setUp cred =>
    cases called
    exact inv.setUp cred
  | allocBlank cred block =>
    have done : mp4CredAllocBlank s cred block = (ret, u) := Except.ok.inj called
    cases cred with
    | none =>
      cases done
      exact inv
    | some cred =>
      cases block with
      | none =>
        cases done
        simpa [past, mp4CredAllocBlank, enomem] using inv
      | some tsec =>
        cases done
        have null : s.security cred = some .null := proper.1 cred rfl
        have fresh := inv.attach cred [] (proper.2 tsec rfl) (.inl rfl)
          (by simp [noAccess, targetSid])
        have same : Function.update g.execs cred [] = g.execs := by
          rw [← inv.plain cred null, Function.update_eq_self]
        rw [same] at fresh
        simpa [past, mp4CredAllocBlank] using fresh
  | prepare new old block => exact inv.prepared proper called
  | setCreds bprm => exact inv.executed proper called
  | free cred =>
    obtain ⟨v, freed, same⟩ := map_ok called
    obtain ⟨-, rfl⟩ := Prod.mk.inj same
    rcases mp4CredFree_ok freed with ⟨rfl, null⟩ | ⟨c, addr, rfl, block, rfl⟩
    · cases cred with
      | none => exact inv
      | some c =>
        have unmade : g.made c = false := by
          apply eq_false_of_ne_true
          intro made
          obtain ⟨addr, block⟩ := (inv.made c).mp made
          cases (null c rfl).symm.trans block
        have same : Function.update g.made c false = g.made := by
          rw [← unmade, Function.update_eq_self]
        simpa [past, same] using inv
    · exact inv.free block

/-- As long as it is not freed, a credential keeps its label's blob and what was executed with
it. -/
theorem past_keeps {x y : Creds × Past} {h : Hook} {cred : Nat} (inv : Marked x)
    (proper : h.Proper x.1) (stepped : ghosted Hook.step past x h = .ok y)
    (spared : h ≠ .free (some cred)) (made : x.2.made cred = true) :
    y.2.made cred = true ∧ ∀ bprm ∈ x.2.execs cred, bprm ∈ y.2.execs cred := by
  obtain ⟨s, g⟩ := x
  obtain ⟨t, g'⟩ := y
  obtain ⟨-, rfl⟩ := ghosted_ok stepped
  obtain ⟨addr, block⟩ := (inv.made cred).mp made
  have labelled : s.security cred = some (.block addr) := block
  have other {c : Nat} (null : s.security c = some .null) : cred ≠ c := by
    rintro rfl
    cases null.symm.trans labelled
  have same : g.made cred = true ∧ ∀ bprm ∈ g.execs cred, bprm ∈ g.execs cred :=
    ⟨made, fun _ mem => mem⟩
  cases h with
  | setUp c =>
    have apart : cred ≠ c := by
      rintro rfl
      exact proper ⟨by simp [labelled], by simp [labelled]⟩
    simpa [past, Function.update_of_ne apart] using same
  | allocBlank c block =>
    cases c with
    | none => exact same
    | some c =>
      have apart := other (proper.1 c rfl)
      simp only [past]
      split
      · simpa [Function.update_of_ne apart] using same
      · exact same
  | prepare new old block =>
    cases new with
    | none => exact same
    | some c =>
      have apart := other (proper.1 c rfl)
      simp only [past]
      split
      · simpa [Function.update_of_ne apart] using same
      · exact same
  | setCreds bprm =>
    cases bprm with
    | none => exact same
    | some b =>
      simp only [past]
      split
      · cases applied : b.cred with
        | none => exact same
        | some c =>
          by_cases own : cred = c
          · subst own
            refine ⟨made, fun bprm mem => ?_⟩
            simp only [Function.update_self]
            exact List.mem_append_left _ mem
          · simpa [Function.update_of_ne own] using same
      · exact same
  | free c =>
    cases c with
    | none => exact same
    | some c =>
      have apart : cred ≠ c := by
        rintro rfl
        exact spared rfl
      simpa [past, Function.update_of_ne apart] using same

end

/-- The credentials before the first hook: those there are have no label. -/
def Creds.boot (booted : Nat → Bool) : Creds :=
  ⟨fun cred => if booted cred then some .null else none, fun _ => none⟩

theorem marked_boot (booted : Nat → Bool) : Marked (Creds.boot booted, .none) := by
  have unlabelled (cred addr : Nat) : (Creds.boot booted).security cred ≠ some (.block addr) := by
    simp only [Creds.boot]
    split <;> simp
  refine ⟨fun cred => ?_, fun _ _ => rfl, fun cred addr block => ?_, fun cred _ addr block => ?_⟩
  · simp only [Past.none, Bool.false_eq_true, false_iff, not_exists]
    exact unlabelled cred
  · exact absurd block (unlabelled cred addr)
  · exact absurd block (unlabelled cred addr)

section

variable {x : Creds × Past} {cred : Nat}

theorem Marked.made_label (inv : Marked x) (made : x.2.made cred = true) :
    ∃ flags, x.1.label cred = some flags ∧ (flags = noAccess ∨ flags = targetSid) ∧
      (flags = targetSid ↔ ∃ bprm ∈ x.2.execs cred, bprm.marks) := by
  obtain ⟨addr, block⟩ := (inv.made cred).mp made
  obtain ⟨flags, stored, known⟩ := inv.label cred addr block
  exact ⟨flags, by rw [Creds.label, block]; exact stored, known⟩

theorem Marked.made_of_label {flags : Int} (inv : Marked x) (label : x.1.label cred = some flags) :
    x.2.made cred = true := by
  apply (inv.made cred).mpr
  unfold Creds.label at label
  split at label
  · rename_i addr block
    exact ⟨addr, block⟩
  · cases label

/-- The target label on a credential means that an execution marked it. -/
theorem Marked.target_iff (inv : Marked x) (made : x.2.made cred = true) :
    x.1.label cred = some targetSid ↔ ∃ bprm ∈ x.2.execs cred, bprm.marks := by
  obtain ⟨flags, label, -, exact⟩ := inv.made_label made
  rw [label, Option.some.injEq]
  exact exact

/-- Until it is freed, no hook takes the target label off a credential. -/
theorem Marked.sticky {hs : List Hook} {y : Creds × Past} (inv : Marked x)
    (label : x.1.label cred = some targetSid)
    (later : Run (ghosted Hook.step past)
      (fun x h => h.Proper x.1 ∧ h ≠ .free (some cred)) x hs y) :
    y.1.label cred = some targetSid := by
  have made := inv.made_of_label label
  have kept : Marked y ∧ y.2.made cred = true ∧ ∃ bprm ∈ y.2.execs cred, bprm.marks := by
    apply later.invariant
    · exact ⟨inv, made, (inv.target_iff made).mp label⟩
    · rintro x h y ⟨inv, made, bprm, mem, marks⟩ ⟨proper, spared⟩ stepped
      obtain ⟨still, execs⟩ := past_keeps inv proper stepped spared made
      exact ⟨marked_step inv proper stepped, still, bprm, execs bprm mem, marks⟩
  exact (kept.1.target_iff kept.2.1).mpr kept.2.2

/-- A copy of a target credential is one. -/
theorem prepared_target {s t : Creds} {new old : Nat} {block : Option Nat}
    (label : s.label old = some targetSid)
    (prepared : mp4CredPrepare s (some new) old block = .ok (0, t)) :
    t.label new = some targetSid := by
  rcases mp4CredPrepare_ok prepared with ⟨failed, -⟩ | ⟨-, cred, tsec, same, -, copied⟩
  · exact absurd rfl failed
  · cases same
    unfold Creds.label at label
    rcases copied with ⟨null, -⟩ | ⟨addr, flags, block, stored, rfl⟩
    · rw [null] at label
      cases label
    · rw [block] at label
      cases stored.symm.trans label
      simp [Creds.label, Creds.attach]

end

/-- Along every run of the hooks, a credential for which allocation or preparation succeeded has
no label or the target's, and the target's exactly when a marking execution was applied to it or,
before the copy, to one it was copied from. No run takes it off again, and a copy has it too. -/
theorem target_iff_executed {booted : Nat → Bool} {hs : List Hook} {x : Creds × Past}
    (run : Run (ghosted Hook.step past) (fun x h => h.Proper x.1) (Creds.boot booted, .none) hs x) :
    (∀ cred, x.2.made cred = true → ∃ flags, x.1.label cred = some flags ∧
      (flags = noAccess ∨ flags = targetSid) ∧
      (flags = targetSid ↔ ∃ bprm ∈ x.2.execs cred, bprm.marks)) ∧
    (∀ cred hs' y, x.1.label cred = some targetSid →
      Run (ghosted Hook.step past) (fun x h => h.Proper x.1 ∧ h ≠ .free (some cred)) x hs' y →
      y.1.label cred = some targetSid) ∧
    (∀ new old block t, x.1.label old = some targetSid →
      mp4CredPrepare x.1 (some new) old block = .ok (0, t) → t.label new = some targetSid) := by
  have inv : Marked x := by
    apply run.invariant (marked_boot booted)
    intro x h y inv proper stepped
    exact marked_step inv proper stepped
  refine ⟨fun cred made => inv.made_label made, ?_, ?_⟩
  · intro cred hs' y label later
    exact inv.sticky label later
  · intro new old block t label prepared
    exact prepared_target label prepared

/-- A shell forks, and its child executes the target and forks again. -/
theorem target_iff_executed_forks :
    ∃ x, Run (ghosted Hook.step past) (fun x h => h.Proper x.1)
        (Creds.boot (fun cred => cred == 0), .none)
        [.setUp 1, .prepare (some 1) 0 (some 10), .setUp 2, .prepare (some 2) 1 (some 20),
          .setCreds (some ⟨some (some ⟨false, some (some (bytes "target")), some (bytes "/a")⟩),
            some 2, false, true⟩),
          .setUp 3, .prepare (some 3) 2 (some 30)] x ∧
      x.1.label 1 = some noAccess ∧ x.1.label 3 = some targetSid := by
  refine Run.exists_of_replay (fun x => (x.2.made 1, x.2.execs 1, x.2.made 3, x.2.execs 3))
    (a := (true, [], true,
      [⟨some (some ⟨false, some (some (bytes "target")), some (bytes "/a")⟩), some 2, false,
        true⟩])) (by decide) fun x run fields => ?_
  simp only [Prod.mk.injEq] at fields
  obtain ⟨made, execs, made', execs'⟩ := fields
  obtain ⟨flags, label, right, target⟩ := (target_iff_executed run).1 1 made
  obtain ⟨flags', label', right', target'⟩ := (target_iff_executed run).1 3 made'
  refine ⟨?_, ?_⟩
  · rw [execs] at target
    rw [label, right.resolve_right fun marked => ?_]
    obtain ⟨bprm, mem, -⟩ := target.mp marked
    exact absurd mem List.not_mem_nil
  · rw [execs'] at target'
    rw [label', target'.mpr ⟨_, List.mem_cons_self, rfl, _, rfl, by decide⟩]

end KernelModules.MP4
