import KernelModules.MP4.Permission

/-!
# Objects the target creates

`mp4_inode_init_security` chooses the attribute of a new inode and leaves it to the kernel to
store it. The attribute it chooses for the target is right, but the hook returns `-EOPNOTSUPP`
whatever it has chosen, and the kernel stores nothing: the target cannot use what it creates.
-/

namespace KernelModules.MP4

/-- `ENOMEM` of `asm-generic/errno-base.h`. -/
def enomem : Int := 12

/-- `EOPNOTSUPP` of `asm-generic/errno.h`. -/
def eopnotsupp : Int := 95

/-- What the hook leaves in the three places it is given, `none` where it writes nothing. A
`value` of `some none` is the NULL of a `kstrdup` that found no memory. -/
structure Xattr where
  name : Option (List UInt8)
  value : Option (Option (List UInt8))
  len : Option Nat
  deriving DecidableEq, Repr

/-- A call of the hook: the current credentials with their `mp4_flags` as in `Caller`, whether
the inode is a directory, and which of the pointers are not NULL. -/
structure Creation where
  cred : Option (Option Int)
  inode : Option Bool
  dir : Bool
  name : Bool
  value : Bool
  len : Bool
  memory : Bool
  deriving DecidableEq, Repr

/-- A copy with its NUL. -/
def kstrdup (memory : Bool) (s : String) : Option (List UInt8) :=
  if memory then some (bytes s ++ [0]) else none

def mp4InodeInitSecurity (c : Creation) : Int × Xattr :=
  let unset : Xattr := ⟨none, none, none⟩
  match c.cred with
  | none => (-eopnotsupp, unset)
  | some none => (-eopnotsupp, unset)
  | some (some flags) =>
    match c.inode with
    | none => (-eopnotsupp, unset)
    | some isDir =>
      if c.dir = false then (-eopnotsupp, unset)
      else if c.name = false then (-enomem, unset)
      else
        let named : Xattr := { unset with name := some (bytes "mp4") }
        if flags = targetSid then
          if c.value = false ∨ c.len = false then (-enomem, named)
          else if isDir then
            (-eopnotsupp,
              { named with value := some (kstrdup c.memory "dir-write"), len := some 10 })
          else
            (-eopnotsupp,
              { named with value := some (kstrdup c.memory "read-write"), len := some 11 })
        else (-eopnotsupp, named)

/-- The attribute `security.mp4` that storing `x` leaves. -/
def Xattr.stored (x : Xattr) : Option (List UInt8) :=
  match x.name, x.value, x.len with
  | some name, some (some value), some len =>
    if name = bytes "mp4" then some (value.take len) else none
  | _, _, _ => none

/-- What the kernel makes of the hook's result: it stores the attribute on 0, goes without one on
`-EOPNOTSUPP`, and does not create the object on another error. -/
def create (path : List UInt8) (c : Creation) : Option Inode :=
  let r := mp4InodeInitSecurity c
  match c.inode with
  | none => none
  | some isDir =>
    if r.1 = 0 then some ⟨isDir, some r.2.stored, some path⟩
    else if r.1 = -eopnotsupp then some ⟨isDir, some none, some path⟩
    else none

/-- The target may read, write and append to the file, or do anything to the directory. -/
def Usable (k : Caller) (i : Inode) : Prop :=
  (i.isDir = false → ∀ mask, mask ≠ 0 → Within mask (mayRead ||| mayWrite ||| mayAppend) →
    mp4InodePermission k (some i) mask = .ok 0) ∧
  (i.isDir = true → ∀ mask, mp4InodePermission k (some i) mask = .ok 0)

/-- The attribute chosen for the target decodes to the label it should. -/
theorem chosen_label {c : Creation} {isDir : Bool} (creator : c.cred = some (some targetSid))
    (inode : c.inode = some isDir) (dir : c.dir = true) (name : c.name = true)
    (value : c.value = true) (len : c.len = true) (memory : c.memory = true) (path : List UInt8) :
    (Inode.mk isDir (some (mp4InodeInitSecurity c).2.stored) (some path)).label =
      some (if isDir then .dirWrite else .readWrite) := by
  have stored : (mp4InodeInitSecurity c).2.stored =
      some (bytes (if isDir then "dir-write" else "read-write") ++ [0]) := by
    simp only [mp4InodeInitSecurity, creator, inode, dir, name, value, len, memory]
    cases isDir <;> decide
  rw [stored]
  cases isDir <;> rfl

/-- Nothing the hook does makes it return 0. -/
theorem mp4InodeInitSecurity_ne_zero (c : Creation) : (mp4InodeInitSecurity c).1 ≠ 0 := by
  unfold mp4InodeInitSecurity
  repeat' split
  all_goals simp [eopnotsupp, enomem]

theorem create_unlabelled {path : List UInt8} {c : Creation} {i : Inode}
    (created : create path c = some i) : i.getxattr = some none ∧ i.dentry = some path := by
  unfold create at created
  split at created
  · cases created
  · simp only [mp4InodeInitSecurity_ne_zero, ↓reduceIte] at created
    split at created
    · cases created
      exact ⟨rfl, rfl⟩
    · cases created

/-- **The target cannot use what is created**: whoever creates an object, its label reads as none,
and of the target's requests only those are granted that the hook does not look at. -/
theorem created_unusable (c : Creation) (path : List UInt8) (i : Inode) (k : Caller)
    (created : create path c = some i) (checked : mp4ShouldSkipPath path = false)
    (subject : k.cred = some (some targetSid)) :
    ¬ Usable k i ∧ getInodeSid k (some i) = noAccess ∧
      ∀ mask, mp4InodePermission k (some i) mask = .ok 0 ↔ effective mask = 0 := by
  obtain ⟨unlabelled, found⟩ := create_unlabelled created
  have sid : getInodeSid k (some i) = noAccess := by
    cases ctx : k.ctx <;> simp [getInodeSid, unlabelled, found, ctx, fillXattr]
  have refused (mask : Mask) :
      mp4InodePermission k (some i) mask = .ok 0 ↔ effective mask = 0 := by
    rw [mp4InodePermission_granted found checked subject, sid]
    refine or_iff_left_of_imp ?_
    rintro ⟨-, -, ⟨other, -⟩ | granted⟩
    · exact absurd rfl other
    · by_contra nonzero
      unfold mp4HasPermission at granted
      rw [if_neg nonzero, if_pos rfl, if_pos rfl] at granted
      exact absurd granted (by decide)
  refine ⟨fun usable => ?_, sid, refused⟩
  have read : mp4InodePermission k (some i) mayRead = .ok 0 := by
    cases directory : i.isDir with
    | false => exact usable.1 directory mayRead (by decide) (by decide)
    | true => exact usable.2 directory mayRead
  exact absurd ((refused mayRead).mp read) (by decide)

/-- The target makes a file in its home directory. -/
theorem created_unusable_file :
    let c : Creation := ⟨some (some targetSid), some false, true, true, true, true, true⟩
    let k : Caller := ⟨some (some targetSid), true, true⟩
    ∃ i, create (bytes "/home/notes") c = some i ∧ ¬ Usable k i ∧
      mp4InodePermission k (some i) mayRead ≠ .ok 0 := by
  intro c k
  let i : Inode := ⟨false, some none, some (bytes "/home/notes")⟩
  have created : create (bytes "/home/notes") c = some i := by decide
  obtain ⟨unusable, _, refused⟩ := created_unusable c _ i k created (by decide) rfl
  exact ⟨i, created, unusable, fun granted => absurd ((refused mayRead).mp granted) (by decide)⟩

/-- A file that the target has made cannot be read by it, with every kernel call succeeding. -/
theorem created_refused :
    ¬ ∀ (c : Creation) (path : List UInt8) (i : Inode) (k : Caller),
      c.cred = some (some targetSid) → create path c = some i →
      mp4ShouldSkipPath path = false → path.length ≤ 255 → k.cred = some (some targetSid) →
      k.pathBuff = true → k.ctx = true → Usable k i := by
  intro claim
  let c : Creation := ⟨some (some targetSid), some false, true, true, true, true, true⟩
  let k : Caller := ⟨some (some targetSid), true, true⟩
  let i : Inode := ⟨false, some none, some (bytes "/home/notes")⟩
  have usable :=
    claim c (bytes "/home/notes") i k rfl (by decide) (by decide) (by decide) rfl rfl rfl
  exact absurd (usable.1 rfl mayRead (by decide) (by decide)) (by decide)

end KernelModules.MP4
