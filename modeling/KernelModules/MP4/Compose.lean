import KernelModules.MP4.Paths

/-!
# Requests split and merged

Whatever the subject and the object, there is one set of bits such that `mp4_has_permission`
grants exactly the requests within it, although some of its branches test a mask for equality.
The hook looks at some of the bits only, and decides about these in the same way. So a request
is granted exactly when its parts are.
-/

namespace KernelModules.MP4

/-- The bits that `mp4_has_permission` grants. -/
def grants (ssid osid : Int) : Mask :=
  if osid = noAccess then if ssid = targetSid then 0 else BitVec.allOnes 32
  else if osid = readWrite then
    if ssid = targetSid then mayRead ||| mayWrite ||| mayAppend else mayRead
  else if osid = readObj then mayRead
  else if osid = execObj then BitVec.allOnes 32
  else if osid = readDir then mayRead ||| mayExec ||| mayAccess
  else if osid = rwDir then BitVec.allOnes 32
  else 0

theorem granted_iff {c : Prop} [Decidable c] : (if c then (0 : Int) else -eacces) = 0 ↔ c := by
  by_cases c <;> simp_all [eacces]

/-- Within the one bit `MAY_READ` is nothing or that bit. -/
theorem within_mayRead_iff {mask : Mask} (nonzero : mask ≠ 0) :
    Within mask mayRead ↔ mask = mayRead :=
  ⟨fun bits => (within_twoPow (i := 2) bits).resolve_left nonzero, fun same => same ▸ within_self⟩

/-- The two tests of the `read-write` branch: the first is for all, the second for the target. -/
theorem readWrite_granted_iff {ssid : Int} {mask : Mask} (nonzero : mask ≠ 0) :
    (if mask = mayRead then 0
      else if mask ||| mayRead ||| mayWrite ||| mayAppend = mayRead ||| mayWrite ||| mayAppend then
        if ssid = targetSid then 0 else -eacces
      else -eacces) = 0 ↔
    Within mask (if ssid = targetSid then mayRead ||| mayWrite ||| mayAppend else mayRead) := by
  have bits : Within mask (mayRead ||| mayWrite ||| mayAppend) ↔
      mask ||| mayRead ||| mayWrite ||| mayAppend = mayRead ||| mayWrite ||| mayAppend := by
    rw [within_iff_or]
    simp only [BitVec.or_assoc]
  by_cases target : ssid = targetSid
  · simp only [if_pos target]
    by_cases read : mask = mayRead
    · rw [if_pos read, read]
      decide
    · rw [if_neg read, granted_iff, bits]
  · simp only [if_neg target, ite_self]
    rw [granted_iff, within_mayRead_iff nonzero]

theorem mp4HasPermission_iff (ssid osid : Int) (mask : Mask) :
    mp4HasPermission ssid osid mask = 0 ↔ Within mask (grants ssid osid) := by
  by_cases zero : mask = 0
  · rw [mp4HasPermission, if_pos zero, zero]
    exact iff_of_true rfl BitVec.zero_and
  have refused : (-eacces = 0) ↔ Within mask 0 :=
    iff_of_false (by decide) fun nothing => zero (within_zero nothing)
  by_cases exec : osid = execObj
  · rw [exec]
    exact iff_of_true (mp4HasPermission_exec ssid mask) within_allOnes
  rw [mp4HasPermission, if_neg zero, grants]
  by_cases unlabelled : osid = noAccess
  · rw [if_pos unlabelled, if_pos unlabelled]
    split
    · exact refused
    · exact iff_of_true rfl within_allOnes
  rw [if_neg unlabelled, if_neg unlabelled]
  by_cases both : osid = readWrite
  · rw [if_pos both, if_pos both]
    exact readWrite_granted_iff zero
  rw [if_neg both, if_neg both]
  by_cases read : osid = readObj
  · rw [if_pos read, if_pos read, granted_iff, within_mayRead_iff zero]
  rw [if_neg read, if_neg read, if_neg exec, if_neg exec]
  by_cases dir : osid = readDir
  · rw [if_pos dir, if_pos dir, granted_iff, within_iff_or]
    simp only [BitVec.or_assoc]
  rw [if_neg dir, if_neg dir]
  split
  · exact iff_of_true rfl within_allOnes
  · exact refused

/-! ## The hook -/

/-- The bits that the hook grants of those it looks at, once the path is known. -/
def labelGrants (k : Caller) (i : Inode) : Option Int → Mask
  | none => 0
  | some ssid =>
    if ssid ≠ targetSid ∧ i.isDir = true then BitVec.allOnes 32
    else grants ssid (getInodeSid k (some i))

/-- The bits that the hook grants of those it looks at, `none` where it refuses even a request
without any. -/
def hookGrants (k : Caller) (inode : Option Inode) : Option Mask := do
  let i ← inode
  let path ← i.dentry
  let security ← k.cred
  if k.pathBuff = true ∧ path.length < 256 then
    if mp4ShouldSkipPath path then some (BitVec.allOnes 32) else some (labelGrants k i security)
  else some 0

theorem effective_or (m₁ m₂ : Mask) : effective (m₁ ||| m₂) = effective m₁ ||| effective m₂ := by
  unfold effective
  ext i hi
  simp only [BitVec.getElem_or, BitVec.getElem_and]
  cases m₁[i] <;> cases m₂[i] <;> simp

theorem checkLabel_iff (k : Caller) (i : Inode) (security : Option Int) {mask : Mask}
    (nonzero : mask ≠ 0) :
    checkLabel k i security mask = .ok 0 ↔ Within mask (labelGrants k i security) := by
  cases security with
  | none =>
    change Except.ok (-eacces) = Except.ok 0 ↔ Within mask 0
    exact iff_of_false (by decide) fun nothing => nonzero (within_zero nothing)
  | some ssid =>
    change (if ssid = targetSid then _ else _) = _ ↔ Within mask (if _ then _ else _)
    rw [decision_granted, mp4HasPermission_iff]
    by_cases directory : ssid ≠ targetSid ∧ i.isDir = true
    · rw [if_pos directory]
      exact iff_of_true (.inl directory) within_allOnes
    · rw [if_neg directory, or_iff_right directory]

section

variable {k : Caller} {i : Inode} {path : List UInt8} {security : Option Int} {mask : Mask}

/-- The hook on an inode with a path, for a caller with credentials. -/
theorem mp4InodePermission_found_iff (found : i.dentry = some path)
    (subject : k.cred = some security) :
    mp4InodePermission k (some i) mask = .ok 0 ↔
      Within (effective mask)
        (if k.pathBuff = true ∧ path.length < 256 then
          if mp4ShouldSkipPath path then BitVec.allOnes 32 else labelGrants k i security
        else 0) := by
  rw [mp4InodePermission_eq found subject]
  by_cases zero : effective mask = 0
  · rw [if_pos zero, zero]
    exact iff_of_true rfl BitVec.zero_and
  rw [if_neg zero]
  have outside : ¬ Within (effective mask) 0 := fun nothing => zero (within_zero nothing)
  cases buffer : k.pathBuff with
  | false => simpa [eacces] using outside
  | true =>
    by_cases fits : path.length < 256
    · simp only [Bool.true_eq_false, ↓reduceIte, fits, and_self]
      by_cases skipped : mp4ShouldSkipPath path = true
      · rw [if_pos skipped, if_pos skipped]
        exact iff_of_true rfl within_allOnes
      · rw [if_neg skipped, if_neg skipped]
        exact checkLabel_iff k i security zero
    · simpa [fits] using outside

end

/-- The hook grants the requests whose effective bits are within `hookGrants`. -/
theorem mp4InodePermission_iff (k : Caller) (inode : Option Inode) (mask : Mask) :
    mp4InodePermission k inode mask = .ok 0 ↔
      ∃ bits ∈ hookGrants k inode, Within (effective mask) bits := by
  have refused : (Except.ok (-eacces) : Except Fault Int) ≠ .ok 0 := by decide
  cases inode with
  | none => simp [mp4InodePermission, hookGrants, refused]
  | some i =>
    cases found : i.dentry with
    | none => simp [mp4InodePermission, hookGrants, found, refused]
    | some path =>
      cases subject : k.cred with
      | none => simp [mp4InodePermission, hookGrants, found, subject, refused]
      | some security =>
        rw [mp4InodePermission_found_iff found subject]
        simp only [hookGrants, found, subject, Option.bind_eq_bind, Option.bind_some]
        split_ifs <;> simp

/-- A request is granted exactly when both its parts are, by `mp4_has_permission` for any two
ids and by the hook on any inode for any caller. -/
theorem permission_compositional (ssid osid : Int) (k : Caller) (inode : Option Inode)
    (m₁ m₂ : Mask) :
    (mp4HasPermission ssid osid (m₁ ||| m₂) = 0 ↔
      mp4HasPermission ssid osid m₁ = 0 ∧ mp4HasPermission ssid osid m₂ = 0) ∧
    (mp4InodePermission k inode (m₁ ||| m₂) = .ok 0 ↔
      mp4InodePermission k inode m₁ = .ok 0 ∧ mp4InodePermission k inode m₂ = .ok 0) := by
  constructor
  · simp only [mp4HasPermission_iff]
    exact or_within_iff
  · simp only [mp4InodePermission_iff, effective_or]
    cases hookGrants k inode with
    | none => simp
    | some bits => simpa using or_within_iff

end KernelModules.MP4
