import KernelModules.Lib.Mask
import KernelModules.MP4.Label

/-!
# The permission hook

`get_inode_sid`, `mp4_has_permission` and `mp4_inode_permission`, and what an access that the
hook grants may ask for. The label semantics are those of `mp4_given.h`, stated in `allowed`
without reference to the code.
-/

namespace KernelModules.MP4

/-- `getxattr` is the operation's answer for `security.mp4`: `none` without the operation,
`some none` without the attribute. `dentry` is the path of the alias `d_find_alias` finds. -/
structure Inode where
  isDir : Bool
  getxattr : Option (Option (List UInt8))
  dentry : Option (List UInt8)
  deriving DecidableEq, Repr

/-- `current_cred()` and the `mp4_flags` of its security blob, `none` for NULL, and whether
the two buffers of 256 bytes can be allocated. -/
structure Caller where
  cred : Option (Option Int)
  pathBuff : Bool
  ctx : Bool
  deriving DecidableEq, Repr

/-- An error pointer used as a string. -/
inductive Fault
  | errPtr
  deriving DecidableEq, Repr

/-- The zeroed buffer after `getxattr` has filled it; `none` for a negative result, which is
also the answer when the value does not fit. -/
def fillXattr (value : Option (List UInt8)) (len : Nat) : Option (List UInt8) :=
  match value with
  | none => none
  | some v => if v.length ≤ len then some (v ++ List.replicate (len - v.length) 0) else none

def getInodeSid (k : Caller) (inode : Option Inode) : Int :=
  match inode with
  | none => noAccess
  | some inode =>
    match inode.getxattr with
    | none => noAccess
    | some value =>
      match inode.dentry with
      | none => noAccess
      | some _ =>
        if k.ctx = false then noAccess
        else match fillXattr value 256 with
          | none => noAccess
          | some ctx => credCtxToSid ctx

def mp4HasPermission (ssid osid : Int) (mask : Mask) : Int :=
  if mask = 0 then 0
  else if osid = noAccess then
    if ssid = targetSid then -eacces else 0
  else if osid = readWrite then
    if mask = mayRead then 0
    else if mask ||| mayRead ||| mayWrite ||| mayAppend = mayRead ||| mayWrite ||| mayAppend then
      if ssid = targetSid then 0 else -eacces
    else -eacces
  else if osid = readObj then
    if mask = mayRead then 0 else -eacces
  else if osid = execObj then
    -- `==` binds tighter than `|`: the comparison, 0 or 1, is or-ed with `MAY_READ`
    if (if mask ||| mayExec ||| mayRead = mayExec then 1 else 0) ||| mayRead ≠ 0 then 0
    else -eacces
  else if osid = readDir then
    if mask ||| mayRead ||| mayExec ||| mayAccess = mayRead ||| mayExec ||| mayAccess then 0
    else -eacces
  else if osid = rwDir then 0
  else -eacces

/-- `dentry_path_raw` with a buffer of `length` bytes: the path, or an error pointer when it
does not fit with its NUL. -/
def dentryPathRaw (path : List UInt8) (length : Nat) : Except Fault (List UInt8) :=
  if path.length < length then .ok path else .error .errPtr

/-- The end of `mp4_inode_permission`, where the path is one that is checked. -/
def checkLabel (k : Caller) (i : Inode) (security : Option Int) (mask : Mask) : Except Fault Int :=
  match security with
  | none => .ok (-eacces)
  | some ssid =>
    let osid := getInodeSid k (some i)
    if ssid = targetSid then
      if mp4HasPermission ssid osid mask = 0 then .ok 0 else .ok (-eacces)
    else if i.isDir then .ok 0
    else if mp4HasPermission ssid osid mask = 0 then .ok 0
    else .ok (-eacces)

def mp4InodePermission (k : Caller) (inode : Option Inode) (mask : Mask) : Except Fault Int :=
  match inode with
  | none => .ok (-eacces)
  | some i =>
    match i.dentry with
    | none => .ok (-eacces)
    | some path =>
      match k.cred with
      | none => .ok (-eacces)
      | some security =>
        let mask := mask &&& (mayExec ||| mayWrite ||| mayRead ||| mayAppend ||| mayAccess)
        if mask = 0 then .ok 0
        else if k.pathBuff = false then .ok (-eacces)
        else do
          let pathRet ← dentryPathRaw path 256
          if mp4ShouldSkipPath pathRet then .ok 0 else checkLabel k i security mask

/-! ## The label semantics -/

inductive Label
  | readOnly
  | readWrite
  | writeOnly
  | exec
  | dir
  | dirWrite
  | target
  deriving DecidableEq, Repr

def Label.text : Label → List UInt8
  | .readOnly => bytes "read-only"
  | .readWrite => bytes "read-write"
  | .writeOnly => bytes "write-only"
  | .exec => bytes "exec"
  | .dir => bytes "dir"
  | .dirWrite => bytes "dir-write"
  | .target => bytes "target"

def labels : List Label :=
  [.readOnly, .readWrite, .exec, .target, .writeOnly, .dir, .dirWrite]

/-- The label an inode carries. A value of more than 256 bytes is no label. -/
def Inode.label (i : Inode) : Option Label :=
  match i.getxattr with
  | some (some v) =>
    if v.length ≤ 256 then labels.find? fun l => decide (cstr v = l.text) else none
  | _ => none

def everything : Mask := mayRead ||| mayWrite ||| mayExec ||| mayAppend

/-- What the semantics allow. They leave open what a label for directories means for a
subject that is not the target, and what the target's own label means as an object. -/
def allowed (target isDir : Bool) : Option Label → Mask
  | none => if target then 0 else everything
  | some .readOnly => if isDir && !target then everything else mayRead
  | some .readWrite =>
    if target then mayRead ||| mayWrite ||| mayAppend
    else if isDir then everything else mayRead
  | some .writeOnly =>
    if target then mayWrite ||| mayAppend
    else if isDir then everything else mayRead
  | some .exec => if isDir && !target then everything else mayRead ||| mayExec
  | some .dir => if target then mayRead ||| mayExec else everything
  | some .dirWrite => everything
  | some .target => everything

/-- The requested bits. -/
def requested (mask : Mask) : Mask := mask &&& everything

/-! ## Decoding -/

def Label.sid : Label → Int
  | .readOnly => readObj
  | .readWrite => MP4.readWrite
  | .writeOnly => writeObj
  | .exec => execObj
  | .dir => readDir
  | .dirWrite => rwDir
  | .target => targetSid

def labelSid : Option Label → Int
  | none => noAccess
  | some l => l.sid

theorem labelSid_find?_cons (p : Label → Bool) (l : Label) (ls : List Label) :
    labelSid ((l :: ls).find? p) = if p l = true then l.sid else labelSid (ls.find? p) := by
  rw [List.find?_cons]
  cases p l <;> rfl

theorem credCtxToSid_text (ctx : List UInt8) :
    credCtxToSid ctx = labelSid (labels.find? fun l => decide (cstr ctx = l.text)) := by
  simp only [labels, labelSid_find?_cons, decide_eq_true_eq, credCtxToSid, strcmp, beq_iff_eq]
  rfl

/-- With its buffer allocated `get_inode_sid` reads the label the inode carries. -/
theorem getInodeSid_label {k : Caller} {i : Inode} {path : List UInt8}
    (found : i.dentry = some path) (ctx : k.ctx = true) :
    getInodeSid k (some i) = labelSid i.label := by
  cases hx : i.getxattr with
  | none => simp [getInodeSid, Inode.label, hx, labelSid]
  | some value =>
    cases value with
    | none => simp [getInodeSid, Inode.label, hx, found, ctx, fillXattr, labelSid]
    | some v =>
      by_cases fits : v.length ≤ 256
      · simp only [getInodeSid, Inode.label, hx, found, ctx, fillXattr, fits, ↓reduceIte,
          Bool.true_eq_false, credCtxToSid_text, cstr_padded]
      · simp [getInodeSid, Inode.label, hx, found, ctx, fillXattr, fits, labelSid]

theorem getInodeSid_no_buffer {k : Caller} {i : Inode} (ctx : k.ctx = false) :
    getInodeSid k (some i) = noAccess := by
  cases hx : i.getxattr <;> cases ha : i.dentry <;> simp [getInodeSid, hx, ha, ctx]

/-! ## What a grant lets through -/

/-- The bits the hook looks at. -/
def effective (mask : Mask) : Mask :=
  mask &&& (mayExec ||| mayWrite ||| mayRead ||| mayAppend ||| mayAccess)

theorem requested_effective (mask : Mask) : requested mask = effective mask &&& everything := by
  unfold requested effective
  rw [BitVec.and_assoc]
  congr 1

section Grant

variable {k : Caller} {i : Inode} {path : List UInt8} {flags : Int} {mask : Mask}

/-- The last part of the hook, with `permission` the answer of `mp4_has_permission`. -/
theorem decision_granted (permission : Int) (directory : Bool) :
    (if flags = targetSid then
      if permission = 0 then .ok 0 else .ok (-eacces)
    else if directory then .ok 0
    else if permission = 0 then .ok 0
    else .ok (-eacces) : Except Fault Int) = .ok 0 ↔
      flags ≠ targetSid ∧ directory = true ∨ permission = 0 := by
  by_cases target : flags = targetSid <;> by_cases granted : permission = 0 <;>
    cases directory <;> simp [target, granted, eacces]

/-- The hook grants an access to a path it does not skip in three ways: nothing it looks at is
asked for, the object is a directory and the subject not the target, or `mp4_has_permission`
says so. -/
theorem mp4InodePermission_granted (found : i.dentry = some path)
    (checked : mp4ShouldSkipPath path = false) (subject : k.cred = some (some flags)) :
    mp4InodePermission k (some i) mask = .ok 0 ↔
      effective mask = 0 ∨
      k.pathBuff = true ∧ path.length < 256 ∧
        (flags ≠ targetSid ∧ i.isDir = true ∨
          mp4HasPermission flags (getInodeSid k (some i)) (effective mask) = 0) := by
  simp only [mp4InodePermission, found, subject]
  change (if effective mask = 0 then _ else _) = _ ↔ _
  by_cases zero : effective mask = 0
  · rw [if_pos zero]
    exact iff_of_true rfl (.inl zero)
  rw [if_neg zero, or_iff_right zero]
  cases buffer : k.pathBuff with
  | false => simp [eacces]
  | true =>
    by_cases fits : path.length < 256
    · simp only [dentryPathRaw, if_pos fits]
      change (if mp4ShouldSkipPath path = true then _ else _) = _ ↔ _
      rw [checked]
      simp only [Bool.false_eq_true, ↓reduceIte, fits, true_and]
      exact decision_granted _ _
    · simp only [dentryPathRaw, if_neg fits]
      refine iff_of_false (fun granted => ?_) fun h => fits h.2.1
      cases granted

/-- Whatever is asked for, `mp4_has_permission` grants it on an object with the label `exec`. -/
theorem mp4HasPermission_exec (ssid : Int) (m : Mask) : mp4HasPermission ssid execObj m = 0 := by
  have slip (b : Prop) [Decidable b] : (if b then (1 : Mask) else 0) ||| mayRead ≠ 0 := by
    split <;> decide
  unfold mp4HasPermission
  split
  · rfl
  · rw [if_neg (by decide), if_neg (by decide), if_neg (by decide), if_pos rfl, if_pos (slip _)]

theorem within_all (m : Mask) : Within (m &&& everything) everything := by
  unfold Within
  rw [BitVec.and_assoc, BitVec.and_self]

/-- On the other labels it grants what they allow. -/
theorem mp4HasPermission_within {ssid : Int} {m : Mask} {label : Option Label} (nonzero : m ≠ 0)
    (sound : label ≠ some .exec) (granted : mp4HasPermission ssid (labelSid label) m = 0) :
    Within (m &&& everything) (allowed (decide (ssid = targetSid)) false label) := by
  have passed {b : Prop} [Decidable b] {x : Int} (h : (if b then x else -eacces) = 0) :
      b ∧ x = 0 := by
    by_cases b <;> simp_all [eacces]
  unfold mp4HasPermission at granted
  rw [if_neg nonzero] at granted
  match label with
  | none =>
    change (if ssid = targetSid then -eacces else 0) = 0 at granted
    have other : ssid ≠ targetSid := by
      intro target
      rw [if_pos target] at granted
      cases granted
    simpa [allowed, other] using within_all m
  | some .readOnly =>
    change (if m = mayRead then 0 else -eacces) = 0 at granted
    obtain ⟨rfl, -⟩ := passed granted
    change Within (mayRead &&& everything) mayRead
    decide
  | some .readWrite =>
    change (if m = mayRead then 0 else if _ then if _ then 0 else -eacces else -eacces) = 0
      at granted
    by_cases read : m = mayRead
    · subst read
      by_cases target : ssid = targetSid <;> simp only [allowed, target] <;> decide
    · rw [if_neg read] at granted
      obtain ⟨bits, inner⟩ := passed granted
      obtain ⟨target, -⟩ := passed inner
      have m_within : Within m (mayRead ||| mayWrite ||| mayAppend) := by
        apply within_of_or
        simpa only [BitVec.or_assoc] using bits
      simpa [allowed, target] using m_within.and everything (by decide)
  | some .writeOnly =>
    change -eacces = 0 at granted
    cases granted
  | some .exec => exact absurd rfl sound
  | some .dir =>
    change (if _ then 0 else -eacces) = 0 at granted
    obtain ⟨bits, -⟩ := passed granted
    have m_within : Within m (mayRead ||| mayExec ||| mayAccess) := by
      apply within_of_or
      simpa only [BitVec.or_assoc] using bits
    by_cases target : ssid = targetSid
    · simpa [allowed, target] using m_within.and everything (by decide)
    · simpa [allowed, target] using within_all m
  | some .dirWrite => exact within_all m
  | some .target => exact within_all m

/-- The test of the `exec` branch lets everything through: the label is `exec`, the object is
one the hook checks for this subject, and more than reading and executing is asked for. -/
def ExecSlip (i : Inode) (flags : Int) (mask : Mask) : Prop :=
  i.label = some .exec ∧ (flags = targetSid ∨ i.isDir = false) ∧
    ¬ Within (requested mask) (mayRead ||| mayExec)

/-- The label is not read and counts as none: the subject is not the target, the object not a
directory, and more is asked for than its label allows. -/
def Unread (i : Inode) (flags : Int) (mask : Mask) : Prop :=
  flags ≠ targetSid ∧ i.isDir = false ∧
    (i.label = some .exec ∧ ¬ Within (requested mask) (mayRead ||| mayExec) ∨
      (i.label = some .readOnly ∨ i.label = some .readWrite ∨ i.label = some .writeOnly) ∧
        ¬ Within (requested mask) mayRead)

/-- A subject that is not the target may do anything to a directory. -/
theorem allowed_directory (label : Option Label) : allowed false true label = everything := by
  rcases label with _ | _ | _ | _ | _ | _ | _ | _ <;> rfl

theorem allowed_target (directory : Bool) (label : Option Label) :
    allowed true directory label = allowed true false label := by
  rcases label with _ | _ | _ | _ | _ | _ | _ | _ <;> simp [allowed]

theorem allowed_exec {directory : Bool} (checked : flags = targetSid ∨ directory = false) :
    allowed (decide (flags = targetSid)) directory (some .exec) = mayRead ||| mayExec := by
  rcases checked with target | file
  · simp [allowed, target]
  · simp [allowed, file]

theorem within_requested_directory (other : flags ≠ targetSid) (label : Option Label) :
    Within (requested mask) (allowed (decide (flags = targetSid)) true label) := by
  rw [decide_eq_false other, allowed_directory]
  exact within_all mask

/-- With the label read, only the test of the `exec` branch lets too much through. -/
theorem granted_outside_iff_execSlip (nonzero : effective mask ≠ 0) :
    (flags ≠ targetSid ∧ i.isDir = true ∨
        mp4HasPermission flags (labelSid i.label) (effective mask) = 0) ∧
      ¬ Within (requested mask) (allowed (decide (flags = targetSid)) i.isDir i.label) ↔
    ExecSlip i flags mask := by
  constructor
  · rintro ⟨granted, outside⟩
    have checked : flags = targetSid ∨ i.isDir = false := by
      by_contra unchecked
      obtain ⟨other, directory⟩ := not_or.mp unchecked
      rw [Bool.not_eq_false] at directory
      rw [directory] at outside
      exact outside (within_requested_directory other _)
    have permitted : mp4HasPermission flags (labelSid i.label) (effective mask) = 0 := by
      refine granted.resolve_left fun ⟨other, directory⟩ => ?_
      rcases checked with target | file
      · exact other target
      · rw [file] at directory
        cases directory
    have exec : i.label = some .exec := by
      by_contra sound
      have inside := mp4HasPermission_within nonzero sound permitted
      rw [← requested_effective] at inside
      rcases checked with target | file
      · rw [decide_eq_true target] at inside outside
        rw [allowed_target] at outside
        exact outside inside
      · rw [file] at outside
        exact outside inside
    rw [exec, allowed_exec checked] at outside
    exact ⟨exec, checked, outside⟩
  · rintro ⟨exec, checked, outside⟩
    rw [exec, allowed_exec checked]
    exact ⟨.inr (mp4HasPermission_exec _ _), outside⟩

/-- Without it, everything passes for a subject that is not the target. -/
theorem granted_outside_iff_unread (nonzero : effective mask ≠ 0) :
    (flags ≠ targetSid ∧ i.isDir = true ∨
        mp4HasPermission flags noAccess (effective mask) = 0) ∧
      ¬ Within (requested mask) (allowed (decide (flags = targetSid)) i.isDir i.label) ↔
    Unread i flags mask := by
  have permitted : mp4HasPermission flags noAccess (effective mask) = 0 ↔ flags ≠ targetSid := by
    unfold mp4HasPermission
    rw [if_neg nonzero, if_pos rfl]
    split <;> simp_all [eacces]
  rw [permitted]
  unfold Unread
  by_cases target : flags = targetSid
  · simp [target]
  · cases directory : i.isDir with
    | true => simp [within_requested_directory target]
    | false =>
      have nothing : ¬ ¬ Within (requested mask) everything := not_not_intro (within_all mask)
      rcases i.label with _ | _ | _ | _ | _ | _ | _ | _ <;> simp [target, allowed, nothing]

end Grant

/-- The hook is sound exactly when neither the test of the `exec` branch nor a label that was
not read lets through what the label does not allow. -/
theorem permission_sound_iff (k : Caller) (i : Inode) (path : List UInt8) (flags : Int)
    (mask : Mask) (found : i.dentry = some path) (checked : mp4ShouldSkipPath path = false)
    (subject : k.cred = some (some flags)) :
    (mp4InodePermission k (some i) mask = .ok 0 →
        Within (requested mask) (allowed (decide (flags = targetSid)) i.isDir i.label)) ↔
      ¬ (k.pathBuff = true ∧ path.length < 256 ∧
        (k.ctx = true ∧ ExecSlip i flags mask ∨ k.ctx = false ∧ Unread i flags mask)) := by
  rw [mp4InodePermission_granted found checked subject]
  by_cases zero : effective mask = 0
  · have nothing (a : Mask) : Within (requested mask) a := by
      rw [requested_effective, zero]
      simp [Within]
    simp [ExecSlip, Unread, nothing]
  · rw [or_iff_right zero]
    cases buffer : k.ctx with
    | true =>
      rw [getInodeSid_label found buffer, ← granted_outside_iff_execSlip zero]
      tauto
    | false =>
      rw [getInodeSid_no_buffer buffer, ← granted_outside_iff_unread zero]
      tauto

/-- The target writes to a file labelled `exec`. -/
theorem exec_written :
    ¬ ∀ (k : Caller) (i : Inode) (path : List UInt8) (flags : Int) (mask : Mask),
      i.dentry = some path → mp4ShouldSkipPath path = false → k.cred = some (some flags) →
      mp4InodePermission k (some i) mask = .ok 0 →
      Within (requested mask) (allowed (decide (flags = targetSid)) i.isDir i.label) := by
  intro sound
  let k : Caller := ⟨some (some targetSid), true, true⟩
  let i : Inode := ⟨false, some (some (bytes "exec")), some (bytes "/home/tool")⟩
  exact absurd (sound k i _ _ mayWrite rfl (by decide) rfl (by decide)) (by decide)

/-- The target reads a file labelled `read-only`. -/
theorem permission_sound_iff_read_only :
    let k : Caller := ⟨some (some targetSid), true, true⟩
    let i : Inode := ⟨false, some (some (bytes "read-only")), some (bytes "/home/notes")⟩
    mp4InodePermission k (some i) mayRead = .ok 0 ∧
      Within (requested mayRead) (allowed true false i.label) := by
  intro k i
  have granted : mp4InodePermission k (some i) mayRead = .ok 0 := by decide
  refine ⟨granted, ?_⟩
  refine (permission_sound_iff k i _ _ mayRead rfl (by decide) rfl).mpr ?_ granted
  rintro ⟨-, -, ⟨-, slip⟩ | ⟨unread, -⟩⟩
  · exact absurd slip.1 (by decide)
  · cases unread

end KernelModules.MP4
