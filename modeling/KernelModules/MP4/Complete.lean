import KernelModules.MP4.Permission

/-!
# Accesses that must be granted

What the label semantics promise, and exactly which promised accesses the hook refuses:
`mp4_has_permission` has no branch for `MP4_WRITE_OBJ`, so an object labelled `write-only` is
neither written by the target nor read by others.
-/

namespace KernelModules.MP4

/-- What the semantics promise. A label for directories promises nothing on another object, and
the target's own label nothing on an object at all. -/
def entitled (target isDir : Bool) : Option Label → Mask
  | some .dir => if isDir then allowed target isDir (some .dir) else 0
  | some .dirWrite => if isDir then allowed target isDir (some .dirWrite) else 0
  | some .target => if isDir && !target then everything else 0
  | label => allowed target isDir label

theorem within_mayRead {m : Mask} (nonzero : m ≠ 0) (h : Within m mayRead) : m = mayRead :=
  (within_twoPow (i := 2) h).resolve_left nonzero

/-- On labels other than `write-only`, `mp4_has_permission` grants what they promise. -/
theorem mp4HasPermission_entitled {ssid : Int} {m : Mask} {isDir : Bool} {label : Option Label}
    (nonzero : m ≠ 0) (checked : ssid = targetSid ∨ isDir = false)
    (readable : label ≠ some .writeOnly)
    (promised : Within m (entitled (decide (ssid = targetSid)) isDir label)) :
    mp4HasPermission ssid (labelSid label) m = 0 := by
  have empty (h : Within m 0) : mp4HasPermission ssid (labelSid label) m = 0 :=
    absurd (within_zero h) nonzero
  match label with
  | none =>
    by_cases target : ssid = targetSid
    · exact empty (by simpa [entitled, allowed, target] using promised)
    · unfold mp4HasPermission
      rw [if_neg nonzero]
      exact if_neg target
  | some .readOnly =>
    have read : m = mayRead := by
      apply within_mayRead nonzero
      rcases checked with target | file
      · simpa [entitled, allowed, target] using promised
      · simpa [entitled, allowed, file] using promised
    subst read
    rfl
  | some .readWrite =>
    by_cases target : ssid = targetSid
    · have bits :
          m ||| mayRead ||| mayWrite ||| mayAppend = mayRead ||| mayWrite ||| mayAppend := by
        have within : Within m (mayRead ||| mayWrite ||| mayAppend) := by
          simpa [entitled, allowed, target] using promised
        simpa only [BitVec.or_assoc] using within.or
      unfold mp4HasPermission
      rw [if_neg nonzero]
      change (if m = mayRead then 0 else if _ then if _ then 0 else -eacces else -eacces) = 0
      rw [if_pos bits, if_pos target, ite_self]
    · have file := checked.resolve_left target
      have read : m = mayRead := by
        apply within_mayRead nonzero
        simpa [entitled, allowed, target, file] using promised
      subst read
      rfl
  | some .writeOnly => exact absurd rfl readable
  | some .exec => exact mp4HasPermission_exec ssid m
  | some .dir =>
    cases isDir with
    | false => exact empty promised
    | true =>
      have target := checked.resolve_right (by decide)
      have within : Within m (mayRead ||| mayExec) := by
        simpa [entitled, allowed, target] using promised
      have bits : m ||| mayRead ||| mayExec ||| mayAccess = mayRead ||| mayExec ||| mayAccess := by
        have drawn := within.trans (b := mayRead ||| mayExec ||| mayAccess) (by decide)
        simpa only [BitVec.or_assoc] using drawn.or
      unfold mp4HasPermission
      rw [if_neg nonzero]
      exact if_pos bits
  | some .dirWrite =>
    unfold mp4HasPermission
    rw [if_neg nonzero]
    rfl
  | some .target =>
    apply empty
    rcases checked with target | file
    · simpa [entitled, target] using promised
    · simpa [entitled, file] using promised

theorem mp4HasPermission_writeOnly (ssid : Int) {m : Mask} (nonzero : m ≠ 0) :
    mp4HasPermission ssid writeObj m = -eacces := by
  unfold mp4HasPermission
  rw [if_neg nonzero]
  rfl

/-- A promised access that finds no branch: the target writes an object labelled `write-only`,
or another subject reads one that is not a directory. -/
def WriteOnlySlip (i : Inode) (flags : Int) (mask : Mask) : Prop :=
  i.label = some .writeOnly ∧
    (flags = targetSid ∧ Within mask (mayWrite ||| mayAppend) ∨
      flags ≠ targetSid ∧ i.isDir = false ∧ Within mask mayRead)

theorem effective_of_within {mask : Mask} (drawn : Within mask everything) :
    effective mask = mask :=
  drawn.trans (by decide)

theorem mp4InodePermission_skipped {k : Caller} {i : Inode} {path : List UInt8} {flags : Int}
    (mask : Mask) (found : i.dentry = some path) (short : path.length < 256)
    (skipped : mp4ShouldSkipPath path = true) (subject : k.cred = some (some flags))
    (buffer : k.pathBuff = true) : mp4InodePermission k (some i) mask = .ok 0 := by
  simp only [mp4InodePermission, found, subject, buffer, dentryPathRaw, if_pos short]
  split
  · rfl
  · change (if mp4ShouldSkipPath path = true then _ else _) = _
    rw [if_pos skipped]

/-- With its label read, an access to an object is granted as promised unless it finds no branch. -/
theorem promised_granted_iff (i : Inode) (flags : Int) {mask : Mask} (nonzero : mask ≠ 0) :
    (Within mask (entitled (decide (flags = targetSid)) i.isDir i.label) →
        flags ≠ targetSid ∧ i.isDir = true ∨
          mp4HasPermission flags (labelSid i.label) mask = 0) ↔
      ¬ WriteOnlySlip i flags mask := by
  by_cases writeOnly : i.label = some .writeOnly
  · have refused : mp4HasPermission flags (labelSid i.label) mask ≠ 0 := by
      rw [writeOnly, labelSid, Label.sid, mp4HasPermission_writeOnly flags nonzero]
      decide
    rw [or_iff_left refused, WriteOnlySlip, writeOnly]
    by_cases target : flags = targetSid
    · simp [target, entitled, allowed]
    · cases i.isDir with
      | true => simp [target]
      | false => simp [target, entitled, allowed]
  · refine iff_of_true (fun promised => ?_) fun slip => writeOnly slip.1
    by_cases checked : flags = targetSid ∨ i.isDir = false
    · exact .inr (mp4HasPermission_entitled nonzero checked writeOnly promised)
    · obtain ⟨other, directory⟩ := not_or.mp checked
      exact .inl ⟨other, by simpa using directory⟩

/-- **The hook is complete** exactly where it does not miss the label `write-only`. -/
theorem permission_complete_iff (k : Caller) (i : Inode) (path : List UInt8) (flags : Int)
    (mask : Mask) (found : i.dentry = some path) (short : path.length ≤ 255)
    (subject : k.cred = some (some flags)) (buffer : k.pathBuff = true) (ctx : k.ctx = true)
    (nonzero : mask ≠ 0) (drawn : Within mask everything) :
    (Within mask (entitled (decide (flags = targetSid)) i.isDir i.label) →
        mp4InodePermission k (some i) mask = .ok 0) ↔
      ¬ (mp4ShouldSkipPath path = false ∧ WriteOnlySlip i flags mask) := by
  have fits : path.length < 256 := Nat.lt_succ_of_le short
  cases checked : mp4ShouldSkipPath path with
  | true =>
    refine iff_of_true (fun _ => ?_) (by simp)
    exact mp4InodePermission_skipped mask found fits checked subject buffer
  | false =>
    rw [mp4InodePermission_granted found checked subject, effective_of_within drawn,
      getInodeSid_label found ctx, or_iff_right nonzero]
    simpa [buffer, fits] using promised_granted_iff i flags nonzero

/-- The target appends to a file labelled `read-write`. -/
theorem permission_complete_iff_append :
    let k : Caller := ⟨some (some targetSid), true, true⟩
    let i : Inode := ⟨false, some (some (bytes "read-write")), some (bytes "/home/notes")⟩
    Within (mayWrite ||| mayAppend) (entitled true false i.label) ∧
      mp4InodePermission k (some i) (mayWrite ||| mayAppend) = .ok 0 := by
  intro k i
  have promised : Within (mayWrite ||| mayAppend) (entitled true false i.label) := by decide
  refine ⟨promised, ?_⟩
  refine (permission_complete_iff k i _ _ (mayWrite ||| mayAppend) rfl (by decide) rfl rfl rfl
    (by decide) (by decide)).mpr ?_ promised
  rintro ⟨-, label, -⟩
  exact absurd label (by decide)

/-- The target is refused writing a file labelled `write-only`. -/
theorem write_only_refused :
    ¬ ∀ (k : Caller) (i : Inode) (path : List UInt8) (flags : Int) (mask : Mask),
      i.dentry = some path → path.length ≤ 255 → k.cred = some (some flags) →
      k.pathBuff = true → k.ctx = true → mask ≠ 0 → Within mask everything →
      Within mask (entitled (decide (flags = targetSid)) i.isDir i.label) →
      mp4InodePermission k (some i) mask = .ok 0 := by
  intro complete
  let k : Caller := ⟨some (some targetSid), true, true⟩
  let i : Inode := ⟨false, some (some (bytes "write-only")), some (bytes "/home/file_wo.txt")⟩
  exact absurd (complete k i _ _ mayWrite rfl (by decide) rfl rfl rfl (by decide) (by decide)
    (by decide)) (by decide)

end KernelModules.MP4
