import KernelModules.MP4.Permission

/-!
# Paths that are not checked

`mp4_should_skip_path` compares the beginning of a path with the names of the directories it
exempts, so that a name that only begins with one of them is exempt as well. The hook asks for
the path in a buffer of 256 bytes, and tests the answer for NULL, which it never is: for a path
that does not fit it is an error pointer.
-/

namespace KernelModules.MP4

/-! ## The hook behind the path -/

theorem checkLabel_ok (k : Caller) (i : Inode) (security : Option Int) (mask : Mask) :
    checkLabel k i security mask = .ok 0 ∨ checkLabel k i security mask = .ok (-eacces) := by
  unfold checkLabel
  split
  · exact .inr rfl
  · simp only
    split_ifs
    all_goals first | exact .inl rfl | exact .inr rfl

section

variable {k : Caller} {i : Inode} {path : List UInt8} {security : Option Int}

theorem mp4InodePermission_eq (found : i.dentry = some path) (subject : k.cred = some security)
    (mask : Mask) :
    mp4InodePermission k (some i) mask =
      if effective mask = 0 then .ok 0
      else if k.pathBuff = false then .ok (-eacces)
      else if path.length < 256 then
        if mp4ShouldSkipPath path then .ok 0 else checkLabel k i security (effective mask)
      else .error .errPtr := by
  simp only [mp4InodePermission, found, subject]
  change (if effective mask = 0 then _ else _) = _
  congr 1
  congr 1
  by_cases fits : path.length < 256
  · simp only [dentryPathRaw, if_pos fits]
    rfl
  · simp only [dentryPathRaw, if_neg fits]
    rfl

end

/-! ## Exempt directories -/

/-- One component of a path: neither a slash nor a NUL is in it. -/
structure Component where
  text : List UInt8
  plain : ∀ b ∈ text, b ≠ 47 ∧ b ≠ 0

/-- An absolute path. -/
def pathOf : List Component → List UInt8
  | [] => [47]
  | components => components.flatMap fun c => 47 :: c.text

/-- The directories that are not checked. -/
def exempt : List (List UInt8) :=
  ["dev", "proc", "lib", "events", "mnt", "run", "lvm", "conf", "usr", "bin"].map bytes

/-- The root, or a path in an exempt directory. -/
def Exempt (components : List Component) : Prop :=
  pathOf components = [47] ∨ ∃ first ∈ components.head?, first.text ∈ exempt

/-- The first component begins with the name of an exempt directory and goes on after it. -/
def Longer (components : List Component) : Prop :=
  ∃ first ∈ components.head?, ∃ name ∈ exempt, name <+: first.text ∧ name ≠ first.text

theorem cstr_pathOf (components : List Component) :
    cstr (pathOf components) = pathOf components := by
  apply cstr_eq_self
  intro b hb
  unfold pathOf at hb
  split at hb
  · rw [List.mem_singleton] at hb
    rw [hb]
    decide
  · obtain ⟨c, -, at_c⟩ := List.mem_flatMap.mp hb
    rcases List.mem_cons.mp at_c with rfl | inside
    · decide
    · exact (c.plain b inside).2

/-- A path begins with a name without a slash only where its first component does. -/
theorem isPrefix_first_iff {name : List UInt8} (plain : (47 : UInt8) ∉ name) (first : Component)
    (rest : List Component) :
    name <+: first.text ++ rest.flatMap (fun c => 47 :: c.text) ↔ name <+: first.text := by
  refine ⟨fun begins => ?_, List.prefix_append_of_prefix⟩
  cases rest with
  | nil => simpa using begins
  | cons c rest =>
    have slash : first.text ++ [47] <+:
        first.text ++ (c :: rest).flatMap fun c => 47 :: c.text := by
      rw [List.prefix_append_right_inj, List.flatMap_cons, List.cons_append,
        List.cons_prefix_cons]
      exact ⟨rfl, List.nil_prefix⟩
    have short : name <+: first.text ++ [47] := by
      refine (List.prefix_or_prefix_of_prefix begins slash).resolve_right fun beyond => ?_
      exact plain (beyond.subset (by simp))
    refine (List.prefix_concat_iff.mp short).resolve_left fun whole => ?_
    rw [whole] at plain
    exact plain (by simp)

/-- The tests of `mp4_should_skip_path`, over the list of names. -/
theorem mp4ShouldSkipPath_iff (dir : List UInt8) :
    mp4ShouldSkipPath dir = true ↔
      cstr dir = [47] ∨ ∃ name ∈ exempt, 47 :: name <+: cstr dir := by
  have names : exempt.map (47 :: ·) =
      ["/dev", "/proc", "/lib", "/events", "/mnt", "/run", "/lvm", "/conf", "/usr", "/bin"].map
        bytes := by decide
  have root : bytes "/" = [47] := by decide
  have tests : mp4ShouldSkipPath dir =
      ((exempt.map (47 :: ·)).any (fun name => name.isPrefixOf (cstr dir)) ||
        cstr dir == [47]) := by
    rw [names, ← root]
    simp only [mp4ShouldSkipPath, strncmp, strcmp, List.map_cons, List.map_nil, List.any_cons,
      List.any_nil, Bool.or_false, Bool.or_assoc]
  rw [tests, Bool.or_eq_true, or_comm, beq_iff_eq]
  apply or_congr_right
  simp

theorem exempt_plain : ∀ name ∈ exempt, (47 : UInt8) ∉ name := by decide

theorem exempt_incomparable : ∀ a ∈ exempt, ∀ b ∈ exempt, a <+: b → a = b := by decide

/-- A path is skipped when it is the root or its first component begins with an exempt name. -/
theorem mp4ShouldSkipPath_pathOf (components : List Component) :
    mp4ShouldSkipPath (pathOf components) = true ↔
      pathOf components = [47] ∨
        ∃ first ∈ components.head?, ∃ name ∈ exempt, name <+: first.text := by
  rw [mp4ShouldSkipPath_iff, cstr_pathOf]
  cases components with
  | nil => simp [pathOf]
  | cons first rest =>
    apply or_congr_right
    simp only [pathOf, List.flatMap_cons, List.cons_append, List.cons_prefix_cons, true_and,
      List.head?_cons, Option.mem_some_iff, exists_eq_left']
    refine exists_congr fun name => and_congr_right fun known => ?_
    exact isPrefix_first_iff (exempt_plain name known) first rest

/-- A path that is skipped without being exempt is one whose first component is too long. -/
theorem skipped_iff_exempt_or_longer (components : List Component) :
    mp4ShouldSkipPath (pathOf components) = true ↔ Exempt components ∨ Longer components := by
  rw [mp4ShouldSkipPath_pathOf, Exempt, Longer, or_assoc]
  apply or_congr_right
  constructor
  · rintro ⟨first, at_head, name, known, begins⟩
    by_cases whole : name = first.text
    · exact .inl ⟨first, at_head, whole ▸ known⟩
    · exact .inr ⟨first, at_head, name, known, begins, whole⟩
  · rintro (⟨first, at_head, known⟩ | ⟨first, at_head, name, known, begins, -⟩)
    · exact ⟨first, at_head, first.text, known, List.prefix_rfl⟩
    · exact ⟨first, at_head, name, known, begins⟩

/-- No name of the list begins with another, so what is longer than one is not exempt. -/
theorem Longer.not_exempt {components : List Component} (longer : Longer components) :
    ¬ Exempt components := by
  obtain ⟨first, at_head, name, known, begins, differ⟩ := longer
  rintro (root | ⟨first', at_head', known'⟩)
  · cases components with
    | nil => cases at_head
    | cons c rest =>
      obtain rfl : c = first := Option.some.inj at_head
      simp only [pathOf, List.flatMap_cons, List.cons_append, List.cons.injEq, true_and,
        List.append_eq_nil_iff] at root
      rw [root.1, List.prefix_nil] at begins
      exact differ (begins.trans root.1.symm)
  · obtain rfl := Option.mem_unique at_head at_head'
    exact differ (exempt_incomparable name known _ known' begins)

/-- Only exempt paths are skipped, and the label decides about all others that the hook gets
to, for every caller: this holds exactly of the paths whose first component does not begin with
the name of an exempt directory and go on after it. -/
theorem exemption_by_directory_iff (components : List Component) :
    ((mp4ShouldSkipPath (pathOf components) = true → Exempt components) ∧
      (¬ Exempt components →
        ∀ (k : Caller) (i : Inode) (security : Option Int) (mask : Mask),
          i.dentry = some (pathOf components) → k.cred = some security → k.pathBuff = true →
          (pathOf components).length < 256 → effective mask ≠ 0 →
          mp4InodePermission k (some i) mask = checkLabel k i security (effective mask))) ↔
      ¬ Longer components := by
  constructor
  · rintro ⟨directories, -⟩ longer
    exact longer.not_exempt (directories ((skipped_iff_exempt_or_longer _).mpr (.inr longer)))
  · intro short
    have directories (skipped : mp4ShouldSkipPath (pathOf components) = true) :
        Exempt components :=
      ((skipped_iff_exempt_or_longer _).mp skipped).resolve_right short
    refine ⟨directories, fun ordinary k i security mask found subject buffer fits asked => ?_⟩
    have checked : mp4ShouldSkipPath (pathOf components) ≠ true :=
      fun skipped => ordinary (directories skipped)
    rw [mp4InodePermission_eq found subject, if_neg asked, if_neg (by simp [buffer]), if_pos fits,
      if_neg checked]

def component (name : String) (plain : (bytes name).all (fun b => b != 47 && b != 0) = true) :
    Component := ⟨bytes name, by simpa using plain⟩

/-- The target writes to a file without a label in a directory `/devices`. -/
theorem devices_not_checked :
    ¬ ∀ components : List Component,
      (mp4ShouldSkipPath (pathOf components) = true → Exempt components) ∧
      (¬ Exempt components →
        ∀ (k : Caller) (i : Inode) (security : Option Int) (mask : Mask),
          i.dentry = some (pathOf components) → k.cred = some security → k.pathBuff = true →
          (pathOf components).length < 256 → effective mask ≠ 0 →
          mp4InodePermission k (some i) mask = checkLabel k i security (effective mask)) := by
  intro directories
  let components := [component "devices" (by decide), component "secret" (by decide)]
  let k : Caller := ⟨some (some targetSid), true, true⟩
  let i : Inode := ⟨false, some none, some (bytes "/devices/secret")⟩
  have ordinary : ¬ Exempt components := by
    apply Longer.not_exempt
    exact ⟨_, rfl, bytes "dev", by decide, by decide, by decide⟩
  have same := (directories components).2 ordinary k i (some targetSid) mayWrite (by decide) rfl rfl
    (by decide) (by decide)
  exact absurd same (by decide)

/-! ## Long paths -/

/-- The path of the inode does not fit the buffer, and the hook gets as far as asking for it. -/
def TooLong (k : Caller) (inode : Option Inode) (mask : Mask) : Prop :=
  ∃ i ∈ inode, ∃ path ∈ i.dentry, k.cred ≠ none ∧ effective mask ≠ 0 ∧ k.pathBuff = true ∧
    256 ≤ path.length

/-- The hook answers 0 or `-EACCES`, without using an error pointer as a string, exactly when it
does not ask for a path that is too long. -/
theorem long_path_handled_iff (k : Caller) (inode : Option Inode) (mask : Mask) :
    (mp4InodePermission k inode mask = .ok 0 ∨ mp4InodePermission k inode mask = .ok (-eacces)) ↔
      ¬ TooLong k inode mask := by
  cases inode with
  | none => exact iff_of_true (.inr rfl) (by simp [TooLong])
  | some i =>
    cases found : i.dentry with
    | none =>
      exact iff_of_true (.inr (by simp [mp4InodePermission, found])) (by simp [TooLong, found])
    | some path =>
      cases subject : k.cred with
      | none =>
        exact iff_of_true (.inr (by simp [mp4InodePermission, found, subject]))
          (by simp [TooLong, subject])
      | some security =>
        rw [mp4InodePermission_eq found subject]
        by_cases zero : effective mask = 0
        · rw [if_pos zero]
          exact iff_of_true (.inl rfl) (by simp [TooLong, zero])
        rw [if_neg zero]
        by_cases buffer : k.pathBuff = false
        · rw [if_pos buffer]
          exact iff_of_true (.inr rfl) (by simp [TooLong, buffer])
        rw [if_neg buffer]
        by_cases fits : path.length < 256
        · rw [if_pos fits]
          refine iff_of_true ?_ (by simp [TooLong, found, fits])
          split
          · exact .inl rfl
          · exact checkLabel_ok k i security (effective mask)
        · rw [if_neg fits]
          refine iff_of_false (by simp) (not_not_intro ?_)
          exact ⟨i, rfl, path, found, by simp [subject], zero, by simpa using buffer,
            Nat.le_of_not_lt fits⟩

/-- The target reads a file whose path has 256 bytes. -/
theorem long_path_used :
    ¬ ∀ (k : Caller) (inode : Option Inode) (mask : Mask),
      mp4InodePermission k inode mask = .ok 0 ∨
        mp4InodePermission k inode mask = .ok (-eacces) := by
  intro handled
  let k : Caller := ⟨some (some targetSid), true, true⟩
  let i : Inode := ⟨false, some (some (bytes "read-only")), some (47 :: List.replicate 255 97)⟩
  have long : ¬ (47 :: List.replicate 255 (97 : UInt8)).length < 256 := by
    rw [List.length_cons, List.length_replicate]
    decide
  have used : mp4InodePermission k (some i) mayRead = .error .errPtr := by
    rw [mp4InodePermission_eq rfl rfl, if_neg (by decide), if_neg (by decide), if_neg long]
  have answer := handled k (some i) mayRead
  rw [used] at answer
  simp at answer

end KernelModules.MP4
