import KernelModules.MP4.Credentials

/-!
# Who owns a blob

A blob belongs to the credential that points to it from its allocation until it is freed. Along
the runs of the hooks no blob is without a credential and none has two, so a hook never follows
a pointer to a blob that is gone, and none is freed twice or lost.
-/

namespace KernelModules.MP4

/-- Every allocated blob has a credential. -/
def Owned (s : Creds) : Prop :=
  ∀ addr, s.heap addr ≠ none → ∃ cred, s.security cred = some (.block addr)

section

variable {s t : Creds} {g : Past}

/-- The credential that gets a blob has none, so no blob loses its credential. -/
theorem Owned.attach (owned : Owned s) {cred tsec : Nat} (flags : Int)
    (unlabelled : ∀ addr, s.security cred ≠ some (.block addr)) :
    Owned (s.attach cred tsec flags) := by
  intro addr stored
  by_cases same : addr = tsec
  · exact ⟨cred, by simp [Creds.attach, same]⟩
  · simp only [Creds.attach, Function.update_of_ne same] at stored
    obtain ⟨c, owner⟩ := owned addr stored
    have other : c ≠ cred := by
      rintro rfl
      exact unlabelled addr owner
    exact ⟨c, by simpa [Creds.attach, Function.update_of_ne other] using owner⟩

theorem Owned.setUp (owned : Owned s) {cred : Nat} (gone : ¬ s.live cred) :
    Owned { s with security := Function.update s.security cred (some .null) } := by
  intro addr stored
  obtain ⟨c, owner⟩ := owned addr stored
  have other : c ≠ cred := by
    rintro rfl
    exact gone ⟨by simp [owner], by simp [owner]⟩
  exact ⟨c, by simpa [Function.update_of_ne other] using owner⟩

theorem Owned.setFlags (owned : Owned s) {p : Pointer} {flags : Int}
    (h : s.setFlags p flags = .ok t) (labelled : ∃ cred, s.security cred = some p) : Owned t := by
  obtain ⟨addr, rfl, rfl⟩ := setFlags_ok h
  intro addr' stored
  by_cases same : addr' = addr
  · exact same ▸ labelled
  · simp only [Function.update_of_ne same] at stored
    exact owned addr' stored

theorem Owned.free (owned : Owned s) {cred addr : Nat}
    (block : s.security cred = some (.block addr)) :
    Owned ⟨Function.update s.security cred (some .poison), Function.update s.heap addr none⟩ := by
  intro addr' stored
  by_cases same : addr' = addr
  · simp [same] at stored
  · simp only [Function.update_of_ne same] at stored
    obtain ⟨c, owner⟩ := owned addr' stored
    have other : c ≠ cred := by
      rintro rfl
      cases owner.symm.trans block
      exact same rfl
    exact ⟨c, by simpa [Function.update_of_ne other] using owner⟩

theorem owned_step {h : Hook} (owned : Owned s) (proper : h.Proper s) (stepped : h.step s = .ok t) :
    Owned t := by
  obtain ⟨⟨ret, u⟩, called, rfl⟩ := map_ok stepped
  have null {cred : Nat} (none : s.security cred = some .null) (addr : Nat) :
      s.security cred ≠ some (.block addr) := by
    simp [none]
  cases h with
  | setUp cred =>
    cases called
    exact owned.setUp proper
  | allocBlank cred block =>
    have done : mp4CredAllocBlank s cred block = (ret, u) := Except.ok.inj called
    cases cred with
    | none => cases done; exact owned
    | some cred =>
      cases block with
      | none => cases done; exact owned
      | some tsec =>
        cases done
        exact owned.attach noAccess (null (proper.1 cred rfl))
  | prepare new old block =>
    rcases mp4CredPrepare_ok called with ⟨-, rfl⟩ | ⟨-, cred, tsec, rfl, rfl, copied⟩
    · exact owned
    · have unlabelled := null (proper.1 cred rfl)
      rcases copied with ⟨-, rfl⟩ | ⟨addr, flags, -, -, rfl⟩
      · exact owned.attach noAccess unlabelled
      · exact owned.attach flags unlabelled
  | setCreds bprm =>
    rcases mp4BprmSetCreds_ok called with ⟨-, rfl⟩ |
      ⟨-, b, cred, p, rfl, -, labelled, -, ⟨-, rfl⟩ | ⟨-, set⟩⟩
    · exact owned
    · exact owned
    · exact owned.setFlags set ⟨cred, labelled⟩
  | free cred =>
    obtain ⟨v, freed, same⟩ := map_ok called
    obtain ⟨-, rfl⟩ := Prod.mk.inj same
    rcases mp4CredFree_ok freed with ⟨rfl, -⟩ | ⟨c, addr, -, block, rfl⟩
    · exact owned
    · exact owned.free block

/-! ## No hook faults -/

theorem Marked.flags_ok (inv : Marked (s, g)) {cred : Nat} {p : Pointer} (live : s.live cred)
    (found : s.security cred = some p) (labelled : p ≠ .null) :
    ∃ addr flags, p = .block addr ∧ s.heap addr = some flags := by
  obtain ⟨addr, rfl⟩ := (live_ptr live found).resolve_left labelled
  obtain ⟨flags, stored, -⟩ := inv.label cred addr found
  exact ⟨addr, flags, rfl, stored⟩

theorem live_found {cred : Nat} (live : s.live cred) :
    ∃ p, s.security cred = some p ∧ s.ptr cred = .ok p := by
  obtain ⟨p, found⟩ := Option.ne_none_iff_exists'.mp live.1
  exact ⟨p, found, by simp only [Creds.ptr, found]⟩

theorem Marked.prepares (inv : Marked (s, g)) {new : Option Nat} {old : Nat} {block : Option Nat}
    (live : s.live old) : ∃ r, mp4CredPrepare s new old block = .ok r := by
  cases new with
  | none => exact ⟨_, rfl⟩
  | some new =>
    obtain ⟨p, found, read⟩ := live_found live
    simp only [mp4CredPrepare, read]
    cases block with
    | none => exact ⟨_, rfl⟩
    | some tsec =>
      by_cases null : p = .null
      · exact ⟨(0, s.attach new tsec noAccess), by simp [null, bind, Except.bind]⟩
      · obtain ⟨addr, flags, rfl, stored⟩ := inv.flags_ok live found null
        exact ⟨(0, s.attach new tsec flags), by simp [bind, Except.bind, Creds.flags, stored]⟩

theorem Marked.executes (inv : Marked (s, g)) {bprm : Option Binprm}
    (proper : (Hook.setCreds bprm).Proper s) : ∃ r, mp4BprmSetCreds s bprm = .ok r := by
  cases bprm with
  | none => exact ⟨_, rfl⟩
  | some b =>
    obtain ⟨file, applied, prepared, ctx⟩ := b
    match file with
    | none => exact ⟨_, rfl⟩
    | some none => exact ⟨_, rfl⟩
    | some (some node) =>
      cases applied with
      | none => exact ⟨_, rfl⟩
      | some cred =>
        have live := proper _ rfl cred rfl
        obtain ⟨p, found, read⟩ := live_found live
        simp only [mp4BprmSetCreds, read]
        by_cases null : p = .null
        · exact ⟨(-enoent, s), by simp [null, bind, Except.bind]⟩
        · obtain ⟨addr, flags, rfl, stored⟩ := inv.flags_ok live found null
          simp only [bind, Except.bind, Creds.setFlags, stored, reduceCtorEq, ↓reduceIte]
          split
          · exact ⟨_, rfl⟩
          · split <;> exact ⟨_, rfl⟩

theorem Marked.proceeds (inv : Marked (s, g)) {h : Hook} (proper : h.Proper s) :
    ∃ t, h.step s = .ok t := by
  have enough {r : Int × Creds} (called : h.call s = .ok r) : ∃ t, h.step s = .ok t :=
    ⟨r.2, by simp [Hook.step, called, Except.map]⟩
  cases h with
  | setUp cred => exact ⟨_, rfl⟩
  | allocBlank cred block => exact ⟨_, rfl⟩
  | prepare new old block =>
    obtain ⟨r, called⟩ := inv.prepares proper.2.1
    exact enough called
  | setCreds bprm =>
    obtain ⟨r, called⟩ := inv.executes proper
    exact enough called
  | free cred =>
    cases cred with
    | none => exact ⟨_, rfl⟩
    | some cred =>
      have live : s.live cred := proper cred rfl
      obtain ⟨p, found, read⟩ := live_found live
      rcases live_ptr live found with rfl | ⟨addr, rfl⟩
      · exact enough (r := (0, s)) (by simp [Hook.call, mp4CredFree, read, bind, Except.bind,
          Except.map])
      · exact enough (r := (0, ⟨Function.update s.security cred (some .poison),
          Function.update s.heap addr none⟩)) (by simp [Hook.call, mp4CredFree, read, bind,
          Except.bind, Except.map])

end

/-- Along every run of the hooks none of them accesses what is not there or hits the `BUG_ON`,
and the blobs that are allocated are those of the credentials, each of exactly one. -/
theorem hooks_safe {booted : Nat → Bool} {hs : List Hook} {x : Creds}
    (run : Run Hook.step (fun s h => h.Proper s) (Creds.boot booted) hs x) :
    (∀ h : Hook, h.Proper x → ∃ t, h.step x = .ok t) ∧
    (∀ addr, x.heap addr ≠ none ↔ ∃! cred, x.security cred = some (.block addr)) := by
  have owned : Owned x := by
    apply run.invariant (I := Owned)
    · exact fun addr stored => absurd rfl stored
    · intro s h t owned proper stepped
      exact owned_step owned proper stepped
  obtain ⟨g, ghost⟩ := run.ghost past Past.none
  have inv : Marked (x, g) := by
    apply ghost.invariant (marked_boot booted)
    intro x h y inv proper stepped
    exact marked_step inv proper stepped
  refine ⟨fun h proper => inv.proceeds proper, fun addr => ⟨fun stored => ?_, ?_⟩⟩
  · obtain ⟨cred, block⟩ := owned addr stored
    exact ⟨cred, block, fun c other => inv.apart c cred addr other block⟩
  · rintro ⟨cred, block, -⟩
    obtain ⟨flags, stored, -⟩ := inv.label cred addr block
    exact fun gone => Option.some_ne_none flags (stored.symm.trans gone)

/-- A shell forks, its child executes the target and exits, and the blob it had is used again. -/
theorem hooks_safe_reused :
    ∃ x, Run Hook.step (fun s h => h.Proper s) (Creds.boot (fun cred => cred == 0))
        [.setUp 1, .prepare (some 1) 0 (some 10),
          .setCreds (some ⟨some (some ⟨false, some (some (bytes "target")), some (bytes "/a")⟩),
            some 1, false, true⟩),
          .free (some 1), .setUp 2, .allocBlank (some 2) (some 10)] x ∧
      (∃ t, (Hook.free (some 2)).step x = .ok t) ∧
      ∃! cred, x.security cred = some (.block 10) := by
  refine Run.exists_of_replay (fun x => (x.security 2, x.heap 10))
    (a := (some (.block 10), some noAccess)) (by decide) fun x run fields => ?_
  obtain ⟨block, stored⟩ := Prod.mk.inj fields
  obtain ⟨proceeds, owned⟩ := hooks_safe run
  refine ⟨proceeds (.free (some 2)) ?_, (owned 10).mp (by simp [stored])⟩
  intro cred same
  cases same
  exact ⟨by simp [block], by simp [block]⟩

end KernelModules.MP4
