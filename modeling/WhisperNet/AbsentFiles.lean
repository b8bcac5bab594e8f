import WhisperNet.ContentWrites
import WhisperNet.Deferral

/-!
# Absent files

Three of the handlers ask for what they need, or can do without. The other two change the
permissions of their target without having asked whether it is there, and `permissions` throws. And
where the target is in no folder, `create_directories` is called with an empty path, and throws.

* `Accessible` — nothing outside of the program fails.
* `processLockMessage_returns_iff`, `processUnlockMessage_returns_iff`, … — when each handler
  returns.
* `copes_iff` — when no exception escapes, and what was to be done about an absent file is done.
-/

namespace WhisperNet

open Bin Fs Effect

/-- Nothing on the disk is in the way of a message about `p`: none of its files is a folder, no
other file is where a folder of it or of its lock has to be, and its lock file can be written to. -/
structure Accessible (host : Host) (fs : FileSystem) (p : FilePath) : Prop where
  file : p ∉ fs.dirs
  lock : lockFilePath p ∉ fs.dirs
  hash : wntsPath p ∉ fs.dirs
  folder : ∀ d ∈ p.dropLast.inits, d ∉ fs.files
  lockFolder : ∀ d ∈ (lockFilePath p).dropLast.inits, d ≠ p → d ∉ fs.files
  writable : ∀ f, fs.file? (lockFilePath p) = some f → host.CanWrite f.perms

/-- The lock of the file would have to be in the file: a file in no folder, or one whose path is a
folder and `.wnts`. -/
def LockInside (p : FilePath) : Prop := p <+: (lockFilePath p).dropLast

instance (p : FilePath) : Decidable (LockInside p) :=
  inferInstanceAs (Decidable (p <+: (lockFilePath p).dropLast))

/-! ## The handlers -/

section Handlers

variable {host : Host} {fs fs' : FileSystem} {p : FilePath} {f : File}

theorem Accessible.canLock_iff (ha : Accessible host fs p) (hf : fs.file? p = some f) :
    CanLock fs p ↔ ¬ LockInside p := by
  constructor
  · intro hcan hinside
    exact hcan p ((List.mem_inits p _).mpr hinside) (FileSystem.mem_files_of_file? hf)
  · intro hinside d hd
    have hprefix := (List.mem_inits d _).mp hd
    refine ha.lockFolder d hd fun heq => hinside ?_
    rwa [heq] at hprefix

theorem lockInside_of_stranded (hp : p ≠ []) (hfolder : p.dropLast = []) : LockInside p := by
  cases p with
  | nil => exact absurd rfl hp
  | cons name rest =>
    cases rest with
    | nil => exact List.prefix_refl _
    | cons => cases hfolder

/-- There is no lock in a file. -/
theorem Accessible.not_inside (ha : Accessible host fs p)
    (hlock : fs.file? (lockFilePath p) = some f) : ¬ LockInside p := by
  intro ⟨rest, hrest⟩
  have hfolder := fs.parent_file _ (FileSystem.mem_files_of_file? hlock)
  rw [← hrest] at hfolder
  exact ha.file (fs.mem_dirs_of_append hfolder)

/-- Permissions of nothing cannot be changed. -/
theorem permissions_absent (change : Perms → Perms) (hf : fs.file? p = none) (hd : p ∉ fs.dirs) :
    permissions p change fs = .error .filesystem fs := by
  have hp : p ∉ fs.files := fun hp => FileSystem.file?_ne_none.mpr hp hf
  rw [permissions, dif_neg hp, if_neg hd]

section Lock

variable {m : FileMessage}

theorem contestLock_returns {lock : FileMessage × Perms} (hm : filePath m.targetFile = p)
    (hrecord : lockRecord host.platform fs p = some lock) (hp : p ≠ [])
    (hw : ∀ f, fs.file? (lockFilePath p) = some f → host.CanWrite f.perms) :
    ∃ fs', contestLock host m fs = .ok () fs' := by
  subst hm
  obtain ⟨g, hg⟩ := file?_of_lockRecord hrecord
  rw [contestLock, bind_ok (loadLockFile_ok hrecord)]
  dsimp only
  split
  · obtain ⟨fs₁, hopen, hset⟩ := ofstream_ok hg (hw g hg)
    have hcreate : createDirectories (lockFilePath (filePath m.targetFile)).dropLast fs₁ =
        .ok () fs₁ := createDirectories_parent (lockFilePath_dropLast_ne_nil hp) hset.here
    obtain ⟨fs₂, happend, -⟩ :=
      append_ok (saveLock host.platform m (lock.2 &&& writePerms)) hset.here
    exact ⟨fs₂, (bind_ok hopen).trans ((bind_ok hcreate).trans happend)⟩
  · exact ⟨fs, rfl⟩

/-- **Locking** returns where there is nothing to lock, or the lock is not unreadable and has its
place. -/
theorem processLockMessage_returns_iff (ha : Accessible host fs p)
    (hm : filePath m.targetFile = p) :
    (∃ fs', processLockMessage host true m fs = .ok true fs') ↔
      fs.file? p = none ∨ ¬ UnreadableLock host.platform fs p ∧ ¬ LockInside p := by
  subst hm
  cases hf : fs.file? (filePath m.targetFile) with
  | none =>
    have hrun : processLockMessage host true m fs = .ok true fs :=
      bind_ok (exist_nothing hf ha.file)
    exact iff_of_true ⟨fs, hrun⟩ (Or.inl rfl)
  | some f =>
    have hthere : processLockMessage host true m fs =
        (exist (lockFilePath (filePath m.targetFile)) >>= fun isLocked =>
          if !isLocked then takeLock host m >>= fun _ => pure true
          else contestLock host m >>= fun _ => pure true) fs := bind_ok (exist_file hf)
    rw [or_iff_right (Option.some_ne_none f), hthere]
    by_cases hread : UnreadableLock host.platform fs (filePath m.targetFile)
    · have hcontest : contestLock host m fs = .error .archive fs := bind_error hread.loadLockFile
      rw [bind_ok hread.exist]
      refine iff_of_false (fun ⟨fs', hrun⟩ => ?_) fun h => h.1 hread
      have hthrows : (contestLock host m >>= fun _ => pure true) fs = .error .archive fs :=
        bind_error hcontest
      cases hthrows.symm.trans hrun
    · rw [and_iff_right hread]
      have hlock := lockState_of_readable hread
      cases hrecord : lockRecord host.platform fs (filePath m.targetFile) with
      | none =>
        rw [hrecord] at hlock
        have htakes : (∃ fs', takeLock host m fs = .ok () fs') ↔ CanLock fs (filePath m.targetFile) :=
          takeLock_runs_iff rfl hf hlock.1 hlock.2
        rw [ha.canLock_iff hf] at htakes
        rw [bind_ok (exist_nothing hlock.1 hlock.2), ← htakes]
        constructor
        · intro ⟨fs', hrun⟩
          obtain ⟨⟨⟩, fs₁, htake, -⟩ := bind_eq_ok hrun
          exact ⟨fs₁, htake⟩
        · intro ⟨fs', htake⟩
          exact ⟨fs', bind_ok htake⟩
      | some lock =>
        obtain ⟨g, hg⟩ := file?_of_lockRecord hrecord
        obtain ⟨fs', hcontest⟩ := contestLock_returns rfl hrecord
          (FileSystem.ne_nil_of_file? hf) ha.writable
        rw [bind_ok (exist_file hg)]
        exact iff_of_true ⟨fs', bind_ok hcontest⟩ (ha.not_inside hg)

/-- **Unlocking** returns where the lock is not unreadable. -/
theorem processUnlockMessage_returns_iff (ha : Accessible host fs p)
    (hm : filePath m.targetFile = p) :
    (∃ fs', processUnlockMessage host true m fs = .ok true fs') ↔
      ¬ UnreadableLock host.platform fs p := by
  subst hm
  show (∃ fs', (exist (lockFilePath (filePath m.targetFile)) >>= fun isLocked =>
    if isLocked then releaseLock host m >>= fun _ => pure true else pure true) fs = _) ↔ _
  by_cases hread : UnreadableLock host.platform fs (filePath m.targetFile)
  · have hrelease : releaseLock host m fs = .error .archive fs := bind_error hread.loadLockFile
    rw [bind_ok hread.exist]
    refine iff_of_false (fun ⟨fs', hrun⟩ => ?_) (not_not.mpr hread)
    have hthrows : (releaseLock host m >>= fun _ => pure true) fs = .error .archive fs :=
      bind_error hrelease
    cases hthrows.symm.trans hrun
  · refine iff_of_true ?_ hread
    have hlock := lockState_of_readable hread
    cases hrecord : lockRecord host.platform fs (filePath m.targetFile) with
    | none =>
      rw [hrecord] at hlock
      exact ⟨fs, bind_ok (exist_nothing hlock.1 hlock.2)⟩
    | some lock =>
      obtain ⟨g, hg⟩ := file?_of_lockRecord hrecord
      obtain ⟨fs', hrelease⟩ := releaseLock_returns rfl hrecord ha.file
      rw [bind_ok (exist_file hg)]
      exact ⟨fs', bind_ok hrelease⟩

end Lock

/-! ## Changes -/

/-- The folder of the file is there or can be made: the file is in one, and none of its folders is
a file. -/
def Savable (fs : FileSystem) (p : FilePath) : Prop :=
  p.dropLast ≠ [] ∧ ∀ d ∈ p.dropLast.inits, d ∉ fs.files

instance (fs : FileSystem) (p : FilePath) : Decidable (Savable fs p) :=
  inferInstanceAs (Decidable (p.dropLast ≠ [] ∧ ∀ d ∈ p.dropLast.inits, d ∉ fs.files))

/-- Whether the stream opens or not. -/
theorem saveContent_ok_iff (host : Host) (fs : FileSystem) (p : FilePath) (content : Bytes) :
    (∃ fs', saveContent host p content fs = .ok () fs') ↔ Savable fs p := by
  have hfolder : Savable fs p ↔ ∃ fs', createDirectories p.dropLast fs = .ok () fs' := by
    simp only [createDirectories_ok_iff, Savable, List.mem_inits]
  rw [hfolder]
  constructor
  · intro ⟨fs', hsave⟩
    obtain ⟨⟨⟩, fs₁, hcreate, -⟩ := bind_eq_ok hsave
    exact ⟨fs₁, hcreate⟩
  · intro ⟨fs₁, hcreate⟩
    obtain ⟨isOpen, fs₂, hopen⟩ := ofstream_returns host p fs₁
    obtain ⟨fs₃, hput⟩ := put_returns isOpen p content fs₂
    exact ⟨fs₃, (bind_ok hcreate).trans ((bind_ok hopen).trans hput)⟩

theorem Accessible.savable_iff (ha : Accessible host fs p) : Savable fs p ↔ p.dropLast ≠ [] :=
  and_iff_left ha.folder

theorem saveContent_returns_iff (ha : Accessible host fs p) (content : Bytes) :
    (∃ fs', saveContent host p content fs = .ok () fs') ↔ p.dropLast ≠ [] :=
  (saveContent_ok_iff host fs p content).trans ha.savable_iff

section Content

variable {m : FileContentMessage}

/-- What is done about a file that is not there: nothing, or the handler throws. -/
theorem processContentFileMessage_absent (ha : Accessible host fs p)
    (hm : filePath m.targetFile = p) (hf : fs.file? p = none)
    (h : processContentFileMessage host true m fs = .ok true fs') : fs' = fs :=
  processContentFileMessage_missing hm hf ha.file h

/-- **Content** can be written to a file in a folder. -/
theorem processContentFileMessage_returns_iff (ha : Accessible host fs p)
    (hm : filePath m.targetFile = p) (hf : fs.file? p = some f)
    (hread : ¬ UnreadableLock host.platform fs p) :
    (∃ fs', processContentFileMessage host true m fs = .ok true fs') ↔ p.dropLast ≠ [] := by
  subst hm
  have hlock := lockState_of_readable hread
  have hask := permissionsToAdd_ok m.originatorNode hlock
  constructor
  · intro ⟨fs', hrun⟩ hfolder
    have hinside := lockInside_of_stranded (FileSystem.ne_nil_of_file? hf) hfolder
    have hfree : fs.file? (lockFilePath (filePath m.targetFile)) = none := by
      by_contra hlocked
      obtain ⟨g, hg⟩ := Option.ne_none_iff_exists'.mp hlocked
      exact ha.not_inside hg hinside
    have hallowed : allowed host fs m = some 0 := by
      rw [allowed, lockRecord_none hfree]
      rfl
    obtain ⟨fs₁, hthrows, -⟩ := processContentFileMessage_stranded hfolder hf hread hallowed
    cases hthrows.symm.trans hrun
  · intro hfolder
    cases hallowed : allowance host (lockRecord host.platform fs (filePath m.targetFile))
        m.originatorNode with
    | none =>
      rw [hallowed] at hask
      exact ⟨fs, processContentFileMessage_refused hask rfl⟩
    | some perms =>
      obtain ⟨fs', hrun, -⟩ := processContentFileMessage_changes hlock hallowed hfolder hf
      exact ⟨fs', hrun⟩

end Content

section Delete

variable {m : FileMessage}

theorem deleteFile_returns (ha : Accessible host fs p) (hf : fs.file? p = some f) (perms : Perms) :
    ∃ fs', deleteFile p perms fs = .ok () fs' := by
  obtain ⟨fs₁, hadd, hset₁⟩ := addPermissions_ok perms hf
  obtain ⟨fs₂, hfile, hset₂⟩ := remove_ok (hset₁.dirs ▸ ha.file)
  have hdirs₂ := hset₂.dirs.trans hset₁.dirs
  obtain ⟨fs₃, hlock, hset₃⟩ := remove_ok (hdirs₂ ▸ ha.lock)
  have hdirs₃ := hset₃.dirs.trans hdirs₂
  obtain ⟨fs₄, hhash, -⟩ := remove_ok (hdirs₃ ▸ ha.hash)
  exact ⟨fs₄, (bind_ok hadd).trans ((bind_ok hfile).trans ((bind_ok hlock).trans hhash))⟩

theorem processDeleteFileMessage_unreadable
    (h : UnreadableLock host.platform fs (filePath m.targetFile)) :
    processDeleteFileMessage host true m fs = .error .archive fs := by
  show (permissionsToAdd host _ _ >>= _) fs = _
  exact bind_error (permissionsToAdd_unreadable m.originatorNode h)

/-- A deletion of what is not there changes nothing, if the handler returns. -/
theorem processDeleteFileMessage_absent (ha : Accessible host fs p)
    (hm : filePath m.targetFile = p) (hf : fs.file? p = none)
    (h : processDeleteFileMessage host true m fs = .ok true fs') :
    fs' = fs ∧ fs.file? (lockFilePath p) ≠ none := by
  subst hm
  have hbody : (permissionsToAdd host (filePath m.targetFile) m.originatorNode >>= _) fs =
      .ok true fs' := h
  obtain ⟨allowed, fs₁, hask, hrest⟩ := bind_eq_ok hbody
  obtain ⟨rfl, hallowed⟩ := permissionsToAdd_eq_ok hask
  cases allowed with
  | none =>
    refine ⟨(EStateM.Result.ok.inj hrest).2.symm, fun hfree => ?_⟩
    rw [lockRecord_none hfree] at hallowed
    cases hallowed
  | some perms =>
    have hadd := permissions_absent (· ||| perms) hf ha.file
    obtain ⟨⟨⟩, fs₂, hdelete, -⟩ := bind_eq_ok hrest
    obtain ⟨⟨⟩, fs₃, hadded, -⟩ := bind_eq_ok hdelete
    cases hadd.symm.trans hadded

theorem processDeleteFileMessage_returns (ha : Accessible host fs p)
    (hm : filePath m.targetFile = p) (hf : fs.file? p = some f)
    (hread : ¬ UnreadableLock host.platform fs p) :
    ∃ fs', processDeleteFileMessage host true m fs = .ok true fs' := by
  subst hm
  have hask := permissionsToAdd_ok m.originatorNode (lockState_of_readable hread)
  cases hallowed : allowance host (lockRecord host.platform fs (filePath m.targetFile))
      m.originatorNode with
  | none =>
    rw [hallowed] at hask
    exact ⟨fs, processDeleteFileMessage_refused hask rfl⟩
  | some perms =>
    rw [hallowed] at hask
    obtain ⟨fs', hdelete⟩ := deleteFile_returns ha hf perms
    refine ⟨fs', ?_⟩
    show (permissionsToAdd host _ _ >>= _) fs = _
    rw [bind_ok hask]
    exact bind_ok hdelete

end Delete

theorem processInitialFileSyncMessage_ok_iff (host : Host) (fs : FileSystem)
    (m : FileInitialSyncMessage) :
    (∃ fs', processInitialFileSyncMessage host m fs = .ok true fs') ↔
      Savable fs (filePath m.targetFile) := by
  rw [← saveContent_ok_iff host fs _ m.fileContent]
  constructor
  · intro ⟨fs', hrun⟩
    obtain ⟨⟨⟩, fs₁, hsave, -⟩ := bind_eq_ok hrun
    exact ⟨fs₁, hsave⟩
  · intro ⟨fs', hsave⟩
    exact ⟨fs', bind_ok hsave⟩

theorem processInitialFileSyncMessage_returns_iff {m : FileInitialSyncMessage}
    (ha : Accessible host fs p) (hm : filePath m.targetFile = p) :
    (∃ fs', processInitialFileSyncMessage host m fs = .ok true fs') ↔ p.dropLast ≠ [] := by
  rw [processInitialFileSyncMessage_ok_iff, hm]
  exact ha.savable_iff

/-! ## What they return -/

/-- A node that has finished connecting puts no message back. -/
def Concludes (x : Fs Bool) : Prop := Ensures x fun processed _ => processed = true

theorem concludes_pure : Concludes (pure true) := Ensures.pure fun _ => rfl

theorem concludes_lock (m : FileMessage) : Concludes (processLockMessage host true m) := by
  have hrest (isLocked : Bool) : Concludes (if !isLocked then do
      takeLock host m
      return true
    else do
      contestLock host m
      return true) :=
    (Ensures.bind fun _ => concludes_pure).ite (Ensures.bind fun _ => concludes_pure)
  exact Ensures.bind fun _ => concludes_pure.ite (Ensures.bind hrest)

theorem concludes_unlock (m : FileMessage) : Concludes (processUnlockMessage host true m) :=
  Ensures.bind fun _ => (Ensures.bind fun _ => concludes_pure).ite concludes_pure

theorem concludes_delete (m : FileMessage) : Concludes (processDeleteFileMessage host true m) := by
  refine Ensures.bind fun allowed => ?_
  cases allowed with
  | none => exact concludes_pure
  | some perms => exact Ensures.bind fun _ => concludes_pure

theorem concludes_content (m : FileContentMessage) :
    Concludes (processContentFileMessage host true m) := by
  refine Ensures.bind fun allowed => ?_
  cases allowed with
  | none => exact concludes_pure
  | some perms =>
    exact Ensures.bind fun _ => Ensures.bind fun _ => Ensures.bind fun _ => concludes_pure

theorem concludes_sync (m : FileInitialSyncMessage) :
    Concludes (processInitialFileSyncMessage host m) :=
  Ensures.bind fun _ => concludes_pure

end Handlers

/-! ## Dispatching -/

open MessageManager

namespace Managers

/-- What was to be done about a target that is not there has been done. -/
def Settled (fs fs' : FileSystem) : AnyMessage → Prop
  | .fileContent m =>
    fs.file? (filePath m.targetFile) = none →
      (fs'.file? (filePath m.targetFile)).map File.content = some m.fileContent
  | .file m =>
    m.type = .deleteFile → fs.file? (filePath m.targetFile) = none →
      fs'.file? (lockFilePath (filePath m.targetFile)) = none ∧
        fs'.file? (wntsPath (filePath m.targetFile)) = none
  | _ => True

/-- No exception escapes, and an absent target is as it should be. -/
def Copes (env : Circumstances) (s : Managers) (m : AnyMessage) : Prop :=
  ∃ t, processNextMessage env s = .ok () t ∧ Settled s.files t.files m

/-- What the handler takes for granted. -/
def Provided (pf : Platform) (fs : FileSystem) : AnyMessage → Prop
  | .file m =>
    if m.type = .lock then
      fs.file? (filePath m.targetFile) = none ∨
        ¬ UnreadableLock pf fs (filePath m.targetFile) ∧ ¬ LockInside (filePath m.targetFile)
    else if m.type = .unlock then ¬ UnreadableLock pf fs (filePath m.targetFile)
    else fs.file? (filePath m.targetFile) ≠ none ∧
      ¬ UnreadableLock pf fs (filePath m.targetFile)
  | .fileContent m =>
    fs.file? (filePath m.targetFile) ≠ none ∧ ¬ UnreadableLock pf fs (filePath m.targetFile) ∧
      (filePath m.targetFile).dropLast ≠ []
  | .fileInitialSync m => (filePath m.targetFile).dropLast ≠ []
  | _ => True

section Copes

variable {env : Circumstances} {s u : Managers} {priority : Nat} {m : AnyMessage}
  {rest : List Prio} {x : Fs Bool}

theorem copes_iff_handler (hq : s.queue = (priority, some m) :: rest)
    (hprocess : process env (some m) (popped env s) = onFiles x u) (hfiles : u.files = s.files)
    (hx : Concludes x) :
    Copes env s m ↔ ∃ fs', x s.files = .ok true fs' ∧ Settled s.files fs' m := by
  rw [Copes, processNextMessage_cons hq]
  constructor
  · intro ⟨t, hrun, hsettled⟩
    obtain ⟨processed, v, hhandler, hretire⟩ := bind_eq_ok hrun
    rw [hprocess] at hhandler
    obtain ⟨fs', hx', rfl⟩ := onFiles_eq_ok hhandler
    obtain rfl := hx _ _ _ hx'
    obtain ⟨-, rfl⟩ := EStateM.Result.ok.inj hretire
    rw [hfiles] at hx'
    exact ⟨fs', hx', hsettled⟩
  · intro ⟨fs', hx', hsettled⟩
    rw [← hfiles] at hx'
    rw [bind_ok (hprocess.trans (onFiles_ok hx'))]
    exact ⟨_, rfl, hsettled⟩

/-- A lock or an unlock leaves nothing to be done about what is not there. -/
theorem settled_of_type {fs fs' : FileSystem} {m : FileMessage} (h : m.type ≠ .deleteFile) :
    Settled fs fs' (.file m) :=
  fun htype => absurd htype h

theorem returns_settled_iff {Q : FileSystem → Prop} {fs : FileSystem} {x : Fs Bool}
    (h : ∀ fs', Q fs') : (∃ fs', x fs = .ok true fs' ∧ Q fs') ↔ ∃ fs', x fs = .ok true fs' :=
  exists_congr fun fs' => and_iff_left (h fs')

theorem content_settled_iff {fs : FileSystem} {m : FileContentMessage}
    (ha : Accessible env.host fs (filePath m.targetFile)) :
    (∃ fs', processContentFileMessage env.host true m fs = .ok true fs' ∧
        Settled fs fs' (.fileContent m)) ↔
      fs.file? (filePath m.targetFile) ≠ none ∧
        ¬ UnreadableLock env.host.platform fs (filePath m.targetFile) ∧
        (filePath m.targetFile).dropLast ≠ [] := by
  cases hf : fs.file? (filePath m.targetFile) with
  | none =>
    refine iff_of_false (fun ⟨fs', hrun, hsettled⟩ => ?_) fun h => h.1 rfl
    have hcreated := hsettled hf
    rw [processContentFileMessage_absent ha rfl hf hrun, hf] at hcreated
    cases hcreated
  | some f =>
    have hpresent : fs.file? (filePath m.targetFile) ≠ none := hf ▸ Option.some_ne_none f
    rw [and_iff_right (Option.some_ne_none f)]
    by_cases hread : UnreadableLock env.host.platform fs (filePath m.targetFile)
    · refine iff_of_false (fun ⟨fs', hrun, _⟩ => ?_) fun h => h.1 hread
      cases (processContentFileMessage_unreadable hread).symm.trans hrun
    · rw [and_iff_right hread, ← processContentFileMessage_returns_iff ha rfl hf hread]
      exact exists_congr fun fs' => and_iff_left fun hnone => absurd hnone hpresent

theorem delete_settled_iff {fs : FileSystem} {m : FileMessage} (htype : m.type = .deleteFile)
    (ha : Accessible env.host fs (filePath m.targetFile)) :
    (∃ fs', processDeleteFileMessage env.host true m fs = .ok true fs' ∧
        Settled fs fs' (.file m)) ↔
      fs.file? (filePath m.targetFile) ≠ none ∧
        ¬ UnreadableLock env.host.platform fs (filePath m.targetFile) := by
  constructor
  · intro ⟨fs', hrun, hsettled⟩
    refine ⟨fun hf => ?_, fun hread => ?_⟩
    · obtain ⟨rfl, hlocked⟩ := processDeleteFileMessage_absent ha rfl hf hrun
      exact hlocked (hsettled htype hf).1
    · cases (processDeleteFileMessage_unreadable hread).symm.trans hrun
  · intro ⟨hthere, hread⟩
    obtain ⟨f, hf⟩ := Option.ne_none_iff_exists'.mp hthere
    obtain ⟨fs', hrun⟩ := processDeleteFileMessage_returns ha rfl hf hread
    exact ⟨fs', hrun, fun _ hnone => absurd hnone hthere⟩

end Copes

/-- **Absent files.** A node that has finished connecting copes with a message about a file, as long
as nothing else fails, exactly where it finds what the handler takes for granted. -/
theorem copes_iff (env : Circumstances) (s : Managers) {priority : Nat} {m : AnyMessage}
    {rest : List Prio} {fm : FileMessage} (hq : s.queue = (priority, some m) :: rest)
    (htyped : Typed m) (hfile : m.filePart = some fm) (hconnected : s.isFinishedConnecting = true)
    (ha : Accessible env.host s.files (filePath fm.targetFile)) :
    Copes env s m ↔ Provided env.host.platform s.files m := by
  have hpopped : (popped env s).isFinishedConnecting = true := hconnected
  cases m with
  | file m =>
    obtain rfl := Option.some_inj.mp hfile
    rcases htyped with htype | htype | htype
    · have hprocess := process_lock env (popped env s) htype
      rw [hpopped] at hprocess
      rw [copes_iff_handler hq hprocess rfl (concludes_lock m), Provided, if_pos htype]
      rw [returns_settled_iff fun fs' => settled_of_type (by rw [htype]; decide)]
      exact processLockMessage_returns_iff ha rfl
    · have hprocess := process_unlock env (popped env s) htype
      rw [hpopped] at hprocess
      rw [copes_iff_handler hq hprocess rfl (concludes_unlock m), Provided,
        if_neg (by rw [htype]; decide), if_pos htype]
      rw [returns_settled_iff fun fs' => settled_of_type (by rw [htype]; decide)]
      exact processUnlockMessage_returns_iff ha rfl
    · have hprocess := process_deleteFile env (popped env s) htype
      rw [hpopped] at hprocess
      rw [copes_iff_handler hq hprocess rfl (concludes_delete m), Provided,
        if_neg (by rw [htype]; decide), if_neg (by rw [htype]; decide)]
      exact delete_settled_iff htype ha
  | fileContent m =>
    obtain rfl := Option.some_inj.mp hfile
    have hprocess := process_contentChange env (popped env s) htyped
    rw [hpopped] at hprocess
    rw [copes_iff_handler hq hprocess rfl (concludes_content m)]
    exact content_settled_iff ha
  | fileInitialSync m =>
    obtain rfl := Option.some_inj.mp hfile
    have hprocess := process_initialSync env (popped env s) htyped
    have hcounted : process env (some (.fileInitialSync m)) (popped env s) =
        onFiles (processInitialFileSyncMessage env.host m)
          (final (onNode (Node.countInitialFile m) (popped env s))) := hprocess
    rw [copes_iff_handler hq hcounted rfl (concludes_sync m)]
    rw [returns_settled_iff (Q := fun fs' => Settled s.files fs' (.fileInitialSync m))
      fun _ => trivial]
    exact processInitialFileSyncMessage_returns_iff ha rfl
  | message | payload | resendRequest | connect => cases hfile

/-! ## A new file -/

theorem emptyDocs_accessible : Accessible reader emptyDocs.files FileSystem.docsA where
  file := by decide +kernel
  lock := by decide +kernel
  hash := by decide +kernel
  folder := by decide +kernel
  lockFolder := by decide +kernel
  writable f hf := by
    have hnone : emptyDocs.files.file? (lockFilePath FileSystem.docsA) = none := by decide +kernel
    rw [hnone] at hf
    cases hf

/-- The founder of a network, its folder still empty, with a message. -/
def founderWith (priority : Nat) (m : AnyMessage) : Managers :=
  { emptyDocs with queue := [(priority, some m)], emplaced := [m] }

/-- Another node sends a new file, and the exception ends the program. -/
theorem new_file_throws : ¬ ∀ (env : Circumstances) (ls : List (Circumstances × Event))
    (s : Managers) (priority : Nat) (m : AnyMessage) (rest : List Prio) (fm : FileMessage),
    Trace Step emptyDocs ls s → s.queue = (priority, some m) :: rest → Typed m →
    m.filePart = some fm → s.isFinishedConnecting = true →
    Accessible env.host s.files (filePath fm.targetFile) → Copes env s m := by
  intro hcopes
  have harrives : Trace Step emptyDocs
      [(readerCircumstances, .arrive filePriority (.fileContent ownersEdit))]
      (founderWith filePriority (.fileContent ownersEdit)) := .cons rfl (.nil _)
  have hcope := hcopes readerCircumstances _ _ filePriority (.fileContent ownersEdit) [] _ harrives
    rfl rfl rfl rfl emptyDocs_accessible
  have hprocess := process_contentChange readerCircumstances
    (popped readerCircumstances (founderWith filePriority (.fileContent ownersEdit)))
    (m := ownersEdit) rfl
  rw [copes_iff_handler rfl hprocess rfl (concludes_content ownersEdit)] at hcope
  exact ((content_settled_iff emptyDocs_accessible).mp hcope).1 (by decide +kernel)

/-- A lock for a file that is not there does no harm. -/
theorem absent_lock_copes : Copes readerCircumstances (founderWith lockPriority (.file foreignLock))
    (.file foreignLock) :=
  (copes_iff readerCircumstances (founderWith lockPriority (.file foreignLock)) rfl (Or.inl rfl) rfl
    rfl emptyDocs_accessible).mpr (Or.inl (by decide +kernel))

end Managers

end WhisperNet
