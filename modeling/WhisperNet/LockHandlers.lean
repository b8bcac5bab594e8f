import WhisperNet.FileHandlers

/-!
# What the handlers do to a file and its lock

One lemma for each handler that returned: which of its branches it took, and what that left of the
file and of its lock record. What a handler does to a file leaves every other file, and what is
kept about it, alone.

* `processLockMessage_ok` — the lock is taken, taken over, or left as it is.
* `processUnlockMessage_ok` — the lock is left as it is, or released.
* `processContentFileMessage_ok` — a change is refused, or leaves the file with these permissions.
* `processDeleteFileMessage_ok` — a deletion is refused, or leaves neither file nor lock.
* `processInitialFileSyncMessage_ok` — an initial file replaces the content.
* `keeps_lock`, `keeps_unlock`, `keeps_content`, `keeps_sync`, `keeps_delete` — what the operations
  on the paths of a handler keep, it keeps.
-/

namespace WhisperNet

open Bin Fs Effect

/-! ## Frames -/

section Frames

variable {host : Host} {connected : Bool} {q : FilePath} {x : Option File}
  {Inv : FileSystem → Prop}

theorem keeps_loadLockFile (pf : Platform) (p : FilePath) : Keeps Inv (loadLockFile pf p) := by
  apply Keeps.of_final
  intro fs
  unfold loadLockFile
  split <;> rfl

theorem keeps_permissionsToAdd (p : FilePath) (ip : IpAddress) :
    Keeps Inv (permissionsToAdd host p ip) := by
  refine keeps_exist.bind fun isLocked => Keeps.ite ?_ (Keeps.pure _)
  refine (keeps_loadLockFile _ _).bind fun lock => ?_
  exact (Keeps.pure _).ite ((Keeps.pure _).ite (Keeps.pure _))

theorem keeps_saveContent {p : FilePath} (h : SparedByWriting host [p] Inv) (content : Bytes) :
    Keeps Inv (saveContent host p content) :=
  (h.createDirectories _).bind fun _ => (h.ofstream p (by simp)).bind fun _ =>
    h.put _ _ (by simp)

theorem keeps_content (m : FileContentMessage)
    (h : SparedByWriting host [filePath m.targetFile] Inv) :
    Keeps Inv (processContentFileMessage host connected m) := by
  refine (Keeps.pure _).ite ?_
  refine (keeps_permissionsToAdd _ _).bind fun allowed => ?_
  cases allowed with
  | none => exact Keeps.pure _
  | some perms =>
    exact (h.permissions _ (by simp) _).bind fun _ => (keeps_saveContent h _).bind fun _ =>
      (h.permissions _ (by simp) _).bind fun _ => Keeps.pure _

theorem keeps_sync (m : FileInitialSyncMessage)
    (h : SparedByWriting host [filePath m.targetFile] Inv) :
    Keeps Inv (processInitialFileSyncMessage host m) :=
  (keeps_saveContent h _).bind fun _ => Keeps.pure _

theorem keeps_delete (m : FileMessage)
    (h : Spares host [filePath m.targetFile, lockFilePath (filePath m.targetFile),
      wntsPath (filePath m.targetFile)] Inv) :
    Keeps Inv (processDeleteFileMessage host connected m) := by
  refine (Keeps.pure _).ite ?_
  refine (keeps_permissionsToAdd _ _).bind fun allowed => ?_
  cases allowed with
  | none => exact Keeps.pure _
  | some perms =>
    have hdelete : Keeps Inv (deleteFile (filePath m.targetFile) perms) :=
      (h.permissions _ (by simp) _).bind fun _ => (h.remove _ (by simp)).bind fun _ =>
        (h.remove _ (by simp)).bind fun _ => h.remove _ (by simp)
    exact hdelete.bind fun _ => Keeps.pure _

/-- What all that the lock handler does keeps, it keeps. -/
theorem keeps_processLockMessage (m : FileMessage)
    (hprevent : Keeps Inv (removePermissions (filePath m.targetFile) writePerms))
    (hcreate : Keeps Inv (createDirectories (lockFilePath (filePath m.targetFile)).dropLast))
    (hopen : Keeps Inv (ofstream host (lockFilePath (filePath m.targetFile))))
    (hsave : ∀ isOpen data,
      Keeps Inv (archive isOpen (lockFilePath (filePath m.targetFile)) data)) :
    Keeps Inv (processLockMessage host connected m) := by
  have htake : Keeps Inv (takeLock host m) :=
    (hprevent.ite (Keeps.pure ())).bind fun _ => hcreate.bind fun _ => hopen.bind fun _ =>
      keeps_statusPermissions.bind fun _ => hsave _ _
  have hcontest : Keeps Inv (contestLock host m) := by
    refine (keeps_loadLockFile _ _).bind fun lock => ?_
    exact (hopen.bind fun _ => hcreate.bind fun _ => hsave _ _).ite (Keeps.pure ())
  refine (Keeps.pure _).ite ?_
  refine keeps_exist.bind fun isThere => ?_
  refine (Keeps.pure _).ite ?_
  refine keeps_exist.bind fun isLocked => ?_
  exact (htake.bind fun _ => Keeps.pure _).ite (hcontest.bind fun _ => Keeps.pure _)

theorem keeps_lock (m : FileMessage)
    (h : SparedByWriting host [filePath m.targetFile, lockFilePath (filePath m.targetFile)] Inv) :
    Keeps Inv (processLockMessage host connected m) :=
  keeps_processLockMessage m (h.permissions _ (by simp) _) (h.createDirectories _)
    (h.ofstream _ (by simp)) fun _ _ => h.archive _ _ (by simp)

theorem keeps_unlock (m : FileMessage)
    (h : Spares host [filePath m.targetFile, lockFilePath (filePath m.targetFile)] Inv) :
    Keeps Inv (processUnlockMessage host connected m) := by
  have hrelease : Keeps Inv (releaseLock host m) := by
    refine (keeps_loadLockFile _ _).bind fun lock => ?_
    refine Keeps.ite ?_ (Keeps.pure ())
    refine keeps_statusPermissions.bind fun check => ?_
    exact ((h.permissions _ (by simp) _).bind fun _ => h.remove _ (by simp)).ite (Keeps.pure ())
  refine (Keeps.pure _).ite ?_
  refine keeps_exist.bind fun isLocked => ?_
  exact (hrelease.bind fun _ => Keeps.pure _).ite (Keeps.pure _)

end Frames

/-! ## Locking -/

section Locking

variable {host : Host} {fs fs' : FileSystem} {p : FilePath} {m : FileMessage} {f : File}

theorem exist_eq_ok {b : Bool} (h : exist p fs = .ok b fs') :
    fs' = fs ∧ (b = true ↔ p ∈ fs.files ∨ p ∈ fs.dirs) := by
  obtain ⟨rfl, rfl⟩ := EStateM.Result.ok.inj h
  exact ⟨rfl, decide_eq_true_iff⟩

theorem loadLockFile_eq_ok {pf : Platform} {lock : FileMessage × Perms}
    (h : loadLockFile pf p fs = .ok lock fs') : fs' = fs ∧ lockRecord pf fs p = some lock := by
  unfold loadLockFile at h
  split at h
  · next lock' hlock =>
    obtain ⟨rfl, rfl⟩ := EStateM.Result.ok.inj h
    exact ⟨rfl, hlock⟩
  · cases h

/-- The file once we are prevented from writing to it, unless we took the lock. -/
def guarded (host : Host) (m : FileMessage) (f : File) : File :=
  if m.originatorNode ≠ host.self then { f with perms := f.perms &&& ~~~writePerms } else f

/-- Another node's lock leaves nobody the right to write. -/
theorem guarded_foreign (f : File) (h : m.originatorNode ≠ host.self) :
    (guarded host m f).writeBits = 0 := by
  rw [guarded, if_pos h]
  exact cleared_bits f.perms

/-- Preventing us from writing leaves the file, and everything else. -/
theorem preventWriting_ok (host : Host) (hm : filePath m.targetFile = p)
    (hf : fs.file? p = some f) : ∃ fs₁, preventWriting host m fs = .ok () fs₁ ∧
      fs.Sets p (some (guarded host m f)) fs₁ := by
  subst hm
  unfold preventWriting guarded
  split
  · exact removePermissions_ok writePerms hf
  · exact ⟨fs, rfl, .same hf⟩

/-- The lock of `p` has been written. -/
structure LockWritten (host : Host) (m : FileMessage) (p : FilePath) (perms : Perms)
    (fs fs' : FileSystem) : Prop where
  record : lockRecord host.platform fs' p = some (m.received, perms)
  file : ∃ f, fs'.file? (lockFilePath p) = some f
  frame : ∀ q, lockFilePath p ≠ q → fs'.file? q = fs.file? q

theorem takeLock_ok (hm : filePath m.targetFile = p) (hfits : PathFits m.targetFile)
    (hf : fs.file? p = some f)
    (h : takeLock host m fs = .ok () fs') :
    ∃ fs₁, fs.Sets p (some (guarded host m f)) fs₁ ∧
      LockWritten host m p ((guarded host m f).perms &&& writePerms) fs₁ fs' := by
  subst hm
  obtain ⟨⟨⟩, fs₁', hprevent, h⟩ := bind_eq_ok h
  obtain ⟨fs₁, hrun, hset⟩ := preventWriting_ok host rfl hf
  obtain ⟨-, rfl⟩ := EStateM.Result.ok.inj (hrun.symm.trans hprevent)
  obtain ⟨⟨⟩, fs₂, hcreate, h⟩ := bind_eq_ok h
  have hsame := createDirectories_eq_ok hcreate
  obtain ⟨fout, fs₃, hopen, h⟩ := bind_eq_ok h
  obtain ⟨perms, fs₄, hstatus, harchive⟩ := bind_eq_ok h
  have hopened := hopen
  have hne := lockFilePath_ne_self (filePath m.targetFile)
  -- The status is read after the lock file has been opened: that did not change the file.
  have hfile : fs₃.file? (filePath m.targetFile) = some (guarded host m f) := by
    have hkeeps : Keeps (FileIs (filePath m.targetFile) (some (guarded host m f)))
        (ofstream host (lockFilePath (filePath m.targetFile))) := keeps_ofstream hne
    exact hkeeps.ok hopen ((hsame _).trans hset.here)
  obtain ⟨rfl, rfl⟩ := EStateM.Result.ok.inj ((statusPermissions_ok hfile).symm.trans hstatus)
  obtain ⟨⟨lockPerms, hlock⟩, hframe⟩ := archived hopened (fun _ => rfl) harchive
  refine ⟨fs₁, hset, lockRecord_of_saved hfits hlock rfl, ⟨_, hlock⟩, fun q hq => ?_⟩
  rw [hframe q hq, hsame]

/-- No file is where a folder of the lock has to be. -/
def CanLock (fs : FileSystem) (p : FilePath) : Prop :=
  ∀ d ∈ (lockFilePath p).dropLast.inits, d ∉ fs.files

instance (fs : FileSystem) (p : FilePath) : Decidable (CanLock fs p) :=
  inferInstanceAs (Decidable (∀ d ∈ (lockFilePath p).dropLast.inits, d ∉ fs.files))

/-- A lock that is free can be taken exactly where its folder can be created. -/
theorem takeLock_runs_iff (hm : filePath m.targetFile = p) (hf : fs.file? p = some f)
    (hfree : fs.file? (lockFilePath p) = none) (hdir : lockFilePath p ∉ fs.dirs) :
    (∃ fs', takeLock host m fs = .ok () fs') ↔ CanLock fs p := by
  subst hm
  obtain ⟨fs₁, hprevent, hset⟩ := preventWriting_ok host rfl hf
  have hfiles (d : FilePath) : d ∈ fs₁.files ↔ d ∈ fs.files := by
    rw [← FileSystem.file?_ne_none, ← FileSystem.file?_ne_none, hset.file?]
    split
    · next heq => simp [← heq, hf]
    · rfl
  have hcan : (∃ fs₂, createDirectories (lockFilePath (filePath m.targetFile)).dropLast fs₁ =
      .ok () fs₂) ↔ CanLock fs (filePath m.targetFile) := by
    rw [createDirectories_ok_iff, CanLock]
    simp only [List.mem_inits, hfiles]
    exact and_iff_right (lockFilePath_dropLast_ne_nil (FileSystem.ne_nil_of_file? hf))
  rw [← hcan]
  constructor
  · intro ⟨fs', h⟩
    obtain ⟨⟨⟩, fs₁', hprevent', hrest⟩ := bind_eq_ok h
    obtain ⟨-, rfl⟩ := EStateM.Result.ok.inj (hprevent.symm.trans hprevent')
    obtain ⟨⟨⟩, fs₂, hcreate, -⟩ := bind_eq_ok hrest
    exact ⟨fs₂, hcreate⟩
  · intro ⟨fs₂, hcreate⟩
    have hfile₂ : lockFilePath (filePath m.targetFile) ∉ fs₂.files := by
      rw [← FileSystem.file?_ne_none, createDirectories_eq_ok hcreate,
        hset.elsewhere (lockFilePath_ne_self _).symm, hfree]
      exact not_not.mpr rfl
    have hdirs := mem_createDirectories hcreate
    have hdir₂ : lockFilePath (filePath m.targetFile) ∉ fs₂.dirs := by
      rw [hdirs, hset.dirs, not_or]
      refine ⟨fun hprefix => ?_, hdir⟩
      have hlen := hprefix.length_le
      rw [List.length_dropLast, length_lockFilePath] at hlen
      omega
    have hparent : (lockFilePath (filePath m.targetFile)).dropLast ∈ fs₂.dirs :=
      (hdirs _).mpr (Or.inl (List.prefix_refl _))
    obtain ⟨fs₃, hopen, hset₃⟩ : ∃ fs₃,
        ofstream host (lockFilePath (filePath m.targetFile)) fs₂ = .ok true fs₃ ∧
          fs₂.Sets _ (some ⟨[], host.newPerms⟩) fs₃ := ofstream_creates hfile₂ hparent hdir₂
    obtain ⟨fs₄, happend, -⟩ := append_ok (saveLock host.platform m
      (((fs₃.file? (filePath m.targetFile)).elim 0xffff File.perms) &&& writePerms)) hset₃.here
    refine ⟨fs₄, ?_⟩
    rw [takeLock, bind_ok hprevent, bind_ok hcreate, bind_ok hopen]
    exact happend

theorem contestLock_ok (hm : filePath m.targetFile = p) (hfits : PathFits m.targetFile)
    (h : contestLock host m fs = .ok () fs') :
    ∃ oldLock oldPerms, lockRecord host.platform fs p = some (oldLock, oldPerms) ∧
      if m.timestamp < oldLock.timestamp then
        LockWritten host m p (oldPerms &&& writePerms) fs fs'
      else fs' = fs := by
  subst hm
  obtain ⟨⟨oldLock, oldPerms⟩, fs₁, hload, hrest⟩ := bind_eq_ok h
  obtain ⟨rfl, hrecord⟩ := loadLockFile_eq_ok hload
  refine ⟨oldLock, oldPerms, hrecord, ?_⟩
  dsimp only at hrest
  split
  · next hearlier =>
    rw [if_pos hearlier] at hrest
    obtain ⟨fout, fs₂, hopen, hrest⟩ := bind_eq_ok hrest
    obtain ⟨⟨⟩, fs₃, hcreate, harchive⟩ := bind_eq_ok hrest
    obtain ⟨⟨lockPerms, hlock⟩, hframe⟩ := archived hopen (createDirectories_eq_ok hcreate) harchive
    exact ⟨lockRecord_of_saved hfits hlock rfl, ⟨_, hlock⟩, hframe⟩
  · next hlater =>
    rw [if_neg hlater] at hrest
    exact (EStateM.Result.ok.inj hrest).2.symm

/-- **Locking** an existing file takes the lock if it is free, takes it over from a later lock, and
does nothing otherwise. -/
theorem processLockMessage_ok {b : Bool} (hm : filePath m.targetFile = p)
    (hfits : PathFits m.targetFile) (hf : fs.file? p = some f)
    (h : processLockMessage host true m fs = .ok b fs') :
    b = true ∧
      ((fs.file? (lockFilePath p) = none ∧
          ∃ fs₁, fs.Sets p (some (guarded host m f)) fs₁ ∧
            LockWritten host m p ((guarded host m f).perms &&& writePerms) fs₁ fs') ∨
        ∃ oldLock oldPerms, lockRecord host.platform fs p = some (oldLock, oldPerms) ∧
          if m.timestamp < oldLock.timestamp then
            LockWritten host m p (oldPerms &&& writePerms) fs fs'
          else fs' = fs) := by
  have hthere : exist (filePath m.targetFile) fs = .ok true fs := exist_file (hm ▸ hf)
  have hbody : (exist (lockFilePath (filePath m.targetFile)) >>= fun isLocked =>
      if !isLocked then takeLock host m >>= fun _ => pure true
      else contestLock host m >>= fun _ => pure true) fs = .ok b fs' :=
    (bind_ok hthere).symm.trans h
  obtain ⟨isLocked, fs₁, hexist, h⟩ := bind_eq_ok hbody
  obtain ⟨rfl, hlocked⟩ := exist_eq_ok hexist
  cases isLocked with
  | false =>
    obtain ⟨⟨⟩, fs₂, htake, hreturn⟩ := bind_eq_ok h
    obtain ⟨rfl, rfl⟩ := EStateM.Result.ok.inj hreturn
    have hfree : fs₁.file? (lockFilePath p) = none := by
      by_contra hne
      rw [hm] at hlocked
      exact Bool.false_ne_true (hlocked.mpr (Or.inl (FileSystem.file?_ne_none.mp hne)))
    exact ⟨rfl, Or.inl ⟨hfree, takeLock_ok hm hfits hf htake⟩⟩
  | true =>
    obtain ⟨⟨⟩, fs₂, hcontest, hreturn⟩ := bind_eq_ok h
    obtain ⟨rfl, rfl⟩ := EStateM.Result.ok.inj hreturn
    exact ⟨rfl, Or.inr (contestLock_ok hm hfits hcontest)⟩

end Locking

/-! ## Unlocking -/

section Unlocking

variable {host : Host} {fs fs' : FileSystem} {p : FilePath} {m : FileMessage}

theorem statusPermissions_eq_ok {perms : Perms} (h : statusPermissions p fs = .ok perms fs') :
    fs' = fs ∧ perms = (fs.file? p).elim 0xffff File.perms := by
  obtain ⟨rfl, rfl⟩ := EStateM.Result.ok.inj h
  exact ⟨rfl, rfl⟩

/-- What cannot be removed stays. -/
theorem remove_eq_error {e : Exn} (h : remove p fs = .error e fs') : fs' = fs := by
  unfold remove at h
  grind

theorem remove_eq_ok (h : remove p fs = .ok () fs') : fs'.file? p = none := by
  unfold remove at h
  by_cases hp : p ∈ fs.files
  · rw [if_pos hp] at h
    obtain ⟨-, rfl⟩ := EStateM.Result.ok.inj h
    exact (fs.sets_eraseFile p).here
  · have hf : fs.file? p = none := by
      by_contra hne
      exact hp (FileSystem.file?_ne_none.mp hne)
    rw [if_neg hp] at h
    split at h
    · split at h
      · obtain ⟨-, rfl⟩ := EStateM.Result.ok.inj h
        exact hf
      · cases h
    · obtain ⟨-, rfl⟩ := EStateM.Result.ok.inj h
      exact hf

/-- The lock of `p` has been released: its permissions were added to the file `f`. -/
structure LockReleased (p : FilePath) (perms : Perms) (fs fs' : FileSystem) : Prop where
  file : ∃ f, fs.file? p = some f ∧ f.perms &&& writePerms = 0 ∧
    fs'.file? p = some { f with perms := f.perms ||| perms }
  free : fs'.file? (lockFilePath p) = none

theorem releaseLock_ok (hm : filePath m.targetFile = p)
    (h : releaseLock host m fs = .ok () fs') :
    ∃ oldLock oldPerms, lockRecord host.platform fs p = some (oldLock, oldPerms) ∧
      (fs' = fs ∨ m.originatorNode = oldLock.originatorNode ∧ LockReleased p oldPerms fs fs') := by
  subst hm
  have hne := lockFilePath_ne_self (filePath m.targetFile)
  obtain ⟨⟨oldLock, oldPerms⟩, fs₁, hload, hrest⟩ := bind_eq_ok h
  obtain ⟨rfl, hrecord⟩ := loadLockFile_eq_ok hload
  refine ⟨oldLock, oldPerms, hrecord, ?_⟩
  dsimp only at hrest
  by_cases howner : m.originatorNode = oldLock.originatorNode
  · rw [if_pos howner] at hrest
    obtain ⟨check, fs₂, hstatus, hchecked⟩ := bind_eq_ok hrest
    obtain ⟨rfl, hcheck⟩ := statusPermissions_eq_ok hstatus
    by_cases hlocked : check &&& writePerms = 0
    · rw [if_pos hlocked] at hchecked
      obtain ⟨⟨⟩, fs₃, hadd, hremove⟩ := bind_eq_ok hchecked
      -- Where there is no file the status has write permissions.
      cases hf : fs₂.file? (filePath m.targetFile) with
      | none =>
        rw [hcheck, hf] at hlocked
        exact absurd hlocked (by decide)
      | some f =>
        rw [hcheck, hf] at hlocked
        obtain ⟨fs₄, hrun, hset⟩ := addPermissions_ok oldPerms hf
        obtain ⟨-, rfl⟩ := EStateM.Result.ok.inj (hrun.symm.trans hadd)
        obtain ⟨g, hg⟩ := file?_of_lockRecord hrecord
        have hlock := (hset.elsewhere hne.symm).trans hg
        obtain ⟨fs₅, hrun', hset'⟩ := remove_ok (FileSystem.not_dir_of_file? hlock)
        obtain ⟨-, rfl⟩ := EStateM.Result.ok.inj (hrun'.symm.trans hremove)
        refine Or.inr ⟨howner, ⟨f, hf, hlocked, ?_⟩, hset'.here⟩
        rw [hset'.elsewhere hne, hset.here]
    · rw [if_neg hlocked] at hchecked
      exact Or.inl (EStateM.Result.ok.inj hchecked).2.symm
  · rw [if_neg howner] at hrest
    exact Or.inl (EStateM.Result.ok.inj hrest).2.symm

/-- A lock that can be read is released, or left alone: the status of what is not there has write
permissions. -/
theorem releaseLock_returns {lock : FileMessage × Perms} (hm : filePath m.targetFile = p)
    (hrecord : lockRecord host.platform fs p = some lock) (hd : p ∉ fs.dirs) :
    ∃ fs', releaseLock host m fs = .ok () fs' := by
  subst hm
  obtain ⟨g, hg⟩ := file?_of_lockRecord hrecord
  rw [releaseLock, bind_ok (loadLockFile_ok hrecord)]
  dsimp only
  split
  · cases hf : fs.file? (filePath m.targetFile) with
    | none =>
      have hstatus : statusPermissions (filePath m.targetFile) fs = .ok 0xffff fs := by
        rw [statusPermissions, hf]
        rfl
      exact ⟨fs, bind_ok hstatus⟩
    | some f =>
      rw [bind_ok (statusPermissions_ok hf)]
      split
      · obtain ⟨fs₁, hadd, hset⟩ := addPermissions_ok lock.2 hf
        have hlock := (hset.elsewhere (lockFilePath_ne_self _).symm).trans hg
        obtain ⟨fs₂, hremove, -⟩ := remove_ok (FileSystem.not_dir_of_file? hlock)
        exact ⟨fs₂, (bind_ok hadd).trans hremove⟩
      · exact ⟨fs, rfl⟩
  · exact ⟨fs, rfl⟩

/-- **Unlocking** does nothing, or is by the owner of a lock that keeps us from writing. -/
theorem processUnlockMessage_ok {b : Bool} (hm : filePath m.targetFile = p)
    (h : processUnlockMessage host true m fs = .ok b fs') :
    b = true ∧ (fs' = fs ∨
      ∃ oldLock oldPerms, lockRecord host.platform fs p = some (oldLock, oldPerms) ∧
        m.originatorNode = oldLock.originatorNode ∧ LockReleased p oldPerms fs fs') := by
  have hbody : (exist (lockFilePath (filePath m.targetFile)) >>= fun isLocked =>
      if isLocked then releaseLock host m >>= fun _ => pure true else pure true) fs = .ok b fs' := h
  obtain ⟨isLocked, fs₁, hexist, hrest⟩ := bind_eq_ok hbody
  obtain ⟨rfl, -⟩ := exist_eq_ok hexist
  cases isLocked with
  | false =>
    obtain ⟨rfl, rfl⟩ := EStateM.Result.ok.inj hrest
    exact ⟨rfl, Or.inl rfl⟩
  | true =>
    obtain ⟨⟨⟩, fs₂, hrelease, hreturn⟩ := bind_eq_ok hrest
    obtain ⟨rfl, rfl⟩ := EStateM.Result.ok.inj hreturn
    obtain ⟨oldLock, oldPerms, hrecord, hdone⟩ := releaseLock_ok hm hrelease
    refine ⟨rfl, ?_⟩
    rcases hdone with hdone | ⟨howner, hdone⟩
    · exact Or.inl hdone
    · exact Or.inr ⟨oldLock, oldPerms, hrecord, howner, hdone⟩

/-- Such a lock is released by its owner. -/
theorem processUnlockMessage_releases {b : Bool} {oldLock : FileMessage} {oldPerms : Perms}
    {f : File} (hm : filePath m.targetFile = p)
    (hrecord : lockRecord host.platform fs p = some (oldLock, oldPerms))
    (howner : m.originatorNode = oldLock.originatorNode) (hf : fs.file? p = some f)
    (hbits : f.perms &&& writePerms = 0) (h : processUnlockMessage host true m fs = .ok b fs') :
    fs'.file? (lockFilePath p) = none := by
  subst hm
  obtain ⟨g, hg⟩ := file?_of_lockRecord hrecord
  have hbody : (releaseLock host m >>= fun _ => pure true) fs = .ok b fs' :=
    (bind_ok (exist_file hg)).symm.trans h
  obtain ⟨⟨⟩, fs₁, hrelease, hreturn⟩ := bind_eq_ok hbody
  obtain ⟨-, rfl⟩ := EStateM.Result.ok.inj hreturn
  rw [releaseLock, bind_ok (loadLockFile_ok hrecord)] at hrelease
  dsimp only at hrelease
  rw [if_pos howner, bind_ok (statusPermissions_ok hf), if_pos hbits] at hrelease
  obtain ⟨⟨⟩, fs₂, -, hremove⟩ := bind_eq_ok hrelease
  exact remove_eq_ok hremove

end Unlocking

/-! ## Content -/

section Content

variable {host : Host} {fs fs' : FileSystem} {p : FilePath} {m : FileContentMessage} {f : File}

theorem permissionsToAdd_eq_ok {ip : IpAddress} {allowed : Option Perms}
    (h : permissionsToAdd host p ip fs = .ok allowed fs') :
    fs' = fs ∧ allowed = allowance host (lockRecord host.platform fs p) ip := by
  obtain ⟨isLocked, fs₁, hexist, hrest⟩ := bind_eq_ok h
  obtain ⟨rfl, hlocked⟩ := exist_eq_ok hexist
  cases isLocked with
  | false =>
    obtain ⟨rfl, rfl⟩ := EStateM.Result.ok.inj hrest
    have hfree : lockRecord host.platform fs₁ p = none := by
      by_contra hne
      obtain ⟨lock, hlock⟩ := Option.ne_none_iff_exists'.mp hne
      obtain ⟨g, hg⟩ := file?_of_lockRecord hlock
      exact Bool.false_ne_true (hlocked.mpr (Or.inl (FileSystem.mem_files_of_file? hg)))
    exact ⟨rfl, by rw [hfree]; rfl⟩
  | true =>
    obtain ⟨⟨lock, perms⟩, fs₂, hload, hloaded⟩ := bind_eq_ok hrest
    obtain ⟨rfl, hrecord⟩ := loadLockFile_eq_ok hload
    rw [hrecord]
    dsimp only at hloaded
    by_cases hself : lock.originatorNode = host.self
    · rw [if_neg (not_not.mpr hself)] at hloaded
      by_cases hip : lock.originatorNode = ip
      · rw [if_neg (not_not.mpr hip)] at hloaded
        obtain ⟨rfl, rfl⟩ := EStateM.Result.ok.inj hloaded
        exact ⟨rfl, (allowance_owner hself hip).symm⟩
      · rw [if_pos hip] at hloaded
        obtain ⟨rfl, rfl⟩ := EStateM.Result.ok.inj hloaded
        exact ⟨rfl, (allowance_forbidden hself hip).symm⟩
    · rw [if_pos hself] at hloaded
      obtain ⟨rfl, rfl⟩ := EStateM.Result.ok.inj hloaded
      exact ⟨rfl, (allowance_other hself).symm⟩

/-- **A change** to an existing file is refused, or takes the added permissions away again. -/
theorem processContentFileMessage_ok {b : Bool} (hm : filePath m.targetFile = p) (hp : Managed p)
    (hf : fs.file? p = some f) (h : processContentFileMessage host true m fs = .ok b fs') :
    b = true ∧
      match allowance host (lockRecord host.platform fs p) m.originatorNode with
      | none => fs' = fs
      | some perms => ∃ content,
        fs.Sets p (some ⟨content, (f.perms ||| perms) &&& ~~~perms⟩) fs' := by
  have hbody : (permissionsToAdd host (filePath m.targetFile) m.originatorNode >>= _) fs =
      .ok b fs' := h
  obtain ⟨allowed, fs₁, hask, -⟩ := bind_eq_ok hbody
  obtain ⟨rfl, hallowed⟩ := permissionsToAdd_eq_ok hask
  rw [hm] at hask hallowed
  rw [← hallowed]
  cases allowed with
  | none =>
    have hrun := processContentFileMessage_refused hask hm
    obtain ⟨rfl, rfl⟩ := EStateM.Result.ok.inj (hrun.symm.trans h)
    exact ⟨rfl, rfl⟩
  | some perms =>
    by_cases hw : host.CanWrite (f.perms ||| perms)
    · obtain ⟨fs₂, hrun, hset⟩ := processContentFileMessage_writes hask hm hp.parent_ne_nil hf hw
      obtain ⟨rfl, rfl⟩ := EStateM.Result.ok.inj (hrun.symm.trans h)
      exact ⟨rfl, _, hset⟩
    · obtain ⟨fs₂, hrun, hset⟩ := processContentFileMessage_drops hask hm hp.parent_ne_nil hf hw
      obtain ⟨rfl, rfl⟩ := EStateM.Result.ok.inj (hrun.symm.trans h)
      exact ⟨rfl, _, hset⟩

end Content

/-! ## The handlers where there is no file -/

section Missing

variable {host : Host} {fs fs' : FileSystem} {p : FilePath} {b connected : Bool}

/-- Permissions of nothing cannot be changed. -/
theorem permissions_missing {change : Perms → Perms} (hf : fs.file? p = none)
    (h : permissions p change fs = .ok () fs') : fs' = fs ∧ IsDir p fs := by
  have hp : p ∉ fs.files := fun hp => FileSystem.file?_ne_none.mpr hp hf
  unfold permissions at h
  rw [dif_neg hp] at h
  by_cases hd : p ∈ fs.dirs
  · rw [if_pos hd] at h
    exact ⟨(EStateM.Result.ok.inj h).2.symm, hd⟩
  · rw [if_neg hd] at h
    cases h

theorem processLockMessage_missing {m : FileMessage} (hm : filePath m.targetFile = p)
    (hf : fs.file? p = none) (hd : ¬ IsDir p fs)
    (h : processLockMessage host true m fs = .ok b fs') : fs' = fs := by
  have hrun : processLockMessage host true m fs = .ok true fs :=
    Effect.bind_ok (hm ▸ exist_nothing hf hd)
  obtain ⟨-, rfl⟩ := EStateM.Result.ok.inj (hrun.symm.trans h)
  rfl

/-- A change to a file that is missing does not return: its permissions cannot be changed. -/
theorem processContentFileMessage_missing {m : FileContentMessage}
    (hm : filePath m.targetFile = p) (hf : fs.file? p = none) (hd : ¬ IsDir p fs)
    (h : processContentFileMessage host connected m fs = .ok b fs') : fs' = fs := by
  subst hm
  cases connected with
  | false => exact (EStateM.Result.ok.inj h).2.symm
  | true =>
    have hbody : (permissionsToAdd host (filePath m.targetFile) m.originatorNode >>= _) fs =
        .ok b fs' := h
    obtain ⟨allowed, fs₁, hask, hrest⟩ := bind_eq_ok hbody
    obtain ⟨rfl, -⟩ := permissionsToAdd_eq_ok hask
    cases allowed with
    | none => exact (EStateM.Result.ok.inj hrest).2.symm
    | some perms =>
      obtain ⟨⟨⟩, fs₂, hadd, -⟩ := bind_eq_ok hrest
      exact absurd (permissions_missing hf hadd).2 hd

end Missing

/-! ## Deletion and initial files -/

section Removal

variable {host : Host} {fs fs' : FileSystem} {p : FilePath} {b connected : Bool}

/-- **A deletion** is refused, or removes the file and its lock. -/
theorem processDeleteFileMessage_ok {m : FileMessage} (hm : filePath m.targetFile = p)
    (h : processDeleteFileMessage host connected m fs = .ok b fs') :
    fs' = fs ∨ fs'.file? p = none ∧ fs'.file? (lockFilePath p) = none := by
  subst hm
  cases connected with
  | false => exact Or.inl (EStateM.Result.ok.inj h).2.symm
  | true =>
    have hbody : (permissionsToAdd host (filePath m.targetFile) m.originatorNode >>= _) fs =
        .ok b fs' := h
    obtain ⟨allowed, fs₁, hask, hrest⟩ := bind_eq_ok hbody
    obtain ⟨rfl, -⟩ := permissionsToAdd_eq_ok hask
    cases allowed with
    | none => exact Or.inl (EStateM.Result.ok.inj hrest).2.symm
    | some perms =>
      obtain ⟨⟨⟩, fs₂, hdelete, hreturn⟩ := bind_eq_ok hrest
      obtain ⟨-, rfl⟩ := EStateM.Result.ok.inj hreturn
      obtain ⟨⟨⟩, fs₃, -, hremoves⟩ := bind_eq_ok hdelete
      obtain ⟨⟨⟩, fs₄, hfile, hremoves⟩ := bind_eq_ok hremoves
      obtain ⟨⟨⟩, fs₅, hlock, hhash⟩ := bind_eq_ok hremoves
      have hkeepsFile := keeps_gone (p := lockFilePath (filePath m.targetFile)) fs₄
        (remove_eq_ok hfile)
      rw [hlock] at hkeepsFile
      have hfileGone := keeps_gone (p := wntsPath (filePath m.targetFile)) fs₅ hkeepsFile
      have hlockGone := keeps_gone (p := wntsPath (filePath m.targetFile)) fs₅ (remove_eq_ok hlock)
      rw [hhash] at hfileGone hlockGone
      exact Or.inr ⟨hfileGone, hlockGone⟩

/-- The folder of a file cannot be removed. -/
theorem remove_folder {q : FilePath} {g : File} (hg : fs.file? q = some g)
    (h : remove q.dropLast fs = .ok () fs') : False := by
  have hq := FileSystem.mem_files_of_file? hg
  have hdir := fs.parent_file q hq
  have hfile : q.dropLast ∉ fs.files := fun hf => fs.disjoint _ hf hdir
  unfold remove at h
  rw [if_neg hfile, if_pos hdir] at h
  split at h
  · next hempty => exact hempty.2.1 q (Std.ExtTreeMap.mem_keys.mpr hq) rfl
  · cases h

/-- A deletion where the lock would be in the file: there is no lock. -/
theorem delete_beside {m : FileMessage}
    (hp : (lockFilePath (filePath m.targetFile)).dropLast = filePath m.targetFile)
    (hrun : processDeleteFileMessage host connected m fs = .ok b fs') :
    fs' = fs ∨ fs.file? (lockFilePath (filePath m.targetFile)) = none ∧
      ¬ IsDir (lockFilePath (filePath m.targetFile)) fs := by
  cases connected with
  | false => exact Or.inl (EStateM.Result.ok.inj hrun).2.symm
  | true =>
    have hbody : (permissionsToAdd host (filePath m.targetFile) m.originatorNode >>= _) fs =
        .ok b fs' := hrun
    obtain ⟨allowed, fs₁, hask, hrest⟩ := bind_eq_ok hbody
    obtain ⟨rfl, -⟩ := permissionsToAdd_eq_ok hask
    obtain ⟨isLocked, fs₂, hexist, hload⟩ := bind_eq_ok hask
    obtain ⟨rfl, hlocked⟩ := exist_eq_ok hexist
    cases isLocked with
    | false =>
      refine Or.inr ⟨?_, fun hdir => Bool.false_ne_true (hlocked.mpr (Or.inr hdir))⟩
      by_contra hne
      exact Bool.false_ne_true (hlocked.mpr (Or.inl (FileSystem.file?_ne_none.mp hne)))
    | true =>
      obtain ⟨lock, fs₃, hrecord, -⟩ := bind_eq_ok hload
      obtain ⟨g, hg⟩ := file?_of_lockRecord (loadLockFile_eq_ok hrecord).2
      cases allowed with
      | none => exact Or.inl (EStateM.Result.ok.inj hrest).2.symm
      | some perms =>
        -- What is in the way of the deletion is the file itself.
        obtain ⟨⟨⟩, fs₄, hdelete, -⟩ := bind_eq_ok hrest
        obtain ⟨⟨⟩, fs₅, hadd, hremoves⟩ := bind_eq_ok hdelete
        obtain ⟨⟨⟩, fs₆, hremove, -⟩ := bind_eq_ok hremoves
        have hdir : IsDir (filePath m.targetFile) fs₂ :=
          hp ▸ fs₂.parent_file _ (FileSystem.mem_files_of_file? hg)
        obtain ⟨rfl, -⟩ := permissions_missing hdir.file? hadd
        rw [← hp] at hremove
        exact (remove_folder hg hremove).elim

/-- **An initial file** replaces the content of the file that is there. -/
theorem processInitialFileSyncMessage_ok {m : FileInitialSyncMessage} {f : File}
    (hm : filePath m.targetFile = p) (hp : Managed p) (hf : fs.file? p = some f)
    (h : processInitialFileSyncMessage host m fs = .ok b fs') :
    ∃ content, fs.Sets p (some { f with content }) fs' := by
  subst hm
  obtain ⟨⟨⟩, fs₁, hsave, hreturn⟩ := bind_eq_ok h
  obtain ⟨-, rfl⟩ := EStateM.Result.ok.inj hreturn
  by_cases hw : host.CanWrite f.perms
  · obtain ⟨fs₂, hrun, hset⟩ := saveContent_writes hp.parent_ne_nil hf hw m.fileContent
    obtain ⟨-, rfl⟩ := EStateM.Result.ok.inj (hrun.symm.trans hsave)
    exact ⟨_, hset⟩
  · have hrun := saveContent_drops hp.parent_ne_nil hf hw m.fileContent
    obtain ⟨-, rfl⟩ := EStateM.Result.ok.inj (hrun.symm.trans hsave)
    refine ⟨f.content, fun q => ?_, rfl⟩
    split
    · next hq => rw [← hq, hf]
    · rfl

end Removal

end WhisperNet
