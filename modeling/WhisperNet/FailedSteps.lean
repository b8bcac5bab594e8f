import WhisperNet.Forgetting
import WhisperNet.Lib.Fault

/-!
# Steps that fail

The handlers that write, over operations of the file system that may fail, the k-th one in
particular: an exception leaves the handler, or a stream that did not open or could not be written
to says nothing. There is no rollback: what has been done before the step stays done.

* `follows_processLockMessage`, … — where no step is made to fail, these are the handlers.
* `takeLock_failed`, `contestLock_failed`, `processContentFileMessage_failed` — what each step that
  fails leaves behind.
* `no_trace_iff` — when it leaves nothing.
-/

open Fault

namespace WhisperNet

open Bin Fs Effect

/-! ## Operations that may fail -/

/-- The steps of the handlers. -/
inductive FsStep
  | addPermissions
  | removePermissions
  | createDirectories
  | open
  | write
  deriving DecidableEq

/-- What touches a file system that may fail. -/
abbrev FailingFs := EStateM Exn (Fault.State FileSystem FsStep)

namespace Failing

section Operations

variable (host : Host) (written : Nat)

def permissions (name : FsStep) (p : FilePath) (change : Perms → Perms) : FailingFs Unit :=
  Fault.step name (fun _ => true) (throw .filesystem) (Fs.permissions p change)

def addPermissions (p : FilePath) (perms : Perms) : FailingFs Unit :=
  permissions .addPermissions p (· ||| perms)

def removePermissions (p : FilePath) (perms : Perms) : FailingFs Unit :=
  permissions .removePermissions p (· &&& ~~~perms)

def createDirectories (p : FilePath) : FailingFs Unit :=
  Fault.step .createDirectories (fun _ => true) (throw .filesystem) (Fs.createDirectories p)

/-- The stream has failed if it did not open. -/
def ofstream (p : FilePath) : FailingFs Bool :=
  Fault.step .open id (pure false) (Fs.ofstream host p)

/-- Only so many bytes are written, and nothing is said about the others. -/
def put (isOpen : Bool) (p : FilePath) (data : Bytes) : FailingFs Unit :=
  Fault.step .write (fun _ => true) (Fs.put isOpen p (data.take written)) (Fs.put isOpen p data)

/-- The archive throws where it could not write them all. -/
def archive (isOpen : Bool) (p : FilePath) (data : Bytes) : FailingFs Unit :=
  Fault.step .write (fun _ => true) (do Fs.archive isOpen p (data.take written); throw .archive)
    (Fs.archive isOpen p data)

end Operations

/-! ## The handlers -/

section Handlers

variable (host : Host) (connected : Bool) (written : Nat)

def preventWriting (m : FileMessage) : FailingFs Unit :=
  if m.originatorNode ≠ host.self then removePermissions (filePath m.targetFile) writePerms
  else pure ()

def takeLock (m : FileMessage) : FailingFs Unit := do
  let lockPath := lockFilePath (filePath m.targetFile)
  preventWriting host m
  createDirectories lockPath.dropLast
  let fout ← ofstream host lockPath
  let perms ← Fault.lift (statusPermissions (filePath m.targetFile))
  archive written fout lockPath (saveLock host.platform m (perms &&& writePerms))

def contestLock (m : FileMessage) : FailingFs Unit := do
  let lockPath := lockFilePath (filePath m.targetFile)
  let (oldLock, oldPerms) ← Fault.lift (loadLockFile host.platform (filePath m.targetFile))
  if m.timestamp < oldLock.timestamp then do
    let fout ← ofstream host lockPath
    createDirectories lockPath.dropLast
    archive written fout lockPath (saveLock host.platform m (oldPerms &&& writePerms))
  else pure ()

def processLockMessage (m : FileMessage) : FailingFs Bool :=
  if !connected then return false
  else do
    if !(← Fault.lift (exist (filePath m.targetFile))) then return true
    else if !(← Fault.lift (exist (lockFilePath (filePath m.targetFile)))) then do
      takeLock host written m
      return true
    else do
      contestLock host written m
      return true

def saveContent (p : FilePath) (content : Bytes) : FailingFs Unit := do
  createDirectories p.dropLast
  let fout ← ofstream host p
  put written fout p content

def processContentFileMessage (m : FileContentMessage) : FailingFs Bool :=
  if !connected then return false
  else do
    match ← Fault.lift (permissionsToAdd host (filePath m.targetFile) m.originatorNode) with
    | none => return true
    | some perms => do
      addPermissions (filePath m.targetFile) perms
      saveContent host written (filePath m.targetFile) m.fileContent
      removePermissions (filePath m.targetFile) perms
      return true

def processInitialFileSyncMessage (m : FileInitialSyncMessage) : FailingFs Bool := do
  saveContent host written (filePath m.targetFile) m.fileContent
  return true

end Handlers

/-! ## Where nothing is made to fail -/

section Follows

variable {host : Host} {connected : Bool} {written : Nat}

theorem follows_preventWriting (m : FileMessage) :
    Follows (preventWriting host m) (WhisperNet.preventWriting host m) :=
  (Follows.step _ _ _ _).ite (Follows.pure ())

theorem follows_takeLock (m : FileMessage) :
    Follows (takeLock host written m) (WhisperNet.takeLock host m) := by
  refine (follows_preventWriting m).bind fun _ => (Follows.step _ _ _ _).bind fun _ => ?_
  exact (Follows.step _ _ _ _).bind fun _ => (Follows.lift _).bind fun _ => Follows.step _ _ _ _

theorem follows_contestLock (m : FileMessage) :
    Follows (contestLock host written m) (WhisperNet.contestLock host m) := by
  refine (Follows.lift _).bind fun old => Follows.ite ?_ (Follows.pure ())
  exact (Follows.step _ _ _ _).bind fun _ => (Follows.step _ _ _ _).bind fun _ =>
    Follows.step _ _ _ _

theorem follows_processLockMessage (m : FileMessage) :
    Follows (processLockMessage host connected written m)
      (WhisperNet.processLockMessage host connected m) := by
  refine (Follows.pure false).ite ((Follows.lift _).bind fun isThere => ?_)
  refine (Follows.pure true).ite ((Follows.lift _).bind fun isLocked => ?_)
  exact ((follows_takeLock m).bind fun _ => Follows.pure true).ite
    ((follows_contestLock m).bind fun _ => Follows.pure true)

theorem follows_saveContent (p : FilePath) (content : Bytes) :
    Follows (saveContent host written p content) (WhisperNet.saveContent host p content) :=
  (Follows.step _ _ _ _).bind fun _ => (Follows.step _ _ _ _).bind fun _ => Follows.step _ _ _ _

theorem follows_processContentFileMessage (m : FileContentMessage) :
    Follows (processContentFileMessage host connected written m)
      (WhisperNet.processContentFileMessage host connected m) := by
  refine (Follows.pure false).ite ((Follows.lift _).bind fun allowed => ?_)
  cases allowed with
  | none => exact Follows.pure true
  | some perms =>
    refine (Follows.step _ _ _ _).bind fun _ => (follows_saveContent _ _).bind fun _ => ?_
    exact (Follows.step _ _ _ _).bind fun _ => Follows.pure true

theorem follows_processInitialFileSyncMessage (m : FileInitialSyncMessage) :
    Follows (processInitialFileSyncMessage host written m)
      (WhisperNet.processInitialFileSyncMessage host m) :=
  (follows_saveContent _ _).bind fun _ => Follows.pure true

end Follows

/-! ## What a step that fails leaves -/

section Cases

variable {host : Host} {written : Nat} {p : FilePath} {m : FileMessage}

/-- Permissions that could not be changed are as they were. -/
theorem permissions_cases (name : FsStep) (p : FilePath) (change : Perms → Perms)
    (s : State FileSystem FsStep) :
    (∃ t, Fs.permissions p change s.base = .ok () t ∧
        permissions name p change s = .ok () (s.pass t)) ∨
      permissions name p change s = .error .filesystem (s.fail name s.base) := by
  rcases step_cases name (fun _ => true) (throw .filesystem) (Fs.permissions p change) s with
    ⟨⟨⟩, t, hrun, -, hstep⟩ | ⟨r, hfailure, hstep⟩
  · exact Or.inl ⟨t, hrun, hstep⟩
  · refine Or.inr (hstep.trans ?_)
    rcases hfailure with rfl | ⟨hr, hbad⟩
    · rfl
    · have hthrows : r = .error .filesystem s.base := by
        unfold Fs.permissions at hr
        split at hr
        · cases hbad () _ hr
        · split at hr
          · cases hbad () _ hr
          · exact hr
      rw [hthrows]
      rfl

/-- Directories may have been created all the same. -/
theorem createDirectories_cases (p : FilePath) (s : State FileSystem FsStep) :
    (∃ t, Fs.createDirectories p s.base = .ok () t ∧
        createDirectories p s = .ok () (s.pass t)) ∨
      ∃ e t, (∀ q, t.file? q = s.base.file? q) ∧
        createDirectories p s = .error e (s.fail .createDirectories t) := by
  rcases step_cases FsStep.createDirectories (fun _ => true) (throw .filesystem)
    (Fs.createDirectories p) s with ⟨⟨⟩, t, hrun, -, hstep⟩ | ⟨r, hfailure, hstep⟩
  · exact Or.inl ⟨t, hrun, hstep⟩
  · refine Or.inr ?_
    rcases hfailure with rfl | ⟨hr, hbad⟩
    · exact ⟨_, s.base, fun _ => rfl, hstep⟩
    · cases r with
      | ok a t => cases hbad a t rfl
      | error e t =>
        refine ⟨e, t, fun q => ?_, hstep⟩
        have hkeeps := keeps_createDirectories (p := p) (q := q) (f := s.base.file? q) s.base rfl
        rw [← hr] at hkeeps
        exact hkeeps

/-- A stream that did not open has not emptied the file. -/
theorem ofstream_cases (host : Host) (p : FilePath) (s : State FileSystem FsStep) :
    (∃ t, Fs.ofstream host p s.base = .ok true t ∧ ofstream host p s = .ok true (s.pass t)) ∨
      ofstream host p s = .ok false (s.fail .open s.base) := by
  rcases step_cases FsStep.open id (pure false) (Fs.ofstream host p) s with
    ⟨isOpen, t, hrun, rfl, hstep⟩ | ⟨r, hfailure, hstep⟩
  · exact Or.inl ⟨t, hrun, hstep⟩
  · refine Or.inr (hstep.trans ?_)
    rcases hfailure with rfl | ⟨hr, hbad⟩
    · rfl
    · have hclosed : r = .ok false s.base := by
        unfold Fs.ofstream at hr
        split at hr
        · split at hr
          · cases hbad true _ hr
          · exact hr
        · split at hr
          · cases hbad true _ hr
          · exact hr
      rw [hclosed]
      rfl

/-- Permissions can be added to a file, or to a directory. -/
theorem addPermissions_cases (p : FilePath) (added : Perms) (s : State FileSystem FsStep) :
    (∃ t, s.base.Sets p ((s.base.file? p).map fun f => { f with perms := f.perms ||| added }) t ∧
        (t.file? p = none → IsDir p t) ∧ addPermissions p added s = .ok () (s.pass t)) ∨
      addPermissions p added s = .error .filesystem (s.fail .addPermissions s.base) := by
  refine (permissions_cases .addPermissions p (· ||| added) s).imp_left ?_
  intro ⟨t, hadd, hstep⟩
  have hset : s.base.Sets p ((s.base.file? p).map fun f => { f with perms := f.perms ||| added })
      (final (Fs.permissions p (· ||| added) s.base)) := permissions_sets p (· ||| added) s.base
  rw [hadd] at hset
  refine ⟨t, hset, fun hf => ?_, hstep⟩
  have hnone : s.base.file? p = none := Option.map_eq_none_iff.mp (hset.here.symm.trans hf)
  obtain ⟨rfl, hdir⟩ := permissions_missing hnone hadd
  exact hdir

theorem preventWriting_cases (host : Host) (m : FileMessage) (s : State FileSystem FsStep) :
    (∃ t fault, WhisperNet.preventWriting host m s.base = .ok () t ∧
        preventWriting host m s = .ok () ⟨t, fault, s.failed⟩) ∨
      preventWriting host m s = .error .filesystem (s.fail .removePermissions s.base) := by
  unfold preventWriting WhisperNet.preventWriting
  split
  · rcases permissions_cases .removePermissions (filePath m.targetFile) (· &&& ~~~writePerms) s with
      ⟨t, hrun, hstep⟩ | hstep
    · exact Or.inl ⟨t, _, hrun, hstep⟩
    · exact Or.inr hstep
  · exact Or.inl ⟨s.base, s.fault, rfl, rfl⟩

/-- An open stream has written what it could. -/
theorem put_cases {f : File} (data : Bytes) (s : State FileSystem FsStep)
    (hf : s.base.file? p = some f) :
    (∃ t, s.base.Sets p (some { f with content := f.content ++ data }) t ∧
        put written true p data s = .ok () (s.pass t)) ∨
      ∃ t, s.base.Sets p (some { f with content := f.content ++ data.take written }) t ∧
        put written true p data s = .ok () (s.fail .write t) := by
  obtain ⟨t, hrun, hset⟩ := append_ok data hf
  obtain ⟨t', hrun', hset'⟩ := append_ok (data.take written) hf
  rcases step_cases FsStep.write (fun _ => true) (Fs.put true p (data.take written))
    (Fs.put true p data) s with ⟨⟨⟩, u, hpass, -, hstep⟩ | ⟨r, hfailure, hstep⟩
  · obtain ⟨-, rfl⟩ := EStateM.Result.ok.inj (hrun.symm.trans hpass)
    exact Or.inl ⟨t, hset, hstep⟩
  · refine Or.inr ⟨t', hset', ?_⟩
    rcases hfailure with rfl | ⟨rfl, hbad⟩
    · rw [show Fs.put true p (data.take written) s.base = .ok () t' from hrun'] at hstep
      exact hstep
    · cases hbad () t hrun

/-- So has the archive, and throws. -/
theorem archive_cases {f : File} (data : Bytes) (s : State FileSystem FsStep)
    (hf : s.base.file? p = some f) :
    (∃ t, archive written true p data s = .ok () (s.pass t)) ∨
      ∃ t, s.base.Sets p (some { f with content := f.content ++ data.take written }) t ∧
        archive written true p data s = .error .archive (s.fail .write t) := by
  obtain ⟨t, hrun, -⟩ := append_ok data hf
  obtain ⟨t', hrun', hset'⟩ := append_ok (data.take written) hf
  have hfails : (do Fs.archive true p (data.take written); throw .archive : Fs Unit) s.base =
      .error .archive t' := bind_ok hrun'
  rcases step_cases FsStep.write (fun _ => true)
    (do Fs.archive true p (data.take written); throw .archive) (Fs.archive true p data) s with
    ⟨⟨⟩, u, -, -, hstep⟩ | ⟨r, hfailure, hstep⟩
  · exact Or.inl ⟨u, hstep⟩
  · refine Or.inr ⟨t', hset', ?_⟩
    rcases hfailure with rfl | ⟨rfl, hbad⟩
    · rw [hfails] at hstep
      exact hstep
    · cases hbad () t hrun

theorem lift_statusPermissions (p : FilePath) (s : State FileSystem FsStep) :
    lift (statusPermissions p) s = .ok ((s.base.file? p).elim 0xffff File.perms) s := rfl

/-- After the stream has failed to open, the archive throws, and other output is dropped. -/
theorem archive_closed (p : FilePath) (data : Bytes) (s : State FileSystem FsStep) (name : FsStep)
    (t : FileSystem) : archive written false p data (s.fail name t) =
      .error .archive (s.fail name t) := rfl

theorem put_closed (p : FilePath) (data : Bytes) (s : State FileSystem FsStep) (name : FsStep)
    (t : FileSystem) : put written false p data (s.fail name t) = .ok () (s.fail name t) := rfl

end Cases

/-! ## What the handlers leave -/

section Failed

variable {host : Host} {written : Nat} {p : FilePath} {s : State FileSystem FsStep}
  {name : FsStep}

/-- What is left where a free lock was to be taken: the permissions have been removed, or the lock
file has been created too. -/
def LockLeft (host : Host) (m : FileMessage) (p : FilePath) (fs fs' : FileSystem) : FsStep → Prop
  | .removePermissions => fs' = fs
  | .createDirectories | .open =>
    ∀ q, fs'.file? q = if p = q then (fs.file? p).map (guarded host m) else fs.file? q
  | .write => fs'.file? (lockFilePath p) ≠ none
  | .addPermissions => False

theorem takeLock_failed {m : FileMessage} (hm : filePath m.targetFile = p) (hs : s.failed = none)
    (h : (final (takeLock host written m s)).failed = some name) :
    LockLeft host m p s.base (final (takeLock host written m s)).base name := by
  subst hm
  obtain ⟨fs, fault, failed⟩ := s
  obtain rfl : failed = none := hs
  unfold takeLock at h ⊢
  dsimp only at h ⊢
  rcases preventWriting_cases host m ⟨fs, fault, none⟩ with ⟨fs₁, fault₁, hprevent, hstep⟩ | hstep
  · rw [final_bind_ok hstep] at h ⊢
    have hset := preventWriting_sets hprevent
    rcases createDirectories_cases (lockFilePath (filePath m.targetFile)).dropLast
      ⟨fs₁, fault₁, none⟩ with ⟨fs₂, hcreate, hstep⟩ | ⟨e, fs₂, hsame, hstep⟩
    · rw [final_bind_ok hstep] at h ⊢
      have hsame := createDirectories_eq_ok hcreate
      rcases ofstream_cases host (lockFilePath (filePath m.targetFile))
        (State.pass ⟨fs₁, fault₁, none⟩ fs₂) with ⟨fs₃, hopen, hstep⟩ | hstep
      · rw [final_bind_ok hstep] at h ⊢
        obtain ⟨perms, hset₃⟩ := ofstream_true hopen
        rw [final_bind_ok (lift_statusPermissions _ _)] at h ⊢
        rcases archive_cases _ (State.pass (State.pass ⟨fs₁, fault₁, none⟩ fs₂) fs₃) hset₃.here with
          ⟨fs₄, hstep⟩ | ⟨fs₄, hset₄, hstep⟩
        · rw [hstep] at h
          cases h
        · rw [hstep] at h ⊢
          obtain rfl : FsStep.write = name := Option.some_inj.mp h
          show fs₄.file? _ ≠ none
          rw [hset₄.here]
          exact Option.some_ne_none _
      · rw [final_bind_ok hstep] at h ⊢
        rw [final_bind_ok (lift_statusPermissions _ _), archive_closed] at h ⊢
        obtain rfl : FsStep.open = name := Option.some_inj.mp h
        exact fun q => (hsame q).trans (hset.file? q)
    · rw [final_bind_error hstep] at h ⊢
      obtain rfl : FsStep.createDirectories = name := Option.some_inj.mp h
      exact fun q => (hsame q).trans (hset.file? q)
  · rw [final_bind_error hstep] at h ⊢
    obtain rfl : FsStep.removePermissions = name := Option.some_inj.mp h
    rfl

/-- What is left where the lock was to be taken over from that in the file `g`: the file has been
emptied, and some of the new lock is in it. -/
def ContestLeft (written : Nat) (p : FilePath) (g : File) (record : Bytes) (fs fs' : FileSystem) :
    FsStep → Prop
  | .open => ∀ q, fs'.file? q = fs.file? q
  | .createDirectories => ∀ q, fs'.file? q =
      if lockFilePath p = q then some { g with content := [] } else fs.file? q
  | .write => ∀ q, fs'.file? q =
      if lockFilePath p = q then some { g with content := record.take written } else fs.file? q
  | _ => False

theorem contestLock_failed {m oldLock : FileMessage} {oldPerms : Perms} {g : File}
    (hm : filePath m.targetFile = p) (hs : s.failed = none)
    (hrecord : lockRecord host.platform s.base p = some (oldLock, oldPerms))
    (hg : s.base.file? (lockFilePath p) = some g)
    (h : (final (contestLock host written m s)).failed = some name) :
    ContestLeft written p g (saveLock host.platform m (oldPerms &&& writePerms)) s.base
      (final (contestLock host written m s)).base name := by
  subst hm
  obtain ⟨fs, fault, failed⟩ := s
  obtain rfl : failed = none := hs
  have hload : lift (loadLockFile host.platform (filePath m.targetFile)) ⟨fs, fault, none⟩ =
      .ok (oldLock, oldPerms) (⟨fs, fault, none⟩ : State FileSystem FsStep) := by
    rw [lift, loadLockFile_ok hrecord]
  unfold contestLock at h ⊢
  rw [final_bind_ok hload] at h ⊢
  dsimp only at h ⊢
  split at h
  · next hearlier =>
    rw [if_pos hearlier]
    rcases ofstream_cases host (lockFilePath (filePath m.targetFile)) ⟨fs, fault, none⟩ with
      ⟨fs₁, hopen, hstep⟩ | hstep
    · rw [final_bind_ok hstep] at h ⊢
      have hset₁ := ofstream_sets hopen hg
      rcases createDirectories_cases (lockFilePath (filePath m.targetFile)).dropLast
        (State.pass ⟨fs, fault, none⟩ fs₁) with ⟨fs₂, hcreate, hstep⟩ | ⟨e, fs₂, hsame, hstep⟩
      · rw [final_bind_ok hstep] at h ⊢
        have hsame := createDirectories_eq_ok hcreate
        have hopened : fs₂.file? (lockFilePath (filePath m.targetFile)) =
            some { g with content := [] } := (hsame _).trans hset₁.here
        rcases archive_cases _ (State.pass (State.pass ⟨fs, fault, none⟩ fs₁) fs₂) hopened with
          ⟨fs₃, hstep⟩ | ⟨fs₃, hset₃, hstep⟩
        · rw [hstep] at h
          cases h
        · rw [hstep] at h ⊢
          obtain rfl : FsStep.write = name := Option.some_inj.mp h
          intro q
          refine (hset₃.file? q).trans ?_
          rw [List.nil_append]
          split
          · rfl
          · next hq => exact (hsame q).trans (hset₁.elsewhere hq)
      · rw [final_bind_error hstep] at h ⊢
        obtain rfl : FsStep.createDirectories = name := Option.some_inj.mp h
        exact fun q => (hsame q).trans (hset₁.file? q)
    · rw [final_bind_ok hstep] at h ⊢
      -- The directories are created again all the same, and the archive throws.
      rcases createDirectories_cases (lockFilePath (filePath m.targetFile)).dropLast
        (State.fail ⟨fs, fault, none⟩ .open fs) with ⟨fs₂, hcreate, hstep⟩ | ⟨e, fs₂, hsame, hstep⟩
      · rw [final_bind_ok hstep] at h ⊢
        rw [State.fail_pass, archive_closed] at h ⊢
        obtain rfl : FsStep.open = name := Option.some_inj.mp h
        exact createDirectories_eq_ok hcreate
      · rw [final_bind_error hstep] at h ⊢
        obtain rfl : FsStep.open = name := Option.some_inj.mp h
        exact hsame
  · cases h

/-- The permissions that a change leaves, which were `perms` before. -/
def permsLeft (added perms : Perms) : FsStep → Perms
  | .addPermissions => perms
  | .createDirectories | .removePermissions => perms ||| added
  | .open | .write => (perms ||| added) &&& ~~~added

/-- What is left of a change: the permissions, and some content. -/
def ContentLeft (p : FilePath) (added : Perms) (fs fs' : FileSystem) (name : FsStep) : Prop :=
  ∃ content : File → Bytes, ∀ q, fs'.file? q =
    if p = q then (fs.file? p).map fun f => ⟨content f, permsLeft added f.perms name⟩
    else fs.file? q

/-- The permissions of the file under `p` have been added to. -/
def Added (p : FilePath) (added : Perms) (content : File → Bytes) (fs fs' : FileSystem) : Prop :=
  ∀ q, fs'.file? q = if p = q then (fs.file? p).map fun f => ⟨content f, f.perms ||| added⟩
    else fs.file? q

/-- The last step of a change. -/
theorem removePermissions_failed {added : Perms} {fs : FileSystem} {content : File → Bytes}
    (hs : s.failed = none) (hfiles : Added p added content fs s.base)
    (h : (final (removePermissions p added s)).failed = some name) :
    ContentLeft p added fs (final (removePermissions p added s)).base name := by
  obtain ⟨fs₃, fault, failed⟩ := s
  obtain rfl : failed = none := hs
  rcases permissions_cases .removePermissions p (· &&& ~~~added) ⟨fs₃, fault, none⟩ with
    ⟨fs₄, -, hstep⟩ | hstep
  · rw [show removePermissions p added _ = _ from hstep] at h
    cases h
  · rw [show removePermissions p added _ = _ from hstep] at h ⊢
    obtain rfl : FsStep.removePermissions = name := Option.some_inj.mp h
    exact ⟨content, hfiles⟩

/-- The last step where another has failed before. -/
theorem removePermissions_goesOn {added : Perms} {fs fs₃ : FileSystem} {content : File → Bytes}
    (s : State FileSystem FsStep) (name : FsStep) (hfiles : Added p added content fs fs₃) :
    (final (removePermissions p added (s.fail name fs₃))).failed = some (s.failed.getD name) ∧
      ∀ q, (final (removePermissions p added (s.fail name fs₃))).base.file? q = if p = q then
        (fs.file? p).map fun f => ⟨content f, (f.perms ||| added) &&& ~~~added⟩
        else fs.file? q := by
  have hfollows : Follows (removePermissions p added) (Fs.removePermissions p added) :=
    Follows.step _ _ _ _
  obtain ⟨hbase, hfailed⟩ := hfollows.failed s name fs₃
  refine ⟨hfailed, fun q => ?_⟩
  rw [hbase]
  refine ((permissions_sets p (· &&& ~~~added) fs₃).file? q).trans ?_
  rw [hfiles, if_pos rfl, Option.map_map]
  split
  · rfl
  · next hq => rw [hfiles, if_neg hq]

/-- Only the content of the file under `p` has changed. -/
def Rewrites (p : FilePath) (content : File → Bytes) (fs fs' : FileSystem) : Prop :=
  ∀ q, fs'.file? q = if p = q then (fs.file? p).map fun f => { f with content := content f }
    else fs.file? q

theorem Rewrites.of_sets {f : File} {content : Bytes} {fs fs₂ fs' : FileSystem}
    (hsame : ∀ q, fs₂.file? q = fs.file? q) (hf : fs.file? p = some f)
    (hset : fs₂.Sets p (some { f with content := content }) fs') :
    Rewrites p (fun _ => content) fs fs' := by
  intro q
  rw [hset.file?, hf, hsame]
  rfl

/-- Adding permissions and writing afterwards. -/
theorem Rewrites.added {added : Perms} {content : File → Bytes} {fs fs₁ fs' : FileSystem}
    (h : Rewrites p content fs₁ fs')
    (hset : fs.Sets p ((fs.file? p).map fun f => { f with perms := f.perms ||| added }) fs₁) :
    Added p added (fun f => content { f with perms := f.perms ||| added }) fs fs' := by
  intro q
  rw [h, hset.here, hset.file?, Option.map_map]
  split
  · rfl
  · rfl

/-- How writing a file ends, where there is one, or a directory in its place. -/
theorem saveContent_cases (host : Host) (written : Nat) (data : Bytes) (hs : s.failed = none)
    (hd : s.base.file? p = none → IsDir p s.base) :
    (∃ t fault, saveContent host written p data s = .ok () ⟨t, fault, none⟩ ∧
        Rewrites p (fun _ => data) s.base t) ∨
      (∃ e t, saveContent host written p data s = .error e (s.fail .createDirectories t) ∧
        ∀ q, t.file? q = s.base.file? q) ∨
      ∃ name t content, (name = .open ∨ name = .write) ∧
        saveContent host written p data s = .ok () (s.fail name t) ∧
        Rewrites p content s.base t := by
  obtain ⟨fs, fault, failed⟩ := s
  obtain rfl : failed = none := hs
  unfold saveContent
  rcases createDirectories_cases p.dropLast ⟨fs, fault, none⟩ with
    ⟨fs₁, hcreate, hstep⟩ | ⟨e, fs₁, hsame, hstep⟩
  · rw [bind_ok hstep]
    have hsame := createDirectories_eq_ok hcreate
    rcases ofstream_cases host p (State.pass ⟨fs, fault, none⟩ fs₁) with ⟨fs₂, hopen, hstep⟩ | hstep
    · rw [bind_ok hstep]
      cases hf : fs.file? p with
      | none =>
        -- A directory cannot be opened.
        have hdir : IsDir p fs₁ := keeps_isDir_createDirectories.ok hcreate (hd hf)
        obtain ⟨perms, hset₂⟩ := ofstream_true hopen
        exact absurd (hset₂.dirs ▸ hdir) (FileSystem.not_dir_of_file? hset₂.here)
      | some f =>
        have hset₂ := ofstream_sets hopen ((hsame p).trans hf)
        rcases put_cases data (State.pass (State.pass ⟨fs, fault, none⟩ fs₁) fs₂) hset₂.here with
          ⟨fs₃, hset₃, hstep⟩ | ⟨fs₃, hset₃, hstep⟩
        · refine Or.inl ⟨fs₃, _, hstep, .of_sets hsame hf ?_⟩
          exact hset₂.trans hset₃
        · refine Or.inr (Or.inr ⟨.write, fs₃, fun _ => data.take written, Or.inr rfl, hstep,
            .of_sets hsame hf ?_⟩)
          exact hset₂.trans hset₃
    · rw [bind_ok hstep, put_closed]
      refine Or.inr (Or.inr ⟨.open, fs₁, File.content, Or.inl rfl, rfl, fun q => ?_⟩)
      rw [hsame]
      split
      · next hq => rw [← hq]; simp
      · rfl
  · exact Or.inr (Or.inl ⟨e, fs₁, bind_error hstep, hsame⟩)

/-- The permissions are added, the content is written, and they are removed. -/
def change (host : Host) (written : Nat) (p : FilePath) (added : Perms) (data : Bytes) :
    FailingFs Bool := do
  addPermissions p added
  saveContent host written p data
  removePermissions p added
  return true

theorem change_failed {added : Perms} {data : Bytes} (hs : s.failed = none)
    (h : (final (change host written p added data s)).failed = some name) :
    ContentLeft p added s.base (final (change host written p added data s)).base name := by
  obtain ⟨fs, fault, failed⟩ := s
  obtain rfl : failed = none := hs
  unfold change at h ⊢
  rcases addPermissions_cases p added ⟨fs, fault, none⟩ with ⟨fs₁, hset, hdir, hstep⟩ | hstep
  · rw [final_bind_ok hstep] at h ⊢
    rcases saveContent_cases host written data
      (s := State.pass ⟨fs, fault, none⟩ fs₁) rfl hdir with
      ⟨fs₂, fault₂, hsave, hwrites⟩ | ⟨e, fs₂, hsave, hsame⟩ | ⟨name', fs₂, content, hname, hsave,
        hwrites⟩
    · rw [final_bind_ok hsave, final_bind_pure] at h ⊢
      exact removePermissions_failed rfl (hwrites.added hset) h
    · rw [final_bind_error hsave] at h ⊢
      obtain rfl : FsStep.createDirectories = name := Option.some_inj.mp h
      exact ⟨File.content, fun q => (hsame q).trans (hset.file? q)⟩
    · rw [final_bind_ok hsave, final_bind_pure] at h ⊢
      obtain ⟨hfailed, hfiles⟩ := removePermissions_goesOn
        (State.pass ⟨fs, fault, none⟩ fs₁) name' (hwrites.added hset)
      obtain rfl : name' = name := Option.some_inj.mp (hfailed.symm.trans h)
      rcases hname with rfl | rfl
      · exact ⟨_, hfiles⟩
      · exact ⟨_, hfiles⟩
  · rw [final_bind_error hstep] at h ⊢
    obtain rfl : FsStep.addPermissions = name := Option.some_inj.mp h
    refine ⟨File.content, fun q => ?_⟩
    split
    · next hq => rw [← hq]; simp [permsLeft, State.fail]
    · rfl

theorem processContentFileMessage_failed {m : FileContentMessage} (hm : filePath m.targetFile = p)
    (hs : s.failed = none)
    (h : (final (processContentFileMessage host true written m s)).failed = some name) :
    ∃ added, allowance host (lockRecord host.platform s.base p) m.originatorNode = some added ∧
      ContentLeft p added s.base (final (processContentFileMessage host true written m s)).base
        name := by
  subst hm
  have hbody : processContentFileMessage host true written m s = (lift (permissionsToAdd host
      (filePath m.targetFile) m.originatorNode) >>= fun allowed => match allowed with
        | none => pure true
        | some perms => change host written (filePath m.targetFile) perms m.fileContent) s := rfl
  rw [hbody] at h ⊢
  cases hask : permissionsToAdd host (filePath m.targetFile) m.originatorNode s.base with
  | error e fs =>
    have hlift : (lift (permissionsToAdd host (filePath m.targetFile) m.originatorNode) s) =
        .error e { s with base := fs } := by rw [lift, hask]
    rw [final_bind_error hlift] at h
    cases hs.symm.trans h
  | ok allowed fs =>
    obtain ⟨rfl, hallowed⟩ := permissionsToAdd_eq_ok hask
    have hlift : (lift (permissionsToAdd host (filePath m.targetFile) m.originatorNode) s) =
        .ok allowed s := by rw [lift, hask]
    rw [final_bind_ok hlift] at h ⊢
    cases allowed with
    | none => cases hs.symm.trans h
    | some added =>
      exact ⟨added, hallowed.symm, change_failed hs h⟩

/-- A lock that was to be taken, or taken over. -/
theorem processLockMessage_failed {m : FileMessage} (hm : filePath m.targetFile = p)
    (hs : s.failed = none)
    (h : (final (processLockMessage host true written m s)).failed = some name) :
    s.base.file? (lockFilePath p) = none ∧
        LockLeft host m p s.base (final (processLockMessage host true written m s)).base name ∨
      ∃ oldLock oldPerms g, lockRecord host.platform s.base p = some (oldLock, oldPerms) ∧
        s.base.file? (lockFilePath p) = some g ∧
        ContestLeft written p g (saveLock host.platform m (oldPerms &&& writePerms)) s.base
          (final (processLockMessage host true written m s)).base name := by
  have hlift (q : FilePath) : lift (exist q) s =
      .ok (decide (q ∈ s.base.files ∨ q ∈ s.base.dirs)) s := rfl
  have hbody : processLockMessage host true written m s =
      (lift (exist (filePath m.targetFile)) >>= fun isThere =>
        if !isThere then pure true
        else lift (exist (lockFilePath (filePath m.targetFile))) >>= fun isLocked =>
          if !isLocked then takeLock host written m >>= fun _ => pure true
          else contestLock host written m >>= fun _ => pure true) s := rfl
  subst hm
  rw [hbody, final_bind_ok (hlift _)] at h ⊢
  by_cases hthere : filePath m.targetFile ∈ s.base.files ∨ filePath m.targetFile ∈ s.base.dirs
  · rw [decide_eq_true hthere] at h ⊢
    rw [if_neg (by decide), final_bind_ok (hlift _)] at h ⊢
    by_cases hlocked : lockFilePath (filePath m.targetFile) ∈ s.base.files ∨
        lockFilePath (filePath m.targetFile) ∈ s.base.dirs
    · rw [decide_eq_true hlocked, if_neg (by decide), final_bind_pure] at h ⊢
      cases hrecord : lockRecord host.platform s.base (filePath m.targetFile) with
      | none =>
        have hload : lift (loadLockFile host.platform (filePath m.targetFile)) s =
            .error .archive s := by
          rw [lift, loadLockFile, hrecord]
        have hthrows : contestLock host written m s = .error .archive s := bind_error hload
        rw [hthrows] at h
        cases hs.symm.trans h
      | some old =>
        obtain ⟨g, hg⟩ := file?_of_lockRecord hrecord
        exact Or.inr ⟨old.1, old.2, g, rfl, hg, contestLock_failed rfl hs hrecord hg h⟩
    · rw [decide_eq_false hlocked, if_pos (by decide), final_bind_pure] at h ⊢
      have hfree : s.base.file? (lockFilePath (filePath m.targetFile)) = none := by
        by_contra hne
        exact hlocked (Or.inl (FileSystem.file?_ne_none.mp hne))
      exact Or.inl ⟨hfree, takeLock_failed rfl hs h⟩
  · rw [decide_eq_false hthere, if_pos (by decide)] at h
    cases hs.symm.trans h

end Failed

/-! ## Nodes -/

/-- The messages whose handlers write. -/
inductive Writing
  | lock (m : FileMessage)
  | contentChange (m : FileContentMessage)
  | initialSync (m : FileInitialSyncMessage)

def Writing.target : Writing → FilePath
  | lock m => filePath m.targetFile
  | contentChange m => filePath m.targetFile
  | initialSync m => filePath m.targetFile

/-- What becomes of a node whose handler runs with a step that fails, and which step that was, if it
came to one. -/
def attempt (host : Host) (fault written : Nat) (n : Node) : Writing → Node × Option FsStep
  | .lock m =>
    let s := final (processLockMessage host n.isFinishedConnecting written m
      ⟨n.files, some fault, none⟩)
    ({ n with files := s.base }, s.failed)
  | .contentChange m =>
    let s := final (processContentFileMessage host n.isFinishedConnecting written m
      ⟨n.files, some fault, none⟩)
    ({ n with files := s.base }, s.failed)
  | .initialSync m =>
    let n' := final (Node.countInitialFile m n)
    let s := final (processInitialFileSyncMessage host written m ⟨n'.files, some fault, none⟩)
    ({ n' with files := s.base }, s.failed)

/-- The permissions of all files, the lock record and the counters are as they were. -/
structure NoTrace (p : FilePath) (n n' : Node) : Prop where
  perms : ∀ q, (n'.files.file? q).map File.perms = (n.files.file? q).map File.perms
  lock : (n'.files.file? (lockFilePath p)).map File.content =
    (n.files.file? (lockFilePath p)).map File.content
  received : n'.receivedInitialFiles = n.receivedInitialFiles
  total : n'.totalInitialFiles = n.totalInitialFiles

/-- A lock that was to be taken: nothing had been removed from the permissions of the file. -/
def NothingTaken (host : Host) (m : FileMessage) (f : Option File) : FsStep → Prop
  | .removePermissions => True
  | .createDirectories | .open =>
    ∀ f' ∈ f, m.originatorNode = host.self ∨ f'.perms &&& writePerms = 0
  | .write | .addPermissions => False

/-- A lock that was to be taken over from that in the file `g`: it had not been emptied, or just
what was in it has been written again. -/
def NothingTakenOver (written : Nat) (g : File) (record : Bytes) : FsStep → Prop
  | .open => True
  | .write => g.content = record.take written
  | .createDirectories | .addPermissions | .removePermissions => False

/-- A change: nothing had been added to the permissions, or nothing too much has been removed. -/
def NothingAdded (added perms : Perms) : FsStep → Prop
  | .addPermissions => True
  | .createDirectories | .removePermissions => perms ||| added = perms
  | .open | .write => perms &&& added = 0

/-- What was done apart from the step that failed need not be undone. -/
def NothingDone (host : Host) (written : Nat) (fs : FileSystem) (name : FsStep) : Writing → Prop
  | .lock m =>
    (fs.file? (lockFilePath (filePath m.targetFile)) = none →
      NothingTaken host m (fs.file? (filePath m.targetFile)) name) ∧
    ∀ g old, fs.file? (lockFilePath (filePath m.targetFile)) = some g →
      lockRecord host.platform fs (filePath m.targetFile) = some old →
      NothingTakenOver written g (saveLock host.platform m (old.2 &&& writePerms)) name
  | .contentChange m =>
    ∀ added f, allowance host (lockRecord host.platform fs (filePath m.targetFile))
        m.originatorNode = some added →
      fs.file? (filePath m.targetFile) = some f → NothingAdded added f.perms name
  | .initialSync _ => False

/-! ### The files -/

section Kept

variable {host : Host} {written : Nat} {p : FilePath} {fs fs' : FileSystem} {name : FsStep}

/-- The permissions of all files and the lock record are as they were. -/
structure Kept (p : FilePath) (fs fs' : FileSystem) : Prop where
  perms : ∀ q, (fs'.file? q).map File.perms = (fs.file? q).map File.perms
  lock : (fs'.file? (lockFilePath p)).map File.content =
    (fs.file? (lockFilePath p)).map File.content

theorem kept_of_same (h : ∀ q, fs'.file? q = fs.file? q) : Kept p fs fs' where
  perms q := by rw [h]
  lock := by rw [h]

theorem kept_iff_target {change : File → File} (h : ∀ q, fs'.file? q =
    if p = q then (fs.file? p).map change else fs.file? q) :
    Kept p fs fs' ↔ ∀ f, fs.file? p = some f → (change f).perms = f.perms := by
  constructor
  · intro hkept f hf
    have hperms := hkept.perms p
    rw [h, if_pos rfl, hf] at hperms
    exact Option.some_inj.mp hperms
  · intro hperms
    refine ⟨fun q => ?_, by rw [h, if_neg (lockFilePath_ne_self p).symm]⟩
    rw [h]
    split
    · next hq =>
      subst hq
      cases hf : fs.file? p with
      | none => rfl
      | some f => exact congrArg some (hperms f hf)
    · rfl

theorem kept_iff_lock {g : File} {content : Bytes} (hg : fs.file? (lockFilePath p) = some g)
    (h : ∀ q, fs'.file? q =
      if lockFilePath p = q then some { g with content := content } else fs.file? q) :
    Kept p fs fs' ↔ g.content = content := by
  constructor
  · intro hkept
    have hlock := hkept.lock
    rw [h, if_pos rfl, hg] at hlock
    exact (Option.some_inj.mp hlock).symm
  · intro hcontent
    have hsame : { g with content := content } = g := by rw [← hcontent]
    refine kept_of_same fun q => ?_
    rw [h, hsame]
    split
    · next hq => rw [← hq, hg]
    · rfl

theorem guarded_perms_iff (host : Host) (m : FileMessage) (f : File) :
    (guarded host m f).perms = f.perms ↔
      m.originatorNode = host.self ∨ f.perms &&& writePerms = 0 := by
  unfold guarded
  split
  · next hother => rw [without_eq_iff, or_iff_right hother]
  · next hself => exact iff_of_true rfl (Or.inl (not_not.mp hself))

/-- A lock file with nothing in it holds no lock. -/
theorem lockRecord_empty {pf : Platform} {g : File} (hg : fs.file? (lockFilePath p) = some g)
    (hempty : g.content = []) : lockRecord pf fs p = none := by
  rw [lockRecord, hg, Option.bind_some, hempty]
  rfl

theorem taken_kept_iff {m : FileMessage} (hfree : fs.file? (lockFilePath p) = none)
    (h : LockLeft host m p fs fs' name) :
    Kept p fs fs' ↔ NothingTaken host m (fs.file? p) name := by
  cases name with
  | removePermissions =>
    obtain rfl : fs' = fs := h
    exact iff_of_true (kept_of_same fun _ => rfl) trivial
  | createDirectories | «open» =>
    rw [kept_iff_target h]
    exact forall_congr' fun f => imp_congr_right fun _ => guarded_perms_iff host m f
  | write =>
    refine iff_of_false (fun hkept => ?_) id
    have hlock := hkept.lock
    rw [hfree, Option.map_none, Option.map_eq_none_iff] at hlock
    exact h hlock
  | addPermissions => exact h.elim

theorem takenOver_kept_iff {record : Bytes} {g : File} {old : FileMessage × Perms}
    (hrecord : lockRecord host.platform fs p = some old)
    (hg : fs.file? (lockFilePath p) = some g) (h : ContestLeft written p g record fs fs' name) :
    Kept p fs fs' ↔ NothingTakenOver written g record name := by
  cases name with
  | «open» => exact iff_of_true (kept_of_same h) trivial
  | createDirectories =>
    rw [kept_iff_lock hg h]
    refine iff_of_false (fun hempty => ?_) id
    rw [lockRecord_empty hg hempty] at hrecord
    cases hrecord
  | write => exact kept_iff_lock hg h
  | addPermissions | removePermissions => exact h.elim

theorem permsLeft_iff (added perms : Perms) (name : FsStep) :
    permsLeft added perms name = perms ↔ NothingAdded added perms name := by
  cases name with
  | addPermissions => exact iff_of_true rfl trivial
  | createDirectories | removePermissions => exact Iff.rfl
  | «open» | write =>
    show (perms ||| added) &&& ~~~added = perms ↔ perms &&& added = 0
    rw [added_removed, without_eq_iff]

theorem added_kept_iff {added : Perms} (h : ContentLeft p added fs fs' name) :
    Kept p fs fs' ↔ ∀ f, fs.file? p = some f → NothingAdded added f.perms name := by
  obtain ⟨content, hfiles⟩ := h
  rw [kept_iff_target hfiles]
  exact forall_congr' fun f => imp_congr_right fun _ => permsLeft_iff added f.perms name

section Done

variable {connected : Bool} {s : Fault.State FileSystem FsStep}

theorem lock_kept_iff {m : FileMessage} (hs : s.failed = none)
    (h : (final (processLockMessage host connected written m s)).failed = some name) :
    Kept (filePath m.targetFile) s.base
        (final (processLockMessage host connected written m s)).base ↔
      NothingDone host written s.base name (.lock m) := by
  cases connected with
  | false => cases hs.symm.trans h
  | true =>
    rcases processLockMessage_failed rfl hs h with ⟨hfree, hleft⟩ |
      ⟨oldLock, oldPerms, g, hrecord, hg, hleft⟩
    · refine (taken_kept_iff hfree hleft).trans ?_
      refine ⟨fun htaken => ⟨fun _ => htaken, fun g old hg => ?_⟩, fun hdone => hdone.1 hfree⟩
      cases hfree.symm.trans hg
    · refine (takenOver_kept_iff hrecord hg hleft).trans ?_
      rw [NothingDone, hg, hrecord]
      constructor
      · intro hover
        refine ⟨fun hfree => (nomatch hfree), fun g' old hg' hold => ?_⟩
        obtain rfl := Option.some_inj.mp hg'
        obtain rfl := Option.some_inj.mp hold
        exact hover
      · intro hdone
        exact hdone.2 g (oldLock, oldPerms) rfl rfl

theorem content_kept_iff {m : FileContentMessage} (hs : s.failed = none)
    (h : (final (processContentFileMessage host connected written m s)).failed = some name) :
    Kept (filePath m.targetFile) s.base
        (final (processContentFileMessage host connected written m s)).base ↔
      NothingDone host written s.base name (.contentChange m) := by
  cases connected with
  | false => cases hs.symm.trans h
  | true =>
    obtain ⟨added, hallowed, hleft⟩ := processContentFileMessage_failed rfl hs h
    refine (added_kept_iff hleft).trans ?_
    refine ⟨fun hkept added' f hadded hf => ?_, fun hdone f hf => hdone added f hallowed hf⟩
    obtain rfl := Option.some_inj.mp (hallowed.symm.trans hadded)
    exact hkept f hf

end Done

end Kept

theorem noTrace_files {p : FilePath} {n : Node} (files : FileSystem) :
    NoTrace p n { n with files } ↔ Kept p n.files files :=
  ⟨fun h => ⟨h.perms, h.lock⟩, fun h => ⟨h.perms, h.lock, rfl, rfl⟩⟩

/-- **Failed steps.** Where a step of a handler fails, it leaves no trace exactly if nothing had
been done that is never undone. -/
theorem no_trace_iff (host : Host) (n : Node) (op : Writing) (fault written : Nat) (name : FsStep)
    (h : (attempt host fault written n op).2 = some name) :
    NoTrace op.target n (attempt host fault written n op).1 ↔
      NothingDone host written n.files name op := by
  cases op with
  | lock m =>
    have hfailed : (final (processLockMessage host n.isFinishedConnecting written m
      ⟨n.files, some fault, none⟩)).failed = some name := h
    have hkept := lock_kept_iff rfl hfailed
    exact (noTrace_files _).trans hkept
  | contentChange m =>
    have hfailed : (final (processContentFileMessage host n.isFinishedConnecting written m
      ⟨n.files, some fault, none⟩)).failed = some name := h
    have hkept := content_kept_iff rfl hfailed
    exact (noTrace_files _).trans hkept
  | initialSync m =>
    -- The counter has been increased before anything could fail.
    refine iff_of_false (fun htrace => ?_) id
    have hone : n.receivedInitialFiles + 1 = n.receivedInitialFiles := htrace.received
    simp at hone

/-! ### A lock that cannot be written -/

/-- Another node locks `docs/a`, and the folder of the lock cannot be created: the file stays
read-only. -/
theorem lock_leaves_trace : ¬ ∀ (host : Host) (n : Node) (op : Writing) (fault written : Nat)
    (name : FsStep), (attempt host fault written n op).2 = some name →
    NoTrace op.target n (attempt host fault written n op).1 := by
  intro hnone
  have hfailed : (attempt reader 1 0 Node.unlockedNode (.lock foreignLock)).2 =
      some .createDirectories := by decide +kernel
  have hperms := (hnone reader Node.unlockedNode (.lock foreignLock) 1 0 _ hfailed).perms
    FileSystem.docsA
  revert hperms
  decide +kernel

/-- If they could not be changed in the first place, nothing has happened. -/
theorem unguarded_lock_leaves_no_trace : NoTrace FileSystem.docsA Node.unlockedNode
    (attempt reader 0 0 Node.unlockedNode (.lock foreignLock)).1 := by
  have hrecord : lockRecord reader.platform Node.unlockedNode.files FileSystem.docsA = none :=
    lockRecord_none (by decide +kernel)
  refine (no_trace_iff reader Node.unlockedNode (.lock foreignLock) 0 0 .removePermissions
    (by decide +kernel)).mpr ⟨fun _ => trivial, fun g old _ hold => ?_⟩
  cases hrecord.symm.trans hold

end Failing

end WhisperNet
