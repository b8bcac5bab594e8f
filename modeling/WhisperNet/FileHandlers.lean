import WhisperNet.Codec
import WhisperNet.FileSystem

/-!
# The handlers of file messages

`message_manager.cpp`: locking, unlocking, deleting and writing a file. Each says whether the
message was processed; `false` puts it back into the queue. `connected` is `isFinishedConnecting()`.

The lock of a file is the message that took it, archived together with the write permissions the
file had when the lock was written.

* `lockRecord_of_saved` — a lock is read back as it was saved.
* `permissionsToAdd_ok` — what a change to the file is allowed, for each state of its lock.
* `processContentFileMessage_writes`, `processContentFileMessage_drops` — the content handler.
* `processDeleteFileMessage_deletes` — the delete handler.
-/

namespace WhisperNet

open Bin Fs

/-! ## The lock of a file -/

/-- `ar(m, perms)` into a lock file. -/
def saveLock (pf : Platform) (m : FileMessage) (perms : Perms) : Bytes :=
  m.save pf ++ put32 pf.endian perms

def loadLock (pf : Platform) : Reader (FileMessage × Perms) := do
  let m ← FileMessage.load pf
  let perms ← get32 pf.endian
  return (m, perms)

/-- What the lock file of `p` says, if there is one that can be read. -/
def lockRecord (pf : Platform) (fs : FileSystem) (p : FilePath) : Option (FileMessage × Perms) :=
  (fs.file? (lockFilePath p)).bind fun f => ((loadLock pf).run f.content).map Prod.fst

/-- `loadLockFile`: the archive throws where it cannot read. -/
def loadLockFile (pf : Platform) (p : FilePath) : Fs (FileMessage × Perms) := fun fs =>
  match lockRecord pf fs p with
  | some lock => .ok lock fs
  | none => .error .archive fs

/-- The states of a lock: there is no lock file, or it says who locked the file. -/
def LockState (pf : Platform) (fs : FileSystem) (p : FilePath) :
    Option (FileMessage × Perms) → Prop
  | none => fs.file? (lockFilePath p) = none ∧ lockFilePath p ∉ fs.dirs
  | some lock => lockRecord pf fs p = some lock

/-! ## The handlers -/

section Handlers

variable (host : Host) (connected : Bool)

/-- Prevent us from writing to the file (unless we took the lock). -/
def preventWriting (m : FileMessage) : Fs Unit :=
  if m.originatorNode ≠ host.self then removePermissions (filePath m.targetFile) writePerms
  else pure ()

/-- `processLockMessage` where the file is not locked. -/
def takeLock (m : FileMessage) : Fs Unit := do
  let lockPath := lockFilePath (filePath m.targetFile)
  preventWriting host m
  createDirectories lockPath.dropLast
  let fout ← ofstream host lockPath
  let perms ← statusPermissions (filePath m.targetFile)
  archive fout lockPath (saveLock host.platform m (perms &&& writePerms))

/-- `processLockMessage` where the file is locked: the older of the two locks holds. -/
def contestLock (m : FileMessage) : Fs Unit := do
  let lockPath := lockFilePath (filePath m.targetFile)
  let (oldLock, oldPerms) ← loadLockFile host.platform (filePath m.targetFile)
  if m.timestamp < oldLock.timestamp then do
    let fout ← ofstream host lockPath
    createDirectories lockPath.dropLast
    archive fout lockPath (saveLock host.platform m (oldPerms &&& writePerms))
  else pure ()

def processLockMessage (m : FileMessage) : Fs Bool :=
  if !connected then return false
  else do
    if !(← exist (filePath m.targetFile)) then return true
    else if !(← exist (lockFilePath (filePath m.targetFile))) then do
      takeLock host m
      return true
    else do
      contestLock host m
      return true

/-- `processUnlockMessage` where the file is locked. -/
def releaseLock (m : FileMessage) : Fs Unit := do
  let (oldLock, permsToAdd) ← loadLockFile host.platform (filePath m.targetFile)
  if m.originatorNode = oldLock.originatorNode then do
    let check ← statusPermissions (filePath m.targetFile)
    -- A file that can be written to counts as unlocked.
    if check &&& writePerms = 0 then do
      addPermissions (filePath m.targetFile) permsToAdd
      remove (lockFilePath (filePath m.targetFile))
    else pure ()
  else pure ()

def processUnlockMessage (m : FileMessage) : Fs Bool :=
  if !connected then return false
  else do
    if ← exist (lockFilePath (filePath m.targetFile)) then do
      releaseLock host m
      return true
    else return true

/-- How `processDeleteFileMessage` and `processContentFileMessage` begin: the permissions to add
for the time of the change, or `none` where the lock forbids it. -/
def permissionsToAdd (p : FilePath) (originatorNode : IpAddress) : Fs (Option Perms) := do
  if ← exist (lockFilePath p) then do
    let (lock, perms) ← loadLockFile host.platform p
    if lock.originatorNode ≠ host.self then return none
    else if lock.originatorNode ≠ originatorNode then return some 0
    else return some perms
  else return some 0

/-- `processDeleteFileMessage` where the lock allows it. -/
def deleteFile (p : FilePath) (perms : Perms) : Fs Unit := do
  addPermissions p perms
  remove p
  remove (lockFilePath p)
  remove (wntsPath p)

def processDeleteFileMessage (m : FileMessage) : Fs Bool :=
  if !connected then return false
  else do
    match ← permissionsToAdd host (filePath m.targetFile) m.originatorNode with
    | none => return true
    | some perms => do
      deleteFile (filePath m.targetFile) perms
      return true

/-- Writing a file's content, creating the directories it needs. -/
def saveContent (p : FilePath) (content : Bytes) : Fs Unit := do
  createDirectories p.dropLast
  let fout ← ofstream host p
  put fout p content

def processContentFileMessage (m : FileContentMessage) : Fs Bool :=
  if !connected then return false
  else do
    match ← permissionsToAdd host (filePath m.targetFile) m.originatorNode with
    | none => return true
    | some perms => do
      addPermissions (filePath m.targetFile) perms
      saveContent host (filePath m.targetFile) m.fileContent
      removePermissions (filePath m.targetFile) perms
      return true

/-- The counters that `processInitialFileSyncMessage` also updates are not files. -/
def processInitialFileSyncMessage (m : FileInitialSyncMessage) : Fs Bool := do
  saveContent host (filePath m.targetFile) m.fileContent
  return true

end Handlers

/-! ## Reading locks -/

section Locks

variable {pf : Platform} {fs fs' : FileSystem} {p : FilePath}

theorem reads_loadLock (pf : Platform) {m : FileMessage} (h : PathFits m.targetFile)
    (perms : Perms) : Reads (loadLock pf) (saveLock pf m perms) (m.received, perms) :=
  (reads_file pf h).bind ((reads_get32 pf.endian perms).map (Prod.mk m.received))

theorem lockRecord_of_saved {m : FileMessage} {perms : Perms} {f : File}
    (hfits : PathFits m.targetFile) (hfile : fs.file? (lockFilePath p) = some f)
    (hf : f.content = saveLock pf m perms) : lockRecord pf fs p = some (m.received, perms) := by
  rw [lockRecord, hfile, Option.bind_some, hf, (reads_loadLock pf hfits perms).run_eq]
  rfl

theorem loadLockFile_ok {lock : FileMessage × Perms} (h : lockRecord pf fs p = some lock) :
    loadLockFile pf p fs = .ok lock fs := by
  rw [loadLockFile, h]

/-- The record is in the lock file and nowhere else. -/
theorem lockRecord_congr (h : fs'.file? (lockFilePath p) = fs.file? (lockFilePath p)) :
    lockRecord pf fs' p = lockRecord pf fs p := by
  rw [lockRecord, lockRecord, h]

theorem lockRecord_none (h : fs.file? (lockFilePath p) = none) : lockRecord pf fs p = none := by
  rw [lockRecord, h]
  rfl

theorem file?_of_lockRecord {lock : FileMessage × Perms} (h : lockRecord pf fs p = some lock) :
    ∃ f, fs.file? (lockFilePath p) = some f := by
  cases hfile : fs.file? (lockFilePath p) with
  | none =>
    rw [lockRecord, hfile] at h
    cases h
  | some f => exact ⟨f, rfl⟩

end Locks

/-! ## What a change is allowed -/

/-- The permissions a change may add to the file, for the state of its lock. -/
def allowance (host : Host) (lock : Option (FileMessage × Perms)) (originatorNode : IpAddress) :
    Option Perms :=
  match lock with
  | none => some 0
  | some (lock, perms) =>
    if lock.originatorNode ≠ host.self then none
    else if lock.originatorNode ≠ originatorNode then some 0
    else some perms

section Changes

variable {host : Host} {fs fs' : FileSystem} {p : FilePath} {f : File} {perms : Perms}

section Allowance

variable {lock : FileMessage} {ip : IpAddress}

theorem allowance_other (h : lock.originatorNode ≠ host.self) :
    allowance host (some (lock, perms)) ip = none :=
  if_pos h

theorem allowance_forbidden (h : lock.originatorNode = host.self) (hip : lock.originatorNode ≠ ip) :
    allowance host (some (lock, perms)) ip = some 0 :=
  (if_neg (not_not.mpr h)).trans (if_pos hip)

theorem allowance_owner (h : lock.originatorNode = host.self) (hip : lock.originatorNode = ip) :
    allowance host (some (lock, perms)) ip = some perms :=
  (if_neg (not_not.mpr h)).trans (if_neg (not_not.mpr hip))

end Allowance

theorem permissionsToAdd_ok {lock : Option (FileMessage × Perms)} (originatorNode : IpAddress)
    (h : LockState host.platform fs p lock) :
    permissionsToAdd host p originatorNode fs = .ok (allowance host lock originatorNode) fs := by
  cases lock with
  | none =>
    rw [permissionsToAdd, Effect.bind_ok (exist_nothing h.1 h.2)]
    rfl
  | some lock =>
    obtain ⟨f, hfile⟩ := file?_of_lockRecord h
    rw [permissionsToAdd, Effect.bind_ok (exist_file hfile), if_pos rfl,
      Effect.bind_ok (loadLockFile_ok h), allowance]
    dsimp only
    split
    · rfl
    · split <;> rfl

section Unreadable

/-- There is a lock file, and it holds no lock. -/
def UnreadableLock (pf : Platform) (fs : FileSystem) (p : FilePath) : Prop :=
  (lockFilePath p ∈ fs.files ∨ lockFilePath p ∈ fs.dirs) ∧ lockRecord pf fs p = none

theorem lockState_of_readable {pf : Platform} (h : ¬ UnreadableLock pf fs p) :
    LockState pf fs p (lockRecord pf fs p) := by
  cases hrecord : lockRecord pf fs p with
  | some lock => exact hrecord
  | none =>
    have hnothing : ¬ (lockFilePath p ∈ fs.files ∨ lockFilePath p ∈ fs.dirs) :=
      fun hthere => h ⟨hthere, hrecord⟩
    rw [not_or] at hnothing
    refine ⟨?_, hnothing.2⟩
    by_contra hne
    exact hnothing.1 (FileSystem.file?_ne_none.mp hne)

theorem UnreadableLock.exist (h : UnreadableLock host.platform fs p) :
    exist (lockFilePath p) fs = .ok true fs := by
  rw [Fs.exist, decide_eq_true h.1]

theorem UnreadableLock.loadLockFile (h : UnreadableLock host.platform fs p) :
    loadLockFile host.platform p fs = .error .archive fs := by
  rw [WhisperNet.loadLockFile, h.2]

theorem permissionsToAdd_unreadable (originatorNode : IpAddress)
    (h : UnreadableLock host.platform fs p) :
    permissionsToAdd host p originatorNode fs = .error .archive fs := by
  rw [permissionsToAdd, Effect.bind_ok h.exist, if_pos rfl]
  exact Effect.bind_error h.loadLockFile

end Unreadable

/-! ## Writing and deleting -/

/-- The parent of a file is there; it must have a name. -/
theorem createDirectories_parent (hp : p.dropLast ≠ []) (hf : fs.file? p = some f) :
    createDirectories p.dropLast fs = .ok () fs :=
  createDirectories_exists hp (fs.parent_file p (FileSystem.mem_files_of_file? hf))

theorem saveContent_writes (hp : p.dropLast ≠ []) (hf : fs.file? p = some f)
    (hw : host.CanWrite f.perms) (content : Bytes) :
    ∃ fs', saveContent host p content fs = .ok () fs' ∧
      fs.Sets p (some { f with content := content }) fs' := by
  obtain ⟨fs₁, hopen, hset₁⟩ := ofstream_ok hf hw
  obtain ⟨fs₂, hput, hset₂⟩ := append_ok content hset₁.here
  refine ⟨fs₂, ?_, hset₁.trans hset₂⟩
  rw [saveContent, Effect.bind_ok (createDirectories_parent hp hf), Effect.bind_ok hopen]
  exact hput

/-- A stream that did not open drops the content. -/
theorem saveContent_drops (hp : p.dropLast ≠ []) (hf : fs.file? p = some f)
    (hw : ¬ host.CanWrite f.perms) (content : Bytes) :
    saveContent host p content fs = .ok () fs := by
  rw [saveContent, Effect.bind_ok (createDirectories_parent hp hf),
    Effect.bind_ok (ofstream_refused hf hw)]
  rfl

section Content

variable {m : FileContentMessage}

/-- The lock forbids the change. -/
theorem processContentFileMessage_refused
    (h : permissionsToAdd host p m.originatorNode fs = .ok none fs)
    (hm : filePath m.targetFile = p) : processContentFileMessage host true m fs = .ok true fs := by
  subst hm
  show (permissionsToAdd host _ _ >>= _) fs = _
  rw [Effect.bind_ok h]
  rfl

/-- The file can be written to with the permissions added. -/
theorem processContentFileMessage_writes
    (h : permissionsToAdd host p m.originatorNode fs = .ok (some perms) fs)
    (hm : filePath m.targetFile = p) (hp : p.dropLast ≠ []) (hf : fs.file? p = some f)
    (hw : host.CanWrite (f.perms ||| perms)) :
    ∃ fs', processContentFileMessage host true m fs = .ok true fs' ∧
      fs.Sets p (some ⟨m.fileContent, (f.perms ||| perms) &&& ~~~perms⟩) fs' := by
  subst hm
  obtain ⟨fs₁, hadd, hset₁⟩ := addPermissions_ok perms hf
  obtain ⟨fs₂, hsave, hset₂⟩ := saveContent_writes hp hset₁.here hw m.fileContent
  obtain ⟨fs₃, hremove, hset₃⟩ := removePermissions_ok perms hset₂.here
  refine ⟨fs₃, ?_, (hset₁.trans hset₂).trans hset₃⟩
  show (permissionsToAdd host _ _ >>= _) fs = _
  rw [Effect.bind_ok h]
  show (addPermissions _ perms >>= _) fs = _
  rw [Effect.bind_ok hadd, Effect.bind_ok hsave, Effect.bind_ok hremove]
  rfl

/-- The file cannot be written to even so. -/
theorem processContentFileMessage_drops
    (h : permissionsToAdd host p m.originatorNode fs = .ok (some perms) fs)
    (hm : filePath m.targetFile = p) (hp : p.dropLast ≠ []) (hf : fs.file? p = some f)
    (hw : ¬ host.CanWrite (f.perms ||| perms)) :
    ∃ fs', processContentFileMessage host true m fs = .ok true fs' ∧
      fs.Sets p (some ⟨f.content, (f.perms ||| perms) &&& ~~~perms⟩) fs' := by
  subst hm
  obtain ⟨fs₁, hadd, hset₁⟩ := addPermissions_ok perms hf
  have hsave := saveContent_drops hp hset₁.here hw m.fileContent
  obtain ⟨fs₂, hremove, hset₂⟩ := removePermissions_ok perms hset₁.here
  refine ⟨fs₂, ?_, hset₁.trans hset₂⟩
  show (permissionsToAdd host _ _ >>= _) fs = _
  rw [Effect.bind_ok h]
  show (addPermissions _ perms >>= _) fs = _
  rw [Effect.bind_ok hadd, Effect.bind_ok hsave, Effect.bind_ok hremove]
  rfl

end Content

section Delete

variable {m : FileMessage}

/-- The lock forbids the change. -/
theorem processDeleteFileMessage_refused
    (h : permissionsToAdd host p m.originatorNode fs = .ok none fs)
    (hm : filePath m.targetFile = p) : processDeleteFileMessage host true m fs = .ok true fs := by
  subst hm
  show (permissionsToAdd host _ _ >>= _) fs = _
  rw [Effect.bind_ok h]
  rfl

/-- Whatever becomes of the lock and the hash, the file is gone. -/
theorem deleteFile_deletes (hf : fs.file? p = some f) :
    (Effect.final (deleteFile p perms fs)).file? p = none := by
  obtain ⟨fs₁, hadd, hset₁⟩ := addPermissions_ok perms hf
  obtain ⟨fs₂, hremove, hset₂⟩ := remove_ok (FileSystem.not_dir_of_file? hset₁.here)
  rw [deleteFile, Effect.bind_ok hadd, Effect.bind_ok hremove]
  exact keeps_gone.bind (fun _ => keeps_gone) fs₂ hset₂.here

theorem processDeleteFileMessage_deletes
    (h : permissionsToAdd host p m.originatorNode fs = .ok (some perms) fs)
    (hm : filePath m.targetFile = p) (hf : fs.file? p = some f) :
    (Effect.final (processDeleteFileMessage host true m fs)).file? p = none := by
  subst hm
  show (Effect.final ((permissionsToAdd host _ _ >>= _) fs)).file? _ = none
  rw [Effect.bind_ok h]
  show (Effect.final ((deleteFile _ perms >>= _) fs)).file? _ = none
  have hgone : (Effect.final (deleteFile (filePath m.targetFile) perms fs)).file? _ = none :=
    deleteFile_deletes hf
  cases hdel : deleteFile (filePath m.targetFile) perms fs with
  | ok _ fs' =>
    rw [hdel] at hgone
    rw [Effect.bind_ok hdel]
    exact hgone
  | error e fs' =>
    rw [hdel] at hgone
    rw [Effect.bind_error hdel]
    exact hgone

end Delete

end Changes

end WhisperNet
