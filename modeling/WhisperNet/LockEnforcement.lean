import WhisperNet.FileHandlers

/-!
# Lock enforcement

A change to a file, its content or its deletion, is permitted while nobody has locked the file and
to whoever has. The handlers ask something else: whether *this node* has the lock. So a change by
the owner of a lock is dropped everywhere but at the owner, and at the owner everybody's are made.

* `takesEffect_content_iff`, `unchanged_content_iff` — what the content handler does, given what the
  lock allows; `takesEffect_delete_iff`, `unchanged_delete_iff` the same of the delete handler.
* `lock_enforced_iff` — exactly when the handlers do what the lock says.
-/

namespace WhisperNet

open Bin Fs

/-! ## What a lock permits -/

/-- A message that changes a file. -/
inductive Change
  | content (m : FileContentMessage)
  | delete (m : FileMessage)

namespace Change

def file : Change → FileMessage
  | content m => m.toFileMessage
  | delete m => m

def target (c : Change) : FilePath := filePath c.file.targetFile

def originator (c : Change) : IpAddress := c.file.originatorNode

/-- The handler of the change. -/
def process (host : Host) (connected : Bool) : Change → Fs Bool
  | content m => processContentFileMessage host connected m
  | delete m => processDeleteFileMessage host connected m

/-- The change has been made. -/
def TakesEffect (fs' : FileSystem) : Change → Prop
  | content m => ∃ f, fs'.file? (filePath m.targetFile) = some f ∧ f.content = m.fileContent
  | delete m => fs'.file? (filePath m.targetFile) = none

end Change

/-- The file, its lock and its hash are as they were. -/
structure Unchanged (p : FilePath) (fs fs' : FileSystem) : Prop where
  file : fs'.file? p = fs.file? p
  lock : fs'.file? (lockFilePath p) = fs.file? (lockFilePath p)
  hash : fs'.file? (wntsPath p) = fs.file? (wntsPath p)

/-- Nobody has locked the file, or the originator of the change has. -/
def Permitted (lock : Option (FileMessage × Perms)) (c : Change) : Prop :=
  ∀ l ∈ lock, l.1.originatorNode = c.originator

/-- The change is made if it is permitted, and nothing happens otherwise. -/
structure Enforced (lock : Option (FileMessage × Perms)) (c : Change) (fs fs' : FileSystem) :
    Prop where
  permitted : Permitted lock c → c.TakesEffect fs'
  forbidden : ¬ Permitted lock c → Unchanged c.target fs fs'

/-- Where the handlers heed the lock of the file `f`. -/
def Heeds (host : Host) (f : File) : Option (FileMessage × Perms) → Change → Prop
  | none, .content m => host.CanWrite f.perms ∨ f.content = m.fileContent
  | none, .delete _ => True
  | some (lock, perms), .content m =>
    if lock.originatorNode = host.self then
      if lock.originatorNode = m.originatorNode then
        host.CanWrite (f.perms ||| perms) ∨ f.content = m.fileContent
      else ¬ host.CanWrite f.perms ∨ f.content = m.fileContent
    else lock.originatorNode = m.originatorNode → f.content = m.fileContent
  | some (lock, _), .delete m =>
    lock.originatorNode = host.self ↔ lock.originatorNode = m.originatorNode

/-! ## What the handlers do -/

section Handlers

variable {host : Host} {fs : FileSystem} {p : FilePath} {f : File} {perms : Perms}
  {lock : Option (FileMessage × Perms)}

/-- The state the handler leaves. -/
def Change.after (host : Host) (fs : FileSystem) (c : Change) : FileSystem :=
  Effect.final (c.process host true fs)

theorem Unchanged.refl (p : FilePath) (fs : FileSystem) : Unchanged p fs fs := ⟨rfl, rfl, rfl⟩

/-- Setting a file leaves its lock and its hash alone. -/
theorem unchanged_of_sets {fs' : FileSystem} {g : Option File} (hp : Managed p)
    (hset : fs.Sets p g fs') : Unchanged p fs fs' ↔ g = fs.file? p := by
  constructor
  · intro h
    rw [← h.file, hset.here]
  · intro h
    exact ⟨hset.here.trans h, hset.elsewhere (lockFilePath_ne hp).symm,
      hset.elsewhere (wntsPath_ne hp).symm⟩

theorem after_refused {c : Change} (hlock : LockState host.platform fs c.target lock)
    (h : allowance host lock c.originator = none) : c.after host fs = fs := by
  have hask := permissionsToAdd_ok c.originator hlock
  rw [h] at hask
  cases c with
  | content m =>
    show Effect.final (processContentFileMessage host true m fs) = fs
    rw [processContentFileMessage_refused hask rfl]
    rfl
  | delete m =>
    show Effect.final (processDeleteFileMessage host true m fs) = fs
    rw [processDeleteFileMessage_refused (m := m) hask rfl]
    rfl

/-- The content handler writes where it can, and takes the added permissions away again. -/
theorem processContentFileMessage_changes {m : FileContentMessage}
    (hlock : LockState host.platform fs (filePath m.targetFile) lock)
    (h : allowance host lock m.originatorNode = some perms)
    (hp : (filePath m.targetFile).dropLast ≠ []) (hf : fs.file? (filePath m.targetFile) = some f) :
    ∃ fs', processContentFileMessage host true m fs = .ok true fs' ∧
      fs.Sets (filePath m.targetFile)
        (some ⟨if host.CanWrite (f.perms ||| perms) then m.fileContent else f.content,
          (f.perms ||| perms) &&& ~~~perms⟩) fs' := by
  have hask := permissionsToAdd_ok m.originatorNode hlock
  rw [h] at hask
  by_cases hw : host.CanWrite (f.perms ||| perms)
  · rw [if_pos hw]
    exact processContentFileMessage_writes hask rfl hp hf hw
  · rw [if_neg hw]
    exact processContentFileMessage_drops hask rfl hp hf hw

theorem after_content {m : FileContentMessage}
    (hlock : LockState host.platform fs (filePath m.targetFile) lock)
    (h : allowance host lock m.originatorNode = some perms) (hp : Managed (filePath m.targetFile))
    (hf : fs.file? (filePath m.targetFile) = some f) :
    fs.Sets (filePath m.targetFile)
      (some ⟨if host.CanWrite (f.perms ||| perms) then m.fileContent else f.content,
        (f.perms ||| perms) &&& ~~~perms⟩) ((Change.content m).after host fs) := by
  obtain ⟨fs', hrun, hset⟩ := processContentFileMessage_changes hlock h hp.parent_ne_nil hf
  show fs.Sets _ _ (Effect.final (processContentFileMessage host true m fs))
  rw [hrun]
  exact hset

theorem takesEffect_content_iff {m : FileContentMessage}
    (hlock : LockState host.platform fs (filePath m.targetFile) lock)
    (hp : Managed (filePath m.targetFile)) (hf : fs.file? (filePath m.targetFile) = some f) :
    (Change.content m).TakesEffect ((Change.content m).after host fs) ↔
      (∃ perms, allowance host lock m.originatorNode = some perms ∧
        host.CanWrite (f.perms ||| perms)) ∨ f.content = m.fileContent := by
  cases h : allowance host lock m.originatorNode with
  | none =>
    rw [after_refused (c := .content m) hlock h]
    simp [Change.TakesEffect, hf]
  | some perms =>
    have hset := after_content hlock h hp hf
    by_cases hw : host.CanWrite (f.perms ||| perms)
    · simp [Change.TakesEffect, hset.here, hw]
    · simp [Change.TakesEffect, hset.here, hw]

/-- Where no permissions are added, a file that cannot be written to is left as it is. -/
theorem unchanged_content_iff {m : FileContentMessage}
    (hlock : LockState host.platform fs (filePath m.targetFile) lock)
    (h : allowance host lock m.originatorNode = some 0) (hp : Managed (filePath m.targetFile))
    (hf : fs.file? (filePath m.targetFile) = some f) :
    Unchanged (filePath m.targetFile) fs ((Change.content m).after host fs) ↔
      ¬ host.CanWrite f.perms ∨ f.content = m.fileContent := by
  have hset := after_content hlock h hp hf
  rw [unchanged_of_sets hp hset, hf]
  by_cases hw : host.CanWrite f.perms
  · simp [hw, File.ext_iff, eq_comm]
  · simp [hw]

theorem takesEffect_delete_iff {m : FileMessage}
    (hlock : LockState host.platform fs (filePath m.targetFile) lock)
    (hf : fs.file? (filePath m.targetFile) = some f) :
    (Change.delete m).TakesEffect ((Change.delete m).after host fs) ↔
      allowance host lock m.originatorNode ≠ none := by
  cases h : allowance host lock m.originatorNode with
  | none =>
    rw [after_refused (c := .delete m) hlock h]
    simp [Change.TakesEffect, hf]
  | some perms =>
    have hask := permissionsToAdd_ok m.originatorNode hlock
    rw [h] at hask
    have hgone := processDeleteFileMessage_deletes hask rfl hf
    exact ⟨fun _ => Option.some_ne_none perms, fun _ => hgone⟩

theorem unchanged_delete_iff {m : FileMessage}
    (hlock : LockState host.platform fs (filePath m.targetFile) lock)
    (hf : fs.file? (filePath m.targetFile) = some f) :
    Unchanged (filePath m.targetFile) fs ((Change.delete m).after host fs) ↔
      allowance host lock m.originatorNode = none := by
  constructor
  · intro h
    by_contra hsome
    have hgone := (takesEffect_delete_iff hlock hf).mpr hsome
    have hkept := h.file
    rw [hf] at hkept
    rw [Change.TakesEffect, hkept] at hgone
    cases hgone
  · intro h
    rw [after_refused (c := .delete m) hlock h]
    exact Unchanged.refl _ _

/-! ## When locks are heeded -/

theorem enforced_iff_of_permitted {c : Change} {fs' : FileSystem} (h : Permitted lock c) :
    Enforced lock c fs fs' ↔ c.TakesEffect fs' :=
  ⟨fun he => he.permitted h, fun ht => ⟨fun _ => ht, fun hn => absurd h hn⟩⟩

theorem enforced_iff_of_forbidden {c : Change} {fs' : FileSystem} (h : ¬ Permitted lock c) :
    Enforced lock c fs fs' ↔ Unchanged c.target fs fs' :=
  ⟨fun he => he.forbidden h, fun hu => ⟨fun hp => absurd hp h, fun _ => hu⟩⟩

theorem permitted_some {l : FileMessage} {c : Change} :
    Permitted (some (l, perms)) c ↔ l.originatorNode = c.originator := by
  simp [Permitted]

theorem heeds_content_iff {m : FileContentMessage}
    (hlock : LockState host.platform fs (filePath m.targetFile) lock)
    (hp : Managed (filePath m.targetFile)) (hf : fs.file? (filePath m.targetFile) = some f) :
    Enforced lock (.content m) fs ((Change.content m).after host fs) ↔
      Heeds host f lock (.content m) := by
  have htakes := takesEffect_content_iff hlock hp hf
  cases lock with
  | none =>
    rw [enforced_iff_of_permitted (fun l hl => by cases hl), htakes]
    simp [allowance, Heeds]
  | some l =>
    obtain ⟨l, perms⟩ := l
    rw [Heeds]
    by_cases howner : l.originatorNode = m.originatorNode
    · rw [enforced_iff_of_permitted (permitted_some.mpr howner), htakes]
      by_cases hself : l.originatorNode = host.self
      · rw [allowance_owner hself howner, if_pos hself, if_pos howner]
        simp
      · rw [allowance_other hself, if_neg hself]
        simp [howner]
    · rw [enforced_iff_of_forbidden (fun h => howner (permitted_some.mp h))]
      by_cases hself : l.originatorNode = host.self
      · rw [if_pos hself, if_neg howner]
        exact unchanged_content_iff hlock (allowance_forbidden hself howner) hp hf
      · rw [after_refused (c := .content m) hlock (allowance_other hself), if_neg hself]
        simp [howner, Unchanged.refl]

theorem heeds_delete_iff {m : FileMessage}
    (hlock : LockState host.platform fs (filePath m.targetFile) lock)
    (hf : fs.file? (filePath m.targetFile) = some f) :
    Enforced lock (.delete m) fs ((Change.delete m).after host fs) ↔
      Heeds host f lock (.delete m) := by
  have htakes := takesEffect_delete_iff hlock hf
  have hkeeps := unchanged_delete_iff hlock hf
  cases lock with
  | none =>
    rw [enforced_iff_of_permitted (fun l hl => by cases hl), htakes]
    simp [allowance, Heeds]
  | some l =>
    obtain ⟨l, perms⟩ := l
    rw [Heeds]
    by_cases howner : l.originatorNode = m.originatorNode
    · rw [enforced_iff_of_permitted (permitted_some.mpr howner), htakes]
      by_cases hself : l.originatorNode = host.self
      · rw [allowance_owner hself howner]
        exact iff_of_true (Option.some_ne_none perms) (iff_of_true hself howner)
      · rw [allowance_other hself]
        exact iff_of_false (fun h => h rfl) (fun h => hself (h.mpr howner))
    · rw [enforced_iff_of_forbidden (fun h => howner (permitted_some.mp h))]
      refine hkeeps.trans ?_
      by_cases hself : l.originatorNode = host.self
      · rw [allowance_forbidden hself howner]
        exact iff_of_false (Option.some_ne_none 0) (fun h => howner (h.mp hself))
      · rw [allowance_other hself]
        exact iff_of_true rfl (iff_of_false hself howner)

end Handlers

/-- **Locks.** The handlers enforce the lock of an existing file exactly where they heed it. -/
theorem lock_enforced_iff (host : Host) (fs : FileSystem) (f : File)
    (lock : Option (FileMessage × Perms)) (c : Change) (hp : Managed c.target)
    (hf : fs.file? c.target = some f) (hlock : LockState host.platform fs c.target lock) :
    Enforced lock c fs (c.after host fs) ↔ Heeds host f lock c := by
  cases c with
  | content m => exact heeds_content_iff hlock hp hf
  | delete m => exact heeds_delete_iff hlock hf

/-! ## An edit by the owner of a lock -/

/-- `docs/a`, locked by another node. -/
def foreignLock : FileMessage where
  type := .lock
  receiverNode := .ipv6Unspecified
  originatorNode := .ipv4 0x0a000001
  messageHash := 0
  targetFile := ⟨[100, 111, 99, 115, 47, 97]⟩
  timestamp := 0

/-- Its new content, from the node that locked it. -/
def ownersEdit : FileContentMessage :=
  { foreignLock with type := .contentChange, fileContent := [110, 101, 119] }

def lockedFile : File := ⟨[111, 108, 100], 0o444⟩

def lockedDocs : FileSystem :=
  ((FileSystem.docs lockedFile).addDir (lockFilePath FileSystem.docsA).dropLast (by decide)
    (by decide)).setFile (lockFilePath FileSystem.docsA)
    ⟨saveLock .littleEndian foreignLock 0, 0o644⟩ (by decide) (by decide)

/-- A node that did not take the lock. -/
def reader : Host where
  platform := .littleEndian
  self := .ipv4 0x0a000002
  privileged := false
  newPerms := 0o644

theorem lockedDocs_file : lockedDocs.file? FileSystem.docsA = some lockedFile := by decide

theorem lockedDocs_lock :
    LockState .littleEndian lockedDocs FileSystem.docsA (some (foreignLock.received, 0)) := by
  apply lockRecord_of_saved (f := ⟨saveLock .littleEndian foreignLock 0, 0o644⟩)
  · show PathFits ⟨[100, 111, 99, 115, 47, 97]⟩
    decide
  · rw [lockedDocs, FileSystem.file?_setFile, if_pos rfl]
  · rfl

theorem docsA_managed : Managed FileSystem.docsA := ⟨by decide, by decide⟩

/-- Another node sees the owner of the lock edit the file, and drops the edit. -/
theorem owner_edit_dropped :
    Managed (Change.content ownersEdit).target ∧
      lockedDocs.file? (Change.content ownersEdit).target = some lockedFile ∧
      LockState reader.platform lockedDocs (Change.content ownersEdit).target
        (some (foreignLock.received, 0)) ∧
      ¬ Enforced (some (foreignLock.received, 0)) (.content ownersEdit) lockedDocs
        ((Change.content ownersEdit).after reader lockedDocs) := by
  refine ⟨docsA_managed, lockedDocs_file, lockedDocs_lock, fun h => ?_⟩
  have hafter : (Change.content ownersEdit).after reader lockedDocs = lockedDocs :=
    after_refused (c := .content ownersEdit) lockedDocs_lock (allowance_other (by decide))
  obtain ⟨f, hf, hcontent⟩ := h.permitted (permitted_some.mpr rfl)
  rw [hafter] at hf
  have hold : lockedFile = f := Option.some_inj.mp (lockedDocs_file.symm.trans hf)
  rw [← hold] at hcontent
  exact absurd hcontent (by decide)

/-- At the owner itself, its deletion of the file is made. -/
theorem owner_delete_enforced :
    Enforced (some (foreignLock.received, 0)) (.delete foreignLock) lockedDocs
      ((Change.delete foreignLock).after { reader with self := foreignLock.originatorNode }
        lockedDocs) :=
  (lock_enforced_iff { reader with self := foreignLock.originatorNode } lockedDocs lockedFile
    (some (foreignLock.received, 0)) (.delete foreignLock) docsA_managed lockedDocs_file
    lockedDocs_lock).mpr (iff_of_true rfl rfl)

end WhisperNet
