import WhisperNet.HandlerRuns

/-!
# Locking and unlocking again

A lock from another node takes the write permissions away from the file and saves those that are
left, which are none; a lock from this node leaves them, and the unlock takes a file that can be
written to for one that is not locked. So an unlock gives back nothing, and comes through only where
there was nothing to give back.

* `lock_taken` — what a lock leaves for the unlock to go by.
* `unlock_restores_iff` — when an unlock of such a lock restores the file.
* `unlock_undoes_lock_iff` — both, with messages about other files in between.
-/

namespace WhisperNet

open Bin Fs Effect

/-! ## A lock that has been taken -/

section Taken

variable {host : Host} {fs fs' : FileSystem} {p : FilePath} {lock unlock : FileMessage} {f : File}

/-- The lock has been taken on the file `f`. -/
structure Taken (host : Host) (lock : FileMessage) (p : FilePath) (f : File) (fs : FileSystem) :
    Prop where
  file : fs.file? p = some (guarded host lock f)
  record : lockRecord host.platform fs p =
    some (lock.received, (guarded host lock f).perms &&& writePerms)

/-- What is taken depends on the file and its lock alone. -/
theorem Taken.congr (h : Taken host lock p f fs) (hfile : fs'.file? p = fs.file? p)
    (hlock : fs'.file? (lockFilePath p) = fs.file? (lockFilePath p)) :
    Taken host lock p f fs' where
  file := hfile.trans h.file
  record := (lockRecord_congr hlock).trans h.record

/-- **Locking** a file that is not locked returns exactly where the lock can be written. -/
theorem lock_runs_iff (hm : filePath lock.targetFile = p) (hf : fs.file? p = some f)
    (hfree : LockState host.platform fs p none) :
    (∃ fs', processLockMessage host true lock fs = .ok true fs') ↔ CanLock fs p := by
  have hthere : exist (filePath lock.targetFile) fs = .ok true fs := exist_file (hm ▸ hf)
  have hunlocked : exist (lockFilePath (filePath lock.targetFile)) fs = .ok false fs :=
    exist_nothing (hm ▸ hfree.1) (hm ▸ hfree.2)
  have hbody : processLockMessage host true lock fs =
      (takeLock host lock >>= fun _ => pure true) fs :=
    (bind_ok hthere).trans (bind_ok hunlocked)
  have htakes : (∃ fs', takeLock host lock fs = .ok () fs') ↔ CanLock fs p :=
    takeLock_runs_iff hm hf hfree.1 hfree.2
  rw [← htakes, hbody]
  constructor
  · intro ⟨fs', h⟩
    obtain ⟨⟨⟩, fs₁, htake, -⟩ := bind_eq_ok h
    exact ⟨fs₁, htake⟩
  · intro ⟨fs', htake⟩
    exact ⟨fs', bind_ok htake⟩

theorem lock_taken (hm : filePath lock.targetFile = p) (hfits : PathFits lock.targetFile)
    (hf : fs.file? p = some f)
    (hfree : LockState host.platform fs p none)
    (h : processLockMessage host true lock fs = .ok true fs') : Taken host lock p f fs' := by
  obtain ⟨-, ⟨-, fs₁, hset, hwritten⟩ | ⟨oldLock, oldPerms, hrecord, -⟩⟩ :=
    processLockMessage_ok hm hfits hf h
  · exact ⟨(hwritten.frame p (lockFilePath_ne_self _)).trans hset.here, hwritten.record⟩
  · rw [lockRecord_none hfree.1] at hrecord
    cases hrecord

/-- An unlock of such a lock returns. -/
theorem unlock_runs (hm : filePath unlock.targetFile = p) (h : Taken host lock p f fs) :
    ∃ fs', processUnlockMessage host true unlock fs = .ok true fs' := by
  subst hm
  obtain ⟨g, hg⟩ := file?_of_lockRecord h.record
  obtain ⟨fs', hrun⟩ := releaseLock_returns rfl h.record (FileSystem.not_dir_of_file? h.file)
  exact ⟨fs', (bind_ok (exist_file hg)).trans (bind_ok hrun)⟩

/-! ## Unlocking it -/

/-- The file is not locked, and has its permissions back. -/
structure Restored (p : FilePath) (f : File) (fs' : FileSystem) : Prop where
  free : fs'.file? (lockFilePath p) = none
  perms : (fs'.file? p).map File.perms = some f.perms

/-- What is kept of a file that nobody can write to. -/
theorem guarded_readOnly (host : Host) (lock : FileMessage) (hf : f.perms &&& writePerms = 0) :
    guarded host lock f = f := by
  unfold guarded
  split
  · rw [(without_eq_iff f.perms writePerms).mpr hf]
  · rfl

/-- **Unlocking** restores the file exactly where nobody could write to it. -/
theorem unlock_restores_iff (hm : filePath unlock.targetFile = p)
    (howner : unlock.originatorNode = lock.originatorNode) (h : Taken host lock p f fs)
    (hrun : processUnlockMessage host true unlock fs = .ok true fs') :
    Restored p f fs' ↔ f.perms &&& writePerms = 0 := by
  obtain ⟨g, hg⟩ := file?_of_lockRecord h.record
  -- The unlock has done nothing, or added what the lock has saved.
  have hdone : fs'.file? (lockFilePath p) ≠ none ∨
      (guarded host lock f).perms &&& writePerms = 0 ∧ fs'.file? (lockFilePath p) = none ∧
        (fs'.file? p).map File.perms = some (guarded host lock f).perms := by
    obtain ⟨-, rfl | ⟨oldLock, oldPerms, hrecord, -, hreleased⟩⟩ := processUnlockMessage_ok hm hrun
    · exact Or.inl (by rw [hg]; exact Option.some_ne_none g)
    · obtain ⟨f', hf', hbits, hfile⟩ := hreleased.file
      obtain rfl := Option.some_inj.mp (h.file.symm.trans hf')
      obtain ⟨-, rfl⟩ := Prod.mk.inj (Option.some_inj.mp (h.record.symm.trans hrecord))
      refine Or.inr ⟨hbits, hreleased.free, ?_⟩
      rw [hfile, hbits]
      simp
  constructor
  · intro hrestored
    obtain hlocked | ⟨hbits, -, hperms⟩ := hdone
    · exact absurd hrestored.free hlocked
    · have hsame := Option.some_inj.mp (hperms.symm.trans hrestored.perms)
      rwa [hsame] at hbits
  · intro hbits
    have hsame := guarded_readOnly host lock hbits
    have hfree := processUnlockMessage_releases hm h.record howner h.file
      (by rwa [hsame]) hrun
    obtain hlocked | ⟨-, -, hperms⟩ := hdone
    · exact absurd hfree hlocked
    · rw [hsame] at hperms
      exact ⟨hfree, hperms⟩

end Taken

/-! ## One node -/

namespace Node

section Undone

variable {env : Setting} {n n' : Node} {lock unlock : FileMessage} {p : FilePath} {f : File}

/-- The message is not about the file: its handler touches neither the file nor its lock. -/
def Beside (p : FilePath) (l : FileOp × Bool) : Prop :=
  p ∉ l.1.touches ∧ lockFilePath p ∉ l.1.touches

theorem handle_lock_ok (hconnected : n.isFinishedConnecting = true) {files : FileSystem}
    (h : processLockMessage env.host true lock n.files = .ok true files) :
    Handled env n (.lock lock, true) { n with files } := by
  show onFiles (processLockMessage env.host n.isFinishedConnecting lock) n = _
  rw [hconnected]
  exact onFiles_ok h

theorem handle_unlock_ok (hconnected : n.isFinishedConnecting = true) {files : FileSystem}
    (h : processUnlockMessage env.host true unlock n.files = .ok true files) :
    Handled env n (.unlock unlock, true) { n with files } := by
  show onFiles (processUnlockMessage env.host n.isFinishedConnecting unlock) n = _
  rw [hconnected]
  exact onFiles_ok h

theorem handled_beside {l : FileOp × Bool} (h : Handled env n l n') (hl : Beside p l)
    (htaken : Taken env.host lock p f n.files) : Taken env.host lock p f n'.files :=
  htaken.congr (handled_frame h hl.1) (handled_frame h hl.2)

theorem run_beside {ls : List (FileOp × Bool)} (run : Trace (Handled env) n ls n')
    (hls : ∀ l ∈ ls, Beside p l) (htaken : Taken env.host lock p f n.files) :
    Taken env.host lock p f n'.files := by
  induction run with
  | nil => exact htaken
  | cons first _ ih =>
    obtain ⟨hfirst, hrest⟩ := List.forall_mem_cons.mp hls
    exact ih hrest (handled_beside first hfirst htaken)

/-- The lock is processed; and once messages about other files have been, so is the unlock, which
restores the file. -/
def Undoes (env : Setting) (n : Node) (lock unlock : FileMessage) (p : FilePath) (f : File) :
    Prop :=
  ∃ n₁, Handled env n (.lock lock, true) n₁ ∧
    ∀ ls n₂, Trace (Handled env) n₁ ls n₂ → (∀ l ∈ ls, Beside p l) →
      n₂.isFinishedConnecting = true →
      ∃ n₃, Handled env n₂ (.unlock unlock, true) n₃ ∧ Restored p f n₃.files

theorem Undoes.readOnly (h : Undoes env n lock unlock p f)
    (hconnected : n.isFinishedConnecting = true)
    (hlock : filePath lock.targetFile = p) (hunlock : filePath unlock.targetFile = p)
    (howner : unlock.originatorNode = lock.originatorNode) (hfits : PathFits lock.targetFile)
    (hf : n.files.file? p = some f) (hfree : LockState env.host.platform n.files p none) :
    (∃ files, processLockMessage env.host true lock n.files = .ok true files) ∧
      f.perms &&& writePerms = 0 := by
  obtain ⟨n₁, htaken, hundone⟩ := h
  obtain ⟨files, hrun, rfl⟩ := handled_lock htaken
  rw [hconnected] at hrun
  refine ⟨⟨files, hrun⟩, ?_⟩
  obtain ⟨n₃, hreleased, hrestored⟩ := hundone [] _ (.nil _) (by simp) hconnected
  obtain ⟨files', hrun', rfl⟩ := handled_unlock hreleased
  have hrun'' : processUnlockMessage env.host n.isFinishedConnecting unlock files =
    .ok true files' := hrun'
  rw [hconnected] at hrun''
  exact (unlock_restores_iff hunlock howner (lock_taken hlock hfits hf hfree hrun)
    hrun'').mp hrestored

end Undone

/-- **Unlocking undoes locking** exactly where nobody could write to the file, and the lock can be
written at all. -/
theorem unlock_undoes_lock_iff (env : Setting) (n : Node) (lock unlock : FileMessage)
    (p : FilePath) (f : File) (hconnected : n.isFinishedConnecting = true)
    (hlock : filePath lock.targetFile = p) (hunlock : filePath unlock.targetFile = p)
    (howner : unlock.originatorNode = lock.originatorNode) (hfits : PathFits lock.targetFile)
    (hf : n.files.file? p = some f) (hfree : LockState env.host.platform n.files p none) :
    Undoes env n lock unlock p f ↔ CanLock n.files p ∧ f.perms &&& writePerms = 0 := by
  rw [← lock_runs_iff hlock hf hfree]
  constructor
  · intro hundoes
    exact hundoes.readOnly hconnected hlock hunlock howner hfits hf hfree
  · intro ⟨⟨files, hrun⟩, hbits⟩
    refine ⟨_, handle_lock_ok hconnected hrun, fun ls n₂ run hls hconnected₂ => ?_⟩
    have htaken := run_beside run hls (lock_taken hlock hfits hf hfree hrun)
    obtain ⟨files', hrun'⟩ := unlock_runs hunlock htaken
    exact ⟨_, handle_unlock_ok hconnected₂ hrun',
      (unlock_restores_iff hunlock howner htaken hrun').mpr hbits⟩

/-- The owner of `foreignLock` unlocks the file again. -/
def ownersUnlock : FileMessage := { foreignLock with type := .unlock }

theorem foreignLock_fits : PathFits foreignLock.targetFile := by
  show PathFits ⟨[100, 111, 99, 115, 47, 97]⟩
  decide

/-- A file that could be written to cannot be any more. -/
theorem permissions_lost : ¬ ∀ (env : Setting) (n : Node) (lock unlock : FileMessage)
    (p : FilePath) (f : File), n.isFinishedConnecting = true →
    filePath lock.targetFile = p → filePath unlock.targetFile = p →
    unlock.originatorNode = lock.originatorNode → PathFits lock.targetFile →
    n.files.file? p = some f → LockState env.host.platform n.files p none →
    Undoes env n lock unlock p f := by
  intro hundoes
  have hfile : unlockedNode.files.file? FileSystem.docsA = some ⟨[], 0o644⟩ := by
    rw [unlockedNode, FileSystem.file?_docs, if_pos rfl]
  have hfree : LockState reader.platform unlockedNode.files FileSystem.docsA none := by
    exact ⟨by decide +kernel, by decide +kernel⟩
  have hundone := hundoes readerSetting unlockedNode foreignLock ownersUnlock FileSystem.docsA
    ⟨[], 0o644⟩ rfl rfl rfl rfl foreignLock_fits hfile hfree
  have hbits := (hundone.readOnly rfl rfl rfl rfl foreignLock_fits hfile hfree).2
  exact absurd hbits (by decide)

/-- A file that nobody could write to is as it was. -/
theorem readOnly_restored : Undoes readerSetting ⟨FileSystem.docs ⟨[], 0o444⟩, [], 0, 0⟩ foreignLock
    ownersUnlock FileSystem.docsA ⟨[], 0o444⟩ := by
  have hfile : (FileSystem.docs ⟨[], 0o444⟩).file? FileSystem.docsA = some ⟨[], 0o444⟩ := by
    rw [FileSystem.file?_docs, if_pos rfl]
  have hfree : LockState reader.platform (FileSystem.docs ⟨[], 0o444⟩) FileSystem.docsA none := by
    exact ⟨by decide +kernel, by decide +kernel⟩
  exact (unlock_undoes_lock_iff readerSetting ⟨FileSystem.docs ⟨[], 0o444⟩, [], 0, 0⟩ foreignLock
    ownersUnlock FileSystem.docsA ⟨[], 0o444⟩ rfl rfl rfl rfl foreignLock_fits
    hfile hfree).mpr ⟨by decide +kernel, by decide⟩

end Node

end WhisperNet
