import WhisperNet.LockEnforcement

/-!
# Writing content

Permissions are added for the time of the write and removed afterwards, whether they were added or
had been there before; and a stream that did not open drops the content, which nobody asks about.

* `faithful_iff_harmless` — when the lock check lets the change through.
* `content_faithful_iff` — when the permissions stay and `true` means that the content was written.
-/

namespace WhisperNet

open Bin Fs Effect

section Faithful

variable {host : Host} {fs : FileSystem} {m : FileContentMessage} {f : File} {added : Perms}

/-- The archive throws, before anything has been changed. -/
theorem processContentFileMessage_unreadable
    (h : UnreadableLock host.platform fs (filePath m.targetFile)) :
    processContentFileMessage host true m fs = .error .archive fs := by
  show (permissionsToAdd host _ _ >>= _) fs = _
  exact bind_error (permissionsToAdd_unreadable m.originatorNode h)

/-- What the node itself allows a change to add to the permissions of the file; `none` if the lock
check rejects it. -/
def allowed (host : Host) (fs : FileSystem) (m : FileContentMessage) : Option Perms :=
  allowance host (lockRecord host.platform fs (filePath m.targetFile)) m.originatorNode

/-- The permissions are left alone, and `true` is returned only for content that has been written,
unless the lock check rejected it. -/
structure Faithful (host : Host) (fs : FileSystem) (m : FileContentMessage) (f : File) : Prop where
  perms : ((final (processContentFileMessage host true m fs)).file? (filePath m.targetFile)).map
    File.perms = some f.perms
  written : ∀ fs', processContentFileMessage host true m fs = .ok true fs' →
    allowed host fs m ≠ none →
    (fs'.file? (filePath m.targetFile)).map File.content = some m.fileContent

/-- Nothing that is added was there before, and the file can be written to with it, or need not
be. Where the file is in no folder, `create_directories` throws, and what has been added stays. -/
def Harmless (host : Host) (m : FileContentMessage) (f : File) (added : Perms) : Prop :=
  if (filePath m.targetFile).dropLast = [] then f.perms ||| added = f.perms
  else f.perms &&& added = 0 ∧ (host.CanWrite (f.perms ||| added) ∨ f.content = m.fileContent)

theorem faithful_of_unchanged (hf : fs.file? (filePath m.targetFile) = some f)
    (hfinal : final (processContentFileMessage host true m fs) = fs)
    (hwritten : allowed host fs m ≠ none →
      ∀ fs', processContentFileMessage host true m fs ≠ .ok true fs') :
    Faithful host fs m f where
  perms := by rw [hfinal, hf]; rfl
  written fs' hrun hallowed := absurd hrun (hwritten hallowed fs')

/-- In no folder, the handler throws after it has added the permissions. -/
theorem processContentFileMessage_stranded (hp : (filePath m.targetFile).dropLast = [])
    (hf : fs.file? (filePath m.targetFile) = some f)
    (hread : ¬ UnreadableLock host.platform fs (filePath m.targetFile))
    (hallowed : allowed host fs m = some added) :
    ∃ fs', processContentFileMessage host true m fs = .error .filesystem fs' ∧
      fs.Sets (filePath m.targetFile) (some { f with perms := f.perms ||| added }) fs' := by
  have hask := permissionsToAdd_ok m.originatorNode (lockState_of_readable hread)
  obtain ⟨fs', hadd, hset⟩ := addPermissions_ok added hf
  have hsave : saveContent host (filePath m.targetFile) m.fileContent fs' =
      .error .filesystem fs' := by
    rw [saveContent, createDirectories, if_pos hp]
    rfl
  refine ⟨fs', ?_, hset⟩
  rw [show allowance host _ m.originatorNode = some added from hallowed] at hask
  show (permissionsToAdd host _ _ >>= _) fs = _
  rw [bind_ok hask]
  show (addPermissions _ added >>= _) fs = _
  rw [bind_ok hadd]
  exact bind_error hsave

theorem faithful_iff_stranded (hp : (filePath m.targetFile).dropLast = [])
    (hf : fs.file? (filePath m.targetFile) = some f)
    (hread : ¬ UnreadableLock host.platform fs (filePath m.targetFile))
    (hallowed : allowed host fs m = some added) :
    Faithful host fs m f ↔ f.perms ||| added = f.perms := by
  obtain ⟨fs', hrun, hset⟩ := processContentFileMessage_stranded hp hf hread hallowed
  constructor
  · intro h
    have hkept := h.perms
    rw [hrun, final, hset.here] at hkept
    exact Option.some_inj.mp hkept
  · intro hkept
    refine ⟨?_, fun fs'' hrun' => ?_⟩
    · rw [hrun, final, hset.here]
      exact congrArg some hkept
    · rw [hrun] at hrun'
      cases hrun'

theorem faithful_iff_written (hp : (filePath m.targetFile).dropLast ≠ [])
    (hf : fs.file? (filePath m.targetFile) = some f)
    (hread : ¬ UnreadableLock host.platform fs (filePath m.targetFile))
    (hallowed : allowed host fs m = some added) :
    Faithful host fs m f ↔
      f.perms &&& added = 0 ∧ (host.CanWrite (f.perms ||| added) ∨ f.content = m.fileContent) := by
  obtain ⟨fs', hrun, hset⟩ :=
    processContentFileMessage_changes (lockState_of_readable hread) hallowed hp hf
  have hperms : (f.perms ||| added) &&& ~~~added = f.perms ↔ f.perms &&& added = 0 := by
    rw [added_removed, without_eq_iff]
  have hcontent : (if host.CanWrite (f.perms ||| added) then m.fileContent else f.content) =
      m.fileContent ↔ host.CanWrite (f.perms ||| added) ∨ f.content = m.fileContent := by
    by_cases hw : host.CanWrite (f.perms ||| added) <;> simp [hw]
  rw [← hperms, ← hcontent]
  constructor
  · intro h
    have hkept := h.perms
    have hwritten := h.written fs' hrun (by rw [hallowed]; exact Option.some_ne_none added)
    rw [hrun] at hkept
    rw [final, hset.here] at hkept
    rw [hset.here] at hwritten
    exact ⟨Option.some_inj.mp hkept, Option.some_inj.mp hwritten⟩
  · intro ⟨hkept, hwritten⟩
    refine ⟨?_, fun fs'' hrun' _ => ?_⟩
    · rw [hrun, final, hset.here]
      exact congrArg some hkept
    · obtain ⟨-, rfl⟩ := EStateM.Result.ok.inj (hrun.symm.trans hrun')
      rw [hset.here]
      exact congrArg some hwritten

theorem faithful_iff_harmless (hf : fs.file? (filePath m.targetFile) = some f)
    (hread : ¬ UnreadableLock host.platform fs (filePath m.targetFile))
    (hallowed : allowed host fs m = some added) :
    Faithful host fs m f ↔ Harmless host m f added := by
  unfold Harmless
  split
  · next hp => exact faithful_iff_stranded hp hf hread hallowed
  · next hp => exact faithful_iff_written hp hf hread hallowed

/-- **Content.** The handler leaves the permissions of an existing file alone and is right about
having written its content exactly if the lock file cannot be read, or the lock check rejects the
change, or none of the permissions it adds were there before, and the file can be written to with
them, or has the content already; in no folder, none of those that were not. -/
theorem content_faithful_iff (host : Host) (fs : FileSystem) (m : FileContentMessage) (f : File)
    (hf : fs.file? (filePath m.targetFile) = some f) :
    Faithful host fs m f ↔ UnreadableLock host.platform fs (filePath m.targetFile) ∨
      ∀ added, allowed host fs m = some added → Harmless host m f added := by
  by_cases hread : UnreadableLock host.platform fs (filePath m.targetFile)
  · have hthrows := processContentFileMessage_unreadable hread
    refine iff_of_true (faithful_of_unchanged hf ?_ ?_) (Or.inl hread)
    · rw [hthrows]
      rfl
    · rw [hthrows]
      exact fun _ fs' hrun => nomatch hrun
  · rw [or_iff_right hread]
    cases hallowed : allowed host fs m with
    | none =>
      have hask := permissionsToAdd_ok m.originatorNode (lockState_of_readable hread)
      rw [show allowance host _ m.originatorNode = none from hallowed] at hask
      refine iff_of_true (faithful_of_unchanged hf ?_ ?_) (fun added hadded => nomatch hadded)
      · rw [processContentFileMessage_refused hask rfl]
        rfl
      · exact fun hne => absurd hallowed hne
    | some added =>
      rw [faithful_iff_harmless hf hread hallowed]
      exact ⟨fun h added' hadded => Option.some_inj.mp hadded ▸ h, fun h => h added rfl⟩

end Faithful

/-! ## A read-only file -/

theorem docs_unlocked (f : File) :
    LockState .littleEndian (FileSystem.docs f) FileSystem.docsA none := by
  have hlock : FileSystem.docsA ≠ lockFilePath FileSystem.docsA := by decide
  have hdirs : lockFilePath FileSystem.docsA ∉ (FileSystem.docs ⟨[], 0⟩).dirs := by decide +kernel
  refine ⟨?_, hdirs⟩
  rw [FileSystem.file?_docs, if_neg hlock]

theorem docs_file (f : File) : (FileSystem.docs f).file? FileSystem.docsA = some f := by
  rw [FileSystem.file?_docs, if_pos rfl]

theorem docs_readable (f : File) :
    ¬ UnreadableLock .littleEndian (FileSystem.docs f) FileSystem.docsA := by
  intro h
  obtain ⟨hfile, hdir⟩ := docs_unlocked f
  exact h.1.elim (fun hmem => FileSystem.file?_ne_none.mpr hmem hfile) hdir

/-- What is allowed to a change of a file that nobody has locked. -/
theorem docs_allowed (f : File) : allowed reader (FileSystem.docs f) ownersEdit = some 0 := by
  show allowance reader (lockRecord _ (FileSystem.docs f) FileSystem.docsA) _ = _
  rw [lockRecord_none (docs_unlocked f).1]
  rfl

/-- Nobody has locked the file and nobody can write to it: the new content is dropped, and the
handler says that it has been processed. -/
theorem readOnly_content_dropped : ¬ ∀ (host : Host) (fs : FileSystem) (m : FileContentMessage)
    (f : File), fs.file? (filePath m.targetFile) = some f →
    Faithful host fs m f := by
  intro hfaithful
  have hkept := hfaithful reader (FileSystem.docs lockedFile) ownersEdit lockedFile
    (docs_file lockedFile)
  have htarget : filePath ownersEdit.targetFile = FileSystem.docsA := rfl
  have hiff := faithful_iff_harmless (m := ownersEdit) (htarget ▸ docs_file lockedFile)
    (htarget ▸ docs_readable lockedFile) (docs_allowed lockedFile)
  have hharmless := hiff.mp hkept
  rw [Harmless, if_neg (by decide)] at hharmless
  exact absurd hharmless.2 (by decide)

/-- A file that can be written to gets the content and keeps its permissions. -/
theorem unlocked_content_written :
    Faithful reader (FileSystem.docs ⟨[111, 108, 100], 0o644⟩) ownersEdit
      ⟨[111, 108, 100], 0o644⟩ := by
  refine (content_faithful_iff reader _ ownersEdit _ (docs_file _)).mpr (Or.inr ?_)
  intro added hadded
  obtain rfl := Option.some_inj.mp ((docs_allowed _).symm.trans hadded)
  rw [Harmless, if_neg (by decide)]
  exact ⟨by decide, Or.inl (by decide)⟩

end WhisperNet
