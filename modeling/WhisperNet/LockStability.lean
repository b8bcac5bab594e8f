import WhisperNet.HandlerRuns

/-!
# Lock stability

What becomes of the lock record of a file while messages other than deletions are processed. The
record stays as it is until its owner unlocks the file or an earlier lock is processed; that lock
then takes its place, and inherits the permissions saved in it.

* `lock_step` — what one message does to the record.
* `lock_stability` — what any sequence of messages does.
-/

namespace WhisperNet

namespace Node

/-- As the message comes off the wire, the timestamp in whole seconds; it targets nothing in a
`.wnts` folder, and deletes nothing. -/
structure Wire (op : FileOp) : Prop where
  fits : op.message.Fits
  whole : ∀ m, op.message.filePart = some m → truncateSeconds m.timestamp = m.timestamp
  outside : ∀ q, op.target? = some q → wnts ∉ q
  keeps : op.type ≠ .deleteFile

/-- A step with such a message while the file is there. -/
structure WireStep (env : Setting) (p : FilePath) (n : Node) (l : FileOp × Bool) (n' : Node) :
    Prop where
  wire : Wire l.1
  file : ∃ f, n.files.file? p = some f
  handled : Handled env n l n'

/-- An unlock of `p` by the owner of the lock has been processed. -/
def Releases (p : FilePath) (lock : FileMessage) : FileOp × Bool → Prop
  | (.unlock m, true) => filePath m.targetFile = p ∧ m.originatorNode = lock.originatorNode
  | _ => False

/-- A lock of `p` that is earlier has been processed. -/
def TakesOver (p : FilePath) (lock : FileMessage) : FileOp × Bool → Prop
  | (.lock m, true) => filePath m.targetFile = p ∧ m.timestamp < lock.timestamp
  | _ => False

/-! ## One message -/

section Step

variable {env : Setting} {n n' : Node} {p : FilePath} {op : FileOp} {processed : Bool}
  {lock : FileMessage} {s : Perms}

/-- A locked file is in a folder: otherwise it would have to be one itself. -/
theorem two_le_length_of_lock {fs : FileSystem} {f g : File} (hf : fs.file? p = some f)
    (hg : fs.file? (lockFilePath p) = some g) : 2 ≤ p.length := by
  have hfolder := fs.parent_file _ (FileSystem.mem_files_of_file? hg)
  have hfile := fs.disjoint p (FileSystem.mem_files_of_file? hf)
  match p with
  | [] => exact absurd fs.root hfile
  | [_] => exact absurd hfolder hfile
  | _ :: _ :: _ => simp

/-- What is outside of `.wnts` is not the lock of `p`, and only `p` has that lock. -/
theorem lockFilePath_ne_target {q : FilePath} (hp : 2 ≤ p.length) (hq : wnts ∉ q) :
    lockFilePath p ≠ q := by
  intro heq
  exact hq (heq ▸ wnts_mem_lockFilePath hp)

theorem not_touched_of_ne {m : FileMessage} (hp : 2 ≤ p.length) (hq : wnts ∉ filePath m.targetFile)
    (hne : filePath m.targetFile ≠ p) :
    lockFilePath p ∉ [filePath m.targetFile, lockFilePath (filePath m.targetFile)] := by
  simp only [List.mem_cons, List.not_mem_nil, or_false, not_or]
  exact ⟨lockFilePath_ne_target hp hq, fun heq => hne (lockFilePath_inj heq).symm⟩

/-- A lock keeps the record, or takes it over if it is earlier. -/
theorem lock_step_lock {m : FileMessage} (hp : 2 ≤ p.length) (hwire : Wire (.lock m)) {f : File}
    (hf : n.files.file? p = some f) (hlock : n.lock? env.host p = some (lock, s))
    (h : Handled env n (.lock m, processed) n') :
    n'.lock? env.host p = some (lock, s) ∧ ¬ TakesOver p lock (.lock m, processed) ∨
      TakesOver p lock (.lock m, processed) ∧
        n'.lock? env.host p = some (m.received, s &&& writePerms) := by
  by_cases htarget : filePath m.targetFile = p
  · have hmanaged : Managed p := ⟨hp, htarget ▸ hwire.outside _ rfl⟩
    obtain ⟨files, hrun, rfl⟩ := handled_lock h
    cases hconnected : n.isFinishedConnecting with
    | false =>
      rw [hconnected] at hrun
      obtain ⟨rfl, rfl⟩ := EStateM.Result.ok.inj hrun
      exact Or.inl ⟨hlock, id⟩
    | true =>
      rw [hconnected] at hrun
      obtain ⟨rfl, hdone⟩ := processLockMessage_ok htarget hwire.fits hf hrun
      rcases hdone with ⟨hfree, -⟩ | ⟨oldLock, oldPerms, hold, hdone⟩
      · obtain ⟨g, hg⟩ := file?_of_lockRecord hlock
        rw [hfree] at hg
        cases hg
      · obtain ⟨rfl, rfl⟩ := Prod.mk.inj (Option.some_inj.mp (hlock.symm.trans hold))
        by_cases hearlier : m.timestamp < lock.timestamp
        · rw [if_pos hearlier] at hdone
          exact Or.inr ⟨⟨htarget, hearlier⟩, hdone.record⟩
        · rw [if_neg hearlier] at hdone
          subst hdone
          exact Or.inl ⟨hlock, fun htakes => hearlier htakes.2⟩
  · have hkept := lock?_frame h (not_touched_of_ne hp (hwire.outside _ rfl) htarget)
    refine Or.inl ⟨hkept.trans hlock, fun htakes => ?_⟩
    cases processed with
    | true => exact htarget htakes.1
    | false => exact htakes

/-- An unlock keeps the record, or removes it if it is the owner's. -/
theorem lock_step_unlock {m : FileMessage} (hp : 2 ≤ p.length) (hwire : Wire (.unlock m))
    (hlock : n.lock? env.host p = some (lock, s)) (h : Handled env n (.unlock m, processed) n') :
    n'.lock? env.host p = some (lock, s) ∨ Releases p lock (.unlock m, processed) := by
  by_cases htarget : filePath m.targetFile = p
  · obtain ⟨files, hrun, rfl⟩ := handled_unlock h
    cases hconnected : n.isFinishedConnecting with
    | false =>
      rw [hconnected] at hrun
      obtain ⟨rfl, rfl⟩ := EStateM.Result.ok.inj hrun
      exact Or.inl hlock
    | true =>
      rw [hconnected] at hrun
      obtain ⟨rfl, hsame | ⟨oldLock, oldPerms, hold, howner, -⟩⟩ :=
        processUnlockMessage_ok htarget hrun
      · subst hsame
        exact Or.inl hlock
      · obtain ⟨rfl, rfl⟩ := Prod.mk.inj (Option.some_inj.mp (hlock.symm.trans hold))
        exact Or.inr ⟨htarget, howner⟩
  · have hkept := lock?_frame h (not_touched_of_ne hp (hwire.outside _ rfl) htarget)
    exact Or.inl (hkept.trans hlock)

/-- **One message** keeps the record, takes it over, or is its owner's unlock. -/
theorem lock_step (hlock : n.lock? env.host p = some (lock, s)) {l : FileOp × Bool}
    (h : WireStep env p n l n') :
    n'.lock? env.host p = some (lock, s) ∧ ¬ TakesOver p lock l ∨
      (∃ m, l = (.lock m, true) ∧ TakesOver p lock l ∧
        n'.lock? env.host p = some (m.received, s &&& writePerms)) ∨
      Releases p lock l := by
  obtain ⟨op, processed⟩ := l
  obtain ⟨f, hf⟩ := h.file
  obtain ⟨g, hg⟩ := file?_of_lockRecord hlock
  have hp := two_le_length_of_lock hf hg
  cases op with
  | lock m =>
    rcases lock_step_lock hp h.wire hf hlock h.handled with hkept | ⟨htakes, htaken⟩
    · exact Or.inl hkept
    · cases processed with
      | true => exact Or.inr (Or.inl ⟨m, rfl, htakes, htaken⟩)
      | false => exact htakes.elim
  | unlock m =>
    rcases lock_step_unlock hp h.wire hlock h.handled with hkept | hreleases
    · exact Or.inl ⟨hkept, id⟩
    · exact Or.inr (Or.inr hreleases)
  | deleteFile m => exact absurd rfl h.wire.keeps
  | contentChange m =>
    have houtside := lockFilePath_ne_target hp (h.wire.outside _ rfl)
    have hkept := lock?_frame (p := p) h.handled (by simpa [FileOp.touches] using houtside)
    exact Or.inl ⟨hkept.trans hlock, id⟩
  | initialSync m =>
    have houtside := lockFilePath_ne_target hp (h.wire.outside _ rfl)
    have hkept := lock?_frame (p := p) h.handled (by simpa [FileOp.touches] using houtside)
    exact Or.inl ⟨hkept.trans hlock, id⟩
  | disconnect m =>
    have hkept := lock?_frame (p := p) h.handled (List.not_mem_nil)
    exact Or.inl ⟨hkept.trans hlock, id⟩

end Step

/-! ## Any messages -/

section Runs

variable {env : Setting} {n n' : Node} {p : FilePath} {ls : List (FileOp × Bool)}
  {lock : FileMessage} {s : Perms}

/-- Neither a release nor an earlier lock: the record stays. -/
theorem lock_kept (hlock : n.lock? env.host p = some (lock, s))
    (trace : Trace (WireStep env p) n ls n')
    (h : ∀ l ∈ ls, ¬ Releases p lock l ∧ ¬ TakesOver p lock l) :
    n'.lock? env.host p = some (lock, s) := by
  have hrun := trace.preserved (fun n => n.lock? env.host p = some (lock, s))
    (fun l => Releases p lock l ∨ TakesOver p lock l) hlock ?_
  · rcases hrun with hkept | ⟨l, hl, hreleases | htakes⟩
    · exact hkept
    · exact absurd hreleases (h l hl).1
    · exact absurd htakes (h l hl).2
  · intro t l u ht hstep hl
    rcases lock_step ht hstep with hkept | ⟨m, -, htakes, -⟩ | hreleases
    · exact hkept.1
    · exact absurd (Or.inr htakes) hl
    · exact absurd (Or.inl hreleases) hl

/-- An earlier lock that has been processed holds, with the permissions saved before. -/
theorem lock_taken_over {m : FileMessage} (hsaved : s &&& writePerms = s)
    (hlock : n.lock? env.host p = some (lock, s)) (hm : TakesOver p lock (.lock m, true))
    (h : WireStep env p n (.lock m, true) n') :
    n'.lock? env.host p = some (m.received, s) ∧ m.received.timestamp = m.timestamp := by
  have hwhole : truncateSeconds m.timestamp = m.timestamp := h.wire.whole m rfl
  refine ⟨?_, hwhole⟩
  rcases lock_step hlock h with ⟨-, hnot⟩ | ⟨m', heq, -, htaken⟩ | hreleases
  · exact absurd hm hnot
  · cases heq
    rw [htaken, hsaved]
  · exact hreleases.elim

/-- Until it is released the record gets no later. -/
theorem lock_descends (hsaved : s &&& writePerms = s) (hlock : n.lock? env.host p = some (lock, s))
    (trace : Trace (WireStep env p) n ls n') :
    (∃ lock', n'.lock? env.host p = some (lock', s) ∧ lock'.timestamp ≤ lock.timestamp) ∨
      ∃ before a l b after, ls = before ++ l :: after ∧ Trace (WireStep env p) n before a ∧
        (∃ lock', a.lock? env.host p = some (lock', s) ∧ Releases p lock' l) ∧
        WireStep env p a l b ∧ Trace (WireStep env p) b after n' := by
  have hstart : ∃ lock', n.lock? env.host p = some (lock', s) ∧
      lock'.timestamp ≤ lock.timestamp := ⟨lock, hlock, Int64.le_refl _⟩
  have hrun := trace.holds_or_breaks
    (fun n => ∃ lock', n.lock? env.host p = some (lock', s) ∧ lock'.timestamp ≤ lock.timestamp)
    (fun n l => ∃ lock', n.lock? env.host p = some (lock', s) ∧ Releases p lock' l) hstart ?_
  · rcases hrun with hholds | ⟨before, a, l, b, after, hls, hbefore, -, hbreaks, hstep, hafter⟩
    · exact Or.inl hholds
    · exact Or.inr ⟨before, a, l, b, after, hls, hbefore, hbreaks, hstep, hafter⟩
  · rintro t l u ⟨lock', ht, hle⟩ hstep hl
    rcases lock_step ht hstep with ⟨hkept, -⟩ | ⟨m, rfl, htakes, -⟩ | hreleases
    · exact ⟨lock', hkept, hle⟩
    · obtain ⟨htaken, htime⟩ := lock_taken_over hsaved ht htakes hstep
      refine ⟨m.received, htaken, ?_⟩
      rw [htime]
      exact Int64.le_trans (Int64.le_of_lt htakes.2) hle
    · exact absurd ⟨lock', ht, hreleases⟩ hl

end Runs

/-- **Lock stability.** A lock record stays as it is until its owner's unlock or an earlier lock has
been processed. The earlier lock takes its place, with the permissions saved in it. As long as the
owner of the record has not released it there is one, and its timestamp does not increase. -/
theorem lock_stability (env : Setting) (p : FilePath) (n n' : Node) (ls : List (FileOp × Bool))
    (lock : FileMessage) (s : Perms) (hsaved : s &&& writePerms = s)
    (hlock : n.lock? env.host p = some (lock, s)) (trace : Trace (WireStep env p) n ls n') :
    ((∀ l ∈ ls, ¬ Releases p lock l ∧ ¬ TakesOver p lock l) →
      n'.lock? env.host p = some (lock, s)) ∧
    (∀ before m, ls = before ++ [(.lock m, true)] →
      (∀ l ∈ before, ¬ Releases p lock l ∧ ¬ TakesOver p lock l) →
      TakesOver p lock (.lock m, true) →
      ∃ lock', n'.lock? env.host p = some (lock', s) ∧
        lock'.originatorNode = m.originatorNode ∧ lock'.timestamp = m.timestamp) ∧
    ((∃ lock', n'.lock? env.host p = some (lock', s) ∧ lock'.timestamp ≤ lock.timestamp) ∨
      ∃ before a l b after, ls = before ++ l :: after ∧ Trace (WireStep env p) n before a ∧
        (∃ lock', a.lock? env.host p = some (lock', s) ∧ Releases p lock' l) ∧
        WireStep env p a l b ∧ Trace (WireStep env p) b after n') := by
  refine ⟨lock_kept hlock trace, ?_, lock_descends hsaved hlock trace⟩
  rintro before m rfl hbefore htakes
  obtain ⟨a, hrun, hlast⟩ := trace.split
  have ha := lock_kept hlock hrun hbefore
  cases hlast with
  | cons hstep hnil =>
    cases hnil
    obtain ⟨htaken, htime⟩ := lock_taken_over hsaved ha htakes hstep
    exact ⟨m.received, htaken, rfl, htime⟩

/-! ## An earlier lock -/

/-- The node of `reader` has finished connecting, and `docs/a` is locked. -/
def lockedNode : Node := ⟨lockedDocs, [], 0, 0⟩

/-- A third node locked `docs/a` a second earlier. -/
def earlierLock : FileMessage :=
  { foreignLock with originatorNode := .ipv4 0x0a000003, timestamp := -1000000000 }

def takenOver : Node := Effect.final (handle readerSetting (.lock earlierLock) lockedNode)

theorem earlierLock_step :
    WireStep readerSetting FileSystem.docsA lockedNode (.lock earlierLock, true) takenOver where
  wire := by
    refine ⟨?_, ?_, ?_, by decide⟩
    · show PathFits ⟨[100, 111, 99, 115, 47, 97]⟩
      decide
    · intro m hm
      cases hm
      decide
    · intro q hq
      cases hq
      decide
  file := ⟨lockedFile, lockedDocs_file⟩
  handled := Effect.eq_ok_of_value (by decide)

theorem docs_taken_over :
    ∃ lock', takenOver.lock? reader FileSystem.docsA = some (lock', 0) ∧
      lock'.originatorNode = earlierLock.originatorNode ∧
      lock'.timestamp = earlierLock.timestamp :=
  (lock_stability readerSetting FileSystem.docsA lockedNode takenOver [(.lock earlierLock, true)]
    foreignLock.received 0 (by decide) lockedDocs_lock (.cons earlierLock_step (.nil _))).2.1
    [] earlierLock rfl (fun _ h => absurd h List.not_mem_nil) ⟨by decide, by decide⟩

end Node

end WhisperNet
