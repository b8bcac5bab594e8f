import WhisperNet.HandlerRuns

/-!
# Write exclusion

Who may write to a file is a matter of its permissions: while another node has locked it all its
write permissions should be gone, and otherwise it should have those it came with. The handlers do
not see to that: a lock saves the permissions after taking them away, a lock that takes over another
one does not look at them, and a change of ours takes them away for good.

* `Hazard` — the messages that break the rule.
* `standing_step` — a message that is no hazard keeps the invariant.
* `write_exclusion` — no run without hazards breaks the rule.
-/

namespace WhisperNet

open Bin Fs Effect

namespace Node

/-! ## The rule -/

/-- A node, and the write permissions its files had at the start or when they were created. -/
structure Watched where
  node : Node
  original : FilePath → Perms

/-- A file that was not there before has the permissions it is created with. -/
def Watched.next (w : Watched) (n' : Node) : Watched where
  node := n'
  original p :=
    if w.node.files.file? p = none then (n'.files.file? p).elim 0 File.writeBits
    else w.original p

/-- The rule for the file `f` under `p`. -/
structure Excludes (host : Host) (w : Watched) (p : FilePath) (f : File) : Prop where
  others : ∀ lock s, w.node.lock? host p = some (lock, s) →
    lock.originatorNode ≠ host.self → f.writeBits = 0
  ours : ∀ lock s, w.node.lock? host p = some (lock, s) →
    lock.originatorNode = host.self → f.writeBits = w.original p
  unlocked : w.node.files.file? (lockFilePath p) = none → f.writeBits = w.original p

/-- Write exclusion: every managed file that exists goes by the rule. -/
def WriteExclusion (host : Host) (w : Watched) : Prop :=
  ∀ p, Managed p → ∀ f, w.node.files.file? p = some f → Excludes host w p f

/-! ## What breaks it -/

/-- A message that breaks the rule for `p`: a lock that takes over from another node for us or from
us for another node, another node's unlock of its lock, and our change to a file we have locked. -/
def Hazard (host : Host) (n : Node) (p : FilePath) : FileOp → Prop
  | .lock m => filePath m.targetFile = p ∧ ∃ old s, n.lock? host p = some (old, s) ∧
    m.timestamp < old.timestamp ∧
    ¬ (m.originatorNode = host.self ↔ old.originatorNode = host.self)
  | .unlock m => filePath m.targetFile = p ∧ ∃ old s, n.lock? host p = some (old, s) ∧
    m.originatorNode = old.originatorNode ∧ old.originatorNode ≠ host.self
  | .contentChange m => filePath m.targetFile = p ∧ ∃ old s, n.lock? host p = some (old, s) ∧
    old.originatorNode = host.self ∧ m.originatorNode = host.self
  | _ => False

/-- The message is no hazard, if it is processed, for a file that may be written to at all; and it
touches no lock there is but that of its target, as a message does that targets the lock file itself
or that deletes a file whose hash would be kept there, nor writes such a lock. -/
structure Careful (host : Host) (w : Watched) (op : FileOp) : Prop where
  avoids : w.node.isFinishedConnecting = true → ∀ p, Managed p → w.original p ≠ 0 →
    ∀ f, w.node.files.file? p = some f → ¬ Hazard host w.node p op
  apart : ∀ p, Managed p → op.target? ≠ some p → lockFilePath p ∈ op.touches →
    w.node.files.file? (lockFilePath p) = none ∧ ∀ m, op ≠ .initialSync m

/-- A step of a node that is watched. -/
structure WatchedStep (env : Setting) (w : Watched) (l : FileOp × Bool) (w' : Watched) : Prop where
  fits : l.1.message.Fits
  handled : Handled env w.node l w'.node
  next : w' = w.next w'.node

/-- A step with a message that is no hazard. -/
structure CarefulStep (env : Setting) (w : Watched) (l : FileOp × Bool) (w' : Watched) :
    Prop extends WatchedStep env w l w' where
  careful : Careful env.host w l.1

/-! ## The invariant -/

/-- The write permissions due to a file that `owner` has locked. -/
def due (host : Host) (w : Watched) (p : FilePath) (owner : IpAddress) : Perms :=
  if owner = host.self then w.original p else 0

/-- What holds of `p`: the file has the permissions due to it, and its lock will give it no more. -/
inductive Standing (host : Host) (w : Watched) (p : FilePath) : Prop
  | free (f : File) (file : w.node.files.file? p = some f)
      (unlocked : w.node.files.file? (lockFilePath p) = none) (bits : f.writeBits = w.original p)
  | locked (f : File) (lock : FileMessage) (s : Perms) (file : w.node.files.file? p = some f)
      (record : w.node.lock? host p = some (lock, s))
      (bits : f.writeBits = due host w p lock.originatorNode)
      (saved : s &&& writePerms = due host w p lock.originatorNode)
  | missing (file : w.node.files.file? p = none)
      (unlocked : w.node.files.file? (lockFilePath p) = none)
  | folder (dir : IsDir p w.node.files)

section Invariant

variable {host : Host} {w : Watched} {n' : Node} {p : FilePath} {f f' : File}

theorem next_original (hf : w.node.files.file? p = some f) :
    (w.next n').original p = w.original p := by
  have hne : w.node.files.file? p ≠ none := by
    rw [hf]
    exact Option.some_ne_none f
  exact if_neg hne

theorem next_original_new (hf : w.node.files.file? p = none)
    (hf' : n'.files.file? p = some f') : (w.next n').original p = f'.writeBits := by
  show (if w.node.files.file? p = none then _ else _) = _
  rw [if_pos hf, hf']
  rfl

theorem next_due (hf : w.node.files.file? p = some f) (owner : IpAddress) :
    due host (w.next n') p owner = due host w p owner := by
  rw [due, due, next_original hf]

theorem no_record {n : Node} (h : n.files.file? (lockFilePath p) = none) :
    n.lock? host p = none :=
  lockRecord_none h

/-- The invariant implies the rule. -/
theorem Standing.excludes (h : Standing host w p) (hf : w.node.files.file? p = some f) :
    Excludes host w p f := by
  cases h with
  | free g hg hunlocked hbits =>
    obtain rfl := Option.some_inj.mp (hf.symm.trans hg)
    have hnone : w.node.lock? host p = none := no_record hunlocked
    refine ⟨fun lock s hlock => ?_, fun lock s hlock => ?_, fun _ => hbits⟩
    · rw [hnone] at hlock
      cases hlock
    · rw [hnone] at hlock
      cases hlock
  | locked g old s hg hrecord hbits hsaved =>
    obtain rfl := Option.some_inj.mp (hf.symm.trans hg)
    refine ⟨fun lock t hlock hother => ?_, fun lock t hlock hself => ?_, fun hunlocked => ?_⟩
    · obtain ⟨rfl, rfl⟩ := Prod.mk.inj (Option.some_inj.mp (hrecord.symm.trans hlock))
      rw [hbits, due, if_neg hother]
    · obtain ⟨rfl, rfl⟩ := Prod.mk.inj (Option.some_inj.mp (hrecord.symm.trans hlock))
      rw [hbits, due, if_pos hself]
    · rw [no_record hunlocked] at hrecord
      cases hrecord
  | missing hg _ =>
    rw [hf] at hg
    cases hg
  | folder hdir => exact absurd (hf.symm.trans hdir.file?) (Option.some_ne_none f)

/-- The file may be replaced by one with the same write permissions. -/
theorem Standing.rewritten (h : Standing host w p) (hf : w.node.files.file? p = some f)
    (hf' : n'.files.file? p = some f') (hbits : f'.writeBits = f.writeBits)
    (hlock : n'.files.file? (lockFilePath p) = w.node.files.file? (lockFilePath p)) :
    Standing host (w.next n') p := by
  cases h with
  | free g hg hunlocked hg' =>
    obtain rfl := Option.some_inj.mp (hf.symm.trans hg)
    exact .free f' hf' (hlock.trans hunlocked) (by rw [hbits, hg', next_original hf])
  | locked g old s hg hrecord hg' hsaved =>
    obtain rfl := Option.some_inj.mp (hf.symm.trans hg)
    refine .locked f' old s hf' ((lockRecord_congr hlock).trans hrecord) ?_ ?_
    · rw [hbits, hg', next_due hf]
    · rw [hsaved, next_due hf]
  | missing hg _ =>
    rw [hf] at hg
    cases hg
  | folder hdir => exact absurd (hf.symm.trans hdir.file?) (Option.some_ne_none f)

/-- A file may appear where there was none. -/
theorem Standing.created (h : Standing host w p) (hf : w.node.files.file? p = none)
    (hlock : n'.files.file? (lockFilePath p) = w.node.files.file? (lockFilePath p))
    (hdir : IsDir p w.node.files → IsDir p n'.files) : Standing host (w.next n') p := by
  cases h with
  | free f hg =>
    rw [hf] at hg
    cases hg
  | locked f lock s hg =>
    rw [hf] at hg
    cases hg
  | missing _ hunlocked =>
    have hunlocked' := hlock.trans hunlocked
    cases hf' : n'.files.file? p with
    | none => exact .missing hf' hunlocked'
    | some f' => exact .free f' hf' hunlocked' (next_original_new hf hf').symm
  | folder hd => exact .folder (hdir hd)

/-- Nothing has changed for `p`. -/
theorem Standing.same (h : Standing host w p)
    (hfile : n'.files.file? p = w.node.files.file? p)
    (hlock : n'.files.file? (lockFilePath p) = w.node.files.file? (lockFilePath p))
    (hdir : IsDir p w.node.files → IsDir p n'.files) : Standing host (w.next n') p := by
  cases hf : w.node.files.file? p with
  | some f => exact h.rewritten hf (hfile.trans hf) rfl hlock
  | none => exact h.created hf hlock hdir

end Invariant

/-! ## One message -/

section Step

variable {host : Host} {w : Watched} {p : FilePath} {files : FileSystem} {b : Bool}

/-- The lock of `p` has been written, and saves what is due to the file under its owner. -/
theorem standing_written {m : FileMessage} {f f' : File} {s : Perms} {fs : FileSystem}
    (hp : Managed p) (hf : w.node.files.file? p = some f) (hf' : fs.file? p = some f')
    (hwritten : LockWritten host m p (s &&& writePerms) fs files)
    (hbits : f'.writeBits = due host w p m.originatorNode)
    (hsaved : s &&& writePerms = due host w p m.originatorNode) :
    Standing host (w.next { w.node with files }) p := by
  have hfile : files.file? p = some f' := (hwritten.frame p (lockFilePath_ne hp)).trans hf'
  refine .locked f' m.received (s &&& writePerms) hfile hwritten.record ?_ ?_
  · rw [hbits, next_due hf]
    rfl
  · rw [masked_bits, hsaved, next_due hf]
    rfl

/-- What is due under the old lock is due under the new one, if that is no hazard. -/
theorem due_eq {old m : FileMessage} (h : w.original p ≠ 0 →
      (m.originatorNode = host.self ↔ old.originatorNode = host.self)) :
    due host w p m.originatorNode = due host w p old.originatorNode := by
  by_cases horiginal : w.original p = 0
  · rw [due, due, horiginal, ite_self, ite_self]
  · rw [due, due]
    exact if_congr (h horiginal) rfl rfl

theorem standing_lock {m : FileMessage} (h : Standing host w p) (hp : Managed p)
    (hm : filePath m.targetFile = p) (hfits : PathFits m.targetFile)
    (hsafe : w.node.isFinishedConnecting = true → ∀ f, w.node.files.file? p = some f →
      w.original p ≠ 0 → ¬ Hazard host w.node p (.lock m))
    (hrun : processLockMessage host w.node.isFinishedConnecting m w.node.files = .ok b files) :
    Standing host (w.next { w.node with files }) p := by
  cases hconnected : w.node.isFinishedConnecting with
  | false =>
    rw [hconnected] at hrun
    obtain ⟨-, rfl⟩ := EStateM.Result.ok.inj hrun
    exact h.same rfl rfl id
  | true =>
    rw [hconnected] at hrun
    cases h with
    | free f hf hunlocked hbits =>
      rcases (processLockMessage_ok hm hfits hf hrun).2 with
        ⟨-, fs₁, hset, hwritten⟩ | ⟨old, s, hrecord, -⟩
      · have hguarded : (guarded host m f).writeBits = due host w p m.originatorNode := by
          unfold guarded due
          by_cases hself : m.originatorNode = host.self
          · rw [if_neg (not_not.mpr hself), if_pos hself, hbits]
          · rw [if_pos hself, if_neg hself]
            exact cleared_bits f.perms
        exact standing_written hp hf hset.here hwritten hguarded hguarded
      · obtain ⟨g, hg⟩ := file?_of_lockRecord hrecord
        rw [hunlocked] at hg
        cases hg
    | locked f lock s hf hrecord hbits hsaved =>
      rcases (processLockMessage_ok hm hfits hf hrun).2 with
        ⟨hunlocked, -⟩ | ⟨old, t, hold, hdone⟩
      · rw [no_record hunlocked] at hrecord
        cases hrecord
      · obtain ⟨rfl, rfl⟩ := Prod.mk.inj (Option.some_inj.mp (hrecord.symm.trans hold))
        by_cases hearlier : m.timestamp < lock.timestamp
        · rw [if_pos hearlier] at hdone
          have hdue : due host w p m.originatorNode = due host w p lock.originatorNode := by
            refine due_eq fun horiginal => ?_
            by_contra hsides
            exact hsafe hconnected f hf horiginal ⟨hm, lock, s, hrecord, hearlier, hsides⟩
          exact standing_written hp hf hf hdone (hbits.trans hdue.symm) (hsaved.trans hdue.symm)
        · rw [if_neg hearlier] at hdone
          subst hdone
          exact Standing.same (.locked f lock s hf hrecord hbits hsaved) rfl rfl id
    | missing hf hunlocked =>
      by_cases hdir : IsDir p w.node.files
      · exact .folder ((keeps_lock m sparedByWriting_isDir).ok hrun hdir)
      · obtain rfl := processLockMessage_missing hm hf hdir hrun
        exact Standing.same (.missing hf hunlocked) rfl rfl id
    | folder hdir =>
      exact .folder ((keeps_lock m sparedByWriting_isDir).ok hrun hdir)

theorem standing_unlock {m : FileMessage} (h : Standing host w p)
    (hm : filePath m.targetFile = p)
    (hsafe : w.node.isFinishedConnecting = true → ∀ f, w.node.files.file? p = some f →
      w.original p ≠ 0 → ¬ Hazard host w.node p (.unlock m))
    (hrun : processUnlockMessage host w.node.isFinishedConnecting m w.node.files =
      .ok b files) : Standing host (w.next { w.node with files }) p := by
  cases hconnected : w.node.isFinishedConnecting with
  | false =>
    rw [hconnected] at hrun
    obtain ⟨-, rfl⟩ := EStateM.Result.ok.inj hrun
    exact h.same rfl rfl id
  | true =>
    rw [hconnected] at hrun
    rcases (processUnlockMessage_ok hm hrun).2 with rfl | ⟨old, t, hold, howner, hreleased⟩
    · exact h.same rfl rfl id
    · have hold : w.node.lock? host p = some (old, t) := hold
      obtain ⟨f, hf, hcleared, hf'⟩ := hreleased.file
      refine .free _ hf' hreleased.free ?_
      -- The file had no write permissions, so none are due to it and none were saved.
      have hnone : f.writeBits = 0 := hcleared
      have hdue : due host w p old.originatorNode = 0 ∧ t &&& writePerms = 0 := by
        cases h with
        | free g hg hunlocked =>
          rw [no_record hunlocked] at hold
          cases hold
        | locked g lock s hg hrecord hbits hsaved =>
          obtain rfl := Option.some_inj.mp (hf.symm.trans hg)
          obtain ⟨rfl, rfl⟩ := Prod.mk.inj (Option.some_inj.mp (hrecord.symm.trans hold))
          exact ⟨hbits.symm.trans hnone, hsaved.trans (hbits.symm.trans hnone)⟩
        | missing hg =>
          rw [hf] at hg
          cases hg
        | folder hdir => exact absurd (hf.symm.trans hdir.file?) (Option.some_ne_none f)
      have horiginal : w.original p = 0 := by
        by_contra hne
        by_cases hself : old.originatorNode = host.self
        · rw [due, if_pos hself] at hdue
          exact hne hdue.1
        · exact hsafe hconnected f hf hne ⟨hm, old, t, hold, howner, hself⟩
      rw [next_original hf, horiginal]
      show (f.perms ||| t) &&& writePerms = 0
      rw [added_bits, hcleared, hdue.2, UInt32.or_self]

/-- Permissions are only added for a change where the file has none, or may have none. -/
theorem standing_allowance {m : FileContentMessage} {f : File} {perms : Perms}
    (h : Standing host w p) (hf : w.node.files.file? p = some f)
    (hallowed : allowance host (w.node.lock? host p) m.originatorNode = some perms)
    (hsafe : w.original p ≠ 0 → ¬ Hazard host w.node p (.contentChange m))
    (hm : filePath m.targetFile = p) : perms = 0 ∨ f.writeBits = 0 := by
  cases h with
  | free g hg hunlocked =>
    rw [no_record hunlocked] at hallowed
    exact Or.inl (Option.some_inj.mp hallowed).symm
  | locked g lock s hg hrecord hbits =>
    obtain rfl := Option.some_inj.mp (hf.symm.trans hg)
    rw [hrecord] at hallowed
    by_cases hself : lock.originatorNode = host.self
    · by_cases hip : lock.originatorNode = m.originatorNode
      · right
        rw [hbits, due, if_pos hself]
        by_contra hne
        exact hsafe hne ⟨hm, lock, s, hrecord, hself, hip.symm.trans hself⟩
      · rw [allowance_forbidden hself hip] at hallowed
        exact Or.inl (Option.some_inj.mp hallowed).symm
    · rw [allowance_other hself] at hallowed
      cases hallowed
  | missing hg =>
    rw [hf] at hg
    cases hg
  | folder hdir => exact absurd (hf.symm.trans hdir.file?) (Option.some_ne_none f)

theorem standing_content {m : FileContentMessage} (h : Standing host w p) (hp : Managed p)
    (hm : filePath m.targetFile = p)
    (hsafe : w.node.isFinishedConnecting = true → ∀ f, w.node.files.file? p = some f →
      w.original p ≠ 0 → ¬ Hazard host w.node p (.contentChange m))
    (hlock : files.file? (lockFilePath p) = w.node.files.file? (lockFilePath p))
    (hdir : IsDir p w.node.files → IsDir p files)
    (hrun : processContentFileMessage host w.node.isFinishedConnecting m w.node.files =
      .ok b files) : Standing host (w.next { w.node with files }) p := by
  cases hf : w.node.files.file? p with
  | none =>
    by_cases hd : IsDir p w.node.files
    · exact .folder (hdir hd)
    · obtain rfl := processContentFileMessage_missing hm hf hd hrun
      exact h.same rfl rfl id
  | some f =>
    cases hconnected : w.node.isFinishedConnecting with
    | false =>
      rw [hconnected] at hrun
      obtain ⟨-, rfl⟩ := EStateM.Result.ok.inj hrun
      exact h.same rfl rfl id
    | true =>
      rw [hconnected] at hrun
      have hdone := (processContentFileMessage_ok hm hp hf hrun).2
      cases hallowed : allowance host (lockRecord host.platform w.node.files p)
          m.originatorNode with
      | none =>
        rw [hallowed] at hdone
        subst hdone
        exact h.same rfl rfl id
      | some perms =>
        rw [hallowed] at hdone
        obtain ⟨content, hset⟩ := hdone
        refine h.rewritten hf hset.here ?_ hlock
        show (f.perms ||| perms) &&& ~~~perms &&& writePerms = f.perms &&& writePerms
        rcases standing_allowance h hf hallowed (hsafe hconnected f hf) hm with rfl | hnone
        · rw [UInt32.or_zero, UInt32.and_assoc]
          rfl
        · have hcleared : f.perms &&& writePerms = 0 := hnone
          rw [removed_bits, hcleared, UInt32.zero_and]

/-- The lock of a folder is a file in it, where that of a file is in `.wnts`. If `p` is such a file,
a lock of the folder may write to it, and leaves it its permissions. -/
theorem lock_writes {m : FileMessage} {connected : Bool} {bits : Perms}
    (hm : lockFilePath (filePath m.targetFile) = p) (hne : filePath m.targetFile ≠ p) :
    Keeps (fun fs => (fs.file? p).map File.writeBits = some bits)
      (processLockMessage host connected m) := by
  have hframe {α : Type} {x : Fs α} (h : ∀ f, Keeps (FileIs p f) x) :
      Keeps (fun fs => (fs.file? p).map File.writeBits = some bits) x :=
    keeps_of_file (Q := fun f => f.map File.writeBits = some bits) h
  refine keeps_processLockMessage m (hframe fun _ => keeps_permissions _ hne)
    (hframe fun _ => keeps_createDirectories) ?_ fun isOpen data => ?_
  · rw [hm]
    intro fs h
    unfold ofstream
    split
    · next hp =>
      split
      · rw [Option.map_eq_some_iff] at h
        obtain ⟨f, hf, hbits⟩ := h
        rw [FileSystem.getElem_of_file? hf hp]
        show ((fs.replaceFile p _ hp).file? p).map File.writeBits = some bits
        rw [FileSystem.file?_replaceFile, if_pos rfl]
        exact congrArg some hbits
      · exact h
    · next hp =>
      rw [Option.map_eq_some_iff] at h
      obtain ⟨f, hf, -⟩ := h
      exact absurd (FileSystem.mem_files_of_file? hf) hp
  · rw [hm]
    refine Keeps.ite (fun fs h => ?_) (Keeps.throw _)
    rw [Option.map_eq_some_iff] at h
    obtain ⟨f, hf, hbits⟩ := h
    obtain ⟨fs', hrun, hset⟩ := append_ok data hf
    rw [hrun]
    show (fs'.file? p).map File.writeBits = some bits
    rw [hset.here]
    exact congrArg some hbits

/-- Nothing else happens to such a file. -/
theorem unlock_beside {m : FileMessage} {connected : Bool} {fs : FileSystem}
    (hp : (lockFilePath (filePath m.targetFile)).dropLast = filePath m.targetFile)
    (hrun : processUnlockMessage host connected m fs = .ok b files) : files = fs := by
  cases connected with
  | false => exact (EStateM.Result.ok.inj hrun).2.symm
  | true =>
    rcases (processUnlockMessage_ok rfl hrun).2 with hsame | ⟨old, s, hold, -, hreleased⟩
    · exact hsame
    · obtain ⟨f, hf, -⟩ := hreleased.file
      obtain ⟨g, hg⟩ := file?_of_lockRecord hold
      have hfolder := fs.parent_file _ (FileSystem.mem_files_of_file? hg)
      rw [hp] at hfolder
      exact absurd hfolder (fs.disjoint _ (FileSystem.mem_files_of_file? hf))

theorem standing_sync {m : FileInitialSyncMessage} {n' : Node} (h : Standing host w p)
    (hp : Managed p) (hm : filePath m.targetFile = p)
    (hlock : n'.files.file? (lockFilePath p) = w.node.files.file? (lockFilePath p))
    (hdir : IsDir p w.node.files → IsDir p n'.files)
    (hrun : processInitialFileSyncMessage host m w.node.files = .ok b n'.files) :
    Standing host (w.next n') p := by
  cases hf : w.node.files.file? p with
  | some f =>
    obtain ⟨content, hset⟩ := processInitialFileSyncMessage_ok hm hp hf hrun
    exact h.rewritten hf hset.here rfl hlock
  | none => exact h.created hf hlock hdir

theorem keeps_absent_permissions {p q : FilePath} (change : Perms → Perms) :
    Keeps (fun fs => fs.file? q = none) (permissions p change) := by
  by_cases hp : p = q
  · subst hp
    intro fs h
    have hnot : p ∉ fs.files := fun hmem => FileSystem.file?_ne_none.mpr hmem h
    rw [permissions, dif_neg hnot]
    split
    · exact h
    · exact h
  · exact keeps_permissions change hp

theorem keeps_absent_remove {p q : FilePath} : Keeps (fun fs => fs.file? q = none) (remove p) := by
  by_cases hp : p = q
  · subst hp
    intro fs h
    cases hrun : remove p fs with
    | ok u fs' => exact remove_eq_ok hrun
    | error e fs' => exact remove_eq_error hrun ▸ h
  · exact keeps_remove hp

/-- A lock that is not there does not come from a message about something else, unless that is an
initial sync. -/
theorem lock_absent {env : Setting} {op : FileOp} {processed : Bool} {n' : Node}
    (htarget : op.target? ≠ some p) (hmem : lockFilePath p ∈ op.touches)
    (hsync : ∀ m, op ≠ .initialSync m) (hnone : w.node.files.file? (lockFilePath p) = none)
    (hhandled : Handled env w.node (op, processed) n') :
    n'.files.file? (lockFilePath p) = none := by
  have hother {t : FilePath} (ht : t ≠ p) : lockFilePath t ≠ lockFilePath p :=
    fun heq => ht (lockFilePath_inj heq)
  cases op with
  | lock m =>
    have hne : filePath m.targetFile ≠ p := fun heq => htarget (congrArg some heq)
    obtain ⟨files, hrun, rfl⟩ := handled_lock hhandled
    have hframe {α : Type} {x : Fs α} (h : ∀ f, Keeps (FileIs (lockFilePath p) f) x) :
        Keeps (fun fs => fs.file? (lockFilePath p) = none) x :=
      keeps_of_file (Q := fun f => f = none) h
    have hkeeps : Keeps (fun fs => fs.file? (lockFilePath p) = none)
        (processLockMessage env.host w.node.isFinishedConnecting m) := by
      refine keeps_processLockMessage m (keeps_absent_permissions _)
        (hframe fun _ => keeps_createDirectories) (hframe fun _ => keeps_ofstream (hother hne))
        fun isOpen data => Keeps.ite ?_ (Keeps.throw _)
      exact hframe fun _ => keeps_append data (hother hne)
    exact hkeeps.ok hrun hnone
  | unlock m =>
    have hne : filePath m.targetFile ≠ p := fun heq => htarget (congrArg some heq)
    have hm : lockFilePath p = filePath m.targetFile := by
      have hpaths : lockFilePath p = filePath m.targetFile ∨
          lockFilePath p = lockFilePath (filePath m.targetFile) := by
        simpa [FileOp.touches] using hmem
      exact hpaths.resolve_right (hother hne).symm
    obtain ⟨files, hrun, rfl⟩ := handled_unlock hhandled
    cases hconnected : w.node.isFinishedConnecting with
    | false =>
      rw [hconnected] at hrun
      obtain ⟨-, rfl⟩ := EStateM.Result.ok.inj hrun
      exact hnone
    | true =>
      rw [hconnected] at hrun
      rcases (processUnlockMessage_ok rfl hrun).2 with rfl | ⟨old, s, -, -, hreleased⟩
      · exact hnone
      · obtain ⟨f, hf, -⟩ := hreleased.file
        rw [← hm, hnone] at hf
        cases hf
  | deleteFile m =>
    obtain ⟨files, hrun, rfl⟩ := handled_deleteFile hhandled
    have hkeeps : Keeps (fun fs => fs.file? (lockFilePath p) = none)
        (processDeleteFileMessage env.host w.node.isFinishedConnecting m) := by
      refine (Keeps.pure _).ite ((keeps_permissionsToAdd _ _).bind fun allowed => ?_)
      cases allowed with
      | none => exact Keeps.pure _
      | some perms =>
        have hdelete : Keeps (fun fs => fs.file? (lockFilePath p) = none)
            (deleteFile (filePath m.targetFile) perms) :=
          (keeps_absent_permissions _).bind fun _ => keeps_absent_remove.bind fun _ =>
            keeps_absent_remove.bind fun _ => keeps_absent_remove
        exact hdelete.bind fun _ => Keeps.pure _
    exact hkeeps.ok hrun hnone
  | contentChange m =>
    have hm : filePath m.targetFile = lockFilePath p := (List.mem_singleton.mp hmem).symm
    obtain ⟨files, hrun, rfl⟩ := handled_contentChange hhandled
    by_cases hd : IsDir (lockFilePath p) w.node.files
    · exact ((keeps_content m sparedByWriting_isDir).ok hrun hd).file?
    · obtain rfl := processContentFileMessage_missing hm hnone hd hrun
      exact hnone
  | initialSync m => exact absurd rfl (hsync m)
  | disconnect m => exact absurd hmem List.not_mem_nil

/-- A message that touches `p`, but does not target it, concerns the folder it is in. -/
theorem standing_beside {env : Setting} {op : FileOp} {processed : Bool} {n' : Node}
    (h : Standing env.host w p) (hp : Managed p) (htarget : op.target? ≠ some p)
    (hmem : p ∈ op.touches)
    (hlock : n'.files.file? (lockFilePath p) = w.node.files.file? (lockFilePath p))
    (hhandled : Handled env w.node (op, processed) n') :
    Standing env.host (w.next n') p := by
  have hbeside {t : FilePath} (hp' : p = t ∨ p = lockFilePath t) (hne : t ≠ p) :
      lockFilePath t = p := (hp'.resolve_left hne.symm).symm
  cases op with
  | lock m =>
    have hne : filePath m.targetFile ≠ p := fun heq => htarget (congrArg some heq)
    have hm := hbeside (by simpa [FileOp.touches] using hmem) hne
    obtain ⟨files, hrun, rfl⟩ := handled_lock hhandled
    have hdir : IsDir p w.node.files → IsDir p files := by
      intro hd
      exact (keeps_lock m sparedByWriting_isDir).ok hrun hd
    cases hf : w.node.files.file? p with
    | some f =>
      have hwrites : Keeps (fun fs => (fs.file? p).map File.writeBits = some f.writeBits)
          (processLockMessage env.host w.node.isFinishedConnecting m) := lock_writes hm hne
      have hkeeps := hwrites.ok hrun (congrArg (Option.map File.writeBits) hf)
      obtain ⟨f', hf', hbits⟩ := Option.map_eq_some_iff.mp hkeeps
      exact h.rewritten hf hf' hbits hlock
    | none => exact h.created hf hlock hdir
  | unlock m =>
    have hm := hbeside (by simpa [FileOp.touches] using hmem) fun heq =>
      htarget (congrArg some heq)
    obtain ⟨files, hrun, rfl⟩ := handled_unlock hhandled
    obtain rfl := unlock_beside (folder_of_lock (hm ▸ hp.notMeta)) hrun
    exact h.same rfl rfl id
  | deleteFile m =>
    have hmem' : p = filePath m.targetFile ∨ p = lockFilePath (filePath m.targetFile) ∨
        p = wntsPath (filePath m.targetFile) := by simpa [FileOp.touches] using hmem
    have hhash : p ≠ wntsPath (filePath m.targetFile) := by
      intro heq
      exact hp.notMeta (heq ▸ wnts_mem_wntsPath _)
    have hm := hbeside (hmem'.imp_right (Or.resolve_right · hhash)) fun heq =>
      htarget (congrArg some heq)
    obtain ⟨files, hrun, rfl⟩ := handled_deleteFile hhandled
    rcases delete_beside (folder_of_lock (hm ▸ hp.notMeta)) hrun with rfl | ⟨hf, hdir⟩
    · exact h.same rfl rfl id
    · rw [hm] at hf hdir
      cases h with
      | free f hg =>
        rw [hf] at hg
        cases hg
      | locked f lock s hg =>
        rw [hf] at hg
        cases hg
      | missing _ hunlocked =>
        rcases processDeleteFileMessage_ok rfl hrun with rfl | ⟨-, hf'⟩
        · exact .missing hf hunlocked
        · exact .missing (hm ▸ hf') (hlock.trans hunlocked)
      | folder hd => exact absurd hd hdir
  | contentChange m =>
    exact absurd (congrArg some (List.mem_singleton.mp hmem).symm) htarget
  | initialSync m =>
    exact absurd (congrArg some (List.mem_singleton.mp hmem).symm) htarget
  | disconnect m => exact absurd hmem List.not_mem_nil

/-- **One message** that is no hazard keeps the invariant. -/
theorem standing_step {env : Setting} {l : FileOp × Bool} {w' : Watched}
    (h : Standing env.host w p) (hp : Managed p) (hstep : CarefulStep env w l w') :
    Standing env.host w' p := by
  obtain ⟨op, processed⟩ := l
  have hhandled : Handled env w.node (op, processed) w'.node := hstep.handled
  have hsafe : w.node.isFinishedConnecting = true → ∀ f, w.node.files.file? p = some f →
      w.original p ≠ 0 → ¬ Hazard env.host w.node p op :=
    fun hconnected f hf horiginal => hstep.careful.avoids hconnected p hp horiginal f hf
  rw [hstep.next]
  by_cases htarget : op.target? = some p
  · have hne := lockFilePath_ne hp
    cases op with
    | lock m =>
      obtain ⟨files, hrun, hnode⟩ := handled_lock hhandled
      rw [hnode]
      exact standing_lock h hp (Option.some_inj.mp htarget) hstep.fits hsafe hrun
    | unlock m =>
      obtain ⟨files, hrun, hnode⟩ := handled_unlock hhandled
      rw [hnode]
      exact standing_unlock h (Option.some_inj.mp htarget) hsafe hrun
    | deleteFile m =>
      obtain ⟨files, hrun, hnode⟩ := handled_deleteFile hhandled
      rw [hnode]
      rcases processDeleteFileMessage_ok (Option.some_inj.mp htarget) hrun with rfl | ⟨hf, hlock⟩
      · exact h.same rfl rfl id
      · exact .missing hf hlock
    | contentChange m =>
      have hm : filePath m.targetFile = p := Option.some_inj.mp htarget
      obtain ⟨files, hrun, hnode⟩ := handled_contentChange hhandled
      have hlock := handled_frame hhandled (q := lockFilePath p) (by simpa [FileOp.touches, hm])
      rw [hnode] at hlock ⊢
      refine standing_content h hp hm hsafe hlock (fun hd => ?_) hrun
      exact (keeps_content m sparedByWriting_isDir).ok hrun hd
    | initialSync m =>
      have hm : filePath m.targetFile = p := Option.some_inj.mp htarget
      have hrun := handled_initialSync hhandled
      have hlock := handled_frame hhandled (q := lockFilePath p) (by simpa [FileOp.touches, hm])
      refine standing_sync h hp hm hlock (fun hd => ?_) hrun
      exact (keeps_sync m sparedByWriting_isDir).ok hrun hd
    | disconnect m => cases htarget
  · have hlock : w'.node.files.file? (lockFilePath p) = w.node.files.file? (lockFilePath p) := by
      by_cases hmem : lockFilePath p ∈ op.touches
      · obtain ⟨hnone, hsync⟩ := hstep.careful.apart p hp htarget hmem
        rw [lock_absent htarget hmem hsync hnone hhandled, hnone]
      · exact handled_frame hhandled hmem
    by_cases hfile : p ∈ op.touches
    · exact standing_beside h hp htarget hfile hlock hhandled
    · exact h.same (handled_frame hhandled hfile) hlock
        (handled_keeps hhandled (spares_isDir hfile))

end Step

/-! ## Any messages -/

/-- How a run begins: the node has finished connecting, and every managed file may be written to by
its user and is not locked. -/
structure Pristine (host : Host) (w : Watched) : Prop where
  connected : w.node.isFinishedConnecting = true
  writable : ∀ p, Managed p → ∀ f, w.node.files.file? p = some f → f.perms &&& ownerWrite ≠ 0
  original : ∀ p, Managed p → ∀ f, w.node.files.file? p = some f → w.original p = f.writeBits
  unlocked : ∀ p, Managed p → LockState host.platform w.node.files p none

theorem Pristine.standing {host : Host} {w : Watched} {p : FilePath} (h : Pristine host w)
    (hp : Managed p) : Standing host w p := by
  have hunlocked := (h.unlocked p hp).1
  cases hf : w.node.files.file? p with
  | none => exact .missing hf hunlocked
  | some f => exact .free f hf hunlocked (h.original p hp f hf).symm

/-- **Write exclusion.** No run without hazards breaks the rule. -/
theorem write_exclusion (env : Setting) (w w' : Watched) (ls : List (FileOp × Bool))
    (hstart : Pristine env.host w) (run : Trace (CarefulStep env) w ls w') :
    WriteExclusion env.host w' := by
  intro p hp f hf
  have hstanding : Standing env.host w' p := by
    have hrun := run.preserved (fun w => Standing env.host w p) (fun _ => False)
      (hstart.standing hp) fun t l u ht hstep _ => standing_step ht hp hstep
    rcases hrun with h | ⟨l, -, h⟩
    · exact h
    · exact h.elim
  exact hstanding.excludes hf

/-- A lock of one managed file does not touch the lock of another. -/
theorem lock_apart {m : FileMessage} {p : FilePath} (hm : Managed (filePath m.targetFile))
    (hp : Managed p) (hne : filePath m.targetFile ≠ p) :
    lockFilePath p ∉ (FileOp.lock m).touches := by
  have hlock : lockFilePath p ≠ filePath m.targetFile := by
    intro heq
    exact hm.notMeta (heq ▸ wnts_mem_lockFilePath hp.inFolder)
  have hlocks : lockFilePath p ≠ lockFilePath (filePath m.targetFile) :=
    fun heq => hne (lockFilePath_inj heq).symm
  simp [FileOp.touches, hlock, hlocks]

/-! ## Another node locks a file, and unlocks it -/

/-- The node watched from the start. -/
def watchedNode : Watched where
  node := unlockedNode
  original p := (unlockedNode.files.file? p).elim 0 File.writeBits

/-- The node that locked `docs/a` unlocks it. -/
def foreignUnlock : FileMessage := { foreignLock with type := .unlock }

/-- We lock it ourselves. -/
def ourLock : FileMessage := { foreignLock with originatorNode := reader.self }

theorem mem_dirs_docs {f : File} {q : FilePath} (h : q ∈ (FileSystem.docs f).dirs) :
    q.length ≤ 1 := by
  have hq : q = FileSystem.docsA.dropLast ∨ q = [] := by
    have hinsert : q ∈ (({[]} : Std.ExtTreeSet FilePath).insert FileSystem.docsA.dropLast) := h
    rw [Std.ExtTreeSet.mem_insert, Std.compare_eq_iff_eq] at hinsert
    rcases hinsert with heq | hroot
    · exact Or.inl heq.symm
    · exact Or.inr (by simpa using hroot)
  rcases hq with rfl | rfl
  · decide
  · decide

theorem watchedNode_pristine : Pristine reader watchedNode where
  connected := rfl
  writable p _ f hf := by
    have hdocs := (FileSystem.file?_docs ⟨[], 0o644⟩ p).symm.trans hf
    split at hdocs
    · obtain rfl := Option.some_inj.mp hdocs
      decide
    · cases hdocs
  original p _ f hf := by
    show (unlockedNode.files.file? p).elim 0 File.writeBits = _
    have hf' : unlockedNode.files.file? p = some f := hf
    rw [hf']
    rfl
  unlocked p hp := by
    constructor
    · refine (FileSystem.file?_docs ⟨[], 0o644⟩ (lockFilePath p)).trans (if_neg fun h => ?_)
      have hmem := wnts_mem_lockFilePath hp.inFolder
      rw [← h] at hmem
      exact absurd hmem (by decide)
    · intro hdir
      have hlen := mem_dirs_docs hdir
      have hfolder := hp.inFolder
      match p, hfolder with
      | _ :: _ :: _, _ => simp [lockFilePath, wntsPath] at hlen

def afterWatched (w : Watched) (ops : List FileOp) : Watched :=
  ops.foldl (fun w op => w.next (Effect.final (handle readerSetting op w.node))) w

theorem watchedStep_lock (m : FileMessage) (htarget : m.targetFile = foreignLock.targetFile)
    {w : Watched} {op : FileOp} (hop : op.message = .file m)
    (h : Effect.value? (handle readerSetting op w.node) = some true) :
    WatchedStep readerSetting w (op, true)
      (w.next (Effect.final (handle readerSetting op w.node))) where
  fits := by
    show op.message.Fits
    rw [hop]
    show PathFits m.targetFile
    rw [htarget]
    decide
  handled := Effect.eq_ok_of_value h
  next := rfl

/-- Afterwards nobody has locked `docs/a`, and nobody can write to it. -/
theorem unlocked_not_writable :
    ∃ w', Pristine reader watchedNode ∧
      Trace (WatchedStep readerSetting) watchedNode
        [(.lock foreignLock, true), (.unlock foreignUnlock, true)] w' ∧
      ¬ WriteExclusion reader w' := by
  refine ⟨afterWatched watchedNode [.lock foreignLock, .unlock foreignUnlock],
    watchedNode_pristine, .cons (watchedStep_lock foreignLock rfl rfl (by decide))
      (.cons (watchedStep_lock foreignUnlock rfl rfl (by decide)) (.nil _)), fun h => ?_⟩
  have hrule := h FileSystem.docsA docsA_managed ⟨[], 0o444⟩ (by decide)
  exact absurd (hrule.unlocked (by decide)) (by decide)

/-- Our own lock leaves us the permissions. -/
theorem own_lock_writable :
    WriteExclusion reader (afterWatched watchedNode [.lock ourLock]) := by
  refine write_exclusion readerSetting watchedNode _ [(.lock ourLock, true)] watchedNode_pristine
    (.cons ⟨watchedStep_lock ourLock rfl rfl (by decide), ?_, ?_⟩ (.nil _))
  · rintro - p hp - f hf ⟨-, old, s, hold, -⟩
    rw [no_record (watchedNode_pristine.unlocked p hp).1] at hold
    cases hold
  · intro p hp hne
    have htarget : filePath ourLock.targetFile = FileSystem.docsA := by
      show filePath ⟨[100, 111, 99, 115, 47, 97]⟩ = FileSystem.docsA
      decide
    have happart := lock_apart (m := ourLock) (htarget ▸ docsA_managed) hp fun heq =>
      hne (congrArg some heq)
    exact fun hmem => absurd hmem happart

end Node

end WhisperNet
