import WhisperNet.Fidelity
import WhisperNet.LockHandlers

/-!
# What a node that joins has forgotten

Two nodes process one connect message and then the same syncs and locks. What was in their folders
before makes no difference to the files, but what `processConnectMessage` leaves behind does: it
removes the hashes of the files it finds, and neither the locks nor any directory.

* `processLockMessage_done` — what a lock message does, by what there is to be seen.
* `Alike.step` — nodes between which there is no difference stay that way.
* `join_forgets_iff` — exactly when nothing that was there before makes a difference.
-/

namespace WhisperNet

open Bin Fs Effect

/-! ## Locking, by what there is -/

/-- What a lock message makes of a file and of its lock, given whether the path is a directory:
`none` where nothing is written. -/
def lockOutcome (host : Host) (m : FileMessage) (isDir : Bool) (f : Option File)
    (lock : Option Bytes) : Option (Option File × Bytes) :=
  if f.isNone && !isDir then none
  else match lock with
    | none =>
      let f' := f.map (guarded host m)
      some (f', saveLock host.platform m (f'.elim 0xffff File.perms &&& writePerms))
    | some record => match (loadLock host.platform).run record with
      | some ((oldLock, oldPerms), _) =>
        if m.timestamp < oldLock.timestamp then
          some (f, saveLock host.platform m (oldPerms &&& writePerms))
        else none
      | none => none

/-- A file and the record of its lock have been written. -/
structure Wrote (p : FilePath) (f : Option File) (record : Bytes) (fs fs' : FileSystem) :
    Prop where
  file : fs'.file? p = f
  lock : (fs'.file? (lockFilePath p)).map File.content = some record
  elsewhere : ∀ q, p ≠ q → lockFilePath p ≠ q → fs'.file? q = fs.file? q
  dirs : ∀ d, d ∈ fs'.dirs ↔ d <+: (lockFilePath p).dropLast ∨ d ∈ fs.dirs

/-- The outcome is what has been done. -/
def LockDone (p : FilePath) : Option (Option File × Bytes) → FileSystem → FileSystem → Prop
  | none, fs, fs' => fs' = fs
  | some (f, record), fs, fs' => Wrote p f record fs fs'

section Locking

variable {host : Host} {fs fs' : FileSystem} {p : FilePath} {m : FileMessage}

theorem preventWriting_sets (h : preventWriting host m fs = .ok () fs') :
    fs.Sets (filePath m.targetFile)
      ((fs.file? (filePath m.targetFile)).map (guarded host m)) fs' := by
  unfold preventWriting at h
  split at h
  · next hother =>
    have hset := permissions_sets (filePath m.targetFile) (· &&& ~~~writePerms) fs
    rw [show permissions _ _ fs = .ok () fs' from h] at hset
    have hremoves : guarded host m = fun f => { f with perms := f.perms &&& ~~~writePerms } :=
      funext fun f => if_pos hother
    rw [hremoves]
    exact hset
  · next hself =>
    obtain ⟨-, rfl⟩ := EStateM.Result.ok.inj h
    have hid : guarded host m = id := funext fun f => if_neg hself
    rw [hid, Option.map_id_fun, id_eq]
    exact .same rfl

/-- Where there is no lock. -/
theorem takeLock_wrote (hm : filePath m.targetFile = p) (hp : Managed p)
    (h : takeLock host m fs = .ok () fs') :
    Wrote p ((fs.file? p).map (guarded host m))
      (saveLock host.platform m
        (((fs.file? p).map (guarded host m)).elim 0xffff File.perms &&& writePerms)) fs fs' := by
  subst hm
  have hne := lockFilePath_ne hp
  obtain ⟨⟨⟩, fs₁, hprevent, h⟩ := bind_eq_ok h
  obtain ⟨⟨⟩, fs₂, hcreate, h⟩ := bind_eq_ok h
  obtain ⟨fout, fs₃, hopen, h⟩ := bind_eq_ok h
  obtain ⟨perms, fs₄, hstatus, harchive⟩ := bind_eq_ok h
  have hset := preventWriting_sets hprevent
  obtain ⟨rfl, hperms⟩ := statusPermissions_eq_ok hstatus
  -- The status is read after the lock file has been opened: that did not change the file.
  have hfile : fs₄.file? (filePath m.targetFile) =
      (fs.file? (filePath m.targetFile)).map (guarded host m) :=
    (keeps_ofstream hne).ok hopen ((createDirectories_eq_ok hcreate _).trans hset.here)
  rw [hperms, hfile] at harchive
  obtain ⟨⟨lockPerms, hlock⟩, hframe⟩ := archived hopen (fun _ => rfl) harchive
  refine ⟨?_, by rw [hlock]; rfl, fun q hq hq' => ?_, fun d => ?_⟩
  · rw [hframe _ hne, createDirectories_eq_ok hcreate, hset.here]
  · rw [hframe q hq', createDirectories_eq_ok hcreate, hset.elsewhere hq]
  · rw [archive_dirs harchive, ofstream_dirs hopen, mem_createDirectories hcreate, hset.dirs]

/-- Where there is one. -/
theorem contestLock_done (hm : filePath m.targetFile = p) (hp : Managed p)
    (h : contestLock host m fs = .ok () fs') : ∃ record oldLock oldPerms rest,
      (fs.file? (lockFilePath p)).map File.content = some record ∧
      (loadLock host.platform).run record = some ((oldLock, oldPerms), rest) ∧
      if m.timestamp < oldLock.timestamp then
        Wrote p (fs.file? p) (saveLock host.platform m (oldPerms &&& writePerms)) fs fs'
      else fs' = fs := by
  subst hm
  have hne := lockFilePath_ne hp
  obtain ⟨⟨oldLock, oldPerms⟩, fs₁, hload, hrest⟩ := bind_eq_ok h
  obtain ⟨rfl, hrecord⟩ := loadLockFile_eq_ok hload
  obtain ⟨f, hf, hread⟩ := Option.bind_eq_some_iff.mp hrecord
  obtain ⟨⟨lock, rest⟩, hrun, rfl⟩ := Option.map_eq_some_iff.mp hread
  refine ⟨f.content, oldLock, oldPerms, rest, by rw [hf]; rfl, hrun, ?_⟩
  dsimp only at hrest
  split
  · next hearlier =>
    rw [if_pos hearlier] at hrest
    obtain ⟨fout, fs₂, hopen, hrest⟩ := bind_eq_ok hrest
    obtain ⟨⟨⟩, fs₃, hcreate, harchive⟩ := bind_eq_ok hrest
    obtain ⟨⟨lockPerms, hlock⟩, hframe⟩ := archived hopen (createDirectories_eq_ok hcreate) harchive
    refine ⟨hframe _ hne, by rw [hlock]; rfl, fun q _ hq => hframe q hq, fun d => ?_⟩
    rw [archive_dirs harchive, mem_createDirectories hcreate, ofstream_dirs hopen]
  · next hlater =>
    rw [if_neg hlater] at hrest
    exact (EStateM.Result.ok.inj hrest).2.symm

/-- **What a lock message does**, once the node has finished connecting. -/
theorem processLockMessage_done {b : Bool} (hm : filePath m.targetFile = p) (hp : Managed p)
    (h : processLockMessage host true m fs = .ok b fs') :
    LockDone p (lockOutcome host m (p ∈ fs.dirs) (fs.file? p)
      ((fs.file? (lockFilePath p)).map File.content)) fs fs' := by
  have hbody : (exist (filePath m.targetFile) >>= fun isThere => if !isThere then pure true else
      exist (lockFilePath (filePath m.targetFile)) >>= fun isLocked =>
        if !isLocked then takeLock host m >>= fun _ => pure true
        else contestLock host m >>= fun _ => pure true) fs = .ok b fs' := h
  rw [hm] at hbody
  obtain ⟨isThere, fs₁, hexist, h⟩ := bind_eq_ok hbody
  obtain ⟨rfl, hthere⟩ := exist_eq_ok hexist
  rw [← FileSystem.file?_ne_none] at hthere
  cases isThere with
  | false =>
    obtain ⟨-, rfl⟩ := EStateM.Result.ok.inj h
    have hnone : fs₁.file? p = none ∧ p ∉ fs₁.dirs := by simpa using hthere
    simp [lockOutcome, hnone, LockDone]
  | true =>
    have hsome : ((fs₁.file? p).isNone && !decide (p ∈ fs₁.dirs)) = false := by
      rcases hthere.mp rfl with hfile | hdir
      · simp [hfile]
      · simp [hdir]
    unfold lockOutcome
    rw [hsome, if_neg Bool.false_ne_true]
    obtain ⟨isLocked, fs₂, hexist', h⟩ := bind_eq_ok h
    obtain ⟨rfl, hlocked⟩ := exist_eq_ok hexist'
    cases isLocked with
    | false =>
      obtain ⟨⟨⟩, fs₃, htake, hreturn⟩ := bind_eq_ok h
      obtain ⟨-, rfl⟩ := EStateM.Result.ok.inj hreturn
      have hfree : fs₂.file? (lockFilePath p) = none := by
        by_contra hne
        exact Bool.false_ne_true (hlocked.mpr (Or.inl (FileSystem.file?_ne_none.mp hne)))
      rw [hfree]
      exact takeLock_wrote hm hp htake
    | true =>
      obtain ⟨⟨⟩, fs₃, hcontest, hreturn⟩ := bind_eq_ok h
      obtain ⟨-, rfl⟩ := EStateM.Result.ok.inj hreturn
      obtain ⟨record, oldLock, oldPerms, rest, hrecord, hrun, hdone⟩ :=
        contestLock_done hm hp hcontest
      simp only [hrecord, hrun]
      split at hdone
      · next hearlier =>
        rw [if_pos hearlier]
        exact hdone
      · next hlater =>
        rw [if_neg hlater]
        exact hdone

end Locking

/-! ## What is to be seen, and what is left -/

/-- What a gateway sends a node that joins: after the connect message, syncs and locks of files in
the folders. -/
def FromGateway (folders : List FilePath) : AnyMessage → Prop
  | .fileInitialSync m =>
    m.targetFile.lexicallyNormal = m.targetFile ∧ Listable folders (filePath m.targetFile)
  | .file m => m.type = .lock ∧
    m.targetFile.lexicallyNormal = m.targetFile ∧ Listable folders (filePath m.targetFile)
  | _ => False

/-- The managed files, their contents and write permissions, stored hashes and locks agree. -/
structure SameView (folders : List FilePath) (fs fs' : FileSystem) : Prop where
  managed : ∀ p, Listable folders p → (fs.file? p).map (fun f => (f.content, f.writeBits)) =
    (fs'.file? p).map fun f => (f.content, f.writeBits)
  hashes : ∀ p, Listable folders p → (fs.file? (wntsPath p)).map File.content =
    (fs'.file? (wntsPath p)).map File.content
  locks : ∀ p, Listable folders p → (fs.file? (lockFilePath p)).map File.content =
    (fs'.file? (lockFilePath p)).map File.content

/-- What `processConnectMessage` leaves under a path in `.wnts`: it removes the hash of every file
that is listed. -/
def leftover (folders : List FilePath) (fs : FileSystem) (q : FilePath) : Option Bytes :=
  if ∃ p ∈ fs.files.keys, Listable folders p ∧ wntsPath p = q then none
  else (fs.file? q).map File.content

/-- The same hashes and locks are left, and the same directories. -/
structure SameLeftovers (folders : List FilePath) (fs fs' : FileSystem) : Prop where
  hashes : ∀ p, Listable folders p →
    leftover folders fs (wntsPath p) = leftover folders fs' (wntsPath p)
  locks : ∀ p, Listable folders p →
    leftover folders fs (lockFilePath p) = leftover folders fs' (lockFilePath p)
  dirs : ∀ p, InNormalForm p → Listable folders p → (∀ folder ∈ folders, ¬ p <+: folder) →
    (p ∈ fs.dirs ↔ p ∈ fs'.dirs)

/-- Where the hashes and the locks are. -/
def Metadata (folders : List FilePath) (q : FilePath) : Prop :=
  ∃ p, Listable folders p ∧ (q = wntsPath p ∨ q = lockFilePath p)

/-- Nothing a gateway may send makes a difference. -/
structure Alike (folders : List FilePath) (fs fs' : FileSystem) : Prop where
  managed : ∀ p, Listable folders p → fs.file? p = fs'.file? p
  dirs : ∀ p, InNormalForm p → Listable folders p → (p ∈ fs.dirs ↔ p ∈ fs'.dirs)
  metadata : ∀ q, Metadata folders q →
    (fs.file? q).map File.content = (fs'.file? q).map File.content

section Leftovers

variable {folders : List FilePath} {fs fs' : FileSystem} {p q : FilePath}

theorem Alike.sameView (h : Alike folders fs fs') : SameView folders fs fs' where
  managed p hp := by rw [h.managed p hp]
  hashes p hp := h.metadata _ ⟨p, hp, Or.inl rfl⟩
  locks p hp := h.metadata _ ⟨p, hp, Or.inr rfl⟩

theorem Metadata.wnts_mem (h : Metadata folders q) (hfolders : ∀ folder ∈ folders, folder ≠ []) :
    wnts ∈ q := by
  obtain ⟨p, hp, rfl | rfl⟩ := h
  · exact wnts_mem_wntsPath p
  · exact wnts_mem_lockFilePath (hp.managed hfolders).inFolder

theorem leftover_eq (h : prepareFolders folders fs = .ok () fs') (hq : wnts ∈ q) :
    (fs'.file? q).map File.content = leftover folders fs q := by
  unfold leftover
  split
  · next hcleared =>
    obtain ⟨p, hp, hlist, rfl⟩ := hcleared
    rw [(prepareFolders_removed h (Std.ExtTreeMap.mem_keys.mp hp) hlist).2]
    rfl
  · next hkept =>
    rw [prepareFolders_kept h]
    intro p hp hlist
    refine ⟨?_, fun heq => hkept ⟨p, Std.ExtTreeMap.mem_keys.mpr hp, hlist, heq⟩⟩
    rintro rfl
    exact hlist.notMeta hq

/-- The connect message makes the folders alike just where what it leaves there is the same. -/
theorem alike_iff {fs₁ fs₂ : FileSystem} (h₁ : prepareFolders folders fs₁ = .ok () fs)
    (h₂ : prepareFolders folders fs₂ = .ok () fs') :
    Alike folders fs fs' ↔ SameLeftovers folders fs₁ fs₂ := by
  have hfolders := prepareFolders_named h₁
  have hmem {fs₀ fs : FileSystem} (h : prepareFolders folders fs₀ = .ok () fs) {p : FilePath}
      (hp : Listable folders p) : p ∈ fs.dirs ↔ (∃ folder ∈ folders, p <+: folder) ∨ p ∈ fs₀.dirs :=
    mem_prepareFolders h fun q _ _ heq => hp.notMeta (heq ▸ wnts_mem_wntsPath q)
  have hleft {q : FilePath} (hq : Metadata folders q) :
      (fs.file? q).map File.content = (fs'.file? q).map File.content ↔
        leftover folders fs₁ q = leftover folders fs₂ q := by
    rw [leftover_eq h₁ (hq.wnts_mem hfolders), leftover_eq h₂ (hq.wnts_mem hfolders)]
  constructor
  · intro halike
    refine ⟨fun p hp => ?_, fun p hp => ?_, fun p hnormal hp hfree => ?_⟩
    · exact (hleft ⟨p, hp, Or.inl rfl⟩).mp (halike.metadata _ ⟨p, hp, Or.inl rfl⟩)
    · exact (hleft ⟨p, hp, Or.inr rfl⟩).mp (halike.metadata _ ⟨p, hp, Or.inr rfl⟩)
    · have hnone : ¬ ∃ folder ∈ folders, p <+: folder := by
        rintro ⟨folder, hmem, hin⟩
        exact hfree folder hmem hin
      have hdirs := halike.dirs p hnormal hp
      rwa [hmem h₁ hp, hmem h₂ hp, or_iff_right hnone, or_iff_right hnone] at hdirs
  · intro hsame
    refine ⟨fun p hp => ?_, fun p hnormal hp => ?_, fun q hq => (hleft hq).mpr ?_⟩
    · rw [prepareFolders_listable h₁ hp, prepareFolders_listable h₂ hp]
    · rw [hmem h₁ hp, hmem h₂ hp]
      by_cases hfree : ∃ folder ∈ folders, p <+: folder
      · simp [hfree]
      · refine or_congr_right (hsame.dirs p hnormal hp fun folder hmem hin => ?_)
        exact hfree ⟨folder, hmem, hin⟩
    · obtain ⟨p, hp, rfl | rfl⟩ := hq
      · exact hsame.hashes p hp
      · exact hsame.locks p hp

/-- A sync makes no difference. -/
theorem Alike.saved {host : Host} {content : Bytes} {fs₁ fs₂ : FileSystem}
    (h : Alike folders fs fs') (hfolders : ∀ folder ∈ folders, folder ≠ [])
    (hnormal : InNormalForm p) (hp : Listable folders p) (hs : Saved host p content fs fs₁)
    (hs' : Saved host p content fs' fs₂) : Alike folders fs₁ fs₂ := by
  refine ⟨fun q hq => ?_, fun q hq hlist => ?_, fun q hq => ?_⟩
  · by_cases hpq : p = q
    · subst hpq
      rw [hs.here, hs'.here, h.managed p hp, decide_eq_decide.mpr (h.dirs p hnormal hp)]
    · rw [hs.elsewhere q hpq, hs'.elsewhere q hpq, h.managed q hq]
  · rw [hs.dirs, hs'.dirs, h.dirs q hq hlist]
  · have hpq : p ≠ q := by
      rintro rfl
      exact hp.notMeta (hq.wnts_mem hfolders)
    rw [hs.elsewhere q hpq, hs'.elsewhere q hpq, h.metadata q hq]

/-- Nor does a lock. -/
theorem Alike.locked {fs₁ fs₂ : FileSystem} {outcome : Option (Option File × Bytes)}
    (h : Alike folders fs fs') (hfolders : ∀ folder ∈ folders, folder ≠ [])
    (hp : Listable folders p) (hs : LockDone p outcome fs fs₁)
    (hs' : LockDone p outcome fs' fs₂) : Alike folders fs₁ fs₂ := by
  cases outcome with
  | none =>
    obtain rfl : fs₁ = fs := hs
    obtain rfl : fs₂ = fs' := hs'
    exact h
  | some written =>
    obtain ⟨f, record⟩ := written
    have hlock := wnts_mem_lockFilePath (hp.managed hfolders).inFolder
    refine ⟨fun q hq => ?_, fun q hq hlist => ?_, fun q hq => ?_⟩
    · by_cases hpq : p = q
      · subst hpq
        rw [hs.file, hs'.file]
      · have hne : lockFilePath p ≠ q := fun heq => hq.notMeta (heq ▸ hlock)
        rw [hs.elsewhere q hpq hne, hs'.elsewhere q hpq hne, h.managed q hq]
    · rw [hs.dirs, hs'.dirs, h.dirs q hq hlist]
    · by_cases hne : lockFilePath p = q
      · subst hne
        rw [hs.lock, hs'.lock]
      · have hpq : p ≠ q := by
          rintro rfl
          exact hp.notMeta (hq.wnts_mem hfolders)
        rw [hs.elsewhere q hpq hne, hs'.elsewhere q hpq hne, h.metadata q hq]

end Leftovers

namespace Managers

/-! ## Two nodes -/

/-- Two nodes that have received as many files, of as many, between which nothing makes a
difference. -/
structure AlikeNodes (folders : List FilePath) (s t : Managers) : Prop where
  received : s.receivedInitialFiles = t.receivedInitialFiles
  total : s.totalInitialFiles = t.totalInitialFiles
  files : Alike folders s.files t.files

section Steps

variable {env : Circumstances} {folders : List FilePath} {s t s' t' : Managers}

/-- What processing a lock does to the files. -/
theorem processes_lock {m : FileMessage} (hm : m.type = .lock)
    (hp : Managed (filePath m.targetFile)) (h : Processes s (env, .file m) s') :
    LockDone (filePath m.targetFile)
      (if s.isFinishedConnecting then
        lockOutcome env.host m (filePath m.targetFile ∈ s.files.dirs)
          (s.files.file? (filePath m.targetFile))
          ((s.files.file? (lockFilePath (filePath m.targetFile))).map File.content)
      else none) s.files s'.files := by
  obtain ⟨processed, h⟩ := h
  rw [process_lock env s hm] at h
  obtain ⟨files, hfiles, rfl⟩ := onFiles_eq_ok h
  split
  · next hconnected =>
    rw [hconnected] at hfiles
    exact processLockMessage_done rfl hp hfiles
  · next hconnecting =>
    rw [Bool.eq_false_of_not_eq_true hconnecting] at hfiles
    exact (EStateM.Result.ok.inj hfiles).2.symm

/-- One message makes no difference between nodes that are alike. -/
theorem AlikeNodes.step {l : Circumstances × AnyMessage} (h : AlikeNodes folders s t)
    (hfolders : ∀ folder ∈ folders, folder ≠ []) (hl : FromGateway folders l.2)
    (hs : Processes s l s') (ht : Processes t l t') : AlikeNodes folders s' t' := by
  obtain ⟨env, m⟩ := l
  have hcounts := processes_counts hs
  have hcounts' := processes_counts ht
  rw [← h.received, ← h.total] at hcounts'
  refine ⟨hcounts.1.trans hcounts'.1.symm, hcounts.2.trans hcounts'.2.symm, ?_⟩
  cases m with
  | fileInitialSync m =>
    obtain ⟨hnormal, hp⟩ := hl
    exact h.files.saved hfolders ⟨_, hnormal, rfl⟩ hp (processes_sync hs) (processes_sync ht)
  | file m =>
    obtain ⟨htype, hnormal, hp⟩ := hl
    have hlock := processes_lock htype (hp.managed hfolders) ht
    have hconnected : t.isFinishedConnecting = s.isFinishedConnecting := by
      rw [Node.isFinishedConnecting, Node.isFinishedConnecting, h.received, h.total]
    rw [hconnected, ← h.files.managed _ hp, ← h.files.metadata _ ⟨_, hp, Or.inr rfl⟩,
      ← decide_eq_decide.mpr (h.files.dirs _ ⟨_, hnormal, rfl⟩ hp)] at hlock
    exact h.files.locked hfolders hp (processes_lock htype (hp.managed hfolders) hs) hlock
  | message m => exact hl.elim
  | payload m => exact hl.elim
  | resendRequest m => exact hl.elim
  | fileContent m => exact hl.elim
  | connect m => exact hl.elim

/-- Where the folders have been prepared, the directories of a file in them can be created. -/
theorem createDirectories_prepared {fs fs' : FileSystem} {p : FilePath}
    (hprepare : prepareFolders folders fs = .ok () fs') (hp : Listable folders p) :
    ∃ fs'', createDirectories p.dropLast fs' = .ok () fs'' := by
  have hlength := (hp.managed (prepareFolders_named hprepare)).inFolder
  obtain ⟨folder, hmem, hin, -, hmeta⟩ := hp
  have hfolder : folder ∈ fs'.dirs := by
    refine (mem_prepareFolders hprepare fun q _ _ heq => ?_).mpr
      (Or.inl ⟨folder, hmem, List.prefix_rfl⟩)
    exact hmeta (hin.subset (heq ▸ wnts_mem_wntsPath q))
  apply createDirectories_ok
  · intro hnil
    have hzero := congrArg List.length hnil
    rw [List.length_dropLast, List.length_nil] at hzero
    omega
  · intro d hd hfile
    have hdp := hd.trans (List.dropLast_prefix p)
    -- What is above the folder, or the folder itself, is a directory; what is in it is gone.
    by_cases hinside : folder <+: d ∧ d ≠ folder
    · have hgone := prepareFolders_listable hprepare
        ⟨folder, hmem, hinside.1, hinside.2, fun hwnts => hmeta (hdp.subset hwnts)⟩
      exact FileSystem.file?_ne_none.mpr hfile hgone
    · have habove : d <+: folder := by
        rcases List.prefix_or_prefix_of_prefix hdp hin with habove | hbelow
        · exact habove
        · rw [not_and_not_right.mp hinside hbelow]
      obtain ⟨rest, rfl⟩ := habove
      exact fs'.disjoint d hfile (fs'.mem_dirs_of_append hfolder)

/-- So a sync of it can be processed. -/
theorem sync_processes (env : Circumstances) {fs : FileSystem} {m : FileInitialSyncMessage}
    (hm : m.type = .initialSync)
    (hprepare : prepareFolders folders fs = .ok () s.files)
    (hp : Listable folders (filePath m.targetFile)) :
    ∃ s', Processes s (env, .fileInitialSync m) s' := by
  obtain ⟨fs₁, hcreate⟩ := createDirectories_prepared hprepare hp
  obtain ⟨fs₂, hsave⟩ := saveContent_ok env.host m.fileContent hcreate
  have hrun : processInitialFileSyncMessage env.host m s.files = .ok true fs₂ := by
    rw [processInitialFileSyncMessage, bind_ok hsave]
    rfl
  -- The counters come first.
  have hcounted := onFiles_ok (s := { s with
    receivedInitialFiles := s.receivedInitialFiles + 1, totalInitialFiles := m.total }) hrun
  exact ⟨_, true, (process_initialSync env s hm).trans hcounted⟩

/-! ## Joining -/

/-- Whatever else the gateway may send, nothing of what was there before is to be seen. -/
def Forgets (folders : List FilePath) (s t : Managers) : Prop :=
  ∀ ls s' t', (∀ l ∈ ls, FromGateway folders l.2) → Trace Processes s ls s' →
    Trace Processes t ls t' → SameView folders s'.files t'.files

theorem Forgets.symm (h : Forgets folders s t) : Forgets folders t s := by
  intro ls t' s' hls ht hs
  have hview := h ls s' t' hls hs ht
  exact ⟨fun p hp => (hview.managed p hp).symm, fun p hp => (hview.hashes p hp).symm,
    fun p hp => (hview.locks p hp).symm⟩

/-- Between nodes that are alike no messages make a difference. -/
theorem AlikeNodes.forgets (h : AlikeNodes folders s t)
    (hfolders : ∀ folder ∈ folders, folder ≠ []) : Forgets folders s t := by
  intro ls s' t' hls hs ht
  have halike : AlikeNodes folders s' t' :=
    (hs.labelled hls).coupled (ht.labelled hls) h fun a b l a' b' hab hl hl' =>
      hab.step hfolders hl.1 hl.2 hl'.2
  exact halike.files.sameView

/-- A sync of an empty file. -/
def emptySync (path : FsPath) : FileInitialSyncMessage := { syncDocs with targetFile := path }

/-- A sync tells whether there is a directory in the place of its file. -/
theorem Forgets.dirs (env : Circumstances) {fs₁ fs₂ : FileSystem} (h : Forgets folders s t)
    (hs : prepareFolders folders fs₁ = .ok () s.files)
    (ht : prepareFolders folders fs₂ = .ok () t.files) {p : FilePath} (hnormal : InNormalForm p)
    (hp : Listable folders p) (hdir : p ∈ s.files.dirs) : p ∈ t.files.dirs := by
  by_contra hnone
  obtain ⟨path, hnormal, rfl⟩ := hnormal
  obtain ⟨s', hs'⟩ := sync_processes env (m := emptySync path) rfl hs hp
  obtain ⟨t', ht'⟩ := sync_processes env (m := emptySync path) rfl ht hp
  have hfrom : FromGateway folders (.fileInitialSync (emptySync path)) := ⟨hnormal, hp⟩
  have hview := h [(env, .fileInitialSync (emptySync path))] s' t' (by simpa using hfrom)
    (.cons hs' (.nil s')) (.cons ht' (.nil t'))
  have hmanaged := hview.managed _ hp
  have hhere : s'.files.file? (filePath path) = stored env.host [] (filePath path ∈ s.files.dirs)
      (s.files.file? (filePath path)) := (processes_sync hs').here
  have hhere' : t'.files.file? (filePath path) = stored env.host [] (filePath path ∈ t.files.dirs)
      (t.files.file? (filePath path)) := (processes_sync ht').here
  rw [prepareFolders_listable hs hp, decide_eq_true hdir] at hhere
  rw [prepareFolders_listable ht hp, decide_eq_false hnone] at hhere'
  rw [hhere, hhere'] at hmanaged
  cases hmanaged

/-- **Forgetting.** Two nodes process the same connect message. Whatever syncs and locks of files in
the folders both of them process then, their folders look the same, if and only if this message has
left the same hashes, locks and directories in the folders of both. -/
theorem join_forgets_iff {c : ConnectMessage} {env : Circumstances} {s₀ t₀ : Managers}
    (hs : Processes s₀ (env, .connect c) s) (ht : Processes t₀ (env, .connect c) t) :
    Forgets (c.managedPaths.map filePath) s t ↔
      SameLeftovers (c.managedPaths.map filePath) s₀.files t₀.files := by
  have hprepare := processes_connect hs
  have hprepare' := processes_connect ht
  rw [← alike_iff hprepare hprepare']
  constructor
  · intro hforgets
    have hview := hforgets [] s t (by simp) (.nil s) (.nil t)
    refine ⟨fun p hp => ?_, fun p hnormal hp => ⟨fun hdir => ?_, fun hdir => ?_⟩, fun q hq => ?_⟩
    · rw [prepareFolders_listable hprepare hp, prepareFolders_listable hprepare' hp]
    · exact hforgets.dirs env hprepare hprepare' hnormal hp hdir
    · exact hforgets.symm.dirs env hprepare' hprepare hnormal hp hdir
    · obtain ⟨p, hp, rfl | rfl⟩ := hq
      · exact hview.hashes p hp
      · exact hview.locks p hp
  · intro halike
    have hcounts := processes_counts hs
    have hcounts' := processes_counts ht
    exact AlikeNodes.forgets ⟨hcounts.1.trans hcounts'.1.symm, hcounts.2.trans hcounts'.2.symm,
      halike⟩ (prepareFolders_named hprepare)

end Steps

/-- What was in the one file there is does not matter. -/
theorem content_forgotten : ∃ s t,
    Processes (docsWith [104, 105]) (readerCircumstances, .connect docsConnect) s ∧
    Processes (docsWith []) (readerCircumstances, .connect docsConnect) t ∧
    Forgets (docsConnect.managedPaths.map filePath) s t := by
  have hconnect : value? (process readerCircumstances (some (.connect docsConnect))
      (docsWith [104, 105])) = some true := by decide +kernel
  have hconnect' : value? (process readerCircumstances (some (.connect docsConnect))
      (docsWith [])) = some true := by decide +kernel
  have hs : Processes (docsWith [104, 105]) (readerCircumstances, .connect docsConnect) _ :=
    ⟨true, eq_ok_of_value hconnect⟩
  have ht : Processes (docsWith []) (readerCircumstances, .connect docsConnect) _ :=
    ⟨true, eq_ok_of_value hconnect'⟩
  refine ⟨_, _, hs, ht, (join_forgets_iff hs ht).mpr ?_⟩
  have hnothing (content : Bytes) (folders : List FilePath) {q : FilePath} (hq : wnts ∈ q) :
      leftover folders (docsWith content).files q = none := by
    unfold leftover
    split
    · rfl
    · have hne : FileSystem.docsA ≠ q := by
        rintro rfl
        revert hq
        decide
      rw [docsWith, FileSystem.file?_docs, if_neg hne]
      rfl
  have hmeta {p : FilePath} (hp : Listable (docsConnect.managedPaths.map filePath) p) :
      wnts ∈ lockFilePath p :=
    wnts_mem_lockFilePath (hp.managed (by decide +kernel)).inFolder
  refine ⟨fun p hp => ?_, fun p hp => ?_, fun p _ _ _ => Iff.rfl⟩
  · rw [hnothing _ _ (wnts_mem_wntsPath p), hnothing _ _ (wnts_mem_wntsPath p)]
  · rw [hnothing _ _ (hmeta hp), hnothing _ _ (hmeta hp)]

/-- The gateway's sync of the one file there is, and the lock that somebody has on it. -/
def lockedRun : List (Circumstances × AnyMessage) :=
  [(readerCircumstances, .fileInitialSync syncDocs),
    (readerCircumstances, .file { foreignLock with timestamp := 1000000000 })]

/-- An earlier lock has been left behind: it is the one that counts, and the file stays open. -/
theorem lock_remembered : ∃ (c : ConnectMessage) (env : Circumstances) (s₀ t₀ s t : Managers),
    Processes s₀ (env, .connect c) s ∧ Processes t₀ (env, .connect c) t ∧
      ¬ Forgets (c.managedPaths.map filePath) s t := by
  have hconnect : value? (process readerCircumstances (some (.connect docsConnect))
      { joinedDocs with files := lockedDocs }) = some true := by decide +kernel
  have hconnect' : value? (process readerCircumstances (some (.connect docsConnect))
      joinedDocs) = some true := by decide +kernel
  have hs := eq_ok_of_value hconnect
  have ht := eq_ok_of_value hconnect'
  refine ⟨docsConnect, readerCircumstances, _, _, _, _, ⟨true, hs⟩, ⟨true, ht⟩, fun hforgets => ?_⟩
  have hrun : ((final (process readerCircumstances (some (.connect docsConnect))
      { joinedDocs with files := lockedDocs })).afterAll lockedRun).map
        (fun s => (s.files.file? FileSystem.docsA).map File.writeBits) = some (some 128) := by
    decide +kernel
  have hrun' : ((final (process readerCircumstances (some (.connect docsConnect))
      joinedDocs)).afterAll lockedRun).map
        (fun s => (s.files.file? FileSystem.docsA).map File.writeBits) = some (some 0) := by
    decide +kernel
  obtain ⟨s', hs', hbits⟩ := Option.map_eq_some_iff.mp hrun
  obtain ⟨t', ht', hbits'⟩ := Option.map_eq_some_iff.mp hrun'
  have hfrom : ∀ l ∈ lockedRun, FromGateway (docsConnect.managedPaths.map filePath) l.2 := by
    intro l hl
    simp only [lockedRun, List.mem_cons, List.not_mem_nil, or_false] at hl
    rcases hl with rfl | rfl
    · exact ⟨by decide +kernel, by decide +kernel⟩
    · exact ⟨rfl, by decide +kernel, by decide +kernel⟩
  have hview := hforgets lockedRun s' t' hfrom (trace_of_afterAll hs') (trace_of_afterAll ht')
  have hsame := congrArg (Option.map Prod.snd) (hview.managed FileSystem.docsA (by decide +kernel))
  rw [Option.map_map, Option.map_map] at hsame
  have hdiffer : some (128 : Perms) = some 0 := hbits.symm.trans (hsame.trans hbits')
  revert hdiffer
  decide

end Managers

end WhisperNet
