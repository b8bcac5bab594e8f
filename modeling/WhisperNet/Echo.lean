import WhisperNet.Remote

/-!
# Echoes of remote changes

A sweep that follows a handler finds a file that is newer than it knows and whose hash is not the
stored one, or misses one that it knows, and takes the change for one of the user's.

* `silent_content`, `silent_sync`, `silent_delete`, `silent_connect` — for each handler, when the
  station is silent afterwards.
* `no_echo` — exactly which messages the node does not broadcast back.
-/

namespace WhisperNet

open Bin Fs Effect FilesystemSweeper

namespace Station

/-! ## The handlers -/

section Handlers

variable {env : Setting} {now : FileTime} {s s' : Station} {p : FilePath} {f : File}

theorem handled_eq_some {op : Node.FileOp} {mtime : FilePath → FileTime}
    (h : s.handled env op mtime = some s') : ∃ processed n',
      Node.Handled { env with folders := s.folders } s.node (op, processed) n' ∧
        s' = { s with node := n', mtime } := by
  unfold handled at h
  split at h
  · next processed n' hrun => exact ⟨processed, n', hrun, (Option.some_inj.mp h).symm⟩
  · cases h

theorem touch_elsewhere (opened : Fs Bool) {q : FilePath} (hq : q ≠ p) :
    s.touch opened p now q = s.mtime q := by
  unfold touch
  split
  · exact Function.update_of_ne hq _ _
  · rfl

theorem touch_here (s : Station) (now : FileTime) (p : FilePath) (opened : Fs Bool) :
    s.touch opened p now p =
      if value? (opened s.node.files) = some true then now else s.mtime p := by
  unfold touch
  split
  · exact Function.update_self _ _ _
  · rfl

/-- A handler that touches `p` and `.wnts` only. -/
theorem beside_handled {op : Node.FileOp} {mtime : FilePath → FileTime} {processed : Bool}
    {n' : Node} (hrun : Node.Handled { env with folders := s.folders } s.node (op, processed) n')
    (htouches : ∀ q, q ≠ p → wnts ∉ q → q ∉ op.touches)
    (hmtime : ∀ q, q ≠ p → mtime q = s.mtime q) : s.Beside p { s with node := n', mtime } where
  sweeper := rfl
  folders := rfl
  files q hq hmeta := by
    have hsame := Node.handled_frame hrun (htouches q hq hmeta)
    rw [← FileSystem.file?_ne_none, ← FileSystem.file?_ne_none, hsame]
  mtime := hmtime

/-- A listed file with a parent that has a name. -/
theorem Listed.managed (h : s.Listed p) (hparent : p.dropLast ≠ []) : Managed p := by
  refine ⟨?_, h.2.notMeta⟩
  have hlen := List.length_pos_iff.mpr hparent
  rw [List.length_dropLast] at hlen
  omega

theorem saveContent_eq_ok {host : Host} {content : Bytes} {fs fs' : FileSystem}
    (h : saveContent host p content fs = .ok () fs') : p.dropLast ≠ [] := by
  obtain ⟨⟨⟩, fs₁, hcreate, -⟩ := bind_eq_ok h
  exact (createDirectories_dirs hcreate).1

/-- Whether a file that is there is opened. -/
theorem openFile_file {host : Host} {fs : FileSystem} (hp : Managed p) (hf : fs.file? p = some f) :
    value? (openFile host p fs) = some true ↔ host.CanWrite f.perms := by
  rw [openFile, Effect.bind_ok (createDirectories_parent hp.parent_ne_nil hf)]
  by_cases hw : host.CanWrite f.perms
  · obtain ⟨fs', hopen, -⟩ := ofstream_ok hf hw
    rw [hopen]
    exact iff_of_true rfl hw
  · rw [ofstream_refused hf hw]
    exact iff_of_false (by simp [value?]) hw

/-- What a handler makes of the file `f`: it opens it if it is to be written, and the content is
then the new one, and stays the same otherwise. -/
structure WritesTo (p : FilePath) (f : File) (written : Prop) (content : Bytes)
    (opened : Option Bool) (fs : FileSystem) : Prop where
  opens : opened = some true ↔ written
  file : ∃ f', fs.file? p = some f' ∧ (written → f'.content = content) ∧
    (¬ written → f'.content = f.content)

theorem writesTo_dropped {fs : FileSystem} {written : Prop} {content : Bytes}
    {opened : Option Bool} (hf : fs.file? p = some f) (hnot : ¬ written)
    (hclosed : opened = some false) : WritesTo p f written content opened fs where
  opens := iff_of_false (by simp [hclosed]) hnot
  file := ⟨f, hf, fun hyes => absurd hyes hnot, fun _ => rfl⟩

/-- With the time at which it was opened, that is a rewritten file. -/
theorem WritesTo.rewrites {written : Prop} {content : Bytes} {opened : Fs Bool} {n' : Node}
    (h : WritesTo p f written content (value? (opened s.node.files)) n'.files)
    (hf : s.node.files.file? p = some f)
    (hhash : n'.files.file? (wntsPath p) = s.node.files.file? (wntsPath p)) :
    s.Rewrites p written content now { s with node := n', mtime := s.touch opened p now } := by
  obtain ⟨f', hf', hyes, hno⟩ := h.file
  have htouch := s.touch_here now p opened
  refine ⟨fun hw => ⟨⟨f', hf', hyes hw⟩, ?_⟩, fun hw => ⟨⟨f, f', hf, hf', hno hw⟩, ?_⟩, hhash⟩
  · exact htouch.trans (if_pos (h.opens.mpr hw))
  · exact htouch.trans (if_neg fun hopened => hw (h.opens.mp hopened))

section Content

variable {m : FileContentMessage}

theorem beside_content (h : s.process env now (.contentChange m) = some s') :
    s.Beside (filePath m.targetFile) s' := by
  obtain ⟨processed, n', hrun, rfl⟩ := handled_eq_some h
  refine beside_handled hrun (fun q hq _ => ?_) (fun q hq => touch_elsewhere _ hq)
  exact fun hmem => hq (List.mem_singleton.mp hmem)

theorem open_content (hopen : s.Open) (h : s.process env now (.contentChange m) = some s') :
    s'.Open := by
  obtain ⟨processed, n', hrun, rfl⟩ := handled_eq_some h
  obtain ⟨files, hfiles, rfl⟩ := Node.handled_contentChange hrun
  intro folder hfolder
  have hkeeps : Keeps (IsDir folder)
      (processContentFileMessage env.host s.node.isFinishedConnecting m) :=
    keeps_content m sparedByWriting_isDir
  have hdir := hkeeps s.node.files (hopen folder hfolder)
  rwa [hfiles] at hdir

section Allowed

variable {host : Host} {fs fs' : FileSystem} {b : Bool} {perms : Perms}

/-- A change that the lock allows needs a parent with a name. -/
theorem parent_of_allowed
    (hask : permissionsToAdd host (filePath m.targetFile) m.originatorNode fs =
      .ok (some perms) fs)
    (h : processContentFileMessage host true m fs = .ok b fs') :
    (filePath m.targetFile).dropLast ≠ [] := by
  have hbody : (permissionsToAdd host (filePath m.targetFile) m.originatorNode >>= _) fs =
      .ok b fs' := h
  rw [Effect.bind_ok hask] at hbody
  obtain ⟨⟨⟩, fs₁, -, hrest⟩ := bind_eq_ok hbody
  obtain ⟨⟨⟩, fs₂, hsave, -⟩ := bind_eq_ok hrest
  exact saveContent_eq_ok hsave

/-- It opens the file if that can be written to with the permissions added. -/
theorem openContent_allowed
    (hask : permissionsToAdd host (filePath m.targetFile) m.originatorNode fs =
      .ok (some perms) fs)
    (hp : Managed (filePath m.targetFile)) (hf : fs.file? (filePath m.targetFile) = some f) :
    value? (openContent host true m fs) = some true ↔ host.CanWrite (f.perms ||| perms) := by
  obtain ⟨fs₁, hadd, hset⟩ := addPermissions_ok perms hf
  show value? ((permissionsToAdd host _ _ >>= _) fs) = some true ↔ _
  rw [Effect.bind_ok hask]
  show value? ((addPermissions _ perms >>= _) fs) = some true ↔ _
  rw [Effect.bind_ok hadd]
  exact openFile_file hp hset.here

/-- Then the content is that of the message, and the same as before otherwise. -/
theorem content_allowed
    (hask : permissionsToAdd host (filePath m.targetFile) m.originatorNode fs =
      .ok (some perms) fs)
    (hp : Managed (filePath m.targetFile)) (hf : fs.file? (filePath m.targetFile) = some f)
    (h : processContentFileMessage host true m fs = .ok b fs') :
    ∃ f', fs'.file? (filePath m.targetFile) = some f' ∧
      f'.content = if host.CanWrite (f.perms ||| perms) then m.fileContent else f.content := by
  by_cases hw : host.CanWrite (f.perms ||| perms)
  · obtain ⟨fs₂, hrun, hset⟩ := processContentFileMessage_writes hask rfl hp.parent_ne_nil hf hw
    obtain ⟨-, rfl⟩ := EStateM.Result.ok.inj (hrun.symm.trans h)
    exact ⟨_, hset.here, (if_pos hw).symm⟩
  · obtain ⟨fs₂, hrun, hset⟩ := processContentFileMessage_drops hask rfl hp.parent_ne_nil hf hw
    obtain ⟨-, rfl⟩ := EStateM.Result.ok.inj (hrun.symm.trans h)
    exact ⟨_, hset.here, (if_neg hw).symm⟩

end Allowed

/-- What a change makes of a listed file. -/
theorem content_writesTo {host : Host} {b : Bool} {files : FileSystem}
    (hp : s.Listed (filePath m.targetFile))
    (hf : s.node.files.file? (filePath m.targetFile) = some f)
    (h : processContentFileMessage host s.node.isFinishedConnecting m s.node.files =
      .ok b files) :
    WritesTo (filePath m.targetFile) f (s.Overwrites host m f) m.fileContent
      (value? (openContent host s.node.isFinishedConnecting m s.node.files)) files := by
  cases hconnected : s.node.isFinishedConnecting with
  | false =>
    rw [hconnected] at h
    obtain ⟨-, rfl⟩ := EStateM.Result.ok.inj h
    refine writesTo_dropped hf (fun hyes => ?_) rfl
    rw [Overwrites, hconnected] at hyes
    cases hyes.1
  | true =>
    rw [hconnected] at h
    have hbody : (permissionsToAdd host (filePath m.targetFile) m.originatorNode >>= _)
        s.node.files = .ok b files := h
    obtain ⟨allowed, fs₁, hask, -⟩ := bind_eq_ok hbody
    obtain ⟨rfl, hallowed⟩ := permissionsToAdd_eq_ok hask
    cases allowed with
    | none =>
      have hrun := processContentFileMessage_refused hask rfl
      obtain ⟨-, rfl⟩ := EStateM.Result.ok.inj (hrun.symm.trans h)
      refine writesTo_dropped hf ?_ ?_
      · rintro ⟨-, perms, hperms, -⟩
        exact absurd (hallowed.trans hperms) (by simp)
      · show value? ((permissionsToAdd host _ _ >>= _) s.node.files) = _
        rw [Effect.bind_ok hask]
        rfl
    | some perms =>
      have hmanaged := hp.managed (parent_of_allowed hask h)
      have hover : s.Overwrites host m f ↔ host.CanWrite (f.perms ||| perms) := by
        constructor
        · rintro ⟨-, perms', hperms, hw⟩
          obtain rfl := Option.some_inj.mp (hallowed.trans hperms)
          exact hw
        · exact fun hw => ⟨hconnected, perms, hallowed.symm, hw⟩
      obtain ⟨f', hf', hcontent⟩ := content_allowed hask hmanaged hf h
      rw [hover]
      refine ⟨openContent_allowed hask hmanaged hf, f', hf', fun hw => ?_, fun hw => ?_⟩
      · exact hcontent.trans (if_pos hw)
      · exact hcontent.trans (if_neg hw)

/-- A change to a listed file overwrites it if it may. -/
theorem rewrites_content (hp : s.Listed (filePath m.targetFile))
    (hf : s.node.files.file? (filePath m.targetFile) = some f)
    (h : s.process env now (.contentChange m) = some s') :
    s.Rewrites (filePath m.targetFile) (s.Overwrites env.host m f) m.fileContent now s' := by
  obtain ⟨processed, n', hrun, rfl⟩ := handled_eq_some h
  have hhash : n'.files.file? (wntsPath (filePath m.targetFile)) =
      s.node.files.file? (wntsPath (filePath m.targetFile)) := by
    refine Node.handled_frame hrun fun hmem => hp.2.notMeta ?_
    rw [← List.mem_singleton.mp hmem]
    exact wnts_mem_wntsPath _
  obtain ⟨files, hfiles, rfl⟩ := Node.handled_contentChange hrun
  exact (content_writesTo hp hf hfiles).rewrites hf hhash

/-- A change to a missing file creates none. -/
theorem content_missing (hf : filePath m.targetFile ∉ s.node.files.files)
    (h : s.process env now (.contentChange m) = some s') :
    filePath m.targetFile ∉ s'.node.files.files := by
  obtain ⟨processed, n', hrun, rfl⟩ := handled_eq_some h
  obtain ⟨files, hfiles, rfl⟩ := Node.handled_contentChange hrun
  have hnone : s.node.files.file? (filePath m.targetFile) = none := by
    by_contra hne
    exact hf (FileSystem.file?_ne_none.mp hne)
  show filePath m.targetFile ∉ files.files
  rw [← FileSystem.file?_ne_none, not_not]
  by_cases hd : IsDir (filePath m.targetFile) s.node.files
  · have hkeeps : Keeps (IsDir (filePath m.targetFile))
        (processContentFileMessage env.host s.node.isFinishedConnecting m) :=
      keeps_content m sparedByWriting_isDir
    have hdir := hkeeps s.node.files hd
    rw [hfiles] at hdir
    exact hdir.file?
  · obtain rfl := processContentFileMessage_missing rfl hnone hd hfiles
    exact hnone

/-- The station after a change is silent exactly when the change was harmless. -/
theorem silent_content (h : s.Agrees) (hrun : s.process env now (.contentChange m) = some s') :
    s'.Silent ↔ s.Harmless env.host now (.contentChange m) := by
  have hb := beside_content hrun
  rw [silent_iff h hb fun _ => open_content h.folders hrun]
  have hnew : ¬ s.Listed (filePath m.targetFile) → ¬ s'.Listed (filePath m.targetFile) := by
    rintro hp ⟨hfile, hlist⟩
    rw [hb.folders] at hlist
    exact content_missing (fun hold => hp ⟨hold, hlist⟩) hrun hfile
  constructor
  · rintro ⟨hlisted, -⟩ f hp hf hw
    exact ((rewrites_content hp hf hrun).quiet_iff (h.stored _ hp) hf).mp (hlisted hp) hw
  · intro hharmless
    refine ⟨fun hp => ?_, fun hp _ hp' => absurd hp' (hnew hp)⟩
    obtain ⟨f, hf⟩ := Option.ne_none_iff_exists'.mp (FileSystem.file?_ne_none.mpr hp.1)
    exact ((rewrites_content hp hf hrun).quiet_iff (h.stored _ hp) hf).mpr (hharmless f hp hf)

/-- A listed file that is changed is still there. -/
theorem file_content (hp : s.Listed (filePath m.targetFile))
    (hrun : s.process env now (.contentChange m) = some s') :
    filePath m.targetFile ∈ s'.node.files.files := by
  obtain ⟨f, hf⟩ := Option.ne_none_iff_exists'.mp (FileSystem.file?_ne_none.mpr hp.1)
  exact (rewrites_content hp hf hrun).file_mem

end Content

section Sync

variable {m : FileInitialSyncMessage}

theorem beside_sync (h : s.process env now (.initialSync m) = some s') :
    s.Beside (filePath m.targetFile) s' := by
  obtain ⟨processed, n', hrun, rfl⟩ := handled_eq_some h
  refine beside_handled hrun (fun q hq _ => ?_) (fun q hq => touch_elsewhere _ hq)
  exact fun hmem => hq (List.mem_singleton.mp hmem)

theorem isDir_sync {q : FilePath} (hq : IsDir q s.node.files)
    (h : s.process env now (.initialSync m) = some s') : IsDir q s'.node.files := by
  obtain ⟨processed, n', hrun, rfl⟩ := handled_eq_some h
  have hfiles := Node.handled_initialSync hrun
  have hkeeps : Keeps (IsDir q) (processInitialFileSyncMessage env.host m) :=
    keeps_sync m sparedByWriting_isDir
  have hdir := hkeeps s.node.files hq
  rwa [hfiles] at hdir

/-- What an initial file makes of a listed file. -/
theorem sync_writesTo {host : Host} {b : Bool} {files : FileSystem}
    (hp : s.Listed (filePath m.targetFile))
    (hf : s.node.files.file? (filePath m.targetFile) = some f)
    (h : processInitialFileSyncMessage host m s.node.files = .ok b files) :
    WritesTo (filePath m.targetFile) f (host.CanWrite f.perms) m.fileContent
      (value? (openFile host (filePath m.targetFile) s.node.files)) files := by
  obtain ⟨⟨⟩, fs₁, hsave, hreturn⟩ := bind_eq_ok h
  obtain ⟨-, rfl⟩ := EStateM.Result.ok.inj hreturn
  have hmanaged := hp.managed (saveContent_eq_ok hsave)
  refine ⟨openFile_file hmanaged hf, ?_⟩
  by_cases hw : host.CanWrite f.perms
  · obtain ⟨fs₂, hrun, hset⟩ := saveContent_writes hmanaged.parent_ne_nil hf hw m.fileContent
    obtain ⟨-, rfl⟩ := EStateM.Result.ok.inj (hrun.symm.trans hsave)
    exact ⟨_, hset.here, fun _ => rfl, fun hnot => absurd hw hnot⟩
  · have hrun := saveContent_drops hmanaged.parent_ne_nil hf hw m.fileContent
    obtain ⟨-, rfl⟩ := EStateM.Result.ok.inj (hrun.symm.trans hsave)
    exact ⟨f, hf, fun hyes => absurd hyes hw, fun _ => rfl⟩

theorem hashFile_sync (hp : wnts ∉ filePath m.targetFile)
    (h : s.process env now (.initialSync m) = some s') :
    s'.node.files.file? (wntsPath (filePath m.targetFile)) =
      s.node.files.file? (wntsPath (filePath m.targetFile)) := by
  obtain ⟨processed, n', hrun, rfl⟩ := handled_eq_some h
  refine Node.handled_frame hrun fun hmem => hp ?_
  rw [← List.mem_singleton.mp hmem]
  exact wnts_mem_wntsPath _

theorem rewrites_sync (hp : s.Listed (filePath m.targetFile))
    (hf : s.node.files.file? (filePath m.targetFile) = some f)
    (h : s.process env now (.initialSync m) = some s') :
    s.Rewrites (filePath m.targetFile) (env.host.CanWrite f.perms) m.fileContent now s' := by
  have hhash := hashFile_sync hp.2.notMeta h
  obtain ⟨processed, n', hrun, rfl⟩ := handled_eq_some h
  exact (sync_writesTo hp hf (Node.handled_initialSync hrun)).rewrites hf hhash

/-- Where nothing is, an initial file is created. -/
theorem sync_creates (hfile : filePath m.targetFile ∉ s.node.files.files)
    (hdir : filePath m.targetFile ∉ s.node.files.dirs)
    (h : s.process env now (.initialSync m) = some s') :
    s'.node.files.file? (filePath m.targetFile) = some ⟨m.fileContent, env.host.newPerms⟩ := by
  obtain ⟨processed, n', hrun, rfl⟩ := handled_eq_some h
  have hfiles : processInitialFileSyncMessage env.host m s.node.files = .ok processed n'.files :=
    Node.handled_initialSync hrun
  obtain ⟨⟨⟩, fs₁, hsave, hreturn⟩ := bind_eq_ok hfiles
  obtain ⟨-, rfl⟩ := EStateM.Result.ok.inj hreturn
  obtain ⟨⟨⟩, fs₂, hcreate, hrest⟩ := bind_eq_ok hsave
  obtain ⟨-, hparent, hdirs⟩ := createDirectories_dirs hcreate
  have hfile₂ : filePath m.targetFile ∉ fs₂.files := by
    rw [← FileSystem.file?_ne_none, createDirectories_eq_ok hcreate, FileSystem.file?_ne_none]
    exact hfile
  have hdir₂ : filePath m.targetFile ∉ fs₂.dirs := by
    intro hd
    rcases hdirs _ hd with hprefix | hold
    · -- A path is no shorter than its parent only where there is neither.
      have hlen := hprefix.length_le
      rw [List.length_dropLast] at hlen
      have hnil : filePath m.targetFile = [] := List.length_eq_zero_iff.mp (by omega)
      exact hdir (hnil ▸ s.node.files.root)
    · exact hdir hold
  obtain ⟨fs₃, hopen, hset₃⟩ : ∃ fs₃, ofstream env.host (filePath m.targetFile) fs₂ = .ok true fs₃ ∧
      fs₂.Sets (filePath m.targetFile) (some ⟨[], env.host.newPerms⟩) fs₃ :=
    ofstream_creates hfile₂ hparent hdir₂
  obtain ⟨fs₄, happend, hset₄⟩ := append_ok m.fileContent hset₃.here
  rw [Effect.bind_ok hopen] at hrest
  obtain ⟨-, rfl⟩ := EStateM.Result.ok.inj (happend.symm.trans hrest)
  exact hset₄.here

theorem silent_sync (h : s.Agrees) (hrun : s.process env now (.initialSync m) = some s') :
    s'.Silent ↔ s.Harmless env.host now (.initialSync m) := by
  have hb := beside_sync hrun
  have hopen : s'.Open := by
    intro folder hfolder
    rw [hb.folders] at hfolder
    exact isDir_sync (h.folders folder hfolder) hrun
  rw [silent_iff h hb fun _ => hopen]
  refine and_congr ⟨fun hlisted f hp hf hw => ?_, fun hharmless hp => ?_⟩
    ⟨fun hnew hlist hfile hdir => ?_, fun hharmless hp _ hp' => ?_⟩
  · exact ((rewrites_sync hp hf hrun).quiet_iff (h.stored _ hp) hf).mp (hlisted hp) hw
  · obtain ⟨f, hf⟩ := Option.ne_none_iff_exists'.mp (FileSystem.file?_ne_none.mpr hp.1)
    exact ((rewrites_sync hp hf hrun).quiet_iff (h.stored _ hp) hf).mpr (hharmless f hp hf)
  · have hf' := sync_creates hfile hdir hrun
    have hp' : s'.Listed (filePath m.targetFile) :=
      ⟨FileSystem.mem_files_of_file? hf', by rwa [hb.folders]⟩
    obtain ⟨f, g, hf, hg, hread⟩ := hnew (fun hp => hfile hp.1) hopen hp'
    obtain rfl := Option.some_inj.mp (hf.symm.trans hf')
    rw [hashFile_sync hlist.notMeta hrun] at hg
    exact ⟨g, hg, hread⟩
  · have hlist : Listable s.folders (filePath m.targetFile) := hb.folders ▸ hp'.2
    have hfile : filePath m.targetFile ∉ s.node.files.files := fun hold => hp ⟨hold, hlist⟩
    have hdir : filePath m.targetFile ∉ s.node.files.dirs := by
      intro hd
      exact s'.node.files.disjoint _ hp'.1 (isDir_sync hd hrun)
    obtain ⟨g, hg, hread⟩ := hharmless hlist hfile hdir
    rw [← hashFile_sync hlist.notMeta hrun] at hg
    exact ⟨_, g, sync_creates hfile hdir hrun, hg, hread⟩

theorem file_sync (hp : s.Listed (filePath m.targetFile))
    (hrun : s.process env now (.initialSync m) = some s') :
    filePath m.targetFile ∈ s'.node.files.files := by
  obtain ⟨f, hf⟩ := Option.ne_none_iff_exists'.mp (FileSystem.file?_ne_none.mpr hp.1)
  exact (rewrites_sync hp hf hrun).file_mem

end Sync

section Delete

variable {m : FileMessage}

/-- The handler looks at the lock, which is then no directory. -/
theorem permissionsToAdd_noDir {host : Host} {fs fs' : FileSystem} {ip : IpAddress}
    {allowed : Option Perms} (h : permissionsToAdd host p ip fs = .ok allowed fs') :
    lockFilePath p ∉ fs.dirs := by
  obtain ⟨isLocked, fs₁, hexist, hrest⟩ := bind_eq_ok h
  obtain ⟨rfl, hlocked⟩ := exist_eq_ok hexist
  intro hdir
  obtain rfl := hlocked.mpr (Or.inr hdir)
  obtain ⟨lock, fs₂, hload, -⟩ := bind_eq_ok hrest
  obtain ⟨g, hg⟩ := file?_of_lockRecord (loadLockFile_eq_ok hload).2
  exact fs₁.disjoint _ (FileSystem.mem_files_of_file? hg) hdir

/-- A deletion that was not made has changed nothing. -/
theorem delete_eq_ok {host : Host} {connected b : Bool} {fs fs' : FileSystem}
    (h : processDeleteFileMessage host connected m fs = .ok b fs') :
    (fs' = fs ∧ (connected = true → allowance host (lockRecord host.platform fs
      (filePath m.targetFile)) m.originatorNode = none)) ∨
    (connected = true ∧ lockFilePath (filePath m.targetFile) ∉ fs.dirs ∧
      fs'.file? (filePath m.targetFile) = none ∧
      ∃ perms, allowance host (lockRecord host.platform fs
        (filePath m.targetFile)) m.originatorNode = some perms) := by
  cases connected with
  | false => exact Or.inl ⟨(EStateM.Result.ok.inj h).2.symm, by simp⟩
  | true =>
    have hbody : (permissionsToAdd host (filePath m.targetFile) m.originatorNode >>= _) fs =
        .ok b fs' := h
    obtain ⟨allowed, fs₁, hask, hrest⟩ := bind_eq_ok hbody
    have hdir := permissionsToAdd_noDir hask
    obtain ⟨rfl, hallowed⟩ := permissionsToAdd_eq_ok hask
    cases allowed with
    | none => exact Or.inl ⟨(EStateM.Result.ok.inj hrest).2.symm, fun _ => hallowed.symm⟩
    | some perms =>
      refine Or.inr ⟨rfl, hdir, ?_, perms, hallowed.symm⟩
      obtain ⟨⟨⟩, fs₂, hdelete, hreturn⟩ := bind_eq_ok hrest
      obtain ⟨-, rfl⟩ := EStateM.Result.ok.inj hreturn
      obtain ⟨⟨⟩, fs₃, -, hremoves⟩ := bind_eq_ok hdelete
      obtain ⟨⟨⟩, fs₄, hfile, hremoves⟩ := bind_eq_ok hremoves
      have hkeeps : Keeps (FileIs (filePath m.targetFile) none) (do
          remove (lockFilePath (filePath m.targetFile))
          remove (wntsPath (filePath m.targetFile))) := keeps_gone.bind fun _ => keeps_gone
      have hgone := hkeeps fs₄ (remove_eq_ok hfile)
      rwa [hremoves] at hgone

theorem beside_delete (h : s.process env now (.deleteFile m) = some s') :
    s.Beside (filePath m.targetFile) s' := by
  obtain ⟨processed, n', hrun, rfl⟩ := handled_eq_some h
  refine ⟨rfl, rfl, fun q hq hmeta => ?_, fun q hq => rfl⟩
  rw [← FileSystem.file?_ne_none, ← FileSystem.file?_ne_none]
  by_cases hlock : q = lockFilePath (filePath m.targetFile)
  · subst hlock
    obtain ⟨files, hfiles, rfl⟩ := Node.handled_deleteFile hrun
    rcases delete_beside (folder_of_lock hmeta) hfiles with rfl | ⟨hnone, -⟩
    · rfl
    · rcases processDeleteFileMessage_ok rfl hfiles with rfl | ⟨-, hgone⟩
      · rfl
      · exact iff_of_false (not_not.mpr hgone) (not_not.mpr hnone)
  · have hsame : n'.files.file? q = s.node.files.file? q := by
      refine Node.handled_frame hrun fun hmem => ?_
      simp only [Node.FileOp.touches, List.mem_cons, List.not_mem_nil, or_false] at hmem
      rcases hmem with rfl | rfl | rfl
      · exact hq rfl
      · exact hlock rfl
      · exact hmeta (wnts_mem_wntsPath _)
    rw [hsame]

/-- A deletion leaves every directory but, of a listed file, none that could be removed. -/
theorem isDir_delete {q : FilePath} (h : s.Agrees) (hp : s.Listed (filePath m.targetFile))
    (hq : IsDir q s.node.files) (hrun : s.process env now (.deleteFile m) = some s') :
    IsDir q s'.node.files := by
  obtain ⟨processed, n', hhandled, rfl⟩ := handled_eq_some hrun
  obtain ⟨files, hfiles, rfl⟩ := Node.handled_deleteFile hhandled
  rcases delete_eq_ok hfiles with ⟨rfl, -⟩ | ⟨-, hlock, -⟩
  · exact hq
  · obtain ⟨f, g, -, hg, -⟩ := h.stored _ hp
    have hspared : q ∉ (Node.FileOp.deleteFile m).touches := by
      simp only [Node.FileOp.touches, List.mem_cons, List.not_mem_nil, or_false]
      rintro (rfl | rfl | rfl)
      · exact s.node.files.disjoint _ hp.1 hq
      · exact hlock hq
      · exact s.node.files.disjoint _ (FileSystem.mem_files_of_file? hg) hq
    exact Node.handled_keeps hhandled (spares_isDir hspared) hq

theorem silent_delete (h : s.Agrees) (hrun : s.process env now (.deleteFile m) = some s') :
    s'.Silent ↔ s.Harmless env.host now (.deleteFile m) := by
  have hb := beside_delete hrun
  have hopen : s.Listed (filePath m.targetFile) → s'.Open := by
    intro hp folder hfolder
    rw [hb.folders] at hfolder
    exact isDir_delete h hp (h.folders folder hfolder) hrun
  rw [silent_iff h hb hopen]
  obtain ⟨processed, n', hhandled, rfl⟩ := handled_eq_some hrun
  obtain ⟨files, hfiles, rfl⟩ := Node.handled_deleteFile hhandled
  rcases delete_eq_ok hfiles with ⟨rfl, hrefused⟩ | ⟨hconnected, -, hgone, perms, hallowed⟩
  · refine iff_of_true ⟨fun hp => ⟨hp.1, Or.inl le_rfl⟩, fun hp _ hp' => absurd hp' hp⟩ ?_
    exact fun _ hconnected => hrefused hconnected
  · have hmissing : filePath m.targetFile ∉ files.files := fun hfile =>
      FileSystem.file?_ne_none.mpr hfile hgone
    constructor
    · rintro ⟨hlisted, -⟩ hp
      exact absurd (hlisted hp).1 hmissing
    · intro hharmless
      refine ⟨fun hp => ?_, fun _ _ hp' => absurd hp'.1 hmissing⟩
      exact absurd ((hharmless hp hconnected).symm.trans hallowed) (by simp)

/-- Where the file was there is no directory, and its folder is still there. -/
theorem folder_delete (h : s.Agrees) (hp : s.Listed (filePath m.targetFile))
    (hrun : s.process env now (.deleteFile m) = some s') :
    filePath m.targetFile ∉ s'.node.files.dirs ∧
      (filePath m.targetFile).dropLast ∈ s'.node.files.dirs := by
  refine ⟨?_, isDir_delete h hp (s.node.files.parent_file _ hp.1) hrun⟩
  obtain ⟨processed, n', hhandled, rfl⟩ := handled_eq_some hrun
  obtain ⟨files, hfiles, rfl⟩ := Node.handled_deleteFile hhandled
  have hkeeps : Keeps (NoDir (filePath m.targetFile))
      (processDeleteFileMessage env.host s.node.isFinishedConnecting m) := by
    refine (Keeps.pure _).ite ((keeps_permissionsToAdd _ _).bind fun allowed => ?_)
    cases allowed with
    | none => exact Keeps.pure _
    | some perms =>
      have hdelete : Keeps (NoDir (filePath m.targetFile))
          (deleteFile (filePath m.targetFile) perms) :=
        (keeps_noDir_permissions _).bind fun _ => keeps_noDir_remove.bind fun _ =>
          keeps_noDir_remove.bind fun _ => keeps_noDir_remove
      exact hdelete.bind fun _ => Keeps.pure _
  have hnoDir := hkeeps s.node.files (s.node.files.disjoint _ hp.1)
  rwa [hfiles] at hnoDir

end Delete

section Connect

variable {m : ConnectMessage}

theorem connect_eq_some (h : s.process env now (.connect m) = some s') :
    Prepared (m.managedPaths.map filePath) s.node.files s'.node.files ∧
      s'.folders = m.managedPaths.map filePath ∧ s'.mtime = s.mtime ∧ s'.sweeper = s.sweeper := by
  have hrun : s.processConnectMessage m = some s' := h
  unfold processConnectMessage at hrun
  dsimp only at hrun
  split at hrun
  · next files hprepare =>
    obtain rfl := Option.some_inj.mp hrun
    exact ⟨prepareFolders_ok hprepare, rfl, rfl, rfl⟩
  · cases hrun

/-- After connecting nothing is listed, so silence is about what is missing. -/
theorem silent_connect (h : s.Agrees) (hrun : s.process env now (.connect m) = some s') :
    s'.Silent ↔ s.Harmless env.host now (.connect m) := by
  obtain ⟨hprepared, hfolders, hmtime, hsweeper⟩ := connect_eq_some hrun
  have hnone : ∀ q, ¬ s'.Listed q := by
    rintro q ⟨hfile, hlist⟩
    rw [hfolders] at hlist
    exact ((hprepared.files q hlist.notMeta).mp hfile).2 hlist
  have hopen : s'.Open ↔ ¬ s.Collides (m.managedPaths.map filePath) := by
    unfold Open
    rw [hfolders]
    exact hprepared.open_iff
  constructor
  · intro hsilent
    constructor
    · by_cases hcollides : s.Collides (m.managedPaths.map filePath)
      · exact Or.inr hcollides
      · refine Or.inl fun q hq => hnone q ?_
        exact hsilent.kept (hopen.mpr hcollides) q (hsweeper ▸ (h.tracked q).mpr hq)
    · intro q hq hlist
      have hfile := hsilent.present q (hsweeper ▸ hq)
      exact ((hprepared.files q hlist.notMeta).mp hfile).2 hlist
  · rintro ⟨hempty, hfast⟩
    refine ⟨fun _ q hq => absurd hq (hnone q), fun hopen' q hq => ?_, fun q hq => ?_,
      fun q hq => ?_⟩
    · rw [hsweeper] at hq
      exact absurd ((h.tracked q).mp hq) (hempty.resolve_right (hopen.mp hopen') q)
    · rw [hsweeper] at hq
      have hlisted := h.listed_of_fast hq
      exact (hprepared.files q hlisted.2.notMeta).mpr ⟨hlisted.1, hfast q hq⟩
    · rw [hsweeper] at hq ⊢
      obtain ⟨pair, hpair⟩ := mem_iff_exists.mp hq
      exact Or.inl ⟨pair, hpair, by rw [hmtime, (h.fast q pair hpair).2]⟩

end Connect

/-! ## No echo -/

theorem silent_process {r : Remote} (h : s.Agrees) (hrun : s.process env now r = some s') :
    s'.Silent ↔ s.Harmless env.host now r := by
  cases r with
  | contentChange m => exact silent_content h hrun
  | deleteFile m => exact silent_delete h hrun
  | initialSync m => exact silent_sync h hrun
  | connect m => exact silent_connect h hrun

theorem tracking_process {r : Remote} (h : s.Agrees)
    (hstale : ∀ total (q : FilePath) (pair : FileTime × UInt64),
      (s.sweeper.map total)[q]? = some pair → pair.2 ≠ s.sweeper.iteration)
    (hrun : s.process env now r = some s') : s'.Tracking := by
  have hplace : ∀ q ∈ s'.node.files.files,
      q ∉ s'.node.files.dirs ∧ q.dropLast ∈ s'.node.files.dirs := fun q hq =>
    ⟨s'.node.files.disjoint q hq, s'.node.files.parent_file q hq⟩
  cases r with
  | contentChange m =>
    exact tracking_of_beside h (beside_content hrun) hstale fun hp =>
      hplace _ (file_content hp hrun)
  | deleteFile m =>
    exact tracking_of_beside h (beside_delete hrun) hstale fun hp => folder_delete h hp hrun
  | initialSync m =>
    exact tracking_of_beside h (beside_sync hrun) hstale fun hp => hplace _ (file_sync hp hrun)
  | connect m =>
    obtain ⟨hprepared, -, -, hsweeper⟩ := connect_eq_some hrun
    refine ⟨hsweeper ▸ hstale, fun q hq => ?_, fun q hq => ?_⟩
    · exact hprepared.notDir q (h.listed_of_fast (hsweeper ▸ hq)).1
    · have hlisted := h.listed_of_fast (hsweeper ▸ hq)
      exact hprepared.folder q hlisted.1 hlisted.2.notMeta

end Handlers

/-- **No echo.** In every state in which the sweeper and the stored hashes agree with the files,
once a message that changes files has been processed, sweeps broadcast no change and no deletion
if the message was harmless; before the iteration wraps around, only if. -/
theorem no_echo (env : Setting) (now : FileTime) {s s' : Station} {n : Nat} (r : Remote)
    (run : Run SweepStep n {} s.sweeper) (h : s.Agrees) (hrun : s.process env now r = some s') :
    (s.Harmless env.host now r → s'.NoEcho env.host) ∧
      (n < 2 ^ 64 → s'.NoEcho env.host → s.Harmless env.host now r) := by
  constructor
  · intro hharmless
    exact ((silent_process h hrun).mpr hharmless).noEcho
  · intro hn hecho
    have htracking := tracking_process h (fun total q pair hq => stale_of_run hn run total hq) hrun
    exact (silent_process h hrun).mp (hecho.silent htracking)

/-! ## A change that is echoed -/

/-- The managed folder `docs` with an empty file `a` and its hash. -/
def storedDocs : FileSystem :=
  ((FileSystem.docs ⟨[], 0o644⟩).addDir [[100, 111, 99, 115], wnts] (of_decide_eq_true rfl)
    (of_decide_eq_true rfl)).setFile (wntsPath FileSystem.docsA) ⟨[48], 0o644⟩
    (of_decide_eq_true rfl) (of_decide_eq_true rfl)

/-- A total sweep that lists `docs/a`, 20 seconds after the epoch. -/
def listingDocs : Surroundings where
  total := true
  listing := [(FileSystem.docsA, .time 0)]
  stat _ := .notFound
  now := 20000000000

/-- A node that has swept it. -/
def sweptDocs : Station where
  node := ⟨storedDocs, [], 0, 0⟩
  folders := [FileSystem.docsA.dropLast]
  mtime _ := 0
  sweeper := (({} : FilesystemSweeper).sweep listingDocs).2.getD {}

theorem run_sweptDocs : Run SweepStep 1 {} sweptDocs.sweeper :=
  .snoc (.nil _) ⟨listingDocs, rfl⟩

theorem file?_storedDocs (q : FilePath) : storedDocs.file? q =
    if wntsPath FileSystem.docsA = q then some ⟨[48], 0o644⟩
    else if FileSystem.docsA = q then some ⟨[], 0o644⟩ else none := by
  rw [storedDocs, FileSystem.file?_setFile, FileSystem.file?_addDir, FileSystem.file?_docs]

theorem sweptDocs_listed (q : FilePath) : sweptDocs.Listed q ↔ q = FileSystem.docsA := by
  constructor
  · rintro ⟨hfile, hlist⟩
    have hne := FileSystem.file?_ne_none.mpr hfile
    rw [show sweptDocs.node.files = storedDocs from rfl, file?_storedDocs] at hne
    by_cases hhash : wntsPath FileSystem.docsA = q
    · exact absurd (hhash ▸ wnts_mem_wntsPath _) hlist.notMeta
    · rw [if_neg hhash] at hne
      by_contra hq
      exact hne (if_neg (Ne.symm hq))
  · rintro rfl
    have hfile : storedDocs.file? FileSystem.docsA = some ⟨[], 0o644⟩ := by
      rw [file?_storedDocs, if_neg (by decide), if_pos rfl]
    exact ⟨FileSystem.mem_files_of_file? hfile, _, List.mem_singleton.mpr rfl, by decide⟩

/-- Of its maps, one has `docs/a` with its time, and the other nothing. -/
theorem sweptDocs_timestamps (q : FilePath) (pair : FileTime × UInt64) :
    sweptDocs.sweeper.timestamps[q]? = some pair ↔ q = FileSystem.docsA ∧ pair = (0, 0) := by
  have hsweep : ({} : FilesystemSweeper).sweep listingDocs =
      ((({} : FilesystemSweeper).sweep listingDocs).1, some sweptDocs.sweeper) := rfl
  have honce : ListedOnce listingDocs := List.nodup_singleton _
  rw [timestamps_total rfl honce (by decide) (by simp) hsweep]
  show (∃ t, (q, Stat.time t) ∈ [(FileSystem.docsA, Stat.time 0)] ∧ pair = (t, 0)) ↔ _
  simp

theorem sweptDocs_fast (q : FilePath) : q ∉ sweptDocs.sweeper.fastTrackTimestamps := by
  have hempty : sweptDocs.sweeper.fastTrackTimestamps.toList = [] := by decide
  intro hq
  obtain ⟨pair, hpair⟩ := mem_iff_exists.mp hq
  rw [← Std.TreeMap.mem_toList_iff_getElem?_eq_some, hempty] at hpair
  cases hpair

theorem sweptDocs_agrees : sweptDocs.Agrees where
  folders folder hfolder := by
    rw [List.mem_singleton.mp hfolder]
    exact of_decide_eq_true rfl
  tracked q := by
    rw [sweptDocs_listed, mem_iff_exists]
    simp [sweptDocs_timestamps]
  times q pair hpair := by
    rw [((sweptDocs_timestamps q pair).mp hpair).2]
    rfl
  fast q pair hpair := absurd (mem_iff_exists.mpr ⟨pair, hpair⟩) (sweptDocs_fast q)
  stored q hq := by
    rw [(sweptDocs_listed q).mp hq]
    refine ⟨⟨[], 0o644⟩, ⟨[48], 0o644⟩, ?_, ?_, fun oldHash => rfl⟩
    · rw [show sweptDocs.node.files = storedDocs from rfl, file?_storedDocs, if_neg (by decide),
        if_pos rfl]
    · rw [show sweptDocs.node.files = storedDocs from rfl, file?_storedDocs, if_pos rfl]

/-- Another node's change to `docs/a`. -/
def remoteEdit (fileContent : Bytes) : FileContentMessage where
  type := .contentChange
  receiverNode := .ipv6Unspecified
  originatorNode := .ipv4 0x0a000001
  messageHash := 0
  targetFile := ⟨[100, 111, 99, 115, 47, 97]⟩
  timestamp := 0
  fileContent

/-- The sweeps up to the next total one, as one in ten is. -/
def nextSweeps : List SweepCall :=
  (List.range' 1 10).map fun iteration =>
    ⟨iteration % 10 = 0, 21000000000 + 1000000000 * iteration, fun _ => ⟨0, 0, 0⟩⟩

/-- A change with the hash of the old content is not echoed. -/
theorem same_hash_not_echoed : ∃ s',
    sweptDocs.process Node.readerSetting 21000000000 (.contentChange (remoteEdit [0])) = some s' ∧
      s'.NoEcho Node.readerSetting.host := by
  have hsome : (sweptDocs.process Node.readerSetting 21000000000
      (.contentChange (remoteEdit [0]))).isSome = true := by decide +kernel
  obtain ⟨s', hs'⟩ := Option.isSome_iff_exists.mp hsome
  refine ⟨s', hs', (no_echo _ _ _ run_sweptDocs sweptDocs_agrees hs').1 ?_⟩
  intro f _ hf _
  have hfile : storedDocs.file? FileSystem.docsA = some ⟨[], 0o644⟩ := by
    rw [file?_storedDocs, if_neg (by decide), if_pos rfl]
  obtain rfl := Option.some_inj.mp (hfile.symm.trans hf)
  exact Or.inr rfl

/-- Another is: the next total sweep broadcasts the content back. -/
theorem new_content_echoed : ∃ (env : Setting) (now : FileTime) (s s' : Station) (n : Nat)
    (r : Remote), Run SweepStep n {} s.sweeper ∧ s.Agrees ∧ r.originatorNode ≠ env.host.self ∧
    s.process env now r = some s' ∧ ¬ s'.NoEcho env.host := by
  have hsome : (sweptDocs.process Node.readerSetting 21000000000
      (.contentChange (remoteEdit [1]))).isSome = true := by decide +kernel
  obtain ⟨s', hs'⟩ := Option.isSome_iff_exists.mp hsome
  refine ⟨Node.readerSetting, _, _, s', 1, _, run_sweptDocs, sweptDocs_agrees, ?_, hs', ?_⟩
  · decide
  · have hloud : ((sweptDocs.process Node.readerSetting 21000000000
        (.contentChange (remoteEdit [1]))).elim false fun s' =>
          (s'.sweeps Node.readerSetting.host nextSweeps).any fun m => Loud m) = true := by
      decide +kernel
    rw [hs'] at hloud
    obtain ⟨m, hm, hm'⟩ := List.any_eq_true.mp hloud
    exact fun hecho => hecho nextSweeps m hm (of_decide_eq_true hm')

end Station

end WhisperNet
