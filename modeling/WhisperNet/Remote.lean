import WhisperNet.Broadcasts

/-!
# Messages that change files

The handlers of the messages that change files, over a node and its sweeper. They write and remove
files without telling the sweeper, and store no hash for what they write.

* `Station.process` — the handlers, with the times at which they write.
* `Agrees` — the sweeper and the stored hashes agree with the files.
* `silent_iff` — what a change to one file does to the silence of such a station.
* `Harmless` — which messages are not broadcast back.
-/

namespace WhisperNet

open Bin Fs Effect FilesystemSweeper

/-! ## Processing -/

/-- A message that changes files. -/
inductive Remote
  | contentChange (m : FileContentMessage)
  | deleteFile (m : FileMessage)
  | initialSync (m : FileInitialSyncMessage)
  | connect (m : ConnectMessage)
  deriving DecidableEq

/-- The node the message came from. -/
def Remote.originatorNode : Remote → IpAddress
  | contentChange m => m.originatorNode
  | deleteFile m => m.originatorNode
  | initialSync m => m.originatorNode
  | connect m => m.originatorNode

/-- What `saveContent` does up to opening the file, and whether that opened. -/
def openFile (host : Host) (p : FilePath) : Fs Bool := do
  createDirectories p.dropLast
  ofstream host p

/-- The same of `processContentFileMessage`. -/
def openContent (host : Host) (connected : Bool) (m : FileContentMessage) : Fs Bool :=
  if !connected then return false
  else do
    match ← permissionsToAdd host (filePath m.targetFile) m.originatorNode with
    | none => return false
    | some perms => do
      addPermissions (filePath m.targetFile) perms
      openFile host (filePath m.targetFile)

namespace Station

/-- A file that has been opened for writing has been written to now. -/
def touch (s : Station) (opened : Fs Bool) (p : FilePath) (now : FileTime) : FilePath → FileTime :=
  if value? (opened s.node.files) = some true then Function.update s.mtime p now else s.mtime

section Process

variable (env : Setting) (now : FileTime) (s : Station)

/-- A handler that returned, and the times of the files then. -/
def handled (op : Node.FileOp) (mtime : FilePath → FileTime) : Option Station :=
  match Node.handle { env with folders := s.folders } op s.node with
  | .ok _ node => some { s with node, mtime }
  | .error _ _ => none

/-- `processConnectMessage`, without the backup peers. -/
def processConnectMessage (m : ConnectMessage) : Option Station :=
  let folders := m.managedPaths.map filePath
  match prepareFolders folders s.node.files with
  | .ok _ files => some { s with
      node := { s.node with files, receivedInitialFiles := 0, totalInitialFiles := 1 }
      folders }
  | .error _ _ => none

/-- The handler of the message at the time `now`, unless an exception ends the program. -/
def process : Remote → Option Station
  | .contentChange m => s.handled env (.contentChange m)
      (s.touch (openContent env.host s.node.isFinishedConnecting m) (filePath m.targetFile) now)
  | .deleteFile m => s.handled env (.deleteFile m) s.mtime
  | .initialSync m => s.handled env (.initialSync m)
      (s.touch (openFile env.host (filePath m.targetFile)) (filePath m.targetFile) now)
  | .connect m => s.processConnectMessage m

end Process

/-! ## Agreement -/

/-- The maps of the sweeper and the stored hashes agree with the files: a total sweep lists what
`timestamps` has, with these times, and every hash is stored. -/
structure Agrees (s : Station) : Prop where
  folders : s.Open
  tracked : ∀ q, q ∈ s.sweeper.timestamps ↔ s.Listed q
  times : ∀ (q : FilePath) (pair : FileTime × UInt64),
    s.sweeper.timestamps[q]? = some pair → pair.1 = s.mtime q
  fast : ∀ (q : FilePath) (pair : FileTime × UInt64),
    s.sweeper.fastTrackTimestamps[q]? = some pair → s.Listed q ∧ pair.1 = s.mtime q
  stored : ∀ q, s.Listed q → Stored s.node.files q

theorem Agrees.listed_of_fast {s : Station} (h : s.Agrees) {q : FilePath}
    (hq : q ∈ s.sweeper.fastTrackTimestamps) : s.Listed q := by
  obtain ⟨pair, hpair⟩ := mem_iff_exists.mp hq
  exact (h.fast q pair hpair).1

/-! ## One file -/

/-- Apart from `p`, the files outside of `.wnts` are those that were there, with their times. -/
structure Beside (s : Station) (p : FilePath) (s' : Station) : Prop where
  sweeper : s'.sweeper = s.sweeper
  folders : s'.folders = s.folders
  files : ∀ q, q ≠ p → wnts ∉ q → (q ∈ s'.node.files.files ↔ q ∈ s.node.files.files)
  mtime : ∀ q, q ≠ p → s'.mtime q = s.mtime q

section OneFile

variable {s s' : Station} {p q : FilePath}

theorem Beside.listed (hb : s.Beside p s') (hq : q ≠ p) : s'.Listed q ↔ s.Listed q := by
  unfold Listed
  rw [hb.folders]
  constructor
  · rintro ⟨hfile, hlist⟩
    exact ⟨(hb.files q hq hlist.notMeta).mp hfile, hlist⟩
  · rintro ⟨hfile, hlist⟩
    exact ⟨(hb.files q hq hlist.notMeta).mpr hfile, hlist⟩

/-- **One file.** After a change to `p`, a station that was in agreement is silent exactly when
`p`, if it was listed, is there and no newer than it was or stored, and if it is listed now, is
stored. -/
theorem silent_iff (h : s.Agrees) (hb : s.Beside p s') (hopen : s.Listed p → s'.Open) :
    s'.Silent ↔
      (s.Listed p → p ∈ s'.node.files.files ∧
        (s'.mtime p ≤ s.mtime p ∨ Stored s'.node.files p)) ∧
      (¬ s.Listed p → s'.Open → s'.Listed p → Stored s'.node.files p) := by
  constructor
  · intro hsilent
    refine ⟨fun hp => ?_, fun hp hopen' hp' => ?_⟩
    · have htracked := (h.tracked p).mpr hp
      have hp' := hsilent.kept (hopen hp) p (by rwa [hb.sweeper])
      refine ⟨hp'.1, (hsilent.listed (hopen hp) p hp').imp_left ?_⟩
      rintro ⟨pair, hpair, hle⟩
      rw [hb.sweeper] at hpair
      rwa [h.times p pair hpair] at hle
    · refine (hsilent.listed hopen' p hp').resolve_left ?_
      rintro ⟨pair, hpair, -⟩
      rw [hb.sweeper] at hpair
      exact hp ((h.tracked p).mp (mem_iff_exists.mpr ⟨pair, hpair⟩))
  · rintro ⟨hlisted, hnew⟩
    refine ⟨fun hopen' q hq => ?_, fun hopen' q hq => ?_, fun q hq => ?_, fun q hq => ?_⟩
    · by_cases hp : s.Listed q
      · obtain ⟨pair, hpair⟩ := mem_iff_exists.mp ((h.tracked q).mpr hp)
        have htime := h.times q pair hpair
        rw [← hb.sweeper] at hpair
        by_cases heq : q = p
        · subst heq
          refine (hlisted hp).2.imp_left fun hle => ⟨pair, hpair, ?_⟩
          rwa [htime]
        · exact Or.inl ⟨pair, hpair, by rw [htime, hb.mtime q heq]⟩
      · have heq : q = p := by
          by_contra hne
          exact hp ((hb.listed hne).mp hq)
        subst heq
        exact Or.inr (hnew hp hopen' hq)
    · rw [hb.sweeper] at hq
      have hp := (h.tracked q).mp hq
      by_cases heq : q = p
      · subst heq
        refine ⟨(hlisted hp).1, ?_⟩
        rw [hb.folders]
        exact hp.2
      · exact (hb.listed heq).mpr hp
    · rw [hb.sweeper] at hq
      have hp := h.listed_of_fast hq
      by_cases heq : q = p
      · subst heq
        exact (hlisted hp).1
      · exact (hb.files q heq hp.2.notMeta).mpr hp.1
    · rw [hb.sweeper] at hq ⊢
      obtain ⟨pair, hpair⟩ := mem_iff_exists.mp hq
      obtain ⟨hp, htime⟩ := h.fast q pair hpair
      by_cases heq : q = p
      · subst heq
        refine (hlisted hp).2.imp_left fun hle => ⟨pair, hpair, ?_⟩
        rwa [htime]
      · exact Or.inl ⟨pair, hpair, by rw [htime, hb.mtime q heq]⟩

/-- What was on the fast track is still where a file may be. -/
theorem tracking_of_beside (h : s.Agrees) (hb : s.Beside p s')
    (hstale : ∀ total (q : FilePath) (pair : FileTime × UInt64),
      (s.sweeper.map total)[q]? = some pair → pair.2 ≠ s.sweeper.iteration)
    (hfolder : s.Listed p → p ∉ s'.node.files.dirs ∧ p.dropLast ∈ s'.node.files.dirs) :
    s'.Tracking := by
  have hplace : ∀ q ∈ s'.sweeper.fastTrackTimestamps,
      q ∉ s'.node.files.dirs ∧ q.dropLast ∈ s'.node.files.dirs := by
    intro q hq
    rw [hb.sweeper] at hq
    have hlisted := h.listed_of_fast hq
    by_cases heq : q = p
    · subst heq
      exact hfolder hlisted
    · have hfile := (hb.files q heq hlisted.2.notMeta).mpr hlisted.1
      exact ⟨s'.node.files.disjoint q hfile, s'.node.files.parent_file q hfile⟩
  refine ⟨?_, fun q hq => (hplace q hq).1, fun q hq => (hplace q hq).2⟩
  rw [hb.sweeper]
  exact hstale

/-- The content of `p` is replaced now, if it is written, and stays the same otherwise. -/
structure Rewrites (s : Station) (p : FilePath) (written : Prop) (content : Bytes)
    (now : FileTime) (s' : Station) : Prop where
  yes : written → (∃ f, s'.node.files.file? p = some f ∧ f.content = content) ∧ s'.mtime p = now
  no : ¬ written → (∃ f f', s.node.files.file? p = some f ∧ s'.node.files.file? p = some f' ∧
    f'.content = f.content) ∧ s'.mtime p = s.mtime p
  hashFile : s'.node.files.file? (wntsPath p) = s.node.files.file? (wntsPath p)

theorem Rewrites.file_mem {written : Prop} {content : Bytes} {now : FileTime}
    (h : s.Rewrites p written content now s') : p ∈ s'.node.files.files := by
  by_cases hw : written
  · obtain ⟨⟨f, hf, -⟩, -⟩ := h.yes hw
    exact FileSystem.mem_files_of_file? hf
  · obtain ⟨⟨f, f', -, hf', -⟩, -⟩ := h.no hw
    exact FileSystem.mem_files_of_file? hf'

/-- A file is stored after it has been rewritten when the hash stays the same. -/
theorem stored_rewritten {fs fs' : FileSystem} {f f' : File} (h : Stored fs p)
    (hhash : fs'.file? (wntsPath p) = fs.file? (wntsPath p)) (hf : fs.file? p = some f)
    (hf' : fs'.file? p = some f') : Stored fs' p ↔ hash f'.content = hash f.content := by
  obtain ⟨_, g, hf₀, hg, hread⟩ := h
  obtain rfl := Option.some_inj.mp (hf₀.symm.trans hf)
  constructor
  · rintro ⟨_, g', hf₁, hg', hread'⟩
    obtain rfl := Option.some_inj.mp (hf₁.symm.trans hf')
    obtain rfl := Option.some_inj.mp (hg.symm.trans (hhash.symm.trans hg'))
    rw [← hread' 0, hread 0]
  · intro heq
    refine ⟨f', g, hf', hhash.trans hg, fun oldHash => ?_⟩
    rw [heq, hread]

/-- A listed file that is rewritten is no change to broadcast unless it is newer and has another
hash. -/
theorem Rewrites.quiet_iff {written : Prop} {content : Bytes} {now : FileTime} {f : File}
    (h : s.Rewrites p written content now s') (hstored : Stored s.node.files p)
    (hf : s.node.files.file? p = some f) :
    (p ∈ s'.node.files.files ∧ (s'.mtime p ≤ s.mtime p ∨ Stored s'.node.files p)) ↔
      (written → now ≤ s.mtime p ∨ hash content = hash f.content) := by
  by_cases hw : written
  · obtain ⟨⟨f', hf', rfl⟩, htime⟩ := h.yes hw
    have hfile := FileSystem.mem_files_of_file? hf'
    rw [htime, stored_rewritten hstored h.hashFile hf hf']
    simp [hw, hfile]
  · obtain ⟨⟨f₀, f', -, hf', -⟩, htime⟩ := h.no hw
    have hfile := FileSystem.mem_files_of_file? hf'
    simp [hw, hfile, htime]

end OneFile

/-! ## What is harmless -/

/-- The permissions the message may add to the file, unless its lock forbids the change. -/
def allowed (host : Host) (s : Station) (p : FilePath) (originatorNode : IpAddress) :
    Option Perms :=
  allowance host (lockRecord host.platform s.node.files p) originatorNode

/-- `processContentFileMessage` overwrites the file `f`. -/
def Overwrites (host : Host) (s : Station) (m : FileContentMessage) (f : File) : Prop :=
  s.node.isFinishedConnecting = true ∧ ∃ perms,
    s.allowed host (filePath m.targetFile) m.originatorNode = some perms ∧
      host.CanWrite (f.perms ||| perms)

/-- A connection makes a hash file of what is in the new folders one of the folders: it is removed,
and total sweeps end the program. -/
def Collides (s : Station) (folders : List FilePath) : Prop :=
  ∃ p ∈ s.node.files.files, Listable folders p ∧ wntsPath p ∈ folders

/-- The message is not broadcast back. -/
def Harmless (host : Host) (now : FileTime) (s : Station) : Remote → Prop
  | .contentChange m => ∀ f, s.Listed (filePath m.targetFile) →
      s.node.files.file? (filePath m.targetFile) = some f → s.Overwrites host m f →
      now ≤ s.mtime (filePath m.targetFile) ∨ hash m.fileContent = hash f.content
  | .deleteFile m => s.Listed (filePath m.targetFile) → s.node.isFinishedConnecting = true →
      s.allowed host (filePath m.targetFile) m.originatorNode = none
  | .initialSync m =>
      (∀ f, s.Listed (filePath m.targetFile) →
        s.node.files.file? (filePath m.targetFile) = some f → host.CanWrite f.perms →
        now ≤ s.mtime (filePath m.targetFile) ∨ hash m.fileContent = hash f.content) ∧
      (Listable s.folders (filePath m.targetFile) →
        filePath m.targetFile ∉ s.node.files.files → filePath m.targetFile ∉ s.node.files.dirs →
        ∃ g, s.node.files.file? (wntsPath (filePath m.targetFile)) = some g ∧
          ∀ oldHash, extractSize oldHash g.content = hash m.fileContent)
  | .connect m =>
      ((∀ q, ¬ s.Listed q) ∨ s.Collides (m.managedPaths.map filePath)) ∧
      ∀ q ∈ s.sweeper.fastTrackTimestamps, ¬ Listable (m.managedPaths.map filePath) q

end Station

end WhisperNet
