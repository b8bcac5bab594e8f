import WhisperNet.Broadcasts
import WhisperNet.Metadata

/-!
# Startup

`FilesystemSweeper::setup` removes the `.wnts` folder of each managed folder, so that the first
sweep finds no stored hash and broadcasts every file. The hashes themselves are kept under the
first element of a path, which is a managed folder only if that folder has one element.

* `setup_ok` — what is left after setting up.
* `callbacks_announce` — files without a stored hash are broadcast.
* `startsAfresh_iff` — exactly when setting up does what it is for.
-/

namespace WhisperNet

open Bin Fs FsPath

/-! ## Removing a tree -/

namespace FileSystem

variable (fs : FileSystem) (p q : FilePath)

theorem mem_filter_files : q ∈ fs.files.filter (fun q _ => !decide (p <+: q)) ↔
    q ∈ fs.files ∧ ¬ p <+: q := by
  simp [Std.ExtTreeMap.mem_filter]

theorem mem_filter_dirs : q ∈ fs.dirs.filter (fun q => !decide (p <+: q)) ↔
    q ∈ fs.dirs ∧ ¬ p <+: q := by
  simp [Std.ExtTreeSet.mem_filter]

variable {p q}

theorem not_prefix_dropLast (h : ¬ p <+: q) : ¬ p <+: q.dropLast := fun hin =>
  h (hin.trans (List.dropLast_prefix q))

variable (p)

/-- The file system without a file or directory and all that is in it. -/
def eraseTree (hroot : p ≠ []) : FileSystem where
  files := fs.files.filter fun q _ => !decide (p <+: q)
  dirs := fs.dirs.filter fun q => !decide (p <+: q)
  root := (fs.mem_filter_dirs p []).mpr ⟨fs.root, fun hin => hroot (List.prefix_nil.mp hin)⟩
  parent_file q hq := by
    obtain ⟨hq, hout⟩ := (fs.mem_filter_files p q).mp hq
    exact (fs.mem_filter_dirs p _).mpr ⟨fs.parent_file q hq, not_prefix_dropLast hout⟩
  parent_dir d hd := by
    obtain ⟨hd, hout⟩ := (fs.mem_filter_dirs p d).mp hd
    exact (fs.mem_filter_dirs p _).mpr ⟨fs.parent_dir d hd, not_prefix_dropLast hout⟩
  disjoint q hq hd :=
    fs.disjoint q ((fs.mem_filter_files p q).mp hq).1 ((fs.mem_filter_dirs p q).mp hd).1

end FileSystem

namespace Fs

/-- `remove_all(p)` -/
def removeAll (p : FilePath) : Fs Unit := fun fs =>
  if h : p ≠ [] then .ok () (fs.eraseTree p h) else .ok () fs

end Fs

/-! ## Setting up -/

/-- `FilesystemSweeper::setup`: remove all of the `.wnts` folders. -/
def FilesystemSweeper.setup : List FsPath → Fs Unit
  | [] => pure ()
  | folder :: folders => do
    removeAll (filePath (folder.append ⟨wnts⟩))
    FilesystemSweeper.setup folders

/-- A relative path in normal form that names a folder. -/
structure ManagedFolder (folder : FsPath) : Prop where
  normal : folder.lexicallyNormal = folder
  relative : folder.isAbsolute = false
  named : folder.native ≠ []

/-- The names of a folder, which its files have in front of theirs. -/
theorem ManagedFolder.layout {folder : FsPath} (h : ManagedFolder folder) : ∃ n ns trail,
    (∀ m ∈ n :: ns, IsName m) ∧ folder.names = n :: ns ∧ folder = ⟨render false n ns trail⟩ := by
  have helements : folder.elements =
      FsPath.layout false folder.names (folder.endsWithSlash && !folder.names.isEmpty) := by
    rw [elements, h.relative]
  have hbuilt := ofElements_elements_normal folder
  rw [h.normal, helements] at hbuilt
  cases hnames : folder.names with
  | nil =>
    rw [hnames] at hbuilt
    have hempty : folder = ⟨[]⟩ := by simpa [FsPath.layout, ofElements] using hbuilt.symm
    exact absurd (congrArg native hempty) h.named
  | cons n ns =>
    have hname : ∀ m ∈ n :: ns, IsName m := fun m hm => by
      rw [← hnames] at hm
      exact isName_of_mem_split hm
    refine ⟨n, ns, folder.endsWithSlash, hname, rfl, ?_⟩
    rw [hnames] at hbuilt
    rw [← ofElements_layout false (hname n List.mem_cons_self) fun m hm =>
      hname m (List.mem_cons_of_mem _ hm)]
    simpa using hbuilt.symm

/-- What is removed for a folder. -/
theorem ManagedFolder.wntsFolder {folder : FsPath} (h : ManagedFolder folder) :
    filePath (folder.append ⟨wnts⟩) = folder.names ++ [wnts] := by
  obtain ⟨n, ns, trail, hname, hnames, hfolder⟩ := h.layout
  have hn := hname n List.mem_cons_self
  have hns : ∀ m ∈ ns, IsName m := fun m hm => hname m (List.mem_cons_of_mem _ hm)
  have hwnts : IsName wnts := ⟨by decide, by decide⟩
  have hall : ∀ m ∈ ns ++ [wnts], IsName m := by
    intro m hm
    rcases List.mem_append.mp hm with hm | hm
    · exact hns m hm
    · rwa [List.mem_singleton.mp hm]
  have happend : folder.append ⟨wnts⟩ = ⟨render false n (ns ++ [wnts]) false⟩ := by
    rw [hfolder]
    cases trail with
    | true => exact append_trail hwnts
    | false =>
      have hend : (render false n ns false).getLast? ≠ some slash := by
        have hlast := getLast?_join hn hns []
        simpa [render] using hlast
      have hne : render false n ns false ≠ [] := by simp [render, hn.1]
      have hparted := @append_name ⟨render false n ns false⟩ wnts hne hend hwnts.head
      rw [hparted, render_concat]
      simp [render]
  rw [happend, filePath, elements_render false hn hall, hnames]
  simp [FsPath.layout]

/-- In the `.wnts` folder of one of the folders. -/
def InWnts (folders : List FilePath) (q : FilePath) : Prop :=
  ∃ folder ∈ folders, folder ++ [wnts] <+: q

/-- What is left is what was in no `.wnts` folder. -/
structure Cleared (folders : List FilePath) (fs fs' : FileSystem) : Prop where
  file? : ∀ q, ¬ InWnts folders q → fs'.file? q = fs.file? q
  files : ∀ q, q ∈ fs'.files ↔ q ∈ fs.files ∧ ¬ InWnts folders q
  dirs : ∀ q, q ∈ fs'.dirs ↔ q ∈ fs.dirs ∧ ¬ InWnts folders q

theorem not_inWnts_cons {folder : FilePath} {folders : List FilePath} {q : FilePath} :
    ¬ InWnts (folder :: folders) q ↔ ¬ folder ++ [wnts] <+: q ∧ ¬ InWnts folders q := by
  rw [InWnts, List.exists_mem_cons_iff, not_or]
  rfl

theorem file?_eraseTree (fs : FileSystem) {p q : FilePath} (hroot : p ≠ []) (h : ¬ p <+: q) :
    (fs.eraseTree p hroot).file? q = fs.file? q := by
  show (fs.files.filter fun q _ => !decide (p <+: q))[q]? = _
  have hkept : (!decide (p <+: q)) = true := by simpa using h
  rw [Std.ExtTreeMap.getElem?_filter', hkept]
  show Option.filter (fun _ => true) (fs.file? q) = fs.file? q
  cases fs.file? q <;> rfl

/-- **Setting up.** -/
theorem setup_ok {folders : List FsPath} (h : ∀ folder ∈ folders, ManagedFolder folder)
    (fs : FileSystem) : ∃ fs', FilesystemSweeper.setup folders fs = .ok () fs' ∧
      Cleared (folders.map names) fs fs' := by
  induction folders generalizing fs with
  | nil => exact ⟨fs, rfl, fun _ _ => rfl, by simp [InWnts], by simp [InWnts]⟩
  | cons folder folders ih =>
    obtain ⟨hfolder, hfolders⟩ := List.forall_mem_cons.mp h
    have hroot : folder.names ++ [wnts] ≠ [] := by simp
    have hremove : removeAll (filePath (folder.append ⟨wnts⟩)) fs =
        .ok () (fs.eraseTree _ hroot) := by
      rw [hfolder.wntsFolder]
      exact dif_pos hroot
    obtain ⟨fs', hrest, hcleared⟩ := ih hfolders (fs.eraseTree _ hroot)
    refine ⟨fs', by rw [FilesystemSweeper.setup, Effect.bind_ok hremove, hrest], ?_, ?_, ?_⟩
    · intro q hq
      obtain ⟨hhere, hthere⟩ := not_inWnts_cons.mp hq
      rw [hcleared.file? q hthere, file?_eraseTree fs hroot hhere]
    · intro q
      rw [hcleared.files, List.map_cons, not_inWnts_cons, ← and_assoc]
      exact and_congr_left' (fs.mem_filter_files _ q)
    · intro q
      rw [hcleared.dirs, List.map_cons, not_inWnts_cons, ← and_assoc]
      exact and_congr_left' (fs.mem_filter_dirs _ q)

/-- The metadata of a file is in the `.wnts` folder of its first element only. -/
theorem wntsFolder_prefix {p folder : FilePath} (h : Managed p) :
    folder ++ [wnts] <+: wntsPath p ↔ folder = p.take 1 := by
  cases p with
  | nil => exact absurd h.inFolder (by simp)
  | cons first rest =>
    have hfirst : wnts ≠ first := fun heq => h.notMeta (by simp [heq])
    have hrest : wnts ∉ rest := fun hmem => h.notMeta (List.mem_cons_of_mem _ hmem)
    match folder with
    | [] => simp [wntsPath, hfirst]
    | [name] => simp [wntsPath]
    | name :: next :: more =>
      refine ⟨fun hin => ?_, fun heq => by simp at heq⟩
      obtain ⟨tail, htail⟩ := hin
      have hparts : rest = more ++ wnts :: tail := by
        simp only [wntsPath, List.cons_append, List.cons.injEq] at htail
        simpa using htail.2.2.symm
      exact absurd (by simp [hparts]) hrest

theorem inWnts_wntsPath {folders : List FilePath} {p : FilePath} (h : Managed p) :
    InWnts folders (wntsPath p) ↔ p.take 1 ∈ folders := by
  simp [InWnts, wntsFolder_prefix h]

theorem inWnts_lockFilePath {folders : List FilePath} {p : FilePath} (h : Managed p) :
    InWnts folders (lockFilePath p) ↔ p.take 1 ∈ folders := by
  rw [Native.lockFilePath_eq_wntsPath h, inWnts_wntsPath (Native.lockNamed_managed h)]
  match p, h.inFolder with
  | first :: name :: rest, _ => simp [Native.lockNamed]

/-- A managed file is in no `.wnts` folder. -/
theorem Listable.not_inWnts {folders folders' : List FilePath} {p : FilePath}
    (h : Listable folders p) : ¬ InWnts folders' p := by
  intro ⟨folder, _, hin⟩
  exact h.notMeta (hin.subset (by simp))

/-! ## What is announced -/

/-- One of the messages has the content of the file. -/
def Announces (p : FilePath) (f : File) (sent : List AnyMessage) : Prop :=
  ∃ m, .fileContent m ∈ sent ∧ m.type = .contentChange ∧ m.targetFile = .ofElements p ∧
    m.fileContent = f.content

/-- A file without a stored hash. -/
structure Unstored (p : FilePath) (f : File) (fs : FileSystem) : Prop where
  file : fs.file? p = some f
  hash : fs.file? (wntsPath p) = none
  dir : wntsPath p ∉ fs.dirs

/-- The event calls for the content of its file. -/
def SweepEvent.OfContent (event : SweepEvent) : Prop :=
  event = .created event.path ∨ event = .modified event.path

section Callbacks

variable (host : Host) (mtime : FilePath → FileTime)

theorem storeHash_sets (p : FilePath) (hash : UInt64) (fs : FileSystem) :
    ∃ fs', storeHash host p hash fs = .ok () fs' ∧
      (fs' = fs ∨ ∃ g, fs.Sets (wntsPath p) (some g) fs') := by
  obtain ⟨isOpen, fs₁, hopen⟩ := ofstream_returns host (wntsPath p) fs
  rw [storeHash, Effect.bind_ok hopen]
  cases isOpen with
  | true =>
    obtain ⟨perms, hset⟩ := ofstream_true hopen
    obtain ⟨fs₂, happend, hset'⟩ := append_ok (toDecimal hash.toNat) hset.here
    exact ⟨fs₂, happend, Or.inr ⟨_, hset.trans hset'⟩⟩
  | false => exact ⟨fs₁, rfl, Or.inl (ofstream_false hopen)⟩

/-- About a file that is there, a callback returns and changes at most the file's hash. -/
theorem callback_sets (r : Readings) {event : SweepEvent} {f : File} {fs : FileSystem}
    (hf : fs.file? event.path = some f) : ∃ sent fs',
      callback host mtime r event fs = .ok sent fs' ∧
      (fs' = fs ∨ event.OfContent ∧ ∃ g, fs.Sets (wntsPath event.path) (some g) fs') := by
  have hcontent : ∀ p, event = .created p ∨ event = .modified p → event.path = p →
      ∃ sent fs', onFileCreatedOrModified host mtime r p fs = .ok sent fs' ∧
        (fs' = fs ∨ event.OfContent ∧ ∃ g, fs.Sets (wntsPath p) (some g) fs') := by
    intro p hevent hpath
    subst hpath
    obtain ⟨fs', hstore, hsets⟩ := storeHash_sets host event.path (hash f.content) fs
    rw [onFileCreatedOrModified_file host mtime r hf]
    split
    · exact ⟨_, fs', Effect.bind_ok hstore, hsets.imp_right fun hg => ⟨hevent, hg⟩⟩
    · exact ⟨[], fs, rfl, Or.inl rfl⟩
  cases event with
  | created p => exact hcontent p (Or.inl rfl) rfl
  | modified p => exact hcontent p (Or.inr rfl) rfl
  | deleted p => exact ⟨_, fs, rfl, Or.inl rfl⟩
  | fastTracked p => exact ⟨_, fs, Effect.bind_ok (lastWriteTime_ok hf), Or.inl rfl⟩
  | unFastTracked p => exact ⟨_, fs, Effect.bind_ok (lastWriteTime_ok hf), Or.inl rfl⟩

/-- About a file without a stored hash it broadcasts the content. -/
theorem callback_announces (r : Readings) {event : SweepEvent} {f : File} {fs : FileSystem}
    (hevent : event.OfContent) (h : Unstored event.path f fs) : ∃ sent fs',
      callback host mtime r event fs = .ok sent fs' ∧ Announces event.path f sent := by
  obtain ⟨fs', hstore⟩ := storeHash_ok host event.path (hash f.content) fs
  have hfile : wntsPath event.path ∉ fs.files := fun hmem =>
    FileSystem.file?_ne_none.mpr hmem h.hash
  have hdiffers : Differs fs r.oldHash event.path (hash f.content) := Or.inl ⟨hfile, h.dir⟩
  have hrun := onFileCreatedOrModified_file host mtime r h.file
  rw [if_pos hdiffers, Effect.bind_ok hstore] at hrun
  have hannounces : Announces event.path f [.fileContent { fileMessage .contentChange event.path
      (r.convert (mtime event.path)) with fileContent := f.content }] :=
    ⟨_, List.mem_singleton.mpr rfl, rfl, rfl, rfl⟩
  rcases hevent with hevent | hevent
  · exact ⟨_, fs', by rw [hevent]; exact hrun, hannounces⟩
  · exact ⟨_, fs', by rw [hevent]; exact hrun, hannounces⟩

/-- **Files without a stored hash are announced.** -/
theorem callbacks_announce {readings : SweepEvent → Readings} {fs : FileSystem}
    {events : List SweepEvent} {p : FilePath} {f : File} (hp : Managed p) (h : Unstored p f fs)
    (hfiles : ∀ event ∈ events, event = .deleted event.path ∨
      fs.file? event.path ≠ none ∧ Managed event.path)
    (hevent : ∃ event ∈ events, event.OfContent ∧ event.path = p) :
    Announces p f (callbacks host mtime readings fs events).1 := by
  induction events generalizing fs with
  | nil => simp at hevent
  | cons event events ih =>
    obtain ⟨hhead, htail⟩ := List.forall_mem_cons.mp hfiles
    rw [callbacks]
    by_cases hnow : event.OfContent ∧ event.path = p
    · obtain ⟨hcontent, rfl⟩ := hnow
      obtain ⟨sent, fs', hrun, m, hm, hrest⟩ :=
        callback_announces host mtime (readings event) hcontent h
      rw [hrun]
      exact ⟨m, List.mem_append_left _ hm, hrest⟩
    · -- Any other event leaves the file, its missing hash and the files of the later events.
      have hlater : ∃ event' ∈ events, event'.OfContent ∧ event'.path = p := by
        obtain ⟨event', hmem, hcontent⟩ := hevent
        rcases List.mem_cons.mp hmem with rfl | hmem
        · exact absurd hcontent hnow
        · exact ⟨event', hmem, hcontent⟩
      have hstep : ∃ sent fs', callback host mtime (readings event) event fs = .ok sent fs' ∧
          Unstored p f fs' ∧ ∀ q, Managed q → fs.file? q ≠ none → fs'.file? q ≠ none := by
        rcases hhead with hdeleted | ⟨hfile, hmanaged⟩
        · rw [hdeleted]
          exact ⟨_, fs, rfl, h, fun q _ hq => hq⟩
        · obtain ⟨g, hg⟩ := Option.ne_none_iff_exists'.mp hfile
          obtain ⟨sent, fs', hrun, hsets⟩ := callback_sets host mtime (readings event) hg
          rcases hsets with rfl | ⟨hcontent, g', hset⟩
          · exact ⟨sent, fs', hrun, h, fun q _ hq => hq⟩
          · have hother : event.path ≠ p := fun heq => hnow ⟨hcontent, heq⟩
            have hhash : wntsPath event.path ≠ wntsPath p := fun heq =>
              hother (Native.wntsPath_inj hmanaged hp heq)
            have hmeta : ∀ q, Managed q → wntsPath event.path ≠ q := by
              intro q hq heq
              exact hq.notMeta (heq ▸ wnts_mem_wntsPath _)
            refine ⟨sent, fs', hrun, ⟨?_, ?_, ?_⟩, fun q hq hfile => ?_⟩
            · rw [hset.elsewhere (hmeta p hp), h.file]
            · rw [hset.elsewhere hhash, h.hash]
            · rw [hset.dirs]
              exact h.dir
            · rwa [hset.elsewhere (hmeta q hq)]
      obtain ⟨sent, fs', hrun, hkept, hfiles'⟩ := hstep
      have hmore := ih hkept (fun event' hmem => (htail event' hmem).imp_right
        fun hfile => ⟨hfiles' _ hfile.2 hfile.1, hfile.2⟩) hlater
      obtain ⟨m, hm, hrest⟩ := hmore
      rw [hrun]
      exact ⟨m, List.mem_append_right _ hm, hrest⟩

end Callbacks

/-! ## The first sweep -/

/-- Something is where the hash or the lock of the file would be. -/
def HasMetadata (fs : FileSystem) (p : FilePath) : Prop :=
  ∃ q ∈ [wntsPath p, lockFilePath p], q ∈ fs.files ∨ q ∈ fs.dirs

/-- The node after `setup`, with a sweeper that has not swept. -/
def Station.started (folders : List FsPath) (mtime : FilePath → FileTime) (node : Node) :
    Option Station :=
  match FilesystemSweeper.setup folders node.files with
  | .ok () files => some ⟨{ node with files }, folders.map names, mtime, {}⟩
  | .error _ _ => none

theorem Station.started_ok {folders : List FsPath} {mtime : FilePath → FileTime} {node : Node}
    {files : FileSystem} (h : FilesystemSweeper.setup folders node.files = .ok () files) :
    Station.started folders mtime node =
      some ⟨{ node with files }, folders.map names, mtime, {}⟩ := by
  rw [Station.started, h]

/-- No managed file has metadata, and the first total sweep broadcasts the content of each. -/
structure Station.Afresh (host : Host) (s : Station) : Prop where
  cleared : ∀ p, s.Listed p → ¬ HasMetadata s.node.files p
  announced : ∀ call : SweepCall, call.total = true → ∀ p f, s.Listed p →
    s.node.files.file? p = some f → Announces p f (s.sweep host call).1

/-- Metadata is left only of files whose first element is a managed folder, and if there are files
then no managed folder is in the `.wnts` folder of another. -/
structure Coincide (folders : List FilePath) (fs : FileSystem) : Prop where
  stored : ∀ p ∈ fs.files, Listable folders p → HasMetadata fs p → p.take 1 ∈ folders
  kept : (∃ p ∈ fs.files, Listable folders p) → ∀ folder ∈ folders, ¬ InWnts folders folder

/-- The files stay, and of their metadata what is not under a managed folder. -/
theorem Cleared.listed {folders : List FilePath} {fs fs' : FileSystem} {p : FilePath}
    (h : Cleared folders fs fs') :
    p ∈ fs'.files ∧ Listable folders p ↔ p ∈ fs.files ∧ Listable folders p := by
  rw [h.files]
  exact ⟨fun hp => ⟨hp.1.1, hp.2⟩, fun hp => ⟨⟨hp.1, hp.2.not_inWnts⟩, hp.2⟩⟩

theorem Cleared.hasMetadata {folders : List FilePath} {fs fs' : FileSystem} {p : FilePath}
    (h : Cleared folders fs fs') (hp : Managed p) :
    HasMetadata fs' p ↔ HasMetadata fs p ∧ p.take 1 ∉ folders := by
  have hkeeps : ∀ q ∈ [wntsPath p, lockFilePath p], (q ∈ fs'.files ∨ q ∈ fs'.dirs) ↔
      (q ∈ fs.files ∨ q ∈ fs.dirs) ∧ p.take 1 ∉ folders := by
    intro q hq
    have hin : InWnts folders q ↔ p.take 1 ∈ folders := by
      rcases List.mem_pair.mp hq with rfl | rfl
      · exact inWnts_wntsPath hp
      · exact inWnts_lockFilePath hp
    rw [h.files, h.dirs, ← or_and_right, hin]
  constructor
  · intro ⟨q, hq, hthere⟩
    obtain ⟨hbefore, hout⟩ := (hkeeps q hq).mp hthere
    exact ⟨⟨q, hq, hbefore⟩, hout⟩
  · intro ⟨⟨q, hq, hbefore⟩, hout⟩
    exact ⟨q, hq, (hkeeps q hq).mpr ⟨hbefore, hout⟩⟩

theorem named_of_managed {folders : List FsPath}
    (h : ∀ folder ∈ folders, ManagedFolder folder) : ∀ folder ∈ folders.map names, folder ≠ [] := by
  intro folder hmem
  obtain ⟨path, hpath, rfl⟩ := List.mem_map.mp hmem
  obtain ⟨n, ns, -, -, hnames, -⟩ := (h path hpath).layout
  simp [hnames]

section FirstSweep

variable {host : Host} {s : Station} {call : SweepCall} {p : FilePath} {f : File}

/-- The first total sweep of files without stored hashes. -/
theorem sweep_announces (hsweeper : s.sweeper = {}) (hopen : s.Open)
    (hmanaged : ∀ p, s.Listed p → Managed p) (htotal : call.total = true) (hp : s.Listed p)
    (h : Unstored p f s.node.files) : Announces p f (s.sweep host call).1 := by
  obtain ⟨paths, hlisting, hmem⟩ := Station.listing_ok hopen
  have hpaths : s.sweeper.paths (s.surroundings call paths) = paths.map fun p => (p, s.look p) :=
    Station.paths_total htotal
  have htimed : FilesystemSweeper.Timed s.mtime
      (s.sweeper.paths (s.surroundings call paths)) := by
    rw [hpaths]
    exact Station.timed_look fun q hq => ((hmem q).mp hq).1
  -- Nothing is known of the file, so the scan reports it.
  have hunsettled : ∃ file ∈ s.sweeper.paths (s.surroundings call paths),
      ¬ FilesystemSweeper.Settled s.mtime (· ≠ p) (s.sweeper.map call.total) file.1 := by
    refine ⟨(p, s.look p), ?_, ?_⟩
    · rw [hpaths]
      exact List.mem_map.mpr ⟨p, (hmem p).mpr hp, rfl⟩
    · rw [hsweeper, htotal]
      rintro (⟨pair, hpair, -⟩ | hne)
      · simp [FilesystemSweeper.map] at hpair
      · exact hne rfl
  obtain ⟨q, hq, hqp⟩ := FilesystemSweeper.scan_unsettled call.total s.sweeper htimed hunsettled
  obtain rfl := not_not.mp hqp
  have hreported : ∃ event ∈ (s.sweeper.sweep (s.surroundings call paths)).1,
      event.OfContent ∧ event.path = q := by
    rcases hq with hq | hq
    · exact ⟨_, FilesystemSweeper.mem_sweep_of_scan hq, Or.inl rfl, rfl⟩
    · exact ⟨_, FilesystemSweeper.mem_sweep_of_scan hq, Or.inr rfl, rfl⟩
  have hevents : ∀ event ∈ (s.sweeper.sweep (s.surroundings call paths)).1,
      event = .deleted event.path ∨ s.node.files.file? event.path ≠ none ∧ Managed event.path := by
    intro event hevent
    have hstale : ∀ (q : FilePath) (pair : FileTime × UInt64),
        (s.sweeper.map (s.surroundings call paths).total)[q]? = some pair →
          pair.2 ≠ s.sweeper.iteration := by
      intro q pair hpair
      rw [hsweeper] at hpair
      cases htot : (s.surroundings call paths).total <;>
        simp [FilesystemSweeper.map, htot] at hpair
    refine (FilesystemSweeper.deleted_or_scanned hstale hevent).imp_right fun hscanned => ?_
    obtain ⟨t, ht⟩ := FilesystemSweeper.time_of_scanned hscanned
    rw [hpaths] at ht
    obtain ⟨q', hq', heq⟩ := List.mem_map.mp ht
    obtain rfl : q' = event.path := congrArg Prod.fst heq
    have hlisted := (hmem _).mp hq'
    exact ⟨FileSystem.file?_ne_none.mpr hlisted.1, hmanaged _ hlisted⟩
  have hannounced : Announces q f (callbacks host s.mtime call.readings s.node.files
      (s.sweeper.sweep (s.surroundings call paths)).1).1 :=
    callbacks_announce host s.mtime (hmanaged q hp) h hevents hreported
  rw [Station.sweep, if_pos htotal, hlisting]
  exact hannounced

/-- A sweep that cannot list the files broadcasts nothing. -/
theorem sweep_closed (htotal : call.total = true) (h : ¬ s.Open) :
    (s.sweep host call).1 = [] := by
  have hlisting : s.listing = none := by
    by_contra hsome
    obtain ⟨paths, hpaths⟩ := Option.ne_none_iff_exists'.mp hsome
    exact h (Station.listing_eq_some hpaths).1
  rw [Station.sweep, if_pos htotal, hlisting]

end FirstSweep

/-- **A node starts afresh exactly when the metadata that is left is in the folders that setting up
removes, and these are not in the way of listing the files.** -/
theorem startsAfresh_iff (host : Host) (mtime : FilePath → FileTime) (folders : List FsPath)
    (node : Node) (hfolders : ∀ folder ∈ folders, ManagedFolder folder)
    (hopen : ∀ folder ∈ folders, folder.names ∈ node.files.dirs) :
    (∃ s, Station.started folders mtime node = some s ∧ s.Afresh host) ↔
      Coincide (folders.map names) node.files := by
  obtain ⟨files, hsetup, hcleared⟩ := setup_ok hfolders node.files
  have hnamed := named_of_managed hfolders
  have hlisted : ∀ p, p ∈ files.files ∧ Listable (folders.map names) p ↔
      p ∈ node.files.files ∧ Listable (folders.map names) p := fun p => hcleared.listed
  have hmeta : ∀ p, Listable (folders.map names) p →
      (HasMetadata files p ↔ HasMetadata node.files p ∧ p.take 1 ∉ folders.map names) :=
    fun p hp => hcleared.hasMetadata (hp.managed hnamed)
  rw [Station.started_ok hsetup]
  constructor
  · intro ⟨s, hs, hafresh⟩
    obtain rfl := Option.some_inj.mp hs
    constructor
    · intro p hp hlistable hhas
      by_contra hout
      exact hafresh.cleared p ((hlisted p).mpr ⟨hp, hlistable⟩)
        ((hmeta p hlistable).mpr ⟨hhas, hout⟩)
    · intro ⟨p, hp, hlistable⟩ folder hmem hin
      have hfile := (hlisted p).mpr ⟨hp, hlistable⟩
      obtain ⟨f, hf⟩ := Option.ne_none_iff_exists'.mp (FileSystem.file?_ne_none.mpr hfile.1)
      have hclosed : ¬ Station.Open ⟨{ node with files }, folders.map names, mtime, {}⟩ :=
        fun hopen' => ((hcleared.dirs folder).mp (hopen' folder hmem)).2 hin
      have hannounced := hafresh.announced ⟨true, 0, fun _ => ⟨0, 0, 0⟩⟩ rfl p f hfile hf
      rw [sweep_closed rfl hclosed] at hannounced
      obtain ⟨m, hm, -⟩ := hannounced
      exact absurd hm List.not_mem_nil
  · intro h
    have hafter : ∀ p, p ∈ files.files ∧ Listable (folders.map names) p →
        ¬ HasMetadata files p := by
      intro p hp hhas
      obtain ⟨hbefore, hout⟩ := (hmeta p hp.2).mp hhas
      exact hout (h.stored p ((hlisted p).mp hp).1 hp.2 hbefore)
    refine ⟨_, rfl, hafter, ?_⟩
    intro call htotal p f hp hf
    have hopen' : Station.Open ⟨{ node with files }, folders.map names, mtime, {}⟩ := by
      intro folder hmem
      obtain ⟨path, hpath, rfl⟩ := List.mem_map.mp hmem
      exact (hcleared.dirs _).mpr
        ⟨hopen path hpath, h.kept ⟨p, (hlisted p).mp hp⟩ _ hmem⟩
    have hnone : ¬ (wntsPath p ∈ files.files ∨ wntsPath p ∈ files.dirs) := fun hthere =>
      hafter p hp ⟨_, List.mem_cons_self, hthere⟩
    obtain ⟨hfile, hdir⟩ := not_or.mp hnone
    have hhash : files.file? (wntsPath p) = none := by
      by_contra hsome
      exact hfile (FileSystem.file?_ne_none.mp hsome)
    exact sweep_announces rfl hopen' (fun q hq => hq.2.managed hnamed) htotal hp
      ⟨hf, hhash, hdir⟩

/-! ## A folder in a folder -/

/-- `docs/b/f`, -/
def nestedF : FilePath := [[100, 111, 99, 115], [98], [102]]

/-- and the hash that an earlier run has stored for it. -/
def nestedDocs : FileSystem :=
  (((((FileSystem.empty.addDir [[100, 111, 99, 115]] (of_decide_eq_true rfl)
    (of_decide_eq_true rfl)).addDir nestedF.dropLast (of_decide_eq_true rfl)
    (of_decide_eq_true rfl)).addDir [[100, 111, 99, 115], wnts] (of_decide_eq_true rfl)
    (of_decide_eq_true rfl)).addDir (wntsPath nestedF).dropLast (of_decide_eq_true rfl)
    (of_decide_eq_true rfl)).setFile nestedF ⟨[], 0o644⟩ (of_decide_eq_true rfl)
    (of_decide_eq_true rfl)).setFile (wntsPath nestedF) ⟨[48], 0o644⟩ (of_decide_eq_true rfl)
    (of_decide_eq_true rfl)

/-- `docs` -/
def folderDocs : FsPath := ⟨[100, 111, 99, 115]⟩

/-- `docs/b` -/
def folderDocsB : FsPath := ⟨[100, 111, 99, 115, 47, 98]⟩

def nestedNode : Node := ⟨nestedDocs, [], 0, 0⟩

def starter : Host := ⟨.littleEndian, .ipv4 0x0a000002, false, 0o644⟩

theorem docs_managed : ∀ folder ∈ [folderDocs], ManagedFolder folder := by
  simp only [List.forall_mem_singleton]
  exact ⟨by decide, by decide, by decide⟩

theorem docsB_managed : ∀ folder ∈ [folderDocsB], ManagedFolder folder := by
  simp only [List.forall_mem_singleton]
  exact ⟨by decide, by decide, by decide⟩

/-- With `docs` managed, the hash goes. -/
theorem docs_startsAfresh : ∃ s,
    Station.started [folderDocs] (fun _ => 0) nestedNode = some s ∧ s.Afresh starter := by
  refine (startsAfresh_iff starter (fun _ => 0) [folderDocs] nestedNode docs_managed
    (by decide)).mpr ⟨?_, ?_⟩
  · intro p _ hlistable _
    obtain ⟨folder, hmem, hin, -, -⟩ := hlistable
    obtain rfl := List.mem_singleton.mp hmem
    obtain ⟨rest, rfl⟩ := hin
    exact List.mem_singleton.mpr rfl
  · intro _ folder hmem hin
    obtain rfl := List.mem_singleton.mp hmem
    obtain ⟨folder, hmem, hin⟩ := hin
    obtain rfl := List.mem_singleton.mp hmem
    exact absurd hin.length_le (by decide)

/-- With `docs/b` managed, it stays. -/
theorem docsB_not_afresh : ¬ ∀ folders mtime node,
    (∀ folder ∈ folders, ManagedFolder folder) →
    (∀ folder ∈ folders, folder.names ∈ node.files.dirs) →
      ∃ s, Station.started folders mtime node = some s ∧ s.Afresh starter := by
  intro hall
  obtain ⟨s, hs, hafresh⟩ := hall [folderDocsB] (fun _ => 0) nestedNode docsB_managed (by decide)
  obtain ⟨files, hsetup, hcleared⟩ := setup_ok docsB_managed nestedDocs
  obtain rfl := Option.some_inj.mp ((Station.started_ok hsetup).symm.trans hs)
  refine hafresh.cleared nestedF (hcleared.listed.mpr ⟨by decide, by decide⟩) ?_
  refine (hcleared.hasMetadata ⟨by decide, by decide⟩).mpr ⟨?_, by decide⟩
  exact ⟨_, List.mem_cons_self, Or.inl (by decide)⟩

end WhisperNet
