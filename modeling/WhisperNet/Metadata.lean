import WhisperNet.Listing

/-!
# Where metadata is kept

`wntsPath` and `lockFilePath` as the program computes them, with `std::filesystem::path`: the one
rebuilds a path from its elements, the other takes the filename off and appends another. On the
paths of managed files that is what they do to the elements.

* `filePath_wntsPath`, `filePath_lockFilePath` — the elements of what is built.
* `apart_iff` — when the metadata of two files are kept apart.
-/

namespace WhisperNet

open Bin Fs FsPath

namespace Native

/-! ## The paths -/

/-- `wntsPath`. A path without elements has no first one. -/
def wntsPath (path : FsPath) : FsPath :=
  match path.elements with
  | [] => ⟨wnts⟩
  | folder :: rest => rest.foldl (fun p e => p.append ⟨e⟩) ((FsPath.mk folder).append ⟨wnts⟩)

/-- `p.filename()` -/
def filename (p : FsPath) : Bytes := WhisperNet.filename p.elements

/-- `lockFilePath` -/
def lockFilePath (p : FsPath) : FsPath :=
  (wntsPath p).removeFilename.append ⟨lockPrefix ++ filename p⟩

/-- The path of a managed file, in normal form and relative. -/
structure Path (p : FsPath) : Prop where
  normal : p.lexicallyNormal = p
  relative : p.isAbsolute = false
  managed : Managed (filePath p)

section Elements

variable {p q : FsPath}

theorem isName_wnts : IsName wnts := ⟨by decide, by decide⟩

theorem isName_lock {n : Name} (h : slash ∉ n) : IsName (lockPrefix ++ n) := by
  refine ⟨by simp [lockPrefix], fun hmem => ?_⟩
  rcases List.mem_append.mp hmem with hmem | hmem
  · exact absurd hmem (by decide)
  · exact h hmem

/-- The filenames of a managed path, of which there is one at least. -/
theorem Path.layout (h : Path p) : ∃ folder rest trail, (∀ n ∈ folder :: rest, IsName n) ∧
    filePath p = FsPath.layout false (folder :: rest) trail := by
  have helements : filePath p =
      FsPath.layout false p.names (p.endsWithSlash && !p.names.isEmpty) := by
    rw [filePath, elements, h.relative]
  cases hnames : p.names with
  | nil =>
    have hlen := h.managed.inFolder
    rw [helements, hnames] at hlen
    simp [FsPath.layout] at hlen
  | cons folder rest =>
    rw [hnames] at helements
    refine ⟨folder, rest, _, fun n hn => ?_, helements⟩
    have hmem : n ∈ p.names := by rwa [hnames]
    exact isName_of_mem_split hmem

theorem wntsPath_layout {folder : Name} {rest : List Name} {trail : Bool}
    (hnames : ∀ n ∈ folder :: rest, IsName n)
    (h : filePath p = FsPath.layout false (folder :: rest) trail) :
    wntsPath p = ⟨render false folder (wnts :: rest) trail⟩ := by
  have hrest : ∀ n ∈ wnts :: rest, IsName n :=
    List.forall_mem_cons.mpr ⟨isName_wnts, fun n hn => hnames n (List.mem_cons_of_mem _ hn)⟩
  have helements : p.elements = folder :: (rest ++ if trail then [[]] else []) := h
  have hfirst : (FsPath.mk []).append ⟨folder⟩ = ⟨folder⟩ :=
    @append_first false folder (hnames folder List.mem_cons_self)
  -- What the loop builds is the path of these elements.
  have hbuilt : wntsPath p = ofElements (FsPath.layout false (folder :: wnts :: rest) trail) := by
    rw [wntsPath, helements]
    show _ = List.foldl _ (((FsPath.mk []).append ⟨folder⟩).append ⟨wnts⟩) _
    rw [hfirst]
    rfl
  rw [hbuilt, ofElements_layout false (hnames folder List.mem_cons_self) hrest]

/-- **The elements of a hash file's path.** -/
theorem filePath_wntsPath (h : Path p) :
    filePath (wntsPath p) = WhisperNet.wntsPath (filePath p) := by
  obtain ⟨folder, rest, trail, hnames, helements⟩ := h.layout
  have hrest : ∀ n ∈ wnts :: rest, IsName n :=
    List.forall_mem_cons.mpr ⟨isName_wnts, fun n hn => hnames n (List.mem_cons_of_mem _ hn)⟩
  rw [wntsPath_layout hnames helements, filePath,
    elements_render false (hnames folder List.mem_cons_self) hrest, helements]
  rfl

/-- A path with its last element taken off, and a separator left at its end. -/
theorem removeFilename_layout {folder : Name} {rest : List Name} {trail : Bool}
    (hnames : ∀ n ∈ folder :: rest, IsName n) (hrest : rest ≠ []) :
    ∃ folders, (FsPath.mk (render false folder rest trail)).removeFilename =
        ⟨render false folder folders true⟩ ∧ (∀ n ∈ folders, IsName n) ∧
      folder :: folders = (FsPath.layout false (folder :: rest) trail).dropLast := by
  cases trail with
  | true =>
    refine ⟨rest, removeFilename_trail, fun n hn => hnames n (List.mem_cons_of_mem _ hn), ?_⟩
    exact List.dropLast_concat.symm
  | false =>
    obtain ⟨folders, name, rfl⟩ := List.eq_nil_or_concat rest |>.resolve_left hrest
    rw [List.concat_eq_append] at *
    have hlast : FsPath.layout false (folder :: (folders ++ [name])) false =
        (folder :: folders) ++ [name] := by simp [FsPath.layout]
    refine ⟨folders, removeFilename_name (hnames name (by simp)), ?_, ?_⟩
    · intro n hn
      exact hnames n (by simp [hn])
    · rw [hlast, List.dropLast_concat]

/-- A filename has no separator in it. -/
theorem slash_not_mem_filename {folder : Name} {rest : List Name} {trail : Bool}
    (hnames : ∀ n ∈ folder :: rest, IsName n)
    (h : filePath p = FsPath.layout false (folder :: rest) trail) : slash ∉ filename p := by
  have hlast : filename p = (FsPath.layout false (folder :: rest) trail).getLastD [] := by
    rw [← h]
    rfl
  rw [hlast]
  cases trail with
  | true =>
    have hkept : FsPath.layout false (folder :: rest) true = (folder :: rest) ++ [[]] := rfl
    rw [hkept, List.getLastD_eq_getLast?, List.getLast?_concat]
    exact List.not_mem_nil
  | false =>
    have hmem : (folder :: rest).getLast (by simp) ∈ folder :: rest := List.getLast_mem _
    have hkept : (FsPath.layout false (folder :: rest) false).getLastD [] =
        (folder :: rest).getLast (by simp) := by
      simp [FsPath.layout, List.getLastD_eq_getLast?, List.getLast?_eq_some_getLast]
    rw [hkept]
    exact (hnames _ hmem).2

/-- **The elements of a lock file's path.** -/
theorem filePath_lockFilePath (h : Path p) :
    filePath (lockFilePath p) = WhisperNet.lockFilePath (filePath p) := by
  obtain ⟨folder, rest, trail, hnames, helements⟩ := h.layout
  have hwnts : ∀ n ∈ folder :: wnts :: rest, IsName n := by
    refine List.forall_mem_cons.mpr ⟨hnames folder List.mem_cons_self, ?_⟩
    exact List.forall_mem_cons.mpr ⟨isName_wnts, fun n hn => hnames n (List.mem_cons_of_mem _ hn)⟩
  obtain ⟨folders, hremoved, hfolders, hdropped⟩ :=
    @removeFilename_layout folder (wnts :: rest) trail hwnts (List.cons_ne_nil _ _)
  have hlock : IsName (lockPrefix ++ filename p) :=
    isName_lock (slash_not_mem_filename hnames helements)
  have hall : ∀ n ∈ folders ++ [lockPrefix ++ filename p], IsName n := by
    intro n hn
    rcases List.mem_append.mp hn with hn | hn
    · exact hfolders n hn
    · rwa [List.mem_singleton.mp hn]
  rw [lockFilePath, wntsPath_layout hnames helements, hremoved, append_trail hlock, filePath,
    elements_render false (hnames folder List.mem_cons_self) hall]
  have hmeta : (WhisperNet.wntsPath (filePath p)).dropLast = folder :: folders := by
    rw [helements, hdropped]
    rfl
  rw [WhisperNet.lockFilePath, hmeta]
  simp [FsPath.layout, filename, filePath]

end Elements

/-! ## Kept apart -/

/-- The hashes and the locks of two files have paths of their own, which show what they are. -/
structure KeptApart (p q : FsPath) : Prop where
  hash : filePath (wntsPath p) = filePath (wntsPath q) → p = q
  lock : filePath (lockFilePath p) = filePath (lockFilePath q) → p = q
  hashNotLock : filePath (wntsPath p) ≠ filePath (lockFilePath q)
  marked : wnts ∈ filePath (wntsPath p) ∧ wnts ∈ filePath (lockFilePath p)
  unlisted : ∀ {folders fs paths fs'}, enumerateAllFiles folders fs = .ok paths fs' →
    filePath (wntsPath p) ∉ paths ∧ filePath (lockFilePath p) ∉ paths

/-- The path of the file next to this one whose name is this one's after `.lock.`. -/
def lockNamed (p : FilePath) : FilePath := p.dropLast ++ [lockPrefix ++ WhisperNet.filename p]

section Metadata

variable {p q : FsPath}

/-- A path in normal form has its elements to itself. -/
theorem Path.elements_inj (hp : Path p) (hq : Path q) (h : filePath p = filePath q) : p = q := by
  have hbuilt : ∀ {r : FsPath}, Path r → ofElements (filePath r) = r := by
    intro r hr
    have hnormal := ofElements_elements_normal r
    rwa [hr.normal] at hnormal
  rw [← hbuilt hp, ← hbuilt hq, h]

theorem wntsPath_inj {a b : FilePath} (ha : Managed a) (hb : Managed b)
    (h : WhisperNet.wntsPath a = WhisperNet.wntsPath b) : a = b := by
  cases a with
  | nil => exact absurd ha.inFolder (by simp)
  | cons folder rest =>
    cases b with
    | nil => exact absurd hb.inFolder (by simp)
    | cons folder' rest' =>
      have hparts : folder = folder' ∧ rest = rest' := by simpa [WhisperNet.wntsPath] using h
      rw [hparts.1, hparts.2]

/-- A lock has the path of the hash of the file that is named like it. -/
theorem lockFilePath_eq_wntsPath {b : FilePath} (hb : Managed b) :
    WhisperNet.lockFilePath b = WhisperNet.wntsPath (lockNamed b) := by
  match b, hb.inFolder with
  | folder :: name :: rest, _ => simp [WhisperNet.lockFilePath, WhisperNet.wntsPath, lockNamed]

theorem lockNamed_managed {b : FilePath} (hb : Managed b) : Managed (lockNamed b) := by
  constructor
  · have hlen : (lockNamed b).length = b.length := by
      have hfolder := hb.inFolder
      simp [lockNamed]
      omega
    rw [hlen]
    exact hb.inFolder
  · intro hmem
    rcases List.mem_append.mp hmem with hmem | hmem
    · exact hb.notMeta (List.dropLast_subset b hmem)
    · rw [List.mem_singleton] at hmem
      exact absurd (congrArg (·.take 2) hmem) (by simp [wnts, lockPrefix])

end Metadata

/-- **The metadata of two files are kept apart exactly when the one file is not next to the other
with the other's name after `.lock.`.** -/
theorem apart_iff (p q : FsPath) (hp : Path p) (hq : Path q) :
    KeptApart p q ↔ filePath p ≠ lockNamed (filePath q) := by
  constructor
  · intro h hnamed
    apply h.hashNotLock
    rw [filePath_wntsPath hp, filePath_lockFilePath hq, lockFilePath_eq_wntsPath hq.managed, hnamed]
  · intro hne
    have hmarked : wnts ∈ filePath (wntsPath p) ∧ wnts ∈ filePath (lockFilePath p) := by
      rw [filePath_wntsPath hp, filePath_lockFilePath hp]
      exact ⟨wnts_mem_wntsPath _, wnts_mem_lockFilePath hp.managed.inFolder⟩
    refine ⟨?_, ?_, ?_, hmarked, ?_⟩
    · intro h
      rw [filePath_wntsPath hp, filePath_wntsPath hq] at h
      exact hp.elements_inj hq (wntsPath_inj hp.managed hq.managed h)
    · intro h
      rw [filePath_lockFilePath hp, filePath_lockFilePath hq] at h
      exact hp.elements_inj hq (lockFilePath_inj h)
    · intro h
      rw [filePath_wntsPath hp, filePath_lockFilePath hq, lockFilePath_eq_wntsPath hq.managed] at h
      exact hne (wntsPath_inj hp.managed (lockNamed_managed hq.managed) h)
    · intro folders fs paths fs' h
      obtain ⟨-, -, hlisted⟩ := enumerateAllFiles_eq_ok h
      exact ⟨fun hmem => ((hlisted _).mp hmem).2.notMeta hmarked.1,
        fun hmem => ((hlisted _).mp hmem).2.notMeta hmarked.2⟩

/-- `docs/a` -/
def docsA : FsPath := ⟨[100, 111, 99, 115, 47, 97]⟩

/-- `docs/b` -/
def docsB : FsPath := ⟨[100, 111, 99, 115, 47, 98]⟩

/-- `docs/.lock.a` -/
def docsLockA : FsPath := ⟨[100, 111, 99, 115, 47, 46, 108, 111, 99, 107, 46, 97]⟩

theorem apart_docs : KeptApart docsA docsB :=
  (apart_iff docsA docsB ⟨by decide, by decide, ⟨by decide, by decide⟩⟩
    ⟨by decide, by decide, ⟨by decide, by decide⟩⟩).mpr (by decide)

/-- The hash of `docs/.lock.a` is where the lock of `docs/a` is. -/
theorem hash_is_lock : ∃ p q, Path p ∧ Path q ∧
    filePath (wntsPath p) = filePath (lockFilePath q) ∧ ¬ KeptApart p q := by
  have hmeets : filePath (wntsPath docsLockA) = filePath (lockFilePath docsA) := by decide
  refine ⟨docsLockA, docsA, ⟨by decide, by decide, ⟨by decide, by decide⟩⟩,
    ⟨by decide, by decide, ⟨by decide, by decide⟩⟩, hmeets, ?_⟩
  intro h
  exact h.hashNotLock hmeets

end Native

end WhisperNet
