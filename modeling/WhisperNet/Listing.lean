import WhisperNet.HandlerRuns

/-!
# The files of the managed folders

Which files `enumerateAllFiles` lists, and what `processConnectMessage` does to the folders of the
network it joins: create them, and remove every file that is listed in them, with its hash.

* `enumerateAllFiles_eq_ok` — the files listed.
* `prepareFolders_ok` — what is left once the folders have been prepared.
-/

namespace WhisperNet

open Bin Fs Effect

/-! ## What is listed -/

/-- The path is in one of the folders, and outside of `.wnts`. -/
def Listable (folders : List FilePath) (p : FilePath) : Prop :=
  ∃ folder ∈ folders, folder <+: p ∧ p ≠ folder ∧ wnts ∉ p

instance (folders : List FilePath) (p : FilePath) : Decidable (Listable folders p) :=
  inferInstanceAs (Decidable (∃ folder ∈ folders, _))

theorem Listable.managed {folders : List FilePath} {p : FilePath} (h : Listable folders p)
    (hfolders : ∀ folder ∈ folders, folder ≠ []) : Managed p := by
  obtain ⟨folder, hmem, hin, hne, hmeta⟩ := h
  refine ⟨?_, hmeta⟩
  have hpos := List.length_pos_iff.mpr (hfolders folder hmem)
  have hlength := hin.length_le
  have hlonger : folder.length ≠ p.length := fun heq => hne (hin.eq_of_length heq).symm
  omega

theorem Listable.notMeta {folders : List FilePath} {p : FilePath} (h : Listable folders p) :
    wnts ∉ p := by
  obtain ⟨folder, -, -, -, hmeta⟩ := h
  exact hmeta

section Listing

variable {fs fs' : FileSystem} {folders : List FilePath} {paths : List FilePath}

theorem enumerateAllFiles_ok (h : ∀ folder ∈ folders, folder ∈ fs.dirs) :
    ∃ paths, enumerateAllFiles folders fs = .ok paths fs ∧
      ∀ p, p ∈ paths ↔ p ∈ fs.files ∧ Listable folders p := by
  induction folders with
  | nil => exact ⟨[], rfl, fun p => by simp [Listable]⟩
  | cons folder folders ih =>
    obtain ⟨hfolder, hfolders⟩ := List.forall_mem_cons.mp h
    obtain ⟨more, hmore, hmem⟩ := ih hfolders
    have hhere : filesIn folder fs = .ok
        (fs.files.keys.filter fun p => folder <+: p ∧ p ≠ folder ∧ wnts ∉ p) fs := if_pos hfolder
    refine ⟨_, by rw [enumerateAllFiles, Effect.bind_ok hhere, Effect.bind_ok hmore]; rfl, ?_⟩
    intro p
    rw [List.mem_append, hmem, List.mem_filter, Std.ExtTreeMap.mem_keys, decide_eq_true_iff]
    unfold Listable
    rw [List.exists_mem_cons_iff, and_or_left]

theorem enumerateAllFiles_eq_ok (h : enumerateAllFiles folders fs = .ok paths fs') :
    fs' = fs ∧ (∀ folder ∈ folders, folder ∈ fs.dirs) ∧
      ∀ p, p ∈ paths ↔ p ∈ fs.files ∧ Listable folders p := by
  have hdirs : ∀ folder ∈ folders, folder ∈ fs.dirs := by
    induction folders generalizing paths with
    | nil => simp
    | cons folder folders ih =>
      obtain ⟨here, fs₁, hhere, hrest⟩ := Effect.bind_eq_ok h
      obtain ⟨more, fs₂, hmore, hdone⟩ := Effect.bind_eq_ok hrest
      obtain ⟨-, rfl⟩ := EStateM.Result.ok.inj hdone
      unfold filesIn at hhere
      split at hhere
      · next hfolder =>
        obtain ⟨-, rfl⟩ := EStateM.Result.ok.inj hhere
        exact List.forall_mem_cons.mpr ⟨hfolder, ih hmore⟩
      · cases hhere
  obtain ⟨paths', hrun, hmem⟩ := enumerateAllFiles_ok hdirs
  obtain ⟨rfl, rfl⟩ := EStateM.Result.ok.inj (hrun.symm.trans h)
  exact ⟨rfl, hdirs, hmem⟩

/-- Neither folder is in the other. -/
def Apart (folder folder' : FilePath) : Prop := ¬ folder <+: folder' ∧ ¬ folder' <+: folder

instance (folder folder' : FilePath) : Decidable (Apart folder folder') :=
  inferInstanceAs (Decidable (_ ∧ _))

instance : Std.Symm Apart := ⟨fun _ _ h => ⟨h.2, h.1⟩⟩

/-- In folders that do not overlap, no file is where a folder is, or has one in it. -/
theorem not_prefix_folder (hapart : folders.Pairwise Apart) {p : FilePath}
    (h : Listable folders p) : ∀ folder ∈ folders, ¬ p <+: folder := by
  intro folder hmem hin
  obtain ⟨folder', hmem', hfolder', hne, -⟩ := h
  by_cases heq : folder' = folder
  · subst heq
    exact hne (hin.eq_of_length_le hfolder'.length_le)
  · exact (hapart.forall hmem' hmem heq).1 (hfolder'.trans hin)

/-- In folders that do not overlap, every file is listed once. -/
theorem enumerateAllFiles_nodup (hapart : folders.Pairwise Apart)
    (h : enumerateAllFiles folders fs = .ok paths fs') : paths.Nodup := by
  induction folders generalizing fs fs' paths with
  | nil =>
    obtain ⟨rfl, -⟩ := EStateM.Result.ok.inj h
    exact List.nodup_nil
  | cons folder folders ih =>
    obtain ⟨hhead, htail⟩ := List.pairwise_cons.mp hapart
    obtain ⟨here, fs₁, hhere, hrest⟩ := Effect.bind_eq_ok h
    obtain ⟨more, fs₂, hmore, hdone⟩ := Effect.bind_eq_ok hrest
    obtain ⟨rfl, -⟩ := EStateM.Result.ok.inj hdone
    unfold filesIn at hhere
    split at hhere
    · obtain ⟨rfl, -⟩ := EStateM.Result.ok.inj hhere
      refine List.Nodup.append (fs.files.nodup_keys.filter _) (ih htail hmore) ?_
      intro p hp hp'
      obtain ⟨hfolder, -⟩ := of_decide_eq_true (List.mem_filter.mp hp).2
      obtain ⟨-, folder', hmem, hfolder', -⟩ := ((enumerateAllFiles_eq_ok hmore).2.2 p).mp hp'
      -- Of two prefixes of a path one is a prefix of the other.
      rcases List.prefix_or_prefix_of_prefix hfolder hfolder' with hin | hin
      · exact (hhead folder' hmem).1 hin
      · exact (hhead folder' hmem).2 hin
    · cases hhere

end Listing

/-! ## Connecting -/

namespace Fs

/-- Make sure that any intermediate directories are created. -/
def createEach : List FilePath → Fs Unit
  | [] => pure ()
  | folder :: folders => do
    createDirectories folder
    createEach folders

/-- Delete managed data in preparation for data syncs. -/
def removeEach : List FilePath → Fs Unit
  | [] => pure ()
  | path :: paths => do
    remove path
    remove (wntsPath path)
    removeEach paths

end Fs

/-- What `processConnectMessage` does to the files. -/
def prepareFolders (folders : List FilePath) : Fs Unit := do
  createEach folders
  let paths ← enumerateAllFiles folders
  removeEach paths

section Connecting

variable {fs fs' : FileSystem} {folders paths : List FilePath}

theorem keeps_createEach {Inv : FileSystem → Prop}
    (h : ∀ p, Keeps Inv (createDirectories p)) : Keeps Inv (createEach folders) := by
  induction folders with
  | nil => exact Keeps.pure ()
  | cons folder folders ih => exact (h folder).bind fun _ => ih

theorem keeps_removeEach {Inv : FileSystem → Prop}
    (h : ∀ p ∈ paths, Keeps Inv (remove p) ∧ Keeps Inv (remove (wntsPath p))) :
    Keeps Inv (removeEach paths) := by
  induction paths with
  | nil => exact Keeps.pure ()
  | cons path paths ih =>
    obtain ⟨hpath, hpaths⟩ := List.forall_mem_cons.mp h
    exact hpath.1.bind fun _ => hpath.2.bind fun _ => ih hpaths

/-- The directories there are then. -/
theorem mem_createEach (h : createEach folders fs = .ok () fs') (d : FilePath) :
    d ∈ fs'.dirs ↔ (∃ folder ∈ folders, d <+: folder) ∨ d ∈ fs.dirs := by
  induction folders generalizing fs with
  | nil =>
    obtain ⟨-, rfl⟩ := EStateM.Result.ok.inj h
    simp
  | cons folder folders ih =>
    obtain ⟨⟨⟩, fs₁, hhere, hrest⟩ := bind_eq_ok h
    rw [ih hrest, mem_createDirectories hhere, List.exists_mem_cons_iff, ← or_assoc,
      or_comm (a := d <+: folder)]

theorem prepareFolders_named (h : prepareFolders folders fs = .ok () fs') :
    ∀ folder ∈ folders, folder ≠ [] := by
  obtain ⟨⟨⟩, fs₁, hcreate, -⟩ := bind_eq_ok h
  clear h
  induction folders generalizing fs with
  | nil => simp
  | cons folder folders ih =>
    obtain ⟨⟨⟩, fs₂, hhere, hrest⟩ := bind_eq_ok hcreate
    exact List.forall_mem_cons.mpr ⟨(createDirectories_dirs hhere).1, ih hrest⟩

/-- What has been removed is neither file nor directory. -/
theorem removeEach_ok (h : removeEach paths fs = .ok () fs') :
    ∀ p ∈ paths, fs'.file? p = none ∧ fs'.file? (wntsPath p) = none ∧ wntsPath p ∉ fs'.dirs := by
  induction paths generalizing fs with
  | nil => simp
  | cons path paths ih =>
    obtain ⟨⟨⟩, fs₁, hpath, hrest⟩ := bind_eq_ok h
    obtain ⟨⟨⟩, fs₂, hhash, hrest⟩ := bind_eq_ok hrest
    have hgone : FileIs path none fs₂ := keeps_gone.ok hhash (remove_eq_ok hpath)
    have hkeeps (q : FilePath) : Keeps (FileIs q none) (removeEach paths) :=
      keeps_removeEach fun _ _ => ⟨keeps_gone, keeps_gone⟩
    have hnoDir : Keeps (NoDir (wntsPath path)) (removeEach paths) :=
      keeps_removeEach fun _ _ => ⟨keeps_noDir_remove, keeps_noDir_remove⟩
    exact List.forall_mem_cons.mpr ⟨⟨(hkeeps path).ok hrest hgone,
      (hkeeps _).ok hrest (remove_eq_ok hhash), hnoDir.ok hrest (remove_noDir hhash)⟩, ih hrest⟩

/-- What `processConnectMessage` does, step by step. -/
theorem prepareFolders_eq_ok (h : prepareFolders folders fs = .ok () fs') :
    ∃ fs₁ paths, createEach folders fs = .ok () fs₁ ∧ removeEach paths fs₁ = .ok () fs' ∧
      (∀ q, fs₁.file? q = fs.file? q) ∧ ∀ p, p ∈ paths ↔ p ∈ fs.files ∧ Listable folders p := by
  obtain ⟨⟨⟩, fs₁, hcreate, hrest⟩ := bind_eq_ok h
  obtain ⟨paths, fs₂, hlist, hremove⟩ := bind_eq_ok hrest
  obtain ⟨rfl, -, hpaths⟩ := enumerateAllFiles_eq_ok hlist
  have hfiles (q : FilePath) : fs₂.file? q = fs.file? q := by
    have hkeeps : Keeps (FileIs q (fs.file? q)) (createEach folders) :=
      keeps_createEach fun _ => keeps_createDirectories
    exact hkeeps.ok hcreate rfl
  refine ⟨fs₂, paths, hcreate, hremove, hfiles, fun p => ?_⟩
  rw [hpaths, ← FileSystem.file?_ne_none, hfiles, FileSystem.file?_ne_none]

/-- The files of the folders are gone, and their hashes. -/
theorem prepareFolders_removed (h : prepareFolders folders fs = .ok () fs') {p : FilePath}
    (hp : p ∈ fs.files) (hlist : Listable folders p) :
    fs'.file? p = none ∧ fs'.file? (wntsPath p) = none := by
  obtain ⟨fs₁, paths, -, hremove, -, hpaths⟩ := prepareFolders_eq_ok h
  obtain ⟨hgone, hhash, -⟩ := removeEach_ok hremove p ((hpaths p).mpr ⟨hp, hlist⟩)
  exact ⟨hgone, hhash⟩

/-- No other file is touched. -/
theorem prepareFolders_kept (h : prepareFolders folders fs = .ok () fs') {q : FilePath}
    (hq : ∀ p ∈ fs.files, Listable folders p → p ≠ q ∧ wntsPath p ≠ q) :
    fs'.file? q = fs.file? q := by
  obtain ⟨fs₁, paths, -, hremove, hfiles, hpaths⟩ := prepareFolders_eq_ok h
  have hkeeps : Keeps (FileIs q (fs₁.file? q)) (removeEach paths) := by
    apply keeps_removeEach
    intro p hp
    obtain ⟨hfile, hlist⟩ := (hpaths p).mp hp
    exact ⟨keeps_remove (hq p hfile hlist).1, keeps_remove (hq p hfile hlist).2⟩
  have hkept : fs'.file? q = fs₁.file? q := hkeeps.ok hremove rfl
  rw [hkept, hfiles]

/-- Directories are only created, except for those in the place of a hash. -/
theorem mem_prepareFolders (h : prepareFolders folders fs = .ok () fs') {d : FilePath}
    (hd : ∀ p ∈ fs.files, Listable folders p → wntsPath p ≠ d) :
    d ∈ fs'.dirs ↔ (∃ folder ∈ folders, d <+: folder) ∨ d ∈ fs.dirs := by
  obtain ⟨fs₁, paths, hcreate, hremove, hfiles, hpaths⟩ := prepareFolders_eq_ok h
  rw [← mem_createEach hcreate]
  refine ⟨fun hmem => ?_, fun hmem => ?_⟩
  · by_contra hnone
    have hkeeps : Keeps (NoDir d) (removeEach paths) :=
      keeps_removeEach fun _ _ => ⟨keeps_noDir_remove, keeps_noDir_remove⟩
    exact hkeeps.ok hremove hnone hmem
  · have hkeeps : Keeps (IsDir d) (removeEach paths) := by
      apply keeps_removeEach
      intro p hp
      obtain ⟨hfile, hlist⟩ := (hpaths p).mp hp
      refine ⟨keeps_isDir_remove ?_, keeps_isDir_remove (hd p hfile hlist)⟩
      rintro rfl
      refine fs₁.disjoint p ?_ hmem
      rwa [← FileSystem.file?_ne_none, hfiles, FileSystem.file?_ne_none]
    exact hkeeps.ok hremove hmem

/-- What preparing the folders leaves. -/
structure Prepared (folders : List FilePath) (fs fs' : FileSystem) : Prop where
  /-- The files outside of the folders, as far as they are outside of `.wnts`. -/
  files : ∀ q, wnts ∉ q → (q ∈ fs'.files ↔ q ∈ fs.files ∧ ¬ Listable folders q)
  /-- The folders themselves, unless one was a hash file. -/
  open_iff : (∀ folder ∈ folders, folder ∈ fs'.dirs) ↔
    ¬ ∃ p ∈ fs.files, Listable folders p ∧ wntsPath p ∈ folders
  /-- Where there was a file, there may be one. -/
  notDir : ∀ q ∈ fs.files, q ∉ fs'.dirs
  folder : ∀ q ∈ fs.files, wnts ∉ q → q.dropLast ∈ fs'.dirs

theorem prepareFolders_ok (h : prepareFolders folders fs = .ok () fs') :
    Prepared folders fs fs' := by
  have hnotHash {q : FilePath} (hq : wnts ∉ q) (p : FilePath) : wntsPath p ≠ q := by
    rintro rfl
    exact hq (wnts_mem_wntsPath p)
  refine ⟨fun q hq => ?_, ⟨fun hopen => ?_, fun hapart folder hfolder => ?_⟩, fun q hq => ?_,
    fun q hq hmeta => ?_⟩
  · by_cases hlisted : q ∈ fs.files ∧ Listable folders q
    · have hgone := (prepareFolders_removed h hlisted.1 hlisted.2).1
      exact iff_of_false (fun hfile => FileSystem.file?_ne_none.mpr hfile hgone)
        fun hkept => hkept.2 hlisted.2
    · have hspared : fs'.file? q = fs.file? q := by
        refine prepareFolders_kept h fun p hp hlist => ⟨?_, hnotHash hq p⟩
        rintro rfl
        exact hlisted ⟨hp, hlist⟩
      rw [← FileSystem.file?_ne_none, hspared, FileSystem.file?_ne_none]
      exact ⟨fun hfile => ⟨hfile, fun hlist => hlisted ⟨hfile, hlist⟩⟩, And.left⟩
  · rintro ⟨p, hfile, hlist, hfolder⟩
    obtain ⟨fs₁, paths, -, hremove, -, hpaths⟩ := prepareFolders_eq_ok h
    exact (removeEach_ok hremove p ((hpaths p).mpr ⟨hfile, hlist⟩)).2.2 (hopen _ hfolder)
  · refine (mem_prepareFolders h fun p hp hlist heq => hapart ⟨p, hp, hlist, heq ▸ hfolder⟩).mpr ?_
    exact Or.inl ⟨folder, hfolder, List.prefix_rfl⟩
  · obtain ⟨fs₁, paths, hcreate, hremove, hfiles, -⟩ := prepareFolders_eq_ok h
    have hkeeps : Keeps (NoDir q) (removeEach paths) :=
      keeps_removeEach fun _ _ => ⟨keeps_noDir_remove, keeps_noDir_remove⟩
    refine hkeeps.ok hremove (fs₁.disjoint q ?_)
    rwa [← FileSystem.file?_ne_none, hfiles, FileSystem.file?_ne_none]
  · have hparent : wnts ∉ q.dropLast := fun hmem => hmeta (List.dropLast_subset q hmem)
    exact (mem_prepareFolders h fun p _ _ => hnotHash hparent p).mpr
      (Or.inr (fs.parent_file q hq))

theorem prepareFolders_listable (h : prepareFolders folders fs = .ok () fs') {q : FilePath}
    (hlist : Listable folders q) : fs'.file? q = none := by
  by_contra hfile
  have hq := ((prepareFolders_ok h).files q hlist.notMeta).mp (FileSystem.file?_ne_none.mp hfile)
  exact hq.2 hlist

end Connecting

end WhisperNet
