import WhisperNet.LockRoundTrip
import WhisperNet.Shutdown

/-!
# What the destructor leaves

The last thing the destructor of the message manager does is to make sure that none of the folders
are considered locked: every file that has a lock gets the permissions that the lock has saved, and
the lock is removed. It ends early if there is a lock that cannot be read.

* `release_iff` — one file.
* `cleanUp_iff` — all of them.
* `Managers.destroys_iff` — when the destructor gets through, and what it leaves of every path.
* `Node.cleanUp_restores_iff` — whether it undoes a lock that was taken.
-/

namespace WhisperNet

open Bin Fs Effect

namespace Fs

/-- The body of the loop. -/
def release (pf : Platform) (path : FilePath) : Fs Unit := do
  let lockPath := lockFilePath path
  if ← exist lockPath then do
    let (_, permsToAdd) ← loadLockFile pf path
    addPermissions path permsToAdd
    remove lockPath
  else pure ()

def releaseEach (pf : Platform) : List FilePath → Fs Unit
  | [] => pure ()
  | path :: paths => do
    release pf path
    releaseEach pf paths

/-- The destructor once the queue is empty. -/
def cleanUp (pf : Platform) (folders : List FilePath) : Fs Unit := do
  let paths ← enumerateAllFiles folders
  releaseEach pf paths

end Fs

section Cleaning

variable {pf : Platform} {fs fs₁ fs' : FileSystem} {p q : FilePath} {paths : List FilePath}
  {folders : List FilePath}

/-- The permissions that the lock of a file has saved. -/
def savedPerms (pf : Platform) (fs : FileSystem) (p : FilePath) : Perms :=
  (lockRecord pf fs p).elim 0 Prod.snd

/-- What is left under a path once the files have been released. -/
def released (pf : Platform) (paths : List FilePath) (fs : FileSystem) (q : FilePath) :
    Option File :=
  if (paths.map lockFilePath).contains q then none
  else if paths.contains q then
    (fs.file? q).map fun f => { f with perms := f.perms ||| savedPerms pf fs q }
  else fs.file? q

/-- The files have been released, and nothing else has changed. -/
structure Released (pf : Platform) (paths : List FilePath) (fs fs' : FileSystem) : Prop where
  file? : ∀ q, fs'.file? q = released pf paths fs q
  dirs : fs'.dirs = fs.dirs

/-- Files outside of `.wnts`, as they are listed. -/
def Outside (fs : FileSystem) (paths : List FilePath) : Prop :=
  ∀ p ∈ paths, p ∈ fs.files ∧ wnts ∉ p

/-! ## One file -/

/-- A lock is no file that may be listed. -/
theorem lock_ne (hp : p ∈ fs.files) (hq : q ∈ fs.files) (hmeta : wnts ∉ q) :
    lockFilePath p ≠ q := by
  rintro rfl
  have hfolder := fs.parent_file _ hq
  rw [folder_of_lock hmeta] at hfolder
  exact fs.disjoint p hp hfolder

theorem released_lock (h : p ∈ paths) : released pf paths fs (lockFilePath p) = none :=
  if_pos (List.contains_iff_mem.mpr (List.mem_map_of_mem h))

/-- No lock of the files has the path. -/
theorem not_lock_of (h : ∀ p ∈ paths, lockFilePath p ≠ q) :
    ¬ (paths.map lockFilePath).contains q := by
  intro hmem
  obtain ⟨p, hp, heq⟩ := List.mem_map.mp (List.contains_iff_mem.mp hmem)
  exact h p hp heq

theorem released_file (h : ∀ p ∈ paths, lockFilePath p ≠ q) (hq : q ∈ paths) :
    released pf paths fs q =
      (fs.file? q).map fun f => { f with perms := f.perms ||| savedPerms pf fs q } := by
  rw [released, if_neg (not_lock_of h), if_pos (List.contains_iff_mem.mpr hq)]

theorem released_other (h : ∀ p ∈ paths, lockFilePath p ≠ q) (hq : q ∉ paths) :
    released pf paths fs q = fs.file? q := by
  rw [released, if_neg (not_lock_of h), if_neg (mt List.contains_iff_mem.mp hq)]

theorem released_singleton : released pf [p] fs q =
    if lockFilePath p = q then none
    else if q = p then (fs.file? q).map fun f => { f with perms := f.perms ||| savedPerms pf fs q }
    else fs.file? q := by
  simp [released, eq_comm]

theorem Released.unique (h : Released pf paths fs fs₁) (h' : Released pf paths fs fs') : fs₁ = fs' :=
  FileSystem.ext_file? (fun q => (h.file? q).trans (h'.file? q).symm) (h.dirs.trans h'.dirs.symm)

/-- A file without a lock is left alone. -/
theorem released_free (hfree : LockState pf fs p none) : Released pf [p] fs fs where
  dirs := rfl
  file? q := by
    rw [released_singleton]
    by_cases hlock : lockFilePath p = q
    · rw [if_pos hlock, ← hlock]
      exact hfree.1
    · rw [if_neg hlock]
      split
      · next hq =>
        rw [hq, savedPerms, lockRecord_none hfree.1, Option.elim_none]
        simp
      · rfl

theorem release_unreadable (h : UnreadableLock pf fs p) : release pf p fs = .error .archive fs := by
  have hexist : exist (lockFilePath p) fs = .ok true fs := by
    rw [Fs.exist, decide_eq_true h.1]
  have hload : loadLockFile pf p fs = .error .archive fs := by
    rw [loadLockFile, h.2]
  rw [release, bind_ok hexist, if_pos rfl, bind_error hload]

theorem release_ok (hp : p ∈ fs.files) (h : ¬ UnreadableLock pf fs p) :
    ∃ fs', release pf p fs = .ok () fs' ∧ Released pf [p] fs fs' := by
  have hstate := lockState_of_readable h
  cases hrecord : lockRecord pf fs p with
  | none =>
    rw [hrecord] at hstate
    refine ⟨fs, ?_, released_free hstate⟩
    rw [release, bind_ok (exist_nothing hstate.1 hstate.2)]
    rfl
  | some record =>
    obtain ⟨lock, perms⟩ := record
    obtain ⟨g, hg⟩ := file?_of_lockRecord hrecord
    obtain ⟨f, hf⟩ := Option.ne_none_iff_exists'.mp (FileSystem.file?_ne_none.mpr hp)
    obtain ⟨fs₁, hadd, hset⟩ := addPermissions_ok perms hf
    have hdir : lockFilePath p ∉ fs₁.dirs := hset.dirs ▸ FileSystem.not_dir_of_file? hg
    obtain ⟨fs', hremove, hset'⟩ := remove_ok hdir
    refine ⟨fs', ?_, ⟨fun q => ?_, hset'.dirs.trans hset.dirs⟩⟩
    · rw [release, bind_ok (exist_file hg), if_pos rfl, bind_ok (loadLockFile_ok hrecord)]
      exact (bind_ok hadd).trans hremove
    · rw [hset'.file?, hset.file?, released_singleton]
      by_cases hlock : lockFilePath p = q
      · rw [if_pos hlock, if_pos hlock]
      · rw [if_neg hlock, if_neg hlock]
        by_cases hq : p = q
        · subst hq
          rw [if_pos rfl, if_pos rfl, hf, savedPerms, hrecord]
          rfl
        · rw [if_neg hq, if_neg (Ne.symm hq)]

/-- **One file.** It is released unless there is a lock that cannot be read. -/
theorem release_iff (hp : p ∈ fs.files) :
    release pf p fs = .ok () fs' ↔ ¬ UnreadableLock pf fs p ∧ Released pf [p] fs fs' := by
  by_cases h : UnreadableLock pf fs p
  · rw [release_unreadable h]
    exact iff_of_false (by intro h'; cases h') fun h' => h'.1 h
  · obtain ⟨fs₁, hrun, hreleased⟩ := release_ok hp h
    rw [hrun]
    constructor
    · intro hok
      obtain ⟨-, rfl⟩ := EStateM.Result.ok.inj hok
      exact ⟨h, hreleased⟩
    · rintro ⟨-, hreleased'⟩
      rw [hreleased.unique hreleased']

/-! ## All files -/

section Step

variable (h : Released pf [p] fs fs₁) (hp : p ∈ fs.files)
include h

theorem Released.lock_gone : fs₁.file? (lockFilePath p) = none := by
  rw [h.file?, released_singleton, if_pos rfl]

theorem Released.elsewhere (hlock : lockFilePath p ≠ q) (hq : p ≠ q) :
    fs₁.file? q = fs.file? q := by
  rw [h.file?, released_singleton, if_neg hlock, if_neg (Ne.symm hq)]

include hp

/-- Another file's lock is as it was. -/
theorem Released.other_lock (hmeta : wnts ∉ p) (hq : q ∈ fs.files) (hne : q ≠ p) :
    fs₁.file? (lockFilePath q) = fs.file? (lockFilePath q) :=
  h.elsewhere (fun heq => hne (lockFilePath_inj heq).symm) (lock_ne hq hp hmeta).symm

theorem Released.unreadable_iff (hmeta : wnts ∉ p) (hread : ¬ UnreadableLock pf fs p)
    (hq : q ∈ fs.files) : UnreadableLock pf fs₁ q ↔ UnreadableLock pf fs q := by
  by_cases hne : q = p
  · subst hne
    refine iff_of_false ?_ hread
    rintro ⟨hfile | hdir, -⟩
    · exact FileSystem.file?_ne_none.mpr hfile h.lock_gone
    · -- A lock that is a directory cannot be read.
      rw [h.dirs] at hdir
      have hnone : fs.file? (lockFilePath q) = none := by
        by_contra hsome
        exact fs.disjoint _ (FileSystem.file?_ne_none.mp hsome) hdir
      exact hread ⟨Or.inr hdir, lockRecord_none hnone⟩
  · have hlock := h.other_lock hp hmeta hq hne
    rw [UnreadableLock, UnreadableLock, lockRecord_congr hlock, h.dirs, ← FileSystem.file?_ne_none,
      ← FileSystem.file?_ne_none, hlock]

theorem Released.outside (hpaths : Outside fs paths) : Outside fs₁ paths := by
  intro q hq
  obtain ⟨hfile, hout⟩ := hpaths q hq
  refine ⟨?_, hout⟩
  rw [← FileSystem.file?_ne_none] at hfile ⊢
  rw [h.file?, released_singleton, if_neg (lock_ne hp (hpaths q hq).1 hout)]
  split
  · rwa [ne_eq, Option.map_eq_none_iff]
  · exact hfile

/-- What is left once the rest has been released as well. -/
theorem Released.rest (hmeta : wnts ∉ p) (hpaths : Outside fs paths) (q : FilePath) :
    released pf paths fs₁ q = released pf (p :: paths) fs q := by
  by_cases hlocks : ∃ r ∈ paths, lockFilePath r = q
  · obtain ⟨r, hr, rfl⟩ := hlocks
    rw [released_lock hr, released_lock (List.mem_cons_of_mem _ hr)]
  have hlocks' : ∀ r ∈ paths, lockFilePath r ≠ q := fun r hr heq => hlocks ⟨r, hr, heq⟩
  by_cases hlock : lockFilePath p = q
  · subst hlock
    have hnot : lockFilePath p ∉ paths := fun hq =>
      lock_ne hp (hpaths _ hq).1 (hpaths _ hq).2 rfl
    rw [released_other hlocks' hnot, released_lock List.mem_cons_self]
    exact h.lock_gone
  have hall : ∀ r ∈ p :: paths, lockFilePath r ≠ q := List.forall_mem_cons.mpr ⟨hlock, hlocks'⟩
  by_cases hq : q = p
  · subst hq
    have hsaved : savedPerms pf fs₁ q = 0 := by
      rw [savedPerms, lockRecord_none h.lock_gone, Option.elim_none]
    have hfile : fs₁.file? q = (fs.file? q).map fun f =>
        { f with perms := f.perms ||| savedPerms pf fs q } := by
      rw [h.file?, released_singleton, if_neg hlock, if_pos rfl]
    rw [released_file hall List.mem_cons_self, ← hfile]
    by_cases hmem : q ∈ paths
    · -- The file is listed twice.
      rw [released_file hlocks' hmem, hsaved]
      simp
    · exact released_other hlocks' hmem
  · have hfile := h.elsewhere hlock (Ne.symm hq)
    by_cases hmem : q ∈ paths
    · have hsaved : savedPerms pf fs₁ q = savedPerms pf fs q := by
        rw [savedPerms, lockRecord_congr (h.other_lock hp hmeta (hpaths q hmem).1 hq), savedPerms]
      rw [released_file hlocks' hmem, released_file hall (List.mem_cons_of_mem _ hmem), hfile,
        hsaved]
    · have hnot : q ∉ p :: paths := fun h => (List.mem_cons.mp h).elim hq hmem
      rw [released_other hlocks' hmem, released_other hall hnot, hfile]

end Step

/-- The whole loop. -/
theorem releaseEach_iff (hpaths : Outside fs paths) :
    releaseEach pf paths fs = .ok () fs' ↔
      (∀ p ∈ paths, ¬ UnreadableLock pf fs p) ∧ Released pf paths fs fs' := by
  induction paths generalizing fs with
  | nil =>
    have hreleased : Released pf [] fs fs := ⟨fun q => by simp [released], rfl⟩
    constructor
    · intro h
      obtain ⟨-, rfl⟩ := EStateM.Result.ok.inj h
      exact ⟨fun p hp => (by cases hp), hreleased⟩
    · rintro ⟨-, h⟩
      rw [hreleased.unique h]
      rfl
  | cons p paths ih =>
    obtain ⟨⟨hp, hmeta⟩, hrest⟩ := List.forall_mem_cons.mp hpaths
    rw [List.forall_mem_cons]
    have hlater {fs₁ : FileSystem} (hread : ¬ UnreadableLock pf fs p)
        (h : Released pf [p] fs fs₁) : releaseEach pf paths fs₁ = .ok () fs' ↔
          (∀ p ∈ paths, ¬ UnreadableLock pf fs p) ∧ Released pf (p :: paths) fs fs' := by
      rw [ih (h.outside hp hrest)]
      refine and_congr (forall₂_congr fun q hq => not_congr
        (h.unreadable_iff hp hmeta hread (hrest q hq).1)) ⟨fun h' => ?_, fun h' => ?_⟩
      · exact ⟨fun q => (h'.file? q).trans (h.rest hp hmeta hrest q), h'.dirs.trans h.dirs⟩
      · exact ⟨fun q => (h'.file? q).trans (h.rest hp hmeta hrest q).symm,
          h'.dirs.trans h.dirs.symm⟩
    constructor
    · intro hrun
      obtain ⟨⟨⟩, fs₁, hfirst, hrun⟩ := bind_eq_ok hrun
      obtain ⟨hread, h⟩ := (release_iff hp).mp hfirst
      obtain ⟨hreads, h'⟩ := (hlater hread h).mp hrun
      exact ⟨⟨hread, hreads⟩, h'⟩
    · rintro ⟨⟨hread, hreads⟩, h'⟩
      obtain ⟨fs₁, hfirst, h⟩ := release_ok hp hread
      exact (bind_ok hfirst).trans ((hlater hread h).mpr ⟨hreads, h'⟩)

/-- A file that the destructor goes over. -/
def Listed (folders : List FilePath) (fs : FileSystem) (p : FilePath) : Prop :=
  p ∈ fs.files ∧ Listable folders p

/-- Every file listed has the permissions back that its lock has saved, and no lock. -/
structure CleanedUp (pf : Platform) (folders : List FilePath) (fs fs' : FileSystem) : Prop where
  listed : ∀ p, Listed folders fs p → fs'.file? p =
    (fs.file? p).map fun f => { f with perms := f.perms ||| savedPerms pf fs p }
  locks : ∀ p, Listed folders fs p → fs'.file? (lockFilePath p) = none
  others : ∀ q, ¬ Listed folders fs q → (∀ p, Listed folders fs p → lockFilePath p ≠ q) →
    fs'.file? q = fs.file? q
  dirs : fs'.dirs = fs.dirs

theorem cleanedUp_iff (hpaths : ∀ p, p ∈ paths ↔ Listed folders fs p) :
    CleanedUp pf folders fs fs' ↔ Released pf paths fs fs' := by
  have houtside : Outside fs paths := fun p hp =>
    ⟨((hpaths p).mp hp).1, ((hpaths p).mp hp).2.notMeta⟩
  have hnoLock : ∀ q ∈ paths, ∀ p ∈ paths, lockFilePath p ≠ q := fun q hq p hp =>
    lock_ne (houtside p hp).1 (houtside q hq).1 (houtside q hq).2
  constructor
  · intro h
    refine ⟨fun q => ?_, h.dirs⟩
    by_cases hlocks : ∃ p ∈ paths, lockFilePath p = q
    · obtain ⟨p, hp, rfl⟩ := hlocks
      rw [released_lock hp]
      exact h.locks p ((hpaths p).mp hp)
    · have hlocks' : ∀ p ∈ paths, lockFilePath p ≠ q := fun p hp heq => hlocks ⟨p, hp, heq⟩
      by_cases hq : q ∈ paths
      · rw [released_file hlocks' hq]
        exact h.listed q ((hpaths q).mp hq)
      · rw [released_other hlocks' hq]
        exact h.others q (mt (hpaths q).mpr hq) fun p hp => hlocks' p ((hpaths p).mpr hp)
  · intro h
    refine ⟨fun p hp => ?_, fun p hp => ?_, fun q hq hlocks => ?_, h.dirs⟩
    · have hmem := (hpaths p).mpr hp
      rw [h.file?, released_file (hnoLock p hmem) hmem]
    · rw [h.file?, released_lock ((hpaths p).mpr hp)]
    · rw [h.file?, released_other (fun p hp => hlocks p ((hpaths p).mp hp)) (mt (hpaths q).mp hq)]

/-- All files, unless one of their locks cannot be read. -/
theorem cleanUp_iff (pf : Platform) (folders : List FilePath) (fs fs' : FileSystem) :
    cleanUp pf folders fs = .ok () fs' ↔ (∀ folder ∈ folders, folder ∈ fs.dirs) ∧
      (∀ p, Listed folders fs p → ¬ UnreadableLock pf fs p) ∧ CleanedUp pf folders fs fs' := by
  have heach {paths : List FilePath} (hpaths : ∀ p, p ∈ paths ↔ Listed folders fs p) :
      releaseEach pf paths fs = .ok () fs' ↔
        (∀ p, Listed folders fs p → ¬ UnreadableLock pf fs p) ∧ CleanedUp pf folders fs fs' := by
    have houtside : Outside fs paths := fun p hp =>
      ⟨((hpaths p).mp hp).1, ((hpaths p).mp hp).2.notMeta⟩
    rw [releaseEach_iff houtside, cleanedUp_iff hpaths]
    simp only [hpaths]
  constructor
  · intro h
    obtain ⟨paths, fs₁, hlist, hrun⟩ := bind_eq_ok h
    obtain ⟨rfl, hfolders, hpaths⟩ := enumerateAllFiles_eq_ok hlist
    exact ⟨hfolders, (heach hpaths).mp hrun⟩
  · rintro ⟨hfolders, h⟩
    obtain ⟨paths, hlist, hpaths⟩ := enumerateAllFiles_ok hfolders
    exact (bind_ok hlist).trans ((heach hpaths).mpr h)

end Cleaning

/-! ## The destructor -/

namespace Managers

/-- `~MessageManager` -/
def Destroys (host : Host) (s s' : Managers) : Prop :=
  ∃ t, Relation.ReflTransGen (Iterates host) s t ∧ t.queue = [] ∧
    onFiles (cleanUp host.platform t.folders) t = .ok () s'

/-- **When the destructor gets through, and what it leaves.** -/
theorem destroys_iff (host : Host) (s s' : Managers) :
    Destroys host s s' ↔ ∃ t, Relation.ReflTransGen (Iterates host) s t ∧ t.queue = [] ∧
      (∀ folder ∈ t.folders, folder ∈ t.files.dirs) ∧
      (∀ p, Listed t.folders t.files p → ¬ UnreadableLock host.platform t.files p) ∧
      CleanedUp host.platform t.folders t.files s'.files ∧
      s' = { t with files := s'.files } := by
  refine exists_congr fun t => and_congr_right fun _ => and_congr_right fun _ => ?_
  constructor
  · intro h
    obtain ⟨files, hrun, rfl⟩ := onFiles_eq_ok h
    obtain ⟨hfolders, hread, hclean⟩ := (cleanUp_iff _ _ _ _).mp hrun
    exact ⟨hfolders, hread, hclean, rfl⟩
  · rintro ⟨hfolders, hread, hclean, hs'⟩
    rw [hs']
    exact onFiles_ok ((cleanUp_iff _ _ _ _).mpr ⟨hfolders, hread, hclean⟩)

end Managers

/-! ## A lock that was taken -/

theorem absorbed (perms mask : Perms) : perms ||| perms &&& mask = perms := by
  apply UInt32.toBitVec_inj.mp
  simp only [UInt32.toBitVec_or, UInt32.toBitVec_and]
  ext i
  simp only [BitVec.getElem_or, BitVec.getElem_and]
  grind

/-- The lock of another node has saved nothing. -/
theorem guarded_perms_iff (host : Host) (lock : FileMessage) (f : File) :
    (guarded host lock f).perms = f.perms ↔
      lock.originatorNode = host.self ∨ f.perms &&& writePerms = 0 := by
  unfold guarded
  by_cases hown : lock.originatorNode = host.self
  · rw [if_neg (not_not_intro hown)]
    exact iff_of_true rfl (Or.inl hown)
  · rw [if_pos hown, or_iff_right hown]
    exact without_eq_iff _ _

namespace Node

section Undone

variable {env : Setting} {n n₁ n₂ : Node} {lock : FileMessage} {p : FilePath} {f : File}
  {ls : List (FileOp × Bool)} {folders : List FilePath} {fs' : FileSystem}

/-- Releasing the file leaves it with what was kept of its permissions. -/
theorem Taken.cleanedUp {host : Host} {fs : FileSystem} (h : Taken host lock p f fs)
    (hlisted : Listed folders fs p) (hclean : CleanedUp host.platform folders fs fs') :
    fs'.file? p = some (guarded host lock f) := by
  rw [hclean.listed p hlisted, h.file, savedPerms, h.record]
  exact congrArg (fun perms => some { guarded host lock f with perms }) (absorbed _ _)

theorem Taken.restored_iff {host : Host} {fs : FileSystem} (h : Taken host lock p f fs)
    (hlisted : Listed folders fs p) (hclean : CleanedUp host.platform folders fs fs') :
    Restored p f fs' ↔ lock.originatorNode = host.self ∨ f.perms &&& writePerms = 0 := by
  have hperms : (fs'.file? p).map File.perms = some (guarded host lock f).perms := by
    rw [Taken.cleanedUp h hlisted hclean, Option.map_some]
  rw [← guarded_perms_iff]
  constructor
  · intro hrestored
    exact Option.some_inj.mp (hperms.symm.trans hrestored.perms)
  · intro hsame
    exact ⟨hclean.locks p hlisted, hperms.trans (congrArg some hsame)⟩

/-- **A lock that is still there when the node goes down.** However much has happened to other files
since it was taken, the file gets its permissions back if and only if the lock was the node's own,
or nobody could write to the file in the first place. After another node's lock nobody can. -/
theorem cleanUp_restores_iff (hconnected : n.isFinishedConnecting = true)
    (hlock : filePath lock.targetFile = p) (hfits : PathFits lock.targetFile)
    (hf : n.files.file? p = some f) (hfree : LockState env.host.platform n.files p none)
    (htaken : Handled env n (.lock lock, true) n₁) (run : Trace (Handled env) n₁ ls n₂)
    (hls : ∀ l ∈ ls, Beside p l) (hlisted : Listable folders p)
    (hclean : cleanUp env.host.platform folders n₂.files = .ok () fs') :
    (Restored p f fs' ↔ lock.originatorNode = env.host.self ∨ f.perms &&& writePerms = 0) ∧
      (lock.originatorNode ≠ env.host.self → Managers.Closed fs' p) := by
  obtain ⟨files, hrun, rfl⟩ := handled_lock htaken
  rw [hconnected] at hrun
  have hkept := run_beside run hls (lock_taken hlock hfits hf hfree hrun)
  have hfile : p ∈ n₂.files.files := FileSystem.mem_files_of_file? hkept.file
  have hcleaned := ((cleanUp_iff _ _ _ _).mp hclean).2.2
  exact ⟨Taken.restored_iff hkept ⟨hfile, hlisted⟩ hcleaned, fun hforeign =>
    ⟨_, Taken.cleanedUp hkept ⟨hfile, hlisted⟩ hcleaned, guarded_foreign f hforeign⟩⟩

end Undone

/-- The node goes down while another one has locked `docs/a`: the file stays without write
permission. -/
theorem foreignLock_remains : ∃ n₁ fs',
    Handled readerSetting unlockedNode (.lock foreignLock, true) n₁ ∧
      cleanUp reader.platform [FileSystem.docsA.dropLast] n₁.files = .ok () fs' ∧
      ¬ Restored FileSystem.docsA ⟨[], 0o644⟩ fs' ∧
      Managers.Closed fs' FileSystem.docsA := by
  have hfile : unlockedNode.files.file? FileSystem.docsA = some ⟨[], 0o644⟩ := by
    rw [unlockedNode, FileSystem.file?_docs, if_pos rfl]
  have hlock : value? (handle readerSetting (.lock foreignLock) unlockedNode) = some true := by
    decide +kernel
  have hclean : value? (cleanUp reader.platform [FileSystem.docsA.dropLast]
      (final (handle readerSetting (.lock foreignLock) unlockedNode)).files) = some () := by
    decide +kernel
  have hremains := @cleanUp_restores_iff readerSetting unlockedNode _ _ foreignLock FileSystem.docsA
    ⟨[], 0o644⟩ [] _ _ rfl rfl foreignLock_fits hfile ⟨by decide +kernel, by decide +kernel⟩
    (eq_ok_of_value hlock) (.nil _) (by simp) ⟨_, List.mem_singleton_self _, by decide +kernel⟩
    (eq_ok_of_value hclean)
  refine ⟨_, _, eq_ok_of_value hlock, eq_ok_of_value hclean, ?_⟩
  exact ⟨fun hrestored => absurd (hremains.1.mp hrestored) (by decide), hremains.2 (by decide)⟩

end Node

end WhisperNet
