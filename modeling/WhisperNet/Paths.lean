import WhisperNet.Lib.FsPath

/-!
# Managed paths and their metadata

A file is known by the elements of its path. Next to it, under the `.wnts` folder of the managed
folder, `wntsPath` keeps its hash and `lockFilePath` its lock.

* `lockFilePath_ne`, `wntsPath_ne` — a managed file is not its own metadata.
* `lockFilePath_inj` — different files have different locks.
-/

namespace WhisperNet

open Bin

/-- A path by its elements, as `operator<` compares it. -/
abbrev FilePath := List Bytes

/-- The file a path off the wire names: such paths are in normal form. -/
def filePath (p : FsPath) : FilePath := p.elements

/-- `.wnts` -/
def wnts : Bytes := [46, 119, 110, 116, 115]

/-- `.lock.` -/
def lockPrefix : Bytes := [46, 108, 111, 99, 107, 46]

/-- `path.filename()` -/
def filename (p : FilePath) : Bytes := p.getLastD []

/-- `wntsPath`: the same path under the `.wnts` folder of its first element. -/
def wntsPath : FilePath → FilePath
  | [] => [wnts]
  | folder :: rest => folder :: wnts :: rest

/-- `lockFilePath`: next to the hash. -/
def lockFilePath (p : FilePath) : FilePath := (wntsPath p).dropLast ++ [lockPrefix ++ filename p]

/-- The path is in normal form, as those of the files in a folder are. -/
def InNormalForm (p : FilePath) : Prop := ∃ path : FsPath, path.lexicallyNormal = path ∧
  filePath path = p

/-- A path in normal form is sent as it is, and names its file off the wire. -/
theorem InNormalForm.ofElements {p : FilePath} (h : InNormalForm p) :
    (FsPath.ofElements p).lexicallyNormal = .ofElements p ∧ filePath (.ofElements p) = p := by
  obtain ⟨path, hnormal, rfl⟩ := h
  have hbuilt : FsPath.ofElements (filePath path) = path := by
    have hnormal' := FsPath.ofElements_elements_normal path
    rwa [hnormal] at hnormal'
  rw [hbuilt, hnormal]
  exact ⟨rfl, rfl⟩

theorem InNormalForm.received {p : FilePath} (h : InNormalForm p) :
    filePath (FsPath.ofElements p).lexicallyNormal = p := by
  rw [h.ofElements.1, h.ofElements.2]

/-- A file in a managed folder, outside of `.wnts`. -/
structure Managed (p : FilePath) : Prop where
  inFolder : 2 ≤ p.length
  notMeta : wnts ∉ p

/-- So the folder it is in has a name. -/
theorem Managed.parent_ne_nil {p : FilePath} (h : Managed p) : p.dropLast ≠ [] := by
  intro hnil
  have hlen := congrArg List.length hnil
  have hfolder := h.inFolder
  rw [List.length_dropLast, List.length_nil] at hlen
  omega

theorem wnts_mem_lockFilePath {p : FilePath} (h : 2 ≤ p.length) : wnts ∈ lockFilePath p := by
  match p, h with
  | folder :: name :: rest, _ => simp [lockFilePath, wntsPath]

theorem wnts_mem_wntsPath (p : FilePath) : wnts ∈ wntsPath p := by
  cases p <;> simp [wntsPath]

theorem lockFilePath_ne {p : FilePath} (h : Managed p) : lockFilePath p ≠ p := by
  intro heq
  have hmem := wnts_mem_lockFilePath h.inFolder
  rw [heq] at hmem
  exact h.notMeta hmem

/-- A lock file has one more element in its path. -/
theorem length_lockFilePath (p : FilePath) : (lockFilePath p).length = p.length + 1 := by
  cases p <;> simp [lockFilePath, wntsPath]

theorem lockFilePath_ne_self (p : FilePath) : lockFilePath p ≠ p := by
  intro heq
  have hlen := congrArg List.length heq
  rw [length_lockFilePath] at hlen
  omega

theorem lockFilePath_dropLast_ne_nil {p : FilePath} (h : p ≠ []) :
    (lockFilePath p).dropLast ≠ [] := by
  intro hnil
  have hlen := congrArg List.length hnil
  have hname := List.length_pos_of_ne_nil h
  rw [List.length_dropLast, length_lockFilePath, List.length_nil] at hlen
  omega

/-- A lock outside of `.wnts` is that of the folder it is in. -/
theorem folder_of_lock {p : FilePath} (h : wnts ∉ lockFilePath p) :
    (lockFilePath p).dropLast = p := by
  match p with
  | [] => rfl
  | [_] => rfl
  | _ :: _ :: _ => exact absurd (wnts_mem_lockFilePath (by simp)) h

/-- Different files have different lock files. -/
theorem lockFilePath_inj {p q : FilePath} (h : lockFilePath p = lockFilePath q) : p = q := by
  obtain ⟨hfolder, hlock⟩ := List.append_singleton_inj.mp h
  have hname : filename p = filename q := List.append_cancel_left hlock
  match p, q with
  | [], [] => rfl
  | [], _ :: _ => simp [wntsPath] at hfolder
  | _ :: _, [] => simp [wntsPath] at hfolder
  | [_], [_] => simpa [wntsPath] using hfolder
  | [_], _ :: _ :: _ => simp [wntsPath] at hfolder
  | _ :: _ :: _, [_] => simp [wntsPath] at hfolder
  | folder :: next :: rest, folder' :: next' :: rest' =>
    obtain ⟨rfl, hrest⟩ : folder = folder' ∧
        (next :: rest).dropLast = (next' :: rest').dropLast := by
      simpa [wntsPath] using hfolder
    have hlast : (next :: rest).getLast (by simp) = (next' :: rest').getLast (by simp) := by
      simpa [filename, List.getLastD_eq_getLast?, List.getLast?_eq_some_getLast] using hname
    rw [← List.dropLast_append_getLast (List.cons_ne_nil next rest), hrest, hlast,
      List.dropLast_append_getLast]

theorem wntsPath_ne {p : FilePath} (h : Managed p) : wntsPath p ≠ p := by
  intro heq
  have hmem := wnts_mem_wntsPath p
  rw [heq] at hmem
  exact h.notMeta hmem

end WhisperNet
