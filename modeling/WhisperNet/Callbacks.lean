import WhisperNet.HandlerRuns
import WhisperNet.Sweeper
import Mathlib.Data.UInt

/-!
# The callbacks of a sweep

What `main.cpp` makes of the events of a sweep, over the disk of the node. A created or modified
file is broadcast unless its hash is the one stored for it, a deleted file always.

* `callback` — the callback of an event.
* `callbacks_quiet`, `callbacks_loud` — whether the callbacks of a sweep broadcast a change or a
  deletion: whether one of the events calls for it.
-/

namespace WhisperNet

open Bin Fs

/-! ## Reading and writing hashes -/

/-- `isspace` -/
def isSpace (c : UInt8) : Bool := c == 32 || (9 ≤ c && c ≤ 13)

def isDigit (c : UInt8) : Bool := 48 ≤ c && c ≤ 57

/-- `fin >> size`, by the standard's rules: a stream at its end leaves `size` as it is, no digits
give 0 and too many the maximum. -/
def extractSize (size : UInt64) (text : Bytes) : UInt64 :=
  match text.dropWhile isSpace with
  | [] => size
  | c :: rest =>
    let digits := (if c == 43 || c == 45 then rest else c :: rest).takeWhile isDigit
    let n := digits.foldl (fun n d => 10 * n + (d.toNat - 48)) 0
    if 2 ^ 64 ≤ n then 2 ^ 64 - 1
    else if c == 45 then -UInt64.ofNat n
    else UInt64.ofNat n

namespace Fs

/-- `last_write_time(p)` -/
def lastWriteTime (mtime : FilePath → FileTime) (p : FilePath) : Fs FileTime := fun fs =>
  if p ∈ fs.files ∨ p ∈ fs.dirs then .ok (mtime p) fs else .error .filesystem fs

/-- Reading a whole file into a string. A file can always be read; where there is none, `resize`
throws. -/
def readFile (p : FilePath) : Fs Bytes := fun fs =>
  match fs.file? p with
  | some f => .ok f.content fs
  | none => .error .runtime fs

/-- `fin >> oldHash`, where `oldHash` was not initialized. A file can always be read. -/
def readHash (oldHash : UInt64) (p : FilePath) : Fs UInt64 := fun fs =>
  .ok ((fs.file? p).elim oldHash fun f => extractSize oldHash f.content) fs

end Fs

/-! ## The callbacks -/

/-- What a callback goes by besides the files. -/
structure Readings where
  /-- How far `system_clock` is ahead of the clock of file times. -/
  drift : Int
  /-- `std::chrono::system_clock::now()` -/
  now : TimePoint
  /-- What `oldHash` is before anything is read into it. -/
  oldHash : UInt64

section Callbacks

variable (host : Host) (mtime : FilePath → FileTime) (r : Readings)

/-- `convertTimepoint<std::chrono::system_clock::time_point>(time)` -/
def Readings.convert (time : FileTime) : TimePoint := Int64.ofInt (time + r.drift)

/-- A message about a file, as the callbacks fill it in. -/
def fileMessage (type : MessageType) (path : FilePath) (timestamp : TimePoint) : FileMessage where
  type
  receiverNode := .ipv6Unspecified
  messageHash := 0
  targetFile := .ofElements path
  timestamp

/-- `shouldSend` -/
def shouldSend (path : FilePath) (hash : UInt64) : Fs Bool := do
  if !(← exist (wntsPath path)) then return true
  else do
    let oldHash ← readHash r.oldHash (wntsPath path)
    return hash ≠ oldHash

/-- `fout << hash` -/
def storeHash (path : FilePath) (hash : UInt64) : Fs Unit := do
  let fout ← ofstream host (wntsPath path)
  put fout (wntsPath path) (toDecimal hash.toNat)

def onFileCreatedOrModified (path : FilePath) : Fs (List AnyMessage) := do
  let time ← lastWriteTime mtime path
  let fileContent ← readFile path
  let m : FileContentMessage :=
    { fileMessage .contentChange path (r.convert time) with fileContent }
  if ← shouldSend r path (hash fileContent) then do
    storeHash host path (hash fileContent)
    return [.fileContent m]
  else return []

def onFileDeleted (path : FilePath) : Fs (List AnyMessage) :=
  return [.file (fileMessage .deleteFile path r.now)]

def onFileFastTracked (path : FilePath) : Fs (List AnyMessage) := do
  let time ← lastWriteTime mtime path
  return [.file (fileMessage .lock path (r.convert time))]

def onFileUnFastTracked (path : FilePath) : Fs (List AnyMessage) := do
  let time ← lastWriteTime mtime path
  return [.file (fileMessage .unlock path (r.convert time))]

/-- What the callback of an event passes to `PeerManager::send`, which broadcasts it. -/
def callback : SweepEvent → Fs (List AnyMessage)
  | .created path | .modified path => onFileCreatedOrModified host mtime r path
  | .deleted path => onFileDeleted r path
  | .fastTracked path => onFileFastTracked mtime r path
  | .unFastTracked path => onFileUnFastTracked mtime r path

/-- The callbacks of a sweep: what they broadcast, and the disk then, unless one throws. -/
def callbacks (readings : SweepEvent → Readings) :
    FileSystem → List SweepEvent → List AnyMessage × Option FileSystem
  | fs, [] => ([], some fs)
  | fs, event :: events =>
    match callback host mtime (readings event) event fs with
    | .error _ _ => ([], none)
    | .ok sent fs' =>
      let (more, fin) := callbacks readings fs' events
      (sent ++ more, fin)

end Callbacks

/-- A message that changes files at other nodes. -/
def Loud (m : AnyMessage) : Prop := m.base.type = .contentChange ∨ m.base.type = .deleteFile

instance (m : AnyMessage) : Decidable (Loud m) := inferInstanceAs (Decidable (_ ∨ _))

/-! ## What the callbacks do -/

/-- The hash file says what the file contains, whatever is read into. -/
def Stored (fs : FileSystem) (p : FilePath) : Prop :=
  ∃ f g, fs.file? p = some f ∧ fs.file? (wntsPath p) = some g ∧
    ∀ oldHash, extractSize oldHash g.content = hash f.content

/-- What `shouldSend` comes out as. -/
def Differs (fs : FileSystem) (oldHash : UInt64) (p : FilePath) (hash : UInt64) : Prop :=
  (wntsPath p ∉ fs.files ∧ wntsPath p ∉ fs.dirs) ∨
    hash ≠ (fs.file? (wntsPath p)).elim oldHash fun g => extractSize oldHash g.content

instance (fs : FileSystem) (oldHash : UInt64) (p : FilePath) (hash : UInt64) :
    Decidable (Differs fs oldHash p hash) :=
  inferInstanceAs (Decidable (_ ∨ _))

theorem shouldSend_ok (r : Readings) (p : FilePath) (hash : UInt64) (fs : FileSystem) :
    shouldSend r p hash fs = .ok (decide (Differs fs r.oldHash p hash)) fs := by
  by_cases h : wntsPath p ∈ fs.files ∨ wntsPath p ∈ fs.dirs
  · have hexist : exist (wntsPath p) fs = .ok true fs := by rw [exist, decide_eq_true h]
    have hdiffers : Differs fs r.oldHash p hash ↔
        hash ≠ (fs.file? (wntsPath p)).elim r.oldHash fun g => extractSize r.oldHash g.content :=
      or_iff_right fun hnone => h.elim hnone.1 hnone.2
    rw [shouldSend, Effect.bind_ok hexist, decide_eq_decide.mpr hdiffers]
    rfl
  · have hexist : exist (wntsPath p) fs = .ok false fs := by rw [exist, decide_eq_false h]
    have hdiffers : Differs fs r.oldHash p hash := Or.inl (not_or.mp h)
    rw [shouldSend, Effect.bind_ok hexist, decide_eq_true hdiffers]
    rfl

theorem not_differs_of_stored {fs : FileSystem} {p : FilePath} {f : File}
    (h : Stored fs p) (hf : fs.file? p = some f) (oldHash : UInt64) :
    ¬ Differs fs oldHash p (hash f.content) := by
  obtain ⟨f', g, hf', hg, hread⟩ := h
  obtain rfl := Option.some_inj.mp (hf'.symm.trans hf)
  rintro (⟨hfile, -⟩ | hne)
  · exact hfile (FileSystem.mem_files_of_file? hg)
  · rw [hg] at hne
    exact hne (hread oldHash).symm

/-- Where the hash file does not say what the file contains, it may be read so. -/
theorem exists_differs {fs : FileSystem} {p : FilePath} {f : File} (h : ¬ Stored fs p)
    (hf : fs.file? p = some f) : ∃ oldHash, Differs fs oldHash p (hash f.content) := by
  cases hg : fs.file? (wntsPath p) with
  | none =>
    refine ⟨hash f.content + 1, Or.inr ?_⟩
    rw [hg]
    intro heq
    have hone : (1 : UInt64) = 0 := by
      simpa using heq.symm
    exact absurd hone (by decide)
  | some g =>
    by_contra hall
    refine h ⟨f, g, hf, hg, fun oldHash => ?_⟩
    by_contra hne
    refine hall ⟨oldHash, Or.inr ?_⟩
    rw [hg]
    exact Ne.symm hne

/-- The callback of the event broadcasts a change or a deletion. -/
def LoudEvent (fs : FileSystem) (oldHash : UInt64) : SweepEvent → Prop
  | .created p | .modified p =>
    ∃ f, fs.file? p = some f ∧ Differs fs oldHash p (hash f.content)
  | .deleted _ => True
  | .fastTracked _ | .unFastTracked _ => False

section Callbacks

variable {host : Host} {mtime : FilePath → FileTime} {r : Readings} {fs fs' : FileSystem}
  {p : FilePath} {sent : List AnyMessage}

theorem lastWriteTime_ok {f : File} (hf : fs.file? p = some f) :
    lastWriteTime mtime p fs = .ok (mtime p) fs :=
  if_pos (Or.inl (FileSystem.mem_files_of_file? hf))

theorem readFile_ok {f : File} (hf : fs.file? p = some f) : readFile p fs = .ok f.content fs := by
  rw [readFile, hf]

theorem lastWriteTime_eq_ok {t : FileTime} (h : lastWriteTime mtime p fs = .ok t fs') :
    fs' = fs := by
  unfold lastWriteTime at h
  split at h
  · exact (EStateM.Result.ok.inj h).2.symm
  · cases h

theorem readFile_eq_ok {content : Bytes} (h : readFile p fs = .ok content fs') :
    fs' = fs ∧ ∃ f, fs.file? p = some f ∧ f.content = content := by
  unfold readFile at h
  split at h
  · next f hf =>
    obtain ⟨rfl, rfl⟩ := EStateM.Result.ok.inj h
    exact ⟨rfl, f, hf, rfl⟩
  · cases h

/-- Storing a hash does not throw. -/
theorem storeHash_ok (host : Host) (p : FilePath) (hash : UInt64) (fs : FileSystem) :
    ∃ fs', storeHash host p hash fs = .ok () fs' := by
  obtain ⟨isOpen, fs₁, hopen⟩ := ofstream_returns host (wntsPath p) fs
  rw [storeHash, Effect.bind_ok hopen]
  exact put_returns _ _ _ _

/-- Creation and modification, given the file. -/
theorem onFileCreatedOrModified_file (host : Host) (mtime : FilePath → FileTime) (r : Readings)
    {f : File} (hf : fs.file? p = some f) :
    onFileCreatedOrModified host mtime r p fs =
      if Differs fs r.oldHash p (hash f.content) then
        (storeHash host p (hash f.content) >>= fun _ => pure [.fileContent
          { fileMessage .contentChange p (r.convert (mtime p)) with fileContent := f.content }]) fs
      else .ok [] fs := by
  rw [onFileCreatedOrModified, Effect.bind_ok (lastWriteTime_ok hf),
    Effect.bind_ok (readFile_ok hf), Effect.bind_ok (shouldSend_ok _ _ _ _)]
  by_cases h : Differs fs r.oldHash p (hash f.content)
  · rw [decide_eq_true h, if_pos h]
    rfl
  · rw [decide_eq_false h, if_neg h]
    rfl

theorem loud_created {f : File} (hf : fs.file? p = some f)
    (h : Differs fs r.oldHash p (hash f.content)) :
    ∃ sent fs', onFileCreatedOrModified host mtime r p fs = .ok sent fs' ∧ ∃ m ∈ sent, Loud m := by
  obtain ⟨fs', hstore⟩ := storeHash_ok host p (hash f.content) fs
  rw [onFileCreatedOrModified_file _ _ _ hf, if_pos h, Effect.bind_ok hstore]
  exact ⟨_, fs', rfl, _, List.mem_singleton.mpr rfl, Or.inl rfl⟩

/-- A loud event is heard. -/
theorem callback_loud (host : Host) (mtime : FilePath → FileTime) {event : SweepEvent}
    (h : LoudEvent fs r.oldHash event) :
    ∃ sent fs', callback host mtime r event fs = .ok sent fs' ∧ ∃ m ∈ sent, Loud m := by
  cases event with
  | created p | modified p =>
    obtain ⟨f, hf, hdiffers⟩ := h
    exact loud_created hf hdiffers
  | deleted p => exact ⟨_, fs, rfl, _, List.mem_singleton.mpr rfl, Or.inr rfl⟩
  | fastTracked p | unFastTracked p => exact h.elim

/-- Any other changes no file and broadcasts no change. -/
theorem callback_quiet {event : SweepEvent} (h : ¬ LoudEvent fs r.oldHash event)
    (hrun : callback host mtime r event fs = .ok sent fs') :
    fs' = fs ∧ ∀ m ∈ sent, ¬ Loud m := by
  cases event with
  | created p | modified p =>
    obtain ⟨time, fs₁, htime, hrest⟩ := Effect.bind_eq_ok hrun
    obtain ⟨content, fs₂, hread, -⟩ := Effect.bind_eq_ok hrest
    obtain rfl := lastWriteTime_eq_ok htime
    obtain ⟨rfl, f, hf, rfl⟩ := readFile_eq_ok hread
    have hsame : ¬ Differs fs₂ r.oldHash p (hash f.content) := fun hd => h ⟨f, hf, hd⟩
    have hrun' := onFileCreatedOrModified_file host mtime r hf
    rw [if_neg hsame] at hrun'
    obtain ⟨rfl, rfl⟩ := EStateM.Result.ok.inj (hrun'.symm.trans hrun)
    exact ⟨rfl, by simp⟩
  | deleted p => exact absurd trivial h
  | fastTracked p | unFastTracked p =>
    obtain ⟨time, fs₁, htime, hrest⟩ := Effect.bind_eq_ok hrun
    obtain rfl := lastWriteTime_eq_ok htime
    obtain ⟨rfl, rfl⟩ := EStateM.Result.ok.inj hrest
    refine ⟨rfl, fun m hm => ?_⟩
    rw [List.mem_singleton.mp hm]
    simp [Loud, AnyMessage.base, fileMessage]

/-- About a file that is there, a callback returns. -/
theorem callback_file (host : Host) (mtime : FilePath → FileTime) {event : SweepEvent} {f : File}
    (h : ¬ LoudEvent fs r.oldHash event) (hf : fs.file? event.path = some f) :
    ∃ sent, callback host mtime r event fs = .ok sent fs := by
  cases event with
  | created p | modified p =>
    have hsame : ¬ Differs fs r.oldHash p (hash f.content) := fun hd => h ⟨f, hf, hd⟩
    exact ⟨[], (onFileCreatedOrModified_file _ _ _ hf).trans (if_neg hsame)⟩
  | deleted p => exact absurd trivial h
  | fastTracked p => exact ⟨_, Effect.bind_ok (lastWriteTime_ok hf)⟩
  | unFastTracked p => exact ⟨_, Effect.bind_ok (lastWriteTime_ok hf)⟩

end Callbacks

section Sequences

variable (host : Host) (mtime : FilePath → FileTime) {readings : SweepEvent → Readings}
  {fs : FileSystem} {events : List SweepEvent}

/-- Without a loud event the disk stays as it is, and no change is broadcast. -/
theorem callbacks_quiet (h : ∀ event ∈ events, ¬ LoudEvent fs (readings event).oldHash event) :
    (∀ m ∈ (callbacks host mtime readings fs events).1, ¬ Loud m) ∧
      ∀ fs' ∈ (callbacks host mtime readings fs events).2, fs' = fs := by
  induction events with
  | nil => exact ⟨by simp [callbacks], by simp [callbacks]⟩
  | cons event events ih =>
    obtain ⟨hhead, htail⟩ := List.forall_mem_cons.mp h
    obtain ⟨hmore, hfin⟩ := ih htail
    rw [callbacks]
    cases hrun : callback host mtime (readings event) event fs with
    | error e fs' => exact ⟨by simp, by simp⟩
    | ok sent fs' =>
      obtain ⟨rfl, hsent⟩ := callback_quiet hhead hrun
      refine ⟨fun m hm => ?_, hfin⟩
      rcases List.mem_append.mp hm with hm | hm
      · exact hsent m hm
      · exact hmore m hm

/-- With one it is heard, if the others are about files that are there. -/
theorem callbacks_loud
    (hfile : ∀ event ∈ events, LoudEvent fs (readings event).oldHash event ∨
      event.path ∈ fs.files)
    (h : ∃ event ∈ events, LoudEvent fs (readings event).oldHash event) :
    ∃ m ∈ (callbacks host mtime readings fs events).1, Loud m := by
  induction events with
  | nil => simp at h
  | cons event events ih =>
    obtain ⟨hhead, htail⟩ := List.forall_mem_cons.mp hfile
    rw [callbacks]
    by_cases hloud : LoudEvent fs (readings event).oldHash event
    · obtain ⟨sent, fs', hrun, m, hm, hm'⟩ := callback_loud host mtime hloud
      rw [hrun]
      exact ⟨m, List.mem_append_left _ hm, hm'⟩
    · obtain ⟨f, hf⟩ := Option.ne_none_iff_exists'.mp
        (FileSystem.file?_ne_none.mpr (hhead.resolve_left hloud))
      obtain ⟨sent, hrun⟩ := callback_file host mtime hloud hf
      obtain ⟨event', hmem, hloud'⟩ := h
      have hrest := (List.mem_cons.mp hmem).resolve_left fun heq => hloud (heq ▸ hloud')
      obtain ⟨m, hm, hm'⟩ := ih htail ⟨event', hrest, hloud'⟩
      rw [hrun]
      exact ⟨m, List.mem_append_right _ hm, hm'⟩

end Sequences

end WhisperNet
