import WhisperNet.Paths
import Std.Data.TreeMap

/-!
# The filesystem sweeper

`FilesystemSweeper::sweep`: it scans paths in turn, all of them or those on the fast track, and
compares what it finds with the map it keeps; then it goes through that map and reports as deleted
whatever the scan did not reach. The callbacks are events and return normally.

* `scan_map` — what a scan leaves in the map it goes by.
* `mem_deleted_iff` — which paths a sweep reports as deleted.
-/

namespace WhisperNet

open Bin

/-- `std::filesystem::file_time_type`, in nanoseconds. -/
abbrev FileTime := Int

/-- What `last_write_time` does. -/
inductive Stat
  | time (t : FileTime)
  /-- It throws an error of code 2. -/
  | notFound
  /-- It throws another error. -/
  | failed
  deriving DecidableEq

def Stat.isTime : Stat → Bool
  | time _ => true
  | _ => false

/-- A call of a callback. -/
inductive SweepEvent
  | created (path : FilePath)
  | modified (path : FilePath)
  | deleted (path : FilePath)
  | fastTracked (path : FilePath)
  | unFastTracked (path : FilePath)
  deriving DecidableEq

/-- The file an event is about. -/
def SweepEvent.path : SweepEvent → FilePath
  | created path | modified path | deleted path | fastTracked path | unFastTracked path => path

/-- Times and counters of the files a sweep goes by. -/
abbrev TimeMap := Std.TreeMap FilePath (FileTime × UInt64)

structure FilesystemSweeper where
  timestamps : TimeMap := ∅
  fastTrackTimestamps : TimeMap := ∅
  iteration : UInt64 := 0

/-- What one sweep finds. -/
structure Surroundings where
  total : Bool
  /-- What `enumerateAllFiles` lists, and what becomes of each path when it is looked at. -/
  listing : List (FilePath × Stat)
  /-- What becomes of a path on the fast track. -/
  stat : FilePath → Stat
  /-- `file_time_type::clock::now()` after the scan. -/
  now : FileTime

namespace FilesystemSweeper

/-- `auto* timestamps`: the map a sweep goes by. -/
def map (sw : FilesystemSweeper) (total : Bool) : TimeMap :=
  if total then sw.timestamps else sw.fastTrackTimestamps

/-- The paths to scan. -/
def paths (sw : FilesystemSweeper) (s : Surroundings) : List (FilePath × Stat) :=
  if s.total then s.listing else sw.fastTrackTimestamps.keys.map fun path => (path, s.stat path)

/-! ## The scan -/

/-- `(*timestamps)[path] = pair` -/
def mark (sw : FilesystemSweeper) (total : Bool) (path : FilePath) (pair : FileTime × UInt64) :
    FilesystemSweeper :=
  if total then { sw with timestamps := sw.timestamps.insert path pair }
  else { sw with fastTrackTimestamps := sw.fastTrackTimestamps.insert path pair }

/-- `fastTrackTimestamps[path] = pair`, reported if the path was not there. -/
def fastTrack (sw : FilesystemSweeper) (path : FilePath) (pair : FileTime × UInt64) :
    List SweepEvent × FilesystemSweeper :=
  (if path ∈ sw.fastTrackTimestamps then [] else [.fastTracked path],
    { sw with fastTrackTimestamps := sw.fastTrackTimestamps.insert path pair })

/-- The body of the scanning loop, once the time is known. -/
def visit (sw : FilesystemSweeper) (total : Bool) (path : FilePath) (timestamp : FileTime) :
    List SweepEvent × FilesystemSweeper :=
  let pair := (timestamp, sw.iteration)
  match (sw.map total)[path]? with
  | none =>
    let (tracked, sw') := sw.fastTrack path pair
    (.created path :: tracked, sw'.mark total path pair)
  | some (old, _) =>
    if old < timestamp then
      let (tracked, sw') := sw.fastTrack path pair
      (.modified path :: tracked, sw'.mark total path pair)
    else ([], sw.mark total path pair)

/-- How the scanning loop ends. -/
inductive ScanEnd
  | finished
  /-- An error of code 2: the rest of the paths is not looked at. -/
  | vanished (path : FilePath)
  /-- Another error, which leaves `sweep`. -/
  | rethrown

/-- The scanning loop. -/
def scan (total : Bool) :
    FilesystemSweeper → List (FilePath × Stat) → List SweepEvent × FilesystemSweeper × ScanEnd
  | sw, [] => ([], sw, .finished)
  | sw, (path, .time t) :: rest =>
    let (events, sw') := sw.visit total path t
    let (more, sw'', fin) := scan total sw' rest
    (events ++ more, sw'', fin)
  | sw, (path, .notFound) :: _ => ([], sw, .vanished path)
  | sw, (_, .failed) :: _ => ([], sw, .rethrown)

/-! ## The report -/

/-- What the reporting loop makes of an entry. -/
inductive Verdict
  | deleted
  | old
  | recent
  deriving DecidableEq

def verdict (iteration : UInt64) (now : FileTime) (pair : FileTime × UInt64) : Verdict :=
  if pair.2 ≠ iteration then .deleted
  else if (now - pair.1).tdiv 1000000 > 10000 then .old
  else .recent

/-- The body of the reporting loop. -/
def report (fast : TimeMap) (iteration : UInt64) (now : FileTime)
    (entry : FilePath × (FileTime × UInt64)) : List SweepEvent :=
  match verdict iteration now entry.2 with
  | .deleted => [.deleted entry.1]
  | .old => if entry.1 ∈ fast then [.unFastTracked entry.1] else []
  | .recent => []

/-- The entries with a verdict. -/
def judged (v : Verdict) (m : TimeMap) (iteration : UInt64) (now : FileTime) : List FilePath :=
  (m.toList.filter fun entry => verdict iteration now entry.2 = v).map Prod.fst

def eraseAll (m : TimeMap) (paths : List FilePath) : TimeMap := paths.foldl (·.erase ·) m

/-- The reporting loop and the removals: `removed` is what the scan found missing. -/
def finish (sw : FilesystemSweeper) (total : Bool) (now : FileTime) (removed : List FilePath) :
    List SweepEvent × FilesystemSweeper :=
  let m := sw.map total
  let removedFiles := removed ++ judged .deleted m sw.iteration now
  let fastTrackRemovedFiles := judged .old m sw.iteration now
  (m.toList.flatMap (report sw.fastTrackTimestamps sw.iteration now),
    { timestamps := eraseAll sw.timestamps removedFiles
      fastTrackTimestamps :=
        eraseAll (eraseAll sw.fastTrackTimestamps removedFiles) fastTrackRemovedFiles
      iteration := sw.iteration + 1 })

/-- `sweep`: the calls made, and the sweeper afterwards unless an exception leaves it. -/
def sweep (sw : FilesystemSweeper) (s : Surroundings) :
    List SweepEvent × Option FilesystemSweeper :=
  match scan s.total sw (sw.paths s) with
  | (events, _, .rethrown) => (events, none)
  | (events, sw', .finished) =>
    let (more, sw'') := sw'.finish s.total s.now []
    (events ++ more, some sw'')
  | (events, sw', .vanished path) =>
    let (more, sw'') := sw'.finish s.total s.now [path]
    (events ++ more, some sw'')

/-! ## The maps -/

@[simp] theorem getElem?_insert_map (m : TimeMap) (p q : FilePath) (pair : FileTime × UInt64) :
    (m.insert p pair)[q]? = if p = q then some pair else m[q]? := by
  simp only [Std.TreeMap.getElem?_insert, Std.compare_eq_iff_eq]

theorem getElem?_eraseAll (m : TimeMap) (ps : List FilePath) (q : FilePath) :
    (eraseAll m ps)[q]? = if q ∈ ps then none else m[q]? := by
  unfold eraseAll
  induction ps generalizing m with
  | nil => simp
  | cons p ps ih =>
    rw [List.foldl_cons, ih, Std.TreeMap.getElem?_erase]
    simp only [Std.compare_eq_iff_eq, List.mem_cons]
    by_cases hps : q ∈ ps
    · simp [hps]
    · by_cases hp : p = q
      · simp [hp]
      · simp [hp, hps, Ne.symm hp]

theorem mem_iff_exists {m : TimeMap} {q : FilePath} : q ∈ m ↔ ∃ pair, m[q]? = some pair := by
  rw [Std.TreeMap.mem_iff_isSome_getElem?, Option.isSome_iff_exists]

theorem mem_judged {v : Verdict} {m : TimeMap} {iteration : UInt64} {now : FileTime}
    {q : FilePath} : q ∈ judged v m iteration now ↔
      ∃ pair, m[q]? = some pair ∧ verdict iteration now pair = v := by
  simp [judged, Std.TreeMap.mem_toList_iff_getElem?_eq_some]

theorem verdict_eq_deleted {iteration : UInt64} (now : FileTime) {pair : FileTime × UInt64} :
    verdict iteration now pair = .deleted ↔ pair.2 ≠ iteration := by
  unfold verdict
  split
  · simp [*]
  · split <;> simp_all

/-! ## One visit -/

section Visit

variable (sw : FilesystemSweeper) (total : Bool) (path : FilePath) (t : FileTime)

@[simp] theorem iteration_mark (pair : FileTime × UInt64) :
    (sw.mark total path pair).iteration = sw.iteration := by
  cases total <;> rfl

@[simp] theorem iteration_visit : (sw.visit total path t).2.iteration = sw.iteration := by
  unfold visit
  split
  · simp [fastTrack]
  · dsimp only
    split <;> simp [fastTrack]

/-- A visit records the time and the iteration, and nothing else in the map the sweep goes by. -/
theorem map_visit (q : FilePath) : ((sw.visit total path t).2.map total)[q]? =
    if path = q then some (t, sw.iteration) else (sw.map total)[q]? := by
  by_cases hq : path = q
  · unfold visit
    split
    · cases total <;> simp [fastTrack, mark, map, hq]
    · dsimp only
      split <;> cases total <;> simp [fastTrack, mark, map, hq]
  · unfold visit
    split
    · cases total <;> simp [fastTrack, mark, map, hq]
    · dsimp only
      split <;> cases total <;> simp [fastTrack, mark, map, hq]

end Visit

/-! ## The whole scan -/

/-- The paths a scan gets to record. -/
def scanned (files : List (FilePath × Stat)) : List FilePath :=
  (files.takeWhile fun file => file.2.isTime).map Prod.fst

/-- How the scan ends. -/
def scanEnd (files : List (FilePath × Stat)) : ScanEnd :=
  match files.dropWhile fun file => file.2.isTime with
  | [] => .finished
  | (path, .notFound) :: _ => .vanished path
  | _ :: _ => .rethrown

section Scan

variable (total : Bool) (sw : FilesystemSweeper) (files : List (FilePath × Stat))

@[simp] theorem scan_end : (scan total sw files).2.2 = scanEnd files := by
  induction files generalizing sw with
  | nil => rfl
  | cons file rest ih =>
    obtain ⟨path, stat⟩ := file
    cases stat with
    | time t => exact ih _
    | notFound => rfl
    | failed => rfl

@[simp] theorem iteration_scan : (scan total sw files).2.1.iteration = sw.iteration := by
  induction files generalizing sw with
  | nil => rfl
  | cons file rest ih =>
    obtain ⟨path, stat⟩ := file
    cases stat with
    | time t => exact (ih _).trans (iteration_visit sw total path t)
    | notFound => rfl
    | failed => rfl

/-- Outside of the paths scanned, the map is as it was. -/
theorem scan_map_of_not_scanned {q : FilePath} (h : q ∉ scanned files) :
    ((scan total sw files).2.1.map total)[q]? = (sw.map total)[q]? := by
  induction files generalizing sw with
  | nil => rfl
  | cons file rest ih =>
    obtain ⟨path, stat⟩ := file
    cases stat with
    | time t =>
      simp only [scanned, Stat.isTime, List.takeWhile_cons_of_pos, List.map_cons, List.mem_cons,
        not_or] at h
      exact (ih _ h.2).trans ((map_visit sw total path t q).trans (if_neg (Ne.symm h.1)))
    | notFound => rfl
    | failed => rfl

/-- The paths scanned carry their time and the iteration. -/
theorem scan_map_of_scanned {q : FilePath} (h : q ∈ scanned files) :
    ∃ t, (q, Stat.time t) ∈ files ∧
      ((scan total sw files).2.1.map total)[q]? = some (t, sw.iteration) := by
  induction files generalizing sw with
  | nil => simp [scanned] at h
  | cons file rest ih =>
    obtain ⟨path, stat⟩ := file
    cases stat with
    | time t =>
      by_cases hrest : q ∈ scanned rest
      · obtain ⟨t', hmem, hmap⟩ := ih (sw.visit total path t).2 hrest
        rw [iteration_visit] at hmap
        exact ⟨t', List.mem_cons_of_mem _ hmem, hmap⟩
      · have hcons : q ∈ path :: scanned rest := h
        obtain rfl := (List.mem_cons.mp hcons).resolve_right hrest
        refine ⟨t, List.mem_cons_self, ?_⟩
        exact (scan_map_of_not_scanned total _ rest hrest).trans
          ((map_visit sw total q t q).trans (if_pos rfl))
    | notFound => simp [scanned, Stat.isTime] at h
    | failed => simp [scanned, Stat.isTime] at h

theorem not_deleted_mem_visit (path : FilePath) (t : FileTime) (q : FilePath) :
    .deleted q ∉ (sw.visit total path t).1 := by
  unfold visit
  split
  · simp [fastTrack]
  · dsimp only
    split <;> simp [fastTrack]

/-- A scan reports nothing as deleted. -/
theorem not_deleted_mem_scan (q : FilePath) : .deleted q ∉ (scan total sw files).1 := by
  induction files generalizing sw with
  | nil => exact List.not_mem_nil
  | cons file rest ih =>
    obtain ⟨path, stat⟩ := file
    cases stat with
    | time t =>
      intro h
      rcases List.mem_append.mp h with h | h
      · exact not_deleted_mem_visit total sw path t q h
      · exact ih _ h
    | notFound => exact List.not_mem_nil
    | failed => exact List.not_mem_nil

end Scan

/-! ## The report -/

theorem deleted_mem_report {fast : TimeMap} {iteration : UInt64} {now : FileTime}
    {entry : FilePath × (FileTime × UInt64)} {q : FilePath} :
    .deleted q ∈ report fast iteration now entry ↔ entry.1 = q ∧ entry.2.2 ≠ iteration := by
  rw [← verdict_eq_deleted now]
  unfold report
  split
  · simp [*, eq_comm]
  · split <;> simp [*]
  · simp [*]

/-- The reporting loop reports as deleted what does not carry the iteration. -/
theorem deleted_mem_finish {sw : FilesystemSweeper} {total : Bool} {now : FileTime}
    {removed : List FilePath} {q : FilePath} : .deleted q ∈ (sw.finish total now removed).1 ↔
      ∃ pair, (sw.map total)[q]? = some pair ∧ pair.2 ≠ sw.iteration := by
  simp only [finish, List.mem_flatMap, deleted_mem_report, Prod.exists,
    Std.TreeMap.mem_toList_iff_getElem?_eq_some]
  constructor
  · rintro ⟨p, t, c, hmap, rfl, hne⟩
    exact ⟨t, c, hmap, hne⟩
  · rintro ⟨t, c, hmap, hne⟩
    exact ⟨q, t, c, hmap, rfl, hne⟩

/-- The sweep is its scan and, unless that fails, its report. -/
theorem sweep_eq (sw : FilesystemSweeper) (s : Surroundings) :
    sw.sweep s = match scanEnd (sw.paths s) with
      | .rethrown => ((scan s.total sw (sw.paths s)).1, none)
      | .finished => ((scan s.total sw (sw.paths s)).1 ++
          ((scan s.total sw (sw.paths s)).2.1.finish s.total s.now []).1,
          some ((scan s.total sw (sw.paths s)).2.1.finish s.total s.now []).2)
      | .vanished path => ((scan s.total sw (sw.paths s)).1 ++
          ((scan s.total sw (sw.paths s)).2.1.finish s.total s.now [path]).1,
          some ((scan s.total sw (sw.paths s)).2.1.finish s.total s.now [path]).2) := by
  have hend := scan_end s.total sw (sw.paths s)
  rw [sweep, ← hend]
  obtain ⟨events, sw', fin⟩ := scan s.total sw (sw.paths s)
  cases fin <;> rfl

/-- **What a sweep reports as deleted**: what it kept track of and did not record in its scan. -/
theorem mem_deleted_iff (sw : FilesystemSweeper) (s : Surroundings) (q : FilePath) :
    .deleted q ∈ (sw.sweep s).1 ↔ scanEnd (sw.paths s) ≠ .rethrown ∧
      q ∉ scanned (sw.paths s) ∧ ∃ pair, (sw.map s.total)[q]? = some pair ∧
        pair.2 ≠ sw.iteration := by
  have hscan := not_deleted_mem_scan s.total sw (sw.paths s) q
  have hmap : (∃ pair, ((scan s.total sw (sw.paths s)).2.1.map s.total)[q]? = some pair ∧
      pair.2 ≠ sw.iteration) ↔ q ∉ scanned (sw.paths s) ∧
        ∃ pair, (sw.map s.total)[q]? = some pair ∧ pair.2 ≠ sw.iteration := by
    by_cases hq : q ∈ scanned (sw.paths s)
    · obtain ⟨t, -, hmap⟩ := scan_map_of_scanned s.total sw (sw.paths s) hq
      simp [hmap, hq]
    · simp [scan_map_of_not_scanned s.total sw (sw.paths s) hq, hq]
  rw [sweep_eq]
  split
  · simp [*]
  · simp [*, deleted_mem_finish]
  · simp [*, deleted_mem_finish]

end FilesystemSweeper

end WhisperNet
