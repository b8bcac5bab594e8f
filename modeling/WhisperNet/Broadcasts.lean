import WhisperNet.Callbacks
import WhisperNet.Listing
import WhisperNet.SweepScans

/-!
# What sweeps broadcast

A node and its sweeper: a sweep looks at the disk, and its callbacks broadcast what they make of
the events. They write to hash files only, which no sweep lists, so they may follow the scan.

* `Station.sweep` — one sweep of a node: what it broadcasts, and what the node is then.
* `Silent` — nothing is due: the maps and the stored hashes keep up with the files.
* `noEcho_iff` — exactly when no sequence of sweeps broadcasts a change or a deletion.
-/

namespace WhisperNet

open Bin Fs

/-! ## A node and its sweeper -/

/-- A node with the folders it manages, the times of its files and its sweeper. -/
structure Station where
  node : Node
  folders : List FilePath
  /-- When a file was last written to. -/
  mtime : FilePath → FileTime
  sweeper : FilesystemSweeper

/-- A call of `sweep`, and what it goes by besides the station. -/
structure SweepCall where
  total : Bool
  /-- `file_time_type::clock::now()` after the scan. -/
  now : FileTime
  readings : SweepEvent → Readings

namespace Station

/-- What comes of `last_write_time`; a path through a file is an error of code 20. -/
def look (s : Station) (p : FilePath) : Stat :=
  if p ∈ s.node.files.files ∨ p ∈ s.node.files.dirs then .time (s.mtime p)
  else if ∃ f ∈ s.node.files.files.keys, f <+: p then .failed
  else .notFound

/-- What `enumerateAllFiles` lists, unless it throws. -/
def listing (s : Station) : Option (List FilePath) :=
  Effect.value? (enumerateAllFiles s.folders s.node.files)

def surroundings (s : Station) (call : SweepCall) (paths : List FilePath) : Surroundings where
  total := call.total
  listing := paths.map fun p => (p, s.look p)
  stat := s.look
  now := call.now

section Sweeps

variable (host : Host)

/-- One sweep: what it broadcasts, and the station then, unless an exception ends the program. -/
def sweep (s : Station) (call : SweepCall) : List AnyMessage × Option Station :=
  match if call.total then s.listing else some [] with
  | none => ([], none)
  | some paths =>
    let (events, sweeper?) := s.sweeper.sweep (s.surroundings call paths)
    let (sent, files?) := callbacks host s.mtime call.readings s.node.files events
    (sent, files?.bind fun files => sweeper?.map fun sweeper =>
      { s with node := { s.node with files }, sweeper })

/-- What sweeps one after the other broadcast. -/
def sweeps : Station → List SweepCall → List AnyMessage
  | _, [] => []
  | s, call :: calls =>
    match s.sweep host call with
    | (sent, none) => sent
    | (sent, some s') => sent ++ sweeps s' calls

end Sweeps

end Station

/-- No sequence of sweeps broadcasts a change or a deletion. -/
def Station.NoEcho (host : Host) (s : Station) : Prop :=
  ∀ calls, ∀ m ∈ s.sweeps host calls, ¬ Loud m

/-! ## Silence -/

namespace Station

open FilesystemSweeper

/-- Every managed folder is there. -/
def Open (s : Station) : Prop := ∀ folder ∈ s.folders, folder ∈ s.node.files.dirs

/-- A file that a total sweep looks at. -/
def Listed (s : Station) (p : FilePath) : Prop :=
  p ∈ s.node.files.files ∧ Listable s.folders p

theorem listing_ok {s : Station} (h : s.Open) :
    ∃ paths, s.listing = some paths ∧ ∀ p, p ∈ paths ↔ s.Listed p := by
  obtain ⟨paths, hrun, hmem⟩ := enumerateAllFiles_ok h
  exact ⟨paths, by rw [listing, hrun]; rfl, hmem⟩

theorem listing_eq_some {s : Station} {paths : List FilePath} (h : s.listing = some paths) :
    s.Open ∧ ∀ p, p ∈ paths ↔ s.Listed p := by
  obtain ⟨-, hopen, hmem⟩ := enumerateAllFiles_eq_ok (Effect.eq_ok_of_value h)
  exact ⟨hopen, hmem⟩

/-- No sweep has anything to broadcast as a change or a deletion: what a total sweep lists is
settled and is all that is kept track of, and so are the files on the fast track. -/
structure Silent (s : Station) : Prop where
  listed : s.Open → ∀ p, s.Listed p →
    Settled s.mtime (Stored s.node.files) s.sweeper.timestamps p
  kept : s.Open → ∀ p ∈ s.sweeper.timestamps, s.Listed p
  present : ∀ p ∈ s.sweeper.fastTrackTimestamps, p ∈ s.node.files.files
  fast : ∀ p ∈ s.sweeper.fastTrackTimestamps,
    Settled s.mtime (Stored s.node.files) s.sweeper.fastTrackTimestamps p

section Silence

variable {host : Host} {s s' : Station} {call : SweepCall} {paths : List FilePath}

theorem look_file {p : FilePath} (h : p ∈ s.node.files.files) : s.look p = .time (s.mtime p) :=
  if_pos (Or.inl h)

theorem paths_total (htotal : call.total = true) :
    s.sweeper.paths (s.surroundings call paths) = paths.map fun p => (p, s.look p) := by
  rw [FilesystemSweeper.paths, if_pos (show (s.surroundings call paths).total = true from htotal)]
  rfl

theorem paths_fast (htotal : call.total = false) :
    s.sweeper.paths (s.surroundings call paths) =
      s.sweeper.fastTrackTimestamps.keys.map fun p => (p, s.look p) := by
  rw [FilesystemSweeper.paths, if_neg (by simp [surroundings, htotal])]
  rfl

theorem timed_look {ps : List FilePath} (h : ∀ p ∈ ps, p ∈ s.node.files.files) :
    Timed s.mtime (ps.map fun p => (p, s.look p)) := by
  intro file hfile
  obtain ⟨p, hp, rfl⟩ := List.mem_map.mp hfile
  exact look_file (h p hp)

theorem map_fst_look (ps : List FilePath) :
    (ps.map fun p => (p, s.look p)).map Prod.fst = ps := by
  rw [List.map_map]
  exact List.map_id ps

/-- What a silent station sweeps, it finds, and finds settled. -/
theorem Silent.full (h : s.Silent)
    (hpaths : (if call.total then s.listing else some []) = some paths) :
    Full s.mtime s.sweeper (s.surroundings call paths) ∧
      ∀ file ∈ s.sweeper.paths (s.surroundings call paths),
        file.1 ∈ s.node.files.files ∧
        Settled s.mtime (Stored s.node.files) (s.sweeper.map call.total) file.1 := by
  cases htotal : call.total with
  | true =>
    rw [htotal] at hpaths
    obtain ⟨hopen, hmem⟩ := listing_eq_some hpaths
    have hfiles : ∀ p ∈ paths, p ∈ s.node.files.files := fun p hp => ((hmem p).mp hp).1
    refine ⟨⟨?_, fun q hq => ?_⟩, fun file hfile => ?_⟩
    · rw [paths_total htotal]
      exact timed_look hfiles
    · have hq' : q ∈ s.sweeper.timestamps := by
        rwa [show (s.surroundings call paths).total = true from htotal] at hq
      rw [paths_total htotal, map_fst_look]
      exact (hmem q).mpr (h.kept hopen q hq')
    · rw [paths_total htotal] at hfile
      obtain ⟨p, hp, rfl⟩ := List.mem_map.mp hfile
      exact ⟨hfiles p hp, h.listed hopen p ((hmem p).mp hp)⟩
  | false =>
    refine ⟨⟨?_, fun q hq => ?_⟩, fun file hfile => ?_⟩
    · rw [paths_fast htotal]
      exact timed_look fun p hp => h.present p (Std.TreeMap.mem_keys.mp hp)
    · have hq' : q ∈ s.sweeper.fastTrackTimestamps := by
        rwa [show (s.surroundings call paths).total = false from htotal] at hq
      rw [paths_fast htotal, map_fst_look]
      exact Std.TreeMap.mem_keys.mpr hq'
    · rw [paths_fast htotal] at hfile
      obtain ⟨p, hp, rfl⟩ := List.mem_map.mp hfile
      have hp' := Std.TreeMap.mem_keys.mp hp
      exact ⟨h.present p hp', h.fast p hp'⟩

/-- A sweep of a silent station has no loud event. -/
theorem Silent.not_loud (h : s.Silent)
    (hpaths : (if call.total then s.listing else some []) = some paths)
    {event : SweepEvent} (hevent : event ∈ (s.sweeper.sweep (s.surroundings call paths)).1)
    (oldHash : UInt64) : ¬ LoudEvent s.node.files oldHash event := by
  obtain ⟨hfull, hsettled⟩ := h.full hpaths
  have hstored : ∀ p, (.created p ∈ (s.sweeper.sweep (s.surroundings call paths)).1 ∨
      .modified p ∈ (s.sweeper.sweep (s.surroundings call paths)).1) →
      Stored s.node.files p := by
    intro p hp
    have hscan : .created p ∈ (scan call.total s.sweeper
          (s.sweeper.paths (s.surroundings call paths))).1 ∨
        .modified p ∈ (scan call.total s.sweeper
          (s.sweeper.paths (s.surroundings call paths))).1 := by
      refine hp.imp (fun hmem => ?_) (fun hmem => ?_)
      · rcases mem_sweep hmem with hmem | hmem | ⟨hmem, -⟩
        · exact hmem
        · cases hmem
        · cases hmem
      · rcases mem_sweep hmem with hmem | hmem | ⟨hmem, -⟩
        · exact hmem
        · cases hmem
        · cases hmem
    exact scan_settled call.total s.sweeper hfull.timed (fun file hfile => (hsettled file hfile).2)
      p hscan
  cases event with
  | created p =>
    rintro ⟨f, hf, hdiffers⟩
    exact not_differs_of_stored (hstored p (Or.inl hevent)) hf oldHash hdiffers
  | modified p =>
    rintro ⟨f, hf, hdiffers⟩
    exact not_differs_of_stored (hstored p (Or.inr hevent)) hf oldHash hdiffers
  | deleted p => exact absurd hevent (hfull.not_deleted p)
  | fastTracked p | unFastTracked p => exact id

/-- After a sweep of a silent station, every entry is as it was or as recent as its file. -/
theorem Silent.swept {sw' : FilesystemSweeper} (h : s.Silent)
    (hpaths : (if call.total then s.listing else some []) = some paths)
    (hsweep : (s.sweeper.sweep (s.surroundings call paths)).2 = some sw') :
    Silent { s with sweeper := sw' } := by
  obtain ⟨hfull, hsettled⟩ := h.full hpaths
  obtain ⟨sw', hsweep', htotal, hfast⟩ := hfull.sweep
  obtain rfl := Option.some_inj.mp (hsweep'.symm.trans hsweep)
  have htimestamps : ∀ q : FilePath, sw'.timestamps[q]? = s.sweeper.timestamps[q]? ∨
      s.Open ∧ s.Listed q ∧ sw'.timestamps[q]? = some (s.mtime q, s.sweeper.iteration) := by
    intro q
    cases hkind : call.total with
    | false =>
      left
      rw [htotal, show (s.surroundings call paths).total = false from hkind,
        timestamps_scan_fast]
    | true =>
      rw [hkind] at hpaths
      obtain ⟨hopen, hmem⟩ := listing_eq_some hpaths
      have hkind' : (s.surroundings call paths).total = true := hkind
      by_cases hq : q ∈ (s.sweeper.paths (s.surroundings call paths)).map Prod.fst
      · have hentry := hfull.scan_map hq
        rw [hkind'] at hentry
        rw [paths_total hkind, map_fst_look] at hq
        rw [htotal, hkind']
        exact Or.inr ⟨hopen, (hmem q).mp hq, hentry⟩
      · have hentry := scan_map_of_not_scanned (s.surroundings call paths).total s.sweeper _
          (hfull.scanned ▸ hq)
        rw [hkind'] at hentry
        rw [htotal, hkind']
        exact Or.inl hentry
  have htracked : ∀ (q : FilePath) (pair : FileTime × UInt64),
      sw'.fastTrackTimestamps[q]? = some pair →
      q ∈ s.node.files.files ∧ s.mtime q = pair.1 ∨
        s.sweeper.fastTrackTimestamps[q]? = some pair := by
    intro q pair hpair
    refine (scan_fast _ s.sweeper hfull.timed (hfast q pair hpair)).imp_left fun hscan => ?_
    obtain ⟨file, hfile, rfl⟩ := List.mem_map.mp hscan.1
    exact ⟨(hsettled file hfile).1, hscan.2.symm⟩
  refine ⟨fun hopen p hp => ?_, fun hopen p hp => ?_, fun p hp => ?_, fun p hp => ?_⟩
  · show Settled s.mtime (Stored s.node.files) sw'.timestamps p
    rcases htimestamps p with hold | ⟨-, -, hnew⟩
    · unfold Settled
      rw [hold]
      exact h.listed hopen p hp
    · exact Or.inl ⟨_, hnew, le_rfl⟩
  · obtain ⟨pair, hpair⟩ := mem_iff_exists.mp hp
    rcases htimestamps p with hold | ⟨-, hlisted, -⟩
    · exact h.kept hopen p (mem_iff_exists.mpr ⟨pair, hold.symm.trans hpair⟩)
    · exact hlisted
  · obtain ⟨pair, hpair⟩ := mem_iff_exists.mp hp
    rcases htracked p pair hpair with ⟨hfile, -⟩ | hold
    · exact hfile
    · exact h.present p (mem_iff_exists.mpr ⟨pair, hold⟩)
  · obtain ⟨pair, hpair⟩ := mem_iff_exists.mp hp
    rcases htracked p pair hpair with ⟨-, htime⟩ | hold
    · exact Or.inl ⟨pair, hpair, htime.le⟩
    · rcases h.fast p (mem_iff_exists.mpr ⟨pair, hold⟩) with ⟨pair', hpair', hle⟩ | hstored
      · obtain rfl := Option.some_inj.mp (hpair'.symm.trans hold)
        exact Or.inl ⟨pair', hpair, hle⟩
      · exact Or.inr hstored

/-- **One sweep of a silent station** is silent, and leaves it so. -/
theorem sweep_silent (host : Host) (h : s.Silent) (call : SweepCall) :
    (∀ m ∈ (s.sweep host call).1, ¬ Loud m) ∧
      ∀ s' ∈ (s.sweep host call).2, s'.Silent := by
  unfold Station.sweep
  cases hpaths : if call.total then s.listing else some [] with
  | none => exact ⟨by simp, by simp⟩
  | some paths =>
    have hnone : ∀ event ∈ (s.sweeper.sweep (s.surroundings call paths)).1,
        ¬ LoudEvent s.node.files (call.readings event).oldHash event :=
      fun event hevent => h.not_loud hpaths hevent _
    obtain ⟨hquiet, hfiles⟩ := callbacks_quiet host s.mtime hnone
    refine ⟨hquiet, fun s' hs' => ?_⟩
    obtain ⟨files, hfs, hs'⟩ := Option.bind_eq_some_iff.mp hs'
    obtain rfl := hfiles files hfs
    obtain ⟨sw', hsweep, rfl⟩ := Option.map_eq_some_iff.mp hs'
    exact h.swept hpaths hsweep

theorem Silent.noEcho (h : s.Silent) : s.NoEcho host := by
  intro calls
  induction calls generalizing s with
  | nil => simp [sweeps]
  | cons call calls ih =>
    obtain ⟨hquiet, hsilent⟩ := sweep_silent host h call
    rw [sweeps]
    cases hsweep : s.sweep host call with
    | mk sent fin =>
      rw [hsweep] at hquiet hsilent
      cases fin with
      | none => exact hquiet
      | some s' =>
        intro m hm
        rcases List.mem_append.mp hm with hm | hm
        · exact hquiet m hm
        · exact ih (hsilent s' rfl) m hm

/-! ## Nothing but silence is quiet -/

/-- What the sweeper keeps track of has counters of earlier sweeps, and what is on the fast track
is where a file may be. -/
structure Tracking (s : Station) : Prop where
  stale : ∀ total (q : FilePath) (pair : FileTime × UInt64),
    (s.sweeper.map total)[q]? = some pair → pair.2 ≠ s.sweeper.iteration
  notDir : ∀ p ∈ s.sweeper.fastTrackTimestamps, p ∉ s.node.files.dirs
  folder : ∀ p ∈ s.sweeper.fastTrackTimestamps, p.dropLast ∈ s.node.files.dirs

theorem NoEcho.sweep (h : s.NoEcho host) (call : SweepCall) :
    ∀ m ∈ (s.sweep host call).1, ¬ Loud m := by
  intro m hm
  apply h [call] m
  rw [sweeps]
  cases hsweep : s.sweep host call with
  | mk sent fin =>
    rw [hsweep] at hm
    cases fin with
    | none => exact hm
    | some s' => exact List.mem_append_left _ hm

/-- Where nothing is broadcast, there is no loud event. -/
theorem NoEcho.not_loud (h : s.NoEcho host) (ht : s.Tracking) (total : Bool) (oldHash : UInt64)
    (hcall : call = ⟨total, 0, fun _ => ⟨0, 0, oldHash⟩⟩)
    (hpaths : (if call.total then s.listing else some []) = some paths)
    (hscanned : ∀ p ∈ scanned (s.sweeper.paths (s.surroundings call paths)),
      p ∈ s.node.files.files) :
    ∀ event ∈ (s.sweeper.sweep (s.surroundings call paths)).1,
      ¬ LoudEvent s.node.files oldHash event := by
  by_contra hloud
  push Not at hloud
  obtain ⟨event, hevent, hloud⟩ := hloud
  have hfile : ∀ event ∈ (s.sweeper.sweep (s.surroundings call paths)).1,
      LoudEvent s.node.files (call.readings event).oldHash event ∨
        event.path ∈ s.node.files.files := by
    intro event hevent
    rcases deleted_or_scanned (ht.stale _) hevent with hdeleted | hpath
    · rw [hdeleted]
      exact Or.inl trivial
    · exact Or.inr (hscanned _ hpath)
  obtain ⟨m, hm, hm'⟩ := callbacks_loud host s.mtime hfile
    ⟨event, hevent, by rw [hcall]; exact hloud⟩
  refine h.sweep call m ?_ hm'
  rw [Station.sweep, hpaths]
  exact hm

/-- A tracked file whose folder is there is found, or found missing. -/
theorem look_of_folder {p : FilePath} (h : p.dropLast ∈ s.node.files.dirs) :
    s.look p ≠ .failed := by
  unfold look
  split
  · simp
  · next hnone =>
    rw [if_neg]
    · simp
    · rintro ⟨f, hf, hprefix⟩
      have hfile := Std.ExtTreeMap.mem_keys.mp hf
      obtain ⟨rest, rfl⟩ := hprefix
      -- A file that is in the way would be a folder of `p`.
      cases rest using List.reverseRecOn with
      | nil => exact hnone (Or.inl (by rwa [List.append_nil]))
      | append_singleton rest name =>
        rw [← List.append_assoc, List.dropLast_concat] at h
        exact s.node.files.disjoint f hfile (s.node.files.mem_dirs_of_append h)

theorem scanEnd_ne_rethrown {files : List (FilePath × Stat)}
    (h : ∀ file ∈ files, file.2 ≠ .failed) : scanEnd files ≠ .rethrown := by
  unfold scanEnd
  cases hdrop : files.dropWhile fun file => file.2.isTime with
  | nil => simp
  | cons file rest =>
    obtain ⟨path, stat⟩ := file
    have hmem : (path, stat) ∈ files := List.dropWhile_subset _ (hdrop ▸ List.mem_cons_self)
    cases stat with
    | time t =>
      have hhead := List.head_dropWhile_not (fun file : FilePath × Stat => file.2.isTime)
        (l := files) (by rw [hdrop]; simp)
      simp only [hdrop, List.head_cons] at hhead
      exact Bool.noConfusion hhead
    | notFound => simp
    | failed => exact absurd rfl (h _ hmem)

/-- What is not settled has a file that is not stored. -/
theorem exists_loud {m : TimeMap} {p : FilePath} (hfile : p ∈ s.node.files.files)
    (h : ¬ Settled s.mtime (Stored s.node.files) m p) : ∃ oldHash,
      ¬ Settled s.mtime (fun q => ¬ LoudEvent s.node.files oldHash (.created q)) m p := by
  obtain ⟨hold, hstored⟩ := not_or.mp h
  obtain ⟨f, hf⟩ := Option.ne_none_iff_exists'.mp (FileSystem.file?_ne_none.mpr hfile)
  obtain ⟨oldHash, hdiffers⟩ := exists_differs hstored hf
  exact ⟨oldHash, not_or.mpr ⟨hold, not_not.mpr ⟨f, hf, hdiffers⟩⟩⟩

/-- Where nothing is broadcast, what a sweep looks at is settled. -/
theorem NoEcho.settled (h : s.NoEcho host) (ht : s.Tracking) (total : Bool)
    (hpaths : (if total then s.listing else some []) = some paths)
    (hfiles : ∀ call : SweepCall, call.total = total →
      ∀ file ∈ s.sweeper.paths (s.surroundings call paths), file.1 ∈ s.node.files.files ∧
        file.2 = .time (s.mtime file.1))
    {p : FilePath} (hp : ∀ call : SweepCall, call.total = total →
      p ∈ (s.sweeper.paths (s.surroundings call paths)).map Prod.fst) :
    Settled s.mtime (Stored s.node.files) (s.sweeper.map total) p := by
  by_contra hunsettled
  have hpfile : p ∈ s.node.files.files := by
    obtain ⟨file, hfile, rfl⟩ := List.mem_map.mp (hp ⟨total, 0, fun _ => ⟨0, 0, 0⟩⟩ rfl)
    exact (hfiles _ rfl file hfile).1
  obtain ⟨oldHash, hdue⟩ := exists_loud hpfile hunsettled
  let call : SweepCall := ⟨total, 0, fun _ => ⟨0, 0, oldHash⟩⟩
  obtain ⟨file, hfile, rfl⟩ := List.mem_map.mp (hp call rfl)
  obtain ⟨q, hq, hloud⟩ := scan_unsettled total s.sweeper
    (fun file hfile => (hfiles call rfl file hfile).2) ⟨file, hfile, hdue⟩
  have hnone := h.not_loud ht total oldHash (show call = _ from rfl) hpaths fun path hpath => by
    obtain ⟨t, hmem⟩ := time_of_scanned hpath
    exact (hfiles call rfl _ hmem).1
  rw [not_not] at hloud
  rcases hq with hq | hq
  · exact hnone _ (mem_sweep_of_scan hq) hloud
  · exact hnone _ (mem_sweep_of_scan hq) hloud

/-- Where nothing is broadcast, what a sweep keeps track of is scanned. -/
theorem NoEcho.mem_scanned (h : s.NoEcho host) (ht : s.Tracking) (total : Bool)
    (hcall : call = ⟨total, 0, fun _ => ⟨0, 0, 0⟩⟩)
    (hpaths : (if call.total then s.listing else some []) = some paths)
    (hscanned : ∀ p ∈ scanned (s.sweeper.paths (s.surroundings call paths)),
      p ∈ s.node.files.files)
    (hend : scanEnd (s.sweeper.paths (s.surroundings call paths)) ≠ .rethrown)
    {p : FilePath} (hp : p ∈ s.sweeper.map call.total) :
    p ∈ scanned (s.sweeper.paths (s.surroundings call paths)) := by
  by_contra hnot
  obtain ⟨pair, hpair⟩ := mem_iff_exists.mp hp
  refine h.not_loud ht total 0 hcall hpaths hscanned (.deleted p) ?_ trivial
  exact (mem_deleted_iff _ _ _).mpr ⟨hend, hnot, pair, hpair, ht.stale _ _ _ hpair⟩

theorem NoEcho.silent (h : s.NoEcho host) (ht : s.Tracking) : s.Silent := by
  -- The fast track first: what is on it is there, and so a sweep of it looks at all of it.
  let fast : SweepCall := ⟨false, 0, fun _ => ⟨0, 0, 0⟩⟩
  have hlooked : ∀ (call : SweepCall), call.total = false →
      ∀ file ∈ s.sweeper.paths (s.surroundings call []),
        file.1 ∈ s.sweeper.fastTrackTimestamps ∧ file.2 = s.look file.1 := by
    intro call htotal file hfile
    rw [paths_fast htotal] at hfile
    obtain ⟨p, hp, rfl⟩ := List.mem_map.mp hfile
    exact ⟨Std.TreeMap.mem_keys.mp hp, rfl⟩
  have hfound : ∀ p ∈ scanned (s.sweeper.paths (s.surroundings fast [])),
      p ∈ s.node.files.files := by
    intro p hp
    obtain ⟨t, hmem⟩ := time_of_scanned hp
    obtain ⟨htracked, hlook⟩ := hlooked fast rfl _ hmem
    dsimp only [look] at hlook
    split at hlook
    · next hthere => exact hthere.resolve_right (ht.notDir p htracked)
    · split at hlook
      · cases hlook
      · cases hlook
  have hpresent : ∀ p ∈ s.sweeper.fastTrackTimestamps, p ∈ s.node.files.files := by
    intro p hp
    refine hfound p (h.mem_scanned ht false (show fast = _ from rfl) rfl hfound
      (scanEnd_ne_rethrown ?_) hp)
    intro file hfile
    obtain ⟨htracked, hlook⟩ := hlooked fast rfl file hfile
    exact hlook ▸ look_of_folder (ht.folder _ htracked)
  refine ⟨fun hopen p hp => ?_, fun hopen p hp => ?_, hpresent, fun p hp => ?_⟩
  · obtain ⟨paths, hlisting, hmem⟩ := listing_ok hopen
    refine h.settled ht true hlisting (fun call htotal file hfile => ?_)
      (fun call htotal => ?_)
    · rw [paths_total htotal] at hfile
      obtain ⟨q, hq, rfl⟩ := List.mem_map.mp hfile
      have hqfile := ((hmem q).mp hq).1
      exact ⟨hqfile, look_file hqfile⟩
    · rw [paths_total htotal, map_fst_look]
      exact (hmem p).mpr hp
  · obtain ⟨paths, hlisting, hmem⟩ := listing_ok hopen
    let total : SweepCall := ⟨true, 0, fun _ => ⟨0, 0, 0⟩⟩
    have hpaths : s.sweeper.paths (s.surroundings total paths) = paths.map fun p => (p, s.look p) :=
      paths_total rfl
    have htimed : Timed s.mtime (s.sweeper.paths (s.surroundings total paths)) := by
      rw [hpaths]
      exact timed_look fun q hq => ((hmem q).mp hq).1
    have hend := scanEnd_of_timed htimed
    have hall : scanned (s.sweeper.paths (s.surroundings total paths)) = paths := by
      rw [scanned_of_finished hend, hpaths, map_fst_look]
    have hscanned := h.mem_scanned ht true (show total = _ from rfl) hlisting (p := p)
      (fun q hq => ((hmem q).mp (hall ▸ hq)).1) (by rw [hend]; simp) hp
    exact (hmem p).mp (hall ▸ hscanned)
  · refine h.settled ht false (show _ = some [] from rfl) (fun call htotal file hfile => ?_)
      (fun call htotal => ?_)
    · obtain ⟨htracked, hlook⟩ := hlooked call htotal file hfile
      have hfile' := hpresent _ htracked
      exact ⟨hfile', hlook.trans (look_file hfile')⟩
    · rw [paths_fast htotal, map_fst_look]
      exact Std.TreeMap.mem_keys.mpr hp

/-- **No echo.** No sequence of sweeps broadcasts a change or a deletion exactly when the station
is silent. -/
theorem noEcho_iff (ht : s.Tracking) : s.NoEcho host ↔ s.Silent :=
  ⟨fun h => h.silent ht, fun h => h.noEcho⟩

end Silence

end Station

end WhisperNet
