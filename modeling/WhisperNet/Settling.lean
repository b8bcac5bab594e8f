import WhisperNet.SweepScans

/-!
# The sweeper over folders in which nothing changes

The main loop sweeps with `totalSweepEveryN(10)`. Whatever has happened before, the sweeper's maps
agree with the folders once these have stayed the same for eleven iterations: by then there has been
a total sweep, and a sweep of the fast track after it. From then on it only reports the files that
leave the fast track.

* `scan_quiet` — a scan where no file is newer than its entry.
* `UpToDate.sweep` — a sweep when the sweeper tracks just the files there are.
* `Calm.iterate` — any number of iterations when the times on the fast track are right as well.
* `settles` — any number of iterations after the first eleven, from any reachable state.
-/

namespace WhisperNet

/-! ## The main loop's sweeps -/

/-- What there is while nothing changes: the files listed, and paths that exist but are not. -/
structure Folder where
  files : List FilePath
  nodup : files.Nodup
  mtime : FilePath → FileTime
  unlisted : FilePath → Bool := fun _ => false

namespace Folder

/-- `last_write_time` -/
def stat (f : Folder) (p : FilePath) : Stat :=
  if p ∈ f.files ∨ f.unlisted p then .time (f.mtime p) else .notFound

/-- What a sweep finds. -/
def look (f : Folder) (now : FileTime) (total : Bool) : Surroundings where
  total
  listing := f.files.map fun p => (p, .time (f.mtime p))
  stat := f.stat
  now

end Folder

/-- More than ten seconds ago. -/
def Old (now t : FileTime) : Prop := (now - t).tdiv 1000000 > 10000

instance (now t : FileTime) : Decidable (Old now t) := inferInstanceAs (Decidable (_ > _))

namespace FilesystemSweeper

/-- `totalSweepEveryN`. What the sweep finds depends on its kind. -/
def totalSweepEveryN (sw : FilesystemSweeper) (n : UInt64) (look : Bool → Surroundings) :
    List SweepEvent × Option FilesystemSweeper :=
  sw.sweep (look (sw.iteration % n == 0))

/-- The sweeps of successive iterations of the main loop, with the time of each. -/
def iterate (f : Folder) : List FileTime → FilesystemSweeper →
    Option (List SweepEvent × FilesystemSweeper)
  | [], sw => some ([], sw)
  | now :: later, sw => do
    let (events, swept) := sw.totalSweepEveryN 10 (f.look now)
    let sw' ← swept
    let (more, sw'') ← iterate f later sw'
    return (events ++ more, sw'')

/-- The files tracked are those listed, with their times. -/
structure UpToDate (f : Folder) (sw : FilesystemSweeper) : Prop where
  times : ∀ q : FilePath, sw.timestamps[q]?.map Prod.fst =
    if q ∈ f.files then some (f.mtime q) else none
  fast : sw.FastTracked

/-- The fast track has their times as well. -/
structure Calm (f : Folder) (sw : FilesystemSweeper) : Prop extends UpToDate f sw where
  fastTimes : ∀ (q : FilePath) (pair : FileTime × UInt64),
    sw.fastTrackTimestamps[q]? = some pair → pair.1 = f.mtime q

/-! ## What a sweep finds -/

section Looks

variable {f : Folder} {sw : FilesystemSweeper} {now : FileTime} {total : Bool} {q : FilePath}

theorem listedOnce_look : ListedOnce (f.look now total) := by
  rw [ListedOnce, Folder.look, List.map_map]
  exact (List.map_id f.files).symm ▸ f.nodup

theorem stat_of_mem (h : q ∈ f.files) : f.stat q = .time (f.mtime q) := if_pos (Or.inl h)

/-- An exception that leaves a sweep is that of some path. -/
theorem failed_of_rethrown {files : List (FilePath × Stat)} (h : scanEnd files = .rethrown) :
    ∃ file ∈ files, file.2 = .failed := by
  induction files with
  | nil => cases h
  | cons file rest ih =>
    obtain ⟨path, stat⟩ := file
    cases stat with
    | time t =>
      obtain ⟨file, hfile, hfailed⟩ := ih h
      exact ⟨file, List.mem_cons_of_mem _ hfile, hfailed⟩
    | notFound => cases h
    | failed => exact ⟨_, List.mem_cons_self, rfl⟩

theorem scanEnd_look (sw : FilesystemSweeper) (f : Folder) (now : FileTime) (total : Bool) :
    scanEnd (sw.paths (f.look now total)) ≠ .rethrown := by
  intro h
  obtain ⟨file, hfile, hfailed⟩ := failed_of_rethrown h
  cases total with
  | true =>
    obtain ⟨p, -, rfl⟩ := List.mem_map.mp hfile
    cases hfailed
  | false =>
    obtain ⟨p, -, rfl⟩ := List.mem_map.mp hfile
    have hstat : f.stat p = .failed := hfailed
    unfold Folder.stat at hstat
    split at hstat <;> cases hstat

/-- No exception leaves a sweep while nothing changes. -/
theorem sweep_look (sw : FilesystemSweeper) (f : Folder) (now : FileTime) (total : Bool) :
    ∃ events sw', sw.sweep (f.look now total) = (events, some sw') := by
  rw [sweep_eq]
  split
  · next h => exact absurd h (scanEnd_look sw f now total)
  · exact ⟨_, _, rfl⟩
  · exact ⟨_, _, rfl⟩

end Looks

/-! ## Scans that find nothing new -/

section Quiet

variable {mtime : FilePath → FileTime} (total : Bool) {files : List (FilePath × Stat)}

/-- Every file has an entry that is as recent. -/
def Seen (mtime : FilePath → FileTime) (m : TimeMap) (files : List (FilePath × Stat)) : Prop :=
  ∀ file ∈ files, ∃ pair, m[file.1]? = some pair ∧ mtime file.1 ≤ pair.1

theorem visit_seen {sw : FilesystemSweeper} {p : FilePath} {t : FileTime}
    {pair : FileTime × UInt64} (hpair : (sw.map total)[p]? = some pair) (hle : t ≤ pair.1) :
    sw.visit total p t = ([], sw.mark total p (t, sw.iteration)) := by
  obtain ⟨old, count⟩ := pair
  simp only [visit, hpair]
  rw [if_neg (not_lt.mpr hle)]

/-- A scan where no file is newer than its entry reports nothing, and leaves the map that the sweep
does not go by alone. -/
theorem scan_quiet (sw : FilesystemSweeper) (htimed : Timed mtime files)
    (h : Seen mtime (sw.map total) files) :
    (scan total sw files).1 = [] ∧ (total = true →
      (scan total sw files).2.1.fastTrackTimestamps = sw.fastTrackTimestamps) := by
  induction files generalizing sw with
  | nil => exact ⟨rfl, fun _ => rfl⟩
  | cons file rest ih =>
    obtain ⟨path, stat⟩ := file
    obtain ⟨hstat, htimed'⟩ := List.forall_mem_cons.mp htimed
    obtain rfl : stat = .time (mtime path) := hstat
    obtain ⟨⟨pair, hpair, hle⟩, hrest⟩ := List.forall_mem_cons.mp h
    have hvisit := visit_seen total hpair hle
    have hseen : Seen mtime ((sw.visit total path (mtime path)).2.map total) rest := by
      intro file hfile
      rw [map_visit]
      split
      · next heq => exact ⟨_, rfl, heq ▸ le_rfl⟩
      · exact hrest file hfile
    obtain ⟨hevents, hfast⟩ := ih _ htimed' hseen
    constructor
    · show (sw.visit total path (mtime path)).1 ++
        (scan total (sw.visit total path (mtime path)).2 rest).1 = []
      rw [hevents, List.append_nil, hvisit]
    · rintro rfl
      refine (hfast rfl).trans ?_
      rw [hvisit]
      rfl

end Quiet

/-! ## One sweep -/

section Sweep

variable {f : Folder} {sw sw' : FilesystemSweeper} {now : FileTime} {total : Bool}
  {events : List SweepEvent} {q : FilePath}

theorem mem_iff_of_times (htimes : sw.timestamps[q]?.map Prod.fst =
    if q ∈ f.files then some (f.mtime q) else none) : q ∈ sw.timestamps ↔ q ∈ f.files := by
  rw [mem_iff_exists]
  by_cases hq : q ∈ f.files
  · rw [if_pos hq] at htimes
    obtain ⟨pair, hpair, -⟩ := Option.map_eq_some_iff.mp htimes
    exact iff_of_true ⟨pair, hpair⟩ hq
  · rw [if_neg hq] at htimes
    rw [Option.map_eq_none_iff] at htimes
    exact iff_of_false (fun ⟨pair, hpair⟩ => by simp [htimes] at hpair) hq

theorem UpToDate.mem_iff (h : UpToDate f sw) : q ∈ sw.timestamps ↔ q ∈ f.files :=
  mem_iff_of_times (h.times q)

theorem UpToDate.time_eq (h : UpToDate f sw) {pair : FileTime × UInt64}
    (hq : sw.timestamps[q]? = some pair) : pair.1 = f.mtime q := by
  have htimes := h.times q
  rw [if_pos (h.mem_iff.mp (mem_iff_exists.mpr ⟨pair, hq⟩)), hq] at htimes
  exact Option.some_inj.mp htimes

/-- The sweep finds all it keeps track of. -/
theorem UpToDate.full (h : UpToDate f sw) (now : FileTime) (total : Bool) :
    Full f.mtime sw (f.look now total) := by
  cases total with
  | true =>
    refine ⟨fun file hfile => ?_, fun q hq => ?_⟩
    · obtain ⟨p, -, rfl⟩ := List.mem_map.mp hfile
      rfl
    · show q ∈ (f.files.map _).map Prod.fst
      rw [List.map_map]
      exact List.mem_map.mpr ⟨q, h.mem_iff.mp hq, rfl⟩
  | false =>
    refine ⟨fun file hfile => ?_, fun q hq => ?_⟩
    · obtain ⟨p, hp, rfl⟩ := List.mem_map.mp hfile
      exact stat_of_mem (h.mem_iff.mp (h.fast p (Std.TreeMap.mem_keys.mp hp)))
    · show q ∈ (sw.fastTrackTimestamps.keys.map _).map Prod.fst
      rw [List.map_map]
      exact List.mem_map.mpr ⟨q, Std.TreeMap.mem_keys.mpr hq, rfl⟩

theorem UpToDate.mem_files (h : UpToDate f sw)
    (hq : q ∈ (sw.paths (f.look now total)).map Prod.fst) : q ∈ f.files := by
  obtain ⟨file, hfile, rfl⟩ := List.mem_map.mp hq
  cases total with
  | true =>
    obtain ⟨p, hp, rfl⟩ := List.mem_map.mp hfile
    exact hp
  | false =>
    obtain ⟨p, hp, rfl⟩ := List.mem_map.mp hfile
    exact h.mem_iff.mp (h.fast p (Std.TreeMap.mem_keys.mp hp))

/-- What the scan leaves for the report. -/
theorem UpToDate.sweep_eq (h : UpToDate f sw) (now : FileTime) (total : Bool) :
    sw.sweep (f.look now total) =
      ((scan total sw (sw.paths (f.look now total))).1 ++
        ((scan total sw (sw.paths (f.look now total))).2.1.finish total now []).1,
        some ((scan total sw (sw.paths (f.look now total))).2.1.finish total now []).2) := by
  rw [FilesystemSweeper.sweep_eq, scanEnd_of_timed (h.full now total).timed]
  rfl

/-- The sweeper stays up to date. -/
theorem UpToDate.next (h : UpToDate f sw)
    (hsweep : sw.sweep (f.look now total) = (events, some sw')) : UpToDate f sw' := by
  have hfull := h.full now total
  obtain ⟨sw'', hsw'', htimestamps, hfast⟩ := hfull.sweep
  obtain rfl : sw'' = sw' := Option.some_inj.mp (hsw''.symm.trans (congrArg Prod.snd hsweep))
  have htimes : ∀ q : FilePath, sw''.timestamps[q]?.map Prod.fst =
      if q ∈ f.files then some (f.mtime q) else none := by
    intro q
    rw [htimestamps]
    cases total with
    | false =>
      rw [show (f.look now false).total = false from rfl, timestamps_scan_fast]
      exact h.times q
    | true =>
      by_cases hq : q ∈ f.files
      · rw [if_pos hq]
        exact congrArg _ (hfull.scan_map (hfull.covers q (h.mem_iff.mpr hq)))
      · have hpath : q ∉ scanned (sw.paths (f.look now true)) :=
          hfull.scanned ▸ mt h.mem_files hq
        rw [← h.times q]
        exact congrArg _ (scan_map_of_not_scanned true sw _ hpath)
  refine ⟨htimes, fun q hq => (mem_iff_of_times (htimes q)).mpr ?_⟩
  obtain ⟨pair, hpair⟩ := mem_iff_exists.mp hq
  rcases scan_fast total sw hfull.timed (hfast q pair hpair) with ⟨hpath, -⟩ | hold
  · exact h.mem_files hpath
  · exact h.mem_iff.mp (h.fast q (mem_iff_exists.mpr ⟨pair, hold⟩))

/-- No entry of the map the sweep goes by is older than the file. -/
theorem UpToDate.seen (h : UpToDate f sw) (now : FileTime) (hcalm : total = true ∨ Calm f sw) :
    Seen f.mtime (sw.map total) (sw.paths (f.look now total)) := by
  intro file hfile
  cases total with
  | true =>
    have hmem := h.mem_iff.mpr (h.mem_files (List.mem_map_of_mem hfile))
    obtain ⟨pair, hpair⟩ := mem_iff_exists.mp hmem
    exact ⟨pair, hpair, (h.time_eq hpair).ge⟩
  | false =>
    obtain ⟨p, hp, rfl⟩ := List.mem_map.mp hfile
    obtain ⟨pair, hpair⟩ := mem_iff_exists.mp (Std.TreeMap.mem_keys.mp hp)
    exact ⟨pair, hpair, ((hcalm.resolve_left Bool.false_ne_true).fastTimes _ pair hpair).ge⟩

/-- It reports no more than what leaves the fast track. -/
theorem UpToDate.unFastTracked (h : UpToDate f sw) (hcalm : total = true ∨ Calm f sw)
    (hsweep : sw.sweep (f.look now total) = (events, some sw')) :
    ∀ event ∈ events, ∃ p, event = .unFastTracked p := by
  intro event hevent
  have hfull := h.full now total
  obtain ⟨hquiet, -⟩ := scan_quiet total sw hfull.timed (h.seen now hcalm)
  have hmem : event ∈ (sw.sweep (f.look now total)).1 := hsweep ▸ hevent
  rcases mem_sweep hmem with hscan | hdeleted | ⟨hold, -⟩
  · rw [show (f.look now total).total = total from rfl, hquiet] at hscan
    cases hscan
  · exact absurd (hdeleted ▸ hmem) (hfull.not_deleted _)
  · exact ⟨_, hold⟩

/-- After a sweep of the fast track the times on it are right, and they stay so. -/
theorem UpToDate.calm (h : UpToDate f sw) (hcalm : total = false ∨ Calm f sw)
    (hsweep : sw.sweep (f.look now total) = (events, some sw')) : Calm f sw' := by
  refine ⟨h.next hsweep, fun q pair hpair => ?_⟩
  have hfull := h.full now total
  obtain ⟨sw'', hsw'', -, hfast⟩ := hfull.sweep
  obtain rfl : sw'' = sw' := Option.some_inj.mp (hsw''.symm.trans (congrArg Prod.snd hsweep))
  have hscan := hfast q pair hpair
  cases total with
  | false =>
    by_cases hpath : q ∈ (sw.paths (f.look now false)).map Prod.fst
    · exact congrArg Prod.fst (Option.some_inj.mp ((hfull.scan_map hpath).symm.trans hscan)).symm
    · have hold := scan_map_of_not_scanned false sw _ (hfull.scanned ▸ hpath)
      exact absurd (hfull.covers q (mem_iff_exists.mpr ⟨pair, hold.symm.trans hscan⟩)) hpath
  | true =>
    have hcalm' := hcalm.resolve_left (Ne.symm Bool.false_ne_true)
    obtain ⟨-, hkept⟩ := scan_quiet true sw hfull.timed (h.seen now (Or.inl rfl))
    exact hcalm'.fastTimes q pair (hkept rfl ▸ hscan)

/-- What the scan leaves on the fast track is what was there. -/
theorem Calm.mem_scan (h : Calm f sw) (now : FileTime) (total : Bool) :
    q ∈ (scan total sw (sw.paths (f.look now total))).2.1.fastTrackTimestamps ↔
      q ∈ sw.fastTrackTimestamps := by
  have hfull := h.full now total
  cases total with
  | true =>
    rw [(scan_quiet true sw hfull.timed (h.seen now (Or.inl rfl))).2 rfl]
  | false =>
    by_cases hpath : q ∈ (sw.paths (f.look now false)).map Prod.fst
    · refine iff_of_true (mem_iff_exists.mpr ⟨_, hfull.scan_map hpath⟩) ?_
      obtain ⟨file, hfile, rfl⟩ := List.mem_map.mp hpath
      obtain ⟨p, hp, rfl⟩ := List.mem_map.mp hfile
      exact Std.TreeMap.mem_keys.mp hp
    · have hold := scan_map_of_not_scanned false sw _ (hfull.scanned ▸ hpath)
      rw [mem_iff_exists, mem_iff_exists]
      exact exists_congr fun pair => Iff.of_eq (congrArg (· = some pair) hold)

theorem verdict_eq_old (iteration : UInt64) {t : FileTime} :
    verdict iteration now (t, iteration) = .old ↔ Old now t := by
  rw [verdict, if_neg (not_not_intro rfl), Old]
  split
  · next h => exact iff_of_true rfl h
  · next h => exact iff_of_false (by intro h'; cases h') h

/-- Exactly the files that are not old stay on the fast track. -/
theorem Calm.stays_iff (h : Calm f sw)
    (hsweep : sw.sweep (f.look now total) = (events, some sw')) :
    q ∈ sw'.fastTrackTimestamps ↔ q ∈ sw.fastTrackTimestamps ∧ ¬ Old now (f.mtime q) := by
  have hfull := h.full now total
  have hdeleted := hfull.not_deleted q
  rw [h.sweep_eq now total] at hsweep hdeleted
  obtain ⟨-, hsw'⟩ := Prod.mk.inj hsweep
  obtain rfl := Option.some_inj.mp hsw'
  have hnot : q ∉ judged .deleted
      ((scan total sw (sw.paths (f.look now total))).2.1.map total)
      (scan total sw (sw.paths (f.look now total))).2.1.iteration now := by
    intro hjudged
    obtain ⟨pair, hpair, hverdict⟩ := mem_judged.mp hjudged
    exact hdeleted (List.mem_append_right _
      (deleted_mem_finish.mpr ⟨pair, hpair, (verdict_eq_deleted now).mp hverdict⟩))
  simp only [finish, mem_eraseAll, List.nil_append, h.mem_scan, hnot, not_false_eq_true, and_true]
  refine and_congr_right fun hq => not_congr ?_
  have hpath : q ∈ (sw.paths (f.look now total)).map Prod.fst := hfull.covers q (by
    cases total with
    | true => exact h.fast q hq
    | false => exact hq)
  have hentry : ((scan total sw (sw.paths (f.look now total))).2.1.map total)[q]? =
      some (f.mtime q, sw.iteration) := hfull.scan_map hpath
  rw [mem_judged, hentry, iteration_scan, ← verdict_eq_old sw.iteration]
  constructor
  · rintro ⟨_, hpair, hold⟩
    exact Option.some_inj.mp hpair ▸ hold
  · exact fun hold => ⟨_, rfl, hold⟩

end Sweep

/-! ## Iterations -/

/-- In a trace that only takes files off the fast track, each one leaves once. -/
theorem leaving_once {s t : Tracked} {es : List SweepEvent} (trace : Trace Tracked.Step s es t)
    (h : ∀ event ∈ es, ∃ p, event = .unFastTracked p) :
    t.fast ⊆ s.fast ∧ es.Nodup ∧ ∀ p, .unFastTracked p ∈ es ↔ p ∈ s.fast ∧ p ∉ t.fast := by
  induction trace with
  | nil s =>
    exact ⟨subset_rfl, List.nodup_nil,
      fun p => iff_of_false List.not_mem_nil fun ⟨hs, ht⟩ => ht hs⟩
  | @cons s u t event rest first _ ih =>
    obtain ⟨⟨p, rfl⟩, hrest⟩ := List.forall_mem_cons.mp h
    obtain ⟨hsub, honce, hleft⟩ := ih hrest
    cases first with
    | unFastTracked hp =>
      have hgone : .unFastTracked p ∉ rest := fun hmem => ((hleft p).mp hmem).1.2 rfl
      refine ⟨fun q hq => (hsub hq).1, List.nodup_cons.mpr ⟨hgone, honce⟩, fun q => ?_⟩
      rw [List.mem_cons, hleft]
      by_cases hq : q = p
      · subst hq
        exact iff_of_true (Or.inl rfl) ⟨hp, fun hfast => (hsub hfast).2 rfl⟩
      · simp [hq]

/-- The sweeper over `later` iterations in which it has nothing left to find. -/
structure AtRest (f : Folder) (later : List FileTime) (sw : FilesystemSweeper)
    (log : List SweepEvent) (sw' : FilesystemSweeper) : Prop where
  calm : Calm f sw'
  /-- Nothing is reported but what leaves the fast track, -/
  reported : ∀ event ∈ log, ∃ p, event = .unFastTracked p
  /-- which is reported once -/
  once : log.Nodup
  left_iff : ∀ p, .unFastTracked p ∈ log ↔
    p ∈ sw.fastTrackTimestamps ∧ p ∉ sw'.fastTrackTimestamps
  /-- and happens as soon as the file is old. -/
  stays_iff : ∀ p, p ∈ sw'.fastTrackTimestamps ↔
    p ∈ sw.fastTrackTimestamps ∧ ∀ now ∈ later, ¬ Old now (f.mtime p)

section Iterations

variable {f : Folder} {n : Nat} {j : Journal} {now : FileTime} {later : List FileTime}

/-- One more iteration, of a kind that goes by the number of the sweep. -/
theorem iteration_reaches (hn : n < 2 ^ 64) (run : Run JournalStep n {} j) (f : Folder)
    (now : FileTime) : ∃ events j', j.sweeper.totalSweepEveryN 10 (f.look now) =
        (events, some j'.sweeper) ∧ Run JournalStep (n + 1) {} j' ∧
      j.sweeper.sweep (f.look now (n % 10 == 0)) = (events, some j'.sweeper) ∧
      Trace Tracked.Step j.sweeper.keySets events j'.sweeper.keySets := by
  obtain ⟨-, hsub, hrun⟩ := run_trace hn.le run
  have hkind : (j.sweeper.iteration % 10 == 0) = (n % 10 == 0) := by
    rw [(run_counters hrun).1, Bool.eq_iff_iff, beq_iff_eq, beq_iff_eq, ← UInt64.toNat_inj,
      UInt64.toNat_mod, UInt64.toNat_ofNat_of_lt' hn]
    rfl
  obtain ⟨events, sw', hsweep⟩ := sweep_look j.sweeper f now (n % 10 == 0)
  refine ⟨events, ⟨sw', j.log ++ events⟩, ?_, .snoc run ⟨_, events, listedOnce_look, hsweep, rfl⟩,
    hsweep, ?_⟩
  · rw [totalSweepEveryN, hkind]
    exact hsweep
  · exact (sweep_trace hsub listedOnce_look
      (fun q pair hq => stale_of_run hn hrun _ hq) hsweep).1

theorem iterate_cons {events more : List SweepEvent} {sw sw' sw'' : FilesystemSweeper}
    (hsweep : sw.totalSweepEveryN 10 (f.look now) = (events, some sw'))
    (hmore : iterate f later sw' = some (more, sw'')) :
    iterate f (now :: later) sw = some (events ++ more, sw'') := by
  simp [iterate, hsweep, hmore]

theorem iterate_append {first : List FileTime} {log more : List SweepEvent}
    {sw sw' sw'' : FilesystemSweeper} (hfirst : iterate f first sw = some (log, sw'))
    (hmore : iterate f later sw' = some (more, sw'')) :
    iterate f (first ++ later) sw = some (log ++ more, sw'') := by
  induction first generalizing sw log with
  | nil =>
    obtain ⟨rfl, rfl⟩ := Prod.mk.inj (Option.some_inj.mp hfirst)
    exact hmore
  | cons now first ih =>
    obtain ⟨sw₁, hswept, hrest⟩ := Option.bind_eq_some_iff.mp hfirst
    obtain ⟨⟨log₁, sw₂⟩, hlog, hpair⟩ := Option.bind_eq_some_iff.mp hrest
    obtain ⟨rfl, rfl⟩ := Prod.mk.inj (Option.some_inj.mp hpair)
    rw [List.cons_append, List.append_assoc]
    exact iterate_cons (Prod.ext rfl hswept) (ih hlog)

/-- Iterations go on, whatever the state. -/
theorem iterate_reaches (run : Run JournalStep n {} j) (hn : n + later.length ≤ 2 ^ 64) :
    ∃ log j', iterate f later j.sweeper = some (log, j'.sweeper) ∧
      Run JournalStep (n + later.length) {} j' := by
  induction later generalizing n j with
  | nil => exact ⟨[], j, rfl, run⟩
  | cons now later ih =>
    rw [List.length_cons] at hn
    obtain ⟨events, j₁, hsweep, run₁, -, -⟩ := iteration_reaches (by omega) run f now
    obtain ⟨log, j', hlog, run'⟩ := ih run₁ (by omega)
    refine ⟨events ++ log, j', iterate_cons hsweep hlog, ?_⟩
    rw [List.length_cons, Nat.add_comm later.length, ← Nat.add_assoc]
    exact run'

/-- Where the times on the fast track are right, nothing is left to find. -/
theorem Calm.iterate (h : Calm f j.sweeper) (later : List FileTime) (run : Run JournalStep n {} j)
    (hn : n + later.length ≤ 2 ^ 64) :
    ∃ log j', FilesystemSweeper.iterate f later j.sweeper = some (log, j'.sweeper) ∧
      Run JournalStep (n + later.length) {} j' ∧ AtRest f later j.sweeper log j'.sweeper := by
  have hgoes : ∃ log j', FilesystemSweeper.iterate f later j.sweeper = some (log, j'.sweeper) ∧
      Run JournalStep (n + later.length) {} j' ∧ Calm f j'.sweeper ∧
      Trace Tracked.Step j.sweeper.keySets log j'.sweeper.keySets ∧
      (∀ event ∈ log, ∃ p, event = .unFastTracked p) ∧
      ∀ p, p ∈ j'.sweeper.fastTrackTimestamps ↔
        p ∈ j.sweeper.fastTrackTimestamps ∧ ∀ now ∈ later, ¬ Old now (f.mtime p) := by
    induction later generalizing n j with
    | nil => exact ⟨[], j, rfl, run, h, .nil _, fun event hevent => (by cases hevent), by simp⟩
    | cons now later ih =>
      rw [List.length_cons] at hn
      obtain ⟨events, j₁, hsweep, run₁, hfound, htrace⟩ := iteration_reaches (by omega) run f now
      have hcalm := h.calm (Or.inr h) hfound
      obtain ⟨log, j', hlog, run', hcalm', htrace', hreported, hstays⟩ :=
        ih hcalm run₁ (by omega)
      refine ⟨events ++ log, j', iterate_cons hsweep hlog, ?_, hcalm', htrace.append htrace',
        List.forall_mem_append.mpr ⟨h.unFastTracked (Or.inr h) hfound, hreported⟩, fun p => ?_⟩
      · rw [List.length_cons, Nat.add_comm later.length, ← Nat.add_assoc]
        exact run'
      · rw [hstays, h.stays_iff hfound, List.forall_mem_cons, and_assoc]
  obtain ⟨log, j', hlog, run', hcalm, htrace, hreported, hstays⟩ := hgoes
  obtain ⟨-, honce, hleft⟩ := leaving_once htrace hreported
  exact ⟨log, j', hlog, run', hcalm, hreported, honce, hleft, hstays⟩

/-- The first total sweep finds all the files there are. -/
theorem upToDate_of_total {events : List SweepEvent} {sw' : FilesystemSweeper} (hn : n < 2 ^ 64)
    (run : Run JournalStep n {} j)
    (hsweep : j.sweeper.sweep (f.look now true) = (events, some sw')) : UpToDate f sw' := by
  obtain ⟨-, hsub, hrun⟩ := run_trace hn.le run
  have hstale : ∀ (q : FilePath) (pair : FileTime × UInt64), j.sweeper.timestamps[q]? = some pair →
      pair.2 ≠ j.sweeper.iteration := fun q pair hq => stale_of_run hn hrun true hq
  have hlooked : ∀ file ∈ (f.look now true).listing, file.2.isTime := by
    intro file hfile
    obtain ⟨p, -, rfl⟩ := List.mem_map.mp hfile
    rfl
  refine ⟨fun q => ?_, (sweep_trace (s := f.look now true) hsub listedOnce_look hstale hsweep).2⟩
  have htimes := timestamps_total (s := f.look now true) rfl listedOnce_look hlooked hstale hsweep q
  by_cases hq : q ∈ f.files
  · rw [if_pos hq, (htimes _).mpr ⟨_, List.mem_map.mpr ⟨q, hq, rfl⟩, rfl⟩]
    rfl
  · rw [if_neg hq, Option.map_eq_none_iff, Option.eq_none_iff_forall_ne_some]
    intro pair hpair
    obtain ⟨t, hmem, -⟩ := (htimes pair).mp hpair
    obtain ⟨p, hp, hpt⟩ := List.mem_map.mp hmem
    exact hq ((Prod.mk.inj hpt).1 ▸ hp)

/-- **The sweeper settles.** Whatever has happened before, in folders in which nothing changes the
sweeper is at rest after eleven iterations. -/
theorem settles (run : Run JournalStep n {} j) (f : Folder) {first : List FileTime}
    (hfirst : first.length = 11) (hn : n + 11 + later.length ≤ 2 ^ 64) :
    ∃ log sw log' sw', iterate f first j.sweeper = some (log, sw) ∧
      iterate f later sw = some (log', sw') ∧ AtRest f later sw log' sw' := by
  -- The total sweep is the iteration after `k`, and the next one is of the fast track.
  obtain ⟨k, hk, htotal⟩ : ∃ k ≤ 9, (n + k) % 10 = 0 := ⟨(10 - n % 10) % 10, by omega, by omega⟩
  obtain ⟨before, now, now', rest, rfl, rfl⟩ :
      ∃ before now now' rest, first = before ++ now :: now' :: rest ∧ before.length = k := by
    have hdrop : (first.drop k).length = 11 - k := by rw [List.length_drop, hfirst]
    match hrest : first.drop k with
    | [] | [_] =>
      rw [hrest] at hdrop
      simp at hdrop
      omega
    | now :: now' :: rest =>
      exact ⟨first.take k, now, now', rest, by rw [← hrest, List.take_append_drop],
        by rw [List.length_take, hfirst]; omega⟩
  simp only [List.length_append, List.length_cons] at hfirst
  obtain ⟨log₀, j₀, hlog₀, run₀⟩ := iterate_reaches (f := f) run
    (show n + before.length ≤ 2 ^ 64 by omega)
  obtain ⟨events, j₁, hsweep, run₁, hfound, -⟩ := iteration_reaches (by omega) run₀ f now
  rw [htotal] at hfound
  have hupToDate := upToDate_of_total (by omega) run₀ hfound
  obtain ⟨events', j₂, hsweep', run₂, hfound', -⟩ := iteration_reaches (by omega) run₁ f now'
  have hkind : ((n + before.length + 1) % 10 == 0) = false := by
    rw [beq_eq_false_iff_ne]
    omega
  have hcalm := hupToDate.calm (Or.inl hkind) hfound'
  obtain ⟨log₃, j₃, hlog₃, run₃, hrest₃⟩ := hcalm.iterate rest run₂ (by omega)
  obtain ⟨log', j', hlog', -, hrest'⟩ := hrest₃.calm.iterate later run₃ (by omega)
  exact ⟨_, j₃.sweeper, log', j'.sweeper,
    iterate_append hlog₀ (iterate_cons hsweep (iterate_cons hsweep' hlog₃)), hlog', hrest'⟩

end Iterations

/-- One file, which is not the one found before. -/
def replaced : Folder where
  files := [[[98]]]
  nodup := List.nodup_singleton _
  mtime _ := 0

/-- The file found before is gone. -/
theorem replaced_settles : ∃ log sw log' sw',
    iterate replaced (List.replicate 11 20000000000) aged.sweeper = some (log, sw) ∧
      iterate replaced [21000000000, 22000000000] sw = some (log', sw') ∧
      AtRest replaced [21000000000, 22000000000] sw log' sw' :=
  settles run_aged replaced rfl (by decide)

end FilesystemSweeper

end WhisperNet
