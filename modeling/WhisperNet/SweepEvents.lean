import WhisperNet.SweepDeletions
import Mathlib.Data.Set.Insert

/-!
# The stream of events a sweeper makes

Abstractly a sweeper keeps two sets of files, those it tracks and those on the fast track, and every
event moves them: `Tracked.Step` says when an event may occur. The calls that any run of sweeps
makes are a trace of that machine, and it ends in the keys of the two maps.

* `visit_trace`, `report_trace` — one visit and one report are traces.
* `sweep_trace` — a sweep is one.
* `event_stream` — the calls of a whole run, before the iteration wraps around.
-/

namespace WhisperNet

/-! ## The abstract machine -/

/-- The files tracked, and those on the fast track. -/
structure Tracked where
  files : Set FilePath
  fast : Set FilePath

namespace Tracked

def empty : Tracked := ⟨∅, ∅⟩

/-- When an event may occur, and what it changes. -/
inductive Step : Tracked → SweepEvent → Tracked → Prop
  | created {s : Tracked} {p : FilePath} (h : p ∉ s.files) :
      Step s (.created p) ⟨insert p s.files, s.fast⟩
  | modified {s : Tracked} {p : FilePath} (h : p ∈ s.files) : Step s (.modified p) s
  | deleted {s : Tracked} {p : FilePath} (h : p ∈ s.files) :
      Step s (.deleted p) ⟨s.files \ {p}, s.fast \ {p}⟩
  | fastTracked {s : Tracked} {p : FilePath} (h : p ∉ s.fast) :
      Step s (.fastTracked p) ⟨s.files, insert p s.fast⟩
  | unFastTracked {s : Tracked} {p : FilePath} (h : p ∈ s.fast) :
      Step s (.unFastTracked p) ⟨s.files, s.fast \ {p}⟩

/-- A file stays untracked until it is created. -/
theorem created_between {s t : Tracked} {p : FilePath} {es : List SweepEvent}
    (trace : Trace Step s es t) (hs : p ∉ s.files) : p ∉ t.files ∨ .created p ∈ es := by
  have hkeep : ∀ s e t, p ∉ s.files → Step s e t → ¬ e = .created p → p ∉ t.files := by
    intro s e t hs step hne
    cases step with
    | created h =>
      rintro (rfl | hp)
      · exact hne rfl
      · exact hs hp
    | modified h => exact hs
    | deleted h => exact fun hp => hs hp.1
    | fastTracked h => exact hs
    | unFastTracked h => exact hs
  rcases trace.preserved (fun s => p ∉ s.files) _ hs hkeep with h | ⟨e, he, rfl⟩
  · exact Or.inl h
  · exact Or.inr he

/-- A file stays on the fast track until it is taken off or deleted. -/
theorem removed_between {s t : Tracked} {p : FilePath} {es : List SweepEvent}
    (trace : Trace Step s es t) (hs : p ∈ s.fast) :
    p ∈ t.fast ∨ .unFastTracked p ∈ es ∨ .deleted p ∈ es := by
  have hkeep : ∀ s e t, p ∈ s.fast → Step s e t → ¬ (e = .unFastTracked p ∨ e = .deleted p) →
      p ∈ t.fast := by
    intro s e t hs step hne
    cases step with
    | created h => exact hs
    | modified h => exact hs
    | @deleted q h => exact ⟨hs, fun hp => hne (Or.inr (congrArg _ hp.symm))⟩
    | fastTracked h => exact Or.inr hs
    | @unFastTracked q h => exact ⟨hs, fun hp => hne (Or.inl (congrArg _ hp.symm))⟩
  rcases trace.preserved (fun s => p ∈ s.fast) _ hs hkeep with h | ⟨e, he, rfl | rfl⟩
  · exact Or.inl h
  · exact Or.inr (Or.inl he)
  · exact Or.inr (Or.inr he)

end Tracked

namespace FilesystemSweeper

/-! ## The keys of the maps -/

/-- The sets a sweeper stands for. -/
def keySets (sw : FilesystemSweeper) : Tracked :=
  ⟨{p | p ∈ sw.timestamps}, {p | p ∈ sw.fastTrackTimestamps}⟩

/-- The fast track is a subset of the files tracked. -/
def FastTracked (sw : FilesystemSweeper) : Prop :=
  ∀ p ∈ sw.fastTrackTimestamps, p ∈ sw.timestamps

theorem mem_insert_map {m : TimeMap} {p q : FilePath} {pair : FileTime × UInt64} :
    q ∈ m.insert p pair ↔ q = p ∨ q ∈ m := by
  rw [Std.TreeMap.mem_insert, Std.compare_eq_iff_eq, eq_comm]

theorem mem_eraseAll {m : TimeMap} {ps : List FilePath} {q : FilePath} :
    q ∈ eraseAll m ps ↔ q ∈ m ∧ q ∉ ps := by
  rw [mem_iff_exists, mem_iff_exists, getElem?_eraseAll]
  by_cases h : q ∈ ps
  · simp [h]
  · simp [h]

theorem setOf_insert (m : TimeMap) (p : FilePath) (pair : FileTime × UInt64) :
    {q | q ∈ m.insert p pair} = insert p {q | q ∈ m} := by
  ext q
  exact mem_insert_map

theorem insert_setOf {m : TimeMap} {p : FilePath} (h : p ∈ m) :
    insert p {q | q ∈ m} = {q | q ∈ m} :=
  Set.insert_eq_of_mem (s := {q | q ∈ m}) h

/-! ## The scan -/

section Scan

variable {sw : FilesystemSweeper} {total : Bool}

/-- Putting a file on the fast track reports it if it was not there. -/
theorem fastTrack_trace (s : Tracked) (hs : s.fast = {p | p ∈ sw.fastTrackTimestamps})
    (path : FilePath) (pair : FileTime × UInt64) :
    Trace Tracked.Step s (sw.fastTrack path pair).1
      ⟨s.files, {p | p ∈ (sw.fastTrack path pair).2.fastTrackTimestamps}⟩ := by
  obtain ⟨files, fast⟩ := s
  obtain rfl : fast = _ := hs
  unfold fastTrack
  by_cases h : path ∈ sw.fastTrackTimestamps
  · rw [if_pos h, setOf_insert, insert_setOf h]
    exact .nil _
  · rw [if_neg h, setOf_insert]
    exact .cons (.fastTracked h) (.nil _)

/-- A visit marks the map it goes by, which is no change of its keys if the path is one. -/
theorem keySets_mark {path : FilePath} (pair : FileTime × UInt64) (h : path ∈ sw.map total) :
    (sw.mark total path pair).keySets = sw.keySets := by
  cases total with
  | false => exact congrArg (Tracked.mk _) ((setOf_insert _ _ _).trans (insert_setOf h))
  | true => exact congrArg (Tracked.mk · _) ((setOf_insert _ _ _).trans (insert_setOf h))

theorem fastTracked_mark {path : FilePath} (pair : FileTime × UInt64)
    (hsub : ∀ q ∈ sw.fastTrackTimestamps, q = path ∨ q ∈ sw.timestamps)
    (hpath : total = false → path ∈ sw.timestamps) : (sw.mark total path pair).FastTracked := by
  intro q hq
  cases total with
  | true => exact mem_insert_map.mpr (hsub q hq)
  | false =>
    rcases mem_insert_map.mp hq with rfl | hq
    · exact hpath rfl
    · rcases hsub q hq with rfl | hq
      · exact hpath rfl
      · exact hq

/-- **One visit is a trace**, and keeps the fast track among the files tracked. -/
theorem visit_trace {path : FilePath} (t : FileTime) (hsub : sw.FastTracked)
    (hfast : total = false → path ∈ sw.fastTrackTimestamps) :
    Trace Tracked.Step sw.keySets (sw.visit total path t).1 (sw.visit total path t).2.keySets ∧
      (sw.visit total path t).2.FastTracked := by
  have hof : ∀ q ∈ (sw.fastTrack path (t, sw.iteration)).2.fastTrackTimestamps,
      q = path ∨ q ∈ sw.timestamps := fun q hq => (mem_insert_map.mp hq).imp_right (hsub q)
  cases hmap : (sw.map total)[path]? with
  | none =>
    have hnew : path ∉ sw.map total := by
      intro hmem
      obtain ⟨pair, hpair⟩ := mem_iff_exists.mp hmem
      cases hmap.symm.trans hpair
    cases total with
    | false =>
      -- What the fast track scan visits is in its map.
      exact absurd (hfast rfl) hnew
    | true =>
      have hvisit : sw.visit true path t =
          (.created path :: (sw.fastTrack path (t, sw.iteration)).1,
          (sw.fastTrack path (t, sw.iteration)).2.mark true path (t, sw.iteration)) := by
        rw [visit, hmap]
      have hsets : ((sw.fastTrack path (t, sw.iteration)).2.mark true path
          (t, sw.iteration)).keySets = ⟨insert path {p | p ∈ sw.timestamps},
            {p | p ∈ (sw.fastTrack path (t, sw.iteration)).2.fastTrackTimestamps}⟩ :=
        congrArg (Tracked.mk · _) (setOf_insert _ _ _)
      rw [hvisit]
      refine ⟨?_, fastTracked_mark _ hof nofun⟩
      rw [hsets]
      exact .cons (.created hnew) (fastTrack_trace ⟨_, _⟩ rfl path _)
  | some old =>
    have hin : path ∈ sw.map total := mem_iff_exists.mpr ⟨old, hmap⟩
    have hmem : path ∈ sw.timestamps := by
      cases total with
      | false => exact hsub path hin
      | true => exact hin
    by_cases hnewer : old.1 < t
    · have hvisit : sw.visit total path t =
          (.modified path :: (sw.fastTrack path (t, sw.iteration)).1,
            (sw.fastTrack path (t, sw.iteration)).2.mark total path (t, sw.iteration)) := by
        rw [visit, hmap]
        exact if_pos hnewer
      have hin' : path ∈ (sw.fastTrack path (t, sw.iteration)).2.map total := by
        cases total with
        | false => exact mem_insert_map.mpr (Or.inl rfl)
        | true => exact hin
      rw [hvisit, keySets_mark _ hin']
      exact ⟨.cons (.modified hmem) (fastTrack_trace sw.keySets rfl path _),
        fastTracked_mark _ hof fun _ => hmem⟩
    · have hvisit : sw.visit total path t = ([], sw.mark total path (t, sw.iteration)) := by
        rw [visit, hmap]
        exact if_neg hnewer
      rw [hvisit, keySets_mark _ hin]
      exact ⟨.nil _, fastTracked_mark _ (fun q hq => Or.inr (hsub q hq)) fun _ => hmem⟩

/-- The fast track does not shrink during a scan. -/
theorem fast_subset_visit (path : FilePath) (t : FileTime) :
    ∀ q ∈ sw.fastTrackTimestamps, q ∈ (sw.visit total path t).2.fastTrackTimestamps := by
  intro q hq
  have hinsert : ∀ (m : TimeMap) pair, q ∈ m → q ∈ m.insert path pair :=
    fun m pair h => mem_insert_map.mpr (Or.inr h)
  unfold visit
  split
  · cases total
    · exact hinsert _ _ (hinsert _ _ hq)
    · exact hinsert _ _ hq
  · dsimp only
    split <;> cases total
    · exact hinsert _ _ (hinsert _ _ hq)
    · exact hinsert _ _ hq
    · exact hinsert _ _ hq
    · exact hq

/-- **A scan is a trace.** -/
theorem scan_trace (total : Bool) (files : List (FilePath × Stat)) (hsub : sw.FastTracked)
    (hfast : total = false → ∀ file ∈ files, file.1 ∈ sw.fastTrackTimestamps) :
    Trace Tracked.Step sw.keySets (scan total sw files).1 (scan total sw files).2.1.keySets ∧
      (scan total sw files).2.1.FastTracked := by
  induction files generalizing sw with
  | nil => exact ⟨.nil _, hsub⟩
  | cons file rest ih =>
    obtain ⟨path, stat⟩ := file
    cases stat with
    | time t =>
      obtain ⟨hvisit, hsub'⟩ := visit_trace t hsub fun h => hfast h _ List.mem_cons_self
      obtain ⟨hrest, hsub''⟩ := ih hsub' fun h file hfile =>
        fast_subset_visit path t _ (hfast h file (List.mem_cons_of_mem _ hfile))
      exact ⟨hvisit.append hrest, hsub''⟩
    | notFound => exact ⟨.nil _, hsub⟩
    | failed => exact ⟨.nil _, hsub⟩

end Scan

/-! ## The report -/

/-- What a report leaves of the two sets. -/
def reported (iteration : UInt64) (now : FileTime)
    (entries : List (FilePath × (FileTime × UInt64))) (s : Tracked) : Tracked where
  files := {p | p ∈ s.files ∧ ∀ entry ∈ entries, entry.1 = p →
    verdict iteration now entry.2 ≠ .deleted}
  fast := {p | p ∈ s.fast ∧ ∀ entry ∈ entries, entry.1 = p →
    verdict iteration now entry.2 = .recent}

section Report

variable (fast : TimeMap) (iteration : UInt64) (now : FileTime)

theorem reported_nil (s : Tracked) : reported iteration now [] s = s := by
  simp [reported]

theorem reported_cons (entry : FilePath × (FileTime × UInt64))
    (rest : List (FilePath × (FileTime × UInt64))) (s : Tracked) :
    reported iteration now (entry :: rest) s =
      reported iteration now rest (reported iteration now [entry] s) := by
  simp [reported, and_assoc]

/-- One entry is deleted, taken off the fast track, or left alone. -/
theorem report_one_trace (s : Tracked) (entry : FilePath × (FileTime × UInt64))
    (hfile : entry.1 ∈ s.files) (hfast : entry.1 ∈ fast ↔ entry.1 ∈ s.fast) :
    Trace Tracked.Step s (report fast iteration now entry) (reported iteration now [entry] s) := by
  obtain ⟨files, onFast⟩ := s
  have hwithout : ∀ set : Set FilePath, {p | p ∈ set ∧ ¬ entry.1 = p} = set \ {entry.1} := by
    intro set
    ext p
    simp [eq_comm]
  unfold report
  cases hv : verdict iteration now entry.2 with
  | deleted =>
    have hend : reported iteration now [entry] ⟨files, onFast⟩ =
        ⟨files \ {entry.1}, onFast \ {entry.1}⟩ := by
      simp [reported, hv, hwithout]
    rw [hend]
    exact .cons (.deleted hfile) (.nil _)
  | old =>
    have hend : reported iteration now [entry] ⟨files, onFast⟩ =
        ⟨files, onFast \ {entry.1}⟩ := by
      simp [reported, hv, hwithout]
    rw [hend]
    by_cases h : entry.1 ∈ fast
    · simp only [h, if_true]
      exact .cons (.unFastTracked (hfast.mp h)) (.nil _)
    · simp only [h, if_false]
      rw [Set.sdiff_singleton_eq_self fun hmem => h (hfast.mpr hmem)]
      exact .nil _
  | recent =>
    have hend : reported iteration now [entry] ⟨files, onFast⟩ = ⟨files, onFast⟩ := by
      simp [reported, hv]
    rw [hend]
    exact .nil _

/-- **A report is a trace.** -/
theorem report_trace (entries : List (FilePath × (FileTime × UInt64))) (s : Tracked)
    (hdistinct : (entries.map Prod.fst).Nodup) (hfiles : ∀ entry ∈ entries, entry.1 ∈ s.files)
    (hfast : ∀ entry ∈ entries, entry.1 ∈ fast ↔ entry.1 ∈ s.fast) :
    Trace Tracked.Step s (entries.flatMap (report fast iteration now))
      (reported iteration now entries s) := by
  induction entries generalizing s with
  | nil =>
    rw [reported_nil]
    exact .nil _
  | cons entry rest ih =>
    rw [List.map_cons, List.nodup_cons] at hdistinct
    have hother : ∀ other ∈ rest, ∀ e ∈ [entry], e.1 ≠ other.1 := by
      intro other hmem e he heq
      rw [List.mem_singleton.mp he] at heq
      exact hdistinct.1 (List.mem_map.mpr ⟨other, hmem, heq.symm⟩)
    rw [List.flatMap_cons, reported_cons]
    refine (report_one_trace fast iteration now s entry (hfiles _ List.mem_cons_self)
      (hfast _ List.mem_cons_self)).append (ih _ hdistinct.2 ?_ ?_)
    · intro other hmem
      exact ⟨hfiles other (List.mem_cons_of_mem _ hmem),
        fun e he heq => absurd heq (hother other hmem e he)⟩
    · intro other hmem
      rw [hfast other (List.mem_cons_of_mem _ hmem)]
      exact ⟨fun h => ⟨h, fun e he heq => absurd heq (hother other hmem e he)⟩, fun h => h.1⟩

end Report

theorem not_mem_judged {v : Verdict} {m : TimeMap} {iteration : UInt64} {now : FileTime}
    {p : FilePath} : p ∉ judged v m iteration now ↔
      ∀ entry ∈ m.toList, entry.1 = p → verdict iteration now entry.2 ≠ v := by
  rw [judged, List.mem_map]
  constructor
  · intro h entry hentry hp hv
    exact h ⟨entry, List.mem_filter.mpr ⟨hentry, by simpa using hv⟩, hp⟩
  · rintro h ⟨entry, hentry, hp⟩
    obtain ⟨hmem, hv⟩ := List.mem_filter.mp hentry
    exact h entry hmem hp (by simpa using hv)

/-- **The reporting loop is a trace**, when it reports whatever the scan found missing. -/
theorem finish_trace {sw : FilesystemSweeper} (total : Bool) (now : FileTime)
    (removed : List FilePath) (hsub : sw.FastTracked)
    (hremoved : ∀ p ∈ removed, p ∈ sw.timestamps →
      p ∈ judged .deleted (sw.map total) sw.iteration now) :
    Trace Tracked.Step sw.keySets (sw.finish total now removed).1
        (sw.finish total now removed).2.keySets ∧
      (sw.finish total now removed).2.FastTracked := by
  have hmap : ∀ p ∈ sw.map total, p ∈ sw.timestamps := by
    cases total
    · exact hsub
    · exact fun p hp => hp
  have hdistinct : ((sw.map total).toList.map Prod.fst).Nodup := by
    rw [Std.TreeMap.map_fst_toList_eq_keys]
    exact Std.TreeMap.nodup_keys
  have hnone : ∀ p, p ∈ sw.timestamps →
      (p ∉ removed ++ judged .deleted (sw.map total) sw.iteration now ↔
        p ∉ judged .deleted (sw.map total) sw.iteration now) := by
    intro p hp
    rw [List.mem_append, not_or]
    exact ⟨fun h => h.2, fun h => ⟨fun hr => h (hremoved p hr hp), h⟩⟩
  have hend : (sw.finish total now removed).2.keySets =
      reported sw.iteration now (sw.map total).toList sw.keySets := by
    refine congrArg₂ Tracked.mk ?_ ?_
    · ext p
      show p ∈ eraseAll sw.timestamps _ ↔ _
      rw [mem_eraseAll, and_congr_right (hnone p), not_mem_judged]
      rfl
    · ext p
      show p ∈ eraseAll (eraseAll sw.fastTrackTimestamps _) _ ↔ _
      rw [mem_eraseAll, mem_eraseAll, and_assoc]
      refine and_congr_right fun hp => ?_
      rw [hnone p (hsub p hp), not_mem_judged, not_mem_judged]
      constructor
      · intro h entry hentry heq
        have hdeleted := h.1 entry hentry heq
        have hold := h.2 entry hentry heq
        cases hv : verdict sw.iteration now entry.2 with
        | deleted => exact absurd hv hdeleted
        | old => exact absurd hv hold
        | recent => rfl
      · intro h
        exact ⟨fun entry hentry heq => by simp [h entry hentry heq],
          fun entry hentry heq => by simp [h entry hentry heq]⟩
  constructor
  · rw [hend]
    refine report_trace _ _ _ _ _ hdistinct (fun entry hentry => hmap entry.1 ?_)
      (fun entry _ => Iff.rfl)
    exact mem_iff_exists.mpr ⟨entry.2, Std.TreeMap.mem_toList_iff_getElem?_eq_some.mp hentry⟩
  · intro p hp
    obtain ⟨hp, -⟩ := mem_eraseAll.mp hp
    obtain ⟨hp, hgone⟩ := mem_eraseAll.mp hp
    exact mem_eraseAll.mpr ⟨hsub p hp, hgone⟩

/-! ## Whole sweeps -/

/-- No path is listed twice. -/
def ListedOnce (s : Surroundings) : Prop := (s.listing.map Prod.fst).Nodup

theorem nodup_paths {sw : FilesystemSweeper} {s : Surroundings} (h : ListedOnce s) :
    ((sw.paths s).map Prod.fst).Nodup := by
  unfold paths
  split
  · exact h
  · rw [List.map_map]
    exact (List.map_id _).symm ▸ Std.TreeMap.nodup_keys

/-- **A sweep is a trace**, when it knows every counter for an earlier one. -/
theorem sweep_trace {sw sw' : FilesystemSweeper} {s : Surroundings} {events : List SweepEvent}
    (hsub : sw.FastTracked) (honce : ListedOnce s)
    (hstale : ∀ (q : FilePath) (pair : FileTime × UInt64), (sw.map s.total)[q]? = some pair →
      pair.2 ≠ sw.iteration)
    (h : sw.sweep s = (events, some sw')) :
    Trace Tracked.Step sw.keySets events sw'.keySets ∧ sw'.FastTracked := by
  have hfast : s.total = false → ∀ file ∈ sw.paths s, file.1 ∈ sw.fastTrackTimestamps := by
    intro htotal file hfile
    rw [paths, if_neg (by simp [htotal])] at hfile
    obtain ⟨path, hpath, rfl⟩ := List.mem_map.mp hfile
    exact Std.TreeMap.mem_keys.mp hpath
  obtain ⟨hscan, hsub'⟩ := scan_trace s.total (sw.paths s) hsub hfast
  rw [sweep_eq] at h
  cases hend : scanEnd (sw.paths s) with
  | rethrown => rw [hend] at h; cases h
  | finished =>
    rw [hend] at h
    obtain ⟨rfl, hsw⟩ := Prod.mk.inj h
    obtain rfl := Option.some.inj hsw
    obtain ⟨hreport, hsub''⟩ := finish_trace s.total s.now [] hsub' (by simp)
    exact ⟨hscan.append hreport, hsub''⟩
  | vanished path =>
    rw [hend] at h
    obtain ⟨rfl, hsw⟩ := Prod.mk.inj h
    obtain rfl := Option.some.inj hsw
    -- The path that vanished was not recorded, so the report deletes it if it was tracked.
    obtain ⟨before, after, hsplit, hbefore⟩ := exists_split hend
    have hnot : path ∉ scanned (sw.paths s) := by
      have hnodup : ((sw.paths s).map Prod.fst).Nodup := nodup_paths honce
      rw [hsplit, (scanned_append after path hbefore rfl).1]
      rw [hsplit, List.map_append, List.map_cons] at hnodup
      exact fun hmem => (List.nodup_append.mp hnodup).2.2 path hmem path List.mem_cons_self rfl
    have hremoved : ∀ p ∈ [path], p ∈ (scan s.total sw (sw.paths s)).2.1.timestamps →
        p ∈ judged .deleted ((scan s.total sw (sw.paths s)).2.1.map s.total)
          (scan s.total sw (sw.paths s)).2.1.iteration s.now := by
      intro p hp hmem
      obtain rfl := List.mem_singleton.mp hp
      have htracked : p ∈ (scan s.total sw (sw.paths s)).2.1.map s.total := by
        cases htotal : s.total with
        | true =>
          rw [htotal] at hmem
          exact hmem
        | false =>
          have hpath : (p, Stat.notFound) ∈ sw.paths s := by
            rw [hsplit]
            exact List.mem_append_right _ List.mem_cons_self
          obtain ⟨pair, hpair⟩ := mem_iff_exists.mp (hfast htotal _ hpath)
          exact mem_iff_exists.mpr ⟨pair, (scan_map_of_not_scanned _ _ _ hnot).trans hpair⟩
      obtain ⟨pair, hpair⟩ := mem_iff_exists.mp htracked
      refine mem_judged.mpr ⟨pair, hpair, (verdict_eq_deleted s.now).mpr ?_⟩
      rw [scan_map_of_not_scanned _ _ _ hnot] at hpair
      rw [iteration_scan]
      exact hstale p pair hpair
    obtain ⟨hreport, hsub''⟩ := finish_trace s.total s.now [path] hsub' hremoved
    exact ⟨hscan.append hreport, hsub''⟩

/-! ## Whole runs -/

/-- A sweeper and the calls it has made so far. -/
structure Journal where
  sweeper : FilesystemSweeper := {}
  log : List SweepEvent := []

/-- One more sweep, in which no path is listed twice and which no exception leaves. -/
def JournalStep (j j' : Journal) : Prop :=
  ∃ s events, ListedOnce s ∧ j.sweeper.sweep s = (events, some j'.sweeper) ∧
    j'.log = j.log ++ events

theorem scanEnd_of_times {files : List (FilePath × Stat)} (h : ∀ file ∈ files, file.2.isTime) :
    scanEnd files = .finished := by
  rw [scanEnd, List.dropWhile_eq_nil_iff.mpr h]

/-- After a total sweep that can look at every listed file, the sweeper has exactly their times. -/
theorem timestamps_total {sw sw' : FilesystemSweeper} {s : Surroundings}
    {events : List SweepEvent} (htotal : s.total = true) (honce : ListedOnce s)
    (hlooked : ∀ file ∈ s.listing, file.2.isTime)
    (hstale : ∀ (q : FilePath) (pair : FileTime × UInt64), sw.timestamps[q]? = some pair →
      pair.2 ≠ sw.iteration)
    (h : sw.sweep s = (events, some sw')) (q : FilePath) (pair : FileTime × UInt64) :
    sw'.timestamps[q]? = some pair ↔
      ∃ t, (q, Stat.time t) ∈ s.listing ∧ pair = (t, sw.iteration) := by
  have hpaths : sw.paths s = s.listing := if_pos htotal
  have hend := scanEnd_of_times hlooked
  have hscanned := scanned_of_finished hend
  rw [sweep_eq, hpaths, hend, htotal] at h
  obtain ⟨-, hsw⟩ := Prod.mk.inj h
  obtain rfl := Option.some.inj hsw
  show (eraseAll (scan true sw s.listing).2.1.timestamps ([] ++ judged .deleted _ _ _))[q]? = _ ↔ _
  rw [getElem?_eraseAll, List.nil_append]
  by_cases hq : q ∈ scanned s.listing
  · obtain ⟨t, hmem, hmap⟩ := scan_map_of_scanned true sw s.listing hq
    have hkept : q ∉ judged .deleted ((scan true sw s.listing).2.1.map true)
        (scan true sw s.listing).2.1.iteration s.now := by
      intro hjudged
      obtain ⟨pair, hpair, hv⟩ := mem_judged.mp hjudged
      obtain rfl := Option.some.inj (hmap.symm.trans hpair)
      exact (verdict_eq_deleted s.now).mp hv (iteration_scan true sw s.listing).symm
    rw [if_neg hkept]
    constructor
    · intro hpair
      exact ⟨t, hmem, (Option.some.inj (hmap.symm.trans hpair)).symm⟩
    · rintro ⟨t', hmem', rfl⟩
      have heq := List.inj_on_of_nodup_map honce hmem hmem' rfl
      obtain rfl : t = t' := by simpa using heq
      exact hmap
  · -- What was not listed has an old counter, so it is deleted.
    have hmap := scan_map_of_not_scanned true sw s.listing hq
    constructor
    · intro hpair
      by_cases hjudged : q ∈ judged .deleted ((scan true sw s.listing).2.1.map true)
          (scan true sw s.listing).2.1.iteration s.now
      · rw [if_pos hjudged] at hpair
        cases hpair
      · rw [if_neg hjudged] at hpair
        refine absurd (mem_judged.mpr ⟨pair, hpair, ?_⟩) hjudged
        rw [verdict_eq_deleted, iteration_scan]
        exact hstale q pair (hmap.symm.trans hpair)
    · rintro ⟨t, hmem, -⟩
      rw [hscanned] at hq
      exact absurd (List.mem_map.mpr ⟨_, hmem, rfl⟩) hq

/-- What a run up to the wrap-around keeps: the calls are a trace, and the sweeper is one that
sweeps reach. -/
theorem run_trace {n : Nat} (hn : n ≤ 2 ^ 64) {j : Journal} (run : Run JournalStep n {} j) :
    Trace Tracked.Step .empty j.log j.sweeper.keySets ∧ j.sweeper.FastTracked ∧
      Run SweepStep n {} j.sweeper := by
  generalize hstart : ({} : Journal) = start at run
  induction run with
  | nil =>
    subst hstart
    have hempty : Tracked.empty = keySets {} := by
      refine congrArg₂ Tracked.mk ?_ ?_
      · ext p
        simp
      · ext p
        simp
    exact ⟨hempty ▸ .nil _, fun p hp => by simp at hp, .nil _⟩
  | @snoc n _ j j' run last ih =>
    obtain ⟨htrace, hsub, hrun⟩ := ih (Nat.le_of_succ_le hn) hstart
    obtain ⟨s, events, honce, hsweep, hlog⟩ := last
    obtain ⟨hnext, hsub'⟩ := sweep_trace hsub honce
      (fun q pair hq => stale_of_run (Nat.lt_of_succ_le hn) hrun s.total hq) hsweep
    rw [hlog]
    exact ⟨htrace.append hnext, hsub', .snoc hrun ⟨s, congrArg Prod.snd hsweep⟩⟩

/-- **The stream of events.** Up to the `2 ^ 64`th sweep of any run, the calls are a trace of the
abstract machine from nothing to the keys of the two maps, the fast track stays among the files
tracked and every counter below the next iteration; a file is created between two deletions, and
taken off the fast track between two additions to it; and after a total sweep that can look at
every listed file the sweeper has exactly their times. -/
theorem event_stream {n : Nat} (hn : n ≤ 2 ^ 64) {j : Journal} (run : Run JournalStep n {} j) :
    Trace Tracked.Step .empty j.log j.sweeper.keySets ∧
      (∀ p ∈ j.sweeper.fastTrackTimestamps, p ∈ j.sweeper.timestamps) ∧
      (j.sweeper.iteration = UInt64.ofNat n ∧ Below n j.sweeper.timestamps ∧
        Below n j.sweeper.fastTrackTimestamps) ∧
      (∀ p before between after, j.log =
        before ++ .deleted p :: (between ++ .deleted p :: after) → .created p ∈ between) ∧
      (∀ p before between after, j.log =
        before ++ .fastTracked p :: (between ++ .fastTracked p :: after) →
        .unFastTracked p ∈ between ∨ .deleted p ∈ between) ∧
      (n < 2 ^ 64 → ∀ s events sw', s.total = true → ListedOnce s →
        (∀ file ∈ s.listing, file.2.isTime) → j.sweeper.sweep s = (events, some sw') →
        ∀ (q : FilePath) (pair : FileTime × UInt64), sw'.timestamps[q]? = some pair ↔
          ∃ t, (q, Stat.time t) ∈ s.listing ∧ pair = (t, j.sweeper.iteration)) := by
  obtain ⟨htrace, hsub, hrun⟩ := run_trace hn run
  refine ⟨htrace, hsub, run_counters hrun, ?_, ?_, ?_⟩
  · intro p before between after hlog
    rw [hlog] at htrace
    obtain ⟨s, -, hrest⟩ := htrace.split
    cases hrest with
    | cons hfirst hrest =>
      obtain ⟨t, hbetween, hlast⟩ := hrest.split
      cases hfirst
      cases hlast with
      | cons hsecond _ =>
        cases hsecond with
        | deleted htracked =>
          exact (Tracked.created_between hbetween fun h => h.2 rfl).resolve_left
            fun h => h htracked
  · intro p before between after hlog
    rw [hlog] at htrace
    obtain ⟨s, -, hrest⟩ := htrace.split
    cases hrest with
    | cons hfirst hrest =>
      obtain ⟨t, hbetween, hlast⟩ := hrest.split
      cases hfirst
      cases hlast with
      | cons hsecond _ =>
        cases hsecond with
        | fastTracked hoff =>
          exact (Tracked.removed_between hbetween (Or.inl rfl)).resolve_left hoff
  · intro hlt s events sw' htotal honce hlooked hsweep
    exact timestamps_total htotal honce hlooked
      (fun q pair hq => stale_of_run hlt hrun true hq) hsweep

/-! ## When the iteration wraps around -/

/-- A total sweep that lists one file, 20 seconds after the epoch. -/
def listingOne (stat : Stat) : Surroundings where
  total := true
  listing := [([[97]], stat)]
  stat _ := .notFound
  now := 20000000000

/-- A sweep of the fast track, at the same time. -/
def fastOnly : Surroundings := { listingOne .notFound with total := false }

/-- The journal once an old file has been found. -/
def aged : Journal where
  sweeper := ((({} : FilesystemSweeper).sweep (listingOne (.time 0))).2.getD {})
  log := [.created [[97]], .fastTracked [[97]], .unFastTracked [[97]]]

theorem run_aged : Run JournalStep 1 {} aged :=
  .snoc (.nil _) ⟨listingOne (.time 0), aged.log, List.nodup_singleton _, rfl, rfl⟩

/-- The wanted reports at the first sweep, once it has found the old file. -/
theorem aged_event_stream : Trace Tracked.Step .empty aged.log aged.sweeper.keySets :=
  (event_stream (by decide) run_aged).1

/-- With nothing on the fast track, a sweep of it only counts. -/
theorem sweep_fastOnly (sw : FilesystemSweeper) (h : sw.fastTrackTimestamps.toList = []) :
    sw.sweep fastOnly = ([], some { sw with iteration := sw.iteration + 1 }) := by
  have hkeys : sw.fastTrackTimestamps.keys = [] := by
    rw [← Std.TreeMap.map_fst_toList_eq_keys, h, List.map_nil]
  have hpaths : sw.paths fastOnly = [] := by
    rw [paths, if_neg (by decide), hkeys, List.map_nil]
  have hmap : (sw.map false).toList = [] := h
  rw [sweep_eq, hpaths]
  show ([] ++ (sw.finish false _ []).1, some (sw.finish false _ []).2) = _
  simp only [finish, judged, hmap, List.flatMap_nil, List.filter_nil, List.map_nil,
    List.append_nil, eraseAll, List.foldl_nil]

/-- The journal at another iteration. -/
def agedAt (iteration : UInt64) : Journal where
  sweeper := { aged.sweeper with iteration }
  log := aged.log

theorem run_fastOnly (k : Nat) :
    Run JournalStep (k + 1) {} (agedAt (aged.sweeper.iteration + UInt64.ofNat k)) := by
  induction k with
  | zero => exact run_aged
  | succ k ih =>
    refine .snoc ih ⟨fastOnly, [], List.nodup_singleton _, ?_, (List.append_nil _).symm⟩
    have hempty : ∀ i, (agedAt i).sweeper.fastTrackTimestamps.toList = [] := fun _ =>
      (by decide : aged.sweeper.fastTrackTimestamps.toList = [])
    rw [sweep_fastOnly _ (hempty _), UInt64.ofNat_add, ← UInt64.add_assoc]
    rfl

/-- Once the iteration is back where a file was found, the file vanishes without a report. -/
theorem wrapped_stream : ∃ n j, Run JournalStep n {} j ∧
    ¬ Trace Tracked.Step .empty j.log j.sweeper.keySets := by
  have hwrap : aged.sweeper.iteration + UInt64.ofNat (2 ^ 64 - 1) = 0 := by decide
  have hrun := run_fastOnly (2 ^ 64 - 1)
  rw [hwrap] at hrun
  refine ⟨_, ⟨_, aged.log⟩, .snoc hrun ⟨listingOne .notFound, [], List.nodup_singleton _, rfl,
    (List.append_nil _).symm⟩, ?_⟩
  have hgone :
      [[97]] ∉ (((agedAt 0).sweeper.sweep (listingOne .notFound)).2.getD {}).timestamps := by
    decide
  intro trace
  -- The three calls leave the file tracked.
  generalize hsets : keySets _ = sets at trace
  obtain ⟨files, fast⟩ := sets
  have hfiles : [[97]] ∉ files := by
    obtain ⟨rfl, -⟩ := Tracked.mk.inj hsets
    exact hgone
  cases trace with
  | cons hcreated trace =>
    cases hcreated
    cases trace with
    | cons hfast trace =>
      cases hfast
      cases trace with
      | cons hunfast trace =>
        cases hunfast
        cases trace
        exact hfiles (Or.inl rfl)

end FilesystemSweeper

end WhisperNet
