import WhisperNet.SweepEvents

/-!
# What a sweep reports as new

A scan reports a file as created or modified when it is newer than its entry, or has none. So what
it reports depends on whether the entries keep up with the files.

* `scan_settled`, `scan_unsettled` — which files a scan reports.
* `deleted_or_scanned` — what a sweep does not report as deleted, it has scanned.
* `Full.sweep` — what a sweep leaves that finds all it keeps track of.
-/

namespace WhisperNet

namespace FilesystemSweeper

/-- Nothing is due for `p`: its entry is as recent as the file, or the file is stored. -/
def Settled (mtime : FilePath → FileTime) (Kept : FilePath → Prop) (m : TimeMap) (p : FilePath) :
    Prop :=
  (∃ pair, m[p]? = some pair ∧ mtime p ≤ pair.1) ∨ Kept p

/-- Every path is a file with its time. -/
def Timed (mtime : FilePath → FileTime) (files : List (FilePath × Stat)) : Prop :=
  ∀ file ∈ files, file.2 = .time (mtime file.1)

section Visit

variable {sw : FilesystemSweeper} {total : Bool} {p : FilePath} {t : FileTime}
  {event : SweepEvent}

/-- What one visit reports. -/
theorem mem_visit (h : event ∈ (sw.visit total p t).1) :
    event = .fastTracked p ∨
      (event = .created p ∨ event = .modified p) ∧
        ∀ pair, (sw.map total)[p]? = some pair → pair.1 < t := by
  unfold visit at h
  split at h
  · next hnone =>
    rcases List.mem_cons.mp h with rfl | h
    · exact Or.inr ⟨Or.inl rfl, fun pair hpair => absurd (hnone.symm.trans hpair) (by simp)⟩
    · unfold fastTrack at h
      dsimp only at h
      split at h
      · cases h
      · exact Or.inl (List.mem_singleton.mp h)
  · next old _ hold =>
    dsimp only at h
    split at h
    · next hlt =>
      rcases List.mem_cons.mp h with rfl | h
      · refine Or.inr ⟨Or.inr rfl, fun pair hpair => ?_⟩
        rw [hold, Option.some_inj] at hpair
        exact hpair ▸ hlt
      · unfold fastTrack at h
        dsimp only at h
        split at h
        · cases h
        · exact Or.inl (List.mem_singleton.mp h)
    · cases h

/-- What is newer than its entry is reported. -/
theorem visit_reports (h : ∀ pair, (sw.map total)[p]? = some pair → pair.1 < t) :
    .created p ∈ (sw.visit total p t).1 ∨ .modified p ∈ (sw.visit total p t).1 := by
  unfold visit
  split
  · exact Or.inl List.mem_cons_self
  · next old c hold =>
    dsimp only
    rw [if_pos (h (old, c) hold)]
    exact Or.inr List.mem_cons_self

end Visit

section Scan

variable {mtime : FilePath → FileTime} {Kept : FilePath → Prop} (total : Bool)
  {files : List (FilePath × Stat)}

theorem scanEnd_of_timed (h : Timed mtime files) : scanEnd files = .finished :=
  scanEnd_of_times fun file hfile => by rw [h file hfile]; rfl

/-- A visit leaves the other paths as they were, and its own settled. -/
theorem settled_visit {sw : FilesystemSweeper} {p q : FilePath}
    (h : Settled mtime Kept (sw.map total) q) :
    Settled mtime Kept ((sw.visit total p (mtime p)).2.map total) q := by
  rcases h with ⟨pair, hpair, hle⟩ | h
  · by_cases hq : p = q
    · subst hq
      exact Or.inl ⟨_, (map_visit sw total p (mtime p) p).trans (if_pos rfl), le_rfl⟩
    · exact Or.inl ⟨pair, ((map_visit sw total p (mtime p) q).trans (if_neg hq)).trans hpair, hle⟩
  · exact Or.inr h

/-- Where all is settled, only stored files are reported as created or modified. -/
theorem scan_settled (sw : FilesystemSweeper) (htimed : Timed mtime files)
    (h : ∀ file ∈ files, Settled mtime Kept (sw.map total) file.1) (p : FilePath)
    (hp : .created p ∈ (scan total sw files).1 ∨ .modified p ∈ (scan total sw files).1) :
    Kept p := by
  induction files generalizing sw with
  | nil => simp [scan] at hp
  | cons file rest ih =>
    obtain ⟨path, stat⟩ := file
    obtain ⟨hstat, htimed'⟩ := List.forall_mem_cons.mp htimed
    obtain ⟨hhead, htail⟩ := List.forall_mem_cons.mp h
    obtain rfl : stat = .time (mtime path) := hstat
    have hvisited : ∀ event ∈ (sw.visit total path (mtime path)).1,
        event = .created p ∨ event = .modified p → Kept p := by
      intro event hmem hevent
      rcases mem_visit hmem with rfl | ⟨hpath, hnewer⟩
      · rcases hevent with hevent | hevent <;> cases hevent
      · have heq : path = p := by
          rcases hevent with rfl | rfl <;> rcases hpath with hpath | hpath <;> cases hpath <;> rfl
        subst heq
        rcases hhead with ⟨pair, hpair, hle⟩ | hkept
        · exact absurd (hnewer pair hpair) (not_lt.mpr hle)
        · exact hkept
    have hrest := ih (sw.visit total path (mtime path)).2 htimed' fun file hfile =>
      settled_visit total (htail file hfile)
    rcases hp with hp | hp
    · rcases List.mem_append.mp hp with hp | hp
      · exact hvisited _ hp (Or.inl rfl)
      · exact hrest (Or.inl hp)
    · rcases List.mem_append.mp hp with hp | hp
      · exact hvisited _ hp (Or.inr rfl)
      · exact hrest (Or.inr hp)

/-- Where something is not, a file that is not stored is reported. -/
theorem scan_unsettled (sw : FilesystemSweeper) (htimed : Timed mtime files)
    (h : ∃ file ∈ files, ¬ Settled mtime Kept (sw.map total) file.1) :
    ∃ p, (.created p ∈ (scan total sw files).1 ∨ .modified p ∈ (scan total sw files).1) ∧
      ¬ Kept p := by
  induction files generalizing sw with
  | nil => simp at h
  | cons file rest ih =>
    obtain ⟨path, stat⟩ := file
    obtain ⟨hstat, htimed'⟩ := List.forall_mem_cons.mp htimed
    obtain rfl : stat = .time (mtime path) := hstat
    by_cases hhead : Settled mtime Kept (sw.map total) path
    · obtain ⟨file, hfile, hdue⟩ := h
      -- The visit settles its own path only, so that of `file` is another.
      have hne : path ≠ file.1 := fun heq => hdue (heq ▸ hhead)
      have hrest : file ∈ rest := by
        refine (List.mem_cons.mp hfile).resolve_left fun heq => hne ?_
        rw [heq]
      have hdue' :
          ¬ Settled mtime Kept ((sw.visit total path (mtime path)).2.map total) file.1 := by
        unfold Settled
        rw [map_visit, if_neg hne]
        exact hdue
      obtain ⟨p, hp, hkept⟩ := ih (sw.visit total path (mtime path)).2 htimed' ⟨file, hrest, hdue'⟩
      exact ⟨p, hp.imp (List.mem_append_right _) (List.mem_append_right _), hkept⟩
    · obtain ⟨hold, hkept⟩ := not_or.mp hhead
      have hnewer : ∀ pair, (sw.map total)[path]? = some pair → pair.1 < mtime path := by
        intro pair hpair
        by_contra hle
        exact hold ⟨pair, hpair, not_lt.mp hle⟩
      exact ⟨path, (visit_reports hnewer).imp (List.mem_append_left _) (List.mem_append_left _),
        hkept⟩

/-- A scan reports what it has recorded. -/
theorem path_mem_scanned {event : SweepEvent} (sw : FilesystemSweeper)
    (h : event ∈ (scan total sw files).1) : event.path ∈ scanned files := by
  induction files generalizing sw with
  | nil => cases h
  | cons file rest ih =>
    obtain ⟨path, stat⟩ := file
    cases stat with
    | time t =>
      rcases List.mem_append.mp h with h | h
      · have hpath : event.path = path := by
          rcases mem_visit h with rfl | ⟨rfl | rfl, -⟩
          · rfl
          · rfl
          · rfl
        rw [hpath]
        exact List.mem_cons_self
      · exact List.mem_cons_of_mem _ (ih _ h)
    | notFound => cases h
    | failed => cases h

/-- A path with a time. -/
theorem time_of_scanned {p : FilePath} (h : p ∈ scanned files) : ∃ t, (p, Stat.time t) ∈ files := by
  obtain ⟨⟨q, stat⟩, hmem, rfl⟩ := List.mem_map.mp h
  have htime := List.mem_takeWhile_imp (p := fun file : FilePath × Stat => file.2.isTime) hmem
  cases stat with
  | time t => exact ⟨t, List.takeWhile_subset _ hmem⟩
  | notFound => cases htime
  | failed => cases htime

/-- What the scan leaves on the fast track: what was there, and files with their times. -/
theorem scan_fast (sw : FilesystemSweeper) (htimed : Timed mtime files) {q : FilePath}
    {pair : FileTime × UInt64}
    (h : (scan total sw files).2.1.fastTrackTimestamps[q]? = some pair) :
    (q ∈ files.map Prod.fst ∧ pair.1 = mtime q) ∨ sw.fastTrackTimestamps[q]? = some pair := by
  induction files generalizing sw with
  | nil => exact Or.inr h
  | cons file rest ih =>
    obtain ⟨path, stat⟩ := file
    obtain ⟨hstat, htimed'⟩ := List.forall_mem_cons.mp htimed
    obtain rfl : stat = .time (mtime path) := hstat
    rcases ih (sw.visit total path (mtime path)).2 htimed' h with ⟨hmem, ht⟩ | hold
    · exact Or.inl ⟨List.mem_cons_of_mem _ hmem, ht⟩
    · have hvisit : (path = q ∧ pair.1 = mtime path) ∨ sw.fastTrackTimestamps[q]? = some pair := by
        unfold visit at hold
        split at hold
        · cases total <;> simp only [fastTrack, mark] at hold <;> grind
        · dsimp only at hold
          split at hold
          · cases total <;> simp only [fastTrack, mark] at hold <;> grind
          · cases total <;> simp only [mark] at hold <;> grind
      rcases hvisit with ⟨rfl, ht⟩ | hold
      · exact Or.inl ⟨List.mem_cons_self, ht⟩
      · exact Or.inr hold

end Scan

/-- A sweep of the fast track leaves the other map. -/
theorem timestamps_scan_fast (sw : FilesystemSweeper) (files : List (FilePath × Stat)) :
    (scan false sw files).2.1.timestamps = sw.timestamps := by
  induction files generalizing sw with
  | nil => rfl
  | cons file rest ih =>
    obtain ⟨path, stat⟩ := file
    cases stat with
    | time t =>
      refine (ih (sw.visit false path t).2).trans ?_
      unfold visit
      split
      · rfl
      · dsimp only
        split <;> rfl
    | notFound => rfl
    | failed => rfl

/-- The report of an entry that carries the iteration is at most that it is old. -/
theorem mem_finish {sw : FilesystemSweeper} {total : Bool} {now : FileTime}
    {removed : List FilePath} {event : SweepEvent} (h : event ∈ (sw.finish total now removed).1) :
    event = .deleted event.path ∨ event = .unFastTracked event.path ∧
      ∃ t, (sw.map total)[event.path]? = some (t, sw.iteration) := by
  obtain ⟨⟨p, t, c⟩, hentry, hreport⟩ := List.mem_flatMap.mp h
  rw [Std.TreeMap.mem_toList_iff_getElem?_eq_some] at hentry
  unfold report at hreport
  split at hreport
  · rw [List.mem_singleton.mp hreport]
    exact Or.inl rfl
  · next hold =>
    have hcurrent : c = sw.iteration := by
      by_contra hne
      rw [(verdict_eq_deleted now).mpr hne] at hold
      cases hold
    subst hcurrent
    split at hreport
    · rw [List.mem_singleton.mp hreport]
      exact Or.inr ⟨rfl, t, hentry⟩
    · cases hreport
  · cases hreport

section Sweep

variable {sw : FilesystemSweeper} {s : Surroundings} {event : SweepEvent}

/-- What a sweep reports comes from its scan, or is about a tracked path. -/
theorem mem_sweep (h : event ∈ (sw.sweep s).1) :
    event ∈ (scan s.total sw (sw.paths s)).1 ∨ event = .deleted event.path ∨
      event = .unFastTracked event.path ∧
        ∃ t, ((scan s.total sw (sw.paths s)).2.1.map s.total)[event.path]? =
          some (t, sw.iteration) := by
  have hfinish : ∀ removed,
      event ∈ ((scan s.total sw (sw.paths s)).2.1.finish s.total s.now removed).1 →
      event = .deleted event.path ∨ event = .unFastTracked event.path ∧
        ∃ t, ((scan s.total sw (sw.paths s)).2.1.map s.total)[event.path]? =
          some (t, sw.iteration) := by
    intro removed hmem
    have hreport := mem_finish hmem
    rwa [iteration_scan] at hreport
  rw [sweep_eq] at h
  split at h
  · exact Or.inl h
  · exact (List.mem_append.mp h).imp_right (hfinish _)
  · exact (List.mem_append.mp h).imp_right (hfinish _)

/-- What the scan reports, the sweep reports. -/
theorem mem_sweep_of_scan (h : event ∈ (scan s.total sw (sw.paths s)).1) :
    event ∈ (sw.sweep s).1 := by
  rw [sweep_eq]
  split
  · exact h
  · exact List.mem_append_left _ h
  · exact List.mem_append_left _ h

/-- While every counter is from an earlier sweep, what is not reported as deleted was scanned. -/
theorem deleted_or_scanned
    (hstale : ∀ (q : FilePath) (pair : FileTime × UInt64), (sw.map s.total)[q]? = some pair →
      pair.2 ≠ sw.iteration) (h : event ∈ (sw.sweep s).1) :
    event = .deleted event.path ∨ event.path ∈ scanned (sw.paths s) := by
  rcases mem_sweep h with hscan | hdeleted | ⟨-, t, hentry⟩
  · exact Or.inr (path_mem_scanned s.total sw hscan)
  · exact Or.inl hdeleted
  · right
    by_contra hnot
    rw [scan_map_of_not_scanned _ _ _ hnot] at hentry
    exact hstale _ _ hentry rfl

/-- A sweep that looks at everything it keeps track of, and finds it. -/
structure Full (mtime : FilePath → FileTime) (sw : FilesystemSweeper) (s : Surroundings) :
    Prop where
  timed : Timed mtime (sw.paths s)
  covers : ∀ q ∈ sw.map s.total, q ∈ (sw.paths s).map Prod.fst

variable {mtime : FilePath → FileTime}

theorem Full.scanned (h : Full mtime sw s) : scanned (sw.paths s) = (sw.paths s).map Prod.fst :=
  scanned_of_finished (scanEnd_of_timed h.timed)

/-- Then nothing is reported as deleted. -/
theorem Full.not_deleted (h : Full mtime sw s) (q : FilePath) : .deleted q ∉ (sw.sweep s).1 := by
  intro hdeleted
  obtain ⟨-, hnot, pair, hpair, -⟩ := (mem_deleted_iff sw s q).mp hdeleted
  rw [h.scanned] at hnot
  exact hnot (h.covers q (mem_iff_exists.mpr ⟨pair, hpair⟩))

/-- What the scan has recorded, in terms of the files. -/
theorem Full.scan_map (h : Full mtime sw s) {q : FilePath} (hq : q ∈ (sw.paths s).map Prod.fst) :
    ((scan s.total sw (sw.paths s)).2.1.map s.total)[q]? = some (mtime q, sw.iteration) := by
  rw [← h.scanned] at hq
  obtain ⟨t, hmem, hmap⟩ := scan_map_of_scanned s.total sw (sw.paths s) hq
  obtain rfl : t = mtime q := Stat.time.inj (h.timed _ hmem)
  exact hmap

/-- It forgets nothing, and keeps on the fast track what is recent. -/
theorem Full.sweep (h : Full mtime sw s) : ∃ sw', (sw.sweep s).2 = some sw' ∧
    (∀ q : FilePath,
      sw'.timestamps[q]? = (scan s.total sw (sw.paths s)).2.1.timestamps[q]?) ∧
    ∀ (q : FilePath) (pair : FileTime × UInt64), sw'.fastTrackTimestamps[q]? = some pair →
      (scan s.total sw (sw.paths s)).2.1.fastTrackTimestamps[q]? = some pair := by
  have hnone : judged .deleted ((scan s.total sw (sw.paths s)).2.1.map s.total)
      (scan s.total sw (sw.paths s)).2.1.iteration s.now = [] := by
    refine List.eq_nil_iff_forall_not_mem.mpr fun q hq => ?_
    obtain ⟨pair, hpair, hverdict⟩ := mem_judged.mp hq
    rw [verdict_eq_deleted, iteration_scan] at hverdict
    by_cases hpath : q ∈ (sw.paths s).map Prod.fst
    · obtain rfl := Option.some_inj.mp ((h.scan_map hpath).symm.trans hpair)
      exact hverdict rfl
    · have hold := scan_map_of_not_scanned s.total sw (sw.paths s) (h.scanned ▸ hpath)
      exact hpath (h.covers q (mem_iff_exists.mpr ⟨pair, hold.symm.trans hpair⟩))
  rw [sweep_eq, scanEnd_of_timed h.timed]
  refine ⟨_, rfl, fun q => ?_, fun q pair hq => ?_⟩
  · simp only [finish, hnone, List.append_nil, getElem?_eraseAll, List.not_mem_nil, if_false]
  · simp only [finish, hnone, List.append_nil, getElem?_eraseAll, List.not_mem_nil, if_false] at hq
    split at hq
    · cases hq
    · exact hq

end Sweep

end FilesystemSweeper

end WhisperNet
