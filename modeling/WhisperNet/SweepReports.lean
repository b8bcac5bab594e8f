import WhisperNet.SweepScans

/-!
# Which modifications are reported

A total sweep and a sweep of the fast track each go by a map of their own, and each report a file
as modified that is newer than their entry for it. Whether that is when the file has changed since
the last sweep of either kind has seen it depends on what each kind has seen.

* `modified_mem_scan` — what a scan reports as modified.
* `Watch.Informed` — the times in the two maps are the times seen, as long as reports are exact.
* `Watch.exact_iff` — a sweep's reports are exact if and only if no file is older than before, and
  a total sweep has missed nothing that the fast track has seen.
-/

namespace WhisperNet

namespace FilesystemSweeper

/-- The time at which a scan sees `p`, if it gets there. -/
def sighted : List (FilePath × Stat) → FilePath → Option FileTime
  | (path, .time t) :: rest, p => if path = p then some t else sighted rest p
  | _, _ => none

theorem sighted_cons (path : FilePath) (t : FileTime) (rest : List (FilePath × Stat))
    (p : FilePath) :
    sighted ((path, .time t) :: rest) p = if path = p then some t else sighted rest p := rfl

/-- A path has the same time whenever it is looked at. -/
def Steady (files : List (FilePath × Stat)) : Prop :=
  files.Pairwise fun file file' => file.1 = file'.1 → file.2 = file'.2

instance (files : List (FilePath × Stat)) : Decidable (Steady files) :=
  inferInstanceAs (Decidable (files.Pairwise _))

theorem mem_of_sighted {files : List (FilePath × Stat)} {p : FilePath} {t : FileTime}
    (h : sighted files p = some t) : (p, .time t) ∈ files := by
  induction files with
  | nil => cases h
  | cons file rest ih =>
    obtain ⟨path, stat⟩ := file
    cases stat with
    | time t' =>
      rw [sighted_cons] at h
      split at h
      · next hpath =>
        obtain rfl := hpath
        obtain rfl := Option.some_inj.mp h
        exact List.mem_cons_self
      · exact List.mem_cons_of_mem _ (ih h)
    | notFound => cases h
    | failed => cases h

/-- A path that comes again comes with the same time. -/
theorem Steady.sighted_rest {files : List (FilePath × Stat)} {p : FilePath} {t t' : FileTime}
    (h : Steady ((p, .time t) :: files)) (hrest : sighted files p = some t') : t' = t := by
  have hsame := (List.pairwise_cons.mp h).1 _ (mem_of_sighted hrest) rfl
  injection hsame with hsame
  exact hsame.symm

/-- What one visit reports as modified. -/
theorem modified_mem_visit {sw : FilesystemSweeper} {total : Bool} {path p : FilePath}
    {t : FileTime} : .modified p ∈ (sw.visit total path t).1 ↔
      path = p ∧ ∃ pair, (sw.map total)[p]? = some pair ∧ pair.1 < t := by
  have hfast (pair : FileTime × UInt64) : .modified p ∉ (sw.fastTrack path pair).1 := by
    unfold fastTrack
    dsimp only
    split <;> simp
  constructor
  · intro h
    unfold visit at h
    split at h
    · exact absurd ((List.mem_cons.mp h).resolve_left nofun) (hfast _)
    · next old count hold =>
      dsimp only at h
      split at h
      · next hlt =>
        rcases List.mem_cons.mp h with h | h
        · injection h with h
          obtain rfl := h
          exact ⟨rfl, _, hold, hlt⟩
        · exact absurd h (hfast _)
      · cases h
  · intro ⟨hpath, pair, hold, hlt⟩
    subst hpath
    unfold visit
    rw [hold]
    dsimp only
    rw [if_pos hlt]
    exact List.mem_cons_self

section Scan

variable {total : Bool} {files : List (FilePath × Stat)} {q : FilePath}

/-- **What a scan reports as modified**: what it sees newer than its entry. -/
theorem modified_mem_scan (sw : FilesystemSweeper) (h : Steady files) :
    .modified q ∈ (scan total sw files).1 ↔
      ∃ t, sighted files q = some t ∧ ∃ pair, (sw.map total)[q]? = some pair ∧ pair.1 < t := by
  induction files generalizing sw with
  | nil => simp [scan, sighted]
  | cons file rest ih =>
    obtain ⟨path, stat⟩ := file
    cases stat with
    | time t =>
      have hscan : (scan total sw ((path, .time t) :: rest)).1 =
          (sw.visit total path t).1 ++ (scan total (sw.visit total path t).2 rest).1 := rfl
      rw [hscan, List.mem_append, modified_mem_visit,
        ih (sw.visit total path t).2 (List.Pairwise.of_cons h), map_visit, sighted_cons]
      by_cases hpath : path = q
      · subst hpath
        -- What comes again has the time of its entry.
        have hagain : ¬ ∃ t', sighted rest path = some t' ∧
            ∃ pair, some (t, sw.iteration) = some pair ∧ pair.1 < t' := by
          rintro ⟨t', hrest, pair, hpair, hlt⟩
          obtain rfl := h.sighted_rest hrest
          obtain rfl := Option.some_inj.mp hpair
          exact absurd hlt (lt_irrefl _)
        rw [if_pos rfl, if_pos rfl, or_iff_left hagain]
        simp
      · simp [hpath]
    | notFound => simp [scan, sighted]
    | failed => simp [scan, sighted]

/-- What a scan records in the map it goes by. -/
theorem scan_map (sw : FilesystemSweeper) (h : Steady files) :
    ((scan total sw files).2.1.map total)[q]? =
      ((sighted files q).map fun t => (t, sw.iteration)).or (sw.map total)[q]? := by
  induction files generalizing sw with
  | nil => rfl
  | cons file rest ih =>
    obtain ⟨path, stat⟩ := file
    cases stat with
    | time t =>
      refine (ih (sw.visit total path t).2 (List.Pairwise.of_cons h)).trans ?_
      rw [map_visit, iteration_visit, sighted_cons]
      by_cases hpath : path = q
      · subst hpath
        cases hrest : sighted rest path with
        | none => simp
        | some t' =>
          obtain rfl := h.sighted_rest hrest
          simp
      · simp [hpath]
    | notFound => rfl
    | failed => rfl

/-- What a visit by the total map records on the fast track. -/
theorem fast_visit_total (sw : FilesystemSweeper) (path : FilePath) (t : FileTime)
    {pair : FileTime × UInt64}
    (h : (sw.visit true path t).2.fastTrackTimestamps[q]? = some pair) :
    path = q ∧ pair.1 = t ∨ sw.fastTrackTimestamps[q]? = some pair ∧
      (path = q → ∃ old, sw.timestamps[q]? = some old ∧ ¬ old.1 < t) := by
  have hinsert : (sw.fastTrackTimestamps.insert path (t, sw.iteration))[q]? = some pair →
      path = q ∧ pair.1 = t ∨ sw.fastTrackTimestamps[q]? = some pair ∧
        (path = q → ∃ old, sw.timestamps[q]? = some old ∧ ¬ old.1 < t) := by
    intro hq
    rw [getElem?_insert_map] at hq
    by_cases hpath : path = q
    · rw [if_pos hpath] at hq
      obtain rfl := Option.some_inj.mp hq
      exact Or.inl ⟨hpath, rfl⟩
    · rw [if_neg hpath] at hq
      exact Or.inr ⟨hq, fun heq => absurd heq hpath⟩
  unfold visit at h
  split at h
  · exact hinsert h
  · next old count hold =>
    dsimp only at h
    split at h
    · exact hinsert h
    · next hle =>
      refine Or.inr ⟨h, fun hpath => ⟨(old, count), ?_, hle⟩⟩
      rw [← hpath]
      exact hold

/-- What a scan by the total map records on the fast track: the times of what it reports. -/
theorem fast_scan_total (sw : FilesystemSweeper) (h : Steady files)
    {pair : FileTime × UInt64}
    (hq : (scan true sw files).2.1.fastTrackTimestamps[q]? = some pair) :
    sighted files q = some pair.1 ∨ sw.fastTrackTimestamps[q]? = some pair ∧
      ∀ t, sighted files q = some t → ∃ old, sw.timestamps[q]? = some old ∧ ¬ old.1 < t := by
  induction files generalizing sw with
  | nil => exact Or.inr ⟨hq, nofun⟩
  | cons file rest ih =>
    obtain ⟨path, stat⟩ := file
    cases stat with
    | time t =>
      have hrest := ih (sw.visit true path t).2 (List.Pairwise.of_cons h) hq
      rw [sighted_cons]
      by_cases hpath : path = q
      · subst hpath
        rw [if_pos rfl]
        rcases hrest with hagain | ⟨hvisit, -⟩
        · rw [h.sighted_rest hagain]
          exact Or.inl rfl
        · rcases fast_visit_total sw path t hvisit with ⟨-, ht⟩ | ⟨hold, hnewer⟩
          · rw [ht]
            exact Or.inl rfl
          · refine Or.inr ⟨hold, fun t' ht' => ?_⟩
            obtain rfl := Option.some_inj.mp ht'
            exact hnewer rfl
      · rw [if_neg hpath]
        refine hrest.imp_right fun ⟨hvisit, hnewer⟩ => ?_
        have hsame : (sw.visit true path t).2.timestamps[q]? = sw.timestamps[q]? :=
          (map_visit sw true path t q).trans (if_neg hpath)
        rw [hsame] at hnewer
        rcases fast_visit_total sw path t hvisit with ⟨heq, -⟩ | ⟨hold, -⟩
        · exact absurd heq hpath
        · exact ⟨hold, hnewer⟩
    | notFound => exact Or.inr ⟨hq, nofun⟩
    | failed => exact Or.inr ⟨hq, nofun⟩

end Scan

/-- What a sweep leaves in its maps, its scan has left there. -/
theorem sweep_maps {sw sw' : FilesystemSweeper} {s : Surroundings}
    (h : (sw.sweep s).2 = some sw') :
    (∀ (q : FilePath) (pair : FileTime × UInt64), sw'.timestamps[q]? = some pair →
      (scan s.total sw (sw.paths s)).2.1.timestamps[q]? = some pair) ∧
    ∀ (q : FilePath) (pair : FileTime × UInt64), sw'.fastTrackTimestamps[q]? = some pair →
      (scan s.total sw (sw.paths s)).2.1.fastTrackTimestamps[q]? = some pair := by
  have herase {m : TimeMap} {ps : List FilePath} {q : FilePath} {pair : FileTime × UInt64}
      (hq : (eraseAll m ps)[q]? = some pair) : m[q]? = some pair := by
    rw [getElem?_eraseAll] at hq
    split at hq
    · cases hq
    · exact hq
  rw [sweep_eq] at h
  split at h
  · cases h
  · obtain rfl := Option.some_inj.mp h
    exact ⟨fun q pair hq => herase hq, fun q pair hq => herase (herase hq)⟩
  · obtain rfl := Option.some_inj.mp h
    exact ⟨fun q pair hq => herase hq, fun q pair hq => herase (herase hq)⟩

/-- A sweep reports as modified what its scan does. -/
theorem modified_mem_sweep (sw : FilesystemSweeper) (s : Surroundings) (q : FilePath) :
    .modified q ∈ (sw.sweep s).1 ↔ .modified q ∈ (scan s.total sw (sw.paths s)).1 := by
  constructor
  · intro h
    rcases mem_sweep h with h | h | ⟨h, -⟩
    · exact h
    · cases h
    · cases h
  · exact mem_sweep_of_scan

/-! ## What was seen -/

/-- A sweeper, and for each path the time at which a sweep, and a total sweep, last saw it. -/
structure Watch where
  sweeper : FilesystemSweeper := {}
  seen : FilePath → Option FileTime := fun _ => none
  seenTotal : FilePath → Option FileTime := fun _ => none

namespace Watch

/-- What the sweep sees. -/
def sees (w : Watch) (s : Surroundings) : FilePath → Option FileTime :=
  sighted (w.sweeper.paths s)

/-- One more sweep, unless an exception leaves it. -/
def next (w : Watch) (s : Surroundings) : Option Watch :=
  (w.sweeper.sweep s).2.map fun sweeper => {
    sweeper
    seen p := (w.sees s p).or (w.seen p)
    seenTotal p := if s.total then (w.sees s p).or (w.seenTotal p) else w.seenTotal p }

/-- No file vanishes during the sweep, and none changes between two looks at it. -/
structure Quiet (w : Watch) (s : Surroundings) : Prop where
  present : ∀ file ∈ w.sweeper.paths s, file.2 ≠ .notFound
  steady : Steady (w.sweeper.paths s)

/-- A tracked file that the sweep sees is reported as modified exactly if its time is not the one
last seen. -/
def Exact (w : Watch) (s : Surroundings) : Prop :=
  ∀ p t seen, w.sees s p = some t → p ∈ w.sweeper.timestamps → w.seen p = some seen →
    (.modified p ∈ (w.sweeper.sweep s).1 ↔ t ≠ seen)

/-- No file that the fast track sees is older than last seen, and what a total sweep sees is newer
than the total sweep before saw it exactly if it has changed since it was last seen. -/
def Kept (w : Watch) (s : Surroundings) : Prop :=
  ∀ p t seen seenTotal, w.sees s p = some t → p ∈ w.sweeper.timestamps → w.seen p = some seen →
    w.seenTotal p = some seenTotal →
    if s.total then seenTotal < t ↔ t ≠ seen else seen ≤ t

/-- The times in the maps are those seen: by total sweeps in the one, by either in the other. -/
structure Informed (w : Watch) : Prop where
  total : ∀ (p : FilePath) (pair : FileTime × UInt64), w.sweeper.timestamps[p]? = some pair →
    w.seenTotal p = some pair.1
  fast : ∀ (p : FilePath) (pair : FileTime × UInt64),
    w.sweeper.fastTrackTimestamps[p]? = some pair → w.seen p = some pair.1

variable {w w' : Watch} {s : Surroundings}

theorem informed_empty : Informed {} :=
  ⟨fun p pair h => by simp at h, fun p pair h => by simp at h⟩

/-- What the fast track sees is in its map. -/
theorem fast_of_sees (htotal : s.total = false) {p : FilePath} {t : FileTime}
    (h : w.sees s p = some t) : ∃ pair, w.sweeper.fastTrackTimestamps[p]? = some pair := by
  have hmem := mem_of_sighted h
  rw [paths, if_neg (by simp [htotal])] at hmem
  obtain ⟨path, hpath, heq⟩ := List.mem_map.mp hmem
  obtain rfl : path = p := congrArg Prod.fst heq
  exact mem_iff_exists.mp (Std.TreeMap.mem_keys.mp hpath)

/-- What a sweep reports as modified, in terms of the times seen. -/
theorem Informed.modified_iff (hw : Informed w) (hquiet : Quiet w s) {p : FilePath}
    {t seen seenTotal : FileTime} (hsees : w.sees s p = some t)
    (hp : p ∈ w.sweeper.timestamps) (hseen : w.seen p = some seen)
    (hseenTotal : w.seenTotal p = some seenTotal) :
    .modified p ∈ (w.sweeper.sweep s).1 ↔ (if s.total then seenTotal else seen) < t := by
  have hentry : ∃ pair, (w.sweeper.map s.total)[p]? = some pair ∧
      pair.1 = if s.total then seenTotal else seen := by
    cases htotal : s.total with
    | true =>
      obtain ⟨pair, hpair⟩ := mem_iff_exists.mp hp
      exact ⟨pair, hpair, Option.some_inj.mp ((hw.total p pair hpair).symm.trans hseenTotal)⟩
    | false =>
      obtain ⟨pair, hpair⟩ := fast_of_sees htotal hsees
      exact ⟨pair, hpair, Option.some_inj.mp ((hw.fast p pair hpair).symm.trans hseen)⟩
  obtain ⟨pair, hpair, htime⟩ := hentry
  rw [modified_mem_sweep, modified_mem_scan _ hquiet.steady, ← htime]
  constructor
  · intro ⟨t', hsees', pair', hpair', hlt⟩
    obtain rfl := Option.some_inj.mp (hsees.symm.trans hsees')
    obtain rfl := Option.some_inj.mp (hpair.symm.trans hpair')
    exact hlt
  · intro hlt
    exact ⟨t, hsees, pair, hpair, hlt⟩

/-- **One sweep.** -/
theorem Informed.exact_iff_kept (hw : Informed w) (hquiet : Quiet w s) : Exact w s ↔ Kept w s := by
  have hat {p : FilePath} {t seen seenTotal : FileTime} (hsees : w.sees s p = some t)
      (hp : p ∈ w.sweeper.timestamps) (hseen : w.seen p = some seen)
      (hseenTotal : w.seenTotal p = some seenTotal) :
      (.modified p ∈ (w.sweeper.sweep s).1 ↔ t ≠ seen) ↔
        if s.total then seenTotal < t ↔ t ≠ seen else seen ≤ t := by
    rw [hw.modified_iff hquiet hsees hp hseen hseenTotal]
    cases s.total with
    | true => exact Iff.rfl
    | false =>
      rw [if_neg Bool.false_ne_true, if_neg Bool.false_ne_true]
      constructor
      · intro hiff
        by_contra hle
        exact hle (hiff.mpr (not_le.mp hle).ne).le
      · intro hle
        exact ⟨fun hlt => hlt.ne', fun hne => lt_of_le_of_ne hle hne.symm⟩
  constructor
  · intro h p t seen seenTotal hsees hp hseen hseenTotal
    exact (hat hsees hp hseen hseenTotal).mp (h p t seen hsees hp hseen)
  · intro h p t seen hsees hp hseen
    obtain ⟨pair, hpair⟩ := mem_iff_exists.mp hp
    have hseenTotal := hw.total p pair hpair
    exact (hat hsees hp hseen hseenTotal).mpr (h p t seen pair.1 hsees hp hseen hseenTotal)

/-- Reports that are exact leave the times of what was seen. -/
theorem Informed.next (hw : Informed w) (hquiet : Quiet w s) (hexact : Exact w s)
    (h : w.next s = some w') : Informed w' := by
  obtain ⟨sweeper, hsweep, rfl⟩ := Option.map_eq_some_iff.mp h
  obtain ⟨htotal, hfast⟩ := sweep_maps hsweep
  -- The entry of the map the sweep goes by has the time that it sees, or else the old one.
  have hmap (p : FilePath) (pair : FileTime × UInt64)
      (hpair : ((scan s.total w.sweeper (w.sweeper.paths s)).2.1.map s.total)[p]? = some pair) :
      w.sees s p = some pair.1 ∨
        w.sees s p = none ∧ (w.sweeper.map s.total)[p]? = some pair := by
    rw [scan_map _ hquiet.steady] at hpair
    change ((w.sees s p).map _).or _ = some pair at hpair
    cases hsees : w.sees s p with
    | none =>
      rw [hsees] at hpair
      exact Or.inr ⟨rfl, hpair⟩
    | some t =>
      rw [hsees] at hpair
      obtain rfl := Option.some_inj.mp hpair
      exact Or.inl rfl
  constructor
  · intro p pair hp
    have hscan := htotal p pair hp
    show (if s.total then (w.sees s p).or (w.seenTotal p) else w.seenTotal p) = some pair.1
    cases hkind : s.total with
    | true =>
      rw [hkind] at hmap hscan
      rcases hmap p pair hscan with hsees | ⟨hsees, hold⟩
      · rw [hsees]
        rfl
      · rw [hsees]
        exact hw.total p pair hold
    | false =>
      rw [hkind, timestamps_scan_fast] at hscan
      exact hw.total p pair hscan
  · intro p pair hp
    have hscan := hfast p pair hp
    show (w.sees s p).or (w.seen p) = some pair.1
    cases hkind : s.total with
    | true =>
      rw [hkind] at hscan
      rcases fast_scan_total w.sweeper hquiet.steady hscan with hsees | ⟨hold, hnewer⟩
      · rw [show w.sees s p = some pair.1 from hsees]
        rfl
      · have hseen := hw.fast p pair hold
        cases hsees : w.sees s p with
        | none => exact hseen
        | some t =>
          -- It is not reported, so it has not changed.
          obtain ⟨old, hentry, hle⟩ := hnewer t hsees
          have hmem := mem_iff_exists.mpr ⟨old, hentry⟩
          have hnot := mt (hw.modified_iff hquiet hsees hmem hseen (hw.total p old hentry)).mp
            (by rw [hkind]; exact hle)
          have hsame := not_not.mp (mt (hexact p t pair.1 hsees hmem hseen).mpr hnot)
          rw [hsame]
          rfl
    | false =>
      rw [hkind] at hmap hscan
      rcases hmap p pair hscan with hsees | ⟨hsees, hold⟩
      · rw [hsees]
        rfl
      · rw [hsees]
        exact hw.fast p pair hold

/-- **Which modifications are reported.** In every run of sweeps in which no file vanishes during
a sweep, all sweeps report exactly the files that have changed since the last of them saw them, if
and only if none finds a file older on the fast track, and total sweeps find newer than the last
total sweep exactly what has changed. -/
theorem exact_iff {sweeps : List Surroundings} (h : Along Watch.next Quiet {} sweeps) :
    Along Watch.next Exact {} sweeps ↔ Along Watch.next Kept {} sweeps :=
  Along.congr informed_empty (fun _ _ hw hquiet => hw.exact_iff_kept hquiet)
    (fun _ _ _ hw hquiet hexact hnext => hw.next hquiet hexact hnext) h

/-! ## A file that the fast track sees first -/

/-- A total sweep that finds one file, a second after the epoch. -/
def listed (t : FileTime) : Surroundings where
  total := true
  listing := [([[97]], .time t)]
  stat _ := .notFound
  now := 1000000000

/-- A sweep of the fast track that finds every file, at the same time. -/
def fastListed (t : FileTime) : Surroundings where
  total := false
  listing := []
  stat _ := .time t
  now := 1000000000

/-- The sweeper has found a new file, -/
def afterFound : Watch := (next {} (listed 0)).getD {}

/-- and then the file was modified. -/
def afterModified : Watch := (afterFound.next (fastListed 5)).getD {}

theorem next_found : next {} (listed 0) = some afterFound := rfl

theorem next_modified : afterFound.next (fastListed 5) = some afterModified := rfl

/-- A file that is modified once, and that a total sweep sees first. -/
theorem exact_modified : Along Watch.next Exact {} [listed 0, listed 5] := by
  have hquiet : Along Watch.next Quiet {} [listed 0, listed 5] := by
    refine (Along.cons_iff next_found).mpr ⟨⟨by decide, by decide⟩, ?_⟩
    exact ⟨⟨by decide, by decide⟩, fun _ _ => trivial⟩
  refine (exact_iff hquiet).mpr ?_
  refine (Along.cons_iff next_found).mpr ⟨fun p t seen _ _ _ hseen => (nomatch hseen), ?_⟩
  refine ⟨fun p t seen seenTotal hsees _ hseen hseenTotal => ?_, fun _ _ => trivial⟩
  by_cases hp : [[97]] = p
  · subst hp
    obtain rfl : 5 = t := Option.some_inj.mp hsees
    obtain rfl : 0 = seen := Option.some_inj.mp hseen
    obtain rfl : 0 = seenTotal := Option.some_inj.mp hseenTotal
    decide
  · have hnone : afterFound.sees (listed 5) p = none := if_neg hp
    rw [hnone] at hsees
    cases hsees

/-- A modification that the fast track has reported, the next total sweep reports again. -/
theorem reported_twice : ¬ ∀ sweeps, Along Watch.next Quiet {} sweeps →
    Along Watch.next Exact {} sweeps := by
  intro h
  have hquiet : Along Watch.next Quiet {} [listed 0, fastListed 5, listed 5] := by
    refine (Along.cons_iff next_found).mpr ⟨⟨by decide, by decide⟩, ?_⟩
    refine (Along.cons_iff next_modified).mpr ⟨⟨by decide, by decide⟩, ?_⟩
    exact ⟨⟨by decide, by decide⟩, fun _ _ => trivial⟩
  have hexact := (Along.cons_iff next_found).mp (h _ hquiet)
  have hlast := ((Along.cons_iff next_modified).mp hexact.2).2.1
  exact (hlast [[97]] 5 5 rfl (by decide) rfl).mp (by decide) rfl

end Watch

end FilesystemSweeper

end WhisperNet
