import WhisperNet.Lib.Run
import WhisperNet.Sweeper
import Mathlib.Data.List.TakeWhile

/-!
# Which deletions are real

The scan ends at the first file that has vanished since it was listed. The files after it keep the
counter of an earlier sweep, and are reported as deleted like the one that vanished.

* `run_counters` — every counter is from an earlier sweep, in every reachable state.
* `deletions_sound_iff` — a sweep reports only missing files as deleted exactly when none of the
  tracked files it does not get to is there.
-/

namespace WhisperNet

namespace FilesystemSweeper

/-! ## Runs of sweeps -/

/-- One sweep that no exception leaves. -/
def SweepStep (sw sw' : FilesystemSweeper) : Prop := ∃ s, (sw.sweep s).2 = some sw'

/-- Every counter is below `n`. -/
def Below (n : Nat) (m : TimeMap) : Prop :=
  ∀ (q : FilePath) (pair : FileTime × UInt64), m[q]? = some pair → pair.2.toNat < n

/-- Entries of `m'` carry the iteration, unless `m` has them too. -/
def Renewed (iteration : UInt64) (m m' : TimeMap) : Prop :=
  ∀ (q : FilePath) (pair : FileTime × UInt64), m'[q]? = some pair →
    pair.2 = iteration ∨ m[q]? = some pair

theorem Renewed.refl (iteration : UInt64) (m : TimeMap) : Renewed iteration m m :=
  fun _ _ h => Or.inr h

theorem Renewed.trans {iteration : UInt64} {m m' m'' : TimeMap} (h : Renewed iteration m m')
    (h' : Renewed iteration m' m'') : Renewed iteration m m'' := by
  intro q pair hq
  rcases h' q pair hq with hq | hq
  · exact Or.inl hq
  · exact h q pair hq

theorem Renewed.insert (iteration : UInt64) (m : TimeMap) (p : FilePath) (t : FileTime) :
    Renewed iteration m (m.insert p (t, iteration)) := by
  intro q pair hq
  rw [getElem?_insert_map] at hq
  by_cases hp : p = q
  · rw [if_pos hp, Option.some_inj] at hq
    exact Or.inl (hq ▸ rfl)
  · rw [if_neg hp] at hq
    exact Or.inr hq

theorem Renewed.erase {iteration : UInt64} {m m' : TimeMap} (h : Renewed iteration m m')
    (ps : List FilePath) : Renewed iteration m (eraseAll m' ps) := by
  intro q pair hq
  rw [getElem?_eraseAll] at hq
  by_cases hp : q ∈ ps
  · rw [if_pos hp] at hq
    cases hq
  · rw [if_neg hp] at hq
    exact h q pair hq

theorem Renewed.below {n : Nat} {iteration : UInt64} {m m' : TimeMap}
    (h : Renewed iteration m m') (hm : Below n m) (hi : iteration.toNat ≤ n) :
    Below (n + 1) m' := by
  intro q pair hq
  rcases h q pair hq with hpair | hpair
  · rw [hpair]
    exact Nat.lt_succ_of_le hi
  · exact Nat.lt_succ_of_lt (hm q pair hpair)

section Renewing

variable (sw : FilesystemSweeper) (total : Bool)

theorem visit_renewed (path : FilePath) (t : FileTime) :
    Renewed sw.iteration sw.timestamps (sw.visit total path t).2.timestamps ∧
      Renewed sw.iteration sw.fastTrackTimestamps
        (sw.visit total path t).2.fastTrackTimestamps := by
  have htotal := Renewed.insert sw.iteration sw.timestamps path t
  have hfast := Renewed.insert sw.iteration sw.fastTrackTimestamps path t
  have htwice := hfast.trans
    (Renewed.insert sw.iteration (sw.fastTrackTimestamps.insert path (t, sw.iteration)) path t)
  unfold visit
  split
  · cases total
    · exact ⟨.refl _ _, htwice⟩
    · exact ⟨htotal, hfast⟩
  · dsimp only
    split <;> cases total
    · exact ⟨.refl _ _, htwice⟩
    · exact ⟨htotal, hfast⟩
    · exact ⟨.refl _ _, hfast⟩
    · exact ⟨htotal, .refl _ _⟩

theorem scan_renewed (files : List (FilePath × Stat)) :
    Renewed sw.iteration sw.timestamps (scan total sw files).2.1.timestamps ∧
      Renewed sw.iteration sw.fastTrackTimestamps
        (scan total sw files).2.1.fastTrackTimestamps := by
  induction files generalizing sw with
  | nil => exact ⟨.refl _ _, .refl _ _⟩
  | cons file rest ih =>
    obtain ⟨path, stat⟩ := file
    cases stat with
    | time t =>
      obtain ⟨htotal, hfast⟩ := visit_renewed sw total path t
      obtain ⟨htotal', hfast'⟩ := ih (sw.visit total path t).2
      rw [iteration_visit] at htotal' hfast'
      exact ⟨htotal.trans htotal', hfast.trans hfast'⟩
    | notFound => exact ⟨.refl _ _, .refl _ _⟩
    | failed => exact ⟨.refl _ _, .refl _ _⟩

end Renewing

/-- One sweep renews counters and moves to the next iteration. -/
theorem sweep_renewed {sw sw' : FilesystemSweeper} {s : Surroundings}
    (h : (sw.sweep s).2 = some sw') :
    Renewed sw.iteration sw.timestamps sw'.timestamps ∧
      Renewed sw.iteration sw.fastTrackTimestamps sw'.fastTrackTimestamps ∧
      sw'.iteration = sw.iteration + 1 := by
  obtain ⟨htotal, hfast⟩ := scan_renewed sw s.total (sw.paths s)
  have hiteration := iteration_scan s.total sw (sw.paths s)
  rw [sweep_eq] at h
  cases hend : scanEnd (sw.paths s) with
  | rethrown => rw [hend] at h; cases h
  | finished =>
    rw [hend] at h
    obtain rfl := Option.some.inj h
    exact ⟨htotal.erase _, (hfast.erase _).erase _, congrArg (· + 1) hiteration⟩
  | vanished path =>
    rw [hend] at h
    obtain rfl := Option.some.inj h
    exact ⟨htotal.erase _, (hfast.erase _).erase _, congrArg (· + 1) hiteration⟩

/-- **Counters.** After `n` sweeps the iteration is `n`, and every counter is below it. -/
theorem run_counters {n : Nat} {sw : FilesystemSweeper} (run : Run SweepStep n {} sw) :
    sw.iteration = UInt64.ofNat n ∧ Below n sw.timestamps ∧ Below n sw.fastTrackTimestamps := by
  generalize hstart : ({} : FilesystemSweeper) = start at run
  induction run with
  | nil =>
    subst hstart
    exact ⟨rfl, fun q pair hq => by simp at hq, fun q pair hq => by simp at hq⟩
  | @snoc n _ t u run last ih =>
    obtain ⟨hiteration, htotal, hfast⟩ := ih hstart
    obtain ⟨s, hs⟩ := last
    obtain ⟨htotal', hfast', hiteration'⟩ := sweep_renewed hs
    have hle : t.iteration.toNat ≤ n := by
      rw [hiteration, UInt64.toNat_ofNat']
      exact Nat.mod_le _ _
    refine ⟨?_, htotal'.below htotal hle, hfast'.below hfast hle⟩
    rw [hiteration', hiteration, UInt64.ofNat_add]
    rfl

/-- Before the iteration wraps around, a sweep knows every counter for an earlier one. -/
theorem stale_of_run {n : Nat} {sw : FilesystemSweeper} (hn : n < 2 ^ 64)
    (run : Run SweepStep n {} sw) (total : Bool) {q : FilePath} {pair : FileTime × UInt64}
    (hq : (sw.map total)[q]? = some pair) : pair.2 ≠ sw.iteration := by
  obtain ⟨hiteration, htotal, hfast⟩ := run_counters run
  have hbelow : pair.2.toNat < n := by
    cases total with
    | false => exact hfast q pair hq
    | true => exact htotal q pair hq
  intro heq
  rw [heq, hiteration, UInt64.toNat_ofNat_of_lt' hn] at hbelow
  exact absurd hbelow (Nat.lt_irrefl n)

/-! ## Soundness -/

/-- The sweep finds no file under the path when it looks for it: the path is not listed, or gone
when its turn comes. -/
def Missing (files : List (FilePath × Stat)) (q : FilePath) : Prop :=
  files.lookup q = none ∨ files.lookup q = some .notFound

/-- Only tracked paths without a file are reported as deleted. -/
def SoundDeletions (sw : FilesystemSweeper) (s : Surroundings) : Prop :=
  ∀ q, .deleted q ∈ (sw.sweep s).1 → q ∈ sw.map s.total ∧ Missing (sw.paths s) q

/-- When the scan ends at a vanished file, every tracked path it has not come to is missing as
well. -/
def OthersMissing (sw : FilesystemSweeper) (s : Surroundings) : Prop :=
  ∀ before p after, sw.paths s = before ++ (p, .notFound) :: after →
    (∀ file ∈ before, file.2.isTime) →
    ∀ q ∈ sw.map s.total, q ∉ before.map Prod.fst → Missing (sw.paths s) q

/-- What is scanned and how the scan ends, where it meets a file without a time. -/
theorem scanned_append {before : List (FilePath × Stat)} (after : List (FilePath × Stat))
    (p : FilePath) {stat : Stat}
    (hbefore : ∀ file ∈ before, file.2.isTime) (hstat : stat.isTime = false) :
    scanned (before ++ (p, stat) :: after) = before.map Prod.fst ∧
      (before ++ (p, stat) :: after).dropWhile (fun file => file.2.isTime) =
        (p, stat) :: after := by
  constructor
  · rw [scanned, List.takeWhile_append_of_pos hbefore, List.takeWhile_cons_of_neg (by simp [hstat]),
      List.append_nil]
  · rw [List.dropWhile_append_of_pos hbefore, List.dropWhile_cons_of_neg (by simp [hstat])]

/-- Where the scan stops: it reads all paths before, and no time of that one. -/
theorem exists_split {files : List (FilePath × Stat)} {p : FilePath}
    (h : scanEnd files = .vanished p) : ∃ before after, files = before ++ (p, .notFound) :: after ∧
      ∀ file ∈ before, file.2.isTime := by
  have htimes : ∀ file ∈ files.takeWhile fun file => file.2.isTime, file.2.isTime := by
    intro file hfile
    exact List.mem_takeWhile_imp (p := fun file : FilePath × Stat => file.2.isTime) hfile
  refine ⟨_, (files.dropWhile fun file => file.2.isTime).tail, ?_, htimes⟩
  unfold scanEnd at h
  split at h
  · cases h
  · rename_i path rest hdrop
    cases h
    rw [hdrop, List.tail_cons, ← hdrop, List.takeWhile_append_dropWhile]
  · cases h

/-- A scan that finishes reads every path. -/
theorem scanned_of_finished {files : List (FilePath × Stat)} (h : scanEnd files = .finished) :
    scanned files = files.map Prod.fst := by
  unfold scanEnd at h
  split at h
  · rename_i hdrop
    rw [scanned, List.takeWhile_eq_self_iff.mpr (List.dropWhile_eq_nil_iff.mp hdrop)]
  · cases h
  · cases h

theorem missing_of_not_mem {files : List (FilePath × Stat)} {q : FilePath}
    (h : q ∉ files.map Prod.fst) : Missing files q := by
  refine Or.inl (List.lookup_eq_none_iff.mpr fun file hfile => ?_)
  exact bne_iff_ne.mpr fun heq => h (List.mem_map.mpr ⟨file, hfile, heq.symm⟩)

/-- **Which deletions are real.** In every state that sweeps reach, a sweep reports only missing
files as deleted if, whenever a vanished file ends its scan, the tracked files it has not come to
are missing as well; before the iteration wraps around, only if. -/
theorem deletions_sound_iff {n : Nat} {sw : FilesystemSweeper} (run : Run SweepStep n {} sw)
    (s : Surroundings) : (OthersMissing sw s → SoundDeletions sw s) ∧
      (n < 2 ^ 64 → SoundDeletions sw s → OthersMissing sw s) := by
  constructor
  · intro hothers q hdeleted
    obtain ⟨hend, hscanned, pair, hpair, -⟩ := (mem_deleted_iff sw s q).mp hdeleted
    have hmem : q ∈ sw.map s.total := mem_iff_exists.mpr ⟨pair, hpair⟩
    refine ⟨hmem, ?_⟩
    cases h : scanEnd (sw.paths s) with
    | rethrown => exact absurd h hend
    | finished =>
      rw [scanned_of_finished h] at hscanned
      exact missing_of_not_mem hscanned
    | vanished p =>
      obtain ⟨before, after, hsplit, hbefore⟩ := exists_split h
      rw [hsplit, (scanned_append after p hbefore rfl).1] at hscanned
      exact hothers before p after hsplit hbefore q hmem hscanned
  · intro hn hsound before p after hsplit hbefore q hmem hq
    obtain ⟨hscanned, hdrop⟩ := scanned_append after p hbefore (rfl : Stat.notFound.isTime = false)
    obtain ⟨pair, hpair⟩ := mem_iff_exists.mp hmem
    refine (hsound q ((mem_deleted_iff sw s q).mpr ⟨?_, ?_, pair, hpair, ?_⟩)).2
    · rw [hsplit, scanEnd, hdrop]
      exact fun h => nomatch h
    · rw [hsplit, hscanned]
      exact hq
    · exact stale_of_run hn run s.total hpair

/-! ## Two files -/

/-- A total sweep that finds two files, a second after the epoch. -/
def found (a b : Stat) : Surroundings where
  total := true
  listing := [([[97]], a), ([[98]], b)]
  stat _ := .notFound
  now := 1000000000

/-- The sweeper that has found `a` and `b`. -/
def tracking : FilesystemSweeper :=
  (({} : FilesystemSweeper).sweep (found (.time 0) (.time 0))).2.getD {}

theorem run_tracking : Run SweepStep 1 {} tracking :=
  .snoc (.nil _) ⟨found (.time 0) (.time 0), rfl⟩

/-- Both files still there: nothing is reported as deleted that is. -/
theorem tracking_sound : SoundDeletions tracking (found (.time 0) (.time 0)) := by
  refine (deletions_sound_iff run_tracking (found (.time 0) (.time 0))).1 ?_
  intro before p after hsplit
  have hmem : (p, Stat.notFound) ∈ tracking.paths (found (.time 0) (.time 0)) := by
    rw [hsplit]
    exact List.mem_append_right _ List.mem_cons_self
  revert hmem
  simp [paths, found]

/-- `a` vanishes after it was listed: `b` is reported as deleted and there. -/
theorem vanished_a_deletes_b : ∃ n sw s, Run SweepStep n {} sw ∧
    .deleted [[98]] ∈ (sw.sweep s).1 ∧ (sw.paths s).lookup [[98]] = some (.time 0) :=
  ⟨1, tracking, found .notFound (.time 0), run_tracking, by decide, by decide⟩

end FilesystemSweeper

end WhisperNet
