import WhisperNet.LockStability
import Mathlib.Data.List.MinMax
import Mathlib.Data.List.Permutation

/-!
# Lock agreement

Who has locked a file, after a node has processed some locks of it: the originator of the earliest,
and if several are equally early, of the one it processed first. Two nodes that processed the same
locks in different orders may therefore disagree.

* `lock_winner_step` — processing one more lock.
* `owner_eq` — the owner once all of them have been processed.
* `lock_agreement` — when two nodes agree.
-/

namespace WhisperNet

open Bin Fs

namespace Node

/-- Who has locked `p`. -/
def owner? (host : Host) (p : FilePath) (n : Node) : Option IpAddress :=
  (n.lock? host p).map fun lock => lock.1.originatorNode

/-- The time a lock was taken at. -/
def lockTime (m : FileMessage) : Int := m.timestamp.toInt

/-- The originator of the first of the earliest locks. -/
noncomputable def firstEarliest (ms : List FileMessage) : Option IpAddress :=
  (ms.argmin lockTime).map fun m => m.originatorNode

/-- Both name the same owner. -/
def Agree (owner owner' : Option IpAddress) : Prop := ∃ ip, owner = some ip ∧ owner' = some ip

/-- A lock of `p` as it comes off the wire, the timestamp in whole seconds. -/
structure LockOf (p : FilePath) (m : FileMessage) : Prop where
  target : filePath m.targetFile = p
  fits : PathFits m.targetFile
  whole : truncateSeconds m.timestamp = m.timestamp

/-- The node has finished connecting, and the file is there and not locked. -/
structure Unlocked (env : Setting) (p : FilePath) (n : Node) : Prop where
  connected : n.isFinishedConnecting = true
  file : ∃ f, n.files.file? p = some f
  free : LockState env.host.platform n.files p none

/-- The locks are processed in this order. -/
def ProcessesLocks (env : Setting) (n : Node) (ms : List FileMessage) (n' : Node) : Prop :=
  Trace (Handled env) n (ms.map fun m => (.lock m, true)) n'

/-! ## Who wins -/

/-- The node has the file, locked by `winner` if there is one. -/
structure Holds (env : Setting) (p : FilePath) (winner : Option FileMessage) (n : Node) :
    Prop where
  connected : n.isFinishedConnecting = true
  file : ∃ f, n.files.file? p = some f
  free : winner = none → n.files.file? (lockFilePath p) = none
  held : ∀ m ∈ winner, LockOf p m ∧ ∃ s, n.lock? env.host p = some (m.received, s)

section Winner

variable {env : Setting} {n n' : Node} {p : FilePath} {m : FileMessage}
  {winner : Option FileMessage}

theorem holds_none (h : Unlocked env p n) : Holds env p none n where
  connected := h.connected
  file := h.file
  free _ := h.free.1
  held _ hm := nomatch hm

/-- The lock has been written: it is the winner now. -/
theorem holds_written {files : FileSystem} {s : Perms} {fs : FileSystem} (hp : Managed p)
    (hm : LockOf p m) (hconnected : n.isFinishedConnecting = true) {f : File}
    (hf : fs.file? p = some f) (hwritten : LockWritten env.host m p s fs files) :
    Holds env p (some m) { n with files } where
  connected := hconnected
  file := ⟨f, (hwritten.frame p (lockFilePath_ne hp)).trans hf⟩
  free := nofun
  held m' hm' := by
    obtain rfl := Option.some_inj.mp hm'
    exact ⟨hm, s, hwritten.record⟩

/-- **One more lock** wins if it is earlier than the winner so far. -/
theorem lock_winner_step (hp : Managed p) (h : Holds env p winner n) (hm : LockOf p m)
    (hstep : Handled env n (.lock m, true) n') :
    Holds env p (List.argAux (fun b c => lockTime b < lockTime c) winner m) n' := by
  obtain ⟨f, hf⟩ := h.file
  obtain ⟨files, hrun, rfl⟩ := handled_lock hstep
  rw [h.connected] at hrun
  obtain ⟨-, hdone⟩ := processLockMessage_ok hm.target hm.fits hf hrun
  cases winner with
  | none =>
    rcases hdone with ⟨-, fs₁, hset, hwritten⟩ | ⟨oldLock, oldPerms, hold, -⟩
    · exact holds_written hp hm h.connected hset.here hwritten
    · obtain ⟨g, hg⟩ := file?_of_lockRecord hold
      rw [h.free rfl] at hg
      cases hg
  | some old =>
    obtain ⟨hlockOf, s, hlock⟩ := h.held old rfl
    rcases hdone with ⟨hfree, -⟩ | ⟨oldLock, oldPerms, hold, hdone⟩
    · obtain ⟨g, hg⟩ := file?_of_lockRecord hlock
      rw [hfree] at hg
      cases hg
    · obtain ⟨rfl, rfl⟩ := Prod.mk.inj (Option.some_inj.mp (hlock.symm.trans hold))
      have htime : old.received.timestamp = old.timestamp := hlockOf.whole
      rw [htime] at hdone
      by_cases hearlier : m.timestamp < old.timestamp
      · rw [if_pos hearlier] at hdone
        have hwins : List.argAux (fun b c => lockTime b < lockTime c) (some old) m = some m :=
          if_pos (Int64.lt_iff_toInt_lt.mp hearlier)
        rw [hwins]
        exact holds_written hp hm h.connected hf hdone
      · rw [if_neg hearlier] at hdone
        subst hdone
        have hloses : List.argAux (fun b c => lockTime b < lockTime c) (some old) m = some old :=
          if_neg fun hlt => hearlier (Int64.lt_iff_toInt_lt.mpr hlt)
        rw [hloses]
        exact h

theorem holds_foldl (hp : Managed p) {ms : List FileMessage} (h : Holds env p winner n)
    (hms : ∀ m ∈ ms, LockOf p m) (run : ProcessesLocks env n ms n') :
    Holds env p (ms.foldl (List.argAux fun b c => lockTime b < lockTime c) winner) n' := by
  unfold ProcessesLocks at run
  induction ms generalizing winner n with
  | nil =>
    cases run
    exact h
  | cons m ms ih =>
    cases run with
    | cons hfirst hrest =>
      have hnext := lock_winner_step hp h (hms m List.mem_cons_self) hfirst
      exact ih hnext (fun m' hm' => hms m' (List.mem_cons_of_mem m hm')) hrest

/-- **The owner** is the originator of the first of the earliest locks. -/
theorem owner_eq (hp : Managed p) {ms : List FileMessage} (h : Unlocked env p n)
    (hms : ∀ m ∈ ms, LockOf p m) (run : ProcessesLocks env n ms n') :
    n'.owner? env.host p = firstEarliest ms := by
  have hholds : Holds env p (ms.argmin lockTime) n' := holds_foldl hp (holds_none h) hms run
  unfold owner? firstEarliest
  cases hmin : ms.argmin lockTime with
  | none =>
    rw [hmin] at hholds
    rw [lock?, lockRecord, hholds.free rfl]
    rfl
  | some m =>
    rw [hmin] at hholds
    obtain ⟨-, s, hlock⟩ := hholds.held m rfl
    rw [hlock]
    rfl

end Winner

/-! ## Agreement -/

/-- If the earliest locks have one originator, the order does not matter. -/
theorem firstEarliest_eq {ms ms' : List FileMessage} (hperm : ms.Perm ms') (hne : ms ≠ [])
    (hone : ∀ m ∈ ms, ∀ m' ∈ ms, (∀ o ∈ ms, lockTime m ≤ lockTime o) →
      (∀ o ∈ ms, lockTime m' ≤ lockTime o) → m.originatorNode = m'.originatorNode) :
    Agree (firstEarliest ms) (firstEarliest ms') := by
  have hne' : ms' ≠ [] := by
    rintro rfl
    exact hne hperm.eq_nil
  have hmin : ∀ l : List FileMessage, l ≠ [] → ∃ m, l.argmin lockTime = some m := by
    intro l hl
    exact Option.ne_none_iff_exists'.mp fun h => hl (List.argmin_eq_none.mp h)
  obtain ⟨m, hm⟩ := hmin ms hne
  obtain ⟨m', hm'⟩ := hmin ms' hne'
  refine ⟨m.originatorNode, ?_, ?_⟩
  · rw [firstEarliest, hm]
    rfl
  · rw [firstEarliest, hm', Option.map_some, Option.some_inj]
    refine (hone m (List.argmin_mem hm) m' (hperm.mem_iff.mpr (List.argmin_mem hm')) ?_ ?_).symm
    · exact fun o ho => List.le_of_mem_argmin ho hm
    · exact fun o ho => List.le_of_mem_argmin (hperm.mem_iff.mp ho) hm'

/-- **Lock agreement.** Two nodes that have processed the same locks agree on the owner exactly if
the first of the earliest locks has the same originator in either order; so they do, whatever the
orders, if all of the earliest locks have. -/
theorem lock_agreement (env env' : Setting) (p : FilePath) (n n' t t' : Node)
    (ms ms' : List FileMessage) (hp : Managed p) (hperm : ms.Perm ms')
    (hms : ∀ m ∈ ms, LockOf p m) (h : Unlocked env p n) (h' : Unlocked env' p n')
    (run : ProcessesLocks env n ms t) (run' : ProcessesLocks env' n' ms' t') :
    (Agree (t.owner? env.host p) (t'.owner? env'.host p) ↔
      Agree (firstEarliest ms) (firstEarliest ms')) ∧
    (ms ≠ [] → (∀ m ∈ ms, ∀ m' ∈ ms, (∀ o ∈ ms, lockTime m ≤ lockTime o) →
      (∀ o ∈ ms, lockTime m' ≤ lockTime o) → m.originatorNode = m'.originatorNode) →
      Agree (t.owner? env.host p) (t'.owner? env'.host p)) := by
  rw [owner_eq hp h hms run, owner_eq hp h' (fun m hm => hms m (hperm.mem_iff.mpr hm)) run']
  exact ⟨Iff.rfl, firstEarliest_eq hperm⟩

/-! ## Two locks in the same second -/

/-- Two nodes lock `docs/a` at the epoch. -/
def oneLock : FileMessage := { foreignLock with originatorNode := .ipv4 0x0a000003 }

def otherLock : FileMessage := { foreignLock with originatorNode := .ipv4 0x0a000004 }

theorem unlockedNode_unlocked : Unlocked readerSetting FileSystem.docsA unlockedNode where
  connected := rfl
  file := ⟨⟨[], 0o644⟩, by decide⟩
  free := ⟨by decide, by decide⟩

theorem lockOf_foreign (timestamp : TimePoint) (ip : IpAddress)
    (h : truncateSeconds timestamp = timestamp) :
    LockOf FileSystem.docsA { foreignLock with originatorNode := ip, timestamp } where
  target := by
    show filePath ⟨[100, 111, 99, 115, 47, 97]⟩ = FileSystem.docsA
    decide
  fits := by
    show PathFits ⟨[100, 111, 99, 115, 47, 97]⟩
    decide
  whole := h

theorem one_then_other : ProcessesLocks readerSetting unlockedNode [oneLock, otherLock]
    (afterOps readerSetting unlockedNode [.lock oneLock, .lock otherLock]) :=
  .cons (Effect.eq_ok_of_value (by decide)) (.cons (Effect.eq_ok_of_value (by decide)) (.nil _))

theorem other_then_one : ProcessesLocks readerSetting unlockedNode [otherLock, oneLock]
    (afterOps readerSetting unlockedNode [.lock otherLock, .lock oneLock]) :=
  .cons (Effect.eq_ok_of_value (by decide)) (.cons (Effect.eq_ok_of_value (by decide)) (.nil _))

/-- Each node goes by the lock it processed first. -/
theorem owners_differ :
    Unlocked readerSetting FileSystem.docsA unlockedNode ∧
      (∀ m ∈ [oneLock, otherLock], LockOf FileSystem.docsA m) ∧
      [oneLock, otherLock].Perm [otherLock, oneLock] ∧
      ∃ t t', ProcessesLocks readerSetting unlockedNode [oneLock, otherLock] t ∧
        ProcessesLocks readerSetting unlockedNode [otherLock, oneLock] t' ∧
        ¬ Agree (t.owner? reader FileSystem.docsA)
          (t'.owner? reader FileSystem.docsA) := by
  refine ⟨unlockedNode_unlocked, ?_, List.Perm.swap _ _ _, _, _, one_then_other, other_then_one, ?_⟩
  · intro m hm
    rcases List.mem_pair.mp hm with rfl | rfl
    · exact lockOf_foreign 0 _ (by decide)
    · exact lockOf_foreign 0 _ (by decide)
  · rintro ⟨ip, h, h'⟩
    have hsame := h.trans h'.symm
    exact absurd hsame (by decide)

/-- Where the other lock is a second later, they agree. -/
def laterLock : FileMessage := { otherLock with timestamp := 1000000000 }

theorem later_lock_agreed :
    Agree ((afterOps readerSetting unlockedNode [.lock oneLock, .lock laterLock]).owner?
        reader FileSystem.docsA)
      ((afterOps readerSetting unlockedNode [.lock laterLock, .lock oneLock]).owner?
        reader FileSystem.docsA) := by
  refine (lock_agreement readerSetting readerSetting FileSystem.docsA unlockedNode unlockedNode _ _
    [oneLock, laterLock] [laterLock, oneLock] docsA_managed (.swap _ _ _) ?_ unlockedNode_unlocked
    unlockedNode_unlocked
    (.cons (Effect.eq_ok_of_value (by decide)) (.cons (Effect.eq_ok_of_value (by decide)) (.nil _)))
    (.cons (Effect.eq_ok_of_value (by decide))
      (.cons (Effect.eq_ok_of_value (by decide)) (.nil _)))).2 (by simp) ?_
  · intro m hm
    rcases List.mem_pair.mp hm with rfl | rfl
    · exact lockOf_foreign 0 _ (by decide)
    · exact lockOf_foreign 1000000000 _ (by decide)
  · have hfirst : ∀ m ∈ [oneLock, laterLock],
        (∀ o ∈ [oneLock, laterLock], lockTime m ≤ lockTime o) → m = oneLock := by
      intro m hm hmin
      rcases List.mem_pair.mp hm with rfl | rfl
      · rfl
      · exact absurd (hmin oneLock List.mem_cons_self) (by decide)
    intro m hm m' hm' hmin hmin'
    rw [hfirst m hm hmin, hfirst m' hm' hmin']

end Node

end WhisperNet
