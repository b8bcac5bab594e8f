import Mathlib.Data.List.Nodup

/-!
# Shared mutexes

A mutex that one thread holds exclusively, or any number of threads hold shared. Nothing stops a
thread from asking for it again; what a thread may do next follows from how it holds the mutex.

* `hold_lockShared`, `hold_lockExclusive`, `hold_unlockShared`, `hold_unlockExclusive` — how every
  thread holds the mutex after an operation of one thread.
* `Proper` — a writer is alone, and nobody reads twice; operations that fit the hold keep it so.
-/

/-- The thread that holds the mutex exclusively, and those that hold it shared. -/
structure SharedMutex (τ : Type*) where
  writer : Option τ := none
  readers : List τ := []

namespace SharedMutex

/-- How a thread holds the mutex. -/
inductive Hold
  | none
  | shared
  | exclusive
  deriving DecidableEq

variable {τ : Type*} {m m' : SharedMutex τ} {t : τ}

def lockShared (m : SharedMutex τ) (t : τ) : Option (SharedMutex τ) :=
  if m.writer.isNone then some { m with readers := t :: m.readers } else none

def lockExclusive (m : SharedMutex τ) (t : τ) : Option (SharedMutex τ) :=
  if m.writer.isNone ∧ m.readers.isEmpty then some { m with writer := some t } else none

def unlockExclusive (m : SharedMutex τ) : SharedMutex τ := { m with writer := none }

/-- A writer is alone, and nobody reads twice. -/
structure Proper (m : SharedMutex τ) : Prop where
  alone : ∀ t, m.writer = some t → m.readers = []
  once : m.readers.Nodup

theorem Proper.lockExclusive (h : m.lockExclusive t = some m') : m'.Proper := by
  unfold SharedMutex.lockExclusive at h
  split at h
  · cases h
    rename_i hfree
    obtain ⟨-, hr⟩ := hfree
    rw [List.isEmpty_iff] at hr
    exact ⟨fun _ _ => hr, hr ▸ List.nodup_nil⟩
  · cases h

theorem Proper.unlockExclusive (hm : m.Proper) : m.unlockExclusive.Proper where
  alone _ h := nomatch h
  once := hm.once

variable [DecidableEq τ]

def unlockShared (m : SharedMutex τ) (t : τ) : SharedMutex τ :=
  { m with readers := m.readers.erase t }

def hold (m : SharedMutex τ) (t : τ) : Hold :=
  if m.writer = some t then .exclusive else if t ∈ m.readers then .shared else .none

theorem hold_eq_exclusive : m.hold t = .exclusive ↔ m.writer = some t := by
  unfold hold
  split
  · simp [*]
  · split <;> simp [*]

theorem writer_ne (h : m.hold t = .none) : m.writer ≠ some t := by
  intro hw
  rw [hold_eq_exclusive.mpr hw] at h
  cases h

theorem notMem_readers (h : m.hold t = .none) : t ∉ m.readers := by
  intro hr
  rw [hold, if_neg (writer_ne h), if_pos hr] at h
  cases h

/-- Whoever holds the mutex exclusively is alone. -/
theorem Proper.hold_other (hm : m.Proper) (h : m.hold t = .exclusive) {u : τ} (hu : u ≠ t) :
    m.hold u = .none := by
  have hw := hold_eq_exclusive.mp h
  have hne : m.writer ≠ some u := by
    rw [hw]
    simpa using hu.symm
  rw [hold, if_neg hne, hm.alone t hw, if_neg List.not_mem_nil]

/-! ## Locking -/

theorem hold_lockShared (h : m.lockShared t = some m') (u : τ) :
    m'.hold u = if u = t then .shared else m.hold u := by
  unfold lockShared at h
  split at h
  · cases h
    rename_i hw
    rw [Option.isNone_iff_eq_none] at hw
    by_cases hu : u = t
    · simp [hold, hw, hu]
    · simp [hold, hw, hu]
  · cases h

theorem Proper.lockShared (hm : m.Proper) (hfree : m.hold t = .none)
    (h : m.lockShared t = some m') : m'.Proper := by
  unfold SharedMutex.lockShared at h
  split at h
  · cases h
    rename_i hw
    rw [Option.isNone_iff_eq_none] at hw
    refine ⟨fun u hu => ?_, List.nodup_cons.mpr ⟨notMem_readers hfree, hm.once⟩⟩
    rw [hw] at hu
    cases hu
  · cases h

theorem hold_lockExclusive (h : m.lockExclusive t = some m') (u : τ) :
    m'.hold u = if u = t then .exclusive else m.hold u := by
  unfold lockExclusive at h
  split at h
  · cases h
    rename_i hfree
    obtain ⟨hw, hr⟩ := hfree
    rw [Option.isNone_iff_eq_none] at hw
    rw [List.isEmpty_iff] at hr
    by_cases hu : u = t
    · simp [hold, hu]
    · simp [hold, hw, hr, hu, Ne.symm hu]
  · cases h

/-! ## Unlocking -/

theorem hold_unlockShared (hm : m.Proper) (h : m.hold t = .shared) (u : τ) :
    (m.unlockShared t).hold u = if u = t then .none else m.hold u := by
  have hw : m.writer ≠ some t := by
    intro hw
    rw [hold_eq_exclusive.mpr hw] at h
    cases h
  by_cases hu : u = t
  · subst hu
    have hnot : u ∉ m.readers.erase u := fun hmem => (hm.once.mem_erase_iff.mp hmem).1 rfl
    simp [hold, unlockShared, hw, hnot]
  · simp [hold, unlockShared, List.mem_erase_of_ne hu, hu]

theorem Proper.unlockShared (hm : m.Proper) (t : τ) : (m.unlockShared t).Proper :=
  ⟨fun u hu => by simp [SharedMutex.unlockShared, hm.alone u hu], hm.once.erase t⟩

theorem hold_unlockExclusive (hm : m.Proper) (h : m.hold t = .exclusive) (u : τ) :
    m.unlockExclusive.hold u = if u = t then .none else m.hold u := by
  have hw := hold_eq_exclusive.mp h
  have hr := hm.alone t hw
  by_cases hu : u = t
  · simp [hold, unlockExclusive, hr, hu]
  · simp [hold, unlockExclusive, hw, hr, hu, Ne.symm hu]

end SharedMutex
