import WhisperNet.Lib.Run
import Mathlib.Data.Nat.Bitwise
import Mathlib.Tactic.NormNum

/-!
# The stop state of a thread

The sources and tokens of one `jthread` share a word with two flags and the numbers of both. Every
operation on it is atomic, so that the threads interleave as a list of operations. Whoever removes a
reference learns from the value before whether it was the last, but `__remove_token_reference`
compares it with a token and a source together: once there is no source, it takes any token for the
last.

* `Represents.apply` — the word counts the references.
* `freed_by_last_iff` — exactly when the last reference is the one that deletes the state.
* `JThread.frees_once` — the threads of this program keep a source until their tokens are gone.
-/

namespace WhisperNet

/-! ## The word -/

namespace StopState

def stopRequestedFlag : UInt64 := 1

def lockedFlag : UInt64 := 2

def tokenRefIncrement : UInt64 := 4

def sourceRefIncrement : UInt64 := (1 : UInt64) <<< 33

def isLocked (state : UInt64) : Bool := state &&& lockedFlag != 0

def isStopRequested (state : UInt64) : Bool := state &&& stopRequestedFlag != 0

end StopState

/-- `__stop_state`. Nothing registers a callback. -/
structure StopState where
  state : UInt64 := StopState.sourceRefIncrement
  /-- How often it has been deleted. -/
  deletions : Nat := 0

namespace StopState

/-- Whose reference a thread goes by. -/
inductive Holder
  | source
  | token
  deriving DecidableEq

/-- The atomic operations on the word that change it. -/
inductive Op
  | addToken
  | removeToken
  | addSource
  | removeSource
  /-- The exchange that ends `__try_lock_and_signal_until_signalled`. -/
  | signal
  /-- The exchange that ends `__lock`, and the one in `__try_add_callback`. -/
  | lock (holder : Holder)
  | unlock
  | unlockAddToken
  | unlockRemoveToken
  deriving DecidableEq

variable (s : StopState)

def addTokenReference : StopState := { s with state := s.state + tokenRefIncrement }

def removeTokenReference : StopState :=
  let oldState := s.state
  { state := oldState - tokenRefIncrement
    deletions :=
      if oldState < tokenRefIncrement + sourceRefIncrement then s.deletions + 1 else s.deletions }

def addSourceReference : StopState := { s with state := s.state + sourceRefIncrement }

def removeSourceReference : StopState :=
  let oldState := s.state
  { state := oldState - sourceRefIncrement
    deletions :=
      if oldState < tokenRefIncrement + sourceRefIncrement then s.deletions + 1 else s.deletions }

def unlock : StopState := { s with state := s.state - lockedFlag }

/-- What is subtracted is negative. -/
def unlockAndIncrementTokenRefCount : StopState :=
  { s with state := s.state - (lockedFlag - tokenRefIncrement) }

def unlockAndDecrementTokenRefCount : StopState :=
  let oldState := s.state
  { state := oldState - (lockedFlag + tokenRefIncrement)
    deletions :=
      if oldState < lockedFlag + tokenRefIncrement + tokenRefIncrement then s.deletions + 1
      else s.deletions }

/-- One operation; an exchange is made once the word allows it. -/
def apply : Op → Option StopState
  | .addToken => some s.addTokenReference
  | .removeToken => some s.removeTokenReference
  | .addSource => some s.addSourceReference
  | .removeSource => some s.removeSourceReference
  | .signal =>
    if isStopRequested s.state || isLocked s.state then none
    else some { s with state := s.state ||| stopRequestedFlag ||| lockedFlag }
  | .lock _ =>
    if isLocked s.state then none else some { s with state := s.state ||| lockedFlag }
  | .unlock => some s.unlock
  | .unlockAddToken => some s.unlockAndIncrementTokenRefCount
  | .unlockRemoveToken => some s.unlockAndDecrementTokenRefCount

end StopState

/-! ## The references -/

/-- The references there are, and what the flags are for. -/
structure Refs where
  sources : Nat := 1
  tokens : Nat := 0
  stop : Bool := false
  /-- By which kind of reference the state is locked. -/
  lockedBy : Option StopState.Holder := none

namespace Refs

open StopState

def count (r : Refs) : Holder → Nat
  | .source => r.sources
  | .token => r.tokens

/-- There is none left. -/
def Gone (r : Refs) : Prop := r.sources = 0 ∧ r.tokens = 0

instance (r : Refs) : Decidable r.Gone := inferInstanceAs (Decidable (_ ∧ _))

/-- The references that whoever has locked the state needs. -/
def pinned (r : Refs) (holder : Holder) : Nat := if r.lockedBy = some holder then 1 else 0

/-- What the owners of references do: new ones are copies of others, or tokens of a source, and
there is room for 31 bits of each kind. -/
def use (r : Refs) : Op → Option Refs
  | .addToken =>
    if (0 < r.sources ∨ 0 < r.tokens) ∧ r.tokens + 1 < 2 ^ 31 then
      some { r with tokens := r.tokens + 1 }
    else none
  | .removeToken =>
    if r.pinned .token < r.tokens then some { r with tokens := r.tokens - 1 } else none
  | .addSource =>
    if 0 < r.sources ∧ r.sources + 1 < 2 ^ 31 then some { r with sources := r.sources + 1 }
    else none
  | .removeSource =>
    if r.pinned .source < r.sources then some { r with sources := r.sources - 1 } else none
  | .signal =>
    if 0 < r.sources ∧ r.stop = false ∧ r.lockedBy = none then
      some { r with stop := true, lockedBy := some .source }
    else none
  | .lock holder =>
    if 0 < r.count holder ∧ r.lockedBy = none then some { r with lockedBy := some holder } else none
  | .unlock => if r.lockedBy.isSome then some { r with lockedBy := none } else none
  | .unlockAddToken =>
    if r.lockedBy = some .token ∧ r.tokens + 1 < 2 ^ 31 then
      some { r with tokens := r.tokens + 1, lockedBy := none }
    else none
  | .unlockRemoveToken =>
    if r.lockedBy = some .token then some { r with tokens := r.tokens - 1, lockedBy := none }
    else none

/-- A token goes that is not the last reference, and there is no source. -/
def Orphans (r : Refs) (op : Op) : Prop := op = .removeToken ∧ r.sources = 0 ∧ 2 ≤ r.tokens

/-- The flags and numbers in one word. -/
def word (r : Refs) : Nat :=
  r.stop.toNat + 2 * r.lockedBy.isSome.toNat + 4 * r.tokens + 2 ^ 33 * r.sources

/-- What the value before an operation is taken to say: that the reference is the last. -/
def deletes (r : Refs) : Op → Bool
  | .removeToken => r.sources = 0
  | .removeSource => r.sources = 1 ∧ r.tokens = 0
  | .unlockRemoveToken => r.sources = 0 ∧ r.tokens = 1
  | _ => false

end Refs

namespace StopState

/-- The word counts the references. -/
structure Represents (s : StopState) (r : Refs) : Prop where
  word : s.state.toNat = r.word
  sources : r.sources < 2 ^ 31
  tokens : r.tokens < 2 ^ 31
  held : ∀ holder, r.lockedBy = some holder → 0 < r.count holder

/-! ## Flags -/

section Flags

variable {s : StopState} {r : Refs} {w : UInt64}

theorem isStopRequested_iff : isStopRequested w ↔ w.toNat % 2 = 1 := by
  rw [isStopRequested, bne_iff_ne, ne_eq, ← UInt64.toNat_inj, UInt64.toNat_and]
  show ¬ w.toNat &&& 1 = 0 ↔ _
  rw [Nat.and_one_is_mod]
  omega

theorem isLocked_iff : isLocked w ↔ w.toNat / 2 % 2 = 1 := by
  rw [isLocked, bne_iff_ne, ne_eq, ← UInt64.toNat_inj, UInt64.toNat_and]
  show ¬ w.toNat &&& 2 ^ 1 = 0 ↔ _
  rw [Nat.and_two_pow, Nat.testBit_eq_decide_div_mod_eq]
  simp

/-- Flags that are not set are added. -/
theorem toNat_or_signal (h : w.toNat % 4 = 0) :
    (w ||| stopRequestedFlag ||| lockedFlag).toNat = w.toNat + 3 := by
  rw [UInt64.toNat_or, UInt64.toNat_or, Nat.or_assoc]
  obtain ⟨k, hk⟩ : ∃ k, w.toNat = 2 ^ 2 * k := ⟨w.toNat / 4, by omega⟩
  rw [hk]
  exact (Nat.two_pow_add_eq_or_of_lt (by decide : 3 < 2 ^ 2) k).symm

theorem toNat_or_locked (h : w.toNat / 2 % 2 = 0) :
    (w ||| lockedFlag).toNat = w.toNat + 2 := by
  obtain ⟨k, b, hb, hk⟩ : ∃ k b, b < 2 ∧ w.toNat = 2 ^ 2 * k + b :=
    ⟨w.toNat / 4, w.toNat % 4, by omega, by omega⟩
  have hor : b ||| 2 = b + 2 := by
    obtain rfl | rfl : b = 0 ∨ b = 1 := by omega
    · rfl
    · rfl
  calc (w ||| lockedFlag).toNat
      = (2 ^ 2 * k ||| b) ||| 2 := by
        rw [UInt64.toNat_or, hk, Nat.two_pow_add_eq_or_of_lt (by omega : b < 2 ^ 2)]
        rfl
    _ = 2 ^ 2 * k ||| (b + 2) := by rw [Nat.or_assoc, hor]
    _ = 2 ^ 2 * k + (b + 2) := (Nat.two_pow_add_eq_or_of_lt (by omega : b + 2 < 2 ^ 2) k).symm
    _ = w.toNat + 2 := by rw [hk, Nat.add_assoc]

theorem isStopRequested_eq (h : s.Represents r) : isStopRequested s.state = r.stop := by
  rw [Bool.eq_iff_iff, isStopRequested_iff, h.word, Refs.word]
  cases r.stop <;> cases r.lockedBy <;> simp <;> omega

theorem isLocked_eq (h : s.Represents r) : isLocked s.state = r.lockedBy.isSome := by
  rw [Bool.eq_iff_iff, isLocked_iff, h.word, Refs.word]
  cases r.stop <;> cases r.lockedBy <;> simp <;> omega

end Flags

/-! ## One operation -/

section Operations

variable {s s' : StopState} {r r' : Refs} {op : Op} {w : UInt64} {old : Nat}

theorem toNat_tokenRefIncrement : tokenRefIncrement.toNat = 4 := rfl

theorem toNat_sourceRefIncrement : sourceRefIncrement.toNat = 2 ^ 33 := rfl

theorem toNat_lockedFlag : lockedFlag.toNat = 2 := rfl

/-- The parts of the word do not overlap. -/
theorem Represents.parts (h : s.Represents r) :
    s.state.toNat = r.stop.toNat + 2 * r.lockedBy.isSome.toNat + 4 * r.tokens + 2 ^ 33 * r.sources ∧
      r.stop.toNat ≤ 1 ∧ r.lockedBy.isSome.toNat ≤ 1 ∧ r.tokens < 2 ^ 31 ∧ r.sources < 2 ^ 31 :=
  ⟨h.word, Bool.toNat_le _, Bool.toNat_le _, h.tokens, h.sources⟩

theorem Represents.addToken (h : s.Represents r) (hroom : r.tokens + 1 < 2 ^ 31) :
    s.addTokenReference.Represents { r with tokens := r.tokens + 1 } := by
  obtain ⟨hword, hstop, hlocked, htokens, hsources⟩ := h.parts
  refine ⟨?_, hsources, hroom, fun holder hholder => ?_⟩
  · rw [addTokenReference, UInt64.toNat_add, toNat_tokenRefIncrement, Refs.word]
    dsimp only
    omega
  · cases holder with
    | source => exact h.held .source hholder
    | token => exact Nat.succ_pos _

theorem Represents.removeToken (h : s.Represents r) (hpinned : r.pinned .token < r.tokens) :
    s.removeTokenReference.Represents { r with tokens := r.tokens - 1 } := by
  obtain ⟨hword, hstop, hlocked, htokens, hsources⟩ := h.parts
  refine ⟨?_, hsources, (Nat.sub_le _ _).trans_lt htokens, fun holder hholder => ?_⟩
  · rw [removeTokenReference, UInt64.toNat_sub, toNat_tokenRefIncrement, Refs.word]
    dsimp only
    omega
  · cases holder with
    | source => exact h.held .source hholder
    | token =>
      rw [Refs.pinned, if_pos (show r.lockedBy = some .token from hholder)] at hpinned
      exact Nat.sub_pos_of_lt hpinned

theorem Represents.addSource (h : s.Represents r) (hroom : r.sources + 1 < 2 ^ 31) :
    s.addSourceReference.Represents { r with sources := r.sources + 1 } := by
  obtain ⟨hword, hstop, hlocked, htokens, hsources⟩ := h.parts
  refine ⟨?_, hroom, htokens, fun holder hholder => ?_⟩
  · rw [addSourceReference, UInt64.toNat_add, toNat_sourceRefIncrement, Refs.word]
    dsimp only
    omega
  · cases holder with
    | source => exact Nat.succ_pos _
    | token => exact h.held .token hholder

theorem Represents.removeSource (h : s.Represents r) (hpinned : r.pinned .source < r.sources) :
    s.removeSourceReference.Represents { r with sources := r.sources - 1 } := by
  obtain ⟨hword, hstop, hlocked, htokens, hsources⟩ := h.parts
  refine ⟨?_, (Nat.sub_le _ _).trans_lt hsources, htokens, fun holder hholder => ?_⟩
  · rw [removeSourceReference, UInt64.toNat_sub, toNat_sourceRefIncrement, Refs.word]
    dsimp only
    omega
  · cases holder with
    | source =>
      rw [Refs.pinned, if_pos (show r.lockedBy = some .source from hholder)] at hpinned
      exact Nat.sub_pos_of_lt hpinned
    | token => exact h.held .token hholder

/-- Both flags are set at once. -/
theorem Represents.signal (h : s.Represents r) (hheld : 0 < r.sources) (hstop : r.stop = false)
    (hfree : r.lockedBy = none) :
    Represents { s with state := s.state ||| stopRequestedFlag ||| lockedFlag }
      { r with stop := true, lockedBy := some .source } := by
  obtain ⟨hword, -, -, htokens, hsources⟩ := h.parts
  rw [hstop, hfree, Option.isSome_none, Bool.toNat_false] at hword
  refine ⟨?_, hsources, htokens, fun holder hholder => ?_⟩
  · rw [toNat_or_signal (by omega), hword, Refs.word, Option.isSome_some, Bool.toNat_true]
    dsimp only
    omega
  · obtain rfl := Option.some_inj.mp hholder
    exact hheld

theorem Represents.lock (h : s.Represents r) {holder : Holder} (hheld : 0 < r.count holder)
    (hfree : r.lockedBy = none) :
    Represents { s with state := s.state ||| lockedFlag } { r with lockedBy := some holder } := by
  obtain ⟨hword, hstop, -, htokens, hsources⟩ := h.parts
  rw [hfree, Option.isSome_none, Bool.toNat_false] at hword
  refine ⟨?_, hsources, htokens, fun holder' hholder => ?_⟩
  · rw [toNat_or_locked (by omega), hword, Refs.word, Option.isSome_some, Bool.toNat_true]
    dsimp only
    omega
  · obtain rfl := Option.some_inj.mp hholder
    exact hheld

theorem Represents.unlock (h : s.Represents r) (hlocked : r.lockedBy.isSome) :
    s.unlock.Represents { r with lockedBy := none } := by
  obtain ⟨hword, hstop, -, htokens, hsources⟩ := h.parts
  rw [hlocked, Bool.toNat_true] at hword
  refine ⟨?_, hsources, htokens, fun holder hholder => (by cases hholder)⟩
  rw [StopState.unlock, UInt64.toNat_sub, toNat_lockedFlag, Refs.word, Option.isSome_none,
    Bool.toNat_false]
  dsimp only
  omega

/-- Subtracting less than nothing adds. -/
theorem Represents.unlockAddToken (h : s.Represents r) (hlocked : r.lockedBy.isSome)
    (hroom : r.tokens + 1 < 2 ^ 31) :
    s.unlockAndIncrementTokenRefCount.Represents
      { r with tokens := r.tokens + 1, lockedBy := none } := by
  obtain ⟨hword, hstop, -, htokens, hsources⟩ := h.parts
  rw [hlocked, Bool.toNat_true] at hword
  have hdifference : (lockedFlag - tokenRefIncrement).toNat = 2 ^ 64 - 2 := rfl
  refine ⟨?_, hsources, hroom, fun holder hholder => (by cases hholder)⟩
  rw [unlockAndIncrementTokenRefCount, UInt64.toNat_sub, hdifference, Refs.word,
    Option.isSome_none, Bool.toNat_false]
  dsimp only
  omega

theorem Represents.unlockRemoveToken (h : s.Represents r) (hlocked : r.lockedBy.isSome)
    (htoken : 0 < r.tokens) :
    s.unlockAndDecrementTokenRefCount.Represents
      { r with tokens := r.tokens - 1, lockedBy := none } := by
  obtain ⟨hword, hstop, -, htokens, hsources⟩ := h.parts
  rw [hlocked, Bool.toNat_true] at hword
  have hsum : (lockedFlag + tokenRefIncrement).toNat = 6 := rfl
  refine ⟨?_, hsources, (Nat.sub_le _ _).trans_lt htokens, fun holder hholder => (by cases hholder)⟩
  rw [unlockAndDecrementTokenRefCount, UInt64.toNat_sub, hsum, Refs.word, Option.isSome_none,
    Bool.toNat_false]
  dsimp only
  omega

/-- What a comparison with the value before decides. -/
theorem deletions_eq {bound : UInt64} {b : Bool} (h : w < bound ↔ b = true) :
    (if w < bound then old + 1 else old) = old + if b then 1 else 0 := by
  by_cases hb : b = true
  · rw [if_pos (h.mpr hb), if_pos hb]
  · rw [if_neg (mt h.mp hb), if_neg hb, Nat.add_zero]

theorem Represents.deletions_removeToken (h : s.Represents r) (htoken : 0 < r.tokens) :
    s.removeTokenReference.deletions =
      s.deletions + if r.deletes .removeToken then 1 else 0 := by
  obtain ⟨hword, hstop, hlocked, htokens, hsources⟩ := h.parts
  refine deletions_eq ?_
  rw [UInt64.lt_iff_toNat_lt, hword, UInt64.toNat_add, toNat_tokenRefIncrement,
    toNat_sourceRefIncrement, Refs.deletes, decide_eq_true_iff]
  omega

theorem Represents.deletions_removeSource (h : s.Represents r) (hsource : 0 < r.sources) :
    s.removeSourceReference.deletions =
      s.deletions + if r.deletes .removeSource then 1 else 0 := by
  obtain ⟨hword, hstop, hlocked, htokens, hsources⟩ := h.parts
  refine deletions_eq ?_
  rw [UInt64.lt_iff_toNat_lt, hword, UInt64.toNat_add, toNat_tokenRefIncrement,
    toNat_sourceRefIncrement, Refs.deletes, decide_eq_true_iff]
  omega

theorem Represents.deletions_unlockRemoveToken (h : s.Represents r) (hlocked : r.lockedBy.isSome)
    (htoken : 0 < r.tokens) :
    s.unlockAndDecrementTokenRefCount.deletions =
      s.deletions + if r.deletes .unlockRemoveToken then 1 else 0 := by
  obtain ⟨hword, hstop, -, htokens, hsources⟩ := h.parts
  rw [hlocked, Bool.toNat_true] at hword
  refine deletions_eq ?_
  have hsum : (lockedFlag + tokenRefIncrement + tokenRefIncrement).toNat = 10 := rfl
  rw [UInt64.lt_iff_toNat_lt, hword, hsum, Refs.deletes, decide_eq_true_iff]
  omega

/-- **One operation.** The word goes on counting, and who takes the reference for the last deletes
the state. -/
theorem Represents.apply (h : s.Represents r) (huse : r.use op = some r') :
    ∃ s', s.apply op = some s' ∧ s'.Represents r' ∧
      s'.deletions = s.deletions + if r.deletes op then 1 else 0 := by
  cases op with
  | addToken =>
    obtain ⟨⟨-, hroom⟩, hr'⟩ := Option.ite_none_right_eq_some.mp huse
    obtain rfl := Option.some_inj.mp hr'
    exact ⟨_, rfl, h.addToken hroom, rfl⟩
  | removeToken =>
    obtain ⟨hpinned, hr'⟩ := Option.ite_none_right_eq_some.mp huse
    obtain rfl := Option.some_inj.mp hr'
    exact ⟨_, rfl, h.removeToken hpinned, h.deletions_removeToken (Nat.zero_lt_of_lt hpinned)⟩
  | addSource =>
    obtain ⟨⟨-, hroom⟩, hr'⟩ := Option.ite_none_right_eq_some.mp huse
    obtain rfl := Option.some_inj.mp hr'
    exact ⟨_, rfl, h.addSource hroom, rfl⟩
  | removeSource =>
    obtain ⟨hpinned, hr'⟩ := Option.ite_none_right_eq_some.mp huse
    obtain rfl := Option.some_inj.mp hr'
    exact ⟨_, rfl, h.removeSource hpinned, h.deletions_removeSource (Nat.zero_lt_of_lt hpinned)⟩
  | signal =>
    obtain ⟨⟨hheld, hclear, hfree⟩, hr'⟩ := Option.ite_none_right_eq_some.mp huse
    obtain rfl := Option.some_inj.mp hr'
    have happly : s.apply .signal =
        some { s with state := s.state ||| stopRequestedFlag ||| lockedFlag } := by
      rw [StopState.apply, isStopRequested_eq h, isLocked_eq h, hclear, hfree]
      rfl
    exact ⟨_, happly, h.signal hheld hclear hfree, rfl⟩
  | lock holder =>
    obtain ⟨⟨hheld, hfree⟩, hr'⟩ := Option.ite_none_right_eq_some.mp huse
    obtain rfl := Option.some_inj.mp hr'
    have happly : s.apply (.lock holder) = some { s with state := s.state ||| lockedFlag } := by
      rw [StopState.apply, isLocked_eq h, hfree]
      rfl
    exact ⟨_, happly, h.lock hheld hfree, rfl⟩
  | unlock =>
    obtain ⟨hlocked, hr'⟩ := Option.ite_none_right_eq_some.mp huse
    obtain rfl := Option.some_inj.mp hr'
    exact ⟨_, rfl, h.unlock hlocked, rfl⟩
  | unlockAddToken =>
    obtain ⟨⟨hlocked, hroom⟩, hr'⟩ := Option.ite_none_right_eq_some.mp huse
    obtain rfl := Option.some_inj.mp hr'
    exact ⟨_, rfl, h.unlockAddToken (hlocked ▸ rfl) hroom, rfl⟩
  | unlockRemoveToken =>
    obtain ⟨hlocked, hr'⟩ := Option.ite_none_right_eq_some.mp huse
    obtain rfl := Option.some_inj.mp hr'
    exact ⟨_, rfl, h.unlockRemoveToken (hlocked ▸ rfl) (h.held .token hlocked),
      h.deletions_unlockRemoveToken (hlocked ▸ rfl) (h.held .token hlocked)⟩

/-- Every operation goes by a reference. -/
theorem Represents.not_gone (h : s.Represents r) (huse : r.use op = some r') : ¬ r.Gone := by
  rintro ⟨hsources, htokens⟩
  have hnone : r.lockedBy = none := by
    cases hlocked : r.lockedBy with
    | none => rfl
    | some holder =>
      have hheld := h.held holder hlocked
      cases holder with
      | source => exact absurd hheld (hsources ▸ Nat.lt_irrefl 0)
      | token => exact absurd hheld (htokens ▸ Nat.lt_irrefl 0)
  cases op with
  | lock holder => cases holder <;> simp [Refs.use, Refs.count, hsources, htokens] at huse
  | _ => simp [Refs.use, hsources, htokens, hnone] at huse

/-- Other than that, the last reference is taken for the last. -/
theorem Represents.deletes_iff (h : s.Represents r) (huse : r.use op = some r')
    (hno : ¬ r.Orphans op) : r.deletes op ↔ r'.Gone := by
  have hgone := h.not_gone huse
  cases op with
  | removeToken =>
    obtain ⟨hpinned, hr'⟩ := Option.ite_none_right_eq_some.mp huse
    obtain rfl := Option.some_inj.mp hr'
    have hfew : ¬ (r.sources = 0 ∧ 2 ≤ r.tokens) := fun h => hno ⟨rfl, h⟩
    rw [Refs.deletes, decide_eq_true_iff]
    show r.sources = 0 ↔ r.sources = 0 ∧ r.tokens - 1 = 0
    omega
  | removeSource =>
    obtain ⟨hpinned, hr'⟩ := Option.ite_none_right_eq_some.mp huse
    obtain rfl := Option.some_inj.mp hr'
    rw [Refs.deletes, decide_eq_true_iff]
    show r.sources = 1 ∧ r.tokens = 0 ↔ r.sources - 1 = 0 ∧ r.tokens = 0
    omega
  | unlockRemoveToken =>
    obtain ⟨hlocked, hr'⟩ := Option.ite_none_right_eq_some.mp huse
    obtain rfl := Option.some_inj.mp hr'
    have htoken := h.held .token hlocked
    rw [Refs.deletes, decide_eq_true_iff]
    show r.sources = 0 ∧ r.tokens = 1 ↔ r.sources = 0 ∧ r.tokens - 1 = 0
    simp only [Refs.count] at htoken
    omega
  | addToken | addSource | unlockAddToken =>
    obtain ⟨-, hr'⟩ := Option.ite_none_right_eq_some.mp huse
    obtain rfl := Option.some_inj.mp hr'
    exact iff_of_false Bool.false_ne_true fun h => by simp [Refs.Gone] at h
  | signal | lock | unlock =>
    obtain ⟨-, hr'⟩ := Option.ite_none_right_eq_some.mp huse
    obtain rfl := Option.some_inj.mp hr'
    exact iff_of_false Bool.false_ne_true hgone

theorem Represents.deletes_of_orphans (huse : r.use op = some r') (h : r.Orphans op) :
    r.deletes op ∧ ¬ r'.Gone := by
  obtain ⟨rfl, hsources, htokens⟩ := h
  obtain ⟨-, hr'⟩ := Option.ite_none_right_eq_some.mp huse
  obtain rfl := Option.some_inj.mp hr'
  refine ⟨decide_eq_true hsources, fun hgone => ?_⟩
  have hlast : r.tokens - 1 = 0 := hgone.2
  omega

end Operations

/-! ## Whole lives -/

section Lives

variable {s s' : StopState} {r r' : Refs} {ops : List Op}

/-- No operation is on a state that has been deleted, and it is deleted once there is no reference
left. -/
structure FreedByLast (s : StopState) (ops : List Op) (s' : StopState) (r' : Refs) : Prop where
  alive : Along StopState.apply (fun s _ => s.deletions = 0) s ops
  deletions : s'.deletions = if r'.Gone then 1 else 0

/-- A state that has been deleted too early. -/
theorem not_freedByLast (hdeleted : s.deletions = 1) (hgone : ¬ r.Gone)
    (huse : ops.foldlM Refs.use r = some r') (happly : ops.foldlM StopState.apply s = some s') :
    ¬ FreedByLast s ops s' r' := by
  rintro ⟨halive, hlast⟩
  cases ops with
  | nil =>
    obtain rfl := Option.some_inj.mp huse
    obtain rfl := Option.some_inj.mp happly
    rw [if_neg hgone, hdeleted] at hlast
    cases hlast
  | cons op ops =>
    have hfirst : s.deletions = 0 := halive.1
    rw [hdeleted] at hfirst
    cases hfirst

theorem Represents.run (h : s.Represents r) (huse : ops.foldlM Refs.use r = some r') :
    ∃ s', ops.foldlM StopState.apply s = some s' ∧ s'.Represents r' := by
  induction ops generalizing s r with
  | nil =>
    obtain rfl := Option.some_inj.mp huse
    exact ⟨s, rfl, h⟩
  | cons op ops ih =>
    rw [List.foldlM_cons] at huse
    obtain ⟨r₁, hfirst, hrest⟩ := Option.bind_eq_some_iff.mp huse
    obtain ⟨s₁, happly, h₁, -⟩ := h.apply hfirst
    obtain ⟨s', hs', h'⟩ := ih h₁ hrest
    exact ⟨s', by rw [List.foldlM_cons, happly]; exact hs', h'⟩

/-- From any state that counts its references and has not been deleted while there are some. -/
theorem Represents.freedByLast_iff (h : s.Represents r)
    (hdeletions : s.deletions = if r.Gone then 1 else 0)
    (huse : ops.foldlM Refs.use r = some r') (happly : ops.foldlM StopState.apply s = some s') :
    FreedByLast s ops s' r' ↔ Along Refs.use (fun r op => ¬ r.Orphans op) r ops := by
  induction ops generalizing s r with
  | nil =>
    obtain rfl := Option.some_inj.mp huse
    obtain rfl := Option.some_inj.mp happly
    exact iff_of_true ⟨trivial, hdeletions⟩ trivial
  | cons op ops ih =>
    rw [List.foldlM_cons] at huse happly
    obtain ⟨r₁, hfirst, hrest⟩ := Option.bind_eq_some_iff.mp huse
    obtain ⟨s₁, hstep, hafter⟩ := Option.bind_eq_some_iff.mp happly
    obtain ⟨s₁', hstep', h₁, hdeletions₁⟩ := h.apply hfirst
    obtain rfl := Option.some_inj.mp (hstep.symm.trans hstep')
    have hzero : s.deletions = 0 := hdeletions.trans (if_neg (h.not_gone hfirst))
    rw [hzero, Nat.zero_add] at hdeletions₁
    have halive : FreedByLast s (op :: ops) s' r' ↔ FreedByLast s₁ ops s' r' :=
      ⟨fun ⟨hall, hlast⟩ => ⟨((Along.cons_iff hstep).mp hall).2, hlast⟩,
        fun ⟨hall, hlast⟩ => ⟨(Along.cons_iff hstep).mpr ⟨hzero, hall⟩, hlast⟩⟩
    rw [halive, Along.cons_iff hfirst]
    by_cases horphans : r.Orphans op
    · obtain ⟨hdeletes, hgone⟩ := Represents.deletes_of_orphans hfirst horphans
      rw [if_pos hdeletes] at hdeletions₁
      exact iff_of_false (not_freedByLast hdeletions₁ hgone hrest hafter) fun h => h.1 horphans
    · rw [ih h₁ (by simpa only [h.deletes_iff hfirst horphans] using hdeletions₁) hrest hafter]
      exact (and_iff_right horphans).symm

theorem represents_start : ({} : StopState).Represents {} where
  word := rfl
  sources := by decide
  tokens := by decide
  held _ h := by cases h

/-- **The last reference deletes the state**, and no operation comes after that, if and only if no
token goes before the last one when there is no source. -/
theorem freed_by_last_iff (huse : ops.foldlM Refs.use {} = some r) :
    ∃ s, ops.foldlM StopState.apply {} = some s ∧ s.Represents r ∧
      (FreedByLast {} ops s r ↔ Along Refs.use (fun r op => ¬ r.Orphans op) {} ops) := by
  obtain ⟨s, happly, h⟩ := represents_start.run huse
  exact ⟨s, happly, h, represents_start.freedByLast_iff rfl huse happly⟩

/-- The source goes first, then the first of its two tokens. -/
theorem orphaned : ∃ s, [Op.addToken, .addToken, .removeSource, .removeToken].foldlM
      StopState.apply {} = some s ∧ s.Represents { sources := 0, tokens := 1 } ∧
    (FreedByLast {} [Op.addToken, .addToken, .removeSource, .removeToken] s
        { sources := 0, tokens := 1 } ↔
      Along Refs.use (fun r op => ¬ r.Orphans op) {}
        [Op.addToken, .addToken, .removeSource, .removeToken]) :=
  freed_by_last_iff rfl

end Lives

end StopState

/-! ## The threads of this program -/

open StopState

/-- Where the owner of a `jthread` is. -/
inductive Owning
  | held
  /-- `request_stop` has made a copy of the source. -/
  | copied
  | signalling
  | signalled
  | destroyed
  deriving DecidableEq

/-- A `jthread`: its owner, and the tokens of the thread itself. -/
structure JThread where
  owner : Owning := .held
  tokens : Nat := 1
  stop : Bool := false

namespace JThread

/-- What either of them does next. -/
inductive Step : JThread → Op → JThread → Prop
  | copyToken {j : JThread} (h : 0 < j.tokens) (hroom : j.tokens + 1 < 2 ^ 31) :
      Step j .addToken { j with tokens := j.tokens + 1 }
  | dropToken {j : JThread} (h : 0 < j.tokens) :
      Step j .removeToken { j with tokens := j.tokens - 1 }
  /-- `get_stop_source` -/
  | copySource {j : JThread} (h : j.owner = .held) : Step j .addSource { j with owner := .copied }
  | signal {j : JThread} (h : j.owner = .copied) (hstop : j.stop = false) :
      Step j .signal { j with owner := .signalling, stop := true }
  | unlock {j : JThread} (h : j.owner = .signalling) :
      Step j .unlock { j with owner := .signalled }
  | dropSource {j : JThread} (h : j.owner = .signalled ∨ j.owner = .copied ∧ j.stop) :
      Step j .removeSource { j with owner := .held }
  /-- `join` has returned. -/
  | destroy {j : JThread} (h : j.owner = .held) (hjoined : j.tokens = 0) :
      Step j .removeSource { j with owner := .destroyed }

/-- The sources of the owner. -/
def sources : Owning → Nat
  | .held => 1
  | .copied | .signalling | .signalled => 2
  | .destroyed => 0

/-- The references of a `jthread`. -/
structure Owns (j : JThread) (r : Refs) : Prop where
  sources : r.sources = sources j.owner
  tokens : r.tokens = j.tokens
  stop : r.stop = j.stop
  locked : r.lockedBy = if j.owner = .signalling then some .source else none
  joined : j.owner = .destroyed → j.tokens = 0

variable {j j' : JThread} {r : Refs} {op : Op} {ops : List Op}

theorem Owns.unlocked (h : Owns j r) (howner : j.owner ≠ .signalling) : r.lockedBy = none :=
  h.locked.trans (if_neg howner)

theorem Owns.pinned_token (h : Owns j r) : r.pinned .token = 0 := by
  rw [Refs.pinned, h.locked]
  split <;> rfl

/-- **A source outlives the tokens.** -/
theorem Owns.source_of_token (h : Owns j r) (htoken : 0 < j.tokens) : 0 < r.sources := by
  rw [h.sources]
  cases howner : j.owner with
  | destroyed => exact absurd (h.joined howner) htoken.ne'
  | held | copied | signalling | signalled => decide

/-- Each party goes by a reference of its own. -/
theorem Owns.step (h : Owns j r) (hstep : Step j op j') :
    ∃ r', r.use op = some r' ∧ Owns j' r' ∧ ¬ r.Orphans op := by
  cases hstep with
  | copyToken htoken hroom =>
    refine ⟨_, if_pos ⟨Or.inl (h.source_of_token htoken), h.tokens ▸ hroom⟩, ⟨h.sources, ?_, h.stop,
      h.locked, fun howner => absurd (h.joined howner) htoken.ne'⟩, fun horphans => ?_⟩
    · exact congrArg (· + 1) h.tokens
    · cases horphans.1
  | dropToken htoken =>
    refine ⟨_, if_pos (by rw [h.pinned_token, h.tokens]; exact htoken), ⟨h.sources, ?_, h.stop,
      h.locked, fun howner => absurd (h.joined howner) htoken.ne'⟩, fun horphans => ?_⟩
    · exact congrArg (· - 1) h.tokens
    · exact absurd horphans.2.1 (h.source_of_token htoken).ne'
  | copySource howner =>
    have hsources : r.sources = 1 := h.sources.trans (by rw [howner]; rfl)
    refine ⟨_, if_pos (by rw [hsources]; decide), ⟨?_, h.tokens, h.stop, ?_, ?_⟩,
      fun horphans => ?_⟩
    · exact congrArg (· + 1) hsources
    · exact h.unlocked (by rw [howner]; decide)
    · intro hdestroyed
      cases hdestroyed
    · cases horphans.1
  | signal howner hstop =>
    have hsources : r.sources = 2 := h.sources.trans (by rw [howner]; rfl)
    have hfree := h.unlocked (by rw [howner]; decide)
    refine ⟨_, if_pos ⟨by rw [hsources]; decide, h.stop.trans hstop, hfree⟩,
      ⟨hsources, h.tokens, rfl, rfl, ?_⟩, fun horphans => ?_⟩
    · intro hdestroyed
      cases hdestroyed
    · cases horphans.1
  | unlock howner =>
    have hsources : r.sources = 2 := h.sources.trans (by rw [howner]; rfl)
    have hlocked : r.lockedBy = some .source := h.locked.trans (if_pos howner)
    refine ⟨_, if_pos (by rw [hlocked]; rfl), ⟨hsources, h.tokens, h.stop, rfl, ?_⟩,
      fun horphans => ?_⟩
    · intro hdestroyed
      cases hdestroyed
    · cases horphans.1
  | dropSource howner =>
    have hnot : j.owner ≠ .signalling := by
      rintro heq
      rcases howner with howner | ⟨howner, -⟩ <;> rw [heq] at howner <;> cases howner
    have hsources : r.sources = 2 := h.sources.trans (by
      rcases howner with howner | ⟨howner, -⟩ <;> rw [howner] <;> rfl)
    have hfree := h.unlocked hnot
    refine ⟨_, if_pos (by rw [Refs.pinned, hfree, hsources]; decide),
      ⟨?_, h.tokens, h.stop, hfree, ?_⟩, fun horphans => ?_⟩
    · exact congrArg (· - 1) hsources
    · intro hdestroyed
      cases hdestroyed
    · cases horphans.1
  | destroy howner hjoined =>
    have hsources : r.sources = 1 := h.sources.trans (by rw [howner]; rfl)
    have hfree := h.unlocked (by rw [howner]; decide)
    refine ⟨_, if_pos (by rw [Refs.pinned, hfree, hsources]; decide),
      ⟨?_, h.tokens, h.stop, hfree, fun _ => hjoined⟩, fun horphans => ?_⟩
    · exact congrArg (· - 1) hsources
    · cases horphans.1

theorem Owns.run (h : Owns j r) (trace : Trace Step j ops j') :
    ∃ r', ops.foldlM Refs.use r = some r' ∧ Owns j' r' ∧
      Along Refs.use (fun r op => ¬ r.Orphans op) r ops := by
  induction trace generalizing r with
  | nil => exact ⟨r, rfl, h, trivial⟩
  | cons first _ ih =>
    obtain ⟨r₁, huse, h₁, horphans⟩ := h.step first
    obtain ⟨r', hrest, h', hall⟩ := ih h₁
    refine ⟨r', ?_, h', (Along.cons_iff huse).mpr ⟨horphans, hall⟩⟩
    rw [List.foldlM_cons, huse]
    exact hrest

theorem owns_start : Owns {} { tokens := 1 } where
  sources := rfl
  tokens := rfl
  stop := rfl
  locked := rfl
  joined h := by cases h

theorem Owns.gone_iff (h : Owns j r) : r.Gone ↔ j.owner = .destroyed := by
  rw [Refs.Gone, h.sources, h.tokens]
  cases howner : j.owner with
  | destroyed => exact iff_of_true ⟨rfl, h.joined howner⟩ rfl
  | held | copied | signalling | signalled =>
    exact iff_of_false (fun hgone => by cases hgone.1) (by decide)

/-- **Each `jthread` frees its stop state once**, when it is destroyed, however its owner and the
thread interleave. Nobody uses it after that, and until then the thread sees whether the owner has
asked it to stop. -/
theorem frees_once (trace : Trace Step {} ops j) :
    ∃ s, (Op.addToken :: ops).foldlM StopState.apply {} = some s ∧
      Along StopState.apply (fun s _ => s.deletions = 0) {} (.addToken :: ops) ∧
      s.deletions = (if j.owner = .destroyed then 1 else 0) ∧
      isStopRequested s.state = j.stop := by
  obtain ⟨r, hrest, hj, hall⟩ := owns_start.run trace
  have hfirst : Refs.use {} .addToken = some { tokens := 1 } := rfl
  have huse : (Op.addToken :: ops).foldlM Refs.use {} = some r := by
    rw [List.foldlM_cons, hfirst]
    exact hrest
  have hnone : Along Refs.use (fun r op => ¬ r.Orphans op) {} (Op.addToken :: ops) :=
    (Along.cons_iff hfirst).mpr ⟨fun horphans => (by cases horphans.1), hall⟩
  obtain ⟨s, happly, h⟩ := represents_start.run huse
  obtain ⟨halive, hdeletions⟩ := (represents_start.freedByLast_iff rfl huse happly).mpr hnone
  refine ⟨s, happly, halive, ?_, (isStopRequested_eq h).trans hj.stop⟩
  rw [hdeletions]
  simp only [hj.gone_iff]

/-- The thread passes a copy of its token on while it is asked to stop. -/
theorem stopped_frees_once : ∃ s, (Op.addToken :: [.addToken, .addSource, .signal, .removeToken,
      .unlock, .removeSource, .removeToken, .removeSource]).foldlM StopState.apply {} = some s ∧
    Along StopState.apply (fun s _ => s.deletions = 0) {} (Op.addToken :: [.addToken, .addSource,
      .signal, .removeToken, .unlock, .removeSource, .removeToken, .removeSource]) ∧
    s.deletions = (if Owning.destroyed = .destroyed then 1 else 0) ∧
    isStopRequested s.state = true :=
  frees_once (.cons (.copyToken (by decide) (by decide)) (.cons (.copySource rfl)
    (.cons (.signal rfl rfl) (.cons (.dropToken (by decide)) (.cons (.unlock rfl)
      (.cons (.dropSource (Or.inl rfl)) (.cons (.dropToken (by decide))
        (.cons (.destroy rfl rfl) (.nil _)))))))))

end JThread

end WhisperNet
