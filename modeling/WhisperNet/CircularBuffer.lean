import Mathlib.Data.Int.ModEq
import WhisperNet.Lib.BoundedDeque

/-!
# The circular buffer

`finalizeable_circular_buffer_array<T, N>`: an array used in a circle, and a function that is called
on a value before its cell is used for another.

The comment at the top of the class says that a cell has to stay unused between the end and the
start. None does, `capacity()` is `N`: where an iterator stands is not all that tells `begin()` from
`end()`, it also remembers that it is the first. That takes care of a full buffer, but in an empty
one it keeps `begin()` and `end()` apart as well.

* `run_refines` — the buffer is a bounded deque, and finalizes what leaves it.
* `visited_eq` — a range-based for loop goes over the contents, or over every cell if there are none.
* `destroyed_finalized` — what has been finalized when the buffer is gone.
-/

namespace WhisperNet

open BoundedDeque

structure CircularBuffer (α : Type) (N : Nat) where
  cells : Fin N → α
  size : Nat
  start : Fin N
  size_le : size ≤ N
  /-- The values that the finalizer has been called on, in order. -/
  finalized : List α := []

namespace CircularBuffer

variable {α : Type} {N : Nat}

/-! ## Circle space -/

def increment (n : Fin N) : Fin N := ⟨(n + 1) % N, Nat.mod_lt _ n.pos⟩

def decrement (n : Fin N) : Fin N :=
  if n.val = 0 then ⟨N - 1, Nat.sub_lt n.pos Nat.one_pos⟩
  else ⟨(n - 1) % N, Nat.mod_lt _ n.pos⟩

/-- The cell of the element at `index`, counted from `start`. -/
def slot (start : Fin N) (index : Nat) : Fin N := ⟨(start + index) % N, Nat.mod_lt _ start.pos⟩

@[simp] theorem slot_zero (start : Fin N) : slot start 0 = start :=
  Fin.ext (Nat.mod_eq_of_lt start.isLt)

theorem slot_eq_iff (start : Fin N) {i j : Nat} : slot start i = slot start j ↔ Nat.ModEq N i j := by
  rw [slot, slot, Fin.mk.injEq]
  exact ⟨Nat.ModEq.add_left_cancel' _, Nat.ModEq.add_left _⟩

@[simp] theorem slot_capacity (start : Fin N) : slot start N = start := by
  conv_rhs => rw [← slot_zero start]
  rw [slot_eq_iff, Nat.ModEq, Nat.mod_self, Nat.zero_mod]

theorem slot_ne (start : Fin N) {i j : Nat} (hi : i < N) (hj : j < N) (h : i ≠ j) :
    slot start i ≠ slot start j := by
  rw [Ne, slot_eq_iff, Nat.ModEq, Nat.mod_eq_of_lt hi, Nat.mod_eq_of_lt hj]
  exact h

theorem increment_slot (start : Fin N) (i : Nat) : increment (slot start i) = slot start (i + 1) :=
  Fin.ext (Nat.mod_add_mod _ _ _)

theorem slot_increment (start : Fin N) (i : Nat) : slot (increment start) i = slot start (i + 1) := by
  refine Fin.ext ((Nat.mod_add_mod _ _ _).trans ?_)
  rw [Nat.add_right_comm, Nat.add_assoc, slot]

theorem slot_increment_ne (start : Fin N) {k : Nat} (hk : k + 1 < N) :
    slot (increment start) k ≠ start := by
  rw [slot_increment]
  conv_rhs => rw [← slot_zero start]
  exact slot_ne start hk start.pos (Nat.succ_ne_zero k)

theorem decrement_eq (start : Fin N) : decrement start = slot start (N - 1) := by
  have hlt := start.isLt
  unfold decrement
  split
  case isTrue h =>
    have hmod : (start.val + (N - 1)) % N = N - 1 := by
      rw [h, Nat.zero_add, Nat.mod_eq_of_lt (by omega)]
    exact Fin.ext hmod.symm
  case isFalse h =>
    have hmod : (start.val + (N - 1)) % N = (start.val - 1) % N := by
      rw [show start.val + (N - 1) = start.val - 1 + N by omega, Nat.add_mod_right]
    exact Fin.ext hmod.symm

theorem increment_decrement (start : Fin N) : increment (decrement start) = start := by
  rw [decrement_eq, increment_slot, Nat.sub_add_cancel start.pos, slot_capacity]

/-! ## The operations -/

/-- `operator[]` -/
def get (b : CircularBuffer α N) (index : Nat) : α := b.cells (slot b.start index)

/-- `_end()` -/
def endIndex (b : CircularBuffer α N) : Fin N := slot b.start b.size

/-- The elements from the start to the end. -/
def contents (b : CircularBuffer α N) : List α := (List.range b.size).map b.get

section Operations

-- The new value of the cell, unless the finalizer throws.
variable (finalizer : α → Option α)

def finalize (b : CircularBuffer α N) (i : Fin N) : Option (CircularBuffer α N) :=
  (finalizer (b.cells i)).map fun a => { b with
    cells := Function.update b.cells i a
    finalized := b.finalized ++ [b.cells i] }

def write (b : CircularBuffer α N) (i : Fin N) (a : α) : CircularBuffer α N :=
  { b with cells := Function.update b.cells i a }

/-- `push_front`, and `emplace_front`. -/
def pushFront (b : CircularBuffer α N) (a : α) : Option (CircularBuffer α N) :=
  let start := decrement b.start
  if h : b.size < N then
    some ({ b with start, size := b.size + 1, size_le := h }.write start a)
  else
    -- Finalize the value we are about to overwrite.
    (finalize finalizer { b with start } start).map fun b => b.write start a

def popFront (b : CircularBuffer α N) : Option (CircularBuffer α N) :=
  if 0 < b.size then
    (b.finalize finalizer b.start).map fun b => { b with
      start := increment b.start
      size := b.size - 1
      size_le := (Nat.sub_le _ _).trans b.size_le }
  else some b

/-- `push_back`, and `emplace_back`. -/
def pushBack (b : CircularBuffer α N) (a : α) : Option (CircularBuffer α N) :=
  if h : b.size < N then
    some { b.write b.endIndex a with size := b.size + 1, size_le := h }
  else
    -- Finalize the value we are about to overwrite.
    (b.finalize finalizer b.endIndex).map fun b =>
      { b.write b.endIndex a with start := increment b.start }

def popBack (b : CircularBuffer α N) : Option (CircularBuffer α N) :=
  if 0 < b.size then
    let b := { b with size := b.size - 1, size_le := (Nat.sub_le _ _).trans b.size_le }
    b.finalize finalizer b.endIndex
  else some b

def apply (b : CircularBuffer α N) : Op α → Option (CircularBuffer α N)
  | .pushFront a => b.pushFront finalizer a
  | .popFront => b.popFront finalizer
  | .pushBack a => b.pushBack finalizer a
  | .popBack => b.popBack finalizer

def run (b : CircularBuffer α N) (ops : List (Op α)) : Option (CircularBuffer α N) :=
  ops.foldlM (apply finalizer) b

end Operations

/-! ## A bounded deque -/

section Elements

/-- `n` elements from `start` on. -/
def elements (cells : Fin N → α) (start : Fin N) (n : Nat) : List α :=
  (List.range n).map fun i => cells (slot start i)

variable (cells : Fin N → α) (start : Fin N) (n : Nat)

theorem elements_snoc :
    elements cells start (n + 1) = elements cells start n ++ [cells (slot start n)] := by
  rw [elements, List.range_succ, List.map_append]
  rfl

theorem elements_cons :
    elements cells start (n + 1) = cells start :: elements cells (increment start) n := by
  rw [elements, List.range_succ_eq_map, List.map_cons, List.map_map, slot_zero, elements]
  simp only [slot_increment, Function.comp_def]

variable {cells start n}

/-- A cell that none of them is in may be written to. -/
theorem elements_update {i : Fin N} (a : α) (h : ∀ k < n, slot start k ≠ i) :
    elements (Function.update cells i a) start n = elements cells start n := by
  refine List.map_congr_left fun k hk => ?_
  rw [Function.update_of_ne (h k (List.mem_range.mp hk))]

end Elements

section Refinement

variable {finalizer : α → Option α} {b b' : CircularBuffer α N}

/-- The bounded deque that the buffer is. -/
def toDeque (b : CircularBuffer α N) : State α := ⟨b.contents, b.finalized⟩

@[simp] theorem length_contents (b : CircularBuffer α N) : b.contents.length = b.size := by
  rw [contents, List.length_map, List.length_range]

theorem contents_eq_nil {b : CircularBuffer α N} : b.contents = [] ↔ b.size = 0 := by
  rw [← List.length_eq_zero_iff, length_contents]

theorem contents_eq (b : CircularBuffer α N) :
    b.contents = elements b.cells b.start b.size := rfl

theorem finalize_eq_some {i : Fin N} (h : b.finalize finalizer i = some b') :
    ∃ a, b' = { b with
      cells := Function.update b.cells i a
      finalized := b.finalized ++ [b.cells i] } := by
  obtain ⟨a, -, rfl⟩ := Option.map_eq_some_iff.mp h
  exact ⟨a, rfl⟩

theorem pushFront_refines {a : α} (h : b.pushFront finalizer a = some b') :
    b'.toDeque = BoundedDeque.apply N b.toDeque (.pushFront a) := by
  have hN := b.start.pos
  -- The cell before the start is none of those that come first.
  have hfresh : ∀ k < N - 1, slot b.start k ≠ decrement b.start := fun k hk => by
    rw [decrement_eq]
    exact slot_ne _ (by omega) (by omega) hk.ne
  unfold pushFront at h
  rw [BoundedDeque.apply, toDeque, toDeque, length_contents]
  by_cases hsize : b.size < N
  · rw [dif_pos hsize] at h
    obtain rfl := Option.some_inj.mp h
    rw [if_pos hsize, State.mk.injEq]
    refine ⟨?_, rfl⟩
    show elements (Function.update b.cells (decrement b.start) a) (decrement b.start)
      (b.size + 1) = a :: elements b.cells b.start b.size
    rw [elements_cons, Function.update_self, increment_decrement,
      elements_update _ fun k hk => hfresh k (by omega)]
  · rw [dif_neg hsize, Option.map_eq_some_iff] at h
    obtain ⟨b₁, hfinalize, rfl⟩ := h
    obtain ⟨c, rfl⟩ := finalize_eq_some hfinalize
    have hfull : b.size = N - 1 + 1 := by
      have hle := b.size_le
      omega
    have hold : b.contents =
        elements b.cells b.start (N - 1) ++ [b.cells (decrement b.start)] := by
      rw [contents_eq, hfull, elements_snoc, decrement_eq]
    rw [if_neg hsize, hold, List.dropLast_concat, List.getLast?_concat, State.mk.injEq]
    refine ⟨?_, rfl⟩
    show elements (Function.update (Function.update b.cells (decrement b.start) c)
      (decrement b.start) a) (decrement b.start) b.size = _
    rw [Function.update_idem, hfull, elements_cons, Function.update_self, increment_decrement,
      elements_update _ hfresh]

theorem popFront_refines (h : b.popFront finalizer = some b') :
    b'.toDeque = BoundedDeque.apply N b.toDeque .popFront := by
  unfold popFront at h
  rw [BoundedDeque.apply, toDeque, toDeque]
  by_cases hsize : 0 < b.size
  · rw [if_pos hsize, Option.map_eq_some_iff] at h
    obtain ⟨b₁, hfinalize, rfl⟩ := h
    obtain ⟨c, rfl⟩ := finalize_eq_some hfinalize
    have hold : b.contents =
        b.cells b.start :: elements b.cells (increment b.start) (b.size - 1) := by
      rw [contents_eq, ← elements_cons, Nat.sub_add_cancel hsize]
    rw [hold, List.tail_cons, List.head?_cons, State.mk.injEq]
    refine ⟨?_, rfl⟩
    show elements (Function.update b.cells b.start c) (increment b.start) (b.size - 1) = _
    have hle := b.size_le
    exact elements_update _ fun k hk => slot_increment_ne _ (by omega)
  · rw [if_neg hsize] at h
    obtain rfl := Option.some_inj.mp h
    have hnil : b.contents = [] := contents_eq_nil.mpr (by omega)
    rw [hnil, List.tail_nil, List.head?_nil, Option.toList_none, List.append_nil]

theorem pushBack_refines {a : α} (h : b.pushBack finalizer a = some b') :
    b'.toDeque = BoundedDeque.apply N b.toDeque (.pushBack a) := by
  have hN := b.start.pos
  unfold pushBack at h
  rw [BoundedDeque.apply, toDeque, toDeque, length_contents]
  by_cases hsize : b.size < N
  · rw [dif_pos hsize] at h
    obtain rfl := Option.some_inj.mp h
    rw [if_pos hsize, State.mk.injEq]
    refine ⟨?_, rfl⟩
    show elements (Function.update b.cells (slot b.start b.size) a) b.start (b.size + 1) = _
    rw [elements_snoc, Function.update_self,
      elements_update _ fun k hk => slot_ne _ (by omega) hsize hk.ne, contents_eq]
  · rw [dif_neg hsize, Option.map_eq_some_iff] at h
    obtain ⟨b₁, hfinalize, rfl⟩ := h
    obtain ⟨c, rfl⟩ := finalize_eq_some hfinalize
    have hfull : b.size = N - 1 + 1 := by
      have hle := b.size_le
      omega
    -- The end has come round to the start.
    have hend : slot b.start b.size = b.start := by
      rw [hfull, Nat.sub_add_cancel hN, slot_capacity]
    have hold : b.contents = b.cells b.start :: elements b.cells (increment b.start) (N - 1) := by
      rw [contents_eq, hfull, elements_cons]
    rw [if_neg hsize, hold, List.tail_cons, List.head?_cons, State.mk.injEq]
    refine ⟨?_, by rw [endIndex, hend]; rfl⟩
    show elements (Function.update (Function.update b.cells (slot b.start b.size) c)
      (slot b.start b.size) a) (increment b.start) b.size = _
    have hlast : slot (increment b.start) (N - 1) = b.start := by
      rw [slot_increment, Nat.sub_add_cancel hN, slot_capacity]
    rw [Function.update_idem, hend, hfull, elements_snoc, hlast, Function.update_self,
      elements_update _ fun k hk => slot_increment_ne _ (by omega)]

theorem popBack_refines (h : b.popBack finalizer = some b') :
    b'.toDeque = BoundedDeque.apply N b.toDeque .popBack := by
  unfold popBack at h
  rw [BoundedDeque.apply, toDeque, toDeque]
  by_cases hsize : 0 < b.size
  · rw [if_pos hsize] at h
    obtain ⟨c, rfl⟩ := finalize_eq_some h
    have hle := b.size_le
    have hold : b.contents =
        elements b.cells b.start (b.size - 1) ++ [b.cells (slot b.start (b.size - 1))] := by
      rw [contents_eq, ← elements_snoc, Nat.sub_add_cancel hsize]
    rw [hold, List.dropLast_concat, List.getLast?_concat, State.mk.injEq]
    refine ⟨?_, rfl⟩
    show elements (Function.update b.cells (slot b.start (b.size - 1)) c) b.start
      (b.size - 1) = _
    exact elements_update _ fun k hk => slot_ne _ (by omega) (by omega) hk.ne
  · rw [if_neg hsize] at h
    obtain rfl := Option.some_inj.mp h
    have hnil : b.contents = [] := contents_eq_nil.mpr (by omega)
    rw [hnil, List.dropLast_nil, List.getLast?_nil, Option.toList_none, List.append_nil]

theorem apply_refines {op : Op α} (h : b.apply finalizer op = some b') :
    b'.toDeque = BoundedDeque.apply N b.toDeque op := by
  cases op with
  | pushFront a => exact pushFront_refines h
  | popFront => exact popFront_refines h
  | pushBack a => exact pushBack_refines h
  | popBack => exact popBack_refines h

/-- **The buffer is a bounded deque.** -/
theorem run_refines {ops : List (Op α)} (h : b.run finalizer ops = some b') :
    b'.toDeque = BoundedDeque.run N b.toDeque ops := by
  induction ops generalizing b with
  | nil =>
    obtain rfl := Option.some_inj.mp h
    rfl
  | cons op ops ih =>
    rw [run, List.foldlM_cons, Option.bind_eq_bind, Option.bind_eq_some_iff] at h
    obtain ⟨b₁, hfirst, hrest⟩ := h
    rw [ih hrest, apply_refines hfirst, run_cons]

end Refinement

/-! ## Iteration -/

/-- The cells an iterator at `i` goes over until it equals `end()`. -/
def iterate (b : CircularBuffer α N) : Nat → Fin N → Bool → Option (List (Fin N))
  | 0, _, _ => none
  | fuel + 1, i, isBegin =>
    if i = b.endIndex ∧ isBegin = false then some []
    else (b.iterate fuel (increment i) false).map (i :: ·)

/-- `for(auto& e: *this)` -/
def visited (b : CircularBuffer α N) : Option (List (Fin N)) := b.iterate (N + 1) b.start true

/-- How many cells a loop goes over. -/
def rounds (b : CircularBuffer α N) : Nat := if b.size = 0 then N else b.size

theorem slot_rounds (b : CircularBuffer α N) : slot b.start b.rounds = b.endIndex := by
  unfold rounds endIndex
  split
  case isTrue h => rw [h, slot_capacity, slot_zero]
  case isFalse h => rfl

theorem rounds_le (b : CircularBuffer α N) : b.rounds ≤ N := by
  unfold rounds
  split
  · exact le_rfl
  · exact b.size_le

theorem rounds_pos (b : CircularBuffer α N) : 0 < b.rounds := by
  have hN := b.start.pos
  unfold rounds
  split <;> omega

/-- Past the first cell, the end is where the elements end. -/
theorem slot_ne_endIndex (b : CircularBuffer α N) {k : Nat} (hk : 0 < k) (hlt : k < b.rounds) :
    slot b.start k ≠ b.endIndex := by
  have hle := b.rounds_le
  rw [← slot_rounds, Ne, slot_eq_iff, Nat.ModEq, Nat.mod_eq_of_lt (hlt.trans_le hle)]
  rcases hle.lt_or_eq with h | h
  · rw [Nat.mod_eq_of_lt h]
    exact hlt.ne
  · rw [h, Nat.mod_self]
    exact hk.ne'

theorem iterate_eq (b : CircularBuffer α N) (left : Nat) {k fuel : Nat} (hk : 0 < k)
    (hleft : k + left = b.rounds) (hfuel : left < fuel) :
    b.iterate fuel (slot b.start k) false = some ((List.range' k left).map (slot b.start)) := by
  induction left generalizing k fuel with
  | zero =>
    obtain ⟨fuel, rfl⟩ := Nat.exists_eq_succ_of_ne_zero hfuel.ne'
    rw [Nat.add_zero] at hleft
    rw [iterate, hleft, slot_rounds, if_pos ⟨rfl, rfl⟩]
    rfl
  | succ left ih =>
    obtain ⟨fuel, rfl⟩ := Nat.exists_eq_succ_of_ne_zero (Nat.ne_zero_of_lt hfuel)
    have hne := b.slot_ne_endIndex hk (by omega)
    rw [iterate, if_neg fun h => hne h.1, increment_slot,
      ih (Nat.succ_pos k) (by omega) (by omega)]
    rfl

/-- **The cells of a loop.** If there are no elements it goes over all cells. -/
theorem visited_eq (b : CircularBuffer α N) :
    b.visited = some ((List.range b.rounds).map (slot b.start)) := by
  have hpos := b.rounds_pos
  have hle := b.rounds_le
  have hrest : b.iterate N (slot b.start 1) false =
      some ((List.range' 1 (b.rounds - 1)).map (slot b.start)) :=
    b.iterate_eq (b.rounds - 1) Nat.one_pos (by omega) (by omega)
  rw [visited, iterate, if_neg (by simp)]
  conv_lhs => rw [← slot_zero b.start, increment_slot, slot_zero, hrest]
  rw [Option.map_some, List.range_eq_range', show b.rounds = b.rounds - 1 + 1 by omega,
    List.range'_succ, List.map_cons, slot_zero]
  rfl

section Clear

variable (finalizer : α → Option α)

/-- `finalize_all`, where the loop comes to an end. -/
def finalizeAll (b : CircularBuffer α N) : Option (CircularBuffer α N) := do
  (← b.visited).foldlM (finalize finalizer) b

/-- `clear`, which is all that the destructor does. -/
def clear (b : CircularBuffer α N) : Option (CircularBuffer α N) :=
  (b.finalizeAll finalizer).map fun b =>
    { b with start := ⟨0, b.start.pos⟩, size := 0, size_le := Nat.zero_le N }

end Clear

section Destruction

variable {finalizer : α → Option α} {b b' : CircularBuffer α N}

theorem foldlM_finalize {slots : List (Fin N)} (hnodup : slots.Nodup)
    (h : slots.foldlM (finalize finalizer) b = some b') :
    b'.finalized = b.finalized ++ slots.map b.cells := by
  induction slots generalizing b with
  | nil =>
    obtain rfl := Option.some_inj.mp h
    rw [List.map_nil, List.append_nil]
  | cons i slots ih =>
    obtain ⟨hi, hslots⟩ := List.nodup_cons.mp hnodup
    rw [List.foldlM_cons, Option.bind_eq_bind, Option.bind_eq_some_iff] at h
    obtain ⟨b₁, hfirst, hrest⟩ := h
    obtain ⟨a, rfl⟩ := finalize_eq_some hfirst
    -- The cells after `i` still have the values they had.
    have hmap : slots.map (Function.update b.cells i a) = slots.map b.cells :=
      List.map_congr_left fun j hj => Function.update_of_ne (ne_of_mem_of_not_mem hj hi) _ _
    rw [ih hslots hrest, hmap, List.map_cons, List.append_assoc, List.singleton_append]

theorem nodup_visited (b : CircularBuffer α N) :
    ((List.range b.rounds).map (slot b.start)).Nodup := by
  have hle := b.rounds_le
  refine List.nodup_range.map_on fun i hi j hj h => ?_
  rw [List.mem_range] at hi hj
  by_contra hne
  exact slot_ne b.start (by omega) (by omega) hne h

theorem clear_finalized (h : b.clear finalizer = some b') :
    b'.finalized = b.finalized ++ (List.range b.rounds).map b.get := by
  obtain ⟨b₁, hall, rfl⟩ := Option.map_eq_some_iff.mp h
  rw [finalizeAll, visited_eq] at hall
  exact (foldlM_finalize b.nodup_visited hall).trans (by rw [List.map_map]; rfl)

/-- A new buffer. All its cells have the value of a new array. -/
def fresh (a : α) (hN : 0 < N) : CircularBuffer α N where
  cells _ := a
  size := 0
  start := ⟨0, hN⟩
  size_le := Nat.zero_le N

/-- What a buffer has finalized by the end of its life: every value pushed, and, if none of them is
in it when it is destroyed, the value of every cell. -/
theorem destroyed_finalized {a : α} {hN : 0 < N} {ops : List (Op α)}
    (hrun : (fresh a hN).run finalizer ops = some b) (hclear : b.clear finalizer = some b') :
    (b'.finalized : Multiset α) = (ops.flatMap Op.pushed : List α) +
      ((if b.contents = [] then (List.range N).map b.get else [] : List α) : Multiset α) := by
  have hdeque := run_refines hrun
  have hconserves := BoundedDeque.run_conserves N ops (fresh a hN).toDeque
  rw [← hdeque] at hconserves
  have hpushed : (b.finalized : Multiset α) + b.contents = (ops.flatMap Op.pushed : List α) :=
    hconserves.trans (zero_add _)
  rw [clear_finalized hclear, ← Multiset.coe_add, ← hpushed]
  by_cases hnil : b.contents = []
  · rw [if_pos hnil, rounds, if_pos (contents_eq_nil.mp hnil), hnil, Multiset.coe_nil, add_zero]
  · rw [if_neg hnil, rounds, if_neg fun h => hnil (contents_eq_nil.mpr h), Multiset.coe_nil,
      add_zero]
    rfl

end Destruction

section Total

variable {finalizer : α → Option α} (hf : ∀ a, (finalizer a).isSome)
include hf

theorem finalize_isSome (b : CircularBuffer α N) (i : Fin N) :
    (b.finalize finalizer i).isSome := by
  rw [finalize, Option.isSome_map]
  exact hf _

theorem apply_isSome (b : CircularBuffer α N) (op : Op α) : (b.apply finalizer op).isSome := by
  cases op with
  | pushFront a =>
    rw [apply, pushFront]
    split
    · rfl
    · rw [Option.isSome_map]
      exact finalize_isSome hf _ _
  | popFront =>
    rw [apply, popFront]
    split
    · rw [Option.isSome_map]
      exact finalize_isSome hf _ _
    · rfl
  | pushBack a =>
    rw [apply, pushBack]
    split
    · rfl
    · rw [Option.isSome_map]
      exact finalize_isSome hf _ _
  | popBack =>
    rw [apply, popBack]
    split
    · exact finalize_isSome hf _ _
    · rfl

theorem run_isSome (ops : List (Op α)) (b : CircularBuffer α N) :
    (b.run finalizer ops).isSome := by
  induction ops generalizing b with
  | nil => rfl
  | cons op ops ih =>
    obtain ⟨b', hb'⟩ := Option.isSome_iff_exists.mp (apply_isSome hf b op)
    rw [run, List.foldlM_cons, hb']
    exact ih b'

theorem foldlM_finalize_isSome (slots : List (Fin N)) (b : CircularBuffer α N) :
    (slots.foldlM (finalize finalizer) b).isSome := by
  induction slots generalizing b with
  | nil => rfl
  | cons i slots ih =>
    obtain ⟨b', hb'⟩ := Option.isSome_iff_exists.mp (finalize_isSome hf b i)
    rw [List.foldlM_cons, hb']
    exact ih b'

theorem clear_isSome (b : CircularBuffer α N) : (b.clear finalizer).isSome := by
  rw [clear, Option.isSome_map, finalizeAll, visited_eq]
  exact foldlM_finalize_isSome hf _ b

end Total

/-! ## Whole lives -/

section Lives

variable {finalizer : α → Option α}

/-- **What the buffer holds** after any operations, and what a loop then goes over. -/
theorem bounded_deque (hf : ∀ a, (finalizer a).isSome) (b : CircularBuffer α N)
    (ops : List (Op α)) :
    ∃ b', b.run finalizer ops = some b' ∧
      b'.toDeque = BoundedDeque.run N b.toDeque ops ∧
      b'.visited.map (List.map b'.cells) =
        some (if b'.contents = [] then (List.range N).map b'.get else b'.contents) := by
  obtain ⟨b', hb'⟩ := Option.isSome_iff_exists.mp (run_isSome hf ops b)
  refine ⟨b', hb', run_refines hb', ?_⟩
  rw [visited_eq, Option.map_some, List.map_map, rounds]
  by_cases hnil : b'.contents = []
  · rw [if_pos hnil, if_pos (contents_eq_nil.mp hnil)]
    rfl
  · rw [if_neg hnil, if_neg fun h => hnil (contents_eq_nil.mpr h)]
    rfl

/-- **Finalized once.** A buffer finalizes every value that is pushed into it exactly once by the
end of its life, unless it is empty when it is destroyed. -/
theorem finalized_once_iff (hf : ∀ a, (finalizer a).isSome) (a : α) (hN : 0 < N)
    (ops : List (Op α)) :
    ∃ b b', (fresh a hN).run finalizer ops = some b ∧ b.clear finalizer = some b' ∧
      (b'.finalized.Perm (ops.flatMap Op.pushed) ↔ b.contents ≠ []) := by
  obtain ⟨b, hrun⟩ := Option.isSome_iff_exists.mp (run_isSome hf ops (fresh a hN))
  obtain ⟨b', hclear⟩ := Option.isSome_iff_exists.mp (clear_isSome hf b)
  refine ⟨b, b', hrun, hclear, ?_⟩
  rw [← Multiset.coe_eq_coe, destroyed_finalized hrun hclear]
  by_cases hnil : b.contents = []
  · refine iff_of_false (fun h => ?_) (not_not_intro hnil)
    rw [if_pos hnil] at h
    have hcard := congrArg Multiset.card h
    rw [Multiset.card_add, Multiset.coe_card, Multiset.coe_card, List.length_map,
      List.length_range] at hcard
    omega
  · rw [if_neg hnil, Multiset.coe_nil, add_zero]
    exact iff_of_true rfl hnil

/-- A buffer of three cells that has gone round once. -/
theorem bounded_deque_three : ∃ b' : CircularBuffer Nat 3,
    (fresh 0 (Nat.succ_pos 2)).run some
      [.pushBack 1, .pushBack 2, .pushFront 3, .pushBack 4] = some b' ∧
      b'.toDeque = ⟨[1, 2, 4], [3]⟩ ∧ b'.visited.map (List.map b'.cells) = some [1, 2, 4] := by
  obtain ⟨b', hrun, hdeque, hvisited⟩ := @bounded_deque Nat 3 some (fun _ => rfl)
    (fresh 0 (Nat.succ_pos 2)) [.pushBack 1, .pushBack 2, .pushFront 3, .pushBack 4]
  have hcontents : b'.contents = [1, 2, 4] := congrArg BoundedDeque.State.contents hdeque
  refine ⟨b', hrun, hdeque, ?_⟩
  rw [hvisited, hcontents]
  rfl

/-- The buffer is empty again when it is destroyed. -/
theorem finalized_again : ∃ b b' : CircularBuffer Nat 3,
    (fresh 0 (Nat.succ_pos 2)).run some [.pushBack 1, .popFront] = some b ∧
      b.clear some = some b' ∧ (b'.finalized.Perm [1] ↔ b.contents ≠ []) :=
  @finalized_once_iff Nat 3 some (fun _ => rfl) 0 (Nat.succ_pos 2) [.pushBack 1, .popFront]

end Lives

end CircularBuffer

end WhisperNet
