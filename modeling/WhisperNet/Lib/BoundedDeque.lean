import Mathlib.Algebra.Order.Group.Multiset
import Mathlib.Data.List.Induction
import Mathlib.Tactic.Abel

/-!
# Bounded deques

A sequence with room for `cap` values. A value pushed at one end of a full sequence makes the one
at the other end leave.

* `run_length_le` — there are never more than `cap`.
* `run_conserves` — what has been pushed is there or has left, each value once.
* `run_pushBacks` — of values pushed at the back, the last `cap` are there, and the others have left
  in order.
-/

namespace BoundedDeque

variable {α : Type*}

inductive Op (α : Type*)
  | pushFront (a : α)
  | popFront
  | pushBack (a : α)
  | popBack
  deriving DecidableEq

/-- What is there, and what has left, in the order it left. -/
structure State (α : Type*) where
  contents : List α := []
  gone : List α := []
  deriving DecidableEq

/-- The value that an operation brings in. -/
def Op.pushed : Op α → List α
  | pushFront a | pushBack a => [a]
  | popFront | popBack => []

variable (cap : Nat)

def apply (s : State α) : Op α → State α
  | .pushFront a =>
    if s.contents.length < cap then ⟨a :: s.contents, s.gone⟩
    else ⟨a :: s.contents.dropLast, s.gone ++ s.contents.getLast?.toList⟩
  | .popFront => ⟨s.contents.tail, s.gone ++ s.contents.head?.toList⟩
  | .pushBack a =>
    if s.contents.length < cap then ⟨s.contents ++ [a], s.gone⟩
    else ⟨s.contents.tail ++ [a], s.gone ++ s.contents.head?.toList⟩
  | .popBack => ⟨s.contents.dropLast, s.gone ++ s.contents.getLast?.toList⟩

def run (s : State α) (ops : List (Op α)) : State α := ops.foldl (apply cap) s

@[simp] theorem run_nil (s : State α) : run cap s [] = s := rfl

@[simp] theorem run_cons (s : State α) (op : Op α) (ops : List (Op α)) :
    run cap s (op :: ops) = run cap (apply cap s op) ops := rfl

/-! ## One operation -/

theorem head_add_tail (l : List α) : (l.head?.toList : Multiset α) + l.tail = l := by
  cases l <;> rfl

theorem last_add_dropLast (l : List α) :
    (l.getLast?.toList : Multiset α) + l.dropLast = l := by
  rcases List.eq_nil_or_concat' l with rfl | ⟨l, a, rfl⟩
  · rfl
  · rw [List.getLast?_append_of_ne_nil _ (List.cons_ne_nil _ _), List.dropLast_concat,
      ← Multiset.coe_add, add_comm]
    rfl

/-- **Conservation.** -/
theorem apply_conserves (s : State α) (op : Op α) :
    ((apply cap s op).gone : Multiset α) + (apply cap s op).contents =
      s.gone + s.contents + op.pushed := by
  cases op with
  | pushFront a =>
    by_cases h : s.contents.length < cap
    · rw [apply, if_pos h, ← Multiset.cons_coe, ← Multiset.singleton_add, Op.pushed,
        Multiset.coe_singleton]
      abel
    · rw [apply, if_neg h, ← Multiset.cons_coe, ← Multiset.singleton_add, Op.pushed,
        Multiset.coe_singleton, ← Multiset.coe_add, ← last_add_dropLast s.contents]
      abel
  | popFront =>
    rw [apply, Op.pushed, Multiset.coe_nil, add_zero, ← Multiset.coe_add, add_assoc,
      head_add_tail]
  | pushBack a =>
    by_cases h : s.contents.length < cap
    · rw [apply, if_pos h, ← Multiset.coe_add, Op.pushed, add_assoc]
    · rw [apply, if_neg h, ← Multiset.coe_add, ← Multiset.coe_add, Op.pushed,
        ← head_add_tail s.contents]
      abel
  | popBack =>
    rw [apply, Op.pushed, Multiset.coe_nil, add_zero, ← Multiset.coe_add, add_assoc,
      last_add_dropLast]

theorem apply_length_le (hcap : 0 < cap) {s : State α} (h : s.contents.length ≤ cap)
    (op : Op α) : (apply cap s op).contents.length ≤ cap := by
  cases op with
  | pushFront a | pushBack a =>
    rw [apply]
    split <;> simp <;> omega
  | popFront | popBack =>
    simp only [apply, List.length_tail, List.length_dropLast]
    omega

/-! ## Whole runs -/

theorem run_length_le (hcap : 0 < cap) (ops : List (Op α)) {s : State α}
    (h : s.contents.length ≤ cap) : (run cap s ops).contents.length ≤ cap := by
  induction ops generalizing s with
  | nil => exact h
  | cons op ops ih => exact ih (apply_length_le cap hcap h op)

theorem run_conserves (ops : List (Op α)) (s : State α) :
    ((run cap s ops).gone : Multiset α) + (run cap s ops).contents =
      s.gone + s.contents + ops.flatMap Op.pushed := by
  induction ops generalizing s with
  | nil => exact (add_zero _).symm
  | cons op ops ih =>
    rw [run_cons, ih, apply_conserves, List.flatMap_cons, ← Multiset.coe_add, add_assoc]

theorem run_pushBacks (hcap : 0 < cap) (as : List α) :
    run cap {} (as.map .pushBack) = ⟨as.drop (as.length - cap), as.take (as.length - cap)⟩ := by
  induction as using List.reverseRecOn with
  | nil => simp
  | append_singleton as a ih =>
    rw [List.map_append, run, List.foldl_append]
    change apply cap (run cap {} (as.map .pushBack)) (.pushBack a) = _
    rw [ih, apply, List.length_drop, List.length_append, List.length_singleton]
    by_cases h : as.length < cap
    · rw [if_pos (by omega), show as.length + 1 - cap = as.length - cap by omega,
        List.drop_append_of_le_length (by omega), List.take_append_of_le_length (by omega)]
    · have hlt : as.length - cap < as.length := by omega
      rw [if_neg (by omega), show as.length + 1 - cap = as.length - cap + 1 by omega,
        List.drop_append_of_le_length (by omega), List.take_append_of_le_length (by omega),
        List.tail_drop, List.head?_drop, List.take_add_one]

end BoundedDeque
