import WhisperNet.Lib.Run
import Mathlib.Data.List.Basic
import Mathlib.Algebra.BigOperators.Group.List.Basic
import Mathlib.Algebra.GroupWithZero.Nat

/-!
# Diffusing computations

Tokens are handled one at a time, in any order. Handling a token logs some entries and puts
finitely many new tokens in its place. What a whole run does follows from what one token does:

* `Ledger.run_balance` — if every token is worth what handling it logs plus the worth of the tokens
  it leaves, what is logged plus what is pending never changes.
* `Ledger.run_length` — if every token outweighs the tokens it leaves, a run is no longer than the
  tokens it starts from weigh.
* `sum_eraseIdx`, `sum_set` — what a list is worth when one entry goes or changes.
-/

namespace Diffusion

variable {α β : Type*}

/-- Tokens that wait, and the log. -/
structure State (α β : Type*) where
  pending : List α
  log : List β

/-- `react a out` when handling `a` may leave the tokens `out.1` and log `out.2`. -/
abbrev Reaction (α β : Type*) := α → List α × List β → Prop

/-- Any waiting token may be handled next. -/
inductive Step (react : Reaction α β) : State α β → State α β → Prop
  | handle {before after : List α} {a : α} {out : List α × List β} {log : List β}
      (h : react a out) :
      Step react ⟨before ++ a :: after, log⟩ ⟨before ++ after ++ out.1, log ++ out.2⟩

/-- A token that can react gives the state a step. -/
theorem exists_step {react : Reaction α β} {s : State α β} {a : α} {out : List α × List β}
    (ha : a ∈ s.pending) (h : react a out) : ∃ t, Step react s t := by
  obtain ⟨before, after, hsplit⟩ := List.append_of_mem ha
  obtain ⟨pending, log⟩ := s
  obtain rfl : pending = before ++ a :: after := hsplit
  exact ⟨_, .handle h⟩

/-- What is known of every token that can occur: handling it preserves `Token`, is paid for by
`worth`, and leaves tokens that weigh less. -/
structure Ledger (react : Reaction α β) (Token : α → Prop) (value : β → Nat)
    (worth weight : α → Nat) : Prop where
  tokens : ∀ {a out}, Token a → react a out → ∀ b ∈ out.1, Token b
  balance : ∀ {a out}, Token a → react a out →
    worth a = (out.2.map value).sum + (out.1.map worth).sum
  lighter : ∀ {a out}, Token a → react a out → (out.1.map weight).sum < weight a

namespace Ledger

variable {react : Reaction α β} {Token : α → Prop} {value : β → Nat} {worth weight : α → Nat}
  (ledger : Ledger react Token value worth weight)
include ledger

/-! ## One step -/

theorem step_tokens {s t : State α β} (hs : ∀ a ∈ s.pending, Token a) (step : Step react s t) :
    ∀ a ∈ t.pending, Token a := by
  obtain ⟨h⟩ := step
  intro b hb
  rw [List.mem_append, List.mem_append] at hb
  rcases hb with (hb | hb) | hb
  · exact hs b (List.mem_append_left _ hb)
  · exact hs b (List.mem_append_right _ (List.mem_cons_of_mem _ hb))
  · exact ledger.tokens (hs _ (List.mem_append_right _ List.mem_cons_self)) h b hb

theorem step_balance {s t : State α β} (hs : ∀ a ∈ s.pending, Token a) (step : Step react s t) :
    (t.log.map value).sum + (t.pending.map worth).sum =
      (s.log.map value).sum + (s.pending.map worth).sum := by
  obtain ⟨h⟩ := step
  have hpaid := ledger.balance (hs _ (List.mem_append_right _ List.mem_cons_self)) h
  simp only [List.map_append, List.map_cons, List.sum_append, List.sum_cons]
  omega

theorem step_lighter {s t : State α β} (hs : ∀ a ∈ s.pending, Token a) (step : Step react s t) :
    (t.pending.map weight).sum < (s.pending.map weight).sum := by
  obtain ⟨h⟩ := step
  have hless := ledger.lighter (hs _ (List.mem_append_right _ List.mem_cons_self)) h
  simp only [List.map_append, List.map_cons, List.sum_append, List.sum_cons]
  omega

/-! ## Whole runs -/

theorem run_tokens {n : Nat} {s t : State α β} (hs : ∀ a ∈ s.pending, Token a)
    (run : Run (Step react) n s t) : ∀ a ∈ t.pending, Token a :=
  run.invariant hs fun _ _ hs step => ledger.step_tokens hs step

/-- **Nothing is lost or duplicated.** -/
theorem run_balance {n : Nat} {s t : State α β} (hs : ∀ a ∈ s.pending, Token a)
    (run : Run (Step react) n s t) :
    (t.log.map value).sum + (t.pending.map worth).sum =
      (s.log.map value).sum + (s.pending.map worth).sum := by
  induction run with
  | nil => rfl
  | snoc run step ih =>
    rw [ledger.step_balance (ledger.run_tokens hs run) step, ih hs]

/-- **Every run ends.** -/
theorem run_length {n : Nat} {s t : State α β} (hs : ∀ a ∈ s.pending, Token a)
    (run : Run (Step react) n s t) :
    n + (t.pending.map weight).sum ≤ (s.pending.map weight).sum :=
  run.length_le (fun u => (u.pending.map weight).sum) hs
    (fun _ _ hs step => ledger.step_tokens hs step) (fun _ _ hs step => ledger.step_lighter hs step)

end Ledger

/-! ## One entry of a list changes -/

section Entries

variable {a : α} {l : List α} {i : Nat} (f : α → Nat) (h : l[i]? = some a)
include h

theorem sum_eraseIdx : (l.map f).sum = f a + ((l.eraseIdx i).map f).sum := by
  obtain ⟨hlt, rfl⟩ := List.getElem?_eq_some_iff.mp h
  have hperm := ((List.getElem_cons_eraseIdx_perm hlt).map f).sum_eq
  rw [← hperm, List.map_cons, List.sum_cons]

theorem sum_set (b : α) : ((l.set i b).map f).sum + f a = (l.map f).sum + f b := by
  obtain ⟨hlt, -⟩ := List.getElem?_eq_some_iff.mp h
  have hperm := ((List.set_perm_cons_eraseIdx hlt b).map f).sum_eq
  rw [hperm, sum_eraseIdx f h, List.map_cons, List.sum_cons]
  omega

end Entries

end Diffusion
