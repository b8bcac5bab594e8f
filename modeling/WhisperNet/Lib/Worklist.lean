import Mathlib.Logic.Hydra
import Mathlib.Logic.Relation
import Mathlib.Order.WellFounded

/-!
# Loops over a worklist

A loop takes an item from a worklist and either replaces it by finitely many items of lower rank, or
puts it back for later. It comes to an end if an item can be put back only so often before another
is replaced.

* `terminates_iff_acc` — no infinite run, and well-founded induction.
* `terminates_of_progress` — every step replaces an item or uses up a putting back.
* `terminates_iff_never` — such a loop ends exactly if it never comes into a state that it cannot
  leave.
-/

namespace Worklist

open Relation

variable {σ ρ : Type*} {step : σ → σ → Prop}

/-- There is no infinite run from `s`. -/
def Terminates (step : σ → σ → Prop) (s : σ) : Prop :=
  ¬ ∃ run : ℕ → σ, run 0 = s ∧ ∀ n, step (run n) (run (n + 1))

theorem terminates_iff_acc {s : σ} : Terminates step s ↔ Acc (fun t s => step s t) s :=
  not_iff_comm.mp not_acc_iff_exists_descending_chain

theorem Terminates.after {s t : σ} (hs : Terminates step s) (h : ReflTransGen step s t) :
    Terminates step t := by
  induction h with
  | refl => exact hs
  | tail _ hlast ih => exact terminates_iff_acc.mpr ((terminates_iff_acc.mp ih).inv hlast)

/-- States that lead to one another for ever. -/
theorem not_terminates {P : σ → Prop} (h : ∀ s, P s → ∃ t, step s t ∧ P t) {s : σ} (hs : P s) :
    ¬ Terminates step s := by
  intro hends
  have hacc := terminates_iff_acc.mp hends
  clear hends
  induction hacc with
  | intro s _ ih =>
    obtain ⟨t, hstep, ht⟩ := h s hs
    exact ih t hstep ht

section Progress

variable {r : ρ → ρ → Prop} (work : σ → Multiset ρ) (left : σ → ℕ)

/-- An item is replaced by lower ones, or put back. -/
def Progress (r : ρ → ρ → Prop) (s t : σ) : Prop :=
  CutExpand r (work t) (work s) ∨ work t = work s ∧ left t < left s

/-- Where every step makes progress, every run comes to an end. -/
theorem terminates_of_progress [Std.Irrefl r] (hr : WellFounded r) {P : σ → Prop}
    (hstep : ∀ s t, P s → step s t → P t ∧ Progress work left r s t) {s : σ} (hs : P s) :
    Terminates step s := by
  rw [terminates_iff_acc]
  have hwf : WellFounded (Prod.Lex (CutExpand r) (· < · : ℕ → ℕ → Prop)) :=
    hr.cutExpand.prod_lex Nat.lt_wfRel.wf
  generalize hmeasure : (work s, left s) = measure
  induction measure using hwf.induction generalizing s with
  | _ measure ih =>
    subst hmeasure
    refine ⟨s, fun t hst => ?_⟩
    obtain ⟨ht, hprogress⟩ := hstep s t hs hst
    refine ih (work t, left t) ?_ ht rfl
    rcases hprogress with hcut | ⟨hsame, hless⟩
    · exact .left _ _ hcut
    · rw [hsame]
      exact .right _ hless

/-- Where every step from a state that is not stuck makes progress, and stuck states stay stuck, the
loop ends exactly if it never gets stuck. -/
theorem terminates_iff_never [Std.Irrefl r] (hr : WellFounded r) {Inv Stuck : σ → Prop}
    (hinv : ∀ s t, Inv s → step s t → Inv t)
    (hprogress : ∀ s t, Inv s → ¬ Stuck s → step s t → Progress work left r s t)
    (hstuck : ∀ s, Inv s → Stuck s → ∃ t, step s t ∧ Stuck t) {s : σ} (hs : Inv s) :
    Terminates step s ↔ ∀ t, ReflTransGen step s t → ¬ Stuck t := by
  constructor
  · intro hends t hrun ht
    have htinv : Inv t := by
      clear ht
      induction hrun with
      | refl => exact hs
      | tail _ hlast ih => exact hinv _ _ ih hlast
    refine not_terminates (P := fun t => Inv t ∧ Stuck t) (fun u hu => ?_) ⟨htinv, ht⟩
      (hends.after hrun)
    obtain ⟨v, hstep, hv⟩ := hstuck u hu.1 hu.2
    exact ⟨v, hstep, hinv u v hu.1 hstep, hv⟩
  · intro hnever
    refine terminates_of_progress work left hr
      (P := fun t => Inv t ∧ ∀ u, ReflTransGen step t u → ¬ Stuck u) ?_ ⟨hs, hnever⟩
    intro t u ⟨htinv, ht⟩ hstep
    refine ⟨⟨hinv t u htinv hstep, fun v hv => ht v (hv.head hstep)⟩, ?_⟩
    exact hprogress t u htinv (ht t .refl) hstep

end Progress

end Worklist
