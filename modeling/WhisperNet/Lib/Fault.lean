import WhisperNet.Lib.Effect

/-!
# Failing steps

Effects with steps that may fail, by throwing or by returning something that says so. One of them
is made to fail, counted from the start; the first that does fail, of its own accord or because it
is made to, is noted, and after it none is made to fail any more.

* `Follows` — where nothing is made to fail, such an effect is the one it was written after.
* `step_cases` — a step passes, or it is the one that fails.
-/

namespace Fault

open Effect

universe u

variable {ε σ κ α β : Type u}

/-- A state, how many steps there are before the one to fail, and the step that has failed. -/
structure State (σ κ : Type u) where
  base : σ
  fault : Option Nat
  failed : Option κ

namespace State

/-- A step has left `t`. -/
def pass (s : State σ κ) (t : σ) : State σ κ := ⟨t, s.fault.map (· - 1), s.failed⟩

/-- A step has failed and left `t`. -/
def fail (s : State σ κ) (name : κ) (t : σ) : State σ κ :=
  ⟨t, none, some (s.failed.getD name)⟩

/-- What passes after that is not made to fail. -/
theorem fail_pass (s : State σ κ) (name : κ) (t u : σ) : (s.fail name t).pass u = s.fail name u :=
  rfl

end State

/-- The result without the account of what failed. -/
def erase : EStateM.Result ε (State σ κ) α → EStateM.Result ε σ α
  | .ok a s => .ok a s.base
  | .error e s => .error e s.base

/-- What is not a step. -/
def lift (x : EStateM ε σ α) : EStateM ε (State σ κ) α := fun s =>
  match x s.base with
  | .ok a t => .ok a { s with base := t }
  | .error e t => .error e { s with base := t }

/-- The result of a step that has failed. -/
def failing (s : State σ κ) (name : κ) :
    EStateM.Result ε σ α → EStateM.Result ε (State σ κ) α
  | .ok a t => .ok a (s.fail name t)
  | .error e t => .error e (s.fail name t)

/-- The step `x`; `fails` is what becomes of it if it is made to fail, and what it returns is not
`good` if it has failed of its own accord. -/
def step (name : κ) (good : α → Bool) (fails x : EStateM ε σ α) : EStateM ε (State σ κ) α :=
  fun s =>
    if s.fault = some 0 then failing s name (fails s.base)
    else match x s.base with
      | .ok a t => if good a then .ok a (s.pass t) else .ok a (s.fail name t)
      | .error e t => .error e (s.fail name t)

/-! ## Where nothing is made to fail -/

/-- `y` is `x` where no step is made to fail, and the first that has failed stays noted. -/
def Follows (y : EStateM ε (State σ κ) α) (x : EStateM ε σ α) : Prop :=
  ∀ s : State σ κ, s.fault = none → erase (y s) = x s.base ∧ (final (y s)).fault = none ∧
    ∀ name, s.failed = some name → (final (y s)).failed = some name

section Follows

variable {y : EStateM ε (State σ κ) α} {x : EStateM ε σ α} {s : State σ κ}

theorem Follows.pure (a : α) :
    Follows (Pure.pure a : EStateM ε (State σ κ) α) (Pure.pure a) :=
  fun _ h => ⟨rfl, h, fun _ hname => hname⟩

theorem Follows.lift (x : EStateM ε σ α) : Follows (lift x : EStateM ε (State σ κ) α) x := by
  intro s h
  unfold Fault.lift
  cases x s.base with
  | ok a t => exact ⟨rfl, h, fun _ hname => hname⟩
  | error e t => exact ⟨rfl, h, fun _ hname => hname⟩

theorem Follows.step (name : κ) (good : α → Bool) (fails x : EStateM ε σ α) :
    Follows (step name good fails x) x := by
  intro s h
  have hnext : (s.fault.map (· - 1)) = none := by rw [h]; rfl
  have hnoted (name' : κ) (hname : s.failed = some name') (t : σ) :
      (s.fail name t).failed = some name' := by
    rw [State.fail, hname]
    rfl
  have hgo : s.fault ≠ some 0 := by rw [h]; nofun
  unfold Fault.step
  rw [if_neg hgo]
  cases x s.base with
  | ok a t =>
    dsimp only
    split
    · exact ⟨rfl, hnext, fun _ hname => hname⟩
    · exact ⟨rfl, rfl, fun name' hname => hnoted name' hname t⟩
  | error e t => exact ⟨rfl, rfl, fun name' hname => hnoted name' hname t⟩

theorem Follows.bind {g : α → EStateM ε (State σ κ) β} {f : α → EStateM ε σ β}
    (hy : Follows y x) (hg : ∀ a, Follows (g a) (f a)) : Follows (y >>= g) (x >>= f) := by
  intro s h
  obtain ⟨herase, hfault, hnoted⟩ := hy s h
  cases hrun : y s with
  | ok a t =>
    rw [hrun] at herase hfault hnoted
    have hbase : x s.base = .ok a t.base := herase.symm
    obtain ⟨herase', hfault', hnoted'⟩ := hg a t hfault
    rw [bind_ok hrun, bind_ok hbase]
    exact ⟨herase', hfault', fun name hname => hnoted' name (hnoted name hname)⟩
  | error e t =>
    rw [hrun] at herase hfault hnoted
    have hbase : x s.base = .error e t.base := herase.symm
    rw [bind_error hrun, bind_error hbase]
    exact ⟨rfl, hfault, hnoted⟩

theorem Follows.ite {c : Prop} [Decidable c] {y' : EStateM ε (State σ κ) α}
    {x' : EStateM ε σ α} (hy : Follows y x) (hy' : Follows y' x') :
    Follows (if c then y else y') (if c then x else x') := by
  split
  · exact hy
  · exact hy'

/-- After a step has failed, the rest goes on as it would, and the failure stays noted. -/
theorem Follows.failed (h : Follows y x) (s : State σ κ) (name : κ) (t : σ) :
    (final (y (s.fail name t))).base = final (x t) ∧
      (final (y (s.fail name t))).failed = some (s.failed.getD name) := by
  obtain ⟨herase, -, hnoted⟩ := h (s.fail name t) rfl
  have hfinal : (final (y (s.fail name t))).base = final (erase (y (s.fail name t))) := by
    cases y (s.fail name t) <;> rfl
  exact ⟨hfinal.trans (congrArg final herase), hnoted _ rfl⟩

end Follows

/-! ## One step -/

/-- How a step ends that has failed: as it was made to, or of its own accord. -/
def Failure (good : α → Bool) (fails x : EStateM ε σ α) (s : σ) (r : EStateM.Result ε σ α) :
    Prop :=
  r = fails s ∨ r = x s ∧ ∀ a t, r = .ok a t → good a = false

/-- **A step** passes, or fails. -/
theorem step_cases (name : κ) (good : α → Bool) (fails x : EStateM ε σ α) (s : State σ κ) :
    (∃ a t, x s.base = .ok a t ∧ good a = true ∧ step name good fails x s = .ok a (s.pass t)) ∨
    ∃ r, Failure good fails x s.base r ∧ step name good fails x s = failing s name r := by
  unfold step
  split
  · exact Or.inr ⟨fails s.base, Or.inl rfl, rfl⟩
  · cases hx : x s.base with
    | ok a t =>
      by_cases hgood : good a = true
      · exact Or.inl ⟨a, t, rfl, hgood, if_pos hgood⟩
      · refine Or.inr ⟨.ok a t, Or.inr ⟨hx.symm, fun b t' heq => ?_⟩, if_neg hgood⟩
        obtain ⟨rfl, -⟩ := EStateM.Result.ok.inj heq
        exact Bool.eq_false_iff.mpr hgood
    | error e t =>
      exact Or.inr ⟨.error e t, Or.inr ⟨hx.symm, fun _ _ heq => nomatch heq⟩, rfl⟩

end Fault
