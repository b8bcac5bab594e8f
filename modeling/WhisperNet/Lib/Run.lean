/-!
# Runs

A run takes any number of steps. What one step preserves, a run preserves.

* `Run.invariant` — the induction rule for what holds in every reachable state.
* `Run.length_le` — a measure that every step lowers bounds the length of every run.
* `Along.congr` — two properties that agree wherever an invariant holds agree along runs.
-/

universe u v

variable {σ : Type u}

/-- A run of `step`, with its number of steps. -/
inductive Run (step : σ → σ → Prop) : Nat → σ → σ → Prop
  | nil (s : σ) : Run step 0 s s
  | snoc {n : Nat} {s t u : σ} (run : Run step n s t) (last : step t u) : Run step (n + 1) s u

namespace Run

variable {step step' : σ → σ → Prop} {n : Nat} {s t : σ}

/-- **Invariants.** -/
theorem invariant {Inv : σ → Prop} (run : Run step n s t) (hs : Inv s)
    (hstep : ∀ t u, Inv t → step t u → Inv u) : Inv t := by
  induction run with
  | nil => exact hs
  | snoc _ last ih => exact hstep _ _ (ih hs) last

/-- A run is a run of any weaker step relation. -/
theorem mono (run : Run step n s t) (h : ∀ t u, step t u → step' t u) : Run step' n s t := by
  induction run with
  | nil => exact .nil _
  | snoc _ last ih => exact .snoc ih (h _ _ last)

/-- **Termination.** -/
theorem length_le {Inv : σ → Prop} (μ : σ → Nat) (run : Run step n s t) (hs : Inv s)
    (hinv : ∀ t u, Inv t → step t u → Inv u) (hless : ∀ t u, Inv t → step t u → μ u < μ t) :
    n + μ t ≤ μ s := by
  induction run with
  | nil => exact Nat.le_of_eq (Nat.zero_add _)
  | snoc run last ih =>
    have hlast := hless _ _ (run.invariant hs hinv) last
    have hrun := ih hs
    omega

/-- A step, then a run. -/
theorem head (first : step s t) {u : σ} (run : Run step n t u) : Run step (n + 1) s u := by
  induction run with
  | nil => exact .snoc (.nil s) first
  | snoc _ last ih => exact .snoc (ih first) last

/-- Folding a partial step function over some inputs is a run. -/
theorem of_foldlM {ι : Type v} {next : σ → ι → Option σ} {inputs : List ι}
    (h : inputs.foldlM next s = some t) :
    Run (fun a b => ∃ i, next a i = some b) inputs.length s t := by
  induction inputs generalizing s with
  | nil =>
    obtain rfl : s = t := Option.some_inj.mp h
    exact .nil s
  | cons i inputs ih =>
    rw [List.foldlM_cons, Option.bind_eq_bind, Option.bind_eq_some_iff] at h
    obtain ⟨a, hfirst, hrest⟩ := h
    exact head ⟨i, hfirst⟩ (ih hrest)

end Run

/-! ## Runs that may end -/

/-- `P` holds of every input and the state it meets, as far as the run through them gets. -/
def Along {ι : Type v} (next : σ → ι → Option σ) (P : σ → ι → Prop) : σ → List ι → Prop
  | _, [] => True
  | s, i :: is => P s i ∧ ∀ t, next s i = some t → Along next P t is

namespace Along

variable {ι : Type v} {next : σ → ι → Option σ} {P Q W : σ → ι → Prop} {s t : σ} {i : ι}
  {is : List ι}

theorem cons_iff (h : next s i = some t) :
    Along next P s (i :: is) ↔ P s i ∧ Along next P t is := by
  refine and_congr_right fun _ => ⟨fun hrest => hrest t h, fun hrest u hu => ?_⟩
  obtain rfl := Option.some_inj.mp (h.symm.trans hu)
  exact hrest

/-- **Two properties that agree** in the states where an invariant holds, which either of them
preserves, agree along runs. -/
theorem congr {Inv : σ → Prop} (hs : Inv s)
    (hiff : ∀ s i, Inv s → W s i → (P s i ↔ Q s i))
    (hstep : ∀ s i t, Inv s → W s i → P s i → next s i = some t → Inv t)
    (h : Along next W s is) : Along next P s is ↔ Along next Q s is := by
  induction is generalizing s with
  | nil => exact Iff.rfl
  | cons i is ih =>
    obtain ⟨hw, hrest⟩ := h
    constructor
    · intro ⟨hp, hps⟩
      refine ⟨(hiff s i hs hw).mp hp, fun t ht => ?_⟩
      exact (ih (hstep s i t hs hw hp ht) (hrest t ht)).mp (hps t ht)
    · intro ⟨hq, hqs⟩
      have hp := (hiff s i hs hw).mpr hq
      refine ⟨hp, fun t ht => ?_⟩
      exact (ih (hstep s i t hs hw hp ht) (hrest t ht)).mpr (hqs t ht)

end Along

/-! ## Labelled steps -/

/-- A sequence of labels that leads from one state to another. -/
inductive Trace {ℓ : Type v} (step : σ → ℓ → σ → Prop) : σ → List ℓ → σ → Prop
  | nil (s : σ) : Trace step s [] s
  | cons {s t u : σ} {l : ℓ} {ls : List ℓ} (first : step s l t) (rest : Trace step t ls u) :
      Trace step s (l :: ls) u

namespace Trace

variable {ℓ : Type v} {step : σ → ℓ → σ → Prop} {s t u : σ} {ls ms : List ℓ}

theorem append (first : Trace step s ls t) (rest : Trace step t ms u) :
    Trace step s (ls ++ ms) u := by
  induction first with
  | nil => exact rest
  | cons h _ ih => exact .cons h (ih rest)

theorem split (trace : Trace step s (ls ++ ms) u) :
    ∃ t, Trace step s ls t ∧ Trace step t ms u := by
  induction ls generalizing s with
  | nil => exact ⟨s, .nil s, trace⟩
  | cons l ls ih =>
    cases trace with
    | cons h rest =>
      obtain ⟨t, hfirst, hrest⟩ := ih rest
      exact ⟨t, .cons h hfirst, hrest⟩

/-- What is true of every label may be taken for part of the step. -/
theorem labelled {P : ℓ → Prop} (trace : Trace step s ls t) (h : ∀ l ∈ ls, P l) :
    Trace (fun s l t => P l ∧ step s l t) s ls t := by
  induction trace with
  | nil => exact .nil _
  | cons first _ ih =>
    obtain ⟨hfirst, hrest⟩ := List.forall_mem_cons.mp h
    exact .cons ⟨hfirst, first⟩ (ih hrest)

/-- **Two runs.** What holds between two states, and again after each takes a step with the same
label, holds after the same labels. -/
theorem coupled {Rel : σ → σ → Prop} {s' u' : σ} (trace : Trace step s ls u)
    (trace' : Trace step s' ls u') (h : Rel s s')
    (hstep : ∀ a b l a' b', Rel a b → step a l a' → step b l b' → Rel a' b') : Rel u u' := by
  induction trace generalizing s' with
  | nil =>
    cases trace'
    exact h
  | cons first _ ih =>
    cases trace' with
    | cons first' rest' => exact ih rest' (hstep _ _ _ _ _ h first first')

/-- Where a label leaves nothing open, neither do labels. -/
theorem deterministic (hstep : ∀ s l t t', step s l t → step s l t' → t = t')
    (trace : Trace step s ls t) (trace' : Trace step s ls u) : t = u := by
  induction trace with
  | nil =>
    cases trace'
    rfl
  | cons h _ ih =>
    cases trace' with
    | cons h' rest =>
      obtain rfl := hstep _ _ _ _ h h'
      exact ih rest

/-- What every label of a trace but some preserves is preserved unless one of those occurs. -/
theorem preserved (Inv : σ → Prop) (Breaks : ℓ → Prop) (trace : Trace step s ls t) (hs : Inv s)
    (hstep : ∀ t l u, Inv t → step t l u → ¬ Breaks l → Inv u) : Inv t ∨ ∃ l ∈ ls, Breaks l := by
  induction trace with
  | nil => exact Or.inl hs
  | @cons s t u l ls h _ ih =>
    by_cases hl : Breaks l
    · exact Or.inr ⟨l, List.mem_cons_self, hl⟩
    · rcases ih (hstep _ _ _ hs h hl) with hu | ⟨l', hmem, hl'⟩
      · exact Or.inl hu
      · exact Or.inr ⟨l', List.mem_cons_of_mem _ hmem, hl'⟩

/-- What every step keeps but some holds at the end, or one of those was taken while it held. -/
theorem holds_or_breaks (Inv : σ → Prop) (Breaks : σ → ℓ → Prop) (trace : Trace step s ls t)
    (hs : Inv s) (hstep : ∀ t l u, Inv t → step t l u → ¬ Breaks t l → Inv u) :
    Inv t ∨ ∃ before a l b after, ls = before ++ l :: after ∧ Trace step s before a ∧ Inv a ∧
      Breaks a l ∧ step a l b ∧ Trace step b after t := by
  induction trace with
  | nil => exact Or.inl hs
  | @cons s t u l ls h rest ih =>
    by_cases hl : Breaks s l
    · exact Or.inr ⟨[], s, l, t, ls, rfl, .nil s, hs, hl, h, rest⟩
    · rcases ih (hstep _ _ _ hs h hl) with hu | ⟨before, a, l', b, after, rfl, hrun, hab⟩
      · exact Or.inl hu
      · exact Or.inr ⟨l :: before, a, l', b, after, rfl, .cons h hrun, hab⟩

end Trace
