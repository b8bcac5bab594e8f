/-!
# Stepping through effects

What a sequence of effects does, one at a time: the first either returns, and the rest goes on from
where it left the state, or throws, and that is the end of it.
-/

namespace Effect

universe u

variable {ε σ α β : Type u} {x : EStateM ε σ α} {f : α → EStateM ε σ β} {s s' : σ}

theorem bind_ok {a : α} (h : x s = .ok a s') : (x >>= f) s = f a s' := by
  show EStateM.bind x f s = f a s'
  rw [EStateM.bind, h]

theorem bind_error {e : ε} (h : x s = .error e s') : (x >>= f) s = .error e s' := by
  show EStateM.bind x f s = _
  rw [EStateM.bind, h]

/-- What a sequence that returned did. -/
theorem bind_eq_ok {b : β} (h : (x >>= f) s = .ok b s') :
    ∃ a t, x s = .ok a t ∧ f a t = .ok b s' := by
  cases hx : x s with
  | ok a t => exact ⟨a, t, rfl, (bind_ok hx).symm.trans h⟩
  | error e t =>
    rw [bind_error hx] at h
    cases h

/-- The state an effect ends in, whichever way it ends. -/
def final : EStateM.Result ε σ α → σ
  | .ok _ s => s
  | .error _ s => s

theorem final_bind_ok {a : α} (h : x s = .ok a s') : final ((x >>= f) s) = final (f a s') := by
  rw [bind_ok h]

theorem final_bind_error {e : ε} (h : x s = .error e s') : final ((x >>= f) s) = s' := by
  rw [bind_error h]
  rfl

theorem final_bind_pure (b : β) : final ((x >>= fun _ => pure b) s) = final (x s) := by
  cases h : x s with
  | ok a t => exact final_bind_ok h
  | error e t => exact final_bind_error h

/-- The value an effect returns, if it returns. -/
def value? : EStateM.Result ε σ α → Option α
  | .ok a _ => some a
  | .error _ _ => none

/-- What an effect throws, if it throws. -/
def thrown? : EStateM.Result ε σ α → Option ε
  | .ok _ _ => none
  | .error e _ => some e

theorem eq_ok_of_value {a : α} (h : value? (x s) = some a) : x s = .ok a (final (x s)) := by
  cases hx : x s with
  | ok b t =>
    rw [hx] at h
    obtain rfl := Option.some_inj.mp h
    rfl
  | error e t =>
    rw [hx] at h
    cases h

/-! ## What holds on return -/

/-- If the effect returns, `Q` holds of what it returns and of the state it leaves. -/
def Ensures (x : EStateM ε σ α) (Q : α → σ → Prop) : Prop := ∀ s a t, x s = .ok a t → Q a t

theorem Ensures.bind {Q : β → σ → Prop} (hf : ∀ a, Ensures (f a) Q) : Ensures (x >>= f) Q := by
  intro s b t h
  obtain ⟨a, u, -, hrest⟩ := bind_eq_ok h
  exact hf a u b t hrest

theorem Ensures.pure {Q : α → σ → Prop} {a : α} (h : ∀ s, Q a s) :
    Ensures (Pure.pure a : EStateM ε σ α) Q := by
  intro s b t hrun
  obtain ⟨rfl, rfl⟩ := EStateM.Result.ok.inj hrun
  exact h s

theorem Ensures.ite {Q : α → σ → Prop} {c : Prop} [Decidable c] {x y : EStateM ε σ α}
    (hx : Ensures x Q) (hy : Ensures y Q) : Ensures (if c then x else y) Q := by
  split
  · exact hx
  · exact hy

theorem Ensures.throw {Q : α → σ → Prop} (e : ε) :
    Ensures (MonadExcept.throw e : EStateM ε σ α) Q := by
  intro s a t h
  cases h

/-! ## Frames -/

/-- However the effect ends, `Inv` still holds if it did. -/
def Keeps (Inv : σ → Prop) (x : EStateM ε σ α) : Prop := ∀ s, Inv s → Inv (final (x s))

variable {Inv : σ → Prop}

theorem Keeps.ok {a : α} (hx : Keeps Inv x) (h : x s = .ok a s') (hs : Inv s) : Inv s' := by
  have hfinal := hx s hs
  rwa [h] at hfinal

/-- What only looks at the state. -/
theorem Keeps.of_final (h : ∀ s, final (x s) = s) : Keeps Inv x := by
  intro s hs
  rwa [h]

theorem Keeps.pure (a : α) : Keeps Inv (Pure.pure a : EStateM ε σ α) := fun _ h => h

theorem Keeps.bind (hx : Keeps Inv x) (hf : ∀ a, Keeps Inv (f a)) : Keeps Inv (x >>= f) := by
  intro s h
  have hs := hx s h
  cases heq : x s with
  | ok a t =>
    rw [bind_ok heq]
    rw [heq] at hs
    exact hf a t hs
  | error e t =>
    rw [bind_error heq]
    rwa [heq] at hs

theorem Keeps.ite {c : Prop} [Decidable c] {x y : EStateM ε σ α} (hx : Keeps Inv x)
    (hy : Keeps Inv y) : Keeps Inv (if c then x else y) := by
  split
  · exact hx
  · exact hy

theorem Keeps.throw (e : ε) : Keeps Inv (MonadExcept.throw e : EStateM ε σ α) := fun _ h => h

/-! ## Pre- and postconditions -/

/-- From where `P` holds, the effect returns with `Q` or throws with `E`. -/
structure Triple (P : σ → Prop) (x : EStateM ε σ α) (Q : α → σ → Prop) (E : σ → Prop) : Prop where
  ok : ∀ {s t a}, P s → x s = .ok a t → Q a t
  error : ∀ {s t e}, P s → x s = .error e t → E t

section Triple

variable {P : σ → Prop} {Q : β → σ → Prop} {E : σ → Prop}

theorem Triple.bind {R : α → σ → Prop} (hx : Triple P x R E) (hf : ∀ a, Triple (R a) (f a) Q E) :
    Triple P (x >>= f) Q E where
  ok hs h := by
    obtain ⟨a, u, hfirst, hrest⟩ := bind_eq_ok h
    exact (hf a).ok (hx.ok hs hfirst) hrest
  error {s t e} hs h := by
    cases hfirst : x s with
    | ok a u =>
      rw [bind_ok hfirst] at h
      exact (hf a).error (hx.ok hs hfirst) h
    | error e' u =>
      rw [bind_error hfirst] at h
      obtain ⟨-, rfl⟩ := EStateM.Result.error.inj h
      exact hx.error hs hfirst

theorem Triple.pure {b : β} (h : ∀ s, P s → Q b s) :
    Triple P (Pure.pure b : EStateM ε σ β) Q E where
  ok hs hrun := by
    obtain ⟨rfl, rfl⟩ := EStateM.Result.ok.inj hrun
    exact h _ hs
  error _ hrun := by cases hrun

theorem Triple.throw {e : ε} (h : ∀ s, P s → E s) :
    Triple P (MonadExcept.throw e : EStateM ε σ β) Q E where
  ok _ hrun := by cases hrun
  error hs hrun := by
    obtain ⟨-, rfl⟩ := EStateM.Result.error.inj hrun
    exact h _ hs

theorem Triple.ite {c : Prop} [Decidable c] {x y : EStateM ε σ β} (hx : Triple P x Q E)
    (hy : Triple P y Q E) : Triple P (if c then x else y) Q E := by
  split
  · exact hx
  · exact hy

/-- The rule of consequence. -/
theorem Triple.weaken {P' : σ → Prop} {Q' : β → σ → Prop} {x : EStateM ε σ β} (h : Triple P x Q E)
    (hP : ∀ s, P' s → P s) (hQ : ∀ b s, Q b s → Q' b s) : Triple P' x Q' E where
  ok hs hrun := hQ _ _ (h.ok (hP _ hs) hrun)
  error hs hrun := h.error (hP _ hs) hrun

/-- What the state is read for may be known of it. -/
theorem Triple.get_bind {f : σ → EStateM ε σ β} (h : ∀ s, P s → Triple P (f s) Q E) :
    Triple P (MonadState.get >>= f) Q E where
  ok hs hrun := (h _ hs).ok hs hrun
  error hs hrun := (h _ hs).error hs hrun

/-- A condition on what has been returned may be assumed. -/
theorem Triple.assuming {R : Prop} {x : EStateM ε σ β} (h : R → Triple P x Q E) :
    Triple (fun s => P s ∧ R) x Q E where
  ok hs hrun := (h hs.2).ok hs.1 hrun
  error hs hrun := (h hs.2).error hs.1 hrun

theorem Keeps.triple (h : Keeps Inv x) (hE : ∀ s, Inv s → E s) :
    Triple Inv x (fun _ => Inv) E where
  ok hs hrun := h.ok hrun hs
  error {s t e} hs hrun := by
    have hfinal := h s hs
    rw [hrun] at hfinal
    exact hE t hfinal

end Triple

end Effect
