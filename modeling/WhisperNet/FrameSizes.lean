import WhisperNet.Relocation

/-!
# What sizes do to the receiving loop

The buffer has the size of the last frame. The loop reads the next size into it, and that takes
eight bytes; for an empty frame it is not even there. Nothing keeps the node at the other end from
sending a frame that short.

* `Peer.Admissible` — the bytes of a stream, whatever they are, with no short frame complete.
* `iteration_stands` — then one iteration does not fault.
* `safe_iff` — exactly which streams the loop is safe for.
-/

namespace WhisperNet

open Bin

namespace Peer

variable {e : Endian}

/-- No range leaves the buffer and no subtraction wraps, however the stream is cut. -/
def Safe (e : Endian) (p : Peer) : Prop :=
  ∀ polls, ∃ p', p.threadFunction e polls = .ok p'

/-- Every frame that is complete in the stream has at least eight bytes. -/
def Admissible (e : Endian) (stream : Bytes) : Prop :=
  ∀ (frames : List Bytes) (tail : Bytes), (∀ f ∈ frames, f.length < 256 ^ 8) →
    stream = frames.flatMap (Peer.send e) ++ tail → ∀ f ∈ frames, 8 ≤ f.length

/-! ## Streams without short frames -/

section Admissible

variable {n : Nat} {f stream : Bytes}

theorem admissible_frame (h : Admissible e (putNat e 8 f.length ++ (f ++ stream)))
    (hlt : f.length < 256 ^ 8) : 8 ≤ f.length ∧ Admissible e stream := by
  constructor
  · exact h [f] stream (List.forall_mem_singleton.mpr hlt)
      (by simp [Peer.send]) f List.mem_cons_self
  · rintro frames tail hframes rfl g hg
    exact h (f :: frames) tail (List.forall_mem_cons.mpr ⟨hlt, hframes⟩)
      (by simp [Peer.send]) g (List.mem_cons_of_mem _ hg)

/-- Eight bytes, written as the size they are read as. -/
theorem putNat_bytesNat {bytes : Bytes} (h : bytes.length = 8) :
    putNat e 8 (bytesNat (e.order bytes)) = bytes := by
  have hlen : (e.order bytes).length = 8 := by rw [Endian.length_order, h]
  rw [putNat, ← hlen, natBytes_bytesNat, Endian.order_order]

/-- The loop waits for a size. -/
structure Sizing (e : Endian) (p : Peer) : Prop where
  size : p.dataSize = 0
  received : p.dataReceived < 8
  room : 8 ≤ p.buffer.length
  admissible : Admissible e (p.buffer.take p.dataReceived ++ p.stream)

/-- The loop waits for the bytes of a frame. It may be a short one, if it never completes. -/
structure Framing (e : Endian) (p : Peer) : Prop where
  size : p.dataSize ≠ 0
  size_lt : p.dataSize < 256 ^ 8
  room : p.buffer.length = p.dataSize
  received : p.dataReceived < p.dataSize
  admissible : Admissible e (putNat e 8 p.dataSize ++ (p.buffer.take p.dataReceived ++ p.stream))

variable {p : Peer}

theorem Sizing.stands (h : p.Sizing e) (k : Nat) :
    ∃ p', p.iteration e (some k) = .ok p' ∧ (p'.Sizing e ∨ p'.Framing e) := by
  have hreceived := h.received
  have hroom := h.room
  obtain ⟨p', hp', hsize, -, hlen, hle, hbytes⟩ :=
    receive_ok p (8 - p.dataReceived) k (by omega)
  have hrun : p.iteration e (some k) = p'.takeSize e := by
    unfold iteration receiveSize
    rw [inRange_ok (by omega), sub_ok hreceived.le]
    show (if p.dataSize = 0 then p.receive (8 - p.dataReceived) k >>= fun p => p.takeSize e
      else _) = _
    rw [if_pos h.size, hp']
    rfl
  have hadmissible := h.admissible
  rw [← hbytes] at hadmissible
  rw [hrun, takeSize_eq (by omega)]
  by_cases h8 : p'.dataReceived < 8
  · rw [if_pos h8]
    exact ⟨p', rfl, Or.inl ⟨hsize.trans h.size, h8, by omega, hadmissible⟩⟩
  · have hall : p'.dataReceived = 8 := by omega
    have height : (p'.buffer.take 8).length = 8 := by rw [List.length_take]; omega
    rw [hall, ← putNat_bytesNat (e := e) height] at hadmissible
    have hne : bytesNat (e.order (p'.buffer.take 8)) ≠ 0 := by
      -- The frame after it would be empty, and so it would be complete.
      intro hzero
      rw [hzero] at hadmissible
      exact absurd (admissible_frame (f := []) hadmissible (by decide)).1 (by decide)
    have hlt : bytesNat (e.order (p'.buffer.take 8)) < 256 ^ 8 := by
      have hlt := bytesNat_lt (e.order (p'.buffer.take 8))
      rwa [Endian.length_order, height] at hlt
    rw [if_neg h8]
    exact ⟨_, rfl, Or.inr ⟨hne, hlt, length_resize _ _, Nat.pos_of_ne_zero hne, hadmissible⟩⟩

theorem Framing.stands (h : p.Framing e) (k : Nat) :
    ∃ p', p.iteration e (some k) = .ok p' ∧ (p'.Sizing e ∨ p'.Framing e) := by
  have hreceived := h.received
  have hroom := h.room
  obtain ⟨p', hp', hsize, -, hlen, hle, hbytes⟩ :=
    receive_ok p (p.buffer.length - p.dataReceived) k (by omega)
  have hrun : p.iteration e (some k) = p'.takeData := by
    unfold iteration receiveData
    rw [inRange_ok (by omega), sub_ok (by omega)]
    show (if p.dataSize = 0 then _ else
      p.receive (p.buffer.length - p.dataReceived) k >>= fun p => p.takeData) = _
    rw [if_neg h.size, hp']
    rfl
  have hadmissible := h.admissible
  rw [← hbytes, ← hsize] at hadmissible
  have hne : p'.dataSize ≠ 0 := hsize ▸ h.size
  have hlt : p'.dataSize < 256 ^ 8 := hsize ▸ h.size_lt
  have hfits : p'.buffer.length = p'.dataSize := by omega
  rw [hrun, takeData_eq (by omega) hne hfits]
  by_cases hless : p'.dataReceived < p'.dataSize
  · rw [if_pos hless]
    exact ⟨p', rfl, Or.inr ⟨hne, hlt, hfits, hless, hadmissible⟩⟩
  · have hall : p'.dataReceived = p'.buffer.length := by omega
    rw [← hfits, hall, List.take_length] at hadmissible
    obtain ⟨h8, hrest⟩ := admissible_frame hadmissible (hfits ▸ hlt)
    rw [if_neg hless]
    exact ⟨_, rfl, Or.inl ⟨rfl, (by decide : 0 < 8), h8, hrest⟩⟩

/-- **One iteration.** -/
theorem iteration_stands (h : p.Sizing e ∨ p.Framing e) (poll : Option Nat) :
    ∃ p', p.iteration e poll = .ok p' ∧ (p'.Sizing e ∨ p'.Framing e) := by
  cases poll with
  | none => exact ⟨p, rfl, h⟩
  | some k => exact h.elim (·.stands k) (·.stands k)

theorem safe_of_stands (h : p.Sizing e ∨ p.Framing e) : p.Safe e := by
  intro polls
  induction polls generalizing p with
  | nil => exact ⟨p, rfl⟩
  | cons poll polls ih =>
    obtain ⟨p', hp', h'⟩ := iteration_stands h poll
    obtain ⟨p'', hp''⟩ := ih h'
    refine ⟨p'', ?_⟩
    rw [threadFunction, List.foldlM_cons, hp']
    exact hp''

end Admissible

/-! ## A short frame -/

section Short

variable {p : Peer} {f rest : Bytes}

/-- Nothing has been received since the last frame. -/
def Fresh (p : Peer) : Prop := p.dataSize = 0 ∧ p.dataReceived = 0

theorem Safe.iteration (h : p.Safe e) (poll : Option Nat) :
    ∃ p', p.iteration e poll = .ok p' ∧ p'.Safe e := by
  obtain ⟨p', hp'⟩ := h [poll]
  rw [threadFunction, List.foldlM_cons] at hp'
  obtain ⟨p₁, hp₁, -⟩ := bind_eq_ok hp'
  refine ⟨p₁, hp₁, fun polls => ?_⟩
  obtain ⟨p₂, hp₂⟩ := h (poll :: polls)
  rw [threadFunction, List.foldlM_cons, hp₁] at hp₂
  exact ⟨p₂, hp₂⟩

/-- Everything that is asked for arrives at once. -/
theorem absorb_all {chunk : Bytes} (hreceived : p.dataReceived = 0)
    (hstream : p.stream = chunk ++ rest) (hgoal : p.goal = chunk.length) :
    p.absorb chunk.length = { p with
      buffer := store p.buffer 0 chunk
      dataReceived := chunk.length
      stream := rest } := by
  rw [absorb, hreceived, Nat.sub_zero, hgoal, min_self, hstream, List.take_left' rfl,
    List.drop_left' rfl, Nat.zero_add]

theorem next_size (hp : p.Fresh) (hstream : p.stream = Peer.send e f ++ rest)
    (hlt : f.length < 256 ^ 8) :
    (p.next e 8).dataSize = f.length ∧ (p.next e 8).dataReceived = 0 ∧
      (p.next e 8).buffer.length = f.length ∧ (p.next e 8).stream = f ++ rest := by
  obtain ⟨hsize, hreceived⟩ := hp
  have hgoal : p.goal = 8 := if_pos hsize
  have hlen : (putNat e 8 f.length).length = 8 := length_putNat e 8 _
  rw [Peer.send, List.append_assoc] at hstream
  have habsorb := absorb_all hreceived hstream (hgoal.trans hlen.symm)
  rw [hlen] at habsorb
  have htake : (store p.buffer 0 (putNat e 8 f.length)).take 8 = putNat e 8 f.length := by
    have htake := @take_store p.buffer (putNat e 8 f.length) 0 (Nat.zero_le _)
    rwa [hlen, Nat.zero_add, List.take_zero, List.nil_append] at htake
  rw [next, hgoal, habsorb, if_neg (lt_irrefl 8), if_pos hsize, sized]
  dsimp only
  rw [htake, bytesNat_putNat e hlt]
  exact ⟨rfl, rfl, length_resize _ _, rfl⟩

theorem next_data (hsize : p.dataSize = f.length) (hne : f.length ≠ 0)
    (hreceived : p.dataReceived = 0) (hroom : p.buffer.length = f.length)
    (hstream : p.stream = f ++ rest) :
    (p.next e f.length).Fresh ∧ (p.next e f.length).buffer.length = f.length ∧
      (p.next e f.length).stream = rest := by
  have hgoal : p.goal = f.length := by rw [goal, if_neg (hsize ▸ hne), hsize]
  have habsorb := absorb_all hreceived hstream hgoal
  rw [next, hgoal, habsorb, if_neg (lt_irrefl _), if_neg (hsize ▸ hne)]
  refine ⟨⟨rfl, rfl⟩, ?_, rfl⟩
  show (store p.buffer 0 f).length = f.length
  rw [length_store (by omega), hroom]

/-- **A short frame is not survived**, and neither is one after frames that are not. -/
theorem long_of_safe {frames : List Bytes} {tail : Bytes} (h : p.Safe e) (hp : p.Fresh)
    (hroom : 8 ≤ p.buffer.length) (hframes : ∀ f ∈ frames, f.length < 256 ^ 8)
    (hstream : p.stream = frames.flatMap (Peer.send e) ++ tail) :
    ∀ f ∈ frames, 8 ≤ f.length := by
  induction frames generalizing p with
  | nil => exact fun f hf => absurd hf List.not_mem_nil
  | cons f frames ih =>
    obtain ⟨hlt, hframes⟩ := List.forall_mem_cons.mp hframes
    rw [List.flatMap_cons, List.append_assoc] at hstream
    -- The size is read.
    obtain ⟨p₁, hp₁, hsafe₁⟩ := h.iteration (some 8)
    have hbounded : p.Bounded :=
      ⟨by rw [hp.1, hp.2, if_pos rfl]; decide, fun hne => absurd hp.1 hne⟩
    obtain rfl := iteration_eq_ok hbounded hp₁
    obtain ⟨hsize, hreceived, hroom₁, hstream₁⟩ := next_size hp hstream hlt
    generalize p.next e 8 = p₁ at hsafe₁ hsize hreceived hroom₁ hstream₁
    have hne : f.length ≠ 0 := by
      -- There is no `buffer[0]`.
      intro hzero
      obtain ⟨p₂, hp₂, -⟩ := hsafe₁.iteration (some 0)
      obtain ⟨⟨⟩, hrange, -⟩ := bind_eq_ok hp₂
      have hrange := inRange_eq_ok hrange
      omega
    -- The frame is read, and the loop comes to the next size.
    obtain ⟨p₂, hp₂, hsafe₂⟩ := hsafe₁.iteration (some f.length)
    have hbounded₁ : p₁.Bounded :=
      ⟨by rw [hreceived]; exact Nat.zero_le _, fun _ => hroom₁.trans hsize.symm⟩
    obtain rfl := iteration_eq_ok hbounded₁ hp₂
    obtain ⟨hfresh, hroom₂, hstream₂⟩ := next_data hsize hne hreceived hroom₁ hstream₁
    have h8 : 8 ≤ f.length := by
      obtain ⟨p₃, hp₃, -⟩ := hsafe₂.iteration (some 0)
      obtain ⟨⟨⟩, -, hp₃⟩ := bind_eq_ok hp₃
      rw [if_pos hfresh.1] at hp₃
      obtain ⟨len, hlen, hp₃⟩ := bind_eq_ok hp₃
      rw [hfresh.2, sub_ok (Nat.zero_le 8)] at hlen
      obtain rfl := Except.ok.inj hlen
      obtain ⟨p₄, hreceive, -⟩ := bind_eq_ok hp₃
      have hrange := (receive_eq_ok hreceive).1
      omega
    exact List.forall_mem_cons.mpr
      ⟨h8, ih hsafe₂ hfresh (h8.trans_eq hroom₂.symm) hframes hstream₂⟩

end Short

/-- **Memory safety.** Whatever bytes the other node sends, and however they are cut, the loop stays
inside its buffer if and only if no frame of fewer than eight bytes is complete in them. -/
theorem safe_iff (e : Endian) (stream : Bytes) :
    (start stream).Safe e ↔ Admissible e stream := by
  constructor
  · intro h frames tail hframes hstream
    exact long_of_safe h ⟨rfl, rfl⟩ (by decide : 8 ≤ (List.replicate 30 (0 : UInt8)).length)
      hframes hstream
  · intro h
    exact safe_of_stands (Or.inl ⟨rfl, (by decide : 0 < 8),
      (by decide : 8 ≤ (List.replicate 30 (0 : UInt8)).length), h⟩)

/-- Eight zero bytes are the size of an empty frame. -/
example : ¬ Admissible .little (List.replicate 8 0) := fun h =>
  absurd (h [[]] [] (by decide) (by decide) [] List.mem_cons_self) (by decide)

end Peer

end WhisperNet
