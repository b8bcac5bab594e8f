import WhisperNet.PeerLoop

/-!
# Moving a peer

`Peer::operator=(Peer&&)` stops and joins the listening thread, moves the socket and starts a new
thread. The loop's progress (`dataSize`, `dataReceived`, and what has arrived in `buffer`) is not
moved: the new thread starts from nothing. So a move is invisible between two frames, and destroys
the framing anywhere else.

* `iteration_eq_ok` — what an iteration that does not fault does.
* `SameProgress.step` — a loop that has been moved between frames goes on like one that has not.
* `step_weight` — no iteration makes up for bytes that were dropped.
* `relocation_iff` — exactly which moves are invisible.
-/

namespace WhisperNet

open Bin

/-- A place for a `Peer`. Its buffer has the size of a new one, or of the last frame that a peer
there received. -/
structure Place where
  buffer : Bytes
  size_ge : 8 ≤ buffer.length

/-- Where no peer has been. -/
def Place.fresh : Place := ⟨List.replicate 30 0, by decide⟩

namespace Peer

/-- `Peer::operator=(Peer&&)`: only the socket is moved. The calls of `processMessage` go on in the
same list. -/
def moveTo (p : Peer) (place : Place) : Peer :=
  { p with dataSize := 0, dataReceived := 0, buffer := place.buffer }

/-- An iteration of the loop, or a move between two iterations. -/
inductive Event
  | poll (outcome : Option Nat)
  | move (place : Place)

def perform (e : Endian) (p : Peer) : Event → Except Fault Peer
  | .poll outcome => p.iteration e outcome
  | .move place => .ok (p.moveTo place)

/-- The loop, with its moves. -/
def relocated (e : Endian) (p : Peer) (events : List Event) : Except Fault Peer :=
  events.foldlM (perform e) p

/-- What is left of the events when the peer is never moved. -/
def pollsOf (events : List Event) : List (Option Nat) :=
  events.filterMap fun
    | .poll outcome => some outcome
    | .move _ => none

/-- No part of a frame has arrived that has not been processed. -/
def BetweenFrames (p : Peer) : Prop := p.dataSize = 0 ∧ p.dataReceived = 0

/-- Every move finds the loop between two frames. -/
def MovesBetweenFrames (e : Endian) (p : Peer) (events : List Event) : Prop :=
  ∀ before place after, events = before ++ .move place :: after →
    ∀ q, p.relocated e before = .ok q → q.BetweenFrames

/-! ## One iteration -/

/-- The loop never asks for more than it can hold. -/
structure Bounded (p : Peer) : Prop where
  received : p.dataReceived ≤ if p.dataSize = 0 then 8 else p.dataSize
  room : p.dataSize ≠ 0 → p.buffer.length = p.dataSize

/-- How many bytes the size or the frame needs. -/
def goal (p : Peer) : Nat := if p.dataSize = 0 then 8 else p.dataSize

/-- The peer once `receive` has stored what it took. -/
def absorb (p : Peer) (k : Nat) : Peer :=
  let chunk := p.stream.take (min k (p.goal - p.dataReceived))
  { p with
    buffer := store p.buffer p.dataReceived chunk
    dataReceived := p.dataReceived + chunk.length
    stream := p.stream.drop chunk.length }

/-- The eight bytes of a size are complete. -/
def sized (e : Endian) (p : Peer) : Peer :=
  let dataSize := bytesNat (e.order (p.buffer.take 8))
  { p with dataSize, dataReceived := 0, buffer := resize p.buffer dataSize }

/-- The bytes of a frame are complete. -/
def delivered (p : Peer) : Peer :=
  { p with
    dataSize := 0
    dataReceived := 0
    processed := p.processed ++ [p.buffer.take p.dataSize] }

/-- What an iteration that receives something comes to. -/
def next (e : Endian) (p : Peer) (k : Nat) : Peer :=
  if (p.absorb k).dataReceived < p.goal then p.absorb k
  else if p.dataSize = 0 then (p.absorb k).sized e else (p.absorb k).delivered

section Iteration

variable {e : Endian} {p p' q : Peer} {k : Nat}

theorem inRange_eq_ok {off len size : Nat} {u : Unit} (h : inRange off len size = .ok u) :
    off + len ≤ size := by
  unfold inRange at h
  split at h
  · assumption
  · cases h

theorem receive_eq_ok {len : Nat} (h : p.receive len k = .ok p') :
    p.dataReceived + len ≤ p.buffer.length ∧
      p' = { p with
        buffer := store p.buffer p.dataReceived (p.stream.take (min k len))
        dataReceived := p.dataReceived + (p.stream.take (min k len)).length
        stream := p.stream.drop (p.stream.take (min k len)).length } := by
  unfold receive at h
  cases hrange : inRange p.dataReceived len p.buffer.length with
  | error fault =>
    rw [hrange] at h
    cases h
  | ok u =>
    rw [hrange] at h
    exact ⟨inRange_eq_ok hrange, (Except.ok.inj h).symm⟩

theorem length_absorbed (p : Peer) (k : Nat) :
    (p.stream.take (min k (p.goal - p.dataReceived))).length ≤ p.goal - p.dataReceived :=
  (List.length_take_le _ _).trans (min_le_right _ _)

theorem absorb_received_le (h : p.Bounded) (k : Nat) : (p.absorb k).dataReceived ≤ p.goal := by
  have hlen := length_absorbed p k
  have hreceived : p.dataReceived ≤ p.goal := h.received
  show p.dataReceived + _ ≤ p.goal
  omega

theorem takeSize_eq (h : p.dataReceived ≤ 8) : p.takeSize e =
    if p.dataReceived < 8 then .ok p else .ok (p.sized e) := by
  unfold takeSize
  by_cases h8 : 8 ≤ p.dataReceived
  · have heq : p.dataReceived = 8 := le_antisymm h h8
    rw [if_pos h8, if_neg (not_lt.mpr h8), heq, sub_ok le_rfl]
    rfl
  · rw [if_neg h8, if_pos (not_le.mp h8)]
    rfl

theorem takeData_eq (hreceived : p.dataReceived ≤ p.dataSize) (hne : p.dataSize ≠ 0)
    (hroom : p.buffer.length = p.dataSize) :
    p.takeData = if p.dataReceived < p.dataSize then .ok p else .ok p.delivered := by
  unfold takeData
  by_cases hall : p.dataSize ≤ p.dataReceived
  · have heq : p.dataReceived = p.dataSize := le_antisymm hreceived hall
    -- Nothing comes after the frame in the buffer.
    have hmove : memmoveFront p.buffer p.dataSize 0 = .ok p.buffer := by
      unfold memmoveFront
      rw [inRange_ok (by omega), inRange_ok (by omega)]
      rfl
    rw [if_pos hall, if_neg (not_lt.mpr hall), heq, inRange_ok (by omega),
      if_pos (Nat.pos_of_ne_zero hne), hroom, sub_ok le_rfl, Nat.sub_self]
    show (memmoveFront p.buffer p.dataSize 0 >>= fun buffer => _) = _
    rw [hmove]
    rfl
  · rw [if_neg hall, if_pos (not_le.mp hall)]
    rfl

theorem receiveSize_eq_ok (h : p.Bounded) (hsize : p.dataSize = 0)
    (hp : p.receiveSize e k = .ok p') :
    (if (p.absorb k).dataReceived < 8 then p.absorb k else (p.absorb k).sized e) = p' := by
  have hgoal : p.goal = 8 := if_pos hsize
  have hle := absorb_received_le h k
  rw [hgoal] at hle
  obtain ⟨len, hlen, hp⟩ := bind_eq_ok hp
  obtain ⟨p₁, hreceive, htake⟩ := bind_eq_ok hp
  have hlen8 : len = 8 - p.dataReceived := by
    have hreceived := h.received
    rw [if_pos hsize] at hreceived
    rw [sub_ok hreceived] at hlen
    exact (Except.ok.inj hlen).symm
  have hp₁ : p₁ = p.absorb k := by
    rw [(receive_eq_ok hreceive).2, absorb, hgoal, hlen8]
  rw [hp₁, takeSize_eq hle] at htake
  split at htake
  · next hless => rw [if_pos hless]; exact Except.ok.inj htake
  · next hless => rw [if_neg hless]; exact Except.ok.inj htake

theorem Bounded.absorb (h : p.Bounded) (k : Nat) : (p.absorb k).Bounded := by
  refine ⟨absorb_received_le h k, fun (hne : p.dataSize ≠ 0) => ?_⟩
  have hchunk := length_absorbed p k
  have hreceived := h.received
  have hgoal : p.goal = p.dataSize := if_neg hne
  rw [if_neg hne] at hreceived
  have hroom := h.room hne
  exact (length_store (by omega)).trans hroom

theorem receiveData_eq_ok (h : p.Bounded) (hsize : p.dataSize ≠ 0)
    (hp : p.receiveData k = .ok p') :
    (if (p.absorb k).dataReceived < p.dataSize then p.absorb k else (p.absorb k).delivered) =
      p' := by
  have hgoal : p.goal = p.dataSize := if_neg hsize
  have hle := absorb_received_le h k
  rw [hgoal] at hle
  obtain ⟨len, hlen, hp⟩ := bind_eq_ok hp
  obtain ⟨p₁, hreceive, htake⟩ := bind_eq_ok hp
  have hlenData : len = p.dataSize - p.dataReceived := by
    have hreceived := h.received
    rw [if_neg hsize] at hreceived
    rw [h.room hsize, sub_ok hreceived] at hlen
    exact (Except.ok.inj hlen).symm
  have hp₁ : p₁ = p.absorb k := by
    rw [(receive_eq_ok hreceive).2, absorb, hgoal, hlenData]
  have hdata : p₁.takeData = if (p.absorb k).dataReceived < p.dataSize then .ok (p.absorb k)
      else .ok (p.absorb k).delivered := by
    rw [hp₁]
    exact takeData_eq hle hsize ((h.absorb k).room hsize)
  rw [hdata] at htake
  split at htake
  · next hless => rw [if_pos hless]; exact Except.ok.inj htake
  · next hless => rw [if_neg hless]; exact Except.ok.inj htake

/-- **One iteration.** -/
theorem iteration_eq_ok (h : p.Bounded) (hp : p.iteration e (some k) = .ok p') :
    p' = p.next e k := by
  obtain ⟨⟨⟩, -, hp⟩ := bind_eq_ok hp
  unfold next goal
  by_cases hsize : p.dataSize = 0
  · rw [if_pos hsize] at hp
    rw [if_pos hsize, if_pos hsize]
    exact (receiveSize_eq_ok h hsize hp).symm
  · rw [if_neg hsize] at hp
    rw [if_neg hsize, if_neg hsize]
    exact (receiveData_eq_ok h hsize hp).symm

theorem Bounded.next (h : p.Bounded) (e : Endian) (k : Nat) : (p.next e k).Bounded := by
  unfold Peer.next
  split
  · exact h.absorb k
  · split
    · exact ⟨Nat.zero_le _, fun _ => length_resize _ _⟩
    · exact ⟨Nat.zero_le _, fun hne => absurd rfl hne⟩

theorem Bounded.moveTo (p : Peer) (place : Place) : (p.moveTo place).Bounded :=
  ⟨Nat.zero_le _, fun hne => absurd rfl hne⟩

end Iteration

/-! ## Moves between frames -/

/-- Two loops stand at the same place of the same stream. -/
structure SameProgress (p q : Peer) : Prop where
  size : p.dataSize = q.dataSize
  received : p.dataReceived = q.dataReceived
  stream : p.stream = q.stream
  processed : p.processed = q.processed
  bytes : p.buffer.take p.dataReceived = q.buffer.take q.dataReceived
  room : p.dataReceived ≤ p.buffer.length ∧ q.dataReceived ≤ q.buffer.length

section Same

variable {e : Endian} {p q p' q' : Peer}

theorem SameProgress.absorb (h : p.SameProgress q) (k : Nat) :
    (p.absorb k).SameProgress (q.absorb k) := by
  have hgoal : p.goal = q.goal := by rw [goal, goal, h.size]
  have hchunk : p.stream.take (min k (p.goal - p.dataReceived)) =
      q.stream.take (min k (q.goal - q.dataReceived)) := by
    rw [h.stream, hgoal, h.received]
  have hstored {r : Peer} (hr : r.dataReceived ≤ r.buffer.length) :
      (r.absorb k).buffer.take (r.absorb k).dataReceived =
        r.buffer.take r.dataReceived ++ r.stream.take (min k (r.goal - r.dataReceived)) :=
    take_store hr
  refine ⟨h.size, ?_, ?_, h.processed, ?_, ?_⟩
  · show p.dataReceived + _ = q.dataReceived + _
    rw [hchunk, h.received]
  · show p.stream.drop _ = q.stream.drop _
    rw [hchunk, h.stream]
  · rw [hstored h.room.1, hstored h.room.2, h.bytes, hchunk]
  · have hlen {r : Peer} (hr : r.dataReceived ≤ r.buffer.length) :
        (r.absorb k).dataReceived ≤ (r.absorb k).buffer.length := by
      simp only [Peer.absorb, store, List.length_append, List.length_take, List.length_drop]
      omega
    exact ⟨hlen h.room.1, hlen h.room.2⟩

theorem SameProgress.next (h : p.SameProgress q) (hb : p.Bounded) (e : Endian)
    (k : Nat) : (p.next e k).SameProgress (q.next e k) := by
  have hgoal : p.goal = q.goal := by rw [goal, goal, h.size]
  have habsorb := h.absorb k
  have hle := absorb_received_le hb k
  unfold Peer.next
  rw [habsorb.received, hgoal, h.size]
  split
  · exact habsorb
  · next hless =>
    -- The size or the frame is complete: what has arrived is all there is to read.
    have hfull : (p.absorb k).dataReceived = p.goal := by
      rw [habsorb.received] at hle ⊢
      omega
    have hfull' : (q.absorb k).dataReceived = q.goal := by
      rw [← habsorb.received, hfull, hgoal]
    have hbytes := habsorb.bytes
    rw [hfull, hfull'] at hbytes
    split
    · next hsize =>
      have hp8 : p.goal = 8 := if_pos (h.size.trans hsize)
      have hq8 : q.goal = 8 := if_pos hsize
      rw [hp8, hq8] at hbytes
      refine ⟨?_, rfl, habsorb.stream, habsorb.processed, rfl, ⟨Nat.zero_le _, Nat.zero_le _⟩⟩
      show bytesNat (e.order _) = bytesNat (e.order _)
      rw [hbytes]
    · next hsize =>
      have hpn : p.goal = p.dataSize := if_neg (h.size ▸ hsize)
      have hqn : q.goal = q.dataSize := if_neg hsize
      rw [hpn, hqn] at hbytes
      refine ⟨rfl, rfl, habsorb.stream, ?_, rfl, ⟨Nat.zero_le _, Nat.zero_le _⟩⟩
      show (p.absorb k).processed ++ [(p.absorb k).buffer.take p.dataSize] =
        (q.absorb k).processed ++ [(q.absorb k).buffer.take q.dataSize]
      rw [habsorb.processed, hbytes]

/-- A move between two frames leaves the loop where it stood. -/
theorem SameProgress.moveTo (h : p.SameProgress q) (hp : p.BetweenFrames) (place : Place) :
    (p.moveTo place).SameProgress q := by
  obtain ⟨hsize, hreceived⟩ := hp
  refine ⟨h.size ▸ hsize.symm, h.received ▸ hreceived.symm, h.stream, h.processed, ?_,
    ⟨Nat.zero_le _, h.room.2⟩⟩
  show place.buffer.take 0 = q.buffer.take q.dataReceived
  rw [← h.received, hreceived]
  rfl

end Same

/-! ## Moves inside a frame -/

/-- The bytes of the frame in progress that have arrived, its size included. -/
def held (p : Peer) : Nat := if p.dataSize = 0 then p.dataReceived else 8 + p.dataReceived

/-- The bytes accounted for: what the frames processed took, what is held of the next one, and what
is still to come. -/
def weight (p : Peer) : Nat :=
  (p.processed.map fun call => 8 + call.length).sum + p.held + p.stream.length

section Weight

variable {e : Endian} {p p' : Peer}

theorem held_eq_zero : p.held = 0 ↔ p.BetweenFrames := by
  unfold held BetweenFrames
  split <;> simp_all

theorem weight_absorb (p : Peer) (k : Nat) : (p.absorb k).weight = p.weight := by
  have hlen := List.length_take_le' (min k (p.goal - p.dataReceived)) p.stream
  have hheld : (p.absorb k).held =
      p.held + (p.stream.take (min k (p.goal - p.dataReceived))).length := by
    unfold held absorb
    dsimp only
    split <;> omega
  have hstream : (p.absorb k).stream.length =
      p.stream.length - (p.stream.take (min k (p.goal - p.dataReceived))).length :=
    List.length_drop
  unfold weight
  rw [hheld, hstream]
  show (p.processed.map _).sum + _ + _ = _
  omega

theorem weight_next (h : p.Bounded) (k : Nat) : (p.next e k).weight ≤ p.weight := by
  rw [← weight_absorb p k]
  have hle := absorb_received_le h k
  unfold next
  split
  · exact le_rfl
  · next hless =>
    have hfull : (p.absorb k).dataReceived = p.goal := le_antisymm hle (not_lt.mp hless)
    split
    · next hsize =>
      -- Eight bytes were held; a size of zero drops them.
      have hheld : (p.absorb k).held = 8 :=
        (if_pos hsize).trans (hfull.trans (if_pos hsize))
      have hheld' : ((p.absorb k).sized e).held ≤ 8 := by
        unfold held
        split
        · exact Nat.zero_le 8
        · exact le_rfl
      show (p.processed.map _).sum + _ + (p.absorb k).stream.length ≤
        (p.processed.map _).sum + _ + (p.absorb k).stream.length
      omega
    · next hsize =>
      have hheld : (p.absorb k).held = 8 + p.dataSize :=
        (if_neg hsize).trans (congrArg (8 + ·) (hfull.trans (if_neg hsize)))
      have hcall := List.length_take_le p.dataSize (p.absorb k).buffer
      have hheld' : (p.absorb k).delivered.held = 0 := rfl
      show ((p.processed ++ [(p.absorb k).buffer.take p.dataSize]).map _).sum + _ +
          (p.absorb k).stream.length ≤ (p.processed.map _).sum + _ + (p.absorb k).stream.length
      rw [List.map_append, List.sum_append, List.map_singleton, List.sum_singleton, hheld, hheld']
      omega

theorem weight_moveTo (p : Peer) (place : Place) : (p.moveTo place).weight + p.held = p.weight := by
  show (p.processed.map _).sum + 0 + p.stream.length + _ = _
  unfold weight
  omega

/-- **One step.** -/
theorem step_weight {event : Event} (h : p.Bounded) (hp : p.perform e event = .ok p') :
    p'.Bounded ∧ p'.weight ≤ p.weight := by
  cases event with
  | poll outcome =>
    cases outcome with
    | none =>
      obtain rfl := Except.ok.inj hp
      exact ⟨h, le_rfl⟩
    | some k =>
      rw [iteration_eq_ok h hp]
      exact ⟨h.next e k, weight_next h k⟩
  | move place =>
    obtain rfl := Except.ok.inj hp
    exact ⟨.moveTo p place, (Nat.le_add_right _ _).trans (weight_moveTo p place).le⟩

theorem relocated_cons (p : Peer) (event : Event) (events : List Event) :
    p.relocated e (event :: events) = p.perform e event >>= fun p => p.relocated e events :=
  List.foldlM_cons

theorem relocated_weight {events : List Event} (h : p.Bounded)
    (hp : p.relocated e events = .ok p') : p'.Bounded ∧ p'.weight ≤ p.weight := by
  induction events generalizing p with
  | nil =>
    obtain rfl := Except.ok.inj hp
    exact ⟨h, le_rfl⟩
  | cons event events ih =>
    rw [relocated_cons] at hp
    obtain ⟨p₁, hstep, hrest⟩ := bind_eq_ok hp
    obtain ⟨hbounded, hle⟩ := step_weight h hstep
    obtain ⟨hbounded', hle'⟩ := ih hbounded hrest
    exact ⟨hbounded', hle'.trans hle⟩

/-- The calls made weigh no more than what there was to receive. -/
theorem sum_processed_le (p : Peer) :
    (p.processed.map fun call => 8 + call.length).sum ≤ p.weight := by
  unfold weight
  omega

end Weight

/-! ## Whole runs -/

section Runs

variable {e : Endian} {frames : List Frame} {p q : Peer} {events : List Event}

theorem bounded_start (stream : Bytes) : (start stream).Bounded :=
  ⟨Nat.zero_le _, fun hne => absurd rfl hne⟩

theorem Inv.bounded (h : p.Inv e frames) : p.Bounded := by
  obtain ⟨done, todo, -, -, hat | ⟨f, rest, -, hat⟩⟩ := h
  · exact ⟨by rw [if_pos hat.size]; exact hat.received.le, fun hne => absurd hat.size hne⟩
  · have hne : p.dataSize ≠ 0 := by
      have hsize := hat.size
      have hreceived := hat.received
      omega
    exact ⟨by rw [if_neg hne, hat.size]; exact hat.received.le, fun _ =>
      hat.room.trans hat.size.symm⟩

/-- A move between two frames keeps the place in the stream. -/
theorem Inv.moveTo (h : p.Inv e frames) (hbetween : p.BetweenFrames) (place : Place) :
    (p.moveTo place).Inv e frames := by
  obtain ⟨done, todo, hframes, hdone, hat | ⟨f, rest, rfl, hat⟩⟩ := h
  · refine ⟨done, todo, hframes, hdone, Or.inl ⟨rfl, (by decide : 0 < 8), place.size_ge, ?_⟩⟩
    have hbytes := hat.bytes
    rw [hbetween.2] at hbytes
    exact hbytes
  · have hpos := f.size_ge
    have hsize := hat.size
    rw [hbetween.1] at hsize
    omega

theorem movesBetweenFrames_cons {event : Event} :
    MovesBetweenFrames e p (event :: events) ↔
      (∀ place, event = .move place → p.BetweenFrames) ∧
        ∀ p', p.perform e event = .ok p' → MovesBetweenFrames e p' events := by
  constructor
  · intro h
    refine ⟨fun place hevent => h [] place events (by rw [hevent]; rfl) p rfl, ?_⟩
    intro p' hstep before place after hsplit q hq
    refine h (event :: before) place after (by rw [hsplit]; rfl) q ?_
    rw [relocated_cons, hstep]
    exact hq
  · rintro ⟨hfirst, hrest⟩ before place after hsplit q hq
    cases before with
    | nil =>
      obtain ⟨hevent, -⟩ := List.cons_eq_cons.mp hsplit
      obtain rfl := Except.ok.inj hq
      exact hfirst place hevent
    | cons event' before =>
      obtain ⟨rfl, hsplit'⟩ := List.cons_eq_cons.mp hsplit
      rw [relocated_cons] at hq
      obtain ⟨p', hstep, hrun⟩ := bind_eq_ok hq
      exact hrest p' hstep before place after hsplit' q hrun

/-- **Moves between frames are invisible**, however far the stream has been received. -/
theorem relocated_same {q' : Peer} (hmoves : MovesBetweenFrames e p events) (hp : p.Inv e frames)
    (hq : q.Inv e frames) (hsame : p.SameProgress q)
    (hrun : q.threadFunction e (pollsOf events) = .ok q') :
    ∃ p', p.relocated e events = .ok p' ∧ p'.SameProgress q' := by
  induction events generalizing p q with
  | nil =>
    obtain rfl := Except.ok.inj hrun
    exact ⟨p, rfl, hsame⟩
  | cons event events ih =>
    obtain ⟨hfirst, hrest⟩ := movesBetweenFrames_cons.mp hmoves
    rw [relocated_cons]
    cases event with
    | move place =>
      have hbetween := hfirst place rfl
      exact ih (hrest _ rfl) (hp.moveTo hbetween place) hq (hsame.moveTo hbetween place) hrun
    | poll outcome =>
      obtain ⟨p₁, hstep, hp₁⟩ := iteration_inv hp outcome
      obtain ⟨q₁, hstep', hq₁⟩ := iteration_inv hq outcome
      have hrun' : q₁.threadFunction e (pollsOf events) = .ok q' := by
        have hcons : (q.iteration e outcome >>= fun q => q.threadFunction e (pollsOf events)) =
          .ok q' := hrun
        rwa [hstep'] at hcons
      have hsame₁ : p₁.SameProgress q₁ := by
        cases outcome with
        | none =>
          obtain rfl := Except.ok.inj hstep
          obtain rfl := Except.ok.inj hstep'
          exact hsame
        | some k =>
          rw [iteration_eq_ok hp.bounded hstep, iteration_eq_ok hq.bounded hstep']
          exact hsame.next hp.bounded e k
      obtain ⟨p', hrun₁, hsame'⟩ := ih (hrest p₁ hstep) hp₁ hq₁ hsame₁ hrun'
      refine ⟨p', ?_, hsame'⟩
      show (p.iteration e outcome >>= fun p => p.relocated e events) = _
      rw [hstep]
      exact hrun₁

/-- **A move inside a frame is never made up for.** -/
theorem relocated_lighter (hp : p.Bounded) {p' : Peer} (hrun : p.relocated e events = .ok p')
    (hmoves : ¬ MovesBetweenFrames e p events) : p'.weight < p.weight := by
  induction events generalizing p with
  | nil =>
    refine absurd (fun before place after hsplit => ?_) hmoves
    exact absurd hsplit (by simp)
  | cons event events ih =>
    rw [relocated_cons] at hrun
    obtain ⟨p₁, hstep, hrest⟩ := bind_eq_ok hrun
    obtain ⟨hp₁, hle⟩ := step_weight hp hstep
    by_cases hlater : MovesBetweenFrames e p₁ events
    · have hfirst : ¬ ∀ place, event = .move place → p.BetweenFrames := by
        intro hfirst
        refine hmoves (movesBetweenFrames_cons.mpr ⟨hfirst, fun p₂ hstep' => ?_⟩)
        rwa [Except.ok.inj (hstep'.symm.trans hstep)]
      push Not at hfirst
      obtain ⟨place, rfl, hinside⟩ := hfirst
      obtain rfl := Except.ok.inj hstep
      have hheld : p.held ≠ 0 := fun hzero => hinside (held_eq_zero.mp hzero)
      have hmove := weight_moveTo p place
      have hafter := (relocated_weight hp₁ hrest).2
      omega
    · exact (ih hp₁ hrest hlater).trans_le hle

theorem sum_frames (frames : List Frame) :
    ((frames.map Frame.bytes).map fun call => 8 + call.length).sum =
      (start (streamOf e frames)).weight := by
  have hlen : ((frames.map Frame.bytes).map fun call => 8 + call.length).sum =
      (streamOf e frames).length := by
    induction frames with
    | nil => rfl
    | cons f frames ih =>
      rw [length_streamOf_cons, ← ih]
      rfl
  rw [hlen]
  show _ = 0 + 0 + (streamOf e frames).length
  omega

end Runs

/-- **Relocation.** Let `q` be the peer that is never moved. Where every move finds the loop between
two frames, the calls of the peer that is moved are those of `q`, at every moment. Once `q` has
received the whole stream, this is also the only way they can be. -/
theorem relocation_iff (e : Endian) (frames : List Frame) (events : List Event) (q : Peer)
    (hq : (start (streamOf e frames)).threadFunction e (pollsOf events) = .ok q) :
    (MovesBetweenFrames e (start (streamOf e frames)) events →
      ∃ p, (start (streamOf e frames)).relocated e events = .ok p ∧ p.processed = q.processed) ∧
    (q.stream = [] →
      ((∃ p, (start (streamOf e frames)).relocated e events = .ok p ∧
          p.processed = q.processed) ↔
        MovesBetweenFrames e (start (streamOf e frames)) events)) := by
  have hstart := inv_start e frames
  have hsame : MovesBetweenFrames e (start (streamOf e frames)) events →
      ∃ p, (start (streamOf e frames)).relocated e events = .ok p ∧ p.processed = q.processed := by
    intro hmoves
    have hself : (start (streamOf e frames)).SameProgress (start (streamOf e frames)) :=
      ⟨rfl, rfl, rfl, rfl, rfl, Nat.zero_le _, Nat.zero_le _⟩
    obtain ⟨p, hrun, hsame⟩ := relocated_same hmoves hstart hstart hself hq
    exact ⟨p, hrun, hsame.processed⟩
  refine ⟨hsame, fun hend => ⟨?_, hsame⟩⟩
  rintro ⟨p, hrun, hcalls⟩
  by_contra hmoves
  have hless := relocated_lighter (bounded_start _) hrun hmoves
  have hall : q.processed = frames.map Frame.bytes := by
    obtain ⟨q', hq', hinv⟩ := threadFunction_inv (pollsOf events) hstart
    obtain rfl := Except.ok.inj (hq'.symm.trans hq)
    exact hinv.processed_all hend
  have hsum := sum_processed_le p
  rw [hcalls, hall, sum_frames (e := e)] at hsum
  exact absurd hsum (not_le.mpr hless)

/-! ## One frame -/

/-- A frame that reads as a size. -/
def nine : Frame := ⟨[9, 0, 0, 0, 0, 0, 0, 0], by decide, by decide⟩

/-- Its size is received in one piece, and then its bytes. -/
theorem nine_received :
    ∃ q, (start (streamOf .little [nine])).threadFunction .little [some 8, some 8] = .ok q ∧
      q.stream = [] ∧ q.processed = [nine.bytes] :=
  ⟨_, rfl, rfl, rfl⟩

/-- Moved in between, the peer takes the frame for a size and processes nothing. -/
theorem nine_lost :
    ∃ q, (start (streamOf .little [nine])).threadFunction .little
        (pollsOf [.poll (some 8), .move .fresh, .poll (some 8)]) = .ok q ∧ q.stream = [] ∧
      ¬ ∃ p, (start (streamOf .little [nine])).relocated .little
          [.poll (some 8), .move .fresh, .poll (some 8)] = .ok p ∧ p.processed = q.processed := by
  obtain ⟨q, hq, hend, hcalls⟩ := nine_received
  refine ⟨q, hq, hend, ?_⟩
  rintro ⟨p, hp, hsame⟩
  have hnone : (start (streamOf .little [nine])).relocated .little
      [.poll (some 8), .move .fresh, .poll (some 8)] = .ok
        { dataSize := 9, dataReceived := 0, buffer := [9, 0, 0, 0, 0, 0, 0, 0, 0], stream := []
          processed := [] } := rfl
  obtain rfl := Except.ok.inj (hnone.symm.trans hp)
  rw [hcalls] at hsame
  cases hsame

/-- What the theorem says of a move after the frame. -/
theorem nine_moved_after :
    ∃ q : Peer, q.stream = [] ∧
      ((∃ p, (start (streamOf .little [nine])).relocated .little
          [.poll (some 8), .poll (some 8), .move .fresh] = .ok p ∧ p.processed = q.processed) ↔
        MovesBetweenFrames .little (start (streamOf .little [nine]))
          [.poll (some 8), .poll (some 8), .move .fresh]) := by
  obtain ⟨q, hq, hend, -⟩ := nine_received
  exact ⟨q, hend, (relocation_iff .little [nine] [.poll (some 8), .poll (some 8), .move .fresh] q
    hq).2 hend⟩

end Peer

end WhisperNet
