import WhisperNet.Lib.Reader

/-!
# `Peer::threadFunction`: reassembling frames

The receiving side of one link. `Peer::send` writes a frame as its 8-byte length followed by its
bytes; the loop of `Peer::threadFunction` reads the two in turn, in as many pieces as the socket
cuts the stream into, with its progress kept in `dataSize`, `dataReceived` and `buffer`.

The loop is modelled with every memory range and every unsigned subtraction checked: a range that
leaves `buffer`, or a subtraction that would wrap around, is a `Fault`. A run without a fault is
therefore a run of the source in which neither occurs.

* `Peer.Inv` — where the loop stands in the stream.
* `iteration_inv` — one iteration does not fault and keeps the invariant.
* `reassembly` — every run processes a prefix of the frames sent.
* `reassembly_complete` — a run that receives often enough processes them all.
-/

namespace WhisperNet

open Bin

/-! ## The sending side -/

/-- A frame as `PeerManager::send` produces them: at least 8 bytes, with a `uint64_t` length. -/
structure Frame where
  bytes : Bytes
  size_ge : 8 ≤ bytes.length
  size_lt : bytes.length < 256 ^ 8

/-- `Peer::send`: the size of the data, then the data. -/
def Peer.send (e : Endian) (data : Bytes) : Bytes := putNat e 8 data.length ++ data

/-- The stream a sequence of frames makes. -/
def streamOf (e : Endian) (frames : List Frame) : Bytes :=
  frames.flatMap fun f => Peer.send e f.bytes

theorem streamOf_cons (e : Endian) (f : Frame) (frames : List Frame) :
    streamOf e (f :: frames) = putNat e 8 f.bytes.length ++ (f.bytes ++ streamOf e frames) := by
  simp [streamOf, Peer.send]

theorem length_streamOf_cons (e : Endian) (f : Frame) (frames : List Frame) :
    (streamOf e (f :: frames)).length = 8 + f.bytes.length + (streamOf e frames).length := by
  rw [streamOf_cons, List.length_append, List.length_append, length_putNat]
  omega

/-! ## Checked operations -/

/-- What must not happen while the loop runs. -/
inductive Fault
  /-- A range reaches outside `buffer`. -/
  | outOfRange
  /-- An unsigned subtraction wraps around. -/
  | underflow
  deriving DecidableEq, Repr

/-- Unsigned subtraction. -/
def sub (a b : Nat) : Except Fault Nat := if b ≤ a then .ok (a - b) else .error .underflow

/-- The range of `len` bytes from `off` lies inside `size` bytes. -/
def inRange (off len size : Nat) : Except Fault Unit :=
  if off + len ≤ size then .ok () else .error .outOfRange

theorem sub_ok {a b : Nat} (h : b ≤ a) : sub a b = .ok (a - b) := if_pos h

theorem inRange_ok {off len size : Nat} (h : off + len ≤ size) : inRange off len size = .ok () :=
  if_pos h

/-- `receive` storing `chunk` at `off`. -/
def store (buffer : Bytes) (off : Nat) (chunk : Bytes) : Bytes :=
  buffer.take off ++ chunk ++ buffer.drop (off + chunk.length)

/-- `memmove` of `len` bytes from `src` to the front of the buffer. -/
def memmoveFront (buffer : Bytes) (src len : Nat) : Except Fault Bytes := do
  inRange src len buffer.length
  inRange 0 len buffer.length
  return (buffer.drop src).take len ++ buffer.drop len

/-- `std::vector::resize`: new elements are zero. -/
def resize (buffer : Bytes) (n : Nat) : Bytes :=
  buffer.take n ++ List.replicate (n - buffer.length) 0

@[simp] theorem length_resize (buffer : Bytes) (n : Nat) : (resize buffer n).length = n := by
  simp only [resize, List.length_append, List.length_take, List.length_replicate]
  omega

theorem length_store {buffer chunk : Bytes} {off : Nat} (h : off + chunk.length ≤ buffer.length) :
    (store buffer off chunk).length = buffer.length := by
  simp only [store, List.length_append, List.length_take, List.length_drop]
  omega

/-- After a store at the end of the received bytes, the received bytes are one longer piece. -/
theorem take_store {buffer chunk : Bytes} {off : Nat} (h : off ≤ buffer.length) :
    (store buffer off chunk).take (off + chunk.length) = buffer.take off ++ chunk := by
  have hlen : (buffer.take off ++ chunk).length = off + chunk.length := by
    rw [List.length_append, List.length_take, min_eq_left h]
  rw [store, ← hlen, List.take_left' rfl]

/-! ## The loop -/

/-- The loop's variables and its surroundings: the bytes of the stream not yet received, and the
frames handed to `processMessage` so far. -/
structure Peer where
  dataSize : Nat
  dataReceived : Nat
  buffer : Bytes
  stream : Bytes
  processed : List Bytes

namespace Peer

/-- A fresh peer, its 30-byte buffer zeroed. -/
def start (stream : Bytes) : Peer where
  dataSize := 0
  dataReceived := 0
  buffer := List.replicate 30 0
  stream := stream
  processed := []

/-- `socket.receive` of at most `len` bytes to `buffer + dataReceived`. The socket returns the
next `k` bytes, or fewer when fewer were asked for or are left. -/
def receive (p : Peer) (len k : Nat) : Except Fault Peer := do
  inRange p.dataReceived len p.buffer.length
  let chunk := p.stream.take (min k len)
  return { p with
    buffer := store p.buffer p.dataReceived chunk
    dataReceived := p.dataReceived + chunk.length
    stream := p.stream.drop chunk.length }

/-- Once the whole size has arrived it is read off the buffer, which is resized to it. -/
def takeSize (e : Endian) (p : Peer) : Except Fault Peer :=
  if 8 ≤ p.dataReceived then do
    let dataSize := bytesNat (e.order (p.buffer.take 8))
    let dataReceived ← sub p.dataReceived 8
    let buffer ←
      if 0 < dataReceived then do
        let rest ← sub p.buffer.length 8
        memmoveFront p.buffer 8 rest
      else pure p.buffer
    return { p with dataSize, dataReceived, buffer := resize buffer dataSize }
  else return p

/-- The iteration while the size of the next frame is not known (`dataSize == 0`). -/
def receiveSize (e : Endian) (p : Peer) (k : Nat) : Except Fault Peer := do
  let len ← sub 8 p.dataReceived
  let p ← p.receive len k
  p.takeSize e

/-- Once the whole frame has arrived it is processed, and the loop waits for a size again. -/
def takeData (p : Peer) : Except Fault Peer :=
  if p.dataSize ≤ p.dataReceived then do
    inRange 0 p.dataSize p.buffer.length
    let processed := p.processed ++ [p.buffer.take p.dataSize]
    let buffer ←
      if 0 < p.dataReceived then do
        let rest ← sub p.buffer.length p.dataSize
        memmoveFront p.buffer p.dataSize rest
      else pure p.buffer
    let dataReceived ← sub p.dataReceived p.dataSize
    return { p with dataSize := 0, dataReceived, buffer, processed }
  else return p

/-- The iteration while the bytes of a frame arrive. -/
def receiveData (p : Peer) (k : Nat) : Except Fault Peer := do
  let len ← sub p.buffer.length p.dataReceived
  let p ← p.receive len k
  p.takeData

/-- One iteration: `none` when the poll reports nothing to receive, `some k` when `receive`
returns `k` bytes. `&buffer[0]` needs a first element. -/
def iteration (e : Endian) (p : Peer) : Option Nat → Except Fault Peer
  | none => pure p
  | some k => do
    inRange 0 1 p.buffer.length
    if p.dataSize = 0 then p.receiveSize e k else p.receiveData k

/-- The loop over the outcomes of its polls. -/
def threadFunction (e : Endian) (p : Peer) (polls : List (Option Nat)) : Except Fault Peer :=
  polls.foldlM (iteration e) p

/-! ## The invariant -/

/-- Part of a size has arrived; the frames `todo` are still to come. -/
structure AtSize (e : Endian) (p : Peer) (todo : List Frame) : Prop where
  size : p.dataSize = 0
  received : p.dataReceived < 8
  room : 8 ≤ p.buffer.length
  bytes : p.buffer.take p.dataReceived ++ p.stream = streamOf e todo

/-- The size of `f` is known and part of it has arrived; `todo` comes after it. -/
structure AtData (e : Endian) (p : Peer) (f : Frame) (todo : List Frame) : Prop where
  size : p.dataSize = f.bytes.length
  room : p.buffer.length = f.bytes.length
  received : p.dataReceived < f.bytes.length
  bytes : p.buffer.take p.dataReceived ++ p.stream = f.bytes ++ streamOf e todo

/-- Where the loop stands: `done` has been processed, and what has arrived of the rest is at the
front of the buffer. -/
def Inv (e : Endian) (frames : List Frame) (p : Peer) : Prop :=
  ∃ done todo, frames = done ++ todo ∧ p.processed = done.map Frame.bytes ∧
    (p.AtSize e todo ∨ ∃ f rest, todo = f :: rest ∧ p.AtData e f rest)

theorem inv_start (e : Endian) (frames : List Frame) :
    (start (streamOf e frames)).Inv e frames :=
  ⟨[], frames, rfl, rfl, Or.inl ⟨rfl, by simp [start], by simp [start], rfl⟩⟩

/-! ## One iteration -/

/-- `receive` within the buffer stores what it took from the stream after the received bytes. -/
theorem receive_ok (p : Peer) (len k : Nat) (h : p.dataReceived + len ≤ p.buffer.length) :
    ∃ p', p.receive len k = .ok p' ∧ p'.dataSize = p.dataSize ∧ p'.processed = p.processed ∧
      p'.buffer.length = p.buffer.length ∧ p'.dataReceived ≤ p.dataReceived + len ∧
      p'.buffer.take p'.dataReceived ++ p'.stream = p.buffer.take p.dataReceived ++ p.stream := by
  have hchunk : (p.stream.take (min k len)).length ≤ len :=
    (List.length_take_le _ _).trans (min_le_right _ _)
  have hdrop : p.stream.drop (p.stream.take (min k len)).length = p.stream.drop (min k len) := by
    rw [List.length_take]
    rcases le_total (min k len) p.stream.length with h' | h'
    · rw [min_eq_left h']
    · rw [min_eq_right h', List.drop_length, List.drop_eq_nil_of_le h']
  unfold receive
  rw [inRange_ok h]
  refine ⟨_, rfl, rfl, rfl, length_store (by omega), Nat.add_le_add_left hchunk _, ?_⟩
  dsimp only
  rw [take_store (by omega), hdrop, List.append_assoc, List.take_append_drop]

/-- The eight bytes of a size have arrived: the loop turns to the frame they announce. -/
theorem takeSize_complete {e : Endian} {p : Peer} {todo : List Frame} (h8 : p.dataReceived = 8)
    (hroom : 8 ≤ p.buffer.length) (hbytes : p.buffer.take 8 ++ p.stream = streamOf e todo) :
    ∃ p' f rest, p.takeSize e = .ok p' ∧ p'.processed = p.processed ∧ todo = f :: rest ∧
      p'.AtData e f rest := by
  cases todo with
  | nil =>
    -- A whole size arrived, so the stream was not empty.
    have hlen := congrArg List.length hbytes
    simp only [streamOf, List.flatMap_nil, List.length_append, List.length_take,
      List.length_nil] at hlen
    omega
  | cons f rest =>
    rw [streamOf_cons] at hbytes
    obtain ⟨hhead, htail⟩ := List.append_inj hbytes
      (by rw [List.length_take, length_putNat]; omega)
    have hval : bytesNat (e.order (p.buffer.take 8)) = f.bytes.length := by
      rw [hhead, bytesNat_putNat e f.size_lt]
    unfold takeSize
    rw [if_pos h8.ge, h8, sub_ok le_rfl, hval]
    refine ⟨_, f, rest, rfl, rfl, rfl, rfl, length_resize _ _, ?_, by simpa using htail⟩
    exact lt_of_lt_of_le (by decide : 0 < 8) f.size_ge

theorem receiveSize_inv {e : Endian} {p : Peer} {todo : List Frame} (h : p.AtSize e todo)
    (k : Nat) :
    ∃ p', p.receiveSize e k = .ok p' ∧ p'.processed = p.processed ∧
      (p'.AtSize e todo ∨ ∃ f rest, todo = f :: rest ∧ p'.AtData e f rest) := by
  have hrec := h.received
  have hroom := h.room
  obtain ⟨p', hp', hsize, hproc, hlen, hle, hbytes⟩ :=
    receive_ok p (8 - p.dataReceived) k (by omega)
  rw [h.bytes] at hbytes
  have hrun : p.receiveSize e k = p'.takeSize e := by
    unfold receiveSize
    rw [sub_ok hrec.le]
    show (p.receive (8 - p.dataReceived) k >>= fun p => p.takeSize e) = _
    rw [hp']
    rfl
  rw [hrun, ← hproc]
  by_cases h8 : 8 ≤ p'.dataReceived
  · have heq : p'.dataReceived = 8 := by omega
    obtain ⟨p'', f, rest, hp'', hproc', htodo, hat⟩ :=
      takeSize_complete heq (by omega) (heq ▸ hbytes)
    exact ⟨p'', hp'', hproc', Or.inr ⟨f, rest, htodo, hat⟩⟩
  · refine ⟨p', if_neg h8, rfl, Or.inl ⟨hsize.trans h.size, by omega, by omega, hbytes⟩⟩

/-- The last byte of a frame has arrived: the frame is processed and the loop waits for the next
size. -/
theorem takeData_complete {e : Endian} {p : Peer} {f : Frame} {rest : List Frame}
    (hsize : p.dataSize = f.bytes.length) (hall : p.dataReceived = f.bytes.length)
    (hroom : p.buffer.length = f.bytes.length)
    (hbytes : p.buffer.take f.bytes.length ++ p.stream = f.bytes ++ streamOf e rest) :
    ∃ p', p.takeData = .ok p' ∧ p'.processed = p.processed ++ [f.bytes] ∧ p'.AtSize e rest := by
  obtain ⟨hhead, htail⟩ := List.append_inj hbytes (by rw [List.length_take]; omega)
  have hpos : 0 < f.bytes.length := lt_of_lt_of_le (by decide) f.size_ge
  have hmove : memmoveFront p.buffer f.bytes.length 0 = .ok p.buffer := by
    unfold memmoveFront
    rw [inRange_ok (by omega), inRange_ok (by omega)]
    rfl
  unfold takeData
  rw [hsize, hall, if_pos le_rfl, inRange_ok (by omega), hhead, if_pos hpos,
    sub_ok (by omega : f.bytes.length ≤ p.buffer.length), sub_ok le_rfl, hroom, Nat.sub_self]
  refine ⟨{ p with dataSize := 0, dataReceived := 0, processed := p.processed ++ [f.bytes] },
    ?_, rfl, rfl, (by decide : 0 < 8), ?_, htail⟩
  · show (memmoveFront p.buffer f.bytes.length 0 >>= fun buffer => _) = _
    rw [hmove]
    rfl
  · exact hroom.symm ▸ f.size_ge

theorem receiveData_inv {e : Endian} {p : Peer} {f : Frame} {rest : List Frame}
    (h : p.AtData e f rest) (k : Nat) :
    ∃ p', p.receiveData k = .ok p' ∧
      ((p'.processed = p.processed ∧ p'.AtData e f rest) ∨
        (p'.processed = p.processed ++ [f.bytes] ∧ p'.AtSize e rest)) := by
  have hrec := h.received
  have hroom := h.room
  obtain ⟨p', hp', hsize, hproc, hlen, hle, hbytes⟩ :=
    receive_ok p (p.buffer.length - p.dataReceived) k (by omega)
  rw [h.bytes] at hbytes
  have hrun : p.receiveData k = p'.takeData := by
    unfold receiveData
    rw [sub_ok (by omega)]
    show (p.receive (p.buffer.length - p.dataReceived) k >>= fun p => p.takeData) = _
    rw [hp']
    rfl
  have hsize' : p'.dataSize = f.bytes.length := hsize.trans h.size
  rw [hrun, ← hproc]
  by_cases hall : p'.dataSize ≤ p'.dataReceived
  · have heq : p'.dataReceived = f.bytes.length := by omega
    obtain ⟨p'', hp'', hproc', hat⟩ :=
      takeData_complete hsize' heq (by omega) (heq ▸ hbytes)
    exact ⟨p'', hp'', Or.inr ⟨hproc', hat⟩⟩
  · exact ⟨p', if_neg hall, Or.inl ⟨rfl, hsize', by omega, by omega, hbytes⟩⟩

/-- **One iteration.** Whatever the poll and the socket return, no range leaves the buffer, no
subtraction wraps, and the loop knows where it stands in the stream. -/
theorem iteration_inv {e : Endian} {frames : List Frame} {p : Peer} (h : p.Inv e frames)
    (poll : Option Nat) : ∃ p', p.iteration e poll = .ok p' ∧ p'.Inv e frames := by
  cases poll with
  | none => exact ⟨p, rfl, h⟩
  | some k =>
    obtain ⟨done, todo, hframes, hdone, hat | ⟨f, rest, rfl, hat⟩⟩ := h
    · obtain ⟨p', hp', hproc, hat'⟩ := receiveSize_inv hat k
      have hrun : p.iteration e (some k) = p.receiveSize e k := by
        have := hat.room
        unfold iteration
        rw [inRange_ok (by omega)]
        exact if_pos hat.size
      exact ⟨p', hrun.trans hp', done, todo, hframes, hproc.trans hdone, hat'⟩
    · have hne : p.dataSize ≠ 0 := by have := hat.size; have := hat.received; omega
      have hrun : p.iteration e (some k) = p.receiveData k := by
        have := hat.room
        have := hat.received
        unfold iteration
        rw [inRange_ok (by omega)]
        exact if_neg hne
      obtain ⟨p', hp', ⟨hproc, hat'⟩ | ⟨hproc, hat'⟩⟩ := receiveData_inv hat k
      · exact ⟨p', hrun.trans hp', done, f :: rest, hframes, hproc.trans hdone,
          Or.inr ⟨f, rest, rfl, hat'⟩⟩
      · refine ⟨p', hrun.trans hp', done ++ [f], rest, ?_, ?_, Or.inl hat'⟩
        · rw [hframes, List.append_assoc, List.singleton_append]
        · rw [hproc, hdone, List.map_append, List.map_singleton]

theorem threadFunction_inv {e : Endian} {frames : List Frame} (polls : List (Option Nat)) :
    ∀ {p : Peer}, p.Inv e frames → ∃ p', p.threadFunction e polls = .ok p' ∧ p'.Inv e frames := by
  induction polls with
  | nil => exact fun {p} h => ⟨p, rfl, h⟩
  | cons poll polls ih =>
    intro p h
    obtain ⟨p', hp', h'⟩ := iteration_inv h poll
    obtain ⟨p'', hp'', h''⟩ := ih h'
    refine ⟨p'', ?_, h''⟩
    show (p.iteration e poll >>= fun p => p.threadFunction e polls) = _
    rw [hp']
    exact hp''

/-! ## Runs -/

theorem Inv.processed_prefix {e : Endian} {frames : List Frame} {p : Peer} (h : p.Inv e frames) :
    p.processed <+: frames.map Frame.bytes := by
  obtain ⟨done, todo, rfl, hdone, -⟩ := h
  rw [hdone, List.map_append]
  exact List.prefix_append _ _

/-- With nothing left in the stream no frame is half received. -/
theorem Inv.processed_all {e : Endian} {frames : List Frame} {p : Peer} (h : p.Inv e frames)
    (hend : p.stream = []) : p.processed = frames.map Frame.bytes := by
  obtain ⟨done, todo, rfl, hdone, hat | ⟨f, rest, rfl, hat⟩⟩ := h
  · cases todo with
    | nil => rw [hdone, List.append_nil]
    | cons f rest =>
      have hlen := congrArg List.length hat.bytes
      rw [hend, List.append_nil, length_streamOf_cons, List.length_take] at hlen
      have := hat.received
      omega
  · have hlen := congrArg List.length hat.bytes
    rw [hend, List.append_nil, List.length_append, List.length_take] at hlen
    have := hat.received
    omega

/-- **Reassembly.** However the stream of `frames` is cut, the loop runs without a fault and hands
`processMessage` the frames in order and byte for byte, all of them once the stream is consumed. -/
theorem reassembly (e : Endian) (frames : List Frame) (polls : List (Option Nat)) :
    ∃ p, (start (streamOf e frames)).threadFunction e polls = .ok p ∧
      p.processed <+: frames.map Frame.bytes ∧
      (p.stream = [] → p.processed = frames.map Frame.bytes) := by
  obtain ⟨p, hp, h⟩ := threadFunction_inv polls (inv_start e frames)
  exact ⟨p, hp, h.processed_prefix, h.processed_all⟩

/-- Two frames of 8 and 9 bytes, cut inside a size, across both frames, and byte for byte. -/
theorem reassembly_twoFrames : ∃ p,
    (start (streamOf .little [⟨[1, 2, 3, 4, 5, 6, 7, 8], by decide, by decide⟩,
      ⟨[9, 8, 7, 6, 5, 4, 3, 2, 1], by decide, by decide⟩])).threadFunction .little
        [some 3, none, some 40, some 7, some 1, some 0, some 2, some 6, some 1, some 8] = .ok p ∧
      p.stream = [] ∧
      p.processed = [[1, 2, 3, 4, 5, 6, 7, 8], [9, 8, 7, 6, 5, 4, 3, 2, 1]] := by
  obtain ⟨p, hp, -, hall⟩ := reassembly .little [⟨[1, 2, 3, 4, 5, 6, 7, 8], by decide, by decide⟩,
    ⟨[9, 8, 7, 6, 5, 4, 3, 2, 1], by decide, by decide⟩]
    [some 3, none, some 40, some 7, some 1, some 0, some 2, some 6, some 1, some 8]
  have hend : p.stream = [] := by
    obtain rfl := Except.ok.inj hp
    rfl
  exact ⟨p, hp, hend, hall hend⟩

/-! ## Progress -/

/-- The poll reports something to receive, and the socket returns some of it. -/
def receives (poll : Option Nat) : Bool := poll.any fun k => decide (0 < k)

/-- What a checked computation that succeeded did. -/
theorem bind_eq_ok {α β : Type} {x : Except Fault α} {f : α → Except Fault β} {b : β}
    (h : (x >>= f) = .ok b) : ∃ a, x = .ok a ∧ f a = .ok b := by
  cases x with
  | error fault => cases h
  | ok a => exact ⟨a, rfl, h⟩

theorem receive_stream {p p' : Peer} {len k : Nat} (h : p.receive len k = .ok p') :
    p'.stream.length = p.stream.length - min k len := by
  unfold receive at h
  obtain ⟨-, -, h⟩ := bind_eq_ok h
  obtain rfl := Except.ok.inj h
  show (p.stream.drop (p.stream.take (min k len)).length).length = _
  rw [List.length_drop, List.length_take]
  omega

theorem takeSize_stream {e : Endian} {p p' : Peer} (h : p.takeSize e = .ok p') :
    p'.stream = p.stream := by
  unfold takeSize at h
  split at h
  · obtain ⟨received, -, h⟩ := bind_eq_ok h
    dsimp only at h
    split at h
    · obtain ⟨rest, -, h⟩ := bind_eq_ok h
      obtain ⟨buffer, -, h⟩ := bind_eq_ok h
      obtain rfl := Except.ok.inj h
      rfl
    · obtain rfl := Except.ok.inj h
      rfl
  · obtain rfl := Except.ok.inj h
    rfl

theorem takeData_stream {p p' : Peer} (h : p.takeData = .ok p') : p'.stream = p.stream := by
  unfold takeData at h
  split at h
  · obtain ⟨-, -, h⟩ := bind_eq_ok h
    dsimp only at h
    split at h
    · obtain ⟨rest, -, h⟩ := bind_eq_ok h
      obtain ⟨buffer, -, h⟩ := bind_eq_ok h
      obtain ⟨received, -, h⟩ := bind_eq_ok h
      obtain rfl := Except.ok.inj h
      rfl
    · obtain ⟨buffer, -, h⟩ := bind_eq_ok h
      obtain ⟨received, -, h⟩ := bind_eq_ok h
      obtain rfl := Except.ok.inj h
      rfl
  · obtain rfl := Except.ok.inj h
    rfl

/-- An iteration that receives something shortens the stream: the loop always asks for at least
one byte. -/
theorem Inv.iteration_stream {e : Endian} {frames : List Frame} {p p' : Peer}
    (h : p.Inv e frames) {poll : Option Nat} (hrun : p.iteration e poll = .ok p') :
    p'.stream.length ≤ p.stream.length - (receives poll).toNat := by
  cases poll with
  | none =>
    obtain rfl := Except.ok.inj hrun
    exact le_rfl
  | some k =>
    have hreceives : (receives (some k)).toNat ≤ k := by
      rw [receives, Option.any_some]
      by_cases hk : 0 < k
      · rw [decide_eq_true hk]
        exact hk
      · rw [decide_eq_false hk]
        exact k.zero_le
    have hone : (receives (some k)).toNat ≤ 1 := Bool.toNat_le _
    obtain ⟨-, -, hbranch⟩ := bind_eq_ok hrun
    obtain ⟨done, todo, -, -, hat | ⟨f, rest, -, hat⟩⟩ := h
    · have hreceived := hat.received
      rw [if_pos hat.size] at hbranch
      obtain ⟨len, hlen, hbranch⟩ := bind_eq_ok hbranch
      obtain rfl := Except.ok.inj ((sub_ok hreceived.le).symm.trans hlen)
      obtain ⟨p₁, hreceive, htake⟩ := bind_eq_ok hbranch
      rw [takeSize_stream htake, receive_stream hreceive]
      omega
    · have hreceived := hat.received
      have hroom := hat.room
      have hne : p.dataSize ≠ 0 := by
        rw [hat.size]
        omega
      rw [if_neg hne] at hbranch
      obtain ⟨len, hlen, hbranch⟩ := bind_eq_ok hbranch
      obtain rfl := Except.ok.inj ((sub_ok (by omega)).symm.trans hlen)
      obtain ⟨p₁, hreceive, htake⟩ := bind_eq_ok hbranch
      rw [takeData_stream htake, receive_stream hreceive]
      omega

theorem Inv.threadFunction_stream {e : Endian} {frames : List Frame} {p p' : Peer}
    (h : p.Inv e frames) {polls : List (Option Nat)} (hrun : p.threadFunction e polls = .ok p') :
    p'.stream.length ≤ p.stream.length - polls.countP receives := by
  induction polls generalizing p with
  | nil =>
    obtain rfl := Except.ok.inj hrun
    exact le_rfl
  | cons poll polls ih =>
    obtain ⟨p₁, hfirst, h₁⟩ := iteration_inv h poll
    have hrest : p₁.threadFunction e polls = .ok p' := by
      have hcons : (p.iteration e poll >>= fun p => p.threadFunction e polls) = .ok p' := hrun
      rwa [hfirst] at hcons
    have hstep := h.iteration_stream hfirst
    have hlater := ih h₁ hrest
    have hcount : (poll :: polls).countP receives =
        polls.countP receives + (receives poll).toNat := by
      rw [List.countP_cons]
      cases receives poll <;> rfl
    omega

/-- **Progress.** Once something has been received as often as there are bytes in the stream, it is
consumed, and every frame has been processed. -/
theorem reassembly_complete (e : Endian) (frames : List Frame) (polls : List (Option Nat))
    (hpolls : (streamOf e frames).length ≤ polls.countP receives) :
    ∃ p, (start (streamOf e frames)).threadFunction e polls = .ok p ∧ p.stream = [] ∧
      p.processed = frames.map Frame.bytes := by
  obtain ⟨p, hp, h⟩ := threadFunction_inv polls (inv_start e frames)
  have hshort : p.stream.length ≤ (streamOf e frames).length - polls.countP receives :=
    (inv_start e frames).threadFunction_stream hp
  have hend : p.stream = [] := List.length_eq_zero_iff.mp (by omega)
  exact ⟨p, hp, hend, h.processed_all hend⟩

end Peer

end WhisperNet
