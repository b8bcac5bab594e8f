import WhisperNet.Messages
import WhisperNet.Relocation

/-!
# `Peer::threadFunction`: errors

The loop with its `catch`. A `ZTError` may come from the poll, from `receive`, or from under
`processMessage`, where the peers are asked for their addresses. If it says that the connection is
gone, the thread leaves a link-lost message and ends; any other is printed, and the loop goes on
with its variables as they are. So the bytes of a frame whose processing has thrown are still there,
the next time round `receive` is asked for no more of them, and the frame is processed again.

* `Listener.Inv` — where the loop stands in the stream, and what it has tried.
* `ready_inv` — one iteration, whether the processing returns or throws.
* `tried_until_through` — every frame is tried until its processing returns, and then the next.
-/

namespace WhisperNet

open Bin

/-- A `ZTError`, and what `getRemoteIP` comes to if the handler calls it: nothing if it throws. -/
structure Raised where
  what : String
  remoteIP : Option IpAddress
  deriving DecidableEq

/-- `error.find(text) != std::string::npos` -/
def Raised.says (raised : Raised) (text : String) : Bool :=
  decide (text.toList <:+: raised.what.toList)

def Raised.connectionLost (raised : Raised) : Bool :=
  raised.says "zts_errno=107" || raised.says "zts_poll returned ZTS_POLLERR"

/-- How a call of `processMessage` ends. -/
inductive Processing
  | returns
  | throws (raised : Raised)
  /-- Any other exception, which nobody catches. -/
  | fatal
  deriving DecidableEq

/-- What one iteration goes by. -/
inductive Poll
  /-- `stop_requested()` -/
  | stop
  | timeout
  /-- The poll fails, or else `receive`. -/
  | failed (raised : Raised)
  /-- `receive` returns `k` bytes; if that completes a frame, this is how it is processed. -/
  | ready (k : Nat) (processing : Processing)

/-- A call of `processMessage`. -/
structure Attempt where
  bytes : Bytes
  processing : Processing
  deriving DecidableEq

def Attempt.returned (attempt : Attempt) : Bool := attempt.processing == .returns

inductive ThreadStatus
  | running
  | ended
  /-- An exception has left the thread's function: `std::terminate`. -/
  | terminated
  deriving DecidableEq

/-- The thread, what it has processed, and what it has put into the queue. -/
structure Listener where
  peer : Peer
  calls : List Attempt := []
  queued : List Message := []
  status : ThreadStatus := .running

/-- The message that the connection to a peer has been severed. -/
def linkLostOf (remoteIP : IpAddress) : Message where
  type := .linkLost
  receiverNode := .ipv6Unspecified
  originatorNode := remoteIP
  messageHash := 0

namespace Listener

def start (stream : Bytes) : Listener := ⟨Peer.start stream, [], [], .running⟩

/-- `catch(ZTError e)` -/
def caught (l : Listener) (raised : Raised) : Listener :=
  if raised.connectionLost then
    match raised.remoteIP with
    | some ip => { l with queued := l.queued ++ [linkLostOf ip], status := .ended }
    | none => { l with status := .terminated }
  else l

/-- All bytes of a frame are there. -/
def attempt (l : Listener) (p : Peer) (processing : Processing) : Except Fault Listener := do
  inRange 0 p.dataSize p.buffer.length
  let attempt : Attempt := ⟨p.buffer.take p.dataSize, processing⟩
  let l := { l with peer := p, calls := l.calls ++ [attempt] }
  match processing with
  | .returns => do
    let p ← p.takeData
    return { l with peer := p }
  | .throws raised => return l.caught raised
  | .fatal => return { l with status := .terminated }

/-- The iteration while the bytes of a frame arrive. -/
def receiveData (l : Listener) (k : Nat) (processing : Processing) : Except Fault Listener := do
  let len ← sub l.peer.buffer.length l.peer.dataReceived
  let p ← l.peer.receive len k
  if p.dataSize ≤ p.dataReceived then l.attempt p processing else return { l with peer := p }

def ready (e : Endian) (l : Listener) (k : Nat) (processing : Processing) :
    Except Fault Listener := do
  inRange 0 1 l.peer.buffer.length
  if l.peer.dataSize = 0 then do
    let p ← l.peer.receiveSize e k
    return { l with peer := p }
  else l.receiveData k processing

def iteration (e : Endian) (l : Listener) : Poll → Except Fault Listener
  | .stop => pure { l with status := .ended }
  | .timeout => pure l
  | .failed raised => pure (l.caught raised)
  | .ready k processing => l.ready e k processing

/-- The loop, until the thread has ended. -/
def run (e : Endian) (l : Listener) (polls : List Poll) : Except Fault Listener :=
  polls.foldlM (fun l poll => if l.status = .running then l.iteration e poll else pure l) l

/-! ## What has been tried -/

/-- How many frames have gone through. -/
def through (calls : List Attempt) : Nat := calls.countP Attempt.returned

/-- Every call is for the first frame that has not gone through by then. -/
def Tried (frames : List Frame) (calls : List Attempt) : Prop :=
  ∀ i attempt, calls[i]? = some attempt →
    (frames.map Frame.bytes)[through (calls.take i)]? = some attempt.bytes

theorem through_snoc (calls : List Attempt) (attempt : Attempt) :
    through (calls ++ [attempt]) = through calls + if attempt.returned then 1 else 0 := by
  rw [through, List.countP_append, List.countP_singleton, through]

theorem Tried.snoc {frames : List Frame} {calls : List Attempt} (h : Tried frames calls)
    {attempt : Attempt} (hnext : (frames.map Frame.bytes)[through calls]? = some attempt.bytes) :
    Tried frames (calls ++ [attempt]) := by
  intro i a hi
  rcases Nat.lt_trichotomy i calls.length with hlt | rfl | hgt
  · rw [List.getElem?_append_left hlt] at hi
    rw [List.take_append_of_le_length hlt.le]
    exact h i a hi
  · rw [List.getElem?_append_right le_rfl, Nat.sub_self, List.getElem?_cons_zero,
      Option.some_inj] at hi
    rw [List.take_left' rfl, hnext, hi]
  · rw [List.getElem?_eq_none (by rw [List.length_append, List.length_singleton]; omega)] at hi
    cases hi

/-! ## The invariant -/

/-- The size of `f` is known; some of it has arrived, or all of it. -/
structure AtFrame (e : Endian) (p : Peer) (f : Frame) (rest : List Frame) : Prop where
  size : p.dataSize = f.bytes.length
  room : p.buffer.length = f.bytes.length
  received : p.dataReceived ≤ f.bytes.length
  bytes : p.buffer.take p.dataReceived ++ p.stream = f.bytes ++ streamOf e rest

/-- Where the loop stands: `done` has gone through, and what has arrived of the rest is at the front
of the buffer. A whole frame is there only if the last call has not returned. -/
def Inv (e : Endian) (frames : List Frame) (l : Listener) : Prop :=
  ∃ done todo, frames = done ++ todo ∧ through l.calls = done.length ∧ Tried frames l.calls ∧
    (l.peer.AtSize e todo ∨ ∃ f rest, todo = f :: rest ∧ AtFrame e l.peer f rest ∧
      (f.bytes.length ≤ l.peer.dataReceived →
        ∃ attempt, l.calls.getLast? = some attempt ∧ attempt.returned = false))

theorem inv_start (e : Endian) (frames : List Frame) : Inv e frames (start (streamOf e frames)) :=
  ⟨[], frames, rfl, rfl, nofun, Or.inl ⟨rfl, by simp [start, Peer.start],
    by simp [start, Peer.start], rfl⟩⟩

/-- What has been queued, and what has become of the thread, are left out of it. -/
theorem Inv.caught {e : Endian} {frames : List Frame} {l : Listener} (h : Inv e frames l)
    (raised : Raised) : Inv e frames (l.caught raised) := by
  unfold Listener.caught
  split
  · split
    · exact h
    · exact h
  · exact h

/-! ## One iteration -/

theorem next_bytes {done rest : List Frame} (f : Frame) {calls : List Attempt}
    (h : through calls = done.length) :
    ((done ++ f :: rest).map Frame.bytes)[through calls]? = some f.bytes := by
  rw [List.getElem?_map, h, List.getElem?_append_right le_rfl, Nat.sub_self]
  rfl

/-- **A frame is tried**, for the first time or again. -/
theorem attempt_inv {e : Endian} {done rest : List Frame} {f : Frame} {l : Listener} {p : Peer}
    (hthrough : through l.calls = done.length) (htried : Tried (done ++ f :: rest) l.calls)
    (hat : AtFrame e p f rest) (hall : p.dataReceived = f.bytes.length) (processing : Processing) :
    ∃ l', l.attempt p processing = .ok l' ∧ Inv e (done ++ f :: rest) l' := by
  have hbytes := hat.bytes
  rw [hall] at hbytes
  have hhead : p.buffer.take f.bytes.length = f.bytes :=
    List.append_inj_left hbytes (by rw [List.length_take, hat.room, Nat.min_self])
  have hsnoc : Tried (done ++ f :: rest) (l.calls ++ [⟨f.bytes, processing⟩]) :=
    htried.snoc (next_bytes f hthrough)
  unfold Listener.attempt
  rw [inRange_ok (by rw [hat.size, hat.room]; omega), hat.size, hhead]
  -- Whatever has been thrown, the frame is still there.
  have hstays : ∀ l' : Listener, l'.peer = p → l'.calls = l.calls ++ [⟨f.bytes, processing⟩] →
      (processing == .returns) = false → Inv e (done ++ f :: rest) l' := by
    rintro ⟨peer, calls, queued, status⟩ rfl rfl hthrown
    refine ⟨done, f :: rest, rfl, ?_, hsnoc, Or.inr ⟨f, rest, rfl, hat, fun _ => ?_⟩⟩
    · rw [through_snoc, hthrough, Attempt.returned, hthrown]
      rfl
    · exact ⟨_, List.getLast?_concat, hthrown⟩
  cases processing with
  | returns =>
    obtain ⟨p', hp', -, hat'⟩ := Peer.takeData_complete hat.size hall hat.room hbytes
    refine ⟨{ l with peer := p', calls := l.calls ++ [⟨f.bytes, .returns⟩] }, ?_, done ++ [f],
      rest, by rw [List.append_assoc, List.singleton_append], ?_, hsnoc, Or.inl hat'⟩
    · show (p.takeData >>= fun p => _) = _
      rw [hp']
      rfl
    · rw [through_snoc, hthrough, List.length_append]
      rfl
  | throws raised =>
    exact ⟨_, rfl, Inv.caught (hstays _ rfl rfl rfl) raised⟩
  | fatal => exact ⟨_, rfl, hstays _ rfl rfl rfl⟩

theorem receiveData_inv {e : Endian} {done rest : List Frame} {f : Frame} {l : Listener}
    (hthrough : through l.calls = done.length) (htried : Tried (done ++ f :: rest) l.calls)
    (hat : AtFrame e l.peer f rest) (k : Nat) (processing : Processing) :
    ∃ l', l.receiveData k processing = .ok l' ∧ Inv e (done ++ f :: rest) l' := by
  have hreceived := hat.received
  have hroom := hat.room
  obtain ⟨p, hp, hsize, -, hlen, hle, hbytes⟩ :=
    Peer.receive_ok l.peer (l.peer.buffer.length - l.peer.dataReceived) k (by omega)
  rw [hat.bytes] at hbytes
  have hat' : AtFrame e p f rest := ⟨hsize.trans hat.size, by omega, by omega, hbytes⟩
  have hrun : l.receiveData k processing = if p.dataSize ≤ p.dataReceived then
      l.attempt p processing else pure { l with peer := p } := by
    unfold Listener.receiveData
    rw [sub_ok (by omega)]
    show (l.peer.receive (l.peer.buffer.length - l.peer.dataReceived) k >>= fun p => _) = _
    rw [hp]
    rfl
  rw [hrun]
  by_cases hall : p.dataSize ≤ p.dataReceived
  · rw [if_pos hall]
    exact attempt_inv hthrough htried hat'
      (le_antisymm hat'.received (hat'.size ▸ hall)) processing
  · rw [if_neg hall]
    refine ⟨_, rfl, done, f :: rest, rfl, hthrough, htried, Or.inr ⟨f, rest, rfl, hat', ?_⟩⟩
    intro h
    exact absurd (hat'.size.trans_le h) hall

/-- **One iteration**, when there is something to receive. -/
theorem ready_inv {e : Endian} {frames : List Frame} {l : Listener} (h : Inv e frames l) (k : Nat)
    (processing : Processing) : ∃ l', l.ready e k processing = .ok l' ∧ Inv e frames l' := by
  obtain ⟨done, todo, rfl, hthrough, htried, hat | ⟨f, rest, rfl, hat, -⟩⟩ := h
  · obtain ⟨p, hp, -, hat'⟩ := Peer.receiveSize_inv hat k
    have hrun : l.ready e k processing = .ok { l with peer := p } := by
      have hroom := hat.room
      unfold Listener.ready
      rw [inRange_ok (by omega)]
      show (if _ then _ else _) = _
      rw [if_pos hat.size, hp]
      rfl
    refine ⟨_, hrun, done, todo, rfl, hthrough, htried, ?_⟩
    rcases hat' with hat' | ⟨f, rest, rfl, hat'⟩
    · exact Or.inl hat'
    · exact Or.inr ⟨f, rest, rfl, ⟨hat'.size, hat'.room, hat'.received.le, hat'.bytes⟩,
        fun h => absurd hat'.received (Nat.not_lt.mpr h)⟩
  · have hpos : 0 < f.bytes.length := lt_of_lt_of_le (by decide) f.size_ge
    have hrun : l.ready e k processing = l.receiveData k processing := by
      unfold Listener.ready
      rw [inRange_ok (by rw [hat.room]; omega)]
      show (if _ then _ else _) = _
      rw [if_neg (by rw [hat.size]; omega)]
    rw [hrun]
    exact receiveData_inv hthrough htried hat k processing

theorem iteration_inv {e : Endian} {frames : List Frame} {l : Listener} (h : Inv e frames l)
    (poll : Poll) : ∃ l', l.iteration e poll = .ok l' ∧ Inv e frames l' := by
  cases poll with
  | stop => exact ⟨_, rfl, h⟩
  | timeout => exact ⟨l, rfl, h⟩
  | failed raised => exact ⟨_, rfl, h.caught raised⟩
  | ready k processing => exact ready_inv h k processing

/-! ## What is left in the queue -/

/-- Nothing has been queued, or the thread has left a link-lost message and ended. -/
def Told (l : Listener) : Prop :=
  l.queued = [] ∨ l.status = .ended ∧ ∃ ip, l.queued = [linkLostOf ip]

section Queued

variable {e : Endian} {l l' : Listener}

theorem caught_told (h : l.queued = []) (raised : Raised) : Told (l.caught raised) := by
  unfold Listener.caught
  split
  · split
    · exact Or.inr ⟨rfl, _, by rw [h, List.nil_append]⟩
    · exact Or.inl h
  · exact Or.inl h

theorem attempt_told (h : l.queued = []) {p : Peer} {processing : Processing}
    (hrun : l.attempt p processing = .ok l') : Told l' := by
  obtain ⟨-, -, hrun⟩ := Peer.bind_eq_ok hrun
  cases processing with
  | returns =>
    obtain ⟨p', -, hrun⟩ := Peer.bind_eq_ok hrun
    obtain rfl := Except.ok.inj hrun
    exact Or.inl h
  | throws raised =>
    obtain rfl := Except.ok.inj hrun
    refine caught_told ?_ raised
    exact h
  | fatal =>
    obtain rfl := Except.ok.inj hrun
    exact Or.inl h

theorem ready_told (h : l.queued = []) {k : Nat} {processing : Processing}
    (hrun : l.ready e k processing = .ok l') : Told l' := by
  obtain ⟨-, -, hrun⟩ := Peer.bind_eq_ok hrun
  split at hrun
  · obtain ⟨p, -, hrun⟩ := Peer.bind_eq_ok hrun
    obtain rfl := Except.ok.inj hrun
    exact Or.inl h
  · obtain ⟨len, -, hrun⟩ := Peer.bind_eq_ok hrun
    obtain ⟨p, -, hrun⟩ := Peer.bind_eq_ok hrun
    split at hrun
    · exact attempt_told h hrun
    · obtain rfl := Except.ok.inj hrun
      exact Or.inl h

theorem iteration_told (h : Told l) (hrunning : l.status = .running) {poll : Poll}
    (hrun : l.iteration e poll = .ok l') : Told l' := by
  have hqueued : l.queued = [] := by
    rcases h with h | ⟨hended, -⟩
    · exact h
    · rw [hrunning] at hended
      cases hended
  cases poll with
  | stop | timeout =>
    obtain rfl := Except.ok.inj hrun
    exact Or.inl hqueued
  | failed raised =>
    obtain rfl := Except.ok.inj hrun
    exact caught_told hqueued raised
  | ready k processing => exact ready_told hqueued hrun

end Queued

/-! ## Whole runs -/

theorem run_inv {e : Endian} {frames : List Frame} (polls : List Poll) {l : Listener}
    (h : Inv e frames l) (ht : Told l) :
    ∃ l', l.run e polls = .ok l' ∧ Inv e frames l' ∧ Told l' := by
  induction polls generalizing l with
  | nil => exact ⟨l, rfl, h, ht⟩
  | cons poll polls ih =>
    by_cases hrunning : l.status = .running
    · obtain ⟨l₁, hl₁, h₁⟩ := iteration_inv h poll
      obtain ⟨l₂, hl₂, h₂⟩ := ih h₁ (iteration_told ht hrunning hl₁)
      refine ⟨l₂, ?_, h₂⟩
      rw [Listener.run, List.foldlM_cons, if_pos hrunning, hl₁]
      exact hl₂
    · obtain ⟨l₂, hl₂, h₂⟩ := ih h ht
      refine ⟨l₂, ?_, h₂⟩
      rw [Listener.run, List.foldlM_cons, if_neg hrunning]
      exact hl₂

/-- **Tried until it goes through.** However the stream of `frames` is cut and whatever is thrown
when, the thread runs without a fault. Each call of `processMessage` is for the first frame that no
call has returned for yet. Once the stream is consumed all frames have gone through, or the last
call has not returned. The thread queues nothing, or one link-lost message as the last thing it
does. -/
theorem tried_until_through (e : Endian) (frames : List Frame) (polls : List Poll) :
    ∃ l, (start (streamOf e frames)).run e polls = .ok l ∧
      (∀ i attempt, l.calls[i]? = some attempt →
        (frames.map Frame.bytes)[(l.calls.take i).countP Attempt.returned]? =
          some attempt.bytes) ∧
      (l.peer.stream = [] → l.calls.countP Attempt.returned = frames.length ∨
        ∃ attempt, l.calls.getLast? = some attempt ∧ attempt.returned = false) ∧
      (l.queued = [] ∨ l.status = .ended ∧ ∃ ip, l.queued = [linkLostOf ip]) := by
  obtain ⟨l, hl, hinv, htold⟩ := run_inv polls (inv_start e frames) (Or.inl rfl)
  obtain ⟨done, todo, rfl, hthrough, htried, hat⟩ := hinv
  refine ⟨l, hl, htried, fun hend => ?_, htold⟩
  rcases hat with hat | ⟨f, rest, rfl, hat, hlast⟩
  · -- Of the next size nothing is left to come.
    have hlen := congrArg List.length hat.bytes
    have hreceived := hat.received
    rw [hend, List.append_nil, List.length_take] at hlen
    cases todo with
    | nil => exact Or.inl (by rw [List.append_nil]; exact hthrough)
    | cons f rest =>
      rw [length_streamOf_cons] at hlen
      omega
  · have hlen := congrArg List.length hat.bytes
    rw [hend, List.append_nil, List.length_take, List.length_append] at hlen
    exact Or.inr (hlast (by omega))

end Listener

end WhisperNet
