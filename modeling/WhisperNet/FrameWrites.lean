import Mathlib.Data.List.Permutation
import WhisperNet.Lib.Run
import WhisperNet.PeerLoop
import WhisperNet.Routing

/-!
# Frames from several threads

`Peer::send` calls `socket.send` twice, for the size of the data and for the data. All that holds
two threads of a node apart is the peers lock, and `routeData` takes that in shared mode. So between
the two parts of a frame another thread can write to the same link, and what it writes is taken for
the data.

* `step_wholeFrames` — a step that leaves frames in one piece.
* `frames_whole` — where no step comes between the two parts of a frame, every link carries whole
  frames, one for each call of `Peer::send`.
-/

namespace WhisperNet

open Bin

/-! ## Threads that send -/

/-- A call of `routeData`. -/
structure RouteCall where
  data : Bytes
  destination : IpAddress
  source : IpAddress

section

variable {ι : Type}

/-- The calls of `Peer::send` that `routeData` makes, each a link and the data for it. -/
def Router.sends (r : Router ι) (call : RouteCall) : List (ι × Bytes) :=
  (r.routeData call.destination call.source).filterMap fun
    | .send peer => some (peer, call.data)
    | .deserialize => none

/-- A thread: the call of `Peer::send` that has written the size only, and the calls to come. -/
structure Sender (ι : Type) where
  inCall : Option (ι × Bytes)
  todo : List (ι × Bytes)

/-- The threads of a node, and the stream written to each link so far. -/
structure LinkState (ι : Type) where
  senders : List (Sender ι)
  stream : ι → Bytes

namespace LinkState

/-- Every thread is about to make its calls of `routeData`. The peers stay the same while they hold
the lock. -/
def start (r : Router ι) (threads : List (List RouteCall)) : LinkState ι where
  senders := threads.map fun calls => ⟨none, calls.flatMap r.sends⟩
  stream _ := []

/-- `socket.send` -/
def write [DecidableEq ι] (stream : ι → Bytes) (peer : ι) (bytes : Bytes) : ι → Bytes :=
  Function.update stream peer (stream peer ++ bytes)

/-- One `socket.send` of one thread, with `others` the other threads. -/
inductive Step [DecidableEq ι] (e : Endian) (Allowed : List (Sender ι) → ι → Prop) :
    LinkState ι → LinkState ι → Prop
  /-- The size. -/
  | size {before after : List (Sender ι)} {stream : ι → Bytes} {peer : ι} {data : Bytes}
      {todo : List (ι × Bytes)} (h : Allowed (before ++ after) peer) :
      Step e Allowed ⟨before ++ ⟨none, (peer, data) :: todo⟩ :: after, stream⟩
        ⟨before ++ ⟨some (peer, data), todo⟩ :: after,
          write stream peer (putNat e 8 data.length)⟩
  /-- The data. -/
  | data {before after : List (Sender ι)} {stream : ι → Bytes} {peer : ι} {data : Bytes}
      {todo : List (ι × Bytes)} (h : Allowed (before ++ after) peer) :
      Step e Allowed ⟨before ++ ⟨some (peer, data), todo⟩ :: after, stream⟩
        ⟨before ++ ⟨none, todo⟩ :: after, write stream peer data⟩

/-- All that the lock sees to. -/
def Shared : List (Sender ι) → ι → Prop := fun _ _ => True

/-- None of the other threads is between the two parts of a frame on this link. -/
def Alone (others : List (Sender ι)) (peer : ι) : Prop :=
  ∀ s ∈ others, ∀ data, s.inCall ≠ some (peer, data)

/-- All calls have returned. -/
def Done (s : LinkState ι) : Prop := ∀ sender ∈ s.senders, sender.inCall = none ∧ sender.todo = []

/-! ## One link -/

section Link

variable [DecidableEq ι] (p : ι)

/-- Those of these calls that are on the link. -/
def onLink (calls : List (ι × Bytes)) : List Bytes :=
  (calls.filter fun call => call.1 = p).map Prod.snd

/-- The calls of `routeData` for the link, by every thread. -/
def calls (r : Router ι) (threads : List (List RouteCall)) : List Bytes :=
  threads.flatMap fun calls => onLink p (calls.flatMap r.sends)

/-- The frames on the link of which only the size has been written. -/
def begun (s : LinkState ι) : List Bytes :=
  s.senders.flatMap fun sender => onLink p sender.inCall.toList

/-- The frames of which nothing has been written. -/
def toCome (s : LinkState ι) : List Bytes := s.senders.flatMap fun sender => onLink p sender.todo

/-- The link carries whole frames, and at most one that has only begun. With those to come they are
the frames `all`. -/
structure WholeFrames (e : Endian) (all : List Bytes) (s : LinkState ι) : Prop where
  one : (s.begun p).length ≤ 1
  stream : ∃ frames, s.stream p = frames.flatMap (Peer.send e) ++
      (s.begun p).flatMap (fun data => putNat e 8 data.length) ∧
    (frames ++ (s.begun p ++ s.toCome p)).Perm all

variable {p}

theorem onLink_cons (call : ι × Bytes) (calls : List (ι × Bytes)) :
    onLink p (call :: calls) = onLink p [call] ++ onLink p calls := by
  unfold onLink
  by_cases h : call.1 = p
  · simp [h]
  · simp [h]

theorem onLink_here (data : Bytes) : onLink p [(p, data)] = [data] := by
  simp [onLink]

theorem onLink_elsewhere {q : ι} (h : q ≠ p) (data : Bytes) : onLink p [(q, data)] = [] := by
  simp [onLink, h]

theorem begun_eq (before after : List (Sender ι)) (sender : Sender ι) (stream : ι → Bytes) :
    begun p ⟨before ++ sender :: after, stream⟩ =
      begun p ⟨before, stream⟩ ++ onLink p sender.inCall.toList ++ begun p ⟨after, stream⟩ := by
  simp [begun]

theorem toCome_eq (before after : List (Sender ι)) (sender : Sender ι) (stream : ι → Bytes) :
    toCome p ⟨before ++ sender :: after, stream⟩ =
      toCome p ⟨before, stream⟩ ++ onLink p sender.todo ++ toCome p ⟨after, stream⟩ := by
  simp [toCome]

/-- Nobody else has begun a frame on the link. -/
theorem begun_alone {others : List (Sender ι)} (h : Alone others p) (stream : ι → Bytes) :
    begun p ⟨others, stream⟩ = [] := by
  refine List.flatMap_eq_nil_iff.mpr fun sender hsender => ?_
  cases hcall : sender.inCall with
  | none => rfl
  | some call =>
    obtain ⟨q, data⟩ := call
    refine onLink_elsewhere (fun hq => ?_) data
    subst hq
    exact h sender hsender data hcall

/-! ## One step -/

variable {e : Endian} {all : List Bytes} {before after : List (Sender ι)} {stream : ι → Bytes}
  {q : ι} {data : Bytes} {todo : List (ι × Bytes)}

theorem write_here (stream : ι → Bytes) (bytes : Bytes) :
    write stream p bytes p = stream p ++ bytes :=
  Function.update_self p _ stream

theorem write_elsewhere (stream : ι → Bytes) (h : q ≠ p) (bytes : Bytes) :
    write stream q bytes p = stream p :=
  Function.update_of_ne h.symm _ stream

/-- A frame is begun. -/
theorem WholeFrames.begin_frame (halone : Alone (before ++ after) q)
    (h : WholeFrames p e all ⟨before ++ ⟨none, (q, data) :: todo⟩ :: after, stream⟩) :
    WholeFrames p e all ⟨before ++ ⟨some (q, data), todo⟩ :: after,
      write stream q (putNat e 8 data.length)⟩ := by
  obtain ⟨hone, frames, hstream, hperm⟩ := h
  rw [begun_eq] at hone hstream hperm
  rw [toCome_eq, onLink_cons] at hperm
  by_cases hq : q = p
  · subst hq
    have hbefore := begun_alone (fun s hs => halone s (List.mem_append_left _ hs)) stream
    have hafter := begun_alone (fun s hs => halone s (List.mem_append_right _ hs)) stream
    have hnone : onLink q (none : Option (ι × Bytes)).toList = [] := rfl
    rw [hbefore, hafter, hnone] at hstream hperm
    have hbegun : begun q ⟨before ++ ⟨some (q, data), todo⟩ :: after,
        write stream q (putNat e 8 data.length)⟩ = [data] := by
      rw [begun_eq]
      show begun q ⟨before, stream⟩ ++ onLink q [(q, data)] ++ begun q ⟨after, stream⟩ = _
      rw [hbefore, hafter, onLink_here]
      rfl
    refine ⟨hbegun ▸ le_rfl, frames, ?_, ?_⟩
    · show write stream q _ q = _
      have hold : stream q = frames.flatMap (Peer.send e) := by simpa using hstream
      rw [write_here, hold, hbegun]
      simp
    · rw [hbegun, toCome_eq]
      rw [onLink_here] at hperm
      refine List.Perm.trans (List.Perm.append_left frames ?_) hperm
      simp only [List.nil_append, List.append_assoc, List.singleton_append]
      exact List.perm_middle.symm
  · have hbegun : begun p ⟨before ++ ⟨some (q, data), todo⟩ :: after,
        write stream q (putNat e 8 data.length)⟩ =
        begun p ⟨before, stream⟩ ++ [] ++ begun p ⟨after, stream⟩ := by
      rw [begun_eq]
      show begun p ⟨before, stream⟩ ++ onLink p [(q, data)] ++ begun p ⟨after, stream⟩ = _
      rw [onLink_elsewhere hq]
    refine ⟨hbegun ▸ hone, frames, ?_, ?_⟩
    · show write stream q _ p = _
      rw [write_elsewhere stream hq, hbegun]
      exact hstream
    · rw [hbegun, toCome_eq]
      rw [onLink_elsewhere hq, List.nil_append] at hperm
      exact hperm

/-- A frame is completed. -/
theorem WholeFrames.complete_frame (halone : Alone (before ++ after) q)
    (h : WholeFrames p e all ⟨before ++ ⟨some (q, data), todo⟩ :: after, stream⟩) :
    WholeFrames p e all ⟨before ++ ⟨none, todo⟩ :: after, write stream q data⟩ := by
  obtain ⟨hone, frames, hstream, hperm⟩ := h
  rw [begun_eq] at hone hstream hperm
  rw [toCome_eq] at hperm
  have hbegun : begun p ⟨before ++ ⟨none, todo⟩ :: after, write stream q data⟩ =
      begun p ⟨before, stream⟩ ++ [] ++ begun p ⟨after, stream⟩ := begun_eq _ _ _ _
  by_cases hq : q = p
  · subst hq
    have hbefore := begun_alone (fun s hs => halone s (List.mem_append_left _ hs)) stream
    have hafter := begun_alone (fun s hs => halone s (List.mem_append_right _ hs)) stream
    have hsome : onLink q (some (q, data)).toList = [data] := onLink_here data
    rw [hbefore, hafter, hsome] at hstream hperm
    rw [hbefore, hafter] at hbegun
    refine ⟨by rw [hbegun]; exact Nat.zero_le 1, frames ++ [data], ?_, ?_⟩
    · show write stream q _ q = _
      have hold : stream q = frames.flatMap (Peer.send e) ++ putNat e 8 data.length := by
        simpa using hstream
      rw [write_here, hold, hbegun]
      simp [Peer.send]
    · rw [hbegun, toCome_eq]
      show ((frames ++ [data]) ++ ([] ++ (toCome q ⟨before, stream⟩ ++ onLink q todo ++
        toCome q ⟨after, stream⟩))).Perm all
      simpa using hperm
  · have hsome : onLink p (some (q, data)).toList = [] := onLink_elsewhere hq data
    rw [hsome] at hone hstream hperm
    refine ⟨hbegun ▸ hone, frames, ?_, ?_⟩
    · show write stream q _ p = _
      rw [write_elsewhere stream hq, hbegun]
      exact hstream
    · rw [hbegun, toCome_eq]
      exact hperm

/-- **One step.** -/
theorem step_wholeFrames {s t : LinkState ι} (h : WholeFrames p e all s)
    (step : Step e Alone s t) : WholeFrames p e all t := by
  cases step with
  | size halone => exact h.begin_frame halone
  | data halone => exact h.complete_frame halone

/-! ## Whole runs -/

theorem start_wholeFrames (r : Router ι) (threads : List (List RouteCall)) :
    WholeFrames p e (calls p r threads) (start r threads) := by
  have hbegun : begun p (start r threads) = [] := by
    refine List.flatMap_eq_nil_iff.mpr fun sender hsender => ?_
    obtain ⟨thread, -, rfl⟩ := List.mem_map.mp hsender
    rfl
  refine ⟨by simp [hbegun], [], by rw [hbegun]; rfl, ?_⟩
  rw [hbegun]
  exact List.Perm.of_eq (by simp [toCome, start, calls, List.flatMap_map])

end Link

/-- **Whole frames.** Whatever the threads send: if no `socket.send` comes between the two parts of
a frame that another thread sends on the same link, then once all calls have returned every link
has been written whole frames, one for each call of `Peer::send`. -/
theorem frames_whole [DecidableEq ι] (e : Endian) (r : Router ι) (threads : List (List RouteCall))
    (n : Nat) (s : LinkState ι) (run : Run (Step e Alone) n (start r threads) s) (p : ι) :
    WholeFrames p e (calls p r threads) s ∧
      (s.Done → ∃ frames : List Bytes, s.stream p = frames.flatMap (Peer.send e) ∧
        frames.Perm (calls p r threads)) := by
  have hs : WholeFrames p e (calls p r threads) s :=
    run.invariant (start_wholeFrames r threads) fun _ _ => step_wholeFrames
  refine ⟨hs, fun hdone => ?_⟩
  have hbegun : begun p s = [] := List.flatMap_eq_nil_iff.mpr fun sender hsender => by
    rw [(hdone sender hsender).1]
    rfl
  have htoCome : toCome p s = [] := List.flatMap_eq_nil_iff.mpr fun sender hsender => by
    rw [(hdone sender hsender).2]
    rfl
  obtain ⟨frames, hstream, hperm⟩ := hs.stream
  refine ⟨frames, ?_, ?_⟩
  · rw [hstream, hbegun]
    simp
  · rw [hbegun, htoCome] at hperm
    simpa using hperm

end LinkState

end

/-! ## Two threads and one link -/

namespace LinkState

/-- A node with one link. -/
def oneLink : Router Unit where
  self := .ipv4 0x0a000001
  peers := [()]
  getRemoteIP _ := .ipv4 0x0a000002

/-- A broadcast of the node's own. -/
def greetingCall (payload : Bytes) : RouteCall where
  data := PeerManager.frame .littleEndian (.utc 0) oneLink.self .ipv6Unspecified
    (.payload { greeting with payload })
  destination := .ipv6Unspecified
  source := .ipv6Unspecified

/-- Two threads, each about to broadcast. -/
def bothBroadcast : List (List RouteCall) := [[greetingCall [104]], [greetingCall [104, 105]]]

/-- What the link carries when both sizes are written first. -/
def mixed : Bytes :=
  putNat .little 8 (greetingCall [104]).data.length ++
    putNat .little 8 (greetingCall [104, 105]).data.length ++
    (greetingCall [104]).data ++ (greetingCall [104, 105]).data

/-- The first thread's size, the second's, the first's data, the second's. -/
theorem mixed_written :
    ∃ s, Run (Step .little Shared) 4 (start oneLink bothBroadcast) s ∧ s.Done ∧
      s.stream () = mixed := by
  generalize hone : (greetingCall [104]).data = one
  generalize htwo : (greetingCall [104, 105]).data = two
  have hstart : start oneLink bothBroadcast =
      ⟨[⟨none, [((), one)]⟩, ⟨none, [((), two)]⟩], fun _ => []⟩ := by
    rw [← hone, ← htwo]
    rfl
  have hfirst (stream : Unit → Bytes) : Step .little Shared
      ⟨[] ++ ⟨none, [((), one)]⟩ :: [⟨none, [((), two)]⟩], stream⟩ _ := .size trivial
  have hsecond (stream : Unit → Bytes) : Step .little Shared
      ⟨[⟨some ((), one), []⟩] ++ ⟨none, [((), two)]⟩ :: [], stream⟩ _ := .size trivial
  have hthird (stream : Unit → Bytes) : Step .little Shared
      ⟨[] ++ ⟨some ((), one), []⟩ :: [⟨some ((), two), []⟩], stream⟩ _ := .data trivial
  have hfourth (stream : Unit → Bytes) : Step .little Shared
      ⟨[⟨none, []⟩] ++ ⟨some ((), two), []⟩ :: [], stream⟩ _ := .data trivial
  rw [hstart]
  refine ⟨_, .snoc (.snoc (.snoc (.snoc (.nil _) (hfirst _)) (hsecond _)) (hthird _)) (hfourth _),
    ?_, ?_⟩
  · simp [Done]
  · simp [write, mixed, hone, htwo]

/-- Written like this, the two broadcasts are not whole frames in any order. -/
theorem frames_mixed :
    ∃ s, Run (Step .little Shared) 4 (start oneLink bothBroadcast) s ∧ s.Done ∧
      ¬ ∃ frames : List Bytes, s.stream () = frames.flatMap (Peer.send .little) ∧
        frames.Perm (calls () oneLink bothBroadcast) := by
  obtain ⟨s, run, hdone, hstream⟩ := mixed_written
  refine ⟨s, run, hdone, ?_⟩
  rintro ⟨frames, hframes, hperm⟩
  have hcalls : calls () oneLink bothBroadcast =
      [(greetingCall [104]).data, (greetingCall [104, 105]).data] := rfl
  rw [hcalls] at hperm
  rw [hstream] at hframes
  rcases List.perm_pair.mp hperm with rfl | rfl
  · exact absurd hframes (by decide)
  · exact absurd hframes (by decide)

/-- The second thread waits until the first has sent its frame. -/
theorem in_turn_whole :
    ∃ s, Run (Step .little Alone) 4 (start oneLink bothBroadcast) s ∧ s.Done ∧
      ∃ frames : List Bytes, s.stream () = frames.flatMap (Peer.send .little) ∧
        frames.Perm (calls () oneLink bothBroadcast) := by
  generalize hone : (greetingCall [104]).data = one
  generalize htwo : (greetingCall [104, 105]).data = two
  have hstart : start oneLink bothBroadcast =
      ⟨[⟨none, [((), one)]⟩, ⟨none, [((), two)]⟩], fun _ => []⟩ := by
    rw [← hone, ← htwo]
    rfl
  have hsecondWaits : Alone ([] ++ [⟨none, [((), two)]⟩] : List (Sender Unit)) () := by
    intro s hs data
    obtain rfl := List.mem_singleton.mp hs
    nofun
  have hfirstIsDone : Alone ([⟨none, []⟩] ++ [] : List (Sender Unit)) () := by
    intro s hs data
    obtain rfl := List.mem_singleton.mp hs
    nofun
  have hfirst (stream : Unit → Bytes) : Step .little Alone
      ⟨[] ++ ⟨none, [((), one)]⟩ :: [⟨none, [((), two)]⟩], stream⟩ _ := .size hsecondWaits
  have hsecond (stream : Unit → Bytes) : Step .little Alone
      ⟨[] ++ ⟨some ((), one), []⟩ :: [⟨none, [((), two)]⟩], stream⟩ _ := .data hsecondWaits
  have hthird (stream : Unit → Bytes) : Step .little Alone
      ⟨[⟨none, []⟩] ++ ⟨none, [((), two)]⟩ :: [], stream⟩ _ := .size hfirstIsDone
  have hfourth (stream : Unit → Bytes) : Step .little Alone
      ⟨[⟨none, []⟩] ++ ⟨some ((), two), []⟩ :: [], stream⟩ _ := .data hfirstIsDone
  obtain ⟨s, run, hdone⟩ :
      ∃ s, Run (Step .little Alone) 4 (start oneLink bothBroadcast) s ∧ s.Done := by
    rw [hstart]
    exact ⟨_, .snoc (.snoc (.snoc (.snoc (.nil _) (hfirst _)) (hsecond _)) (hthird _)) (hfourth _),
      by simp [Done]⟩
  exact ⟨s, run, hdone, (frames_whole .little oneLink bothBroadcast 4 s run ()).2 hdone⟩

end LinkState

end WhisperNet
