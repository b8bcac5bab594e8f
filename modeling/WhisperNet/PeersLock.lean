import WhisperNet.Lib.Run
import WhisperNet.Lib.SharedMutex
import WhisperNet.Routing

/-!
# The lock on the peers

The main thread, the accepting thread and the listening thread of every peer take the lock on the
vector of peers: shared in `routeData`, exclusive where a peer is added or removed. Two things in
this go wrong. `routeData` deserializes under its shared lock, and a frame that fails its check
makes `deserializeMessage` send a request, which is routed. And under the exclusive lock the vector
moves its peers, where `Peer::operator=(Peer&&)` joins a listening thread that may be waiting for
the lock.

* `Ordered` — how every thread's remaining operations fit the way it holds the lock.
* `step_ordered` — what steps keep it: no frame fails its check under the lock, and no listening
  thread has a frame to route when, or while, it is joined.
* `lock_safe` — runs of such steps are safe, and any other step is not.
-/

namespace WhisperNet

open Bin MessageManager SharedMutex

namespace PeersLock

/-! ## The threads -/

inductive Thread
  | main
  | accept
  | listener (id : Nat)
  deriving DecidableEq

/-- What a thread does that concerns the lock, the vector or another thread. -/
inductive Op
  | lockShared
  | unlockShared
  | lockExclusive
  | unlockExclusive
  /-- `routeData`, under its lock. -/
  | route (data : Bytes) (destination source : IpAddress)
  | deserialize (data : Bytes)
  /-- `emplace_back` of the socket accepted, in a vector that has room or has to grow. -/
  | emplaceBack (grows : Bool)
  /-- `processLinkLostMessage`, under its lock, to the end. If the peer removed was the gateway and
  a backup answers, that one is inserted. -/
  | removePeer (ip : IpAddress) (backup : Option Bool)
  /-- `Peer::connect`, and `insert` of the peer it returns. -/
  | insertFront (grows : Bool)
  /-- `request_stop` and `join` of a listening thread. -/
  | join (id : Nat)
  /-- A new `std::jthread`. -/
  | start (id : Nat)
  deriving DecidableEq

/-- Where a listening thread is in its loop. -/
inductive LoopStage
  | notStarted
  /-- About to ask whether a stop is requested. -/
  | atTest
  | inBody
  | ended
  deriving DecidableEq

structure ThreadState where
  todo : List Op := []
  /-- The thread it waits for. -/
  joining : Option Nat := none
  loop : LoopStage := .notStarted
  stopRequested : Bool := false

structure State where
  threads : Thread → ThreadState
  mutex : SharedMutex Thread := {}
  /-- The listening threads of the peers in the vector. -/
  peers : List Nat
  /-- Threads get numbers from here on. -/
  next : Nat

/-- What can happen next. -/
inductive Event
  /-- The main thread sweeps, or processes any other message than that of a lost link: it sends
  some messages. The flag is `broadcastToSelf`. -/
  | process (sends : List (AnyMessage × IpAddress × Bool))
  | linkLost (ip : IpAddress) (backup : Option Bool)
  /-- The accepting thread has a connection, and will send this message to it. -/
  | connection (ip : IpAddress) (connectMessage : AnyMessage) (grows : Bool)
  /-- A listening thread enters the body of its loop. -/
  | enter (id : Nat)
  /-- It has read a frame, from a peer with this address and with this memory after it. -/
  | receive (id : Nat) (remoteIP : IpAddress) (data memory : Bytes)
  /-- It has come to the end of the body. -/
  | again (id : Nat)
  /-- It returns: a stop is requested, or in the body, the link is lost. -/
  | finish (id : Nat)
  /-- A thread carries on. The peers answer with these addresses when they are asked. -/
  | act (thread : Thread) (remoteIPs : List IpAddress)
  /-- The thread waited for has returned. -/
  | joined (thread : Thread)

section Model

variable (pf : Platform) (clk : Clock) (self : IpAddress)

/-- `routeData` -/
def routeOps (data : Bytes) (destination source : IpAddress) : List Op :=
  [.lockShared, .route data destination source, .unlockShared]

/-- `PeerManager::send` -/
def sendOps (m : AnyMessage) (destination : IpAddress) (broadcastToSelf : Bool) : List Op :=
  routeOps (PeerManager.frame pf clk self destination m) destination
    (if broadcastToSelf then .ipv6Unspecified else .ipv6Loopback)

/-- The message that a peer has disconnected. -/
def disconnectMessage (removedIP : IpAddress) : Message where
  type := .disconnect
  receiverNode := .ipv6Unspecified
  originatorNode := removedIP
  messageHash := 0

/-- Peers move one after the other, each with its thread joined and a new one started. -/
def moveOps : List Nat → Nat → List Op
  | [], _ => []
  | id :: rest, next => .join id :: .start next :: moveOps rest (next + 1)

/-- Each peer behind `own` moves to the place before it. The first move also replaces the thread of
that place, once the new one has started. The last place is destroyed. -/
def eraseOps (own : Nat) : List Nat → Nat → List Op
  | [], _ => [.join own]
  | id :: rest, next => .join id :: .start next :: .join own :: moveOps rest (next + 1)

/-- The order in which `insert` at the front moves the peers and the new one. -/
def insertOrder (grows : Bool) (peers : List Nat) (new : Nat) : List Nat :=
  if grows then new :: peers else peers.reverse ++ [new]

def setThread (s : State) (t : Thread) (thread : ThreadState) : State :=
  { s with threads := Function.update s.threads t thread }

/-- The thread has this left to do. -/
def setTodo (s : State) (t : Thread) (todo : List Op) : State :=
  setThread s t { s.threads t with todo := todo }

/-- What becomes of `routeData`: calls of `deserializeMessage`. `Peer::send` takes no lock. -/
def deserializeOps (remoteIPs : List IpAddress) (data : Bytes) (destination source : IpAddress) :
    List Op :=
  let router : Router IpAddress := ⟨self, remoteIPs, id⟩
  (router.routeData destination source).filterMap fun
    | .send _ => none
    | .deserialize => some (.deserialize data)

/-- `processLinkLostMessage` under its lock: the first peer with the address goes, and the others
are told. -/
def removeOps (remoteIPs : List IpAddress) (s : State) (ip : IpAddress) (backup : Option Bool) :
    List Op × List Nat :=
  match remoteIPs.findIdx? (· == ip) with
  | none => ([.unlockExclusive], s.peers)
  | some index =>
    match s.peers.drop index with
    | [] => ([.unlockExclusive], s.peers)
    | own :: rest =>
      (eraseOps own rest s.next ++ (backup.toList.map .insertFront) ++ .unlockExclusive ::
          sendOps pf clk self (.message (disconnectMessage ip)) .ipv6Unspecified true,
        s.peers.take index ++ List.range' s.next rest.length)

/-- One operation of a thread; `rest` is left to do. An exception in `deserializeMessage` ends the
program. -/
def act (s : State) (t : Thread) (remoteIPs : List IpAddress) (rest : List Op) : Op → Option State
  | .lockShared => do
    let mutex ← s.mutex.lockShared t
    return { setTodo s t rest with mutex := mutex }
  | .unlockShared => some { setTodo s t rest with mutex := s.mutex.unlockShared t }
  | .lockExclusive => do
    let mutex ← s.mutex.lockExclusive t
    return { setTodo s t rest with mutex := mutex }
  | .unlockExclusive => some { setTodo s t rest with mutex := s.mutex.unlockExclusive }
  | .route data destination source =>
    some (setTodo s t (deserializeOps self remoteIPs data destination source ++ rest))
  | .deserialize data =>
    match deserializeMessage pf clk data with
    | .enqueued _ _ => some (setTodo s t rest)
    | .resend request destination =>
      some (setTodo s t (sendOps pf clk self (.resendRequest request) destination true ++ rest))
    | _ => none
  | .emplaceBack grows =>
    let moves := if grows then moveOps s.peers (s.next + 1) else []
    let moved := if grows then List.range' (s.next + 1) s.peers.length else s.peers
    some { setTodo s t (.start s.next :: moves ++ rest) with
      peers := moved ++ [s.next]
      next := s.next + 1 + s.peers.length }
  | .removePeer ip backup =>
    let (ops, peers) := removeOps pf clk self remoteIPs s ip backup
    some { setTodo s t (ops ++ rest) with
      peers := peers
      next := s.next + s.peers.length }
  | .insertFront grows =>
    let ids := List.range' (s.next + 1) (s.peers.length + 1)
    some { setTodo s t
        (.start s.next :: moveOps (insertOrder grows s.peers s.next) (s.next + 1) ++ rest) with
      peers := if grows then ids else ids.reverse
      next := s.next + 2 + s.peers.length }
  | .join id =>
    let s := setThread s (.listener id) { s.threads (.listener id) with stopRequested := true }
    some (setThread s t { s.threads t with todo := rest, joining := some id })
  | .start id =>
    let s := setThread s (.listener id) { s.threads (.listener id) with loop := .atTest }
    some (setTodo s t rest)

def step (s : State) : Event → Option State
  | .process sends =>
    if (s.threads .main).todo = [] ∧ (s.threads .main).joining = none then
      some (setTodo s .main
        (sends.flatMap fun (m, destination, broadcastToSelf) =>
          sendOps pf clk self m destination broadcastToSelf))
    else none
  | .linkLost ip backup =>
    if (s.threads .main).todo = [] ∧ (s.threads .main).joining = none then
      some (setTodo s .main [.lockExclusive, .removePeer ip backup])
    else none
  | .connection ip connectMessage grows =>
    if (s.threads .accept).todo = [] ∧ (s.threads .accept).joining = none then
      some (setTodo s .accept ([.lockExclusive, .emplaceBack grows, .unlockExclusive] ++
        sendOps pf clk self connectMessage ip true))
    else none
  | .enter id =>
    let thread := s.threads (.listener id)
    if thread.loop = .atTest ∧ thread.stopRequested = false then
      some (setThread s (.listener id) { thread with loop := .inBody })
    else none
  | .receive id remoteIP data memory => do
    let thread := s.threads (.listener id)
    let (m, _) ← (Message.load pf).run ((data ++ memory).take pf.sizeofMessage)
    let senderNode := if m.senderNode = .ipv6Unspecified then remoteIP else m.senderNode
    if thread.loop = .inBody ∧ thread.todo = [] then
      some (setTodo s (.listener id) (routeOps data m.receiverNode senderNode))
    else none
  | .again id =>
    let thread := s.threads (.listener id)
    if thread.loop = .inBody ∧ thread.todo = [] then
      some (setThread s (.listener id) { thread with loop := .atTest })
    else none
  | .finish id =>
    let thread := s.threads (.listener id)
    if thread.todo = [] ∧
        (thread.loop = .inBody ∨ thread.loop = .atTest ∧ thread.stopRequested = true) then
      some (setThread s (.listener id) { thread with loop := .ended })
    else none
  | .act t remoteIPs =>
    match (s.threads t).todo with
    | [] => none
    | op :: rest =>
      if (s.threads t).joining = none ∧ remoteIPs.length = s.peers.length then
        act pf clk self s t remoteIPs rest op
      else none
  | .joined t =>
    match (s.threads t).joining with
    | none => none
    | some id =>
      if (s.threads (.listener id)).loop = .ended then
        some (setThread s t { s.threads t with joining := none })
      else none

end Model

/-- Any number of peers, whose listening threads have just started. -/
def start (count : Nat) : State where
  threads
    | .listener id => if id < count then { loop := .atTest } else {}
    | _ => {}
  peers := List.range count
  next := count

/-! ## What must not happen -/

/-- The thread asks for the lock. -/
def Requests (s : State) (t : Thread) : Prop :=
  (s.threads t).todo.head? = some .lockShared ∨ (s.threads t).todo.head? = some .lockExclusive

/-- A thread holds the lock and waits for a listening thread that is waiting for the lock. -/
def Deadlocked (s : State) : Prop :=
  ∃ t id, (s.threads t).joining = some id ∧ s.mutex.hold t ≠ .none ∧ Requests s (.listener id)

/-- A thread asks for the lock it holds. -/
def Reentrant (s : State) : Prop := ∃ t, s.mutex.hold t ≠ .none ∧ Requests s t

structure LockSafe (s : State) : Prop where
  noDeadlock : ¬ Deadlocked s
  noReentry : ¬ Reentrant s

/-- No frame that fails its check is deserialized, a listening thread that is about to be joined has
no frame to route, and one that is being joined does not get any. -/
def Quiet (pf : Platform) (clk : Clock) (s : State) : Event → Prop
  | .act t _ =>
    match (s.threads t).todo with
    | .deserialize data :: _ => ∀ request destination,
        deserializeMessage pf clk data ≠ .resend request destination
    | .join id :: _ => (s.threads (.listener id)).todo = []
    | _ => True
  | .receive id _ _ _ => ∀ t, (s.threads t).joining ≠ some id
  | _ => True

def LockStep (pf : Platform) (clk : Clock) (self : IpAddress) (s t : State) : Prop :=
  ∃ e, step pf clk self s e = some t

/-- A step that is quiet. -/
def QuietLockStep (pf : Platform) (clk : Clock) (self : IpAddress) (s t : State) : Prop :=
  ∃ e, Quiet pf clk s e ∧ step pf clk self s e = some t

/-! ## Operations that fit -/

/-- How a thread has to hold the lock for an operation. -/
def Op.needs : Op → Hold
  | .lockShared | .lockExclusive => .none
  | .unlockShared | .route _ _ _ | .deserialize _ => .shared
  | _ => .exclusive

/-- How it holds the lock afterwards. -/
def Op.leaves : Op → Hold
  | .unlockShared | .unlockExclusive | .removePeer _ _ => .none
  | .lockShared | .route _ _ _ | .deserialize _ => .shared
  | _ => .exclusive

/-- What a listening thread does. -/
def Op.Sharing : Op → Prop
  | .lockShared | .unlockShared | .route _ _ _ | .deserialize _ => True
  | _ => False

theorem Op.Sharing.leaves_ne {op : Op} (h : op.Sharing) : op.leaves ≠ .exclusive := by
  intro hleaves
  cases op with
  | lockShared | unlockShared | route _ _ _ | deserialize _ => cases hleaves
  | _ => exact h

/-- The hold after some operations, if each comes when it can. -/
def holdAfter : Hold → List Op → Option Hold
  | h, [] => some h
  | h, op :: rest => if h = op.needs then holdAfter op.leaves rest else none

/-- Operations in order for a thread that holds the lock like this; in the end it does not. -/
def Fits (h : Hold) (ops : List Op) : Prop := holdAfter h ops = some .none

theorem fits_nil {h : Hold} : Fits h [] ↔ h = .none := Option.some_inj

theorem fits_cons {h : Hold} {op : Op} {rest : List Op} :
    Fits h (op :: rest) ↔ h = op.needs ∧ Fits op.leaves rest :=
  Option.ite_none_right_eq_some

theorem holdAfter_append {h h' : Hold} {ops : List Op} (first : holdAfter h ops = some h')
    (rest : List Op) : holdAfter h (ops ++ rest) = holdAfter h' rest := by
  induction ops generalizing h with
  | nil =>
    obtain rfl := Option.some_inj.mp first
    rfl
  | cons op ops ih =>
    obtain ⟨hneeds, hops⟩ := Option.ite_none_right_eq_some.mp first
    rw [List.cons_append, holdAfter, if_pos hneeds]
    exact ih hops

/-- Operations that leave the hold as it is. -/
theorem holdAfter_same {h : Hold} {ops : List Op}
    (hops : ∀ op ∈ ops, op.needs = h ∧ op.leaves = h) : holdAfter h ops = some h := by
  induction ops with
  | nil => rfl
  | cons op ops ih =>
    rw [List.forall_mem_cons] at hops
    rw [holdAfter, hops.1.1, hops.1.2, if_pos rfl]
    exact ih hops.2

/-- The first operation of a thread that does not hold the lock asks for it. -/
theorem needs_none {op : Op} (h : op.needs = .none) : op = .lockShared ∨ op = .lockExclusive := by
  cases op with
  | lockShared => exact Or.inl rfl
  | lockExclusive => exact Or.inr rfl
  | _ => cases h

section Programs

variable {pf : Platform} {clk : Clock} {self : IpAddress}

theorem mem_moveOps {ids : List Nat} {next : Nat} {op : Op} (h : op ∈ moveOps ids next) :
    op.needs = .exclusive ∧ op.leaves = .exclusive := by
  induction ids generalizing next with
  | nil => cases h
  | cons id rest ih =>
    rw [moveOps, List.mem_cons, List.mem_cons] at h
    rcases h with rfl | rfl | h
    · exact ⟨rfl, rfl⟩
    · exact ⟨rfl, rfl⟩
    · exact ih h

theorem mem_eraseOps {own : Nat} {ids : List Nat} {next : Nat} {op : Op}
    (h : op ∈ eraseOps own ids next) : op.needs = .exclusive ∧ op.leaves = .exclusive := by
  cases ids with
  | nil =>
    rw [List.mem_singleton.mp h]
    exact ⟨rfl, rfl⟩
  | cons id rest =>
    rw [eraseOps, List.mem_cons, List.mem_cons, List.mem_cons] at h
    rcases h with rfl | rfl | rfl | h
    · exact ⟨rfl, rfl⟩
    · exact ⟨rfl, rfl⟩
    · exact ⟨rfl, rfl⟩
    · exact mem_moveOps h

/-- Peers are removed under the lock, and the others told without it. -/
theorem fits_removeOps (remoteIPs : List IpAddress) (s : State) (ip : IpAddress)
    (backup : Option Bool) :
    holdAfter .exclusive (removeOps pf clk self remoteIPs s ip backup).1 = some .none := by
  unfold removeOps
  split
  · rfl
  · split
    · rfl
    · have hmoves : ∀ own rest, ∀ op ∈ eraseOps own rest s.next ++ backup.toList.map .insertFront,
          op.needs = .exclusive ∧ op.leaves = .exclusive := by
        intro own rest op hop
        rcases List.mem_append.mp hop with hop | hop
        · exact mem_eraseOps hop
        · obtain ⟨grows, -, rfl⟩ := List.mem_map.mp hop
          exact ⟨rfl, rfl⟩
      exact holdAfter_append (holdAfter_same (hmoves _ _)) _

theorem mem_deserializeOps {remoteIPs : List IpAddress} {data : Bytes}
    {destination source : IpAddress} {op : Op}
    (h : op ∈ deserializeOps self remoteIPs data destination source) : op = .deserialize data := by
  obtain ⟨step, -, hstep⟩ := List.mem_filterMap.mp h
  cases step with
  | send => cases hstep
  | deserialize => exact (Option.some_inj.mp hstep).symm

/-- Messages are sent without the lock. -/
theorem fits_sends (sends : List (AnyMessage × IpAddress × Bool)) :
    Fits .none (sends.flatMap fun (m, destination, broadcastToSelf) =>
      sendOps pf clk self m destination broadcastToSelf) := by
  induction sends with
  | nil => rfl
  | cons _ sends ih => exact (holdAfter_append rfl _).trans ih

end Programs

/-! ## The invariant -/

/-- Every thread's remaining operations fit its hold, listening threads only share the lock, and
threads join others under the exclusive lock, which have nothing left to do. -/
structure Ordered (s : State) : Prop where
  proper : s.mutex.Proper
  fits : ∀ t, Fits (s.mutex.hold t) (s.threads t).todo
  sharing : ∀ id, ∀ op ∈ (s.threads (.listener id)).todo, op.Sharing
  noWriter : ∀ id, s.mutex.hold (.listener id) ≠ .exclusive
  joins : ∀ t id, (s.threads t).joining = some id →
    s.mutex.hold t = .exclusive ∧ (s.threads (.listener id)).todo = []

namespace Ordered

variable {s : State} {t : Thread} (hs : Ordered s)
include hs

/-- What the next operation says about the hold. -/
theorem next {op : Op} {rest : List Op} (htodo : (s.threads t).todo = op :: rest) :
    s.mutex.hold t = op.needs ∧ Fits op.leaves rest := by
  have hfits := hs.fits t
  rw [htodo] at hfits
  exact fits_cons.mp hfits

theorem hold_of_idle (htodo : (s.threads t).todo = []) : s.mutex.hold t = .none := by
  have hfits := hs.fits t
  rw [htodo] at hfits
  exact fits_nil.mp hfits

/-- Asking for the lock, a thread does not hold it. -/
theorem hold_of_requests (h : Requests s t) : s.mutex.hold t = .none := by
  cases htodo : (s.threads t).todo with
  | nil => exact hs.hold_of_idle htodo
  | cons op rest =>
    rw [Requests, htodo, List.head?_cons, Option.some_inj, Option.some_inj] at h
    rw [(hs.next htodo).1]
    rcases h with rfl | rfl <;> rfl

theorem safe : LockSafe s where
  noDeadlock := by
    rintro ⟨t, id, hjoining, -, hrequests⟩
    rw [Requests, (hs.joins t id hjoining).2] at hrequests
    rcases hrequests with h | h <;> cases h
  noReentry := fun ⟨t, hhold, hrequests⟩ => hhold (hs.hold_of_requests hrequests)

/-- A listening thread waits for no other. -/
theorem listener_joining (id : Nat) : (s.threads (.listener id)).joining = none := by
  cases h : (s.threads (.listener id)).joining with
  | none => rfl
  | some other => exact absurd (hs.joins _ _ h).1 (hs.noWriter id)

/-- A thread that has something left to do is not being joined. -/
theorem not_joined {op : Op} {rest : List Op} (htodo : (s.threads t).todo = op :: rest) :
    ∀ u id, (s.threads u).joining = some id → t ≠ .listener id := by
  rintro u id hjoining rfl
  have hnil := (hs.joins u id hjoining).2
  rw [htodo] at hnil
  cases hnil

/-- One thread gets something else to do, and may hold the lock another way. -/
theorem carryOn {todo : List Op} {mutex : SharedMutex Thread} {peers : List Nat} {next : Nat}
    (hproper : mutex.Proper) (hhold : ∀ u, u ≠ t → mutex.hold u = s.mutex.hold u)
    (hfits : Fits (mutex.hold t) todo)
    (hlistener : ∀ id, t = .listener id →
      (∀ op ∈ todo, op.Sharing) ∧ mutex.hold t ≠ .exclusive)
    (hjoining : (s.threads t).joining = none)
    (hjoined : ∀ u id, (s.threads u).joining = some id → t ≠ .listener id) :
    Ordered { setTodo s t todo with mutex := mutex, peers := peers, next := next } where
  proper := hproper
  fits u := by
    by_cases hu : u = t
    · subst hu
      simpa [setTodo, setThread] using hfits
    · simpa [setTodo, setThread, hu, hhold u hu] using hs.fits u
  sharing id := by
    by_cases hid : Thread.listener id = t
    · subst hid
      simpa [setTodo, setThread] using (hlistener id rfl).1
    · simpa [setTodo, setThread, hid] using hs.sharing id
  noWriter id := by
    by_cases hid : Thread.listener id = t
    · subst hid
      exact (hlistener id rfl).2
    · show mutex.hold (.listener id) ≠ .exclusive
      rw [hhold _ hid]
      exact hs.noWriter id
  joins u id h := by
    have hu : u ≠ t := by
      rintro rfl
      simp [setTodo, setThread, hjoining] at h
    have hjoin : (s.threads u).joining = some id := by simpa [setTodo, setThread, hu] using h
    obtain ⟨hexclusive, htodo⟩ := hs.joins u id hjoin
    refine ⟨(hhold u hu).trans hexclusive, ?_⟩
    simpa [setTodo, setThread, (hjoined u id hjoin).symm] using htodo

/-- A thread locks or unlocks, as its next operation says, and has the rest to do. -/
theorem relock {op : Op} {rest : List Op} {mutex : SharedMutex Thread}
    (htodo : (s.threads t).todo = op :: rest) (hjoining : (s.threads t).joining = none)
    (hproper : mutex.Proper)
    (hhold : ∀ u, mutex.hold u = if u = t then op.leaves else s.mutex.hold u) :
    Ordered { setTodo s t rest with mutex := mutex } := by
  have hnow : mutex.hold t = op.leaves := (hhold t).trans (if_pos rfl)
  refine hs.carryOn hproper (fun u hu => (hhold u).trans (if_neg hu)) ?_ ?_ hjoining
    (hs.not_joined htodo)
  · rw [hnow]
    exact (hs.next htodo).2
  · rintro id rfl
    have hall := hs.sharing id
    rw [htodo, List.forall_mem_cons] at hall
    rw [hnow]
    exact ⟨hall.2, hall.1.leaves_ne⟩

/-- A thread that is idle gets something to do. -/
theorem begin {todo : List Op} (htodo : (s.threads t).todo = []) (hfits : Fits .none todo)
    (hlistener : ∀ id, t = .listener id → ∀ op ∈ todo, op.Sharing)
    (hjoining : (s.threads t).joining = none)
    (hjoined : ∀ u id, (s.threads u).joining = some id → t ≠ .listener id) :
    Ordered (setTodo s t todo) := by
  have hfree := hs.hold_of_idle htodo
  refine hs.carryOn hs.proper (fun _ _ => rfl) ?_ (fun id hid => ⟨hlistener id hid, ?_⟩) hjoining
    hjoined
  · rw [hfree]
    exact hfits
  · rw [hfree]
    exact nofun

/-- A thread that holds the lock exclusively gets something else to do, and changes the vector. -/
theorem rearrange {todo : List Op} {peers : List Nat} {next : Nat}
    (hexclusive : s.mutex.hold t = .exclusive) (hfits : Fits .exclusive todo)
    (hjoining : (s.threads t).joining = none) :
    Ordered { setTodo s t todo with peers := peers, next := next } := by
  have hlistener : ∀ id, t ≠ .listener id := by
    rintro id rfl
    exact hs.noWriter id hexclusive
  refine hs.carryOn hs.proper (fun _ _ => rfl) ?_ (fun id hid => absurd hid (hlistener id)) hjoining
    fun _ id _ => hlistener id
  show Fits (s.mutex.hold t) todo
  rwa [hexclusive]

/-- A thread is at another place in its loop. -/
theorem setThread {thread : ThreadState} (htodo : thread.todo = (s.threads t).todo)
    (hjoining : ∀ id, thread.joining = some id → (s.threads t).joining = some id) :
    Ordered (PeersLock.setThread s t thread) := by
  have htodos : ∀ u, ((PeersLock.setThread s t thread).threads u).todo = (s.threads u).todo := by
    intro u
    by_cases hu : u = t
    · subst hu
      simpa [PeersLock.setThread] using htodo
    · simp [PeersLock.setThread, hu]
  refine ⟨hs.proper, fun u => ?_, fun id => ?_, hs.noWriter, fun u id h => ?_⟩
  · rw [htodos]
    exact hs.fits u
  · rw [htodos]
    exact hs.sharing id
  · rw [htodos]
    refine hs.joins u id ?_
    by_cases hu : u = t
    · subst hu
      exact hjoining id (by simpa [PeersLock.setThread] using h)
    · simpa [PeersLock.setThread, hu] using h

/-- A thread waits for a listening thread that has nothing left to do. -/
theorem wait {id : Nat} {rest : List Op} (hexclusive : s.mutex.hold t = .exclusive)
    (hfits : Fits .exclusive rest) (hid : (s.threads (.listener id)).todo = []) :
    Ordered (PeersLock.setThread s t { s.threads t with todo := rest, joining := some id }) := by
  have hne : ∀ id, t ≠ .listener id := by
    rintro id rfl
    exact hs.noWriter id hexclusive
  refine ⟨hs.proper, fun u => ?_, fun id => ?_, hs.noWriter, fun u other h => ?_⟩
  · by_cases hu : u = t
    · subst hu
      simpa [PeersLock.setThread, hexclusive] using hfits
    · simpa [PeersLock.setThread, hu] using hs.fits u
  · simpa [PeersLock.setThread, (hne id).symm] using hs.sharing id
  · by_cases hu : u = t
    · subst hu
      obtain rfl : id = other := by simpa [PeersLock.setThread] using h
      exact ⟨hexclusive, by simpa [PeersLock.setThread, (hne id).symm] using hid⟩
    · obtain ⟨hu', htodo⟩ := hs.joins u other (by simpa [PeersLock.setThread, hu] using h)
      exact ⟨hu', by simpa [PeersLock.setThread, (hne other).symm] using htodo⟩

end Ordered

/-! ## One operation -/

section Steps

variable {pf : Platform} {clk : Clock} {self : IpAddress} {s u : State} {t : Thread}

/-- **One operation of a thread.** -/
theorem act_ordered (hs : Ordered s) {remoteIPs : List IpAddress} {op : Op} {rest : List Op}
    (htodo : (s.threads t).todo = op :: rest) (hjoining : (s.threads t).joining = none)
    (hquiet : Quiet pf clk s (.act t remoteIPs))
    (h : act pf clk self s t remoteIPs rest op = some u) : Ordered u := by
  obtain ⟨hneeds, hfits⟩ := hs.next htodo
  cases op with
  | lockShared =>
    obtain ⟨mutex, hmutex, hu⟩ := Option.bind_eq_some_iff.mp h
    cases hu
    exact hs.relock htodo hjoining (hs.proper.lockShared hneeds hmutex) (hold_lockShared hmutex)
  | unlockShared =>
    cases h
    exact hs.relock htodo hjoining (hs.proper.unlockShared t)
      (hold_unlockShared hs.proper hneeds)
  | lockExclusive =>
    obtain ⟨mutex, hmutex, hu⟩ := Option.bind_eq_some_iff.mp h
    cases hu
    exact hs.relock htodo hjoining (Proper.lockExclusive hmutex) (hold_lockExclusive hmutex)
  | unlockExclusive =>
    cases h
    exact hs.relock htodo hjoining hs.proper.unlockExclusive
      (hold_unlockExclusive hs.proper hneeds)
  | route data destination source =>
    cases h
    have hops : ∀ op ∈ deserializeOps self remoteIPs data destination source,
        op = .deserialize data := fun _ hop => mem_deserializeOps hop
    refine hs.carryOn hs.proper (fun _ _ => rfl) ?_ (fun id hid => ⟨?_, ?_⟩) hjoining
      (hs.not_joined htodo)
    · have hsame : holdAfter .shared (deserializeOps self remoteIPs data destination source) =
          some .shared := holdAfter_same fun op hop => by rw [hops op hop]; exact ⟨rfl, rfl⟩
      rw [hneeds]
      exact (holdAfter_append hsame rest).trans hfits
    · intro op hop
      rcases List.mem_append.mp hop with hop | hop
      · rw [hops op hop]
        trivial
      · subst hid
        exact hs.sharing id op (htodo ▸ List.mem_cons_of_mem _ hop)
    · rw [hneeds]
      exact nofun
  | deserialize data =>
    have hresend : ∀ request destination, deserializeMessage pf clk data ≠
        .resend request destination := by
      rw [Quiet, htodo] at hquiet
      exact hquiet
    have hu : setTodo s t rest = u := by
      cases hread : deserializeMessage pf clk data with
      | enqueued priority m =>
        rw [act, hread] at h
        exact Option.some_inj.mp h
      | resend request destination => exact absurd hread (hresend request destination)
      | _ =>
        rw [act, hread] at h
        cases h
    subst hu
    refine hs.relock htodo hjoining hs.proper fun v => ?_
    split
    · next hv =>
      rw [hv, hneeds]
      rfl
    · rfl
  | emplaceBack grows =>
    cases h
    have hmoves : holdAfter .exclusive (if grows then moveOps s.peers (s.next + 1) else []) =
        some .exclusive := by
      cases grows with
      | true => exact holdAfter_same fun op hop => mem_moveOps hop
      | false => rfl
    exact hs.rearrange hneeds ((holdAfter_append hmoves rest).trans hfits) hjoining
  | removePeer ip backup =>
    cases h
    exact hs.rearrange hneeds
      ((holdAfter_append (fits_removeOps remoteIPs s ip backup) rest).trans hfits) hjoining
  | insertFront grows =>
    cases h
    have hmoves : holdAfter .exclusive (moveOps (insertOrder grows s.peers s.next) (s.next + 1)) =
        some .exclusive := holdAfter_same fun op hop => mem_moveOps hop
    exact hs.rearrange hneeds ((holdAfter_append hmoves rest).trans hfits) hjoining
  | join id =>
    cases h
    have hid : (s.threads (.listener id)).todo = [] := by
      rw [Quiet, htodo] at hquiet
      exact hquiet
    have hstop : Ordered (setThread s (.listener id)
        { s.threads (.listener id) with stopRequested := true }) :=
      hs.setThread rfl fun _ h => h
    exact hstop.wait hneeds hfits (by simpa [setThread] using hid)
  | start id =>
    cases h
    have hne : t ≠ .listener id := by
      rintro rfl
      exact hs.noWriter id hneeds
    have hstart : Ordered (setThread s (.listener id)
        { s.threads (.listener id) with loop := .atTest }) :=
      hs.setThread rfl fun _ h => h
    exact hstart.rearrange hneeds hfits (by simpa [setThread, hne] using hjoining)

/-- **A quiet step keeps every thread in order.** -/
theorem step_ordered (hs : Ordered s) {e : Event} (hquiet : Quiet pf clk s e)
    (h : step pf clk self s e = some u) : Ordered u := by
  -- The main and the accepting thread are not listening threads.
  have hmain : ∀ v id, (s.threads v).joining = some id → Thread.main ≠ .listener id := nofun
  have haccept : ∀ v id, (s.threads v).joining = some id → Thread.accept ≠ .listener id := nofun
  cases e with
  | process sends =>
    obtain ⟨⟨htodo, hjoining⟩, hu⟩ := Option.ite_none_right_eq_some.mp h
    cases hu
    exact hs.begin htodo (fits_sends sends) nofun hjoining hmain
  | linkLost ip backup =>
    obtain ⟨⟨htodo, hjoining⟩, hu⟩ := Option.ite_none_right_eq_some.mp h
    cases hu
    exact hs.begin htodo rfl nofun hjoining hmain
  | connection ip connectMessage grows =>
    obtain ⟨⟨htodo, hjoining⟩, hu⟩ := Option.ite_none_right_eq_some.mp h
    cases hu
    exact hs.begin htodo rfl nofun hjoining haccept
  | enter id =>
    obtain ⟨-, hu⟩ := Option.ite_none_right_eq_some.mp h
    cases hu
    exact hs.setThread rfl fun _ h => h
  | receive id remoteIP data memory =>
    obtain ⟨⟨m, rest⟩, -, h⟩ := Option.bind_eq_some_iff.mp h
    obtain ⟨⟨-, htodo⟩, hu⟩ := Option.ite_none_right_eq_some.mp h
    cases hu
    refine hs.begin htodo rfl (fun _ _ op hop => ?_) (hs.listener_joining id) fun v other hv => ?_
    · simp only [routeOps, List.mem_cons, List.not_mem_nil, or_false] at hop
      rcases hop with rfl | rfl | rfl <;> trivial
    · intro heq
      cases heq
      exact hquiet v hv
  | again id =>
    obtain ⟨-, hu⟩ := Option.ite_none_right_eq_some.mp h
    cases hu
    exact hs.setThread rfl fun _ h => h
  | finish id =>
    obtain ⟨-, hu⟩ := Option.ite_none_right_eq_some.mp h
    cases hu
    exact hs.setThread rfl fun _ h => h
  | act t remoteIPs =>
    cases htodo : (s.threads t).todo with
    | nil =>
      rw [step, htodo] at h
      cases h
    | cons op rest =>
      rw [step, htodo] at h
      obtain ⟨⟨hjoining, -⟩, hact⟩ := Option.ite_none_right_eq_some.mp h
      exact act_ordered hs htodo hjoining hquiet hact
  | joined t =>
    cases hjoining : (s.threads t).joining with
    | none =>
      rw [step, hjoining] at h
      cases h
    | some id =>
      rw [step, hjoining] at h
      obtain ⟨-, hu⟩ := Option.ite_none_right_eq_some.mp h
      cases hu
      exact hs.setThread rfl nofun

/-- **Any other step** leads to a deadlock or a thread that asks for the lock it holds. -/
theorem loud_unsafe (hs : Ordered s) {e : Event} (hloud : ¬ Quiet pf clk s e)
    (h : step pf clk self s e = some u) : ¬ LockSafe u := by
  cases e with
  | act t remoteIPs =>
    cases htodo : (s.threads t).todo with
    | nil =>
      rw [step, htodo] at h
      cases h
    | cons op rest =>
      rw [step, htodo] at h
      obtain ⟨-, hact⟩ := Option.ite_none_right_eq_some.mp h
      obtain ⟨hneeds, -⟩ := hs.next htodo
      rw [Quiet, htodo] at hloud
      cases op with
      | deserialize data =>
        push Not at hloud
        obtain ⟨request, destination, hread⟩ := hloud
        rw [act, hread] at hact
        cases hact
        refine fun hsafe => hsafe.noReentry ⟨t, ?_, ?_⟩
        · show s.mutex.hold t ≠ .none
          rw [hneeds]
          exact nofun
        · simp [Requests, setTodo, setThread, sendOps, routeOps]
      | join id =>
        cases hact
        have hne : t ≠ .listener id := by
          rintro rfl
          exact hs.noWriter id hneeds
        refine fun hsafe => hsafe.noDeadlock ⟨t, id, by simp [setThread], ?_, ?_⟩
        · show s.mutex.hold t ≠ .none
          rw [hneeds]
          exact nofun
        · -- The other thread does not hold the lock, so it can only be about to ask for it.
          have hfree := hs.proper.hold_other hneeds hne.symm
          cases hother : (s.threads (.listener id)).todo with
          | nil => exact absurd hother hloud
          | cons op' rest' =>
            have hask := needs_none ((hs.next hother).1.symm.trans hfree)
            simpa [Requests, setThread, hne.symm, hother] using hask
      | _ => exact absurd trivial hloud
  | receive id remoteIP data memory =>
    obtain ⟨⟨m, rest⟩, -, h⟩ := Option.bind_eq_some_iff.mp h
    obtain ⟨-, hu⟩ := Option.ite_none_right_eq_some.mp h
    cases hu
    rw [Quiet] at hloud
    push Not at hloud
    obtain ⟨t, ht⟩ := hloud
    have hexclusive := (hs.joins t id ht).1
    have hne : t ≠ .listener id := by
      rintro rfl
      exact hs.noWriter id hexclusive
    intro hsafe
    refine hsafe.noDeadlock ⟨t, id, by simpa [setTodo, setThread, hne] using ht, ?_, ?_⟩
    · show s.mutex.hold t ≠ .none
      rw [hexclusive]
      exact nofun
    · simp [Requests, setTodo, setThread, routeOps]
  | _ => exact absurd trivial hloud

/-! ## Every run -/

theorem start_ordered (count : Nat) : Ordered (start count) := by
  have hthread : ∀ t, ((start count).threads t).todo = [] ∧
      ((start count).threads t).joining = none := by
    intro t
    cases t with
    | listener id =>
      by_cases hid : id < count
      · simp [start, hid]
      · simp [start, hid]
    | _ => exact ⟨rfl, rfl⟩
  refine ⟨⟨nofun, List.nodup_nil⟩, fun t => ?_, fun id => ?_, nofun, fun t id h => ?_⟩
  · rw [(hthread t).1]
    rfl
  · rw [(hthread _).1]
    exact nofun
  · rw [(hthread t).2] at h
    cases h

/-- **The lock is safe** in a run of quiet steps; the next step keeps it so exactly if it is quiet
as well. -/
theorem lock_safe (pf : Platform) (clk : Clock) (self : IpAddress) (count n : Nat) (s : State)
    (run : Run (QuietLockStep pf clk self) n (start count) s) :
    LockSafe s ∧ ∀ e t, step pf clk self s e = some t → (LockSafe t ↔ Quiet pf clk s e) := by
  have hs : Ordered s := run.invariant (start_ordered count) fun _ _ hs ⟨_, hquiet, hstep⟩ =>
    step_ordered hs hquiet hstep
  refine ⟨hs.safe, fun e t hstep => ⟨fun ht => ?_, fun hquiet => ?_⟩⟩
  · by_contra hloud
    exact loud_unsafe hs hloud hstep ht
  · exact (step_ordered hs hquiet hstep).safe

end Steps

/-! ## A node with one peer -/

/-- The address of the node, of its peer, and of another one. -/
def selfIP : IpAddress := .ipv4 0x0a000001

def peerIP : IpAddress := .ipv4 0x0a000002

def newIP : IpAddress := .ipv4 0x0a000003

/-- The greeting, as the peer sends it. -/
def greetingFrame : Bytes :=
  PeerManager.frame .littleEndian (.utc 0) peerIP .ipv6Unspecified (.payload greeting)

/-- Its last byte has changed on the way. -/
def spoiledFrame : Bytes := greetingFrame.dropLast ++ [106]

/-- What the accepting thread will send to a node that connects. -/
def welcome : AnyMessage :=
  .connect ⟨⟨.connect, .ipv6Unspecified, .ipv6Unspecified, .ipv6Unspecified, 0⟩, [], []⟩

/-- Another node connects. While the lock is held for that, the greeting arrives, and then the
vector grows. -/
def growing : List Event :=
  [.enter 0, .connection newIP welcome true, .act .accept [peerIP],
    .receive 0 peerIP greetingFrame [], .act .accept [peerIP], .act .accept [peerIP, newIP],
    .act .accept [peerIP, newIP]]

/-- The spoiled greeting arrives, and is deserialized. -/
def requesting : List Event :=
  [.enter 0, .receive 0 peerIP spoiledFrame [], .act (.listener 0) [peerIP],
    .act (.listener 0) [peerIP], .act (.listener 0) [peerIP]]

theorem growing_deadlocks_requesting_reenters :
    (∃ n s, Run (LockStep .littleEndian (.utc 0) selfIP) n (start 1) s ∧ Deadlocked s) ∧
      ∃ n s, Run (LockStep .littleEndian (.utc 0) selfIP) n (start 1) s ∧ Reentrant s := by
  constructor
  · have hfold : (growing.foldlM (step .littleEndian (.utc 0) selfIP) (start 1)).map (fun s =>
        ((s.threads .accept).joining, s.mutex.hold .accept,
          (s.threads (.listener 0)).todo.head?)) =
        some (some 0, .exclusive, some .lockShared) := by
      decide +kernel
    obtain ⟨s, hrun, hs⟩ := Option.map_eq_some_iff.mp hfold
    simp only [Prod.mk.injEq] at hs
    refine ⟨_, s, Run.of_foldlM hrun, .accept, 0, hs.1, ?_, Or.inl hs.2.2⟩
    rw [hs.2.1]
    exact nofun
  · have hfold : (requesting.foldlM (step .littleEndian (.utc 0) selfIP) (start 1)).map (fun s =>
        (s.mutex.hold (.listener 0), (s.threads (.listener 0)).todo.head?)) =
        some (.shared, some .lockShared) := by
      decide +kernel
    obtain ⟨s, hrun, hs⟩ := Option.map_eq_some_iff.mp hfold
    simp only [Prod.mk.injEq] at hs
    refine ⟨_, s, Run.of_foldlM hrun, .listener 0, ?_, Or.inl hs.2⟩
    rw [hs.1]
    exact nofun

/-- Without a frame to route, the listening thread is joined in peace. -/
theorem growing_quietly :
    ∃ n s, Run (QuietLockStep .littleEndian (.utc 0) selfIP) n (start 1) s ∧
      (s.threads .accept).joining = some 0 ∧ LockSafe s := by
  have begun : Run (QuietLockStep .littleEndian (.utc 0) selfIP) 0 (start 1) (start 1) := .nil _
  have run := (((((begun.snoc ⟨.enter 0, trivial, rfl⟩).snoc
    ⟨.connection newIP welcome true, trivial, rfl⟩).snoc
    ⟨.act .accept [peerIP], trivial, rfl⟩).snoc ⟨.act .accept [peerIP], trivial, rfl⟩).snoc
    ⟨.act .accept [peerIP, newIP], trivial, rfl⟩).snoc
    ⟨.act .accept [peerIP, newIP], rfl, rfl⟩
  exact ⟨6, _, run, rfl, (lock_safe .littleEndian (.utc 0) selfIP 1 6 _ run).1⟩

end PeersLock

end WhisperNet
