import WhisperNet.Common
import WhisperNet.Lib.Effect
import WhisperNet.Lib.Run

/-!
# The peers of a node

`PeerManager` keeps a vector of `Peer`s. Each remembers the address and the port of its remote end
once it has been asked for them. The vector moves its elements about: `erase` and `insert` assign
them to other places, growing constructs them elsewhere. `Peer::operator=(Peer&&)` moves the socket
and leaves what the place remembers as it is; a `Peer` that is move-constructed remembers nothing.

* `accurate_iff` — when a peer answers for the socket it holds.
* `shiftDown_accurate_iff`, `insertFront_accurate_iff` — what `erase` and `insert` take for that.
* `peer_identity` — exactly which link-lost messages leave a peer that answers for another.
-/

namespace WhisperNet

/-! ## One peer -/

/-- `ZTError` -/
inductive ZTError
  | error

/-- `zt::Socket`, as far as its remote end is concerned. -/
structure Socket where
  remoteIP : IpAddress
  remotePort : UInt16
  /-- ZeroTier still knows the remote end. -/
  connected : Bool := true

namespace Socket

/-- `getRemoteIpAddress` -/
def getRemoteIpAddress (socket : Socket) : Except ZTError IpAddress :=
  if socket.connected then .ok socket.remoteIP else .error .error

/-- `getRemotePort` -/
def getRemotePort (socket : Socket) : Except ZTError UInt16 :=
  if socket.connected then .ok socket.remotePort else .error .error

end Socket

/-- A `Peer` in the list: its socket and its cache. -/
structure PeerEntry where
  socket : Socket
  /-- `none` is an address that is not valid. -/
  remoteIP : Option IpAddress := none
  /-- `-1` until it is known. -/
  remotePort : UInt16 := 0xffff

namespace PeerEntry

def getRemoteIP : EStateM ZTError PeerEntry IpAddress := fun peer =>
  match peer.remoteIP with
  | some ip => .ok ip peer
  | none =>
    match peer.socket.getRemoteIpAddress with
    | .ok ip => .ok ip { peer with remoteIP := some ip }
    | .error e => .error e peer

def getRemotePort : EStateM ZTError PeerEntry UInt16 := fun peer =>
  if peer.remotePort = 0xffff then
    match peer.socket.getRemotePort with
    | .ok port => .ok port { peer with remotePort := port }
    | .error e => .error e peer
  else .ok peer.remotePort peer

/-- An entry of the list of backups. -/
def getRemoteEnd : EStateM ZTError PeerEntry (IpAddress × UInt16) := do
  let ip ← getRemoteIP
  let port ← getRemotePort
  return (ip, port)

/-- `Peer::operator=(Peer&&)` -/
def moveAssign (peer other : PeerEntry) : PeerEntry := { peer with socket := other.socket }

/-- `Peer::Peer(Peer&&)` -/
def moveConstruct (other : PeerEntry) : PeerEntry := { socket := other.socket }

end PeerEntry

/-! ## The vector -/

/-- `emplace_back`. A vector that grows move-constructs its elements in another place. -/
def emplaceBack (grows : Bool) (peers : List PeerEntry) (peer : PeerEntry) : List PeerEntry :=
  (if grows then peers.map PeerEntry.moveConstruct else peers) ++ [peer]

/-- Each element is assigned the next one, and the last place is given up. -/
def shiftDown : List PeerEntry → List PeerEntry
  | [] => []
  | [_] => []
  | peer :: next :: rest => peer.moveAssign next :: shiftDown (next :: rest)

/-- `erase(begin() + index)` -/
def eraseAt (index : Nat) (peers : List PeerEntry) : List PeerEntry :=
  peers.take index ++ shiftDown (peers.drop index)

/-- `insert(begin(), …)` where there is room: each element is assigned the one before it, and the
last is move-constructed behind. -/
def insertFront (new : PeerEntry) : List PeerEntry → List PeerEntry
  | [] => [new.moveConstruct]
  | peer :: rest => peer.moveAssign new :: insertFront peer rest

/-- An element that is replaced by one that looks the same. -/
theorem map_set_same {α β : Type} {f : α → β} {xs : List α} {index : Nat} {x y : α}
    (hx : xs[index]? = some x) (h : f y = f x) : (xs.set index y).map f = xs.map f := by
  obtain ⟨hlen, rfl⟩ := List.getElem?_eq_some_iff.mp hx
  have hlen' : index < (xs.map f).length := by simpa using hlen
  have hself := List.set_getElem_self hlen'
  rw [List.getElem_map] at hself
  rw [List.map_set, h, hself]

/-! ## The peer manager -/

structure PeerManager where
  peers : List PeerEntry := []
  gatewayIP : IpAddress := .ipv6Unspecified
  backupPeers : List (IpAddress × UInt16) := []

namespace PeerManager

/-- Under the write lock. -/
abbrev PeerM := EStateM ZTError PeerManager

def onPeers {α : Type} (x : EStateM ZTError (List PeerEntry) α) : PeerM α := fun pm =>
  match x pm.peers with
  | .ok a peers => .ok a { pm with peers }
  | .error e peers => .error e { pm with peers }

/-- One peer is asked; `none` if there is no such peer. -/
def askAt {α : Type} (ask : EStateM ZTError PeerEntry α) (index : Nat) :
    EStateM ZTError (List PeerEntry) (Option α) := fun peers =>
  match peers[index]? with
  | none => .ok none peers
  | some peer =>
    match ask peer with
    | .ok a peer => .ok (some a) (peers.set index peer)
    | .error e peer => .error e (peers.set index peer)

/-- These peers are asked in turn. -/
def askEach {α : Type} (ask : EStateM ZTError PeerEntry α) :
    List Nat → EStateM ZTError (List PeerEntry) (List α)
  | [] => return []
  | index :: rest => do
    let a ← askAt ask index
    let as ← askEach ask rest
    return a.toList ++ as

/-- The first of these peers that has this address. Those after it are not asked. -/
def findAmong (ip : IpAddress) : List Nat → EStateM ZTError (List PeerEntry) (Option Nat)
  | [] => return none
  | index :: rest => do
    if (← askAt PeerEntry.getRemoteIP index) = some ip then return some index
    else findAmong ip rest

def findPeer (ip : IpAddress) : EStateM ZTError (List PeerEntry) (Option Nat) := do
  findAmong ip (List.range (← get).length)

/-- What the accept thread does under the lock: the backups for the new peer, and its address. -/
def accept (socket : Socket) (grows : Bool) :
    PeerM (List (IpAddress × UInt16) × Option IpAddress) := do
  let backupPeers ← onPeers (askEach PeerEntry.getRemoteEnd (List.range (← get).peers.length))
  modify fun pm => { pm with peers := emplaceBack grows pm.peers { socket } }
  let peerIP ← onPeers (askAt PeerEntry.getRemoteIP ((← get).peers.length - 1))
  return (backupPeers, peerIP)

/-- `main`, once it is connected to `remoteIP`. -/
def connectTo (socket : Socket) (remoteIP : IpAddress) (grows : Bool) : PeerM Unit :=
  modify fun pm => { pm with
    peers := emplaceBack grows pm.peers (PeerEntry.moveConstruct { socket })
    gatewayIP := remoteIP }

/-- The first backup that `Peer::connect` reaches, with the backups that are left. `attempts` says
what comes of the attempt at each position. -/
def firstReachable (attempts : Nat → Option Socket) : List (IpAddress × UInt16) →
    Option (Socket × IpAddress × List (IpAddress × UInt16))
  | [] => none
  | (backupIP, backupPort) :: rest =>
    match attempts 0 with
    | some socket => some (socket, backupIP, rest)
    | none =>
      (firstReachable (fun peer => attempts (peer + 1)) rest).map fun (socket, ip, left) =>
        (socket, ip, (backupIP, backupPort) :: left)

/-- The gateway is gone: a backup takes its place. -/
def replaceGateway (attempts : Nat → Option Socket) : PeerM Unit := modify fun pm =>
  match firstReachable attempts pm.backupPeers with
  | none => { pm with gatewayIP := .ipv6Unspecified }
  | some (socket, backupIP, left) =>
    { peers := insertFront { socket } pm.peers, gatewayIP := backupIP, backupPeers := left }

/-- `processLinkLostMessage` under the lock: the address of the peer that was removed, if any. -/
def linkLost (originatorNode : IpAddress) (attempts : Nat → Option Socket) :
    PeerM (Option IpAddress) := do
  match ← onPeers (findPeer originatorNode) with
  | none => return none
  | some index => do
    let removedIP ← onPeers (askAt PeerEntry.getRemoteIP index)
    modify fun pm => { pm with peers := eraseAt index pm.peers }
    if removedIP = some (← get).gatewayIP then replaceGateway attempts else pure ()
    return removedIP

/-! ## Steps -/

/-- What happens to the list. -/
inductive Event
  /-- A connection is accepted; the vector may have to grow. -/
  | accept (socket : Socket) (grows : Bool)
  /-- A link-lost message is processed. -/
  | linkLost (originatorNode : IpAddress) (attempts : Nat → Option Socket)
  /-- `main` has connected to the gateway. -/
  | connect (socket : Socket) (remoteIP : IpAddress) (grows : Bool)
  /-- The list of backups changes. -/
  | backups (backupPeers : List (IpAddress × UInt16))
  | askIP (index : Nat)
  | askPort (index : Nat)
  /-- ZeroTier no longer knows the remote end of a socket. -/
  | disconnected (index : Nat)

/-- The state an event leaves, also if it throws. -/
def after (pm : PeerManager) : Event → PeerManager
  | .accept socket grows => Effect.final (PeerManager.accept socket grows pm)
  | .linkLost originatorNode attempts =>
    Effect.final (PeerManager.linkLost originatorNode attempts pm)
  | .connect socket remoteIP grows => Effect.final (connectTo socket remoteIP grows pm)
  | .backups backupPeers => { pm with backupPeers }
  | .askIP index => Effect.final (onPeers (askAt PeerEntry.getRemoteIP index) pm)
  | .askPort index => Effect.final (onPeers (askAt PeerEntry.getRemotePort index) pm)
  | .disconnected index =>
    { pm with peers := pm.peers.modify index fun peer =>
        { peer with socket := { peer.socket with connected := false } } }

end PeerManager

/-! ## What a peer answers -/

namespace PeerEntry

/-- What the peer answers is about the socket it holds. -/
structure Accurate (peer : PeerEntry) : Prop where
  ip : ∀ ip peer', getRemoteIP peer = .ok ip peer' → ip = peer.socket.remoteIP
  port : ∀ port peer', getRemotePort peer = .ok port peer' → port = peer.socket.remotePort

/-- What the peer remembers, if anything, is true of the socket. -/
structure Agrees (peer : PeerEntry) (socket : Socket) : Prop where
  ip : ∀ ip ∈ peer.remoteIP, ip = socket.remoteIP
  port : peer.remotePort = 0xffff ∨ peer.remotePort = socket.remotePort

variable {peer : PeerEntry}

theorem getRemoteIpAddress_eq_ok {socket : Socket} {ip : IpAddress}
    (h : socket.getRemoteIpAddress = .ok ip) : ip = socket.remoteIP := by
  unfold Socket.getRemoteIpAddress at h
  split at h
  · exact (Except.ok.inj h).symm
  · cases h

theorem getRemotePort_eq_ok {socket : Socket} {port : UInt16}
    (h : socket.getRemotePort = .ok port) : port = socket.remotePort := by
  unfold Socket.getRemotePort at h
  split at h
  · exact (Except.ok.inj h).symm
  · cases h

/-- **A peer answers for the socket it holds if and only if it remembers nothing else.** -/
theorem accurate_iff : peer.Accurate ↔ peer.Agrees peer.socket := by
  constructor
  · intro h
    refine ⟨fun ip hip => ?_, ?_⟩
    · have hip : peer.remoteIP = some ip := hip
      exact h.ip ip peer (by rw [getRemoteIP, hip])
    · by_cases hport : peer.remotePort = 0xffff
      · exact Or.inl hport
      · exact Or.inr (h.port peer.remotePort peer (if_neg hport))
  · intro h
    refine ⟨fun ip peer' hip => ?_, fun port peer' hport => ?_⟩
    · unfold getRemoteIP at hip
      split at hip
      · next cached hcached =>
        obtain ⟨rfl, -⟩ := EStateM.Result.ok.inj hip
        exact h.ip _ hcached
      · split at hip
        · next found hfound =>
          obtain ⟨rfl, -⟩ := EStateM.Result.ok.inj hip
          exact getRemoteIpAddress_eq_ok hfound
        · cases hip
    · unfold getRemotePort at hport
      split at hport
      · split at hport
        · next found hfound =>
          obtain ⟨rfl, -⟩ := EStateM.Result.ok.inj hport
          exact getRemotePort_eq_ok hfound
        · cases hport
      · next hcached =>
        obtain ⟨rfl, -⟩ := EStateM.Result.ok.inj hport
        exact h.port.resolve_left hcached

/-- A peer that is move-constructed remembers nothing. -/
theorem accurate_moveConstruct (other : PeerEntry) : other.moveConstruct.Accurate :=
  accurate_iff.mpr ⟨fun _ hip => absurd hip (Option.not_mem_none _), Or.inl rfl⟩

/-- A peer that is assigned to remembers what it did before. -/
theorem accurate_moveAssign {other : PeerEntry} :
    (peer.moveAssign other).Accurate ↔ peer.Agrees other.socket := by
  rw [accurate_iff]
  exact ⟨fun h => ⟨h.ip, h.port⟩, fun h => ⟨h.ip, h.port⟩⟩

/-- What is remembered in answering is true. -/
theorem keeps_getRemoteIP : Effect.Keeps Accurate getRemoteIP := by
  intro peer h
  unfold getRemoteIP
  split
  · exact h
  · split
    · next ip hip =>
      refine accurate_iff.mpr ⟨fun ip' hip' => ?_, (accurate_iff.mp h).port⟩
      obtain rfl := Option.mem_some.mp hip'
      exact getRemoteIpAddress_eq_ok hip
    · exact h

theorem keeps_getRemotePort : Effect.Keeps Accurate getRemotePort := by
  intro peer h
  unfold getRemotePort
  split
  · split
    · next port hport =>
      exact accurate_iff.mpr ⟨(accurate_iff.mp h).ip, Or.inr (getRemotePort_eq_ok hport)⟩
    · exact h
  · exact h

end PeerEntry

/-! ## What the vector's operations take -/

/-- Every peer answers for the socket it holds. -/
def Accurate (peers : List PeerEntry) : Prop := ∀ peer ∈ peers, peer.Accurate

section Moves

theorem accurate_cons {peer : PeerEntry} {peers : List PeerEntry} :
    Accurate (peer :: peers) ↔ peer.Accurate ∧ Accurate peers :=
  List.forall_mem_cons

theorem accurate_append {peers peers' : List PeerEntry} :
    Accurate (peers ++ peers') ↔ Accurate peers ∧ Accurate peers' :=
  List.forall_mem_append

theorem accurate_emplaceBack {peers : List PeerEntry} {peer : PeerEntry} (grows : Bool)
    (h : Accurate peers) (hpeer : peer.Accurate) : Accurate (emplaceBack grows peers peer) := by
  refine accurate_append.mpr ⟨?_, fun p hp => List.mem_singleton.mp hp ▸ hpeer⟩
  split
  · intro p hp
    obtain ⟨other, -, rfl⟩ := List.mem_map.mp hp
    exact other.accurate_moveConstruct
  · exact h

/-- Every place that `erase` assigns to agrees with the next peer's socket. -/
def ShiftsDown (peers : List PeerEntry) : Prop :=
  peers.IsChain fun peer next => peer.Agrees next.socket

/-- Every place that `insert` assigns to agrees with the socket of the peer before it. -/
def ShiftsUp (new : PeerEntry) (peers : List PeerEntry) : Prop :=
  (new :: peers).IsChain fun previous peer => peer.Agrees previous.socket

theorem shiftDown_accurate_iff (peers : List PeerEntry) :
    Accurate (shiftDown peers) ↔ ShiftsDown peers := by
  unfold ShiftsDown
  induction peers using shiftDown.induct with
  | case1 => simp [shiftDown, Accurate]
  | case2 peer => simp [shiftDown, Accurate]
  | case3 peer next rest ih =>
    rw [shiftDown, accurate_cons, ih, PeerEntry.accurate_moveAssign, List.isChain_cons_cons]

theorem insertFront_accurate_iff (new : PeerEntry) (peers : List PeerEntry) :
    Accurate (insertFront new peers) ↔ ShiftsUp new peers := by
  unfold ShiftsUp
  induction peers generalizing new with
  | nil => simp [insertFront, Accurate, new.accurate_moveConstruct]
  | cons peer rest ih =>
    rw [insertFront, accurate_cons, ih, PeerEntry.accurate_moveAssign, List.isChain_cons_cons]

/-- Only the places from `index` on are assigned to. -/
theorem eraseAt_accurate_iff {peers : List PeerEntry} (h : Accurate peers) (index : Nat) :
    Accurate (eraseAt index peers) ↔ ShiftsDown (peers.drop index) := by
  rw [eraseAt, accurate_append, shiftDown_accurate_iff]
  exact and_iff_right fun peer hpeer => h peer (List.mem_of_mem_take hpeer)

end Moves

namespace PeerManager

/-! ## Asking -/

section Asking

variable {α : Type} {ask : EStateM ZTError PeerEntry α}

theorem keeps_askAt (hask : Effect.Keeps PeerEntry.Accurate ask) (index : Nat) :
    Effect.Keeps Accurate (askAt ask index) := by
  intro peers h
  have hset (peer : PeerEntry) (hpeer : peer.Accurate) : Accurate (peers.set index peer) := by
    intro p hp
    rcases List.mem_or_eq_of_mem_set hp with hp | rfl
    · exact h p hp
    · exact hpeer
  unfold askAt
  split
  · exact h
  · next peer hpeer =>
    have hasked := hask peer (h peer (List.mem_of_getElem? hpeer))
    split
    · next heq =>
      rw [heq] at hasked
      exact hset _ hasked
    · next heq =>
      rw [heq] at hasked
      exact hset _ hasked

theorem keeps_askEach (hask : Effect.Keeps PeerEntry.Accurate ask) (indices : List Nat) :
    Effect.Keeps Accurate (askEach ask indices) := by
  induction indices with
  | nil => exact Effect.Keeps.pure _
  | cons index rest ih =>
    exact (keeps_askAt hask index).bind fun _ => ih.bind fun _ => Effect.Keeps.pure _

theorem keeps_findAmong (ip : IpAddress) (indices : List Nat) :
    Effect.Keeps Accurate (findAmong ip indices) := by
  induction indices with
  | nil => exact Effect.Keeps.pure _
  | cons index rest ih =>
    exact (keeps_askAt PeerEntry.keeps_getRemoteIP index).bind fun _ =>
      (Effect.Keeps.pure _).ite ih

theorem keeps_onPeers {x : EStateM ZTError (List PeerEntry) α} (hx : Effect.Keeps Accurate x) :
    Effect.Keeps (fun pm => Accurate pm.peers) (onPeers x) := by
  intro pm h
  have hpeers := hx pm.peers h
  unfold onPeers
  cases hrun : x pm.peers with
  | ok a peers =>
    rw [hrun] at hpeers
    exact hpeers
  | error e peers =>
    rw [hrun] at hpeers
    exact hpeers

theorem onPeers_ok {x : EStateM ZTError (List PeerEntry) α} {a : α} {pm : PeerManager}
    {peers : List PeerEntry} (h : x pm.peers = .ok a peers) :
    onPeers x pm = .ok a { pm with peers } := by
  rw [onPeers, h]

/-- Asked again, a peer gives the same answer. -/
theorem askAt_again {ip : IpAddress} {index : Nat} {peers peers' : List PeerEntry}
    (h : askAt PeerEntry.getRemoteIP index peers = .ok (some ip) peers') :
    askAt PeerEntry.getRemoteIP index peers' = .ok (some ip) peers' := by
  unfold askAt at h
  split at h
  · cases h
  · next peer hpeer =>
    split at h
    · next found peer' hfirst =>
      obtain ⟨hip, rfl⟩ := EStateM.Result.ok.inj h
      obtain rfl := Option.some_inj.mp hip
      have hagain : PeerEntry.getRemoteIP peer' = .ok found peer' := by
        unfold PeerEntry.getRemoteIP at hfirst
        split at hfirst
        · next cached hcached =>
          obtain ⟨rfl, rfl⟩ := EStateM.Result.ok.inj hfirst
          rw [PeerEntry.getRemoteIP, hcached]
        · split at hfirst
          · obtain ⟨rfl, rfl⟩ := EStateM.Result.ok.inj hfirst
            rfl
          · cases hfirst
      have hlen : index < peers.length := (List.getElem?_eq_some_iff.mp hpeer).1
      rw [askAt, List.getElem?_set_self hlen]
      dsimp only
      rw [hagain]
      show EStateM.Result.ok (some found) ((peers.set index peer').set index peer') = _
      rw [List.set_set]
    · cases h

/-- The peer that was found remembers its address. -/
theorem askAt_found {ip : IpAddress} {indices : List Nat} {index : Nat}
    {peers peers' : List PeerEntry} (h : findAmong ip indices peers = .ok (some index) peers') :
    askAt PeerEntry.getRemoteIP index peers' = .ok (some ip) peers' := by
  induction indices generalizing peers with
  | nil => cases h
  | cons first rest ih =>
    obtain ⟨found, peers₁, hask, hrest⟩ := Effect.bind_eq_ok h
    split at hrest
    · next hfound =>
      obtain ⟨hindex, rfl⟩ := EStateM.Result.ok.inj hrest
      obtain rfl := Option.some_inj.mp hindex
      rw [hfound] at hask
      exact askAt_again hask
    · exact ih hrest

end Asking

/-! ## Losing a link -/

section LinkLost

variable {pm : PeerManager} {originatorNode : IpAddress} {attempts : Nat → Option Socket}

/-- The gateway that takes the place of the peer lost, if that was the gateway. -/
def replacement (pm : PeerManager) (originatorNode : IpAddress) (attempts : Nat → Option Socket) :
    Option (Socket × IpAddress × List (IpAddress × UInt16)) :=
  if originatorNode = pm.gatewayIP then firstReachable attempts pm.backupPeers else none

/-- What the message leaves of the list once the peer has been found. -/
theorem peers_linkLost {index : Nat} {peers : List PeerEntry}
    (h : findPeer originatorNode pm.peers = .ok (some index) peers) :
    (pm.after (.linkLost originatorNode attempts)).peers =
      match pm.replacement originatorNode attempts with
      | none => eraseAt index peers
      | some (socket, _) => insertFront { socket } (eraseAt index peers) := by
  have hask : askAt PeerEntry.getRemoteIP index peers = .ok (some originatorNode) peers :=
    askAt_found (show findAmong originatorNode (List.range pm.peers.length) pm.peers = _ from h)
  show (Effect.final (linkLost originatorNode attempts pm)).peers = _
  rw [linkLost, Effect.bind_ok (onPeers_ok h)]
  dsimp only
  rw [Effect.bind_ok (onPeers_ok hask)]
  show (Effect.final ((if some originatorNode = some pm.gatewayIP then
      replaceGateway attempts >>= fun _ => pure (some originatorNode)
    else pure (some originatorNode)) { pm with peers := eraseAt index peers })).peers = _
  unfold replacement
  by_cases hgateway : originatorNode = pm.gatewayIP
  · rw [if_pos hgateway, if_pos (congrArg some hgateway)]
    show (match firstReachable attempts pm.backupPeers with
      | none => _
      | some (socket, backupIP, left) => _ : PeerManager).peers = _
    cases firstReachable attempts pm.backupPeers with
    | none => rfl
    | some reached => rfl
  · rw [if_neg hgateway, if_neg (mt Option.some_inj.mp hgateway)]
    rfl

/-- When there is no such peer, or one cannot be asked, nothing is moved. -/
theorem keeps_linkLost_missing (hpm : Accurate pm.peers)
    (h : ∀ index peers, findPeer originatorNode pm.peers ≠ .ok (some index) peers) :
    Accurate (pm.after (.linkLost originatorNode attempts)).peers := by
  have hfind := keeps_findAmong originatorNode (List.range pm.peers.length) pm.peers hpm
  have hsame : findAmong originatorNode (List.range pm.peers.length) pm.peers =
      findPeer originatorNode pm.peers := rfl
  rw [hsame] at hfind
  show Accurate (Effect.final (linkLost originatorNode attempts pm)).peers
  cases hrun : findPeer originatorNode pm.peers with
  | error e peers =>
    rw [hrun] at hfind
    have herror : onPeers (findPeer originatorNode) pm = .error e { pm with peers } := by
      rw [onPeers, hrun]
    rw [linkLost, Effect.bind_error herror]
    exact hfind
  | ok found peers =>
    rw [hrun] at hfind
    cases found with
    | none =>
      rw [linkLost, Effect.bind_ok (onPeers_ok hrun)]
      exact hfind
    | some index => exact absurd hrun (h index peers)

/-- The places that are assigned to agree with the sockets they are assigned. -/
def Orderly (pm : PeerManager) : Event → Prop
  | .linkLost originatorNode attempts =>
    ∀ index peers, findPeer originatorNode pm.peers = .ok (some index) peers →
      match pm.replacement originatorNode attempts with
      | none => ShiftsDown (peers.drop index)
      | some (socket, _) => ShiftsUp { socket } (eraseAt index peers)
  | _ => True

theorem linkLost_accurate_iff (hpm : Accurate pm.peers) :
    Accurate (pm.after (.linkLost originatorNode attempts)).peers ↔
      pm.Orderly (.linkLost originatorNode attempts) := by
  by_cases h : ∃ index peers, findPeer originatorNode pm.peers = .ok (some index) peers
  · obtain ⟨index, peers, hfound⟩ := h
    have hpeers : Accurate peers := by
      have hfind := keeps_findAmong originatorNode (List.range pm.peers.length) pm.peers hpm
      have hsame : findAmong originatorNode (List.range pm.peers.length) pm.peers =
          .ok (some index) peers := hfound
      rwa [hsame] at hfind
    have hmoved : Accurate (pm.after (.linkLost originatorNode attempts)).peers ↔
        match pm.replacement originatorNode attempts with
        | none => ShiftsDown (peers.drop index)
        | some (socket, _) => ShiftsUp { socket } (eraseAt index peers) := by
      rw [peers_linkLost hfound]
      cases pm.replacement originatorNode attempts with
      | none => exact eraseAt_accurate_iff hpeers index
      | some reached => exact insertFront_accurate_iff _ _
    rw [hmoved]
    constructor
    · intro horderly index' peers' hfound'
      obtain ⟨hindex, rfl⟩ := EStateM.Result.ok.inj (hfound.symm.trans hfound')
      obtain rfl := Option.some_inj.mp hindex
      exact horderly
    · intro horderly
      exact horderly index peers hfound
  · push Not at h
    refine iff_of_true (keeps_linkLost_missing hpm h) fun index peers hfound => ?_
    exact absurd hfound (h index peers)

end LinkLost

/-! ## Every event -/

section Events

variable {pm : PeerManager}

theorem accurate_accept (hpm : Accurate pm.peers) (socket : Socket) (grows : Bool) :
    Accurate (pm.after (.accept socket grows)).peers := by
  have hask : Effect.Keeps PeerEntry.Accurate PeerEntry.getRemoteEnd :=
    PeerEntry.keeps_getRemoteIP.bind fun _ => PeerEntry.keeps_getRemotePort.bind fun _ =>
      Effect.Keeps.pure _
  have hadd : Effect.Keeps (fun pm => Accurate pm.peers) (modify fun pm : PeerManager =>
      { pm with peers := emplaceBack grows pm.peers { socket } } : PeerM Unit) := fun pm h =>
    accurate_emplaceBack grows h (PeerEntry.accurate_moveConstruct { socket })
  have hget : Effect.Keeps (fun pm => Accurate pm.peers) (get : PeerM PeerManager) := fun _ => id
  have hkeeps : Effect.Keeps (fun pm => Accurate pm.peers) (accept socket grows) :=
    hget.bind fun _ => (keeps_onPeers (keeps_askEach hask _)).bind fun _ => hadd.bind fun _ =>
      hget.bind fun _ => (keeps_onPeers (keeps_askAt PeerEntry.keeps_getRemoteIP _)).bind fun _ =>
        Effect.Keeps.pure _
  exact hkeeps pm hpm

theorem accurate_disconnected (hpm : Accurate pm.peers) (index : Nat) :
    Accurate (pm.after (.disconnected index)).peers := by
  intro peer hpeer
  obtain ⟨i, hi⟩ := List.mem_iff_getElem?.mp hpeer
  have hmodify : (pm.peers.modify index fun peer =>
      { peer with socket := { peer.socket with connected := false } })[i]? = some peer := hi
  rw [List.getElem?_modify] at hmodify
  obtain ⟨before, hbefore, hsame⟩ := Option.map_eq_some_iff.mp hmodify
  have hagrees := PeerEntry.accurate_iff.mp (hpm before (List.mem_of_getElem? hbefore))
  rw [PeerEntry.accurate_iff, ← hsame]
  split
  · exact ⟨hagrees.ip, hagrees.port⟩
  · exact hagrees

/-- **One event.** -/
theorem accurate_after_iff (hpm : Accurate pm.peers) (event : Event) :
    Accurate (pm.after event).peers ↔ pm.Orderly event := by
  cases event with
  | accept socket grows => exact iff_of_true (accurate_accept hpm socket grows) trivial
  | linkLost originatorNode attempts => exact linkLost_accurate_iff hpm
  | connect socket remoteIP grows =>
    exact iff_of_true
      (accurate_emplaceBack grows hpm (PeerEntry.accurate_moveConstruct { socket })) trivial
  | backups backupPeers => exact iff_of_true hpm trivial
  | askIP index =>
    exact iff_of_true (keeps_onPeers (keeps_askAt PeerEntry.keeps_getRemoteIP index) pm hpm) trivial
  | askPort index =>
    exact iff_of_true (keeps_onPeers (keeps_askAt PeerEntry.keeps_getRemotePort index) pm hpm)
      trivial
  | disconnected index => exact iff_of_true (accurate_disconnected hpm index) trivial

/-- An event, in a state where it is orderly. -/
def OrderlyStep (pm : PeerManager) (event : Event) (pm' : PeerManager) : Prop :=
  pm.Orderly event ∧ pm' = pm.after event

end Events

/-- **Peer identity.** In every state that orderly events lead to, every peer answers for the socket
it holds; and after one more event it still does if and only if that event is orderly. -/
theorem peer_identity (events : List Event) (pm : PeerManager)
    (run : Trace OrderlyStep {} events pm) :
    Accurate pm.peers ∧ ∀ event, Accurate (pm.after event).peers ↔ pm.Orderly event := by
  have hpm : Accurate pm.peers := by
    have hstart : Accurate ({} : PeerManager).peers := fun peer hpeer => absurd hpeer
      List.not_mem_nil
    generalize ({} : PeerManager) = start at run hstart
    induction run with
    | nil => exact hstart
    | cons first _ ih =>
      obtain ⟨horderly, rfl⟩ := first
      exact ih ((accurate_after_iff hstart _).mpr horderly)
  exact ⟨hpm, accurate_after_iff hpm⟩

/-! ## Two peers -/

def first : Socket := { remoteIP := .ipv4 0x0a000002, remotePort := 12345 }

def second : Socket := { remoteIP := .ipv4 0x0a000003, remotePort := 12346 }

/-- The second peer takes the place of the first, and its address. -/
theorem second_answers_for_first :
    ∃ events pm, Trace (fun pm event pm' => pm' = after pm event) {} events pm ∧
      ¬ Accurate pm.peers := by
  refine ⟨[.accept first true, .accept second true, .linkLost first.remoteIP fun _ => none], _,
    .cons rfl (.cons rfl (.cons rfl (.nil _))), fun haccurate => ?_⟩
  have hpeer : PeerEntry.Accurate ⟨second, some first.remoteIP, 0xffff⟩ :=
    haccurate _ (List.mem_singleton_self _)
  exact absurd (hpeer.ip first.remoteIP _ rfl) (by decide)

/-- Two connections have been accepted and asked for their addresses, and the second one is lost:
the first peer stays where it is. -/
def lastLost : List Event :=
  [.accept first true, .accept second true, .askIP 0, .askIP 1,
    .linkLost second.remoteIP fun _ => none]

theorem lastLost_run : Trace OrderlyStep {} lastLost (lastLost.foldl after {}) := by
  refine .cons ⟨trivial, rfl⟩ (.cons ⟨trivial, rfl⟩ (.cons ⟨trivial, rfl⟩ (.cons ⟨trivial, rfl⟩
    (.cons ⟨fun index peers hfound => ?_, rfl⟩ (.nil _)))))
  obtain ⟨⟨⟩, rfl⟩ := EStateM.Result.ok.inj hfound
  -- The last place is given up, and no peer is assigned to another one.
  exact List.isChain_singleton _

/-- What the theorem says of the peer that is left. -/
theorem lastLost_identity : (lastLost.foldl after {}).peers.length = 1 ∧
    Accurate (lastLost.foldl after {}).peers ∧
    ∀ event, Accurate ((lastLost.foldl after {}).after event).peers ↔
      (lastLost.foldl after {}).Orderly event :=
  ⟨rfl, peer_identity lastLost _ lastLost_run⟩

end PeerManager

end WhisperNet
