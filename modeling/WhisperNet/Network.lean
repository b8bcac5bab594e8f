import WhisperNet.Managers

/-!
# Nodes that join, lose and replace each other

The network as its nodes make it: each keeps its peers and its backups as `PeerManager` does,
accepts connections, sends whoever connects to it the peers it has, and connects to a backup when it
finds that its gateway is gone. What a step does to a node is what the program's own functions do to
its `PeerManager`; what is added is which nodes run, which connections there are, and what is under
way.

A connection that has been made waits at the node it was made to until it is accepted there. It ends
when one of the nodes crashes, or closes its socket; the other one may find that out at any time
later.

* `Network.after` — what an event does.
* `Network.Step` — an event that may happen.
-/

namespace WhisperNet

open Effect PeerManager

/-! ## The state -/

/-- An entry of the list of backups, and an endpoint. -/
abbrev Endpoint := IpAddress × UInt16

/-- Every node has an address of its own. -/
structure Lan (ν : Type) where
  addr : ν → IpAddress
  /-- The node that has this address. -/
  whois : IpAddress → Option ν
  whois_iff : ∀ ip v, whois ip = some v ↔ addr v = ip

/-- These are all the nodes, and no two have the same address. -/
def Lan.ofInjective {ν : Type} (nodes : List ν) (hall : ∀ v, v ∈ nodes) (addr : ν → IpAddress)
    (hinjective : Function.Injective addr) : Lan ν where
  addr := addr
  whois ip := nodes.find? fun v => addr v = ip
  whois_iff ip v := by
    constructor
    · intro hfind
      have hv := List.find?_some hfind
      exact of_decide_eq_true hv
    · intro hv
      cases hfind : nodes.find? fun v => addr v = ip with
      | none =>
        have hnone := List.find?_eq_none.mp hfind v (hall v)
        exact absurd (decide_eq_true hv) hnone
      | some w =>
        have hw := List.find?_some hfind
        exact congrArg some (hinjective ((of_decide_eq_true hw).trans hv.symm))

/-- `10.0.0.1` to `10.0.0.4`. -/
def four : Lan (Fin 4) :=
  Lan.ofInjective (List.finRange 4) List.mem_finRange
    ![.ipv4 0x0a000001, .ipv4 0x0a000002, .ipv4 0x0a000003, .ipv4 0x0a000004] (by decide)

/-- A TCP connection. -/
structure Connection (ν : Type) where
  id : Nat
  connector : ν
  acceptor : ν
  deriving DecidableEq

/-- All nodes, and what is under way between them. -/
structure Network (ν : Type) where
  /-- The port a node listens on, while it runs. -/
  listening : ν → Option UInt16 := fun _ => none
  started : List ν := []
  /-- The nodes that have joined through another one. -/
  joined : List ν := []
  managers : ν → PeerManager := fun _ => {}
  /-- Which connection is in each place of a node's list of peers. -/
  places : ν → List Nat := fun _ => []
  /-- The connections that both ends have open. -/
  links : List (Connection ν) := []
  nextId : Nat := 0
  /-- What waits to be accepted, with the port it comes from. -/
  backlog : List (Connection ν × UInt16) := []
  /-- The connect messages under way, with the nodes they are for. -/
  connects : List (ν × List Endpoint) := []
  /-- The backups in every connect message that has been sent. -/
  greetings : List (List Endpoint) := []
  /-- The nodes that have accepted a connection, as often as they have. -/
  acceptors : List ν := []
  /-- The link-lost messages that wait at a node. -/
  lost : List (ν × IpAddress) := []
  /-- The disconnect messages that have been sent. -/
  announced : List IpAddress := []

/-- What happens in the network. -/
inductive NetworkEvent (ν : Type)
  /-- A node starts, and listens on this port. -/
  | start (v : ν) (port : UInt16)
  /-- `u` connects to `v` as it starts, from this port. -/
  | join (u v : ν) (sourcePort : UInt16) (grows : Bool)
  /-- A connection is accepted. -/
  | accept (c : Connection ν) (sourcePort : UInt16) (grows : Bool)
  | crash (v : ν)
  /-- The peer in this place of `v`'s list finds that its link is lost. -/
  | lose (v : ν) (index : Nat)
  /-- A message on its way is lost. -/
  | drop (v : ν) (backups : List Endpoint)
  /-- `v` processes a connect message. -/
  | connect (v : ν) (backups : List Endpoint)
  /-- `v` processes a link-lost message; a connection it makes comes from this port. -/
  | linkLost (v : ν) (originatorNode : IpAddress) (sourcePort : UInt16)
  /-- `v` processes a disconnect message. -/
  | disconnect (v : ν) (originatorNode : IpAddress)

namespace Network

variable {ν : Type} [DecidableEq ν] (lan : Lan ν)

/-- The node runs. -/
def alive (s : Network ν) (v : ν) : Bool := (s.listening v).isSome

/-! ## What a node does -/

def onManager (s : Network ν) (v : ν) (pm : PeerManager) : Network ν :=
  { s with managers := Function.update s.managers v pm }

def onPlaces (s : Network ν) (v : ν) (ids : List Nat) : Network ν :=
  { s with places := Function.update s.places v ids }

/-- A connection from `u` to `v` is made. -/
def dial (s : Network ν) (u v : ν) (sourcePort : UInt16) : Network ν := { s with
  links := ⟨s.nextId, u, v⟩ :: s.links
  nextId := s.nextId + 1
  backlog := (⟨s.nextId, u, v⟩, sourcePort) :: s.backlog }

/-- The connection ends. -/
def hangUp (s : Network ν) (id : Nat) : Network ν :=
  { s with links := s.links.filter fun c => c.id ≠ id }

/-- `main`: connect to the gateway. -/
def joinThrough (s : Network ν) (u v : ν) (sourcePort : UInt16) (grows : Bool) : Network ν :=
  let socket : Socket := { remoteIP := lan.addr v, remotePort := (s.listening v).getD 0 }
  { ((s.onManager u (final (connectTo socket (lan.addr v) grows (s.managers u)))).onPlaces u
      (s.places u ++ [s.nextId])).dial u v sourcePort with joined := u :: s.joined }

/-- The accept thread. -/
def acceptNext (s : Network ν) (c : Connection ν) (sourcePort : UInt16) (grows : Bool) :
    Network ν :=
  let socket : Socket := { remoteIP := lan.addr c.connector, remotePort := sourcePort }
  let result := PeerManager.accept socket grows (s.managers c.acceptor)
  let greeting := (value? result).toList.map Prod.fst
  { (s.onManager c.acceptor (final result)).onPlaces c.acceptor (s.places c.acceptor ++ [c.id]) with
    backlog := s.backlog.erase (c, sourcePort)
    connects := greeting.map (fun backups => (c.connector, backups)) ++ s.connects
    greetings := greeting ++ s.greetings
    acceptors := c.acceptor :: s.acceptors }

/-- `Peer::connect` succeeds if the node runs. -/
def attempts (s : Network ν) (backups : List Endpoint) (peer : Nat) : Option Socket :=
  backups[peer]?.bind fun backup => (lan.whois backup.1).bind fun w =>
    if s.alive w then some { remoteIP := backup.1, remotePort := backup.2 } else none

/-- What `processLinkLostMessage` comes to, under the lock. -/
def lossAt (s : Network ν) (v : ν) (ip : IpAddress) :
    EStateM.Result ZTError PeerManager (Option IpAddress) :=
  PeerManager.linkLost ip (s.attempts lan (s.managers v).backupPeers) (s.managers v)

/-- The place of the peer that is removed. -/
def removedAt (s : Network ν) (v : ν) (ip : IpAddress) : Option Nat :=
  (value? (findPeer ip (s.managers v).peers)).join

/-- The node that takes the place of the gateway. -/
def reached (s : Network ν) (v : ν) (ip : IpAddress) : Option ν := do
  let _ ← s.removedAt v ip
  let (socket, _) ← (s.managers v).replacement ip (s.attempts lan (s.managers v).backupPeers)
  lan.whois socket.remoteIP

/-- The peer is removed, and its socket closed. -/
def remove (s : Network ν) (v : ν) : Option Nat → Network ν
  | none => s
  | some index =>
    (match (s.places v)[index]? with
    | some id => s.hangUp id
    | none => s).onPlaces v ((s.places v).eraseIdx index)

/-- A backup becomes the gateway. -/
def replaceBy (s : Network ν) (v : ν) (sourcePort : UInt16) : Option ν → Network ν
  | none => s
  | some w => (s.onPlaces v (s.nextId :: s.places v)).dial v w sourcePort

/-- `processLinkLostMessage`, with the notice to the rest of the network. -/
def loseLink (s : Network ν) (v : ν) (ip : IpAddress) (sourcePort : UInt16) : Network ν :=
  { ((s.onManager v (final (s.lossAt lan v ip))).remove v (s.removedAt v ip)).replaceBy v sourcePort
      (s.reached lan v ip) with
    lost := s.lost.erase (v, ip)
    announced := (value? (s.lossAt lan v ip)).join.toList ++ s.announced }

/-! ## Steps -/

/-- What an event does. -/
def after (s : Network ν) : NetworkEvent ν → Network ν
  | .start v port => { s with
      listening := Function.update s.listening v (some port)
      started := v :: s.started }
  | .join u v sourcePort grows => s.joinThrough lan u v sourcePort grows
  | .accept c sourcePort grows => s.acceptNext lan c sourcePort grows
  | .crash v => { s with
      listening := Function.update s.listening v none
      links := s.links.filter fun c => c.connector ≠ v ∧ c.acceptor ≠ v }
  | .lose v index =>
    let result := onPeers (askAt PeerEntry.getRemoteIP index) (s.managers v)
    { s.onManager v (final result) with
      lost := ((value? result).join.toList.map fun ip => (v, ip)) ++ s.lost }
  | .drop v backups => { s with connects := s.connects.erase (v, backups) }
  | .connect v backups => { s.onManager v { s.managers v with backupPeers := backups } with
      connects := s.connects.erase (v, backups) }
  | .linkLost v ip sourcePort => s.loseLink lan v ip sourcePort
  | .disconnect v ip => s.onManager v { s.managers v with
      backupPeers := Managers.eraseBackups ip (s.managers v).backupPeers }

/-- A port its stack may choose for a node that connects is not the one it listens on. -/
def Chosen (s : Network ν) (v : ν) (sourcePort : UInt16) : Prop :=
  ∃ port, s.listening v = some port ∧ sourcePort ≠ port

/-- When an event may happen. -/
def Enabled (s : Network ν) : NetworkEvent ν → Prop
  | .start v _ => v ∉ s.started
  | .join u v sourcePort _ => s.Chosen u sourcePort ∧ s.alive v = true ∧ u ∉ s.joined
  | .accept c sourcePort _ => (c, sourcePort) ∈ s.backlog ∧ s.alive c.acceptor = true
  | .crash v => s.alive v = true
  | .lose v index => s.alive v = true ∧
      ∃ id ∈ (s.places v)[index]?, ∀ c ∈ s.links, c.id ≠ id
  | .drop v backups => (v, backups) ∈ s.connects
  | .connect v backups => (v, backups) ∈ s.connects ∧ s.alive v = true
  | .linkLost v ip sourcePort => (v, ip) ∈ s.lost ∧ s.Chosen v sourcePort
  | .disconnect v ip => ip ∈ s.announced ∧ s.alive v = true

instance (s : Network ν) (v : ν) (sourcePort : UInt16) : Decidable (s.Chosen v sourcePort) :=
  inferInstanceAs (Decidable (∃ port ∈ s.listening v, sourcePort ≠ port))

instance (s : Network ν) (e : NetworkEvent ν) : Decidable (s.Enabled e) := by
  cases e <;> unfold Enabled <;> infer_instance

/-- One event. -/
def Step (s : Network ν) (e : NetworkEvent ν) (t : Network ν) : Prop :=
  s.Enabled e ∧ t = s.after lan e

/-- What becomes of the network, if all of these events may happen in turn. -/
def afterAll (s : Network ν) (es : List (NetworkEvent ν)) : Option (Network ν) :=
  es.foldlM (fun s e => if s.Enabled e then some (s.after lan e) else none) s

theorem trace_of_afterAll {s t : Network ν} {es : List (NetworkEvent ν)}
    (h : s.afterAll lan es = some t) : Trace (Step lan) s es t := by
  induction es generalizing s with
  | nil =>
    obtain rfl : s = t := Option.some_inj.mp h
    exact .nil s
  | cons e es ih =>
    rw [afterAll, List.foldlM_cons, Option.bind_eq_bind, Option.bind_eq_some_iff] at h
    obtain ⟨u, hfirst, hrest⟩ := h
    by_cases henabled : s.Enabled e
    · rw [if_pos henabled] at hfirst
      obtain rfl := Option.some_inj.mp hfirst
      exact .cons ⟨henabled, rfl⟩ (ih hrest)
    · rw [if_neg henabled] at hfirst
      cases hfirst

end Network

end WhisperNet
