import WhisperNet.Deserialize

/-!
# Routing

`PeerManager::routeData` decides which links some data goes out on and whether the node itself
deserializes it; `Peer::processMessage` calls it for a frame received on a link. The links of a
node are an arbitrary type with a remote address each.

* `routeData_everyone`, `routeData_self`, `routeData_linked`, `routeData_flood` — the four cases.
* `processMessage_save` — a frame received is routed by the message it holds, with the link it came
  in on as its source.
-/

namespace WhisperNet

open Bin

/-- What `routeData` does with the data. -/
inductive RouteStep (ι : Type)
  /-- `peer.send(data.data(), data.size())` -/
  | send (peer : ι)
  /-- `MessageManager::singleton().deserializeMessage(data)` -/
  | deserialize
  deriving DecidableEq

/-- A node on the network: its address, and its links. -/
structure Router (ι : Type) where
  /-- `ZeroTierNode::singleton().getIP()` -/
  self : IpAddress
  peers : List ι
  getRemoteIP : ι → IpAddress

namespace Router

variable {ι : Type} (r : Router ι)

/-- `forward2all`: everyone but the source. -/
def forward2all (source : IpAddress) : List (RouteStep ι) :=
  (r.peers.filter fun peer => r.getRemoteIP peer != source).map .send ++
    if source.isLoopback || source == r.self then [] else [.deserialize]

def routeData (destination source : IpAddress) : List (RouteStep ι) :=
  if destination.isUnspecified then r.forward2all source
  else if destination.isLoopback || destination == r.self then [.deserialize]
  else match r.peers.find? fun peer => r.getRemoteIP peer == destination with
    | some peer => [.send peer]
    | none => r.forward2all source

/-- `PeerManager::send`: the frame, and what is done with it. -/
def send (pf : Platform) (clk : Clock) (m : AnyMessage) (destination : IpAddress)
    (broadcastToSelf : Bool) : Bytes × List (RouteStep ι) :=
  (PeerManager.frame pf clk r.self destination m,
    r.routeData destination (if broadcastToSelf then .ipv6Unspecified else .ipv6Loopback))

/-- `Peer::processMessage` for data received on the link `peer`. The header is read from
`sizeof(Message)` bytes, which may reach into the memory after the data. `none` is the archive's
exception. -/
def processMessage (pf : Platform) (peer : ι) (data memory : Bytes) :
    Option (List (RouteStep ι)) := do
  let (m, _) ← (Message.load pf).run ((data ++ memory).take pf.sizeofMessage)
  let senderNode := if m.senderNode = .ipv6Unspecified then r.getRemoteIP peer else m.senderNode
  return r.routeData m.receiverNode senderNode

/-! ## The cases of `routeData` -/

theorem routeData_everyone {destination : IpAddress} (h : destination.isUnspecified)
    (source : IpAddress) : r.routeData destination source = r.forward2all source :=
  if_pos h

theorem routeData_self (h : ¬ r.self.isUnspecified) (source : IpAddress) :
    r.routeData r.self source = [.deserialize] := by
  rw [routeData, if_neg h, if_pos (by simp)]

/-- Data is sent to peers. -/
theorem mem_peers_of_send {r : Router ι} {destination source : IpAddress} {peer : ι}
    (h : .send peer ∈ r.routeData destination source) : peer ∈ r.peers := by
  have hflood : RouteStep.send peer ∈ r.forward2all source → peer ∈ r.peers := by
    intro h
    rcases List.mem_append.mp h with h | h
    · obtain ⟨w, hw, heq⟩ := List.mem_map.mp h
      cases heq
      exact List.mem_of_mem_filter hw
    · split at h
      · exact absurd h List.not_mem_nil
      · exact absurd (List.mem_singleton.mp h) (by simp)
  rw [routeData] at h
  split at h
  · exact hflood h
  · split at h
    · exact absurd (List.mem_singleton.mp h) (by simp)
    · split at h
      · rename_i p hfind
        cases List.mem_singleton.mp h
        exact List.mem_of_find?_eq_some hfind
      · exact hflood h

section Elsewhere

variable {r} {destination : IpAddress} (hu : ¬ destination.isUnspecified)
  (hl : ¬ destination.isLoopback) (hself : destination ≠ r.self)
include hu hl hself

theorem routeData_elsewhere (source : IpAddress) : r.routeData destination source =
    match r.peers.find? fun peer => r.getRemoteIP peer == destination with
    | some peer => [.send peer]
    | none => r.forward2all source := by
  rw [routeData, if_neg hu, if_neg (by simp [hl, hself])]

/-- A direct link is the only way taken. -/
theorem routeData_linked {peer : ι} (hpeer : peer ∈ r.peers)
    (hip : ∀ p ∈ r.peers, r.getRemoteIP p = destination ↔ p = peer) (source : IpAddress) :
    r.routeData destination source = [.send peer] := by
  have hfind : r.peers.find? (fun p => r.getRemoteIP p == destination) = some peer := by
    cases h : r.peers.find? (fun p => r.getRemoteIP p == destination) with
    | none =>
      have hnone := List.find?_eq_none.mp h peer hpeer
      exact absurd ((hip peer hpeer).mpr rfl) (by simpa using hnone)
    | some p =>
      have hp := List.find?_some h
      exact congrArg some ((hip p (List.mem_of_find?_eq_some h)).mp (by simpa using hp))
  rw [routeData_elsewhere hu hl hself, hfind]

/-- Without one the data goes everywhere. -/
theorem routeData_flood (hip : ∀ p ∈ r.peers, r.getRemoteIP p ≠ destination)
    (source : IpAddress) : r.routeData destination source = r.forward2all source := by
  have hfind : r.peers.find? (fun p => r.getRemoteIP p == destination) = none :=
    List.find?_eq_none.mpr fun p hp => by simpa using hip p hp
  rw [routeData_elsewhere hu hl hself, hfind]

end Elsewhere

/-! ## Received frames -/

theorem length_save_ipAddress (pf : Platform) (ip : IpAddress) : (ip.save pf).length ≤ 17 := by
  cases ip <;> simp [IpAddress.save, put8, put32, put64]

/-- The header fits into `sizeof(Message)` bytes. -/
theorem length_save_message (pf : Platform) (m : Message) :
    (m.save pf).length ≤ pf.sizeofMessage := by
  have hreceiver := length_save_ipAddress pf m.receiverNode
  have horiginator := length_save_ipAddress pf m.originatorNode
  have hsize := pf.sizeofMessage_ge
  simp only [Message.save, put8, List.length_append, List.length_cons, List.length_nil,
    length_put64]
  omega

/-- The first `sizeof(Message)` bytes begin with the header. -/
theorem take_save (pf : Platform) (m : AnyMessage) (memory : Bytes) :
    ∃ rest, (m.save pf ++ memory).take pf.sizeofMessage = m.base.save pf ++ rest := by
  obtain ⟨rest, hrest⟩ := m.save_base pf
  refine ⟨(rest ++ memory).take (pf.sizeofMessage - (m.base.save pf).length), ?_⟩
  rw [hrest, List.append_assoc, List.take_append,
    List.take_of_length_le (length_save_message pf m.base)]

/-- **A frame is routed by the message it holds**, whatever follows it in memory. -/
theorem processMessage_save (pf : Platform) (peer : ι) (m : AnyMessage) (memory : Bytes) :
    r.processMessage pf peer (m.save pf) memory =
      some (r.routeData m.base.receiverNode (r.getRemoteIP peer)) := by
  obtain ⟨rest, htake⟩ := take_save pf m memory
  rw [processMessage, htake, reads_message pf m.base]
  rfl

end Router

end WhisperNet
