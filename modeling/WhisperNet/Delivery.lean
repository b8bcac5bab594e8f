import WhisperNet.Lib.Diffusion
import WhisperNet.Lib.TreeFlood
import WhisperNet.Routing

/-!
# Delivery on a tree

Nodes whose links form a tree route one message. A frame in flight on a link is handled by
`Peer::processMessage` at its far end, in any order; there is no duplicate suppression. What keeps
a broadcast from going around is that `forward2all` leaves out the link it came in on, and what
keeps a unicast from being lost is that without a direct link it goes everywhere.

* `broadcast_ledger`, `unicast_ledger` — what one frame in flight is worth to each recipient.
* `exactly_once` — every run ends, and each recipient has then deserialized the frame once.
-/

namespace WhisperNet

open Bin TreeFlood

/-! ## The overlay -/

/-- The links of every node. -/
structure Links (V : Type) where
  peers : V → List V
  nodup : ∀ v, (peers v).Nodup
  symm : ∀ u v, v ∈ peers u → u ∈ peers v
  irrefl : ∀ v, v ∉ peers v

def Links.graph {V : Type} (links : Links V) : SimpleGraph V where
  Adj u v := v ∈ links.peers u
  symm := ⟨links.symm⟩
  loopless := ⟨links.irrefl⟩

/-- Nodes with addresses of their own, linked in any way. -/
structure Mesh (V : Type) extends Links V where
  addr : V → IpAddress
  addr_injective : Function.Injective addr
  addr_specified : ∀ v, (addr v).isUnspecified = false
  addr_remote : ∀ v, (addr v).isLoopback = false

/-- Their links form a tree. -/
structure Overlay (V : Type) extends Mesh V where
  isTree : toLinks.graph.IsTree

/-- A frame in flight on the link from `src` to `dst`. -/
structure Packet (V : Type) where
  src : V
  dst : V
  data : Bytes

namespace Mesh

variable {V : Type} (net : Mesh V)

/-- A node as it sees itself. A link is known by the node at its far end. -/
def router (v : V) : Router V where
  self := net.addr v
  peers := net.peers v
  getRemoteIP := net.addr

/-- The routing steps of `v`, carried out: frames sent, and calls of `deserializeMessage`. -/
def carryOut (v : V) (data : Bytes) (steps : List (RouteStep V)) :
    List (Packet V) × List (V × Bytes) :=
  (steps.filterMap fun
    | .send w => some ⟨v, w, data⟩
    | .deserialize => none,
   steps.filterMap fun
    | .send _ => none
    | .deserialize => some (v, data))

/-- The frame arrives and is processed. Any bytes may follow it in memory. -/
def receives (pf : Platform) : Diffusion.Reaction (Packet V) (V × Bytes) := fun packet out =>
  ∃ memory steps, (net.router packet.dst).processMessage pf packet.src packet.data memory =
    some steps ∧ out = carryOut packet.dst packet.data steps

/-- The frame `PeerManager::send` makes of `m` at `origin`. -/
def frame (pf : Platform) (clk : Clock) (origin : V) (destination : IpAddress) (m : AnyMessage) :
    Bytes :=
  PeerManager.frame pf clk (net.addr origin) destination m

/-- After `PeerManager::send` at `origin`. -/
def sent (pf : Platform) (clk : Clock) (origin : V) (destination : IpAddress) (m : AnyMessage) :
    Diffusion.State (Packet V) (V × Bytes) :=
  let (data, steps) := (net.router origin).send pf clk m destination true
  let (packets, calls) := carryOut origin data steps
  ⟨packets, calls⟩

/-! ## Routing at one node -/

theorem carryOut_send (v w : V) (data : Bytes) :
    carryOut v data [.send w] = ([⟨v, w, data⟩], []) := rfl

theorem carryOut_deserialize (v : V) (data : Bytes) :
    carryOut v data [.deserialize] = ([], [(v, data)]) := rfl

/-- What is sent to each of `ws` and deserialized. -/
theorem carryOut_flood (v : V) (data : Bytes) (ws : List V) :
    carryOut v data (ws.map .send ++ [.deserialize]) =
      (ws.map fun w => ⟨v, w, data⟩, [(v, data)]) := by
  simp [carryOut, List.filterMap_append, List.filterMap_map]

/-- From a neighbour, everything goes to the other neighbours. -/
theorem forward2all_onward [DecidableEq V] {u v : V} (h : net.graph.Adj u v) :
    (net.router v).forward2all (net.addr u) =
      ((net.peers v).filter (· != u)).map .send ++ [.deserialize] := by
  have hne : (net.addr u == net.addr v) = false := by
    simpa using fun heq => h.ne (net.addr_injective heq)
  have hfilter : (fun w => net.addr w != net.addr u) = (· != u) := by
    funext w
    rw [Bool.eq_iff_iff, bne_iff_ne, bne_iff_ne, net.addr_injective.ne_iff]
  simp only [Router.forward2all, router, net.addr_remote, hne, hfilter, Bool.or_self,
    Bool.false_eq_true, if_false]

/-- At the origin, everything goes to all neighbours. -/
theorem forward2all_origin (v : V) :
    (net.router v).forward2all .ipv6Unspecified = (net.peers v).map .send ++ [.deserialize] := by
  have hspecified : ∀ w, net.addr w ≠ .ipv6Unspecified := by
    intro w heq
    have hw := net.addr_specified w
    rw [heq] at hw
    exact absurd hw (by decide)
  have hfilter : (net.peers v).filter (fun w => net.addr w != .ipv6Unspecified) = net.peers v :=
    List.filter_eq_self.mpr fun w _ => by simpa using hspecified w
  have hself : (IpAddress.ipv6Unspecified == net.addr v) = false := by
    simpa using (hspecified v).symm
  have hloop : IpAddress.ipv6Unspecified.isLoopback = false := by decide
  simp only [Router.forward2all, router, hfilter, hself, hloop, Bool.or_self, Bool.false_eq_true,
    if_false]

section Unicast

variable {net} {v d : V}

/-- To a neighbour there is a direct link. -/
theorem routeData_adjacent (h : net.graph.Adj v d) (source : IpAddress) :
    (net.router v).routeData (net.addr d) source = [.send d] :=
  Router.routeData_linked (by simp [net.addr_specified]) (by simp [net.addr_remote])
    (net.addr_injective.ne h.ne.symm) h (fun _ _ => net.addr_injective.eq_iff) source

/-- To a node further away everything goes everywhere. -/
theorem routeData_distant (hne : v ≠ d) (h : ¬ net.graph.Adj v d) (source : IpAddress) :
    (net.router v).routeData (net.addr d) source = (net.router v).forward2all source := by
  refine Router.routeData_flood (by simp [net.addr_specified]) (by simp [net.addr_remote])
    (net.addr_injective.ne hne.symm) (fun w hw heq => ?_) source
  obtain rfl := net.addr_injective heq
  exact h hw

/-- At the destination it is deserialized. -/
theorem routeData_arrived (source : IpAddress) :
    (net.router d).routeData (net.addr d) source = [.deserialize] :=
  (net.router d).routeData_self (by simp [router, net.addr_specified]) source

end Unicast

/-! ## One frame in flight -/

section Receiving

variable {net} {pf : Platform} {data : Bytes} {destination : IpAddress}

/-- The header of `data` asks for it to be routed to `destination`. -/
def RoutesTo (net : Mesh V) (pf : Platform) (data : Bytes) (destination : IpAddress) : Prop :=
  ∀ v u memory, (net.router v).processMessage pf u data memory =
    some ((net.router v).routeData destination (net.addr u))

/-- A packet with this frame on a link of the overlay. -/
structure Carries (net : Mesh V) (data : Bytes) (packet : Packet V) : Prop where
  linked : net.graph.Adj packet.src packet.dst
  data_eq : packet.data = data

theorem receives_iff (hroute : net.RoutesTo pf data destination) {packet : Packet V}
    (hp : net.Carries data packet) (out : List (Packet V) × List (V × Bytes)) :
    net.receives pf packet out ↔ out = carryOut packet.dst data
      ((net.router packet.dst).routeData destination (net.addr packet.src)) := by
  constructor
  · rintro ⟨memory, steps, hsteps, rfl⟩
    rw [hp.data_eq, hroute, Option.some_inj] at hsteps
    rw [hp.data_eq, hsteps]
  · rintro rfl
    exact ⟨[], _, by rw [hp.data_eq]; exact hroute _ _ _, by rw [hp.data_eq]⟩

end Receiving

/-- The frame `send` puts on the links is routed to its destination. -/
theorem routesTo_frame (pf : Platform) (clk : Clock) (origin : V) (destination : IpAddress)
    (m : AnyMessage) :
    net.RoutesTo pf (net.frame pf clk origin destination m) destination := by
  intro v u memory
  rw [frame, PeerManager.frame, Router.processMessage_save]
  simp [PeerManager.stamp, PeerManager.route, router]

theorem sent_eq (pf : Platform) (clk : Clock) (origin : V) (destination : IpAddress)
    (m : AnyMessage) : net.sent pf clk origin destination m =
      ⟨(carryOut origin (net.frame pf clk origin destination m)
          ((net.router origin).routeData destination .ipv6Unspecified)).1,
        (carryOut origin (net.frame pf clk origin destination m)
          ((net.router origin).routeData destination .ipv6Unspecified)).2⟩ := rfl

/-- Everyone, or the node addressed. -/
def Recipient (destination : IpAddress) (v : V) : Prop :=
  destination.isUnspecified ∨ destination = net.addr v

end Mesh

namespace Overlay

open Mesh

variable {V : Type} (net : Overlay V)

section Ledgers

variable {net} {pf : Platform} {data : Bytes} {destination : IpAddress}

section Arrivals

variable [DecidableEq V]

/-- Whether a call hands the frame to `y`. -/
def arrival (data : Bytes) (y : V) (call : V × Bytes) : Nat := [call].count (y, data)

theorem arrival_self (data : Bytes) (v y : V) :
    arrival data y (v, data) = if v = y then 1 else 0 := by
  simp [arrival, List.count_singleton]

theorem sum_arrival (data : Bytes) (y : V) (log : List (V × Bytes)) :
    (log.map (arrival data y)).sum = log.count (y, data) := by
  calc (log.map (arrival data y)).sum = (log.flatMap fun call => [call]).count (y, data) := by
        rw [List.count_flatMap]; rfl
    _ = log.count (y, data) := by rw [List.flatMap_singleton']

end Arrivals

variable [DecidableEq V]

/-- A frame flooded onward from `v` is worth what `v`'s side is. -/
theorem flood_balance {u v : V} (h : net.graph.Adj u v) (y : V) :
    side net.graph u v y = ([(v, data)].map (arrival data y)).sum +
      ((((net.peers v).filter (· != u)).map fun w => Packet.mk v w data).map
        fun p => side net.graph p.src p.dst y).sum := by
  rw [← sum_side_onward net.isTree (net.nodup v) (fun w => Iff.rfl) h y, List.map_map,
    List.map_singleton, List.sum_singleton, arrival_self, Nat.add_comm]
  rfl

variable [Fintype V]

theorem flood_lighter {u v : V} (h : net.graph.Adj u v) :
    ((((net.peers v).filter (· != u)).map fun w => Packet.mk v w data).map
      fun p => sideSize net.graph p.src p.dst).sum < sideSize net.graph u v := by
  rw [← sum_sideSize_onward net.isTree (net.nodup v) (fun w => Iff.rfl) h, List.map_map]
  exact Nat.lt_succ_of_le (Nat.le_of_eq rfl)

/-- **A broadcast frame in flight** is worth one call to every node of its side. -/
theorem broadcast_ledger (hroute : net.RoutesTo pf data destination)
    (hd : destination.isUnspecified) (y : V) :
    Diffusion.Ledger (net.receives pf) (net.Carries data) (arrival data y)
      (fun p => side net.graph p.src p.dst y) (fun p => sideSize net.graph p.src p.dst) := by
  have hout : ∀ {packet out}, net.Carries data packet → net.receives pf packet out →
      out = (((net.peers packet.dst).filter (· != packet.src)).map
        fun w => Packet.mk packet.dst w data, [(packet.dst, data)]) := by
    intro packet out hp h
    rw [(receives_iff hroute hp out).mp h, Router.routeData_everyone _ hd,
      net.forward2all_onward hp.linked, carryOut_flood]
  refine ⟨fun hp h packet hpacket => ?_, fun hp h => ?_, fun hp h => ?_⟩
  · rw [hout hp h] at hpacket
    obtain ⟨w, hw, rfl⟩ := List.mem_map.mp hpacket
    exact ⟨List.mem_of_mem_filter hw, rfl⟩
  · rw [hout hp h]
    exact flood_balance hp.linked y
  · rw [hout hp h]
    exact flood_lighter hp.linked

/-- **A unicast frame in flight** is worth one call when the destination is on its side. -/
theorem unicast_ledger {d : V} (hroute : net.RoutesTo pf data (net.addr d)) :
    Diffusion.Ledger (net.receives pf) (fun p => net.Carries data p ∧ p.src ≠ d) (arrival data d)
      (fun p => side net.graph p.src p.dst d) (fun p => sideSize net.graph p.src p.dst) := by
  -- What comes out is nothing, one frame to the destination, or a flood.
  have hout : ∀ {packet out}, net.Carries data packet → net.receives pf packet out →
      (packet.dst = d ∧ out = ([], [(d, data)])) ∨
      (net.graph.Adj packet.dst d ∧ out = ([⟨packet.dst, d, data⟩], [])) ∨
      (packet.dst ≠ d ∧ out = (((net.peers packet.dst).filter (· != packet.src)).map
        fun w => Packet.mk packet.dst w data, [(packet.dst, data)])) := by
    intro packet out hp h
    rw [receives_iff hroute hp out] at h
    by_cases hd : packet.dst = d
    · exact Or.inl ⟨hd, by rw [h, hd, routeData_arrived, carryOut_deserialize]⟩
    · by_cases hadj : net.graph.Adj packet.dst d
      · exact Or.inr (Or.inl ⟨hadj, by rw [h, routeData_adjacent hadj, carryOut_send]⟩)
      · refine Or.inr (Or.inr ⟨hd, ?_⟩)
        rw [h, routeData_distant hd hadj, net.forward2all_onward hp.linked, carryOut_flood]
  refine ⟨fun hp h packet hpacket => ?_, fun {packet out} hp h => ?_, fun {packet out} hp h => ?_⟩
  · rcases hout hp.1 h with ⟨-, rfl⟩ | ⟨hadj, rfl⟩ | ⟨hne, rfl⟩
    · exact absurd hpacket List.not_mem_nil
    · obtain rfl := List.mem_singleton.mp hpacket
      exact ⟨⟨hadj, rfl⟩, hadj.ne⟩
    · obtain ⟨w, hw, rfl⟩ := List.mem_map.mp hpacket
      exact ⟨⟨List.mem_of_mem_filter hw, rfl⟩, hne⟩
  · have honward := sum_side_onward net.isTree (net.nodup packet.dst) (fun w => Iff.rfl)
      hp.1.linked d
    rcases hout hp.1 h with ⟨hd, rfl⟩ | ⟨hadj, rfl⟩ | ⟨hne, rfl⟩
    · have hend := side_end hp.1.linked
      rw [hd] at hend
      simp [hd, hend, arrival_self]
    · -- The destination is beyond an edge of this node other than the one the frame came by.
      have hmem : side net.graph packet.dst d d ∈
          ((net.peers packet.dst).filter (· != packet.src)).map
            fun w => side net.graph packet.dst w d :=
        List.mem_map.mpr ⟨d, List.mem_filter.mpr ⟨hadj, by simpa using hp.2.symm⟩, rfl⟩
      have hle := List.le_sum_of_mem hmem
      have hsides := side_add_side net.isTree hp.1.linked d
      rw [if_neg hadj.ne] at honward
      have hend := side_end hadj
      simp only [List.map_nil, List.sum_nil, List.map_singleton, List.sum_singleton]
      omega
    · exact flood_balance hp.1.linked d
  · have honward := sum_sideSize_onward net.isTree (net.nodup packet.dst) (fun w => Iff.rfl)
      hp.1.linked
    rcases hout hp.1 h with ⟨-, rfl⟩ | ⟨hadj, rfl⟩ | ⟨-, rfl⟩
    · simp only [List.map_nil, List.sum_nil]
      omega
    · have hmem : sideSize net.graph packet.dst d ∈
          ((net.peers packet.dst).filter (· != packet.src)).map
            fun w => sideSize net.graph packet.dst w :=
        List.mem_map.mpr ⟨d, List.mem_filter.mpr ⟨hadj, by simpa using hp.2.symm⟩, rfl⟩
      have hle := List.le_sum_of_mem hmem
      simp only [List.map_singleton, List.sum_singleton]
      omega
    · exact flood_lighter hp.1.linked

end Ledgers

/-! ## The whole run -/

variable [Fintype V] [DecidableEq V]

/-- What `send` starts pays for one call at every recipient. -/
theorem sent_ledger (pf : Platform) (clk : Clock) (origin : V) (destination : IpAddress)
    (m : AnyMessage) {y : V} (hy : net.Recipient destination y) :
    ∃ Token, Diffusion.Ledger (net.receives pf) Token
      (arrival (net.frame pf clk origin destination m) y)
      (fun p => side net.graph p.src p.dst y) (fun p => sideSize net.graph p.src p.dst) ∧
      (∀ p, Token p → net.Carries (net.frame pf clk origin destination m) p) ∧
      (∀ p ∈ (net.sent pf clk origin destination m).pending, Token p) ∧
      ((net.sent pf clk origin destination m).log.map
          (arrival (net.frame pf clk origin destination m) y)).sum +
        ((net.sent pf clk origin destination m).pending.map
          fun p => side net.graph p.src p.dst y).sum = 1 := by
  have hroute := net.routesTo_frame pf clk origin destination m
  rw [sent_eq]
  generalize net.frame pf clk origin destination m = data at hroute ⊢
  -- The sum over a flood from the origin.
  have hflood : ((([(origin, data)] : List (V × Bytes)).map (arrival data y)).sum +
      (((net.peers origin).map fun w => Packet.mk origin w data).map
        fun p => side net.graph p.src p.dst y).sum) = 1 := by
    rw [List.map_map, List.map_singleton, List.sum_singleton, arrival_self, Nat.add_comm]
    exact sum_side net.isTree (net.nodup origin) (fun w => Iff.rfl) y
  by_cases hd : destination.isUnspecified
  · refine ⟨_, broadcast_ledger hroute hd y, fun _ hp => hp, ?_⟩
    rw [Router.routeData_everyone _ hd, forward2all_origin, carryOut_flood]
    refine ⟨fun p hp => ?_, hflood⟩
    obtain ⟨w, hw, rfl⟩ := List.mem_map.mp hp
    exact ⟨hw, rfl⟩
  · obtain rfl : destination = net.addr y := hy.resolve_left hd
    refine ⟨_, unicast_ledger hroute, fun _ hp => hp.1, ?_⟩
    by_cases horigin : origin = y
    · rw [horigin, routeData_arrived, carryOut_deserialize]
      exact ⟨fun p hp => absurd hp List.not_mem_nil, by simp [arrival_self]⟩
    · by_cases hadj : net.graph.Adj origin y
      · rw [routeData_adjacent hadj, carryOut_send]
        refine ⟨fun p hp => ?_, by simp [side_end hadj]⟩
        obtain rfl := List.mem_singleton.mp hp
        exact ⟨⟨hadj, rfl⟩, horigin⟩
      · rw [routeData_distant horigin hadj, forward2all_origin, carryOut_flood]
        refine ⟨fun p hp => ?_, hflood⟩
        obtain ⟨w, hw, rfl⟩ := List.mem_map.mp hp
        exact ⟨⟨hw, rfl⟩, horigin⟩

/-- **Exactly once.** Every run from a `send` ends, whatever order the frames in flight are
delivered in: its length is bounded, every frame in flight can be processed, and once there is none
left, every recipient has deserialized the frame exactly once. -/
theorem exactly_once (pf : Platform) (clk : Clock) (origin : V) (destination : IpAddress)
    (m : AnyMessage) (h : destination.isUnspecified ∨ ∃ v, destination = net.addr v) :
    ∃ bound, ∀ n t, Run (Diffusion.Step (net.receives pf)) n
        (net.sent pf clk origin destination m) t →
      n ≤ bound ∧
      (∀ packet ∈ t.pending, ∀ memory, ((net.router packet.dst).processMessage pf packet.src
        packet.data memory).isSome) ∧
      (t.pending ≠ [] → ∃ u, Diffusion.Step (net.receives pf) t u) ∧
      (t.pending = [] → ∀ v, net.Recipient destination v →
        t.log.count (v, net.frame pf clk origin destination m) = 1) := by
  have hroute := net.routesTo_frame pf clk origin destination m
  obtain ⟨d, hd⟩ : ∃ d, net.Recipient destination d := by
    rcases h with h | ⟨v, rfl⟩
    · exact ⟨origin, Or.inl h⟩
    · exact ⟨v, Or.inr rfl⟩
  obtain ⟨Token, ledger, hcarries, hstart, -⟩ := net.sent_ledger pf clk origin destination m hd
  refine ⟨_, fun n t run =>
    ⟨(Nat.le_add_right _ _).trans (ledger.run_length hstart run), ?_, ?_, ?_⟩⟩
  · intro packet hpacket memory
    have hp := hcarries packet (ledger.run_tokens hstart run packet hpacket)
    rw [hp.data_eq, hroute]
    rfl
  · intro hpending
    obtain ⟨packet, hpacket⟩ := List.exists_mem_of_ne_nil _ hpending
    have hp := hcarries packet (ledger.run_tokens hstart run packet hpacket)
    exact Diffusion.exists_step hpacket ((receives_iff hroute hp _).mpr rfl)
  · intro hdone v hv
    obtain ⟨Token, ledger, -, hstart, hone⟩ := net.sent_ledger pf clk origin destination m hv
    have hbalance := ledger.run_balance hstart run
    rw [hdone, hone, sum_arrival] at hbalance
    exact hbalance

/-! ## Two nodes -/

/-- Two nodes, linked. -/
def pair : Overlay Bool where
  peers v := [!v]
  nodup _ := List.nodup_singleton _
  symm := by decide
  irrefl := by decide
  addr v := if v then .ipv4 0x0a000002 else .ipv4 0x0a000001
  addr_injective := by decide
  addr_specified := by decide
  addr_remote := by decide
  isTree := by
    refine ⟨(SimpleGraph.connected_iff _).mpr ⟨fun u v => ?_, ⟨true⟩⟩,
      SimpleGraph.IsAcyclic.of_card_le_two (by simp)⟩
    by_cases h : u = v
    · exact h ▸ .rfl
    · exact SimpleGraph.Adj.reachable (by cases u <;> cases v <;> simp_all [Links.graph])

theorem pair_exactly_once : ∃ bound, ∀ n t,
    Run (Diffusion.Step (pair.receives .littleEndian)) n
        (pair.sent .littleEndian (.utc 0) false .ipv6Unspecified (.payload greeting)) t →
      n ≤ bound ∧ (t.pending = [] → ∀ v, t.log.count
        (v, pair.frame .littleEndian (.utc 0) false .ipv6Unspecified (.payload greeting)) = 1) := by
  obtain ⟨bound, h⟩ := exactly_once pair .littleEndian (.utc 0) false .ipv6Unspecified
    (.payload greeting) (Or.inl rfl)
  exact ⟨bound, fun n t run =>
    ⟨(h n t run).1, fun hdone v => (h n t run).2.2.2 hdone v (Or.inl rfl)⟩⟩

end Overlay

end WhisperNet
