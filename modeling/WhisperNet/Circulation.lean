import WhisperNet.Lib.Flooding
import WhisperNet.Delivery

/-!
# A broadcast on any overlay

Nothing in `routeData` or `deserializeMessage` remembers which frames have come by before. On a tree
none comes by twice. What becomes of a frame for everyone where the links do not form a tree, or of
a frame for a node that has left, for which every node falls back on `forward2all`?

* `flood_leaves` — the frames that one frame leaves are those on the edges that follow its own.
* `dies_out_iff` — frames are under way for ever exactly if the originator's part of the overlay has
  a cycle.
-/

namespace WhisperNet

open Bin Flooding Worklist

namespace Mesh

variable {V : Type} {net : Mesh V}

/-! ## Routing at one node -/

/-- Everyone, or a node that is not there. -/
def Nowhere (net : Mesh V) (destination : IpAddress) : Prop :=
  destination.isUnspecified ∨ ¬ destination.isLoopback ∧ ∀ v, destination ≠ net.addr v

/-- The node floods. -/
theorem Nowhere.routeData {destination : IpAddress} (h : net.Nowhere destination) (v : V)
    (source : IpAddress) :
    (net.router v).routeData destination source = (net.router v).forward2all source := by
  by_cases hu : destination.isUnspecified
  · exact Router.routeData_everyone _ hu source
  · obtain ⟨hl, hne⟩ := h.resolve_left hu
    exact Router.routeData_flood hu hl (hne v) (fun w _ => (hne w).symm) source

/-- No frame leaves itself: nobody is his own peer. -/
instance (pf : Platform) : Std.Irrefl (Diffusion.Leaves (net.receives pf)) := by
  refine ⟨fun packet h => ?_⟩
  obtain ⟨out, ⟨memory, steps, hsteps, rfl⟩, hmem⟩ := h
  obtain ⟨step, hstep, hsend⟩ := List.mem_filterMap.mp hmem
  obtain ⟨⟨header, rest⟩, -, hroute⟩ := Option.bind_eq_some_iff.mp hsteps
  obtain rfl := Option.some_inj.mp hroute
  cases step with
  | deserialize => cases hsend
  | send w =>
    have hdst : w = packet.dst := congrArg Packet.dst (Option.some_inj.mp hsend)
    have hpeer := Router.mem_peers_of_send hstep
    rw [hdst] at hpeer
    exact net.irrefl _ hpeer

/-! ## One frame in flight -/

section Flood

variable [DecidableEq V] {pf : Platform} {clk : Clock} {origin : V} {destination : IpAddress}
  {m : AnyMessage}

/-- What comes of a frame that is flooded. -/
theorem flood_iff (h : net.Nowhere destination) {packet : Packet V}
    (hp : net.Carries (net.frame pf clk origin destination m) packet)
    (out : List (Packet V) × List (V × Bytes)) :
    net.receives pf packet out ↔ out =
      (((net.peers packet.dst).filter (· != packet.src)).map
        fun w => ⟨packet.dst, w, net.frame pf clk origin destination m⟩,
        [(packet.dst, net.frame pf clk origin destination m)]) := by
  rw [receives_iff (net.routesTo_frame pf clk origin destination m) hp, h.routeData,
    net.forward2all_onward hp.linked, carryOut_flood]

theorem flood_carries (h : net.Nowhere destination) {packet : Packet V}
    {out : List (Packet V) × List (V × Bytes)}
    (hp : net.Carries (net.frame pf clk origin destination m) packet)
    (hout : net.receives pf packet out) :
    ∀ p ∈ out.1, net.Carries (net.frame pf clk origin destination m) p := by
  intro p hmem
  rw [(flood_iff h hp out).mp hout] at hmem
  obtain ⟨w, hw, rfl⟩ := List.mem_map.mp hmem
  exact ⟨List.mem_of_mem_filter hw, rfl⟩

/-- The frame goes on along the edges that follow. -/
theorem flood_leaves (h : net.Nowhere destination) {packet p : Packet V}
    (hp : net.Carries (net.frame pf clk origin destination m) packet) :
    Diffusion.Leaves (net.receives pf) p packet ↔
      Follows net.graph (p.src, p.dst) (packet.src, packet.dst) ∧
        p.data = net.frame pf clk origin destination m := by
  constructor
  · rintro ⟨out, hout, hmem⟩
    rw [(flood_iff h hp out).mp hout] at hmem
    obtain ⟨w, hw, rfl⟩ := List.mem_map.mp hmem
    obtain ⟨hpeer, hne⟩ := List.mem_filter.mp hw
    exact ⟨⟨hp.linked, rfl, hpeer, by simpa using hne⟩, rfl⟩
  · rintro ⟨⟨-, hsrc, hadj, hne⟩, hdata⟩
    refine ⟨_, (flood_iff h hp _).mpr rfl, List.mem_map.mpr ⟨p.dst, List.mem_filter.mpr ⟨?_, ?_⟩, ?_⟩⟩
    · have hsrc : p.src = packet.dst := hsrc
      exact hsrc ▸ hadj
    · simpa using hne
    · obtain ⟨src, dst, data⟩ := p
      obtain rfl : src = packet.dst := hsrc
      obtain rfl : data = _ := hdata
      rfl

theorem acc_iff_follows (h : net.Nowhere destination) {packet : Packet V}
    (hp : net.Carries (net.frame pf clk origin destination m) packet) :
    Acc (Diffusion.Leaves (net.receives pf)) packet ↔
      Acc (Follows net.graph) (packet.src, packet.dst) := by
  constructor
  · intro hacc
    induction hacc with
    | intro packet _ ih =>
      refine ⟨_, fun e he => ?_⟩
      exact ih ⟨e.1, e.2, net.frame pf clk origin destination m⟩
        ((flood_leaves h hp).mpr ⟨he, rfl⟩) ⟨he.2.2.1, rfl⟩
  · intro hacc
    generalize hd : (packet.src, packet.dst) = d at hacc
    induction hacc generalizing packet with
    | intro d _ ih =>
      subst hd
      refine ⟨_, fun p hleaves => ?_⟩
      obtain ⟨hfollows, hdata⟩ := (flood_leaves h hp).mp hleaves
      exact ih _ hfollows ⟨hfollows.2.2.1, hdata⟩ rfl

omit [DecidableEq V] in
theorem sent_flood (h : net.Nowhere destination) : net.sent pf clk origin destination m =
    ⟨(net.peers origin).map fun w => ⟨origin, w, net.frame pf clk origin destination m⟩,
      [(origin, net.frame pf clk origin destination m)]⟩ := by
  rw [sent_eq, h.routeData, net.forward2all_origin, carryOut_flood]

end Flood

/-! ## Whole runs -/

/-- **A frame for everyone dies out** on every run if no cycle can be reached from its originator.
If one can, then every run can go on, and in `n` steps the frame has been handed to
`deserializeMessage` another `n` times. -/
theorem dies_out_iff [Finite V] (net : Mesh V) (pf : Platform) (clk : Clock) (origin : V)
    (destination : IpAddress) (m : AnyMessage) (h : net.Nowhere destination) :
    (NoCycle net.graph origin → Terminates (Diffusion.Step (net.receives pf))
      (net.sent pf clk origin destination m)) ∧
    (¬ NoCycle net.graph origin → ∀ n t, Run (Diffusion.Step (net.receives pf)) n
      (net.sent pf clk origin destination m) t →
      (∃ u, Diffusion.Step (net.receives pf) t u) ∧ t.log.length = n + 1) := by
  classical
  have hcarries : ∀ p ∈ (net.sent pf clk origin destination m).pending,
      net.Carries (net.frame pf clk origin destination m) p := by
    intro p hp
    rw [sent_flood h] at hp
    obtain ⟨w, hw, rfl⟩ := List.mem_map.mp hp
    exact ⟨hw, rfl⟩
  constructor
  · intro hno
    refine Diffusion.terminates_of_acc fun p hp => (acc_iff_follows h (hcarries p hp)).mpr ?_
    rw [sent_flood h] at hp
    obtain ⟨w, hw, rfl⟩ := List.mem_map.mp hp
    exact acc_iff_noCycle.mpr hno w hw
  · intro hcycle n t run
    have hlasts : ∃ p ∈ (net.sent pf clk origin destination m).pending,
        ¬ Acc (Diffusion.Leaves (net.receives pf)) p := by
      by_contra hall
      push Not at hall
      refine hcycle (acc_iff_noCycle.mp fun w hadj => ?_)
      have hmem : ⟨origin, w, net.frame pf clk origin destination m⟩ ∈
          (net.sent pf clk origin destination m).pending := by
        rw [sent_flood h]
        exact List.mem_map.mpr ⟨w, hadj, rfl⟩
      exact (acc_iff_follows h (hcarries _ hmem)).mp (hall _ hmem)
    constructor
    · obtain ⟨p, hp, hcarried⟩ := Diffusion.lasts_of_not_acc (fun p out hp => flood_carries h hp)
        (fun p out out' hp hout hout' =>
          ((flood_iff h hp out).mp hout).trans ((flood_iff h hp out').mp hout').symm)
        ⟨hcarries, hlasts⟩ run
      exact Diffusion.exists_step hp ((flood_iff h hcarried _).mpr rfl)
    · have hlog := (Diffusion.run_log_length hcarries (fun p out hp => flood_carries h hp)
        (fun p out hp hout => by rw [(flood_iff h hp out).mp hout]; rfl) run).2
      rw [hlog, sent_flood h, List.length_singleton, Nat.add_comm]

/-! ## Five nodes in a ring -/

/-- Five nodes, each linked to the next and to the one before. -/
def ring : Mesh (Fin 5) where
  peers v := [v + 1, v + 4]
  nodup := by decide
  symm := by decide
  irrefl := by decide
  addr v := .ipv4 (0xc0a80001 + v.val.toUInt32)
  addr_injective := by decide
  addr_specified := by decide
  addr_remote := by decide

instance : DecidableRel ring.graph.Adj := fun u v =>
  inferInstanceAs (Decidable (v ∈ ring.peers u))

theorem ring_cycle : ¬ NoCycle ring.graph 0 := by
  intro hno
  have h01 : ring.graph.Adj 0 1 := by decide
  have h12 : ring.graph.Adj 1 2 := by decide
  have h23 : ring.graph.Adj 2 3 := by decide
  have h34 : ring.graph.Adj 3 4 := by decide
  have h40 : ring.graph.Adj 4 0 := by decide
  refine hno 0 (.refl 0) (.cons h01 (.cons h12 (.cons h23 (.cons h34 (.cons h40 .nil))))) ?_
  rw [SimpleGraph.Walk.isCycle_def, SimpleGraph.Walk.isTrail_def]
  refine ⟨?_, (by intro h; cases h), ?_⟩
  · simp only [SimpleGraph.Walk.edges_cons, SimpleGraph.Walk.edges_nil]
    decide
  · simp only [SimpleGraph.Walk.support_cons, SimpleGraph.Walk.support_nil, List.tail_cons]
    decide

theorem ring_goes_on : ∃ t u, Run (Diffusion.Step (ring.receives .littleEndian)) 1
    (ring.sent .littleEndian (.utc 0) 0 .ipv6Unspecified (.payload greeting)) t ∧
      Diffusion.Step (ring.receives .littleEndian) t u ∧ t.log.length = 2 := by
  have hruns := (dies_out_iff ring .littleEndian (.utc 0) 0 .ipv6Unspecified (.payload greeting)
    (Or.inl rfl)).2 ring_cycle
  obtain ⟨⟨t, first⟩, -⟩ := hruns 0 _ (.nil _)
  have run := (Run.nil _).snoc first
  obtain ⟨⟨u, second⟩, hlog⟩ := hruns 1 t run
  exact ⟨t, u, run, second, hlog⟩

end Mesh

end WhisperNet
