import WhisperNet.Delivery

/-!
# Who else sees a unicast

Without a direct link to the destination, `routeData` falls back on `forward2all`, and that also
hands the data to the node it runs at. So a unicast reaches `deserializeMessage` nowhere but at its
destination only where no node ever has to fall back: the destination is the originator itself or
one of its neighbours.

* `keeps_log` — what has been deserialized stays deserialized.
* `delivers_only` — a frame on the last link is deserialized at its end.
* `isolated_iff` — exactly when nobody but the destination sees the frame.
-/

namespace WhisperNet

open Bin

namespace Overlay

open Mesh

variable {V : Type} (net : Overlay V)

/-- Nobody but `d` has been handed the frame. -/
def Isolated (d : V) (t : Diffusion.State (Packet V) (V × Bytes)) : Prop :=
  ∀ call ∈ t.log, call.1 = d

/-- All that is left of the frame is on its way to `d`, over the last link. -/
structure OnLastLink (data : Bytes) (d : V) (t : Diffusion.State (Packet V) (V × Bytes)) :
    Prop where
  pending : ∀ packet ∈ t.pending, net.Carries data packet ∧ packet.dst = d
  isolated : Isolated d t

section Steps

variable {net} {pf : Platform} {data : Bytes} {d : V}
  {s t : Diffusion.State (Packet V) (V × Bytes)}

/-- Nothing is taken out of the log. -/
theorem keeps_log {call : V × Bytes} (hs : call ∈ s.log)
    (step : Diffusion.Step (net.receives pf) s t) : call ∈ t.log := by
  obtain ⟨h⟩ := step
  exact List.mem_append_left _ hs

/-- At the destination the frame is deserialized and goes no further. -/
theorem delivers_only (hroute : net.RoutesTo pf data (net.addr d))
    (hs : net.OnLastLink data d s) (step : Diffusion.Step (net.receives pf) s t) :
    net.OnLastLink data d t := by
  obtain ⟨h⟩ := step
  rename_i before after packet out log
  obtain ⟨hcarries, hdst⟩ := hs.pending packet (by simp)
  have hout : out = ([], [(d, data)]) := by
    rw [receives_iff hroute hcarries, hdst, routeData_arrived, carryOut_deserialize] at h
    exact h
  subst hout
  constructor
  · intro p hp
    apply hs.pending p
    simp only [List.append_nil, List.mem_append] at hp
    rcases hp with hp | hp
    · simp [hp]
    · simp [hp]
  · intro call hcall
    rcases List.mem_append.mp hcall with hcall | hcall
    · exact hs.isolated call hcall
    · rw [List.mem_singleton.mp hcall]

end Steps

/-! ## At the originator -/

section Sent

variable {net} {pf : Platform} {clk : Clock} {origin d : V} {m : AnyMessage}

theorem sent_onLastLink (h : origin = d ∨ net.graph.Adj origin d) :
    net.OnLastLink (net.frame pf clk origin (net.addr d) m) d
      (net.sent pf clk origin (net.addr d) m) := by
  rw [sent_eq]
  rcases h with rfl | hadj
  · rw [routeData_arrived, carryOut_deserialize]
    exact ⟨fun p hp => absurd hp List.not_mem_nil, by simp [Isolated]⟩
  · rw [routeData_adjacent hadj, carryOut_send]
    refine ⟨fun p hp => ?_, by simp [Isolated]⟩
    rw [List.mem_singleton.mp hp]
    exact ⟨⟨hadj, rfl⟩, rfl⟩

/-- Without a direct link the originator deserializes its own frame. -/
theorem sent_to_itself (hne : origin ≠ d) (hadj : ¬ net.graph.Adj origin d) :
    (origin, net.frame pf clk origin (net.addr d) m) ∈
      (net.sent pf clk origin (net.addr d) m).log := by
  rw [sent_eq, routeData_distant hne hadj, forward2all_origin, carryOut_flood]
  exact List.mem_singleton_self _

end Sent

/-- **Isolation.** Whatever order the frames in flight are delivered in, at every moment nobody but
the destination has been handed the frame if and only if the originator is the destination or
linked to it. -/
theorem isolated_iff (pf : Platform) (clk : Clock) (origin d : V) (m : AnyMessage) (n : Nat)
    (t : Diffusion.State (Packet V) (V × Bytes))
    (run : Run (Diffusion.Step (net.receives pf)) n (net.sent pf clk origin (net.addr d) m) t) :
    Isolated d t ↔ origin = d ∨ net.graph.Adj origin d := by
  constructor
  · intro hisolated
    by_contra hfar
    obtain ⟨hne, hadj⟩ := not_or.mp hfar
    have hlogged := run.invariant (sent_to_itself hne hadj) fun _ _ => keeps_log
    exact hne (hisolated _ hlogged)
  · intro hnear
    have hroute := net.routesTo_frame pf clk origin (net.addr d) m
    have hlast := run.invariant (sent_onLastLink hnear) fun _ _ => delivers_only hroute
    exact hlast.isolated

/-! ## Three nodes in a line -/

/-- The links of three nodes in a line. -/
def lineLinks : Links (Fin 3) where
  peers v := if v = 1 then [0, 2] else [1]
  nodup := by decide
  symm := by decide
  irrefl := by decide

instance : DecidableRel lineLinks.graph.Adj := fun u v =>
  inferInstanceAs (Decidable (v ∈ lineLinks.peers u))

theorem lineLinks_isTree : lineLinks.graph.IsTree := by
  rw [SimpleGraph.isTree_iff_connected_and_card, Nat.card_eq_fintype_card,
    Nat.card_eq_fintype_card]
  refine ⟨(SimpleGraph.connected_iff _).mpr ⟨fun u v => ?_, ⟨0⟩⟩, by decide⟩
  have hmiddle : ∀ w, lineLinks.graph.Reachable w 1 := by
    intro w
    by_cases hw : w = 1
    · exact hw ▸ .rfl
    · exact SimpleGraph.Adj.reachable (by simp [Links.graph, lineLinks, hw])
  exact (hmiddle u).trans (hmiddle v).symm

/-- Three nodes, of which the one in the middle is linked to both others. -/
def line : Overlay (Fin 3) where
  toLinks := lineLinks
  addr v := .ipv4 (0x0a000001 + v.val.toUInt32)
  addr_injective := by decide
  addr_specified := by decide
  addr_remote := by decide
  isTree := lineLinks_isTree

/-- From one end of the line to the other: the sender deserializes its own message. -/
theorem line_not_isolated :
    ∃ n t, Run (Diffusion.Step (line.receives .littleEndian)) n
        (line.sent .littleEndian (.utc 0) 0 (line.addr 2) (.payload greeting)) t ∧
      ¬ Isolated (2 : Fin 3) t := by
  refine ⟨0, _, .nil _, fun hisolated => ?_⟩
  have hfar : ¬ line.graph.Adj 0 2 := (by decide : (2 : Fin 3) ∉ lineLinks.peers 0)
  have hself : ((0 : Fin 3), line.frame .littleEndian (.utc 0) 0 (line.addr 2) (.payload greeting))
      ∈ (line.sent .littleEndian (.utc 0) 0 (line.addr 2) (.payload greeting)).log :=
    sent_to_itself (by decide) hfar
  exact absurd (hisolated _ hself) (by decide)

/-- From the middle it goes to the one neighbour alone. -/
theorem line_neighbour_isolated :
    Isolated (2 : Fin 3)
        (line.sent .littleEndian (.utc 0) 1 (line.addr 2) (.payload greeting)) ↔
      (1 : Fin 3) = 2 ∨ line.graph.Adj 1 2 :=
  line.isolated_iff .littleEndian (.utc 0) 1 2 (.payload greeting) 0 _ (.nil _)

end Overlay

end WhisperNet
