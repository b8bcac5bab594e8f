import Mathlib.Combinatorics.SimpleGraph.Acyclic
import Mathlib.Algebra.Order.BigOperators.Group.List

/-!
# Which side of a tree edge a vertex is on

An edge of a tree splits it in two. `side G u v y` counts `y` when it is on `v`'s side of the edge
between `u` and `v`. What comes to `v` from `u` and goes on along all other edges of `v` meets every
vertex of `v`'s side exactly once:

* `sum_side` — a vertex is `v`, or beyond exactly one edge of `v`.
* `sum_side_onward` — a vertex on `v`'s side is `v`, or beyond exactly one other edge of `v`.
* `sum_sideSize_onward` — `v`'s side is `v` and what is beyond its other edges.
-/

namespace TreeFlood

open SimpleGraph

variable {V : Type*} {G : SimpleGraph V}

/-- `1` when `y` is on `v`'s side of the edge from `u` to `v`. -/
noncomputable def side (G : SimpleGraph V) (u v y : V) : Nat :=
  if G.dist u y = G.dist v y + 1 then 1 else 0

/-- How many vertices are on `v`'s side of the edge from `u` to `v`. -/
noncomputable def sideSize [Fintype V] (G : SimpleGraph V) (u v : V) : Nat := ∑ y, side G u v y

theorem side_of_closer {u v y : V} (h : G.dist u y = G.dist v y + 1) : side G u v y = 1 := if_pos h

theorem side_of_not_closer {u v y : V} (h : G.dist u y ≠ G.dist v y + 1) : side G u v y = 0 :=
  if_neg h

/-- The end of an edge is on its own side. -/
theorem side_end {u v : V} (h : G.Adj u v) : side G u v v = 1 := by
  refine side_of_closer ?_
  rw [dist_self, zero_add]
  exact dist_eq_one_iff_adj.mpr h

/-- Every vertex is on one side of an edge. -/
theorem side_add_side (hG : G.IsTree) {u v : V} (h : G.Adj u v) (y : V) :
    side G u v y + side G v u y = 1 := by
  rw [side, side, dist_comm (u := u), dist_comm (u := v)]
  have hdiff := hG.dist_eq_dist_add_one_of_adj y h
  split <;> split <;> omega

/-! ## The edges of one vertex -/

/-- One edge of `v` leads towards any other vertex. -/
theorem exists_closer (hG : G.IsTree) {v y : V} (h : v ≠ y) :
    ∃ w, G.Adj v w ∧ G.dist v y = G.dist w y + 1 := by
  obtain ⟨p, hp⟩ := hG.connected.exists_walk_length_eq_dist v y
  cases p with
  | nil => exact absurd rfl h
  | @cons _ w _ hadj q =>
    refine ⟨w, hadj, ?_⟩
    have hq := dist_le q
    rw [Walk.length_cons] at hp
    have hdiff := hG.dist_eq_dist_add_one_of_adj y hadj
    rw [dist_comm (u := y), dist_comm (u := y)] at hdiff
    omega

/-- No other edge does. -/
theorem closer_unique (hG : G.IsTree) {v w w' y : V} (hw : G.Adj v w) (hw' : G.Adj v w')
    (h : G.dist v y = G.dist w y + 1) (h' : G.dist v y = G.dist w' y + 1) : w = w' := by
  obtain ⟨p, hp⟩ := hG.connected.exists_walk_length_eq_dist w y
  obtain ⟨q, hq⟩ := hG.connected.exists_walk_length_eq_dist w' y
  -- Both walks are shortest, hence paths, and there is one path only.
  have hpath : (Walk.cons hw p).IsPath :=
    Walk.isPath_of_length_eq_dist _ (by rw [Walk.length_cons, hp, h])
  have hpath' : (Walk.cons hw' q).IsPath :=
    Walk.isPath_of_length_eq_dist _ (by rw [Walk.length_cons, hq, h'])
  have heq := (hG.isAcyclic.subsingleton_path v y).elim ⟨_, hpath⟩ ⟨_, hpath'⟩
  have hsnd := congrArg (fun r : G.Path v y => r.1.snd) heq
  simpa using hsnd

section Edges

variable (hG : G.IsTree) {v : V} {nbrs : List V} (hnodup : nbrs.Nodup)
  (hnbrs : ∀ w, w ∈ nbrs ↔ G.Adj v w)
include hG hnodup hnbrs

/-- **A vertex is `v`, or beyond exactly one edge of `v`.** -/
theorem sum_side [DecidableEq V] (y : V) :
    (nbrs.map fun w => side G v w y).sum + (if v = y then 1 else 0) = 1 := by
  by_cases h : v = y
  · subst h
    rw [if_pos rfl, List.sum_eq_zero, zero_add]
    intro n hn
    obtain ⟨w, -, rfl⟩ := List.mem_map.mp hn
    refine side_of_not_closer ?_
    rw [dist_self]
    omega
  · obtain ⟨w, hadj, hcloser⟩ := exists_closer hG h
    have hw : w ∈ nbrs := (hnbrs w).mpr hadj
    rw [if_neg h, ← List.sum_map_erase (fun w => side G v w y) hw, side_of_closer hcloser]
    simp only [Nat.add_zero, Nat.add_eq_left]
    refine List.sum_eq_zero ?_
    intro n hn
    obtain ⟨w', hw', rfl⟩ := List.mem_map.mp hn
    rw [hnodup.mem_erase_iff] at hw'
    refine side_of_not_closer fun hcloser' => hw'.1 ?_
    exact closer_unique hG ((hnbrs w').mp hw'.2) hadj hcloser' hcloser

/-- **A vertex on `v`'s side is `v`, or beyond exactly one other edge of `v`.** -/
theorem sum_side_onward [DecidableEq V] {u : V} (hu : G.Adj u v) (y : V) :
    ((nbrs.filter (· != u)).map fun w => side G v w y).sum + (if v = y then 1 else 0) =
      side G u v y := by
  have hall := sum_side hG hnodup hnbrs y
  rw [← List.sum_map_erase (fun w => side G v w y) ((hnbrs u).mpr hu.symm),
    hnodup.erase_eq_filter] at hall
  have hsides := side_add_side hG hu y
  omega

/-- **`v`'s side is `v` and what is beyond its other edges.** -/
theorem sum_sideSize_onward [Fintype V] [DecidableEq V] {u : V} (hu : G.Adj u v) :
    ((nbrs.filter (· != u)).map fun w => sideSize G v w).sum + 1 = sideSize G u v := by
  have hswap : ∀ l : List V, (l.map fun w => sideSize G v w).sum =
      ∑ y, (l.map fun w => side G v w y).sum := by
    intro l
    induction l with
    | nil => simp
    | cons w l ih =>
      simp only [List.map_cons, List.sum_cons, ih, Finset.sum_add_distrib]
      rfl
  have hself : ∑ y, (if v = y then 1 else 0) = 1 := by simp
  rw [hswap, ← hself, ← Finset.sum_add_distrib, sideSize]
  exact Finset.sum_congr rfl fun y _ => sum_side_onward hG hnodup hnbrs hu y

end Edges

end TreeFlood
