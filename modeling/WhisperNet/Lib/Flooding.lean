import WhisperNet.Lib.Diffusion
import WhisperNet.Lib.Worklist
import Mathlib.Combinatorics.SimpleGraph.Acyclic
import Mathlib.Tactic.Abel

/-!
# Flooding a graph

What comes along an edge goes on along all other edges of its end. Whether that comes to an end
depends on the graph:

* `terminates_of_acc`, `lasts_of_not_acc` — a diffusing computation comes to an end exactly if no
  token starts an endless chain of tokens, each left by the one before.
* `acc_iff_noCycle` — an edge starts an endless chain of edges exactly if there is a cycle.
-/

namespace Diffusion

open Relation Worklist

variable {α β : Type*} {react : Reaction α β} {s t : State α β}

/-- Handling `a` may leave `b`. -/
def Leaves (react : Reaction α β) (b a : α) : Prop := ∃ out, react a out ∧ b ∈ out.1

/-- Handling a token replaces it by tokens that it leaves. -/
theorem cutExpand_of_step (step : Step react s t) :
    CutExpand (Leaves react) (t.pending : Multiset α) s.pending := by
  cases step with
  | @handle before after a out log h =>
    refine ⟨out.1, a, fun b hb => ⟨out, h, hb⟩, ?_⟩
    simp only [← Multiset.coe_add, ← Multiset.cons_coe, ← Multiset.singleton_add]
    abel

/-- **Coming to an end.** -/
theorem terminates_of_acc [Std.Irrefl (Leaves react)]
    (h : ∀ a ∈ s.pending, Acc (Leaves react) a) : Terminates (Step react) s := by
  rw [terminates_iff_acc]
  have hacc : Acc (CutExpand (Leaves react)) (s.pending : Multiset α) :=
    acc_of_singleton fun a ha => (h a ha).cutExpand
  generalize hwork : (s.pending : Multiset α) = work at hacc
  clear h
  induction hacc generalizing s with
  | intro work _ ih =>
    subst hwork
    exact ⟨s, fun t step => ih _ (cutExpand_of_step step) rfl⟩

/-- A token that starts an endless chain is handled: it leaves one that does. -/
theorem step_not_acc {Token : α → Prop}
    (htoken : ∀ a out, Token a → react a out → ∀ b ∈ out.1, Token b)
    (hdet : ∀ a out out', Token a → react a out → react a out' → out = out')
    (hs : (∀ a ∈ s.pending, Token a) ∧ ∃ a ∈ s.pending, ¬ Acc (Leaves react) a)
    (step : Step react s t) :
    (∀ a ∈ t.pending, Token a) ∧ ∃ a ∈ t.pending, ¬ Acc (Leaves react) a := by
  cases step with
  | @handle before after a out log h =>
    obtain ⟨htokens, b, hb, hlasts⟩ := hs
    have hmem : ∀ c, c ∈ before ++ a :: after ↔ c = a ∨ c ∈ before ++ after := fun c => by
      simp only [List.mem_append, List.mem_cons]
      tauto
    refine ⟨fun c hc => ?_, ?_⟩
    · rcases List.mem_append.mp hc with hc | hc
      · exact htokens c ((hmem c).mpr (Or.inr hc))
      · exact htoken a out (htokens a ((hmem a).mpr (Or.inl rfl))) h c hc
    · rcases (hmem b).mp hb with rfl | hb
      · by_contra hnone
        refine hlasts ⟨b, fun c hc => ?_⟩
        obtain ⟨out', h', hmem'⟩ := hc
        obtain rfl := hdet b out out' (htokens b ((hmem b).mpr (Or.inl rfl))) h h'
        by_contra hc
        exact hnone ⟨c, List.mem_append_right _ hmem', hc⟩
      · exact ⟨b, List.mem_append_left _ hb, hlasts⟩

/-- **Going on for ever.** -/
theorem lasts_of_not_acc {Token : α → Prop}
    (htoken : ∀ a out, Token a → react a out → ∀ b ∈ out.1, Token b)
    (hdet : ∀ a out out', Token a → react a out → react a out' → out = out')
    (hs : (∀ a ∈ s.pending, Token a) ∧ ∃ a ∈ s.pending, ¬ Acc (Leaves react) a) {n : Nat}
    (run : Run (Step react) n s t) : ∃ a ∈ t.pending, Token a := by
  obtain ⟨htokens, a, ha, -⟩ := run.invariant hs fun _ _ => step_not_acc htoken hdet
  exact ⟨a, ha, htokens a ha⟩

/-- One entry in the log for each step. -/
theorem run_log_length {Token : α → Prop} (htokens : ∀ a ∈ s.pending, Token a)
    (htoken : ∀ a out, Token a → react a out → ∀ b ∈ out.1, Token b)
    (hone : ∀ a out, Token a → react a out → out.2.length = 1) {n : Nat}
    (run : Run (Step react) n s t) :
    (∀ a ∈ t.pending, Token a) ∧ t.log.length = s.log.length + n := by
  induction run with
  | nil => exact ⟨htokens, rfl⟩
  | snoc _ last ih =>
    obtain ⟨hpending, hlog⟩ := ih htokens
    cases last with
    | @handle before after a out log h =>
      have ha : Token a := hpending a (List.mem_append_right _ List.mem_cons_self)
      refine ⟨fun b hb => ?_, ?_⟩
      · rcases List.mem_append.mp hb with hb | hb
        · refine hpending b ?_
          rw [List.mem_append, List.mem_cons]
          exact (List.mem_append.mp hb).imp_right Or.inr
        · exact htoken a out ha h b hb
      · have hlog : log.length = _ := hlog
        rw [List.length_append, hlog, hone a out ha h, Nat.add_assoc]

end Diffusion

namespace Flooding

open SimpleGraph

variable {V : Type*} (G : SimpleGraph V)

/-- `e` is an edge on which goes on what has come along `d`. -/
def Follows (e d : V × V) : Prop := G.Adj d.1 d.2 ∧ e.1 = d.2 ∧ G.Adj e.1 e.2 ∧ e.2 ≠ d.1

instance : Std.Irrefl (Follows G) := ⟨fun _ h => h.1.ne h.2.1⟩

/-- No cycle can be reached from `o`. -/
def NoCycle (o : V) : Prop := ∀ v, G.Reachable o v → ∀ c : G.Walk v v, ¬ c.IsCycle

variable {G}

/-! ## No endless chain: no cycle -/

/-- If all edges away from `u` start finite chains only, so do those away from its neighbours. -/
theorem acc_neighbour {u v : V} (hadj : G.Adj u v)
    (h : ∀ w, G.Adj u w → Acc (Follows G) (u, w)) (w : V) (hw : G.Adj v w) :
    Acc (Follows G) (v, w) := by
  by_cases hback : w = u
  · subst hback
    refine ⟨_, fun e he => ?_⟩
    obtain ⟨x, y⟩ := e
    obtain ⟨-, rfl, hxy, -⟩ := he
    exact h y hxy
  · exact (h v hadj).inv ⟨hadj, rfl, hw, hback⟩

theorem acc_reachable {o v : V} (hreach : G.Reachable o v)
    (h : ∀ w, G.Adj o w → Acc (Follows G) (o, w)) (w : V) (hw : G.Adj v w) :
    Acc (Follows G) (v, w) := by
  obtain ⟨p⟩ := hreach
  induction p with
  | nil => exact h w hw
  | cons hadj _ ih => exact ih (acc_neighbour hadj h) hw

/-- Around a cycle, every edge is followed by one of the cycle. -/
theorem follows_cycle {v : V} {c : G.Walk v v} (hc : c.IsCycle) {d : G.Dart} (hd : d ∈ c.darts) :
    ∃ e ∈ c.darts, Follows G e.toProd d.toProd := by
  have hmem : d.snd ∈ c.support := c.dart_snd_mem_support_of_mem_darts hd
  classical
  -- The cycle, from the end of `d` on.
  have hrot := hc.rotate hmem
  have hdarts : (c.rotate _ hmem).darts ~r c.darts := c.rotate_darts _ hmem
  generalize c.rotate _ hmem = c' at hrot hdarts
  cases c' with
  | nil => exact absurd rfl hrot.ne_nil
  | @cons _ w _ hadj p =>
    have he : (⟨(d.snd, w), hadj⟩ : G.Dart) ∈ (Walk.cons hadj p).darts := List.mem_cons_self
    refine ⟨⟨(d.snd, w), hadj⟩, hdarts.mem_iff.mp he, d.adj, rfl, hadj, fun hw => ?_⟩
    have hw : w = d.fst := hw
    have hnodup : ((Walk.cons hadj p).darts.map Dart.edge).Nodup := hrot.edges_nodup
    have hedge : (⟨(d.snd, w), hadj⟩ : G.Dart).edge = d.edge := by
      rw [Dart.edge_mk, hw, Sym2.eq_swap]
      rfl
    have heq := List.inj_on_of_nodup_map hnodup he (hdarts.mem_iff.mpr hd) hedge
    exact d.snd_ne_fst (congrArg (fun e : G.Dart => e.fst) heq)

theorem noCycle_of_acc {o : V} (h : ∀ w, G.Adj o w → Acc (Follows G) (o, w)) : NoCycle G o := by
  intro v hreach c hc
  have hall : ∀ d : V × V, Acc (Follows G) d → ∀ e ∈ c.darts, e.toProd ≠ d := by
    intro d hd
    induction hd with
    | intro d _ ih =>
      rintro e he rfl
      obtain ⟨e', he', hfollows⟩ := follows_cycle hc he
      exact ih _ hfollows e' he' rfl
  cases c with
  | nil => exact hc.ne_nil rfl
  | @cons _ w _ hadj p =>
    exact hall (v, w) (acc_reachable hreach h w hadj) ⟨(v, w), hadj⟩ List.mem_cons_self rfl

/-! ## No cycle: no endless chain -/

/-- Where no cycle can be reached, what follows the last edge of a path does not come back to it. -/
theorem extends_path {o u v w : V} (hno : NoCycle G o) {p : G.Walk o u} {huv : G.Adj u v}
    (hp : (p.concat huv).IsPath) (hvw : G.Adj v w) (hne : w ≠ u) :
    ((p.concat huv).concat hvw).IsPath := by
  classical
  obtain ⟨hpath, hv⟩ := (Walk.concat_isPath_iff huv).mp hp
  refine hp.concat (fun hw => ?_) hvw
  rw [Walk.support_concat, List.mem_append, List.mem_singleton] at hw
  rcases hw with hw | rfl
  · -- Back to `w` along the path is a cycle.
    have hq : ((p.dropUntil w hw).concat huv).IsPath :=
      (hpath.dropUntil hw).concat (fun h => hv (p.support_dropUntil_subset_support hw h)) huv
    refine hno v ⟨p.concat huv⟩ (Walk.cons hvw ((p.dropUntil w hw).concat huv))
      ((Walk.cons_isCycle_iff _ _).mpr ⟨hq, fun hedge => ?_⟩)
    rw [Walk.edges_concat, List.concat_eq_append, List.mem_append, List.mem_singleton] at hedge
    rcases hedge with hedge | hedge
    · have hmem := (p.dropUntil w hw).fst_mem_support_of_mem_edges hedge
      exact hv (p.support_dropUntil_subset_support hw hmem)
    · rcases Sym2.eq_iff.mp hedge with ⟨h, -⟩ | ⟨-, h⟩
      · exact huv.ne h.symm
      · exact hne h
  · exact hvw.ne rfl

theorem acc_of_path [Finite V] {o : V} (hno : NoCycle G o) (left : Nat) {u v : V}
    {p : G.Walk o u} {huv : G.Adj u v} (hp : (p.concat huv).IsPath)
    (hleft : Nat.card V ≤ p.length + left) : Acc (Follows G) (u, v) := by
  have := Fintype.ofFinite V
  induction left generalizing u v with
  | zero =>
    have hlt := hp.length_lt
    rw [Walk.length_concat, ← Nat.card_eq_fintype_card] at hlt
    omega
  | succ left ih =>
    refine ⟨_, fun e he => ?_⟩
    obtain ⟨x, w⟩ := e
    obtain ⟨-, rfl, hvw, hne⟩ := he
    refine ih (extends_path hno hp hvw hne) ?_
    rw [Walk.length_concat]
    omega

/-- **Floods and cycles.** -/
theorem acc_iff_noCycle [Finite V] {o : V} :
    (∀ v, G.Adj o v → Acc (Follows G) (o, v)) ↔ NoCycle G o := by
  refine ⟨noCycle_of_acc, fun hno v hadj => ?_⟩
  have hp : (Walk.nil.concat hadj : G.Walk o v).IsPath :=
    Walk.IsPath.nil.concat (by simpa using hadj.ne') hadj
  exact acc_of_path hno (Nat.card V) hp (Nat.le_add_left _ _)

end Flooding
