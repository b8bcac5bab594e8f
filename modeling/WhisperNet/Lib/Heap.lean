import Mathlib.Tactic

/-!
# Binary heaps

The heap operations behind `std::priority_queue`, on a sequence in level order: the children of
position `i` are at `2 * i + 1` and `2 * i + 2`, and no element is before its parent. `push` puts an
element last and lifts it past every parent that is less; `pop` moves the last element to the front,
sinks it to a leaf along the greater children and lifts it from there.

`pushLifts` says which elements `push` compares with.

* `push_perm`, `pop_perm` — no element is lost or made up, whatever the comparison does.
* `push_front` — an element that is not compared with the front stays behind it.
* `IsHeap.push`, `IsHeap.pop` — heaps stay heaps under a strict weak order, also if the comparison
  only refines it.
* `IsHeap.greatest` — the front of a heap is not less than any element.
-/

universe u

namespace Heap

variable {α : Type u}

/-! ## Positions -/

/-- The parent of a position other than the front. -/
def parent (i : Nat) : Nat := (i - 1) / 2

theorem parent_lt {i : Nat} (h : 0 < i) : parent i < i := by
  rw [parent]
  omega

theorem parent_eq_iff {i j : Nat} (h : 0 < j) : parent j = i ↔ j = 2 * i + 1 ∨ j = 2 * i + 2 := by
  rw [parent]
  omega

/-- Two elements change places. -/
def swap (q : List α) (i j : Nat) : List α :=
  match q[i]?, q[j]? with
  | some x, some y => (q.set i y).set j x
  | _, _ => q

theorem swap_eq {q : List α} {i j : Nat} (hi : i < q.length) (hj : j < q.length) :
    swap q i j = (q.set i q[j]).set j q[i] := by
  rw [swap, List.getElem?_eq_getElem hi, List.getElem?_eq_getElem hj]

theorem swap_perm (q : List α) (i j : Nat) : (swap q i j).Perm q := by
  by_cases hi : i < q.length
  · by_cases hj : j < q.length
    · rw [swap_eq hi hj]
      exact List.set_set_perm hi hj
    · rw [swap, List.getElem?_eq_none (not_lt.mp hj)]
      cases q[i]? <;> exact List.Perm.refl q
  · rw [swap, List.getElem?_eq_none (not_lt.mp hi)]

@[simp] theorem length_swap (q : List α) (i j : Nat) : (swap q i j).length = q.length :=
  (swap_perm q i j).length_eq

theorem getElem?_swap {q : List α} {i j : Nat} (hi : i < q.length) (hj : j < q.length) (k : Nat) :
    (swap q i j)[k]? = if k = i then q[j]? else if k = j then q[i]? else q[k]? := by
  rw [swap_eq hi hj, List.getElem?_set, List.getElem?_set, List.length_set,
    List.getElem?_eq_getElem hi, List.getElem?_eq_getElem hj]
  grind

/-! ## The operations -/

section Operations

variable (comp : α → α → Bool)

/-- `comp(first + i, first + j)` -/
def before (q : List α) (i j : Nat) : Bool :=
  match q[i]?, q[j]? with
  | some x, some y => comp x y
  | _, _ => false

/-- `__push_heap`: lift the element at `i` past the parents that are less. -/
def siftUp : Nat → List α → Nat → List α
  | 0, q, _ => q
  | fuel + 1, q, i =>
    if 0 < i ∧ before comp q (parent i) i then
      siftUp fuel (swap q (parent i) i) (parent i)
    else q

/-- The positions of the elements it is compared with. -/
def lifts : Nat → List α → Nat → List Nat
  | 0, _, _ => []
  | fuel + 1, q, i =>
    if 0 < i then
      parent i :: if before comp q (parent i) i then
        lifts fuel (swap q (parent i) i) (parent i)
      else []
    else []

/-- `push_heap` after `push_back`. -/
def push (q : List α) (x : α) : List α := siftUp comp q.length (q ++ [x]) q.length

/-- The positions of the elements that a pushed element is compared with. -/
def pushLifts (q : List α) (x : α) : List Nat := lifts comp q.length (q ++ [x]) q.length

/-- The greater child, the second one on a tie. -/
def greaterChild (q : List α) (i : Nat) : Option Nat :=
  if 2 * i + 2 < q.length then
    some (if before comp q (2 * i + 2) (2 * i + 1) then 2 * i + 1 else 2 * i + 2)
  else if 2 * i + 1 < q.length then some (2 * i + 1)
  else none

/-- The first half of `__adjust_heap`: sink the element at `i` to a leaf, along the greater
children. -/
def siftDown : Nat → List α → Nat → List α × Nat
  | 0, q, i => (q, i)
  | fuel + 1, q, i =>
    match greaterChild comp q i with
    | none => (q, i)
    | some c => siftDown fuel (swap q i c) c

/-- `pop_heap` and `pop_back`. -/
def pop : List α → List α
  | [] => []
  | _ :: rest =>
    match rest.getLast? with
    | none => []
    | some last =>
      let sunk := siftDown comp rest.length (last :: rest.dropLast) 0
      siftUp comp rest.length sunk.1 sunk.2

end Operations

/-! ## Nothing is lost -/

section Perm

variable (comp : α → α → Bool)

theorem siftUp_perm (fuel : Nat) (q : List α) (i : Nat) : (siftUp comp fuel q i).Perm q := by
  induction fuel generalizing q i with
  | zero => exact List.Perm.refl q
  | succ fuel ih =>
    rw [siftUp]
    split
    · exact (ih _ _).trans (swap_perm q _ i)
    · exact List.Perm.refl q

theorem siftDown_perm (fuel : Nat) (q : List α) (i : Nat) : (siftDown comp fuel q i).1.Perm q := by
  induction fuel generalizing q i with
  | zero => exact List.Perm.refl q
  | succ fuel ih =>
    rw [siftDown]
    split
    · exact List.Perm.refl q
    · exact (ih _ _).trans (swap_perm q i _)

theorem push_perm (q : List α) (x : α) : (push comp q x).Perm (x :: q) :=
  (siftUp_perm comp _ _ _).trans List.perm_append_comm

/-- `pop` takes the front away. -/
theorem pop_perm (x : α) (rest : List α) : (pop comp (x :: rest)).Perm rest := by
  rw [pop]
  cases hlast : rest.getLast? with
  | none =>
    rw [List.getLast?_eq_none_iff] at hlast
    rw [hlast]
  | some last =>
    have hrest : rest.dropLast ++ [last] = rest := List.dropLast_append_getLast? last hlast
    have hsunk := siftDown_perm comp rest.length (last :: rest.dropLast) 0
    have hlast : (last :: rest.dropLast).Perm rest :=
      (List.perm_append_singleton last _).symm.trans (List.Perm.of_eq hrest)
    exact (siftUp_perm comp _ _ _).trans (hsunk.trans hlast)

theorem pop_subset (q : List α) : pop comp q ⊆ q := by
  cases q with
  | nil => exact List.Subset.refl []
  | cons x rest => exact fun _ h => List.mem_cons_of_mem x ((pop_perm comp x rest).mem_iff.mp h)

/-- What is left of a queue that has a front. -/
theorem perm_pop {queue rest : List α} {x : α} (h : queue = x :: rest) :
    (pop comp queue).Perm rest := by
  rw [h]
  exact pop_perm comp x rest

end Perm

/-! ## What is compared -/

section Lifts

variable {comp : α → α → Bool} {q : List α} {i : Nat}

theorem siftUp_front (comp : α → α → Bool) (fuel : Nat) (hi : i < q.length) (hpos : 0 < i)
    (h : 0 ∉ lifts comp fuel q i) : (siftUp comp fuel q i)[0]? = q[0]? := by
  induction fuel generalizing q i with
  | zero => rfl
  | succ fuel ih =>
    rw [lifts, if_pos hpos] at h
    have hparent := parent_lt hpos
    have hp : 0 < parent i := Nat.pos_of_ne_zero fun hzero => h (by simp [hzero])
    rw [siftUp]
    by_cases hlt : before comp q (parent i) i = true
    · rw [if_pos ⟨hpos, hlt⟩]
      rw [if_pos hlt] at h
      have hlen : parent i < (swap q (parent i) i).length := by
        rw [length_swap]
        exact hparent.trans hi
      rw [ih hlen hp fun hmem => h (List.mem_cons_of_mem _ hmem),
        getElem?_swap (hparent.trans hi) hi, if_neg hp.ne, if_neg hpos.ne]
    · rw [if_neg fun hstep => hlt hstep.2]

theorem push_front {x y : α} {rest : List α} (h : 0 ∉ pushLifts comp (y :: rest) x) :
    (push comp (y :: rest) x).head? = some y := by
  have hfront := siftUp_front comp _ (by simp) (Nat.succ_pos rest.length) h
  rw [List.head?_eq_getElem?]
  exact hfront

end Lifts

/-! ## Order -/

/-- `comp` is a strict weak order on the elements. -/
structure Orders (comp : α → α → Bool) (q : List α) : Prop where
  asymm : ∀ x ∈ q, ∀ y ∈ q, comp x y = true → comp y x = false
  split : ∀ x ∈ q, ∀ y ∈ q, ∀ z ∈ q, comp x z = true → comp x y = true ∨ comp y z = true

/-- What compares keys orders everything. -/
theorem Orders.of_key {κ : Type*} [LinearOrder κ] {comp : α → α → Bool} {q : List α} (key : α → κ)
    (h : ∀ x ∈ q, ∀ y ∈ q, comp x y = true ↔ key x < key y) : Orders comp q where
  asymm x hx y hy hxy := by
    rw [← Bool.not_eq_true, h y hy x hx]
    exact lt_asymm ((h x hx y hy).mp hxy)
  split x hx y hy z hz hxz := by
    rw [h x hx y hy, h y hy z hz]
    have hlt := (h x hx z hz).mp hxz
    by_cases hy : key x < key y
    · exact Or.inl hy
    · exact Or.inr ((not_lt.mp hy).trans_lt hlt)

theorem Orders.subset {comp : α → α → Bool} {q q' : List α} (h : Orders comp q)
    (hsub : ∀ x ∈ q', x ∈ q) : Orders comp q' where
  asymm x hx y hy := h.asymm x (hsub x hx) y (hsub y hy)
  split x hx y hy z hz := h.split x (hsub x hx) y (hsub y hy) z (hsub z hz)

theorem Orders.isStrictWeakOrder {comp : α → α → Bool} {q : List α} (h : Orders comp q) :
    IsStrictWeakOrder {x // x ∈ q} fun x y => comp x y = true where
  irrefl x hxx := by
    have hnot := h.asymm x x.2 x x.2 hxx
    rw [hxx] at hnot
    cases hnot
  trans x y z hxy hyz := by
    rcases h.split x x.2 z z.2 y y.2 hxy with hxz | hzy
    · exact hxz
    · rw [h.asymm y y.2 z z.2 hyz] at hzy
      cases hzy
  incomp_trans := by
    have hleft (x y z : {x // x ∈ q}) (hxy : ¬ comp x y = true) (hyz : ¬ comp y z = true) :
        ¬ comp x z = true := by
      intro hxz
      exact (h.split x x.2 y y.2 z z.2 hxz).elim hxy hyz
    intro x y z hxy hyz
    exact ⟨hleft x y z hxy.1 hyz.1, hleft z y x hyz.2 hxy.2⟩

/-- `comp` decides whatever the order `lt` decides, and the same way. -/
structure Refines (comp lt : α → α → Bool) (q : List α) : Prop extends Orders lt q where
  decides : ∀ x ∈ q, ∀ y ∈ q, lt x y = true → comp x y = true
  agrees : ∀ x ∈ q, ∀ y ∈ q, comp x y = true → lt y x = false

theorem Refines.subset {comp lt : α → α → Bool} {q q' : List α} (h : Refines comp lt q)
    (hsub : ∀ x ∈ q', x ∈ q) : Refines comp lt q' where
  toOrders := h.toOrders.subset hsub
  decides x hx y hy := h.decides x (hsub x hx) y (hsub y hy)
  agrees x hx y hy := h.agrees x (hsub x hx) y (hsub y hy)

theorem Refines.of_perm {comp lt : α → α → Bool} {q q' : List α} (h : Refines comp lt q)
    (hperm : q'.Perm q) : Refines comp lt q' :=
  h.subset fun _ hx => hperm.mem_iff.mp hx

/-- A strict weak order refines itself. -/
theorem Orders.refines {comp : α → α → Bool} {q : List α} (h : Orders comp q) :
    Refines comp comp q where
  toOrders := h
  decides _ _ _ _ hxy := hxy
  agrees := h.asymm

/-- No element is less than one of its children. -/
def IsHeap (comp : α → α → Bool) (q : List α) : Prop :=
  ∀ j, 0 < j → j < q.length → before comp q (parent j) j = false

section Order

variable {comp lt : α → α → Bool} {q : List α} {i j k : Nat}

theorem isHeap_nil : IsHeap comp [] := fun j _ hj => absurd hj (Nat.not_lt_zero j)

theorem before_eq (hi : i < q.length) (hj : j < q.length) :
    before comp q i j = comp q[i] q[j] := by
  rw [before, List.getElem?_eq_getElem hi, List.getElem?_eq_getElem hj]

theorem before_asymm (h : Orders comp q) (hi : i < q.length) (hj : j < q.length)
    (hij : before comp q i j = true) : before comp q j i = false := by
  rw [before_eq hi hj] at hij
  rw [before_eq hj hi]
  exact h.asymm _ (List.getElem_mem hi) _ (List.getElem_mem hj) hij

theorem before_split (h : Orders comp q) (hi : i < q.length) (hj : j < q.length)
    (hk : k < q.length) (hik : before comp q i k = true) :
    before comp q i j = true ∨ before comp q j k = true := by
  rw [before_eq hi hk] at hik
  rw [before_eq hi hj, before_eq hj hk]
  exact h.split _ (List.getElem_mem hi) _ (List.getElem_mem hj) _ (List.getElem_mem hk) hik

theorem Refines.before_false (h : Refines comp lt q) (hi : i < q.length) (hj : j < q.length)
    (hij : before comp q i j = false) : before lt q i j = false := by
  rw [before_eq hi hj] at hij ⊢
  rw [← Bool.not_eq_true] at hij ⊢
  exact fun hlt => hij (h.decides _ (List.getElem_mem hi) _ (List.getElem_mem hj) hlt)

theorem Refines.before_true (h : Refines comp lt q) (hi : i < q.length) (hj : j < q.length)
    (hij : before comp q i j = true) : before lt q j i = false := by
  rw [before_eq hi hj] at hij
  rw [before_eq hj hi]
  exact h.agrees _ (List.getElem_mem hi) _ (List.getElem_mem hj) hij

/-- Not being less is transitive. -/
theorem not_before_trans (h : Orders comp q) (hi : i < q.length) (hj : j < q.length)
    (hk : k < q.length) (hij : before comp q i j = false) (hjk : before comp q j k = false) :
    before comp q i k = false := by
  rw [← Bool.not_eq_true]
  intro hik
  rcases before_split h hi hj hk hik with hlt | hlt
  · rw [hij] at hlt
    cases hlt
  · rw [hjk] at hlt
    cases hlt

theorem before_self (h : Orders comp q) (hi : i < q.length) : before comp q i i = false := by
  cases hself : before comp q i i with
  | false => rfl
  | true => rw [← hself, before_asymm h hi hi hself]

/-- How a change of places changes a comparison. -/
theorem before_swap (hi : i < q.length) (hj : j < q.length) (a b : Nat) :
    before comp (swap q i j) a b =
      before comp q (if a = i then j else if a = j then i else a)
        (if b = i then j else if b = j then i else b) := by
  rw [before, before, getElem?_swap hi hj, getElem?_swap hi hj]
  have hpick (k : Nat) : (if k = i then q[j]? else if k = j then q[i]? else q[k]?) =
      q[if k = i then j else if k = j then i else k]? := by
    split
    · rfl
    · split <;> rfl
  rw [hpick, hpick]

/-- **The greatest element.** -/
theorem IsHeap.greatest (hq : IsHeap comp q) (h : Orders comp q) (hi : i < q.length) :
    before comp q 0 i = false := by
  induction i using Nat.strong_induction_on with
  | _ i ih =>
    by_cases hpos : 0 < i
    · have hparent := parent_lt hpos
      have hlen := hparent.trans hi
      exact not_before_trans h (by omega) hlen hi (ih _ hparent hlen) (hq i hpos hi)
    · have hzero : i = 0 := by omega
      rw [hzero]
      exact before_self h (by omega)

/-! ## Lifting -/

/-- A heap but for the element at `i`, which may be greater than its parent. -/
structure Rising (comp : α → α → Bool) (q : List α) (i : Nat) : Prop where
  inside : i < q.length
  others : ∀ j, 0 < j → j < q.length → j ≠ i → before comp q (parent j) j = false
  across : 0 < i → ∀ j, 0 < j → j < q.length → parent j = i → before comp q (parent i) j = false

theorem Rising.isHeap (hr : Rising comp q i) (hi : 0 < i → before comp q (parent i) i = false) :
    IsHeap comp q := by
  intro j hpos hj
  by_cases hji : j = i
  · rw [hji] at hpos ⊢
    exact hi hpos
  · exact hr.others j hpos hj hji

/-- One step up. -/
theorem Rising.lift (h : Orders comp q) (hr : Rising comp q i) (hpos : 0 < i)
    (hback : before comp q i (parent i) = false) :
    Rising comp (swap q (parent i) i) (parent i) := by
  have hi := hr.inside
  have hparent := parent_lt hpos
  have hp : parent i < q.length := hparent.trans hi
  constructor
  · rwa [length_swap]
  · intro j hj hlen hne
    rw [length_swap] at hlen
    rw [before_swap hp hi, if_neg hne]
    by_cases hji : j = i
    · rw [hji, if_pos rfl, if_pos rfl]
      exact hback
    · rw [if_neg hji]
      by_cases hpj : parent j = parent i
      · -- The sibling is not less than the old parent, which is less than the lifted element.
        have hsib := hr.others j hj hlen hji
        rw [hpj] at hsib
        rw [if_pos hpj]
        exact not_before_trans h hi hp hlen hback hsib
      · rw [if_neg hpj]
        by_cases hchild : parent j = i
        · rw [if_pos hchild]
          exact hr.across hpos j hj hlen hchild
        · rw [if_neg hchild]
          exact hr.others j hj hlen hji
  · intro hppos j hj hlen hpj
    rw [length_swap] at hlen
    have hgrand := parent_lt hppos
    have hup := hr.others (parent i) hppos hp (Nat.ne_of_lt hparent)
    have hjp : j ≠ parent i := by
      rintro rfl
      exact absurd (parent_lt hj) (by omega)
    rw [before_swap hp hi, if_neg (Nat.ne_of_lt hgrand), if_neg (by omega), if_neg hjp]
    by_cases hji : j = i
    · rw [if_pos hji]
      exact hup
    · rw [if_neg hji]
      have hsib := hr.others j hj hlen hji
      rw [hpj] at hsib
      exact not_before_trans h (hgrand.trans hp) hp hlen hup hsib

theorem siftUp_isHeap (fuel : Nat) (h : Refines comp lt q) (hr : Rising lt q i)
    (hfuel : i ≤ fuel) : IsHeap lt (siftUp comp fuel q i) := by
  induction fuel generalizing q i with
  | zero => exact hr.isHeap fun hpos => absurd hpos (by omega)
  | succ fuel ih =>
    rw [siftUp]
    split
    · next hstep =>
      have hparent := parent_lt hstep.1
      have hback := h.before_true (hparent.trans hr.inside) hr.inside hstep.2
      exact ih (h.of_perm (swap_perm q _ i)) (hr.lift h.toOrders hstep.1 hback) (by omega)
    · next hstop =>
      apply hr.isHeap
      intro hpos
      apply h.before_false ((parent_lt hpos).trans hr.inside) hr.inside
      rw [← Bool.not_eq_true]
      exact fun hlt => hstop ⟨hpos, hlt⟩

/-- **Insertion.** -/
theorem IsHeap.push {x : α} (hq : IsHeap lt q) (h : Refines comp lt (x :: q)) :
    IsHeap lt (push comp q x) := by
  have hlast : q.length < (q ++ [x]).length := by
    rw [List.length_append, List.length_singleton]
    exact Nat.lt_succ_self _
  apply siftUp_isHeap q.length (h.of_perm List.perm_append_comm) _ le_rfl
  refine ⟨hlast, fun j hpos hj hne => ?_, fun _ j hpos hj hchild => ?_⟩
  · rw [List.length_append, List.length_singleton] at hj
    have hjq : j < q.length := by omega
    have hold := hq j hpos hjq
    rwa [before, List.getElem?_append_left ((parent_lt hpos).trans hjq),
      List.getElem?_append_left hjq]
  · rw [List.length_append, List.length_singleton] at hj
    have hlt := parent_lt hpos
    omega

/-! ## Sinking -/

/-- A heap but for the element at `i`, which may be less than its children. -/
structure Sinking (comp : α → α → Bool) (q : List α) (i : Nat) : Prop where
  inside : i < q.length
  others : ∀ j, 0 < j → j < q.length → j ≠ i → parent j ≠ i → before comp q (parent j) j = false
  across : 0 < i → ∀ j, 0 < j → j < q.length → parent j = i → before comp q (parent i) j = false

theorem greaterChild_none (hc : greaterChild comp q i = none) (hpos : 0 < j) (hj : j < q.length) :
    parent j ≠ i := by
  intro hchild
  rw [parent_eq_iff hpos] at hchild
  rw [greaterChild] at hc
  grind

theorem greaterChild_some (h : Refines comp lt q) {c : Nat} (hc : greaterChild comp q i = some c) :
    0 < c ∧ parent c = i ∧ c < q.length ∧
      ∀ j, 0 < j → j < q.length → parent j = i → before lt q c j = false := by
  have hchild : (c = 2 * i + 1 ∨ c = 2 * i + 2) ∧ c < q.length := by
    rw [greaterChild] at hc
    grind
  have hpos : 0 < c := by omega
  refine ⟨hpos, (parent_eq_iff hpos).mpr hchild.1, hchild.2, fun j hj hlen hji => ?_⟩
  rw [parent_eq_iff hj] at hji
  by_cases hcj : c = j
  · rw [hcj]
    exact before_self h.toOrders hlen
  · -- There are two children, and the other one was not chosen.
    have hboth : 2 * i + 2 < q.length := by omega
    rw [greaterChild, if_pos hboth, Option.some_inj] at hc
    by_cases hsecond : before comp q (2 * i + 2) (2 * i + 1) = true
    · rw [if_pos hsecond] at hc
      have hj2 : j = 2 * i + 2 := by omega
      rw [← hc, hj2]
      exact h.before_true hboth (by omega) hsecond
    · rw [if_neg hsecond] at hc
      have hj1 : j = 2 * i + 1 := by omega
      rw [← hc, hj1]
      exact h.before_false hboth (by omega) (Bool.eq_false_iff.mpr hsecond)

/-- One step down. -/
theorem Sinking.sink (h : Refines comp lt q) (hs : Sinking lt q i) {c : Nat}
    (hc : greaterChild comp q i = some c) : Sinking lt (swap q i c) c := by
  obtain ⟨hcpos, hci, hclen, hgreater⟩ := greaterChild_some h hc
  have hic : i < c := hci ▸ parent_lt hcpos
  have hi := hs.inside
  constructor
  · rwa [length_swap]
  · intro j hj hlen hjc hpc
    rw [length_swap] at hlen
    rw [before_swap hi hclen, if_neg hpc, if_neg hjc]
    by_cases hji : j = i
    · subst hji
      have hpj : parent j ≠ j := Nat.ne_of_lt (parent_lt hj)
      rw [if_neg hpj, if_pos rfl]
      exact hs.across hj c hcpos hclen hci
    · rw [if_neg hji]
      by_cases hpi : parent j = i
      · rw [if_pos hpi]
        exact hgreater j hj hlen hpi
      · rw [if_neg hpi]
        exact hs.others j hj hlen hji hpi
  · intro _ j hj hlen hpj
    rw [length_swap] at hlen
    have hcj : c < j := hpj ▸ parent_lt hj
    rw [before_swap hi hclen, hci, if_pos rfl, if_neg (by omega), if_neg (by omega)]
    have hold := hs.others j hj hlen (by omega) (by omega)
    rwa [hpj] at hold

theorem siftDown_rising (fuel : Nat) (h : Refines comp lt q) (hs : Sinking lt q i)
    (hfuel : q.length ≤ i + fuel) :
    Rising lt (siftDown comp fuel q i).1 (siftDown comp fuel q i).2 := by
  induction fuel generalizing q i with
  | zero => exact absurd hs.inside (by omega)
  | succ fuel ih =>
    rw [siftDown]
    cases hc : greaterChild comp q i with
    | none =>
      have hleaf : ∀ j, 0 < j → j < q.length → parent j ≠ i := fun j => greaterChild_none hc
      exact ⟨hs.inside, fun j hj hlen hji => hs.others j hj hlen hji (hleaf j hj hlen),
        fun _ j hj hlen hji => absurd hji (hleaf j hj hlen)⟩
    | some c =>
      obtain ⟨hcpos, hci, -, -⟩ := greaterChild_some h hc
      have hic : i < c := hci ▸ parent_lt hcpos
      apply ih (h.of_perm (swap_perm q i c)) (hs.sink h hc)
      rw [length_swap]
      omega

/-- **Removal.** -/
theorem IsHeap.pop (hq : IsHeap lt q) (h : Refines comp lt q) : IsHeap lt (pop comp q) := by
  cases q with
  | nil => exact hq
  | cons x rest =>
    rw [Heap.pop]
    cases hlast : rest.getLast? with
    | none => exact isHeap_nil
    | some last =>
      have hrest : rest.dropLast ++ [last] = rest := List.dropLast_append_getLast? last hlast
      have hperm : (last :: rest.dropLast).Perm rest :=
        (List.perm_append_singleton last _).symm.trans (List.Perm.of_eq hrest)
      have horder : Refines comp lt (last :: rest.dropLast) :=
        h.subset fun a ha => List.mem_cons_of_mem x (hperm.mem_iff.mp ha)
      have hlen := hperm.length_eq
      have hsinking : Sinking lt (last :: rest.dropLast) 0 := by
        refine ⟨Nat.succ_pos _, fun j hj hlen hne hp => ?_, fun hpos => absurd hpos (by omega)⟩
        have hget (k : Nat) (hk : 0 < k) (hklen : k < (last :: rest.dropLast).length) :
            (last :: rest.dropLast)[k]? = (x :: rest)[k]? := by
          obtain ⟨k, rfl⟩ := Nat.exists_eq_succ_of_ne_zero hk.ne'
          rw [List.getElem?_cons_succ, List.getElem?_cons_succ]
          conv_rhs => rw [← hrest]
          rw [List.getElem?_append_left (Nat.lt_of_succ_lt_succ hklen)]
        have hold := hq j hj (by simp at hlen ⊢; omega)
        have hplen := (parent_lt hj).trans hlen
        rwa [before, hget _ (Nat.pos_of_ne_zero hp) hplen, hget j hj hlen]
      have hrising := siftDown_rising rest.length horder hsinking (by omega)
      have hsunk := siftDown_perm comp rest.length (last :: rest.dropLast) 0
      apply siftUp_isHeap rest.length (horder.of_perm hsunk) hrising
      have hinside := hrising.inside
      rw [hsunk.length_eq, hlen] at hinside
      exact hinside.le

end Order

end Heap
