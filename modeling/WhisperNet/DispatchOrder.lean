import WhisperNet.Deferral
import WhisperNet.Convergence

/-!
# The order messages are dispatched in

`std::priority_queue` puts the greatest element at the front. `PrioComp` makes a message of a higher
priority value the lesser one, so the least value is at the front; but of two file messages of one
value it makes the *older* one the lesser, so the newest is.

Messages without timestamps are compared with file messages as well, and nothing can be said of what
comes of that. `timed` tells the priorities at which none is ever queued.

* `rank_heap` — the queue is a heap under the order that `PrioComp` settles.
* `front_least`, `front_newest` — what is at the front.
* `oldest_first_iff` — when no older rival is left behind.
-/

namespace WhisperNet

open Bin Effect MessageManager

namespace Managers

/-! ## Rivals -/

/-- Locks and unlocks change who may write a file, the others what is in it. -/
inductive Rivalry
  | locks
  | changes

def rivalry : MessageType → Option Rivalry
  | .lock | .unlock => some .locks
  | .contentChange | .deleteFile => some .changes
  | _ => none

/-- Messages that are to be handled in the order of their timestamps. -/
def Rivals (a b : MessageType) : Prop := ∃ r, rivalry a = some r ∧ rivalry b = some r

theorem Rivals.trans {a b c : MessageType} (hab : Rivals a b) (hbc : Rivals b c) : Rivals a c := by
  obtain ⟨r, ha, hb⟩ := hab
  obtain ⟨r', hb', hc⟩ := hbc
  obtain rfl : r = r' := Option.some_inj.mp (hb.symm.trans hb')
  exact ⟨r, ha, hc⟩

/-- The type of the message in an entry. -/
def typeOf (e : Prio) : MessageType := e.2.elim .invalid fun m => m.base.type

/-- No rival of the message at the front, which is dispatched next, has a smaller timestamp. -/
def OldestFirst (queue : List Prio) : Prop :=
  ∀ front rest, queue = front :: rest → ∀ other ∈ rest, Rivals (typeOf front) (typeOf other) →
    stamp front ≤ stamp other

/-! ## The order -/

section Order

variable {timed : Nat → Bool} {undefined : Prio → Prio → Bool} {queue : List Prio} {x y : Prio}

/-- A file message: one that has a timestamp, and that `PrioComp` takes for one. -/
structure IsFile (e : Prio) : Prop where
  mask : ∀ m ∈ e.2, m.hasFileType = true
  part : ∃ m ∈ e.2, m.filePart.isSome = true

/-- Only file messages are queued at these priorities. -/
def FilesAt (timed : Nat → Bool) (queue : List Prio) : Prop :=
  ∀ e ∈ queue, timed e.1 = true → IsFile e

/-- What `PrioComp` goes by. -/
def rank (timed : Nat → Bool) (e : Prio) : Lex (Int × Int) :=
  toLex (-(e.1 : Int), if timed e.1 then stamp e else 0)

def rankLt (timed : Nat → Bool) (a b : Prio) : Bool := decide (rank timed a < rank timed b)

theorem rank_lt_iff : rank timed x < rank timed y ↔
    y.1 < x.1 ∨ x.1 = y.1 ∧ timed x.1 = true ∧ stamp x < stamp y := by
  rw [rank, rank, Prod.Lex.toLex_lt_toLex]
  by_cases hxy : x.1 = y.1
  · cases htimed : timed y.1 <;> simp [hxy, htimed]
  · simp only [hxy, false_and, or_false]
    omega

theorem prioComp_of_ne (h : x.1 ≠ y.1) : PrioComp undefined x y = decide (y.1 < x.1) := by
  rw [PrioComp, if_neg h]

theorem prioComp_of_files (h : x.1 = y.1) (hx : IsFile x) (hy : IsFile y) :
    PrioComp undefined x y = decide (stamp x < stamp y) := by
  obtain ⟨p, msgX⟩ := x
  obtain ⟨q, msgY⟩ := y
  obtain ⟨m, hm, hpart⟩ := hx.part
  obtain ⟨m', hm', hpart'⟩ := hy.part
  obtain rfl : msgX = some m := hm
  obtain rfl : msgY = some m' := hm'
  obtain rfl : p = q := h
  obtain ⟨a, ha⟩ := Option.isSome_iff_exists.mp hpart
  obtain ⟨b, hb⟩ := Option.isSome_iff_exists.mp hpart'
  rw [prioComp_files undefined (hx.mask m rfl) (hy.mask m' rfl) ha hb]
  simp [stamp, ha, hb]

theorem orders_rank (timed : Nat → Bool) (queue : List Prio) :
    Heap.Orders (rankLt timed) queue :=
  .of_key (rank timed) fun _ _ _ _ => decide_eq_true_iff

/-- `PrioComp` decides as the ranks do. -/
theorem refines_rank (h : FilesAt timed queue) :
    Heap.Refines (PrioComp undefined) (rankLt timed) queue where
  toOrders := orders_rank timed queue
  decides x hx y hy hlt := by
    rw [rankLt, decide_eq_true_iff, rank_lt_iff] at hlt
    rcases hlt with hlt | ⟨heq, htimed, hlt⟩
    · rw [prioComp_of_ne (Nat.ne_of_gt hlt), decide_eq_true_iff]
      exact hlt
    · rw [prioComp_of_files heq (h x hx htimed) (h y hy (heq ▸ htimed)), decide_eq_true_iff]
      exact hlt
  agrees x hx y hy hcomp := by
    rw [rankLt, decide_eq_false_iff_not, rank_lt_iff]
    by_cases heq : x.1 = y.1
    · intro hback
      rcases hback with hlt | ⟨-, htimed, hlt⟩
      · omega
      · rw [prioComp_of_files heq (h x hx (heq ▸ htimed)) (h y hy htimed),
          decide_eq_true_iff] at hcomp
        exact lt_asymm hcomp hlt
    · rw [prioComp_of_ne heq, decide_eq_true_iff] at hcomp
      intro hback
      rcases hback with hlt | ⟨hsame, -⟩
      · omega
      · exact heq hsame.symm

end Order

/-! ## Every run -/

section Runs

variable {timed : Nat → Bool} {s t : Managers} {l : Circumstances × Event}
  {ls : List (Circumstances × Event)}

/-- The queue is a heap under the ranks, as long as only file messages are queued where they are
looked for. -/
def RankHeap (timed : Nat → Bool) (s : Managers) : Prop :=
  FilesAt timed s.queue → Heap.IsHeap (rankLt timed) s.queue

theorem FilesAt.of_push {undefined : Prio → Prio → Bool} {queue : List Prio} {e : Prio}
    (h : FilesAt timed (Heap.push (PrioComp undefined) queue e)) : FilesAt timed (e :: queue) :=
  fun x hx => h x ((Heap.push_perm (PrioComp undefined) queue e).mem_iff.mpr hx)

theorem rankHeap_push {undefined : Prio → Prio → Bool} {e : Prio} (hs : RankHeap timed s)
    (h : FilesAt timed (Heap.push (PrioComp undefined) s.queue e)) :
    Heap.IsHeap (rankLt timed) (Heap.push (PrioComp undefined) s.queue e) := by
  have hfiles := h.of_push
  have hqueue : FilesAt timed s.queue := fun x hx => hfiles x (List.mem_cons_of_mem e hx)
  exact (hs hqueue).push (refines_rank hfiles)

theorem sparedByHandlers_rankHeap (timed : Nat → Bool) : SparedByHandlers (RankHeap timed) where
  peers _ _ h := h
  written _ _ h := h
  emplaced _ _ _ _ hs := rankHeap_push hs
  remembered _ _ h := h
  files _ _ h := h

theorem keeps_rankHeap (env : Circumstances) (m : AnyMessage) :
    Keeps (RankHeap timed) (process env (some m)) :=
  keeps_dispatched (sparedByHandlers_rankHeap timed) (fun _ _ h => h) (fun _ _ h => h)
    (fun _ h => h) m

/-- One event, after which only file messages are queued at these priorities. -/
def TimedStep (timed : Nat → Bool) (s : Managers) (l : Circumstances × Event) (t : Managers) :
    Prop :=
  Step s l t ∧ FilesAt timed t.queue

/-- **One event.** -/
theorem step_rankHeap (hfiles : FilesAt timed s.queue) (hs : RankHeap timed s) (h : Step s l t) :
    RankHeap timed t := by
  obtain ⟨env, event⟩ := l
  cases event with
  | arrive priority m =>
    have hrun : emplace env priority m s = .ok () t := h
    exact ((sparedByHandlers_rankHeap timed).emplaced env priority m).ok hrun hs
  | call =>
    rcases call_cases h with ⟨-, rfl⟩ | ⟨priority, m, rest, u, hq, hcall⟩
    · exact hs
    · have hpopped : RankHeap timed (popped env s) := fun _ =>
        (hs hfiles).pop (refines_rank hfiles)
      rcases hcall with ⟨hprocess, rfl⟩ | ⟨again, hprocess, -, rfl⟩
      · have hu : RankHeap timed u := (keeps_rankHeap env m).ok hprocess hpopped
        exact hu
      · have hu : RankHeap timed u := (keeps_rankHeap env m).ok hprocess hpopped
        exact rankHeap_push hu

theorem run_rankHeap (run : Trace (TimedStep timed) s ls t) (hfiles : FilesAt timed s.queue)
    (hs : RankHeap timed s) : FilesAt timed t.queue ∧ RankHeap timed t := by
  induction run with
  | nil => exact ⟨hfiles, hs⟩
  | cons first _ ih => exact ih first.2 (step_rankHeap hfiles hs first.1)

end Runs

/-! ## The front -/

section Front

variable {timed : Nat → Bool} {queue rest : List Prio} {front e : Prio}

theorem front_rank (h : Heap.IsHeap (rankLt timed) (front :: rest)) (he : e ∈ front :: rest) :
    rank timed e ≤ rank timed front := by
  obtain ⟨i, hi, rfl⟩ := List.mem_iff_getElem.mp he
  have hgreatest := h.greatest (orders_rank timed _) hi
  rw [Heap.before_eq (Nat.zero_lt_of_lt hi) hi, List.getElem_cons_zero, rankLt,
    decide_eq_false_iff_not] at hgreatest
  exact not_lt.mp hgreatest

/-- Nothing has a lower priority value than the front. -/
theorem front_least (h : Heap.IsHeap (rankLt timed) (front :: rest)) (he : e ∈ front :: rest) :
    front.1 ≤ e.1 := by
  by_contra hlt
  exact absurd (front_rank h he) (not_le.mpr (rank_lt_iff.mpr (Or.inl (not_le.mp hlt))))

/-- Where only file messages are queued, none of its priority is newer than the front. -/
theorem front_newest (h : Heap.IsHeap (rankLt timed) (front :: rest)) (he : e ∈ front :: rest)
    (heq : front.1 = e.1) (htimed : timed front.1 = true) : stamp e ≤ stamp front := by
  by_contra hlt
  have hrank := rank_lt_iff.mpr (Or.inr ⟨heq, htimed, not_le.mp hlt⟩)
  exact absurd (front_rank h he) (not_le.mpr hrank)

end Front

/-! ## The condition -/

/-- An entry that may be dispatched next: nothing has a lower priority value, and where only file
messages are queued, nothing of its priority is newer. -/
structure Foremost (timed : Nat → Bool) (queue : List Prio) (e : Prio) : Prop where
  mem : e ∈ queue
  least : ∀ f ∈ queue, e.1 ≤ f.1
  newest : timed e.1 = true → ∀ f ∈ queue, f.1 = e.1 → stamp f ≤ stamp e

/-- No rival of such an entry is older. -/
def InOrder (timed : Nat → Bool) (queue : List Prio) : Prop :=
  ∀ e, Foremost timed queue e → ∀ f ∈ queue, Rivals (typeOf e) (typeOf f) → stamp e ≤ stamp f

/-- Any two such entries are at a priority where only file messages are queued, and are rivals. -/
def Untied (timed : Nat → Bool) (queue : List Prio) : Prop :=
  ∀ e f, Foremost timed queue e → Foremost timed queue f →
    timed e.1 = true ∧ Rivals (typeOf e) (typeOf f)

theorem foremost_front {timed : Nat → Bool} {front : Prio} {rest : List Prio}
    (h : Heap.IsHeap (rankLt timed) (front :: rest)) :
    Foremost timed (front :: rest) front where
  mem := List.mem_cons_self
  least _ hf := front_least h hf
  newest htimed _ hf heq := front_newest h hf heq.symm htimed

section Condition

variable {timed : Nat → Bool} {queue : List Prio}

theorem oldestFirst_of_inOrder (h : Heap.IsHeap (rankLt timed) queue)
    (horder : InOrder timed queue) : OldestFirst queue := by
  intro front rest hq other hother hrivals
  subst hq
  exact horder front (foremost_front h) other (List.mem_cons_of_mem front hother) hrivals

theorem inOrder_of_oldestFirst (h : Heap.IsHeap (rankLt timed) queue) (huntied : Untied timed queue)
    (holdest : OldestFirst queue) : InOrder timed queue := by
  intro e he f hf hrivals
  cases hq : queue with
  | nil =>
    rw [hq] at hf
    cases hf
  | cons front rest =>
    subst hq
    have hfront := foremost_front h
    obtain ⟨htimed, hkin⟩ := huntied front e hfront he
    have hpriority : front.1 = e.1 :=
      le_antisymm (hfront.least e he.mem) (he.least front hfront.mem)
    have hnewest : stamp e ≤ stamp front := hfront.newest htimed e he.mem hpriority.symm
    rcases List.mem_cons.mp hf with rfl | hf
    · exact hnewest
    · have hfirst := holdest front rest rfl f hf (hkin.trans hrivals)
      exact hnewest.trans hfirst

end Condition

/-- **Oldest first.** In every state that any events lead to from an empty queue: if nothing that
may be dispatched next has an older rival, the front has none. Unless ties and messages without
timestamps leave open which one is at the front, that is the only way. -/
theorem oldest_first_iff (timed : Nat → Bool) (s t : Managers)
    (ls : List (Circumstances × Event)) (hs : s.queue = [])
    (run : Trace (TimedStep timed) s ls t) :
    (InOrder timed t.queue → OldestFirst t.queue) ∧
      (Untied timed t.queue → (OldestFirst t.queue ↔ InOrder timed t.queue)) := by
  have hfiles : FilesAt timed s.queue := by
    rw [hs]
    exact fun e he => absurd he List.not_mem_nil
  have hheap : RankHeap timed s := by
    intro _
    rw [hs]
    exact Heap.isHeap_nil
  obtain ⟨htfiles, htheap⟩ := run_rankHeap run hfiles hheap
  have hq := htheap htfiles
  refine ⟨oldestFirst_of_inOrder hq, fun huntied => ⟨?_, oldestFirst_of_inOrder hq⟩⟩
  exact inOrder_of_oldestFirst hq huntied

/-- A lock on `docs/a`, with a timestamp of whole seconds. -/
def lockDocs (seconds : TimePoint) : FileMessage where
  type := .lock
  receiverNode := .ipv6Unspecified
  originatorNode := .ipv4 0x0a000001
  messageHash := 0
  targetFile := .ofElements FileSystem.docsA
  timestamp := 1000000000 * seconds

/-- What the node has in its queue when these locks have arrived. -/
def lockedAt (times : List TimePoint) : Managers :=
  times.foldl (fun s seconds =>
    final (perform readerCircumstances (.arrive lockPriority (.file (lockDocs seconds))) s))
    joinedDocs

theorem lockedAt_two : Trace Step joinedDocs
    [(readerCircumstances, .arrive lockPriority (.file (lockDocs 1))),
      (readerCircumstances, .arrive lockPriority (.file (lockDocs 2)))] (lockedAt [1, 2]) :=
  .cons rfl (.cons rfl (.nil _))

/-- The newer of two locks is dispatched first. -/
theorem newest_first : ¬ ∀ (s t : Managers) (ls : List (Circumstances × Event)), s.queue = [] →
    Trace Step s ls t → OldestFirst t.queue := by
  intro holdest
  have hfront := holdest joinedDocs (lockedAt [1, 2]) _ rfl lockedAt_two
    (lockPriority, some (.file (lockDocs 2))) [(lockPriority, some (.file (lockDocs 1)))] rfl
    (lockPriority, some (.file (lockDocs 1))) (List.mem_singleton_self _) ⟨.locks, rfl, rfl⟩
  exact absurd hfront (by decide)

/-- Two locks of one time. -/
theorem lockedAt_same : OldestFirst (lockedAt [1, 1]).queue ∧
    (OldestFirst (lockedAt [1, 1]).queue ↔ InOrder (· == 4) (lockedAt [1, 1]).queue) := by
  have hfile : IsFile (lockPriority, some (.file (lockDocs 1))) := by
    constructor
    · intro m hm
      obtain rfl := Option.mem_some.mp hm
      decide
    · exact ⟨_, rfl, rfl⟩
  have hone : FilesAt (· == 4) (lockedAt [1]).queue := by
    intro e he _
    obtain rfl := List.mem_singleton.mp he
    exact hfile
  have hentries : ∀ e ∈ (lockedAt [1, 1]).queue, e = (lockPriority, some (.file (lockDocs 1))) := by
    intro e he
    rcases List.mem_cons.mp he with rfl | he
    · rfl
    · exact List.mem_singleton.mp he
  have htwo : FilesAt (· == 4) (lockedAt [1, 1]).queue := by
    intro e he _
    rw [hentries e he]
    exact hfile
  have hrun : Trace (TimedStep (· == 4)) joinedDocs
      [(readerCircumstances, .arrive lockPriority (.file (lockDocs 1))),
        (readerCircumstances, .arrive lockPriority (.file (lockDocs 1)))] (lockedAt [1, 1]) :=
    .cons ⟨rfl, hone⟩ (.cons ⟨rfl, htwo⟩ (.nil _))
  have hfirst := oldest_first_iff (· == 4) joinedDocs (lockedAt [1, 1]) _ rfl hrun
  refine ⟨hfirst.1 fun e he f hf _ => ?_, hfirst.2 fun e f he hf => ?_⟩
  · rw [hentries e he.mem, hentries f hf]
  · rw [hentries e he.mem, hentries f hf.mem]
    exact ⟨rfl, .locks, rfl, rfl⟩

end Managers

end WhisperNet
