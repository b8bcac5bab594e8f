import WhisperNet.DispatchOrder
import WhisperNet.FileHash
import WhisperNet.RoutingHeader

/-!
# The order of the queue

`std::priority_queue` asks its comparator to be a strict weak order. `PrioComp` takes two messages
of one priority for file messages if their types have a bit in common with the mask, which only the
type of a disconnect has not, and subtracts their timestamps. What it then reads of a message that
was not constructed as a file message is undefined; so is a difference that does not fit.

* `step_arising`, `run_arising` — how the entries of the queue came there, whatever the threads do.
* `lawful_iff` — the comparator is an order, and reads what there is, if and only if there are only
  file messages and disconnects, and their timestamps are not too far apart.
-/

namespace WhisperNet

open Bin MessageManager PeerManager

namespace Managers

/-! ## The comparator -/

/-- `PrioComp` reads the timestamps of both messages. -/
def ReadsTimestamps (a b : Prio) : Prop :=
  a.1 = b.1 ∧ ∃ x y, a.2 = some x ∧ b.2 = some y ∧ x.hasFileType = true ∧ y.hasFileType = true

/-- The message was constructed as a `FileMessage` or a subclass of it. -/
def HasTimestamp (e : Prio) : Prop := ∃ m ∈ e.2, m.filePart.isSome = true

instance (e : Prio) : Decidable (HasTimestamp e) :=
  inferInstanceAs (Decidable (∃ m ∈ e.2, m.filePart.isSome = true))

/-- The difference of the timestamps does not fit in the 64 bits of a duration. -/
def Overflows (a b : Prio) : Prop :=
  a.1 = b.1 ∧ HasTimestamp a ∧ HasTimestamp b ∧
    ¬ (-2 ^ 63 ≤ stamp a - stamp b ∧ stamp a - stamp b < 2 ^ 63)

instance (a b : Prio) : Decidable (Overflows a b) :=
  inferInstanceAs (Decidable (a.1 = b.1 ∧ HasTimestamp a ∧ HasTimestamp b ∧
    ¬ (-2 ^ 63 ≤ stamp a - stamp b ∧ stamp a - stamp b < 2 ^ 63)))

/-- What the comparison of two entries may come out as: what `PrioComp` says, unless it is of a
difference that does not fit. -/
def Compares (undefined comp : Prio → Prio → Bool) : Prop :=
  ∀ a b, ¬ Overflows a b → comp a b = PrioComp undefined a b

/-! ## How entries come into the queue -/

/-- A message that joins the queue. -/
inductive Fresh : Nat → AnyMessage → Prop
  /-- `deserializeMessage` has accepted a frame. -/
  | received {pf : Platform} {clk : Clock} {data : Bytes} {priority : Nat} {m : AnyMessage}
      (h : deserializeMessage pf clk data = .enqueued priority m) : Fresh priority m
  /-- The accept thread asks for the files to be sent. -/
  | accepted {m : Message} (h : m.type = .initialSyncRequest) :
      Fresh disconnectPriority (.message m)
  /-- `Peer::threadFunction` has lost its link. -/
  | linkLost {m : Message} (h : m.type = .linkLost) : Fresh disconnectPriority (.message m)

/-- An entry that may be in the queue: of a message that joined it, or has been put back. -/
inductive Arises : Nat → AnyMessage → Prop
  | fresh {priority : Nat} {m : AnyMessage} (h : Fresh priority m) : Arises priority m
  | requeued {priority again : Nat} {m : AnyMessage} (h : Arises priority m)
      (hagain : requeuePriority m.base.type = some again) : Arises again m

/-- A step by any thread, which emplaces what joins the queue. -/
def ArisingStep (undefined : Prio → Prio → Bool) (s : QueueState) (op : QueueOp) (t : QueueState) :
    Prop :=
  (∀ priority m, op = .emplace priority m → Fresh priority m) ∧ s.step undefined op = some t

/-- The entries that hold a message. -/
def entries (queue : List Prio) : List Prio := queue.filter fun e => e.2.isSome

theorem mem_entries {queue : List Prio} {e : Prio} :
    e ∈ entries queue ↔ e ∈ queue ∧ ∃ m, e.2 = some m := by
  rw [entries, List.mem_filter, Option.isSome_iff_exists]

/-- Every message in the queue has come there, and so has the one that the main thread holds. -/
structure Arisen (s : QueueState) : Prop where
  queue : ∀ priority m, (priority, some m) ∈ s.queue → Arises priority m
  held : ∀ m ∈ s.stage.held, ∃ priority, Arises priority m

section Steps

variable {undefined : Prio → Prio → Bool} {s t : QueueState} {op : QueueOp} {ops : List QueueOp}

theorem Arisen.emplace {priority : Nat} {m : AnyMessage} (hs : Arisen s) (h : Arises priority m) :
    Arisen (s.emplace undefined priority m) where
  queue p m' hmem := by
    rcases List.mem_cons.mp ((Heap.push_perm _ _ _).mem_iff.mp hmem) with hnew | hold
    · obtain ⟨rfl, hm⟩ := Prod.mk.inj hnew
      rwa [Option.some_inj.mp hm]
    · exact hs.queue p m' hold
  held := hs.held

/-- What a step does to the messages: one joins, none does, or the one that is held is put back. -/
theorem step_messages (h : s.step undefined op = some t) :
    (∃ priority m, op = .emplace priority m ∧ t = s.emplace undefined priority m) ∨
    ((∀ priority m, (priority, some m) ∈ t.queue → (priority, some m) ∈ s.queue) ∧
      ∀ m ∈ t.stage.held, m ∈ s.stage.held ∨ ∃ priority, (priority, some m) ∈ s.queue) ∨
    ∃ m priority dispatched, m ∈ s.stage.held ∧ requeuePriority m.base.type = some priority ∧
      t = { s with stage := .waiting, dispatched }.emplace undefined priority m := by
  cases op with
  | emplace priority m => exact Or.inl ⟨priority, m, rfl, (Option.some_inj.mp h).symm⟩
  | empty =>
    refine Or.inr (Or.inl ?_)
    cases hs : s.stage with
    | waiting =>
      rw [QueueState.step, hs] at h
      obtain rfl := Option.some_inj.mp h
      refine ⟨fun _ _ hmem => hmem, fun m hm => ?_⟩
      dsimp only at hm
      split at hm <;> cases hm
    | _ =>
      rw [QueueState.step, hs] at h
      cases h
  | top =>
    refine Or.inr (Or.inl ?_)
    cases hs : s.stage with
    | nonEmpty =>
      cases hq : s.queue with
      | nil =>
        rw [QueueState.step, hs, hq] at h
        cases h
      | cons front rest =>
        rw [QueueState.step, hs, hq] at h
        obtain rfl := Option.some_inj.mp h
        refine ⟨fun priority m hmem => ?_, fun m hm => Or.inr ⟨front.1, ?_⟩⟩
        · rcases List.mem_cons.mp hmem with hnull | hmem
          · cases hnull
          · exact List.mem_cons_of_mem front hmem
        · obtain ⟨priority, msgPtr⟩ := front
          obtain rfl := Option.mem_toList.mp hm
          exact List.mem_cons_self
    | _ =>
      rw [QueueState.step, hs] at h
      cases h
  | pop =>
    refine Or.inr (Or.inl ?_)
    cases hs : s.stage with
    | moved msgPtr =>
      rw [QueueState.step, hs] at h
      obtain rfl := Option.some_inj.mp h
      refine ⟨fun priority m hmem => ?_, fun m hm => Or.inl hm⟩
      cases hq : s.queue with
      | nil =>
        rw [hq] at hmem
        cases hmem
      | cons front rest =>
        rw [hq] at hmem
        exact List.mem_cons_of_mem front ((Heap.pop_perm _ front rest).mem_iff.mp hmem)
    | _ =>
      rw [QueueState.step, hs] at h
      cases h
  | dispatch processed =>
    cases hs : s.stage with
    | popped msgPtr =>
      cases msgPtr with
      | none =>
        rw [QueueState.step, hs] at h
        cases h
      | some m =>
        rw [QueueState.step, hs] at h
        cases processed with
        | true =>
          obtain rfl := Option.some_inj.mp h
          exact Or.inr (Or.inl ⟨fun _ _ hmem => hmem, fun _ hm => absurd hm List.not_mem_nil⟩)
        | false =>
          obtain ⟨priority, hpriority, rfl⟩ := Option.map_eq_some_iff.mp h
          exact Or.inr (Or.inr ⟨m, priority, _, List.mem_singleton_self m, hpriority, rfl⟩)
    | _ =>
      rw [QueueState.step, hs] at h
      cases h

/-- **One step.** -/
theorem step_arising (hs : Arisen s) (h : ArisingStep undefined s op t) : Arisen t := by
  obtain ⟨hfresh, hstep⟩ := h
  rcases step_messages hstep with ⟨priority, m, rfl, rfl⟩ | ⟨hqueue, hheld⟩ |
    ⟨m, priority, dispatched, hm, hagain, rfl⟩
  · exact hs.emplace (.fresh (hfresh priority m rfl))
  · refine ⟨fun priority m hmem => hs.queue priority m (hqueue priority m hmem), fun m hm => ?_⟩
    rcases hheld m hm with hm | ⟨priority, hmem⟩
    · exact hs.held m hm
    · exact ⟨priority, hs.queue priority m hmem⟩
  · obtain ⟨before, harises⟩ := hs.held m hm
    have hreturned : Arisen { s with stage := .waiting, dispatched } :=
      ⟨hs.queue, fun _ hm => absurd hm List.not_mem_nil⟩
    exact hreturned.emplace (harises.requeued hagain)

/-- **Every run.** -/
theorem run_arising (run : Trace (ArisingStep undefined) s ops t) (hs : Arisen s) : Arisen t := by
  induction run with
  | nil => exact hs
  | cons first _ ih => exact ih (step_arising hs first)

end Steps

/-! ## Where they are put -/

/-- The priority of a message that joins the queue. -/
def freshPriority : MessageType → Nat
  | .initialSyncRequest | .linkLost => disconnectPriority
  | t => wirePriority t

/-- The message is of the class of its type, and at one of the two priorities of its type. -/
structure Placed (priority : Nat) (m : AnyMessage) : Prop where
  typed : Typed m
  priority : priority = freshPriority m.base.type ∨ requeuePriority m.base.type = some priority

theorem typed_of_wireTyped {m : AnyMessage} (h : m.WireTyped) :
    Typed m ∧ freshPriority m.base.type = wirePriority m.base.type := by
  have hother {t : MessageType} (htype : m.base.type = t) (ht : freshPriority t = wirePriority t) :
      freshPriority m.base.type = wirePriority m.base.type := by rw [htype, ht]
  cases m with
  | message m => exact ⟨Or.inl h, hother h rfl⟩
  | payload m => exact ⟨h, hother h rfl⟩
  | resendRequest m => exact ⟨h, hother h rfl⟩
  | file m => exact ⟨h, h.elim (hother · rfl) fun h => h.elim (hother · rfl) (hother · rfl)⟩
  | fileContent m => exact ⟨h, hother h rfl⟩
  | fileInitialSync m => exact ⟨h, hother h rfl⟩
  | connect m => exact ⟨h, hother h rfl⟩

theorem typed_of_fresh {priority : Nat} {m : AnyMessage} (h : Fresh priority m) :
    Typed m ∧ priority = freshPriority m.base.type := by
  cases h with
  | received h =>
    obtain ⟨hwire, rfl, -⟩ := enqueued_typed h
    obtain ⟨htyped, hpriority⟩ := typed_of_wireTyped hwire
    exact ⟨htyped, hpriority.symm⟩
  | @accepted m h =>
    have htype : (AnyMessage.message m).base.type = .initialSyncRequest := h
    exact ⟨Or.inr (Or.inl h), congrArg freshPriority htype.symm⟩
  | @linkLost m h =>
    have htype : (AnyMessage.message m).base.type = .linkLost := h
    exact ⟨Or.inr (Or.inr h), congrArg freshPriority htype.symm⟩

theorem placed_of_arises {priority : Nat} {m : AnyMessage} (h : Arises priority m) :
    Placed priority m := by
  induction h with
  | fresh h => exact ⟨(typed_of_fresh h).1, Or.inl (typed_of_fresh h).2⟩
  | requeued h hagain ih => exact ⟨ih.typed, Or.inr hagain⟩

theorem Placed.priority_mem {priority : Nat} {m : AnyMessage} {t : MessageType}
    (h : Placed priority m) (htype : m.base.type = t) :
    priority = freshPriority t ∨ priority ∈ requeuePriority t := by
  rw [← htype]
  exact h.priority

/-- What `PrioComp` makes of a message goes by its type. -/
theorem Placed.cases {priority : Nat} {m : AnyMessage} (h : Placed priority m) :
    (m.filePart.isSome = true ∧ m.hasFileType = true ∧ 4 ≤ priority) ∨
    (m.filePart = none ∧ m.base.type = .disconnect ∧ m.hasFileType = false ∧ priority < 4) ∨
    m.filePart = none ∧ m.base.type ≠ .disconnect ∧ m.hasFileType = true := by
  have hmask {t : MessageType} (htype : m.base.type = t) :
      m.hasFileType = (t.toByte &&& MessageType.fileTypes != 0) := by
    rw [AnyMessage.hasFileType, htype]
  have hfile {t : MessageType} (hpart : m.filePart.isSome = true) (htype : m.base.type = t)
      (ht : (t.toByte &&& MessageType.fileTypes != 0) = true) (hfresh : 4 ≤ freshPriority t)
      (hagain : ∀ p ∈ requeuePriority t, 4 ≤ p) :
      m.filePart.isSome = true ∧ m.hasFileType = true ∧ 4 ≤ priority := by
    refine ⟨hpart, (hmask htype).trans ht, ?_⟩
    rcases h.priority_mem htype with rfl | hp
    · exact hfresh
    · exact hagain priority hp
  have hother {t : MessageType} (hpart : m.filePart = none) (htype : m.base.type = t)
      (ht : (t.toByte &&& MessageType.fileTypes != 0) = true) (hne : t ≠ .disconnect) :
      m.filePart = none ∧ m.base.type ≠ .disconnect ∧ m.hasFileType = true :=
    ⟨hpart, htype ▸ hne, (hmask htype).trans ht⟩
  have htyped := h.typed
  cases m with
  | message m =>
    rcases htyped with htype | htype | htype
    · refine Or.inr (Or.inl ⟨rfl, htype, (hmask htype).trans (by decide), ?_⟩)
      rcases h.priority_mem htype with rfl | hp
      · decide
      · rw [← Option.mem_some.mp hp]
        decide
    · exact Or.inr (Or.inr (hother rfl htype (by decide) nofun))
    · exact Or.inr (Or.inr (hother rfl htype (by decide) nofun))
  | payload m => exact Or.inr (Or.inr (hother rfl htyped (by decide) nofun))
  | resendRequest m => exact Or.inr (Or.inr (hother rfl htyped (by decide) nofun))
  | connect m => exact Or.inr (Or.inr (hother rfl htyped (by decide) nofun))
  | file m =>
    rcases htyped with htype | htype | htype
    · exact Or.inl (hfile rfl htype (by decide) (by decide) (by decide))
    · exact Or.inl (hfile rfl htype (by decide) (by decide) (by decide))
    · exact Or.inl (hfile rfl htype (by decide) (by decide) (by decide))
  | fileContent m => exact Or.inl (hfile rfl htyped (by decide) (by decide) (by decide))
  | fileInitialSync m => exact Or.inl (hfile rfl htyped (by decide) (by decide) (by decide))

/-! ## When it is an order -/

/-- The comparator is a strict weak order on the entries, whatever comes of what is undefined, and
reads no timestamps of messages that have none. -/
structure Lawful (queue : List Prio) : Prop where
  order : ∀ undefined comp, Compares undefined comp →
    IsStrictWeakOrder {e // e ∈ queue} fun a b => comp a b = true
  reads : ∀ a ∈ queue, ∀ b ∈ queue, ReadsTimestamps a b → HasTimestamp a ∧ HasTimestamp b

/-- There are only file messages and disconnects, and the timestamps compared are close enough. -/
structure Comparable (queue : List Prio) : Prop where
  files : ∀ e ∈ queue, HasTimestamp e ∨ typeOf e = .disconnect
  close : ∀ a ∈ queue, ∀ b ∈ queue, ¬ Overflows a b

section Order

variable {queue : List Prio} {undefined comp : Prio → Prio → Bool} {a b : Prio}

/-- Every entry holds a message that is where its type belongs. -/
def AllPlaced (queue : List Prio) : Prop := ∀ e ∈ queue, ∃ m, e.2 = some m ∧ Placed e.1 m

/-- File messages are at the priorities from 4 on, and there is nothing else there. -/
theorem Comparable.entry (h : Comparable queue) (hplaced : AllPlaced queue) {e : Prio}
    (he : e ∈ queue) : IsFile e ∧ 4 ≤ e.1 ∨
      (∃ m, e.2 = some m ∧ m.hasFileType = false) ∧ e.1 < 4 := by
  obtain ⟨m, hm, hplace⟩ := hplaced e he
  rcases hplace.cases with ⟨hpart, hmask, hpriority⟩ | ⟨-, -, hmask, hpriority⟩ |
    ⟨hpart, htype, -⟩
  · refine Or.inl ⟨⟨fun m' hm' => ?_, m, hm, hpart⟩, hpriority⟩
    rw [Option.mem_unique hm' hm]
    exact hmask
  · exact Or.inr ⟨⟨m, hm, hmask⟩, hpriority⟩
  · rcases h.files e he with ⟨m', hm', hpart'⟩ | htype'
    · rw [Option.mem_unique hm' hm, hpart] at hpart'
      cases hpart'
    · rw [typeOf, hm] at htype'
      exact absurd htype' htype

/-- Disconnects of one priority are not told apart. -/
theorem prioComp_disconnects {x y : AnyMessage} (heq : a.1 = b.1) (hx : a.2 = some x)
    (hy : b.2 = some y) (hmask : x.hasFileType = false) : PrioComp undefined a b = false := by
  obtain ⟨p, msgX⟩ := a
  obtain ⟨q, msgY⟩ := b
  obtain rfl : p = q := heq
  obtain rfl : msgX = some x := hx
  obtain rfl : msgY = some y := hy
  simp [PrioComp, hmask]

theorem Comparable.orders (h : Comparable queue) (hplaced : AllPlaced queue)
    (hcomp : Compares undefined comp) : Heap.Orders comp queue := by
  refine .of_key (rank fun priority => decide (4 ≤ priority)) fun a ha b hb => ?_
  rw [hcomp a b (h.close a ha b hb), rank_lt_iff, decide_eq_true_iff]
  by_cases heq : a.1 = b.1
  · rcases h.entry hplaced ha with ⟨hafile, hap⟩ | ⟨⟨x, hx, hmask⟩, hap⟩
    · rcases h.entry hplaced hb with ⟨hbfile, -⟩ | ⟨-, hbp⟩
      · rw [prioComp_of_files heq hafile hbfile, decide_eq_true_iff]
        simp [heq, heq ▸ hap]
      · omega
    · obtain ⟨y, hy, -⟩ := hplaced b hb
      rw [prioComp_disconnects heq hx hy hmask]
      simp [heq, heq ▸ hap]
  · rw [prioComp_of_ne heq, decide_eq_true_iff]
    simp [heq]

theorem Comparable.lawful (h : Comparable queue) (hplaced : AllPlaced queue) : Lawful queue where
  order _ _ hcomp := (h.orders hplaced hcomp).isStrictWeakOrder
  reads a ha b hb hreads := by
    have hfile {e : Prio} (he : e ∈ queue) {m : AnyMessage} (hm : e.2 = some m)
        (hmask : m.hasFileType = true) : HasTimestamp e := by
      rcases h.entry hplaced he with ⟨hfile, -⟩ | ⟨⟨m', hm', hmask'⟩, -⟩
      · exact hfile.part
      · rw [Option.some_inj.mp (hm'.symm.trans hm), hmask] at hmask'
        cases hmask'
    obtain ⟨-, x, y, hx, hy, hmaskx, hmasky⟩ := hreads
    exact ⟨hfile ha hx hmaskx, hfile hb hy hmasky⟩

/-- The comparator where everything undefined comes out true. -/
def allBefore (a b : Prio) : Bool := Overflows a b || PrioComp (fun _ _ => true) a b

theorem allBefore_compares : Compares (fun _ _ => true) allBefore := by
  intro a b h
  rw [allBefore, decide_eq_false h, Bool.false_or]

theorem allBefore_far (h : Overflows a b) : allBefore a b = true := by
  rw [allBefore, decide_eq_true h, Bool.true_or]

/-- There two messages too far apart are each before the other. -/
theorem overflows_swap (h : Overflows a b) (hb : IsFile b) (ha : IsFile a) :
    allBefore b a = true := by
  by_cases hswap : Overflows b a
  · exact allBefore_far hswap
  · rw [allBefore_compares b a hswap, prioComp_of_files h.1.symm hb ha, decide_eq_true_iff]
    obtain ⟨heq, hafile, hbfile, hfar⟩ := h
    have hclose : -2 ^ 63 ≤ stamp b - stamp a ∧ stamp b - stamp a < 2 ^ 63 := by
      by_contra hnot
      exact hswap ⟨heq.symm, hbfile, hafile, hnot⟩
    omega

theorem Lawful.comparable (h : Lawful queue) (hplaced : AllPlaced queue) : Comparable queue where
  files e he := by
    obtain ⟨m, hm, hplace⟩ := hplaced e he
    rcases hplace.cases with ⟨hpart, -⟩ | ⟨-, htype, -⟩ | ⟨-, -, hmask⟩
    · exact Or.inl ⟨m, hm, hpart⟩
    · exact Or.inr (by rw [typeOf, hm]; exact htype)
    · exact Or.inl (h.reads e he e he ⟨rfl, m, m, hm, hm, hmask, hmask⟩).1
  close a ha b hb hfar := by
    have hfile {e : Prio} (he : e ∈ queue) (hstamp : HasTimestamp e) : IsFile e := by
      obtain ⟨m, hm, hpart⟩ := hstamp
      obtain ⟨m', hm', hplace⟩ := hplaced e he
      obtain rfl := Option.mem_unique hm hm'
      refine ⟨fun m' hm' => ?_, m, hm, hpart⟩
      rw [Option.mem_unique hm' hm]
      rcases hplace.cases with ⟨-, hmask, -⟩ | ⟨hnone, -⟩ | ⟨hnone, -⟩
      · exact hmask
      · rw [hnone] at hpart
        cases hpart
      · rw [hnone] at hpart
        cases hpart
    have horder := h.order _ _ allBefore_compares
    have hab := allBefore_far hfar
    have hba := overflows_swap hfar (hfile hb hfar.2.2.1) (hfile ha hfar.2.1)
    exact horder.irrefl ⟨a, ha⟩ (horder.trans ⟨a, ha⟩ ⟨b, hb⟩ ⟨a, ha⟩ hab hba)

end Order

/-- **The order of the queue.** In every state that any steps of the threads lead to, the comparator
is a strict weak order on the entries and reads no timestamps that there are not, if and only if
every message is a file message or a disconnect, and no two that are compared are too far apart. -/
theorem lawful_iff (undefined : Prio → Prio → Bool) (ops : List QueueOp) (s : QueueState)
    (run : Trace (ArisingStep undefined) {} ops s) :
    Lawful (entries s.queue) ↔ Comparable (entries s.queue) := by
  have harisen : Arisen s := run_arising run
    ⟨fun _ _ hmem => absurd hmem List.not_mem_nil, fun _ hm => absurd hm List.not_mem_nil⟩
  have hplaced : AllPlaced (entries s.queue) := by
    intro e he
    obtain ⟨hmem, m, hm⟩ := mem_entries.mp he
    exact ⟨m, hm, placed_of_arises (harisen.queue e.1 m (hm ▸ hmem))⟩
  exact ⟨fun h => h.comparable hplaced, fun h => h.lawful hplaced⟩

/-! ## Some entries -/

/-- What the accept thread leaves in the queue for a node that has connected. -/
def requestFor (ip : IpAddress) : AnyMessage := .message {
  type := .initialSyncRequest
  receiverNode := .ipv6Unspecified
  originatorNode := ip
  messageHash := 0 }

/-- Two nodes have connected. -/
def twoConnected : QueueState :=
  [IpAddress.ipv4 0x0a000002, .ipv4 0x0a000003].foldl (fun s ip =>
    s.emplace (fun _ _ => false) disconnectPriority (requestFor ip)) {}

theorem twoConnected_run : Trace (ArisingStep fun _ _ => false) {}
    [.emplace disconnectPriority (requestFor (.ipv4 0x0a000002)),
      .emplace disconnectPriority (requestFor (.ipv4 0x0a000003))] twoConnected := by
  refine .cons ⟨fun priority m hop => ?_, rfl⟩ (.cons ⟨fun priority m hop => ?_, rfl⟩ (.nil _))
  · obtain ⟨rfl, rfl⟩ := QueueOp.emplace.inj hop
    exact .accepted rfl
  · obtain ⟨rfl, rfl⟩ := QueueOp.emplace.inj hop
    exact .accepted rfl

/-- Both requests are read for timestamps. -/
theorem requests_misread : ¬ ∀ (undefined : Prio → Prio → Bool) (ops : List QueueOp)
    (s : QueueState), Trace (ArisingStep undefined) {} ops s → Lawful (entries s.queue) := by
  intro h
  have hlawful := h _ _ _ twoConnected_run
  have hreads := hlawful.reads (disconnectPriority, some (requestFor (.ipv4 0x0a000002)))
    (by decide) (disconnectPriority, some (requestFor (.ipv4 0x0a000003))) (by decide)
    ⟨rfl, _, _, rfl, rfl, rfl, rfl⟩
  revert hreads
  decide

/-- The unlock that arrives a second and a half after the epoch. -/
def lateUnlock : AnyMessage :=
  (PeerManager.stamp .littleEndian (.utc 600000000) (.ipv4 0x0a000002) .ipv6Loopback
    (.file (unlockOf 1500000000))).received

theorem lateUnlock_fresh : Fresh lockPriority lateUnlock := by
  have haccepted : deserializeMessage .littleEndian (.utc 0) (frame .littleEndian (.utc 600000000)
      (.ipv4 0x0a000002) .ipv6Loopback (.file (unlockOf 1500000000))) =
      .enqueued lockPriority lateUnlock := by
    rw [deserializeMessage_file (m := .file (unlockOf 1500000000)) _ _ _ _ _ (Or.inr (Or.inl rfl))
      (unlockOf_fits 1500000000) rfl, if_pos (by decide)]
    rfl
  exact .received haccepted

/-- The next unlock, a second later. -/
def laterUnlock : AnyMessage :=
  (PeerManager.stamp .littleEndian (.utc 600000000) (.ipv4 0x0a000002) .ipv6Loopback
    (.file (unlockOf 2500000000))).received

theorem laterUnlock_fresh : Fresh lockPriority laterUnlock := by
  have haccepted : deserializeMessage .littleEndian (.utc 0) (frame .littleEndian (.utc 600000000)
      (.ipv4 0x0a000002) .ipv6Loopback (.file (unlockOf 2500000000))) =
      .enqueued lockPriority laterUnlock := by
    rw [deserializeMessage_file (m := .file (unlockOf 2500000000)) _ _ _ _ _ (Or.inr (Or.inl rfl))
      (unlockOf_fits 2500000000) rfl, if_pos (by decide)]
    rfl
  exact .received haccepted

/-- Another node has left meanwhile. -/
def lateGoodbye : AnyMessage :=
  (PeerManager.stamp .littleEndian (.utc 0) (.ipv4 0x0a000001) .ipv6Unspecified goodbye).received

theorem lateGoodbye_fresh : Fresh disconnectPriority lateGoodbye :=
  .received (deserializeMessage_frame .littleEndian (.utc 0) (.utc 0) (.ipv4 0x0a000001)
    .ipv6Unspecified (m := goodbye) rfl trivial trivial)

/-- Two unlocks and a disconnect. -/
def threeArrived : QueueState :=
  [(lockPriority, lateUnlock), (disconnectPriority, lateGoodbye), (lockPriority, laterUnlock)].foldl
    (fun s e => s.emplace (fun _ _ => false) e.1 e.2) {}

theorem threeArrived_run : Trace (ArisingStep fun _ _ => false) {}
    [.emplace lockPriority lateUnlock, .emplace disconnectPriority lateGoodbye,
      .emplace lockPriority laterUnlock] threeArrived := by
  refine .cons ⟨fun priority m hop => ?_, rfl⟩ (.cons ⟨fun priority m hop => ?_, rfl⟩
    (.cons ⟨fun priority m hop => ?_, rfl⟩ (.nil _)))
  · obtain ⟨rfl, rfl⟩ := QueueOp.emplace.inj hop
    exact lateUnlock_fresh
  · obtain ⟨rfl, rfl⟩ := QueueOp.emplace.inj hop
    exact lateGoodbye_fresh
  · obtain ⟨rfl, rfl⟩ := QueueOp.emplace.inj hop
    exact laterUnlock_fresh

/-- The unlocks are compared by their timestamps, and with the disconnect by their priority. -/
theorem threeArrived_lawful : (entries threeArrived.queue).length = 3 ∧
    Lawful (entries threeArrived.queue) :=
  ⟨by decide +kernel, (lawful_iff (fun _ _ => false) _ _ threeArrived_run).mpr
    ⟨by decide +kernel, by decide +kernel⟩⟩

end Managers

end WhisperNet
