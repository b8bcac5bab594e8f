import WhisperNet.Deserialize
import WhisperNet.Lib.Heap
import WhisperNet.Lib.Run

/-!
# The message queue and its threads

`message_manager.hpp`: a priority queue behind a monitor. The listening and accepting threads
emplace messages; the main thread, in `processNextMessage`, asks whether the queue is empty, moves
the top message out, pops, and may emplace the message again. The monitor makes each of these
operations atomic, not the sequence: another thread's `emplace` may come between the move and the
`pop`, when the entry at the front has a null pointer.

* `uninterrupted_call` — the three operations one after the other.
* `step_sound` — while no such `emplace` is compared with the front, every message is accounted for.
* `no_message_lost` — nothing is lost in a run of such steps, and the first other one breaks it.
-/

namespace WhisperNet

open MessageManager

/-! ## The comparator -/

/-- A priority and a message pointer, which may be null. -/
abbrev Prio := Nat × Option AnyMessage

/-- The test of `PrioComp` for file messages. -/
def AnyMessage.hasFileType (m : AnyMessage) : Bool :=
  m.base.type.toByte &&& MessageType.fileTypes != 0

/-- `PrioComp`: the message with the lower priority comes first; among file messages of one priority
the comparison goes by their timestamps. `undefined` stands for what comes of reading through a null
pointer, or the timestamp of an object that has none. -/
def PrioComp (undefined : Prio → Prio → Bool) (a b : Prio) : Bool :=
  if a.1 = b.1 then
    match a.2, b.2 with
    | some x, some y =>
      if x.hasFileType ∧ y.hasFileType then
        match x.filePart, y.filePart with
        | some x, some y => decide (x.timestamp.toInt - y.timestamp.toInt < 0)
        | _, _ => undefined a b
      else decide (a.1 > b.1)
    | _, _ => undefined a b
  else decide (a.1 > b.1)

/-- File messages of one priority are compared by their timestamps. -/
theorem prioComp_files (undefined : Prio → Prio → Bool) {priority : Nat} {x y : AnyMessage}
    {a b : FileMessage} (hx : x.hasFileType = true) (hy : y.hasFileType = true)
    (hxa : x.filePart = some a) (hyb : y.filePart = some b) :
    PrioComp undefined (priority, some x) (priority, some y) =
      decide (a.timestamp.toInt - b.timestamp.toInt < 0) := by
  simp [PrioComp, hx, hy, hxa, hyb]

/-- The priority at which a message is put back; `none` if it never is. -/
def requeuePriority : MessageType → Option Nat
  | .resendRequest | .linkLost => some (resendPriority + 1)
  | .lock | .unlock | .initialSync | .initialSyncRequest => some (lockPriority + 1)
  | .deleteFile | .contentChange => some (filePriority + 1)
  | .connect => some (connectPriority + 1)
  | .disconnect => some (disconnectPriority + 1)
  | .payload | .invalid | .unknown _ _ => none

/-! ## The threads -/

/-- Where the main thread is in `processNextMessage`. -/
inductive Stage
  /-- Outside, or about to ask whether the queue is empty. -/
  | waiting
  /-- It was not empty. -/
  | nonEmpty
  /-- The top message has been moved into `msgPtr`. -/
  | moved (msgPtr : Option AnyMessage)
  /-- Its entry has been popped. -/
  | popped (msgPtr : Option AnyMessage)
  deriving DecidableEq

/-- The message the main thread holds. -/
def Stage.held : Stage → List AnyMessage
  | .moved msgPtr => msgPtr.toList
  | .popped msgPtr => msgPtr.toList
  | _ => []

/-- The queue, the main thread, and what has happened so far. -/
structure QueueState where
  queue : List Prio := []
  stage : Stage := .waiting
  /-- Every message that has been emplaced, as often as it was. -/
  emplaced : List AnyMessage := []
  /-- Every message whose type has been switched on. -/
  dispatched : List AnyMessage := []
  /-- The entries that may have been compared. -/
  compared : List Prio := []

/-- An operation on the queue, or the end of a message. -/
inductive QueueOp
  /-- `emplace`, by another thread or by a handler. -/
  | emplace (priority : Nat) (m : AnyMessage)
  /-- `empty` -/
  | empty
  /-- `std::move(top().second)` -/
  | top
  | pop
  /-- The message was processed, or goes back into the queue. -/
  | dispatch (processed : Bool)
  deriving DecidableEq

section Step

variable (undefined : Prio → Prio → Bool)

/-- The entries that `emplace` compares: the new one, and those it is lifted against. -/
def emplaceCompared (queue : List Prio) (entry : Prio) : List Prio :=
  match Heap.pushLifts (PrioComp undefined) queue entry with
  | [] => []
  | positions => entry :: positions.filterMap (queue[·]?)

def QueueState.emplace (s : QueueState) (priority : Nat) (m : AnyMessage) : QueueState :=
  { s with
    queue := Heap.push (PrioComp undefined) s.queue (priority, some m)
    emplaced := m :: s.emplaced
    compared := emplaceCompared undefined s.queue (priority, some m) ++ s.compared }

/-- One operation. A null message cannot be dispatched. -/
def QueueState.step (s : QueueState) : QueueOp → Option QueueState
  | .emplace priority m => some (s.emplace undefined priority m)
  | .empty =>
    match s.stage with
    | .waiting => some { s with stage := if s.queue.isEmpty then .waiting else .nonEmpty }
    | _ => none
  | .top =>
    match s.stage, s.queue with
    | .nonEmpty, (priority, msgPtr) :: rest =>
      some { s with queue := (priority, none) :: rest, stage := .moved msgPtr }
    | _, _ => none
  | .pop =>
    match s.stage with
    | .moved msgPtr =>
      -- The entry popped is not compared, the others may be.
      some { s with
        queue := Heap.pop (PrioComp undefined) s.queue
        stage := .popped msgPtr
        compared := s.queue.tail ++ s.compared }
    | _ => none
  | .dispatch processed =>
    match s.stage with
    | .popped (some m) =>
      let s := { s with stage := .waiting, dispatched := m :: s.dispatched }
      if processed then some s
      else (requeuePriority m.base.type).map fun priority => s.emplace undefined priority m
    | _ => none

/-- The operation is not an `emplace` that is compared with an entry whose message was moved out. -/
def Quiet (s : QueueState) : QueueOp → Prop
  | .emplace priority m =>
    ∀ msgPtr, s.stage = .moved msgPtr →
      0 ∉ Heap.pushLifts (PrioComp undefined) s.queue (priority, some m)
  | _ => True

/-- A step by any thread. -/
def QueueStep (s t : QueueState) : Prop := ∃ op, s.step undefined op = some t

/-- A step that is quiet. -/
def QuietStep (s t : QueueState) : Prop := ∃ op, Quiet undefined s op ∧ s.step undefined op = some t

end Step

theorem quiet_of_waiting {undefined : Prio → Prio → Bool} {s : QueueState} (op : QueueOp)
    (h : s.stage = .waiting) : Quiet undefined s op := by
  cases op with
  | emplace priority m =>
    intro msgPtr hmoved
    rw [h] at hmoved
    cases hmoved
  | _ => trivial

/-- A call that is not interrupted takes the front, and leaves the rest as `pop` does. -/
theorem uninterrupted_call (undefined : Prio → Prio → Bool) {s : QueueState} {priority : Nat}
    {msgPtr : Option AnyMessage} {rest : List Prio} (hs : s.stage = .waiting)
    (hq : s.queue = (priority, msgPtr) :: rest) :
    ∃ t, Trace (fun s op t => s.step undefined op = some t) s [.empty, .top, .pop] t ∧
      t.stage = .popped msgPtr ∧ t.queue = Heap.pop (PrioComp undefined) s.queue := by
  have hempty : s.step undefined .empty = some { s with stage := .nonEmpty } := by
    rw [QueueState.step, hs, hq]
    rfl
  refine ⟨_, .cons hempty (.cons (t := { s with
    queue := (priority, none) :: rest, stage := .moved msgPtr }) ?_ (.cons rfl (.nil _))), rfl, ?_⟩
  · rw [QueueState.step, hq]
  · rw [hq]
    rfl

/-! ## Accounting -/

/-- The messages in a queue. -/
def messages (queue : List Prio) : List AnyMessage := queue.filterMap Prod.snd

/-- No message has been moved out of these entries. -/
def Intact (entries : List Prio) : Prop := ∀ e ∈ entries, e.2 ≠ none

/-- Every message emplaced is dispatched, held or queued, as often as it was emplaced; nothing null
is compared, or left in the queue when `processNextMessage` returns. -/
structure NoneLost (s : QueueState) : Prop where
  accounted : s.emplaced.Perm (s.dispatched ++ (s.stage.held ++ messages s.queue))
  compared : Intact s.compared
  returned : s.stage = .waiting → Intact s.queue

/-- While a message is moved out, its entry is at the front. -/
def Shape (queue : List Prio) : Stage → Prop
  | .moved _ => ∃ priority rest, queue = (priority, none) :: rest ∧ Intact rest
  | _ => Intact queue

theorem shape_eq {queue : List Prio} {stage : Stage} (h : ∀ msgPtr, stage ≠ .moved msgPtr) :
    Shape queue stage = Intact queue := by
  cases stage with
  | moved msgPtr => exact absurd rfl (h msgPtr)
  | _ => rfl

/-- The invariant. -/
structure Sound (s : QueueState) : Prop where
  accounted : s.emplaced.Perm (s.dispatched ++ (s.stage.held ++ messages s.queue))
  compared : Intact s.compared
  shape : Shape s.queue s.stage
  held : s.stage ≠ .moved none ∧ s.stage ≠ .popped none

theorem Sound.noneLost {s : QueueState} (h : Sound s) : NoneLost s where
  accounted := h.accounted
  compared := h.compared
  returned hw := by
    have hshape := h.shape
    rw [hw] at hshape
    exact hshape

theorem intact_nil : Intact [] := fun _ he => absurd he List.not_mem_nil

theorem Intact.append {a b : List Prio} (ha : Intact a) (hb : Intact b) : Intact (a ++ b) := by
  intro e he
  rcases List.mem_append.mp he with he | he
  · exact ha e he
  · exact hb e he

theorem Intact.of_perm {a b : List Prio} (ha : Intact a) (h : b.Perm a) : Intact b :=
  fun e he => ha e (h.mem_iff.mp he)

theorem intact_cons {priority : Nat} {m : AnyMessage} {rest : List Prio} (h : Intact rest) :
    Intact ((priority, some m) :: rest) := by
  intro e he
  rcases List.mem_cons.mp he with rfl | he
  · exact Option.some_ne_none m
  · exact h e he

theorem messages_perm {a b : List Prio} (h : a.Perm b) : (messages a).Perm (messages b) :=
  h.filterMap Prod.snd

section Emplace

variable {undefined : Prio → Prio → Bool} {s t : QueueState} {priority : Nat} {m : AnyMessage}

/-- What an `emplace` is compared with comes from the queue, or from behind its front. -/
theorem mem_emplaceCompared {queue : List Prio} {entry e : Prio}
    (h : e ∈ emplaceCompared undefined queue entry) :
    e = entry ∨ ∃ k ∈ Heap.pushLifts (PrioComp undefined) queue entry, queue[k]? = some e := by
  rw [emplaceCompared] at h
  split at h
  · cases h
  · rcases List.mem_cons.mp h with h | h
    · exact Or.inl h
    · obtain ⟨k, hk, hget⟩ := List.mem_filterMap.mp h
      exact Or.inr ⟨k, hk, hget⟩

theorem emplace_accounted (undefined : Prio → Prio → Bool) (priority : Nat) (m : AnyMessage)
    (h : s.emplaced.Perm (s.dispatched ++ (s.stage.held ++ messages s.queue))) :
    (s.emplace undefined priority m).emplaced.Perm
      ((s.emplace undefined priority m).dispatched ++
        ((s.emplace undefined priority m).stage.held ++
          messages (s.emplace undefined priority m).queue)) := by
  have hpush := messages_perm (Heap.push_perm (PrioComp undefined) s.queue (priority, some m))
  have hqueue : (s.stage.held ++ messages (s.emplace undefined priority m).queue).Perm
      (m :: (s.stage.held ++ messages s.queue)) :=
    (hpush.append_left _).trans List.perm_middle
  exact (h.cons m).trans (List.perm_middle.symm.trans (hqueue.symm.append_left _))

/-- An `emplace` while no message is moved out. -/
theorem Intact.emplace (h : Intact s.queue) (hc : Intact s.compared) :
    Intact (s.emplace undefined priority m).queue ∧
      Intact (s.emplace undefined priority m).compared := by
  constructor
  · exact (intact_cons h).of_perm (Heap.push_perm _ _ _)
  · refine Intact.append (fun e he => ?_) hc
    rcases mem_emplaceCompared he with rfl | ⟨k, -, hget⟩
    · exact Option.some_ne_none m
    · exact h e (List.mem_of_getElem? hget)

/-- An `emplace` that stays behind the null entry. -/
theorem emplace_behind {p : Nat} {rest : List Prio} (hq : s.queue = (p, none) :: rest)
    (h : Intact rest) (hc : Intact s.compared)
    (hquiet : 0 ∉ Heap.pushLifts (PrioComp undefined) s.queue (priority, some m)) :
    (∃ rest', (s.emplace undefined priority m).queue = (p, none) :: rest' ∧ Intact rest') ∧
      Intact (s.emplace undefined priority m).compared := by
  constructor
  · rw [hq] at hquiet
    have hfront := Heap.push_front hquiet
    have hperm := Heap.push_perm (PrioComp undefined) ((p, none) :: rest) (priority, some m)
    obtain ⟨rest', hrest'⟩ := List.head?_eq_some_iff.mp hfront
    refine ⟨rest', ?_, ?_⟩
    · show Heap.push (PrioComp undefined) s.queue (priority, some m) = _
      rw [hq, hrest']
    · rw [hrest'] at hperm
      exact (intact_cons h).of_perm ((hperm.trans (List.Perm.swap _ _ _)).cons_inv)
  · refine Intact.append (fun e he => ?_) hc
    rcases mem_emplaceCompared he with rfl | ⟨k, hk, hget⟩
    · exact Option.some_ne_none m
    · cases k with
      | zero => exact absurd hk hquiet
      | succ k =>
        rw [hq] at hget
        exact h e (List.mem_of_getElem? hget)

/-- An `emplace` that is compared with the null entry. -/
theorem emplace_compares_null {p : Nat} {rest : List Prio} (hq : s.queue = (p, none) :: rest)
    (hloud : 0 ∈ Heap.pushLifts (PrioComp undefined) s.queue (priority, some m)) :
    ¬ Intact (s.emplace undefined priority m).compared := by
  intro h
  apply h (p, none) _ rfl
  apply List.mem_append_left
  rw [emplaceCompared]
  split
  · next hnil =>
    rw [hnil] at hloud
    cases hloud
  · apply List.mem_cons_of_mem
    apply List.mem_filterMap.mpr
    exact ⟨0, hloud, by rw [hq]; rfl⟩

theorem Sound.emplace (h : Sound s) (hquiet : Quiet undefined s (.emplace priority m)) :
    Sound (s.emplace undefined priority m) := by
  have haccounted := emplace_accounted undefined priority m h.accounted
  have hshape := h.shape
  by_cases hmoved : ∃ msgPtr, s.stage = .moved msgPtr
  · obtain ⟨msgPtr, hs⟩ := hmoved
    rw [hs] at hshape
    obtain ⟨p, rest, hq, hrest⟩ := hshape
    obtain ⟨⟨rest', hq', hrest'⟩, hcompared⟩ := emplace_behind hq hrest h.compared
      (hquiet msgPtr hs)
    refine ⟨haccounted, hcompared, ?_, h.held⟩
    show Shape _ s.stage
    rw [hs]
    exact ⟨p, rest', hq', hrest'⟩
  · rw [shape_eq (not_exists.mp hmoved)] at hshape
    obtain ⟨hqueue, hcompared⟩ := hshape.emplace h.compared
    refine ⟨haccounted, hcompared, ?_, h.held⟩
    show Shape _ s.stage
    rwa [shape_eq (not_exists.mp hmoved)]

/-! ## Every step -/

/-- **What one quiet step preserves.** -/
theorem step_sound {op : QueueOp} (h : Sound s) (hquiet : Quiet undefined s op)
    (hstep : s.step undefined op = some t) : Sound t := by
  cases op with
  | emplace priority m =>
    cases hstep
    exact h.emplace hquiet
  | empty =>
    cases hs : s.stage with
    | waiting =>
      rw [QueueState.step, hs] at hstep
      cases hstep
      have hqueue := h.shape
      have haccounted := h.accounted
      rw [hs] at hqueue haccounted
      by_cases hempty : s.queue.isEmpty = true
      · refine ⟨?_, h.compared, ?_, ?_⟩ <;> simp only [hempty, if_true]
        · exact haccounted
        · exact hqueue
        · exact ⟨nofun, nofun⟩
      · refine ⟨?_, h.compared, ?_, ?_⟩ <;> simp only [hempty]
        · exact haccounted
        · exact hqueue
        · exact ⟨nofun, nofun⟩
    | _ =>
      rw [QueueState.step, hs] at hstep
      cases hstep
  | top =>
    cases hs : s.stage with
    | nonEmpty =>
      cases hq : s.queue with
      | nil =>
        rw [QueueState.step, hs, hq] at hstep
        cases hstep
      | cons front rest =>
        obtain ⟨priority, msgPtr⟩ := front
        rw [QueueState.step, hs, hq] at hstep
        cases hstep
        have hqueue := h.shape
        have haccounted := h.accounted
        rw [hs, hq] at hqueue haccounted
        have hmsg : msgPtr ≠ none := hqueue (priority, msgPtr) List.mem_cons_self
        obtain ⟨m, rfl⟩ := Option.ne_none_iff_exists'.mp hmsg
        exact ⟨haccounted, h.compared,
          ⟨priority, rest, rfl, fun e he => hqueue e (List.mem_cons_of_mem _ he)⟩, nofun, nofun⟩
    | _ =>
      rw [QueueState.step, hs] at hstep
      cases hstep
  | pop =>
    cases hs : s.stage with
    | moved msgPtr =>
      rw [QueueState.step, hs] at hstep
      cases hstep
      have hqueue := h.shape
      have haccounted := h.accounted
      have hheld := h.held
      rw [hs] at hqueue haccounted hheld
      obtain ⟨priority, rest, hq, hrest⟩ := hqueue
      have hpop := Heap.pop_perm (PrioComp undefined) (priority, none) rest
      rw [← hq] at hpop
      refine ⟨haccounted.trans ?_, ?_, hrest.of_perm hpop, ⟨nofun, ?_⟩⟩
      · rw [hq]
        rw [hq] at hpop
        exact ((messages_perm hpop).symm.append_left _).append_left _
      · refine Intact.append ?_ h.compared
        rw [hq]
        exact hrest
      · intro hnone
        exact hheld.1 (congrArg Stage.moved (Stage.popped.inj hnone))
    | _ =>
      rw [QueueState.step, hs] at hstep
      cases hstep
  | dispatch processed =>
    cases hs : s.stage with
    | popped msgPtr =>
      cases msgPtr with
      | none => exact absurd hs h.held.2
      | some m =>
        have haccounted := h.accounted
        have hqueue := h.shape
        rw [hs] at haccounted hqueue
        have hdone : Sound { s with stage := .waiting, dispatched := m :: s.dispatched } :=
          ⟨haccounted.trans List.perm_middle, h.compared, hqueue, nofun, nofun⟩
        rw [QueueState.step, hs] at hstep
        cases processed with
        | true =>
          cases hstep
          exact hdone
        | false =>
          obtain ⟨priority, -, ht⟩ := Option.map_eq_some_iff.mp hstep
          rw [← ht]
          exact hdone.emplace (quiet_of_waiting _ rfl)
    | _ =>
      rw [QueueState.step, hs] at hstep
      cases hstep

/-- An `emplace` that is not quiet breaks the accounting at once. -/
theorem loud_breaks {op : QueueOp} (h : Sound s) (hloud : ¬ Quiet undefined s op)
    (hstep : s.step undefined op = some t) : ¬ NoneLost t := by
  cases op with
  | emplace priority m =>
    cases hstep
    rw [Quiet] at hloud
    push Not at hloud
    obtain ⟨msgPtr, hs, hmem⟩ := hloud
    have hqueue := h.shape
    rw [hs] at hqueue
    obtain ⟨p, rest, hq, -⟩ := hqueue
    exact fun hnone => emplace_compares_null hq hmem hnone.compared
  | _ => exact absurd trivial hloud

end Emplace

/-! ## Every run -/

theorem sound_start : Sound {} where
  accounted := List.Perm.refl []
  compared := intact_nil
  shape := intact_nil
  held := ⟨nofun, nofun⟩

theorem run_sound {undefined : Prio → Prio → Bool} {n : Nat} {s : QueueState}
    (run : Run (QuietStep undefined) n {} s) : Sound s :=
  run.invariant sound_start fun _ _ hs ⟨_, hquiet, hstep⟩ => step_sound hs hquiet hstep

/-- **No message is lost** in a run of quiet steps; the next step keeps it so exactly if it is quiet
as well. -/
theorem no_message_lost (undefined : Prio → Prio → Bool) (n : Nat) (s : QueueState)
    (run : Run (QuietStep undefined) n {} s) :
    NoneLost s ∧ ∀ op t, s.step undefined op = some t → (NoneLost t ↔ Quiet undefined s op) := by
  have hs := run_sound run
  refine ⟨hs.noneLost, fun op t hstep => ⟨fun ht => ?_, fun hquiet => ?_⟩⟩
  · by_contra hloud
    exact loud_breaks hs hloud hstep ht
  · exact (step_sound hs hquiet hstep).noneLost

/-- A node has left the network. -/
def farewell : Message where
  type := .disconnect
  receiverNode := .ipv6Unspecified
  originatorNode := .ipv4 0x0a000001
  messageHash := 0

/-- The greeting is the only message in the queue. -/
def greetingQueued : QueueState where
  queue := [(payloadPriority, some (.payload greeting))]
  emplaced := [.payload greeting]

/-- Its entry is about to be popped. -/
def greetingMoved : QueueState :=
  { greetingQueued with
    queue := [(payloadPriority, none)]
    stage := .moved (some (.payload greeting)) }

/-- Another `emplace` has pushed it from the front. -/
def farewellInFront : QueueState :=
  { greetingMoved with
    queue := [(disconnectPriority, some (.message farewell)), (payloadPriority, none)]
    emplaced := [.message farewell, .payload greeting]
    compared := [(disconnectPriority, some (.message farewell)), (payloadPriority, none)] }

/-- The new front has been popped, and the greeting processed. -/
def greetingDone : QueueState where
  queue := [(payloadPriority, none)]
  emplaced := [.message farewell, .payload greeting]
  dispatched := [.payload greeting]
  compared := (payloadPriority, none) :: farewellInFront.compared

section Greeting

variable (undefined : Prio → Prio → Bool)

theorem greetingMoved_quiet : Run (QuietStep undefined) 3 {} greetingMoved :=
  (((Run.nil {}).snoc (u := greetingQueued)
    ⟨.emplace payloadPriority (.payload greeting), quiet_of_waiting _ rfl, rfl⟩).snoc
    (u := { greetingQueued with stage := .nonEmpty }) ⟨.empty, trivial, rfl⟩).snoc
    ⟨.top, trivial, rfl⟩

theorem greetingDone_reached : Run (QueueStep undefined) 6 {} greetingDone :=
  ((((greetingMoved_quiet undefined).mono fun _ _ ⟨op, _, hstep⟩ => ⟨op, hstep⟩).snoc
    (u := farewellInFront) ⟨.emplace disconnectPriority (.message farewell), rfl⟩).snoc
    (u := { greetingDone with dispatched := [], stage := .popped (some (.payload greeting)) })
    ⟨.pop, rfl⟩).snoc ⟨.dispatch true, rfl⟩

end Greeting

/-- The message that came in between is popped in the place of the null entry, which stays. -/
theorem farewell_lost :
    ∃ n t, Run (QueueStep fun _ _ => false) n {} t ∧ t.stage = .waiting ∧
      .message farewell ∈ t.emplaced ∧ .message farewell ∉ t.dispatched ∧
      .message farewell ∉ messages t.queue ∧ ¬ Intact t.queue ∧ ¬ NoneLost t := by
  have hleft : ¬ Intact greetingDone.queue := fun h =>
    h (payloadPriority, none) List.mem_cons_self rfl
  exact ⟨6, greetingDone, greetingDone_reached _, rfl, by decide, by decide, by decide, hleft,
    fun h => hleft (h.returned rfl)⟩

/-- Before the other `emplace` nothing is lost. -/
theorem greetingMoved_noneLost :
    NoneLost greetingMoved ∧ ∀ op t, greetingMoved.step (fun _ _ => false) op = some t →
      (NoneLost t ↔ Quiet (fun _ _ => false) greetingMoved op) :=
  no_message_lost (fun _ _ => false) 3 greetingMoved (greetingMoved_quiet _)

end WhisperNet
