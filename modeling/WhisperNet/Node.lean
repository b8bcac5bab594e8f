import WhisperNet.FileHandlers
import WhisperNet.MessageQueue

/-!
# A node and its messages

What a node keeps between messages, and `processNextMessage` as the main thread sees it when no
other thread comes in between two of its operations on the queue: take the message at the front,
hand it to the handler of its type, put it back if it was not processed. Frames arrive at any time
between two such calls.

* `Node.processNextMessage` — one call.
* `Node.Step` — a frame arrives, or a call returns.
* `call_ok`, `call_eq_ok` — a call that returns is what the handler of the front did.
-/

namespace WhisperNet

open Bin MessageManager

/-- What a node keeps. -/
structure Node where
  files : FileSystem
  queue : List Prio
  receivedInitialFiles : UInt64
  totalInitialFiles : UInt64

/-- What may change a node, or throw. -/
abbrev NodeM := EStateM Exn Node

/-- What a node runs in, and what of the program has nothing to do with files. -/
structure Env where
  host : Host
  /-- What comes of comparing null pointers and messages without timestamps. -/
  undefined : Prio → Prio → Bool
  /-- The handlers of other messages, and what comes of dispatching a null pointer or a message
  whose class is not that of its type. -/
  other : Option AnyMessage → NodeM Bool

namespace Node

/-- `isFinishedConnecting` -/
def isFinishedConnecting (n : Node) : Bool := n.receivedInitialFiles == n.totalInitialFiles

/-- A handler that only touches files. -/
def onFiles {α : Type} (x : Fs α) : NodeM α := fun n =>
  match x n.files with
  | .ok a files => .ok a { n with files }
  | .error e files => .error e { n with files }

/-- `processInitialFileSyncMessage` counts the files it has received. -/
def countInitialFile (m : FileInitialSyncMessage) : NodeM Unit := fun n =>
  .ok () { n with
    totalInitialFiles := m.total
    receivedInitialFiles := n.receivedInitialFiles + 1 }

section Process

variable (env : Env)

/-- The switch in `processNextMessage`. -/
def dispatch (m : AnyMessage) : NodeM Bool := do
  let connected := (← get).isFinishedConnecting
  match m.base.type, m with
  | .lock, .file m => onFiles (processLockMessage env.host connected m)
  | .unlock, .file m => onFiles (processUnlockMessage env.host connected m)
  | .deleteFile, .file m => onFiles (processDeleteFileMessage env.host connected m)
  | .contentChange, .fileContent m => onFiles (processContentFileMessage env.host connected m)
  | .initialSync, .fileInitialSync m => do
    countInitialFile m
    onFiles (processInitialFileSyncMessage env.host m)
  | .payload, .payload _ => return true
  | .invalid, _ => throw .runtime
  | .unknown _ _, _ => throw .runtime
  | _, m => env.other (some m)

def process : Option AnyMessage → NodeM Bool
  | none => env.other none
  | some m => dispatch env m

def emplace (priority : Nat) (msgPtr : Option AnyMessage) : NodeM Unit :=
  modify fun n => { n with queue := Heap.push (PrioComp env.undefined) n.queue (priority, msgPtr) }

/-- The message goes back into the queue. -/
def requeue (msgPtr : Option AnyMessage) : NodeM Unit :=
  match msgPtr.bind fun m => requeuePriority m.base.type with
  | some priority => emplace env priority msgPtr
  | none => pure ()

/-- `messageQueue->pop()` -/
def pop : NodeM Unit :=
  modify fun n => { n with queue := Heap.pop (PrioComp env.undefined) n.queue }

/-- One call that is not interrupted. -/
def processNextMessage : NodeM Unit := do
  match (← get).queue with
  | [] => return
  | (_, msgPtr) :: _ => do
    pop env
    if ← process env msgPtr then return else requeue env msgPtr

end Process

/-! ## Which handler -/

section Dispatch

variable (env : Env) (n : Node)

theorem process_lock {m : FileMessage} (h : m.type = .lock) :
    process env (some (.file m)) n =
      onFiles (processLockMessage env.host n.isFinishedConnecting m) n := by
  have htype : (AnyMessage.file m).base.type = .lock := h
  unfold process dispatch
  simp only [htype]
  rfl

theorem process_unlock {m : FileMessage} (h : m.type = .unlock) :
    process env (some (.file m)) n =
      onFiles (processUnlockMessage env.host n.isFinishedConnecting m) n := by
  have htype : (AnyMessage.file m).base.type = .unlock := h
  unfold process dispatch
  simp only [htype]
  rfl

theorem process_deleteFile {m : FileMessage} (h : m.type = .deleteFile) :
    process env (some (.file m)) n =
      onFiles (processDeleteFileMessage env.host n.isFinishedConnecting m) n := by
  have htype : (AnyMessage.file m).base.type = .deleteFile := h
  unfold process dispatch
  simp only [htype]
  rfl

theorem process_contentChange {m : FileContentMessage} (h : m.type = .contentChange) :
    process env (some (.fileContent m)) n =
      onFiles (processContentFileMessage env.host n.isFinishedConnecting m) n := by
  have htype : (AnyMessage.fileContent m).base.type = .contentChange := h
  unfold process dispatch
  simp only [htype]
  rfl

theorem process_initialSync {m : FileInitialSyncMessage} (h : m.type = .initialSync) :
    process env (some (.fileInitialSync m)) n =
      (countInitialFile m >>= fun _ => onFiles (processInitialFileSyncMessage env.host m)) n := by
  have htype : (AnyMessage.fileInitialSync m).base.type = .initialSync := h
  unfold process dispatch
  simp only [htype]
  rfl

theorem process_disconnect {m : Message} (h : m.type = .disconnect) :
    process env (some (.message m)) n = env.other (some (.message m)) n := by
  have htype : (AnyMessage.message m).base.type = .disconnect := h
  unfold process dispatch
  simp only [htype]
  rfl

end Dispatch

/-! ## Steps -/

/-- What happens to a node. -/
inductive Event
  /-- A frame has been validated: its message joins the queue. -/
  | arrive (m : AnyMessage)
  /-- `processNextMessage` is called, and returns. -/
  | call
  deriving DecidableEq

def perform (env : Env) : Event → NodeM Unit
  | .arrive m => emplace env (wirePriority m.base.type) (some m)
  | .call => processNextMessage env

/-- One event. -/
def Step (env : Env) (n : Node) (event : Event) (n' : Node) : Prop :=
  perform env event n = .ok () n'

/-- The messages that arrive. -/
def arrivals (events : List Event) : List AnyMessage :=
  events.filterMap fun
    | .arrive m => some m
    | .call => none

/-! ## One call -/

section Call

variable {env : Env} {n n' : Node} {priority : Nat} {msgPtr : Option AnyMessage}
  {rest : List Prio}

theorem step_deterministic {event : Event} {n'' : Node} (h : Step env n event n')
    (h' : Step env n event n'') : n' = n'' :=
  (EStateM.Result.ok.inj (h.symm.trans h')).2

/-- The events so far determine the node. -/
theorem trace_deterministic {events : List Event} {n'' : Node}
    (h : Trace (Step env) n events n') (h' : Trace (Step env) n events n'') : n' = n'' := by
  have hstep : ∀ s event t t', Step env s event t → Step env s event t' → t = t' :=
    fun _ _ _ _ => step_deterministic
  exact h.deterministic hstep h'

theorem step_arrive {m : AnyMessage} (h : Step env n (.arrive m) n') :
    n' = { n with
      queue := Heap.push (PrioComp env.undefined) n.queue (wirePriority m.base.type, some m) } := by
  cases h
  rfl

/-- Nothing is done on an empty queue. -/
theorem call_empty (hq : n.queue = []) (h : Step env n .call n') : n' = n := by
  have hrun : processNextMessage env n = .ok () n := by
    show (match n.queue with
      | [] => pure ()
      | (_, msgPtr) :: _ => _ : NodeM Unit) n = _
    rw [hq]
    rfl
  exact step_deterministic h hrun

/-- The node once the front has been popped. -/
def popped (env : Env) (n : Node) : Node :=
  { n with queue := Heap.pop (PrioComp env.undefined) n.queue }

theorem processNextMessage_cons (hq : n.queue = (priority, msgPtr) :: rest) :
    processNextMessage env n = (process env msgPtr >>= fun processed =>
      if processed then pure () else requeue env msgPtr) (popped env n) := by
  show (match n.queue with
    | [] => pure ()
    | (_, msgPtr) :: _ => pop env >>= fun _ => process env msgPtr >>= fun processed =>
      if processed then pure () else requeue env msgPtr : NodeM Unit) n = _
  rw [hq]
  rfl

/-- The handler of the front has returned `true`. -/
theorem call_ok (hq : n.queue = (priority, msgPtr) :: rest)
    (h : process env msgPtr (popped env n) = .ok true n') : Step env n .call n' := by
  show processNextMessage env n = _
  rw [processNextMessage_cons hq, Effect.bind_ok h]
  rfl

/-- What a call that returned did with the front. -/
theorem call_eq_ok (hq : n.queue = (priority, msgPtr) :: rest) (h : Step env n .call n') :
    ∃ processed n'', process env msgPtr (popped env n) = .ok processed n'' ∧
      (if processed then pure () else requeue env msgPtr : NodeM Unit) n'' = .ok () n' := by
  have hrun : processNextMessage env n = .ok () n' := h
  rw [processNextMessage_cons hq] at hrun
  exact Effect.bind_eq_ok hrun

theorem onFiles_ok {α : Type} {x : Fs α} {a : α} {files : FileSystem}
    (h : x n.files = .ok a files) : onFiles x n = .ok a { n with files } := by
  rw [onFiles, h]

theorem onFiles_eq_ok {α : Type} {x : Fs α} {a : α} (h : onFiles x n = .ok a n') :
    ∃ files, x n.files = .ok a files ∧ n' = { n with files } := by
  rw [onFiles] at h
  cases hx : x n.files with
  | ok b files =>
    rw [hx] at h
    obtain ⟨rfl, rfl⟩ := EStateM.Result.ok.inj h
    exact ⟨files, rfl, rfl⟩
  | error e files =>
    rw [hx] at h
    cases h

end Call

end Node

end WhisperNet
