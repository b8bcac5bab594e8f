import WhisperNet.LockEnforcement
import WhisperNet.LockHandlers
import WhisperNet.Node

/-!
# Runs of the handlers

A node that processes one message that concerns files after the other, whichever order its queue
has put them in. A disconnect touches no file itself: it sends ourselves an unlock for every file,
which joins the queue and is processed when its turn comes.

* `handle_eq_process` — what `processNextMessage` does with such a message.
* `keeps_handle` — what the operations on its paths keep, a handler keeps.
* `handled_frame` — a step leaves every path alone that its message does not touch.
-/

namespace WhisperNet

open Bin Fs Effect MessageManager

/-! ## Disconnecting -/

namespace Fs

/-- The files in a folder, without those that have `.wnts` in their path; the folder must be there.
They come in the order of their paths, where the iterator leaves the order open. -/
def filesIn (folder : FilePath) : Fs (List FilePath) := fun fs =>
  if folder ∈ fs.dirs then
    .ok (fs.files.keys.filter fun p => folder <+: p ∧ p ≠ folder ∧ wnts ∉ p) fs
  else .error .filesystem fs

def enumerateAllFiles : List FilePath → Fs (List FilePath)
  | [] => return []
  | folder :: folders => do
    let here ← filesIn folder
    let more ← enumerateAllFiles folders
    return here ++ more

theorem keeps_enumerateAllFiles {Inv : FileSystem → Prop} (folders : List FilePath) :
    Keeps Inv (enumerateAllFiles folders) := by
  induction folders with
  | nil => exact Keeps.pure _
  | cons folder folders ih =>
    have hhere : Keeps Inv (filesIn folder) := by
      apply Keeps.of_final
      intro fs
      unfold filesIn
      split <;> rfl
    exact hhere.bind fun _ => ih.bind fun _ => Keeps.pure _

end Fs

/-- What the handlers of a node go by. -/
structure Setting extends Env where
  /-- The managed folders. -/
  folders : List FilePath
  /-- The clock as it reads when we hash what we send to ourselves, and when we check that. -/
  sendClock : Clock
  checkClock : Clock

namespace Node

section Handle

variable (env : Setting)

/-- `PeerManager::send` to the loopback. If the message fails its check, the request to resend it
goes to everyone, and so to us. -/
def sendToSelf (m : AnyMessage) : NodeM Unit :=
  let receive (destination : IpAddress) (m : AnyMessage) : Outcome :=
    deserializeMessage env.host.platform env.checkClock
      (PeerManager.frame env.host.platform env.sendClock env.host.self destination m)
  match receive .ipv6Loopback m with
  | .enqueued priority m => emplace env.toEnv priority (some m)
  | .resend request destination =>
    match receive destination (.resendRequest request) with
    | .enqueued priority m => emplace env.toEnv priority (some m)
    | _ => throw .runtime
  | .unrecognized => throw .runtime
  | .truncated | .outOfRange => throw .archive

/-- The unlock `processDisconnectMessage` sends for a file, in the name of who disconnected. -/
def disconnectUnlock (m : Message) (path : FilePath) : FileMessage where
  type := .unlock
  receiverNode := .ipv6Unspecified
  originatorNode := m.originatorNode
  messageHash := 0
  targetFile := .ofElements path
  timestamp := 0

/-- `for(auto& path: paths)` -/
def unlockEach (m : Message) : List FilePath → NodeM Unit
  | [] => pure ()
  | path :: paths => do
    sendToSelf env (.file (disconnectUnlock m path))
    unlockEach m paths

/-- `processDisconnectMessage`, without the backup peers. -/
def processDisconnectMessage (m : Message) : NodeM Bool := do
  if !(← get).isFinishedConnecting then return false
  else do
    let paths ← onFiles (enumerateAllFiles env.folders)
    unlockEach env m paths
    return true

end Handle

/-! ## The messages -/

/-- A message that concerns files, by its type. -/
inductive FileOp
  | lock (m : FileMessage)
  | unlock (m : FileMessage)
  | deleteFile (m : FileMessage)
  | contentChange (m : FileContentMessage)
  | initialSync (m : FileInitialSyncMessage)
  | disconnect (m : Message)
  deriving DecidableEq

namespace FileOp

/-- The object in the queue. -/
def message : FileOp → AnyMessage
  | lock m | unlock m | deleteFile m => .file m
  | contentChange m => .fileContent m
  | initialSync m => .fileInitialSync m
  | disconnect m => .message m

/-- The type the switch in `processNextMessage` goes by. -/
def type : FileOp → MessageType
  | lock _ => .lock
  | unlock _ => .unlock
  | deleteFile _ => .deleteFile
  | contentChange _ => .contentChange
  | initialSync _ => .initialSync
  | disconnect _ => .disconnect

/-- The target file; a disconnect has none. -/
def target? (op : FileOp) : Option FilePath :=
  op.message.filePart.map fun m => filePath m.targetFile

/-- The paths the handler may change. -/
def touches (op : FileOp) : List FilePath :=
  match op with
  | lock m | unlock m => [filePath m.targetFile, lockFilePath (filePath m.targetFile)]
  | deleteFile m =>
    [filePath m.targetFile, lockFilePath (filePath m.targetFile), wntsPath (filePath m.targetFile)]
  | contentChange m => [filePath m.targetFile]
  | initialSync m => [filePath m.targetFile]
  | disconnect _ => []

end FileOp

/-- The handler of the message. -/
def handle (env : Setting) (op : FileOp) : NodeM Bool := do
  let connected := (← get).isFinishedConnecting
  match op with
  | .lock m => onFiles (processLockMessage env.host connected m)
  | .unlock m => onFiles (processUnlockMessage env.host connected m)
  | .deleteFile m => onFiles (processDeleteFileMessage env.host connected m)
  | .contentChange m => onFiles (processContentFileMessage env.host connected m)
  | .initialSync m => do
    countInitialFile m
    onFiles (processInitialFileSyncMessage env.host m)
  | .disconnect m => processDisconnectMessage env m

/-- The handler returned; `processed` is what it said. -/
def Handled (env : Setting) (n : Node) (l : FileOp × Bool) (n' : Node) : Prop :=
  handle env l.1 n = .ok l.2 n'

/-- The lock record of `p`. -/
def lock? (host : Host) (p : FilePath) (n : Node) : Option (FileMessage × Perms) :=
  lockRecord host.platform n.files p

/-! ## What a handler leaves alone -/

section Frames

variable {env : Setting} {Inv : FileSystem → Prop}

/-- Something about the files of a node. -/
def OfFiles (Inv : FileSystem → Prop) (n : Node) : Prop := Inv n.files

theorem keeps_onFiles {α : Type} {y : Fs α} (h : Keeps Inv y) :
    Keeps (OfFiles Inv) (onFiles y) := by
  intro n hn
  have hfiles := h n.files hn
  unfold onFiles
  cases hy : y n.files with
  | ok a files =>
    rw [hy] at hfiles
    exact hfiles
  | error e files =>
    rw [hy] at hfiles
    exact hfiles

theorem keeps_emplace (env : Env) (priority : Nat) (msgPtr : Option AnyMessage) :
    Keeps (OfFiles Inv) (emplace env priority msgPtr) :=
  fun _ h => h

theorem keeps_get : Keeps (OfFiles Inv) (get : NodeM Node) := Keeps.of_final fun _ => rfl

theorem keeps_sendToSelf (m : AnyMessage) : Keeps (OfFiles Inv) (sendToSelf env m) := by
  unfold sendToSelf
  dsimp only
  split
  · exact keeps_emplace _ _ _
  · split
    · exact keeps_emplace _ _ _
    · exact Keeps.throw _
  · exact Keeps.throw _
  · exact Keeps.throw _
  · exact Keeps.throw _

theorem keeps_unlockEach (m : Message) (paths : List FilePath) :
    Keeps (OfFiles Inv) (unlockEach env m paths) := by
  induction paths with
  | nil => exact Keeps.pure _
  | cons path paths ih => exact (keeps_sendToSelf _).bind fun _ => ih

theorem keeps_disconnect (m : Message) :
    Keeps (OfFiles Inv) (processDisconnectMessage env m) := by
  refine keeps_get.bind fun n => (Keeps.pure _).ite ?_
  refine (keeps_onFiles (keeps_enumerateAllFiles _)).bind fun paths => ?_
  exact (keeps_unlockEach m paths).bind fun _ => Keeps.pure _

/-- **What the operations on its paths keep, a handler keeps.** -/
theorem keeps_handle {op : FileOp} (h : Spares env.host op.touches Inv) :
    Keeps (OfFiles Inv) (handle env op) := by
  refine keeps_get.bind fun n => ?_
  cases op with
  | lock m => exact keeps_onFiles (keeps_lock m h.toSparedByWriting)
  | unlock m => exact keeps_onFiles (keeps_unlock m h)
  | deleteFile m => exact keeps_onFiles (keeps_delete m h)
  | contentChange m => exact keeps_onFiles (keeps_content m h.toSparedByWriting)
  | initialSync m =>
    have hcount : Keeps (OfFiles Inv) (countInitialFile m) := fun _ h => h
    exact hcount.bind fun _ => keeps_onFiles (keeps_sync m h.toSparedByWriting)
  | disconnect m => exact keeps_disconnect m

end Frames

/-! ## What a handler that returned did -/

section Handled

variable {env : Setting} {n n' : Node} {op : FileOp} {processed : Bool}

/-- **Processing.** A message of the type of its class goes to that handler. -/
theorem handle_eq_process (htype : op.message.base.type = op.type)
    (hother : ∀ m : Message, m.type = .disconnect →
      env.other (some (.message m)) = processDisconnectMessage env m) :
    handle env op n = process env.toEnv (some op.message) n := by
  cases op with
  | lock m => exact (process_lock env.toEnv n htype).symm
  | unlock m => exact (process_unlock env.toEnv n htype).symm
  | deleteFile m => exact (process_deleteFile env.toEnv n htype).symm
  | contentChange m => exact (process_contentChange env.toEnv n htype).symm
  | initialSync m => exact (process_initialSync env.toEnv n htype).symm
  | disconnect m =>
    have hprocess : process env.toEnv (some (.message m)) n = env.other (some (.message m)) n :=
      process_disconnect env.toEnv n htype
    rw [hother m htype] at hprocess
    exact hprocess.symm

theorem handled_keeps {Inv : FileSystem → Prop} (h : Handled env n (op, processed) n')
    (hspares : Spares env.host op.touches Inv) (hn : Inv n.files) : Inv n'.files := by
  have hrun : handle env op n = .ok processed n' := h
  exact (keeps_handle hspares).ok hrun hn

/-- **A step leaves every path alone that its message does not touch.** -/
theorem handled_frame {q : FilePath} (h : Handled env n (op, processed) n') (hq : q ∉ op.touches) :
    n'.files.file? q = n.files.file? q :=
  handled_keeps h (spares_file hq) rfl

/-- The record is in the lock file. -/
theorem lock?_frame {p : FilePath} (h : Handled env n (op, processed) n')
    (hq : lockFilePath p ∉ op.touches) : n'.lock? env.host p = n.lock? env.host p :=
  lockRecord_congr (handled_frame h hq)

theorem handled_lock {m : FileMessage} (h : Handled env n (.lock m, processed) n') :
    ∃ files, processLockMessage env.host n.isFinishedConnecting m n.files = .ok processed files ∧
      n' = { n with files } :=
  onFiles_eq_ok h

theorem handled_unlock {m : FileMessage} (h : Handled env n (.unlock m, processed) n') :
    ∃ files, processUnlockMessage env.host n.isFinishedConnecting m n.files = .ok processed files ∧
      n' = { n with files } :=
  onFiles_eq_ok h

theorem handled_contentChange {m : FileContentMessage}
    (h : Handled env n (.contentChange m, processed) n') :
    ∃ files, processContentFileMessage env.host n.isFinishedConnecting m n.files =
      .ok processed files ∧ n' = { n with files } :=
  onFiles_eq_ok h

theorem handled_deleteFile {m : FileMessage} (h : Handled env n (.deleteFile m, processed) n') :
    ∃ files, processDeleteFileMessage env.host n.isFinishedConnecting m n.files =
      .ok processed files ∧ n' = { n with files } :=
  onFiles_eq_ok h

/-- The counters have nothing to do with the files. -/
theorem handled_initialSync {m : FileInitialSyncMessage}
    (h : Handled env n (.initialSync m, processed) n') :
    processInitialFileSyncMessage env.host m n.files = .ok processed n'.files := by
  obtain ⟨files, hrun, rfl⟩ := onFiles_eq_ok h
  exact hrun

end Handled

/-! ## One node -/

/-- What a node becomes that processes the messages. -/
def afterOps (env : Setting) (n : Node) (ops : List FileOp) : Node :=
  ops.foldl (fun n op => Effect.final (handle env op n)) n

/-- The node of `reader`, which manages `docs`. -/
def readerSetting : Setting where
  host := reader
  undefined _ _ := false
  other _ := return true
  folders := [FileSystem.docsA.dropLast]
  sendClock := .utc 0
  checkClock := .utc 0

/-- It has finished connecting, and `docs/a` is there and not locked. -/
def unlockedNode : Node := ⟨FileSystem.docs ⟨[], 0o644⟩, [], 0, 0⟩

end Node

end WhisperNet
