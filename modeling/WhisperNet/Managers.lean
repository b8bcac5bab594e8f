import WhisperNet.Listing
import WhisperNet.PeerList

/-!
# Both managers of a node

A node with the list of its peers and its cache of old messages, and `processNextMessage` for every
type of message: `MessageManager` and `PeerManager` between two operations of the main thread. What
other threads do is one of the events.

The accounts of the queue, `emplaced` and `retired`, are not in the program; nothing goes by them.

* `Managers.send` — `PeerManager::send`, with what the node then sends itself.
* `Managers.process` — the switch in `processNextMessage`.
* `process_lock`, `process_initialSync`, … — which handler a message goes to.
-/

namespace WhisperNet

open Bin Effect MessageManager

/-! ## The state -/

/-- A node with its peers and its old messages. -/
structure Managers extends Node where
  /-- `*folders` -/
  folders : List FilePath
  peerManager : PeerManager
  oldMessages : List AnyMessage := []
  /-- What has been sent, stamped. -/
  sent : List AnyMessage := []
  /-- What has been written to the sockets. -/
  written : List (Socket × Bytes) := []
  /-- Every message that has been emplaced, as often as it was. -/
  emplaced : List AnyMessage := []
  /-- Every message that has been moved out of the queue into the old messages. -/
  retired : List AnyMessage := []

/-- What may change the managers, or throw. -/
abbrev ManagersM := EStateM Exn Managers

/-- What a call goes by besides the state. -/
structure Circumstances where
  host : Host
  /-- What comes of comparing null pointers and messages without timestamps. -/
  undefined : Prio → Prio → Bool
  /-- The clock as it reads when a message is hashed to be sent, and when a frame is checked. -/
  sendClock : AnyMessage → Clock
  checkClock : Bytes → Clock
  /-- `system_clock::now()` for the file with this index, and for its lock. -/
  syncTime : Nat → TimePoint
  lockTime : Nat → TimePoint
  /-- What comes of the attempt to connect to the backup at each position. -/
  attempts : Nat → Option Socket

namespace Managers

def onNode {α : Type} (x : NodeM α) : ManagersM α := fun s =>
  match x s.toNode with
  | .ok a node => .ok a { s with toNode := node }
  | .error e node => .error e { s with toNode := node }

def onFiles {α : Type} (x : Fs α) : ManagersM α := onNode (Node.onFiles x)

def onPeerManager {α : Type} (x : PeerManager.PeerM α) : ManagersM α := fun s =>
  match x s.peerManager with
  | .ok a peerManager => .ok a { s with peerManager }
  | .error _ peerManager => .error .zt { s with peerManager }

/-! ## Sending -/

section Sending

variable (env : Circumstances)

/-- `messageQueue->emplace` -/
def emplace (priority : Nat) (m : AnyMessage) : ManagersM Unit := modify fun s => { s with
  queue := Heap.push (PrioComp env.undefined) s.queue (priority, some m)
  emplaced := m :: s.emplaced }

def getRemoteIP (index : Nat) : ManagersM (Option IpAddress) :=
  onPeerManager (PeerManager.onPeers (PeerManager.askAt PeerEntry.getRemoteIP index))

/-- `peer.send(data.data(), data.size())` -/
def transmit (index : Nat) (data : Bytes) : ManagersM Unit := modify fun s => { s with
  written := s.written ++ (s.peerManager.peers[index]?.map fun peer => (peer.socket, data)).toList }

def forwardTo (source : IpAddress) (data : Bytes) (index : Nat) : ManagersM Unit := do
  if (← getRemoteIP index) ≠ some source then transmit index data else pure ()

/-- Send the data to these peers, except the source. -/
def forward (source : IpAddress) (data : Bytes) : List Nat → ManagersM Unit
  | [] => pure ()
  | index :: rest => do
    forwardTo source data index
    forward source data rest

section Route

-- `MessageManager::deserializeMessage`
variable (receive : Bytes → ManagersM Unit)

def forward2all (source : IpAddress) (data : Bytes) : ManagersM Unit := do
  forward source data (List.range (← get).peerManager.peers.length)
  if source.isLoopback || source == env.host.self then pure () else receive data

def routeData (data : Bytes) (destination source : IpAddress) : ManagersM Unit :=
  if destination.isUnspecified then forward2all env receive source data
  else if destination.isLoopback || destination == env.host.self then receive data
  else do
    match ← onPeerManager (PeerManager.onPeers (PeerManager.findPeer destination)) with
    | some index => transmit index data
    | none => forward2all env receive source data

end Route

/-- `oldMessages.emplace_back` at the end of `send`. -/
def remember (m : AnyMessage) : ManagersM Unit := modify fun s => { s with
  oldMessages := MessageManager.emplaceBack s.oldMessages m
  sent := s.sent ++ [m] }

/-- `MessageManager::deserializeMessage`, given how to send. -/
def receive (send : AnyMessage → IpAddress → ManagersM Unit) (data : Bytes) : ManagersM Unit :=
  match deserializeMessage env.host.platform (env.checkClock data) data with
  | .enqueued priority m => emplace env priority m
  | .resend request destination => send (.resendRequest request) destination
  | .unrecognized => throw .runtime
  | .truncated | .outOfRange => throw .archive

/-- `send` with `broadcastToSelf`. A message we send ourselves that fails its check is asked for
again, by a request that passes its own: two levels are all there are. -/
def sendAt : Nat → AnyMessage → IpAddress → ManagersM Unit
  | 0, _, _ => throw .runtime
  | depth + 1, m, destination => do
    let msg := PeerManager.stamp env.host.platform (env.sendClock m) env.host.self destination m
    routeData env (receive env (sendAt depth)) (msg.save env.host.platform) destination
      .ipv6Unspecified
    remember msg

def send (m : AnyMessage) (destination : IpAddress) : ManagersM Unit := sendAt env 2 m destination

end Sending

/-! ## The handlers -/

section Handlers

variable (env : Circumstances)

def processResendRequestMessage (request : ResendRequestMessage) : ManagersM Bool := do
  match MessageManager.processResendRequestMessage env.host.self (← get).oldMessages request with
  | none => throw .runtime
  | some none => return true
  | some (some (m, destination)) => do
    send env m destination
    return true

/-- `std::getline(fin, …, '\0')`: the file up to its first null character. A file can always be
read. -/
def getline (p : FilePath) : Fs Bytes := fun fs =>
  .ok ((fs.file? p).elim [] fun f => f.content.takeWhile (· ≠ 0)) fs

/-- The `i`-th of `size` files, as it is sent to a new node. -/
def syncOf (size i : Nat) (p : FilePath) (content : Bytes) : FileInitialSyncMessage where
  type := .initialSync
  receiverNode := .ipv6Unspecified
  messageHash := 0
  targetFile := .ofElements p
  timestamp := env.syncTime i
  fileContent := content
  total := UInt64.ofNat size
  index := UInt64.ofNat i

/-- If the file is locked also send a lock message. -/
def lockOf (i : Nat) (p : FilePath) : Fs (Option FileMessage) := do
  if ← Fs.exist (lockFilePath p) then do
    let (lock, _) ← loadLockFile env.host.platform p
    return some { lock with timestamp := env.lockTime i }
  else return none

def sendLock (destination : IpAddress) : Option FileMessage → ManagersM Unit
  | some lock => send env (.file lock) destination
  | none => pure ()

def sendFile (destination : IpAddress) (size i : Nat) (path : FilePath) : ManagersM Unit := do
  let content ← onFiles (getline path)
  send env (.fileInitialSync (syncOf env size i path content)) destination
  let lock ← onFiles (lockOf env i path)
  sendLock env destination lock

/-- The files from the `i`-th on. -/
def sendFiles (destination : IpAddress) (size : Nat) : Nat → List FilePath → ManagersM Unit
  | _, [] => pure ()
  | i, path :: paths => do
    sendFile env destination size i path
    sendFiles destination size (i + 1) paths

def processInitialFileSyncRequestMessage (m : Message) : ManagersM Bool := do
  let s ← get
  if !s.isFinishedConnecting then return false
  else do
    let paths ← onFiles (Fs.enumerateAllFiles s.folders)
    sendFiles env m.originatorNode paths.length 0 paths
    return true

/-- Save the backup IP addresses, and the list of folders the network is managing. -/
def adopt (m : ConnectMessage) : ManagersM Unit := modify fun s => { s with
  peerManager := { s.peerManager with backupPeers := m.backupPeers }
  folders := m.managedPaths.map filePath }

/-- Reset file counts. -/
def resetCounts : ManagersM Unit := modify fun s => { s with
  receivedInitialFiles := 0
  totalInitialFiles := 1 }

def processConnectMessage (m : ConnectMessage) : ManagersM Bool := do
  adopt m
  onFiles (prepareFolders (m.managedPaths.map filePath))
  resetCounts
  return true

/-- Notify the rest of the network that a peer disconnected. -/
def disconnectOf (removedIP : IpAddress) : Message where
  type := .disconnect
  receiverNode := .ipv6Unspecified
  originatorNode := removedIP
  messageHash := 0

def processLinkLostMessage (m : Message) : ManagersM Bool := do
  match ← onPeerManager (PeerManager.linkLost m.originatorNode env.attempts) with
  | some removedIP => do
    send env (.message (disconnectOf removedIP)) .ipv6Unspecified
    return true
  | none => return true

/-- The first loop of `processDisconnectMessage`. The entry behind one that is erased takes its
place, and is passed over. -/
def eraseBackups (ip : IpAddress) :
    List (IpAddress × UInt16) → List (IpAddress × UInt16)
  | [] => []
  | [backup] => if backup.1 = ip then [] else [backup]
  | backup :: next :: rest =>
    if backup.1 = ip then next :: eraseBackups ip rest else backup :: eraseBackups ip (next :: rest)

/-- Remove the disconnected peer as a backup peer. -/
def removeBackup (ip : IpAddress) : ManagersM Unit := modify fun s => { s with
  peerManager := { s.peerManager with
    backupPeers := eraseBackups ip s.peerManager.backupPeers } }

/-- Send ourselves an unlock message for every file. -/
def unlockEach (m : Message) : List FilePath → ManagersM Unit
  | [] => pure ()
  | path :: paths => do
    send env (.file (Node.disconnectUnlock m path)) .ipv6Loopback
    unlockEach m paths

def processDisconnectMessage (m : Message) : ManagersM Bool := do
  let s ← get
  if !s.isFinishedConnecting then return false
  else do
    removeBackup m.originatorNode
    let paths ← onFiles (Fs.enumerateAllFiles s.folders)
    unlockEach env m paths
    return true

/-- The switch in `processNextMessage`. No object of another class than that of its type is ever
queued. -/
def dispatch (m : AnyMessage) : ManagersM Bool := do
  let connected := (← get).isFinishedConnecting
  match m.base.type, m with
  | .payload, .payload _ => return true
  | .resendRequest, .resendRequest m => processResendRequestMessage env m
  | .lock, .file m => onFiles (processLockMessage env.host connected m)
  | .unlock, .file m => onFiles (processUnlockMessage env.host connected m)
  | .deleteFile, .file m => onFiles (processDeleteFileMessage env.host connected m)
  | .contentChange, .fileContent m => onFiles (processContentFileMessage env.host connected m)
  | .initialSync, .fileInitialSync m => do
    onNode (Node.countInitialFile m)
    onFiles (processInitialFileSyncMessage env.host m)
  | .initialSyncRequest, .message m => processInitialFileSyncRequestMessage env m
  | .connect, .connect m => processConnectMessage m
  | .disconnect, .message m => processDisconnectMessage env m
  | .linkLost, .message m => processLinkLostMessage env m
  | _, _ => throw .runtime

/-- A null pointer is never dispatched either. -/
def process : Option AnyMessage → ManagersM Bool
  | none => throw .runtime
  | some m => dispatch env m

/-! ## The queue -/

/-- `messageQueue->pop()` -/
def pop : ManagersM Unit :=
  modify fun s => { s with queue := Heap.pop (PrioComp env.undefined) s.queue }

/-- The message was successful: it is moved into the buffer of old messages. -/
def retire (msgPtr : Option AnyMessage) : ManagersM Unit := modify fun s => { s with
  oldMessages := msgPtr.toList.foldl MessageManager.emplaceBack s.oldMessages
  retired := msgPtr.toList ++ s.retired }

/-- Otherwise it is moved back into the queue. -/
def requeue (msgPtr : Option AnyMessage) : ManagersM Unit :=
  match msgPtr.bind fun m => requeuePriority m.base.type with
  | some priority => modify fun s => { s with
      queue := Heap.push (PrioComp env.undefined) s.queue (priority, msgPtr) }
  | none => throw .runtime

def processNextMessage : ManagersM Unit := do
  match (← get).queue with
  | [] => return
  | (_, msgPtr) :: _ => do
    pop env
    if ← process env msgPtr then retire msgPtr else requeue env msgPtr

end Handlers

/-! ## Steps -/

/-- What happens to a node. -/
inductive Event
  /-- A message joins the queue, from another thread. -/
  | arrive (priority : Nat) (m : AnyMessage)
  /-- `processNextMessage` is called, and returns. -/
  | call

def perform (env : Circumstances) : Event → ManagersM Unit
  | .arrive priority m => emplace env priority m
  | .call => processNextMessage env

/-- One event. -/
def Step (s : Managers) (l : Circumstances × Event) (t : Managers) : Prop :=
  perform l.1 l.2 s = .ok () t

/-- A message is processed; whether the handler says so or it goes back into the queue is left
open. -/
def Processes (s : Managers) (l : Circumstances × AnyMessage) (t : Managers) : Prop :=
  ∃ processed, process l.1 (some l.2) s = .ok processed t

/-! ## Files -/

section Files

variable {s t : Managers} {α : Type} {x : Fs α} {a : α}

theorem onFiles_ok {files : FileSystem} (h : x s.files = .ok a files) :
    onFiles x s = .ok a { s with files } := by
  rw [onFiles, onNode, Node.onFiles_ok h]

theorem onFiles_eq_ok (h : onFiles x s = .ok a t) :
    ∃ files, x s.files = .ok a files ∧ t = { s with files } := by
  unfold onFiles onNode Node.onFiles at h
  cases hx : x s.files with
  | ok b files =>
    rw [hx] at h
    obtain ⟨rfl, rfl⟩ := EStateM.Result.ok.inj h
    exact ⟨files, rfl, rfl⟩
  | error e files =>
    rw [hx] at h
    cases h

/-- What only looks at the files changes nothing. -/
theorem onFiles_read (hx : ∀ fs, final (x fs) = fs) (h : onFiles x s = .ok a t) :
    x s.files = .ok a s.files ∧ t = s := by
  obtain ⟨files, hrun, rfl⟩ := onFiles_eq_ok h
  have hfiles := hx s.files
  rw [hrun] at hfiles
  obtain rfl : files = s.files := hfiles
  exact ⟨hrun, rfl⟩

theorem onFiles_enumerate {folders paths : List FilePath}
    (h : onFiles (Fs.enumerateAllFiles folders) s = .ok paths t) :
    Fs.enumerateAllFiles folders s.files = .ok paths s.files ∧ t = s := by
  refine onFiles_read (fun fs => ?_) h
  have hkeeps : Keeps (fun fs' => fs' = fs) (Fs.enumerateAllFiles folders) :=
    Fs.keeps_enumerateAllFiles folders
  exact hkeeps fs rfl

end Files

/-! ## What handlers leave alone -/

/-- What does not go by what the peers remember, and bears messages joining the queue. -/
structure SparedByAsking (Inv : Managers → Prop) : Prop where
  asked : ∀ s peers, Inv s → Inv { s with peerManager := { s.peerManager with peers } }
  written : ∀ s written, Inv s → Inv { s with written }
  emplaced : ∀ env priority m, Keeps Inv (emplace env priority m)

/-- What does not go by the peers, and bears messages joining the queue. -/
structure SparedByRouting (Inv : Managers → Prop) : Prop where
  peers : ∀ s peerManager, Inv s → Inv { s with peerManager }
  written : ∀ s written, Inv s → Inv { s with written }
  emplaced : ∀ env priority m, Keeps Inv (emplace env priority m)

/-- Nor by what is sent. -/
structure SparedBySending (Inv : Managers → Prop) : Prop extends SparedByRouting Inv where
  remembered : ∀ m, Keeps Inv (remember m)

/-- Nor by the files. -/
structure SparedByHandlers (Inv : Managers → Prop) : Prop extends SparedBySending Inv where
  files : ∀ s files, Inv s → Inv { s with files }

section Frames

variable {Inv : Managers → Prop} {α : Type} {env : Circumstances}

theorem keeps_onFiles (h : SparedByHandlers Inv) (x : Fs α) : Keeps Inv (onFiles x) := by
  intro s hs
  unfold onFiles onNode Node.onFiles
  cases x s.files with
  | ok a files => exact h.files s files hs
  | error e files => exact h.files s files hs

theorem SparedByRouting.asking (h : SparedByRouting Inv) : SparedByAsking Inv where
  asked s _ hs := h.peers s _ hs
  written := h.written
  emplaced := h.emplaced

theorem keeps_onPeers (h : SparedByAsking Inv)
    (x : EStateM ZTError (List PeerEntry) α) :
    Keeps Inv (onPeerManager (PeerManager.onPeers x)) := by
  intro s hs
  unfold onPeerManager PeerManager.onPeers
  cases x s.peerManager.peers with
  | ok a peers => exact h.asked s peers hs
  | error e peers => exact h.asked s peers hs

theorem keeps_onPeerManager (h : SparedByRouting Inv) (x : PeerManager.PeerM α) :
    Keeps Inv (onPeerManager x) := by
  intro s hs
  unfold onPeerManager
  cases x s.peerManager with
  | ok a peerManager => exact h.peers s peerManager hs
  | error e peerManager => exact h.peers s peerManager hs

theorem keeps_get : Keeps Inv (get : ManagersM Managers) := Keeps.of_final fun _ => rfl

theorem keeps_transmit (h : SparedByAsking Inv) (index : Nat) (data : Bytes) :
    Keeps Inv (transmit index data) :=
  fun s hs => h.written s _ hs

theorem keeps_forward (h : SparedByAsking Inv) (source : IpAddress) (data : Bytes)
    (indices : List Nat) : Keeps Inv (forward source data indices) := by
  induction indices with
  | nil => exact Keeps.pure ()
  | cons index rest ih =>
    have hip : Keeps Inv (getRemoteIP index) := keeps_onPeers h _
    have hhere : Keeps Inv (forwardTo source data index) :=
      hip.bind fun ip => (keeps_transmit h index data).ite (Keeps.pure ())
    exact hhere.bind fun _ => ih

section Route

variable {receive : Bytes → ManagersM Unit} (hreceive : ∀ data, Keeps Inv (receive data))
include hreceive

theorem keeps_forward2all (h : SparedByAsking Inv) (source : IpAddress) (data : Bytes) :
    Keeps Inv (forward2all env receive source data) := by
  refine keeps_get.bind fun s => (keeps_forward h source data _).bind fun _ => ?_
  exact (Keeps.pure ()).ite (hreceive data)

theorem keeps_routeData (h : SparedByAsking Inv) (data : Bytes) (destination source : IpAddress) :
    Keeps Inv (routeData env receive data destination source) := by
  refine (keeps_forward2all hreceive h source data).ite ((hreceive data).ite ?_)
  refine (keeps_onPeers h _).bind fun index => ?_
  cases index with
  | none => exact keeps_forward2all hreceive h source data
  | some index => exact keeps_transmit h index data

end Route

/-- What goes on while a message is sent, if the requests it calls for are all right. -/
theorem keeps_routed (h : SparedByAsking Inv) {depth : Nat}
    (hsend : ∀ request destination,
      Keeps Inv (sendAt env depth (.resendRequest request) destination))
    (data : Bytes) (destination source : IpAddress) :
    Keeps Inv (routeData env (receive env (sendAt env depth)) data destination source) := by
  refine keeps_routeData (fun data => ?_) h _ _ _
  unfold receive
  split
  · exact h.emplaced env _ _
  · exact hsend _ _
  · exact Keeps.throw _
  · exact Keeps.throw _
  · exact Keeps.throw _

theorem keeps_sendAt (h : SparedByAsking Inv) (hremembered : ∀ m, Keeps Inv (remember m))
    (depth : Nat) (m : AnyMessage) (destination : IpAddress) :
    Keeps Inv (sendAt env depth m destination) := by
  induction depth generalizing m destination with
  | zero => exact Keeps.throw _
  | succ depth ih =>
    refine (keeps_routed h ?_ _ _ _).bind fun _ => hremembered _
    exact fun request => ih (.resendRequest request)

theorem keeps_send (h : SparedBySending Inv) (m : AnyMessage) (destination : IpAddress) :
    Keeps Inv (send env m destination) :=
  keeps_sendAt h.toSparedByRouting.asking h.remembered 2 m destination

theorem keeps_resend (h : SparedByHandlers Inv) (request : ResendRequestMessage) :
    Keeps Inv (processResendRequestMessage env request) := by
  refine keeps_get.bind fun s => ?_
  split
  · exact Keeps.throw _
  · exact Keeps.pure _
  · exact (keeps_send h.toSparedBySending _ _).bind fun _ => Keeps.pure _

theorem keeps_sendFiles (h : SparedByHandlers Inv) (destination : IpAddress) (size i : Nat)
    (paths : List FilePath) : Keeps Inv (sendFiles env destination size i paths) := by
  induction paths generalizing i with
  | nil => exact Keeps.pure ()
  | cons path paths ih =>
    have hhere : Keeps Inv (sendFile env destination size i path) := by
      refine (keeps_onFiles h _).bind fun content => ?_
      refine (keeps_send h.toSparedBySending _ _).bind fun _ => ?_
      refine (keeps_onFiles h _).bind fun lock => ?_
      cases lock with
      | none => exact Keeps.pure ()
      | some lock => exact keeps_send h.toSparedBySending _ _
    exact hhere.bind fun _ => ih _

theorem keeps_syncRequest (h : SparedByHandlers Inv) (m : Message) :
    Keeps Inv (processInitialFileSyncRequestMessage env m) := by
  refine keeps_get.bind fun s => (Keeps.pure _).ite ?_
  refine (keeps_onFiles h _).bind fun paths => ?_
  exact (keeps_sendFiles h _ _ _ _).bind fun _ => Keeps.pure _

theorem keeps_linkLost (h : SparedByHandlers Inv) (m : Message) :
    Keeps Inv (processLinkLostMessage env m) := by
  refine (keeps_onPeerManager h.toSparedByRouting _).bind fun removedIP => ?_
  cases removedIP with
  | none => exact Keeps.pure _
  | some removedIP => exact (keeps_send h.toSparedBySending _ _).bind fun _ => Keeps.pure _

theorem keeps_unlockEach (h : SparedByHandlers Inv) (m : Message) (paths : List FilePath) :
    Keeps Inv (unlockEach env m paths) := by
  induction paths with
  | nil => exact Keeps.pure ()
  | cons path paths ih => exact (keeps_send h.toSparedBySending _ _).bind fun _ => ih

theorem keeps_disconnect (h : SparedByHandlers Inv) (m : Message) :
    Keeps Inv (processDisconnectMessage env m) := by
  refine keeps_get.bind fun s => (Keeps.pure _).ite ?_
  have hbackup : Keeps Inv (removeBackup m.originatorNode) := fun s hs => h.peers s _ hs
  refine hbackup.bind fun _ => (keeps_onFiles h _).bind fun paths => ?_
  exact (keeps_unlockEach h m paths).bind fun _ => Keeps.pure _

/-- No handler but two touches anything else. -/
theorem keeps_dispatch (h : SparedByHandlers Inv) {m : AnyMessage}
    (hsync : m.base.type = .initialSync →
      ∀ m : FileInitialSyncMessage, Keeps Inv (onNode (Node.countInitialFile m)))
    (hconnect : m.base.type = .connect →
      ∀ m : ConnectMessage, Keeps Inv (processConnectMessage m)) :
    Keeps Inv (dispatch env m) := by
  refine keeps_get.bind fun s => ?_
  dsimp only
  split
  · exact Keeps.pure _
  · exact keeps_resend h _
  · exact keeps_onFiles h _
  · exact keeps_onFiles h _
  · exact keeps_onFiles h _
  · exact keeps_onFiles h _
  · next htype => exact (hsync htype _).bind fun _ => keeps_onFiles h _
  · exact keeps_syncRequest h _
  · next htype => exact hconnect htype _
  · exact keeps_disconnect h _
  · exact keeps_linkLost h _
  · exact Keeps.throw _

end Frames

/-! ## Which handler -/

/-- The class of a message is the one of its type: what is sent over the wire, and what threads
leave in the queue of their own node. -/
def Typed : AnyMessage → Prop
  | .message m => m.type = .disconnect ∨ m.type = .initialSyncRequest ∨ m.type = .linkLost
  | m => m.WireTyped

/-- These types have a class of their own. -/
theorem Typed.of_resendRequest {m : AnyMessage} (h : Typed m)
    (htype : m.base.type = .resendRequest) : ∃ request, m = .resendRequest request := by
  cases m with
  | resendRequest request => exact ⟨request, rfl⟩
  | message m | file m => rcases h with h | h | h <;> cases htype.symm.trans h
  | payload m | fileContent m | fileInitialSync m | connect m => cases htype.symm.trans h

theorem Typed.of_initialSync {m : AnyMessage} (h : Typed m)
    (htype : m.base.type = .initialSync) : ∃ sync, m = .fileInitialSync sync := by
  cases m with
  | fileInitialSync sync => exact ⟨sync, rfl⟩
  | message m | file m => rcases h with h | h | h <;> cases htype.symm.trans h
  | payload m | resendRequest m | fileContent m | connect m => cases htype.symm.trans h

section Dispatch

variable (env : Circumstances) (s : Managers)

/-- Only such messages have a handler. -/
theorem typed_of_process {m : AnyMessage} {processed : Bool} {t : Managers}
    (h : process env (some m) s = .ok processed t) : Typed m := by
  have htyped : Ensures (dispatch env m) fun _ _ => Typed m := by
    refine Ensures.bind fun s => ?_
    dsimp only
    split
    · next htype => exact fun _ _ _ _ => htype
    · next htype => exact fun _ _ _ _ => htype
    · next htype => exact fun _ _ _ _ => Or.inl htype
    · next htype => exact fun _ _ _ _ => Or.inr (Or.inl htype)
    · next htype => exact fun _ _ _ _ => Or.inr (Or.inr htype)
    · next htype => exact fun _ _ _ _ => htype
    · next htype => exact fun _ _ _ _ => htype
    · next htype => exact fun _ _ _ _ => Or.inr (Or.inl htype)
    · next htype => exact fun _ _ _ _ => htype
    · next htype => exact fun _ _ _ _ => Or.inl htype
    · next htype => exact fun _ _ _ _ => Or.inr (Or.inr htype)
    · exact Ensures.throw _
  exact htyped s processed t h

theorem process_resendRequest {m : ResendRequestMessage} (h : m.type = .resendRequest) :
    process env (some (.resendRequest m)) s = processResendRequestMessage env m s := by
  have htype : (AnyMessage.resendRequest m).base.type = .resendRequest := h
  unfold process dispatch
  simp only [htype]
  rfl

/-- A node does not answer its own requests. -/
theorem process_ownRequest {m : ResendRequestMessage} (h : m.type = .resendRequest)
    (hself : m.originatorNode = env.host.self) :
    process env (some (.resendRequest m)) s = .ok true s := by
  have hnone : MessageManager.processResendRequestMessage env.host.self s.oldMessages m =
      some none := if_pos hself
  rw [process_resendRequest env s h]
  show (match MessageManager.processResendRequestMessage env.host.self s.oldMessages m with
    | none => throw .runtime
    | some none => pure true
    | some (some (m, destination)) => send env m destination >>= fun _ => pure true :
      ManagersM Bool) s = _
  rw [hnone]
  rfl

theorem process_lock {m : FileMessage} (h : m.type = .lock) :
    process env (some (.file m)) s =
      onFiles (processLockMessage env.host s.isFinishedConnecting m) s := by
  have htype : (AnyMessage.file m).base.type = .lock := h
  unfold process dispatch
  simp only [htype]
  rfl

theorem process_unlock {m : FileMessage} (h : m.type = .unlock) :
    process env (some (.file m)) s =
      onFiles (processUnlockMessage env.host s.isFinishedConnecting m) s := by
  have htype : (AnyMessage.file m).base.type = .unlock := h
  unfold process dispatch
  simp only [htype]
  rfl

theorem process_deleteFile {m : FileMessage} (h : m.type = .deleteFile) :
    process env (some (.file m)) s =
      onFiles (processDeleteFileMessage env.host s.isFinishedConnecting m) s := by
  have htype : (AnyMessage.file m).base.type = .deleteFile := h
  unfold process dispatch
  simp only [htype]
  rfl

theorem process_contentChange {m : FileContentMessage} (h : m.type = .contentChange) :
    process env (some (.fileContent m)) s =
      onFiles (processContentFileMessage env.host s.isFinishedConnecting m) s := by
  have htype : (AnyMessage.fileContent m).base.type = .contentChange := h
  unfold process dispatch
  simp only [htype]
  rfl

theorem process_initialSync {m : FileInitialSyncMessage} (h : m.type = .initialSync) :
    process env (some (.fileInitialSync m)) s =
      (onNode (Node.countInitialFile m) >>= fun _ =>
        onFiles (processInitialFileSyncMessage env.host m)) s := by
  have htype : (AnyMessage.fileInitialSync m).base.type = .initialSync := h
  unfold process dispatch
  simp only [htype]
  rfl

theorem process_syncRequest {m : Message} (h : m.type = .initialSyncRequest) :
    process env (some (.message m)) s =
      processInitialFileSyncRequestMessage env m s := by
  have htype : (AnyMessage.message m).base.type = .initialSyncRequest := h
  unfold process dispatch
  simp only [htype]
  rfl

theorem process_connect {m : ConnectMessage} (h : m.type = .connect) :
    process env (some (.connect m)) s =
      processConnectMessage m s := by
  have htype : (AnyMessage.connect m).base.type = .connect := h
  unfold process dispatch
  simp only [htype]
  rfl

theorem process_disconnect {m : Message} (h : m.type = .disconnect) :
    process env (some (.message m)) s =
      processDisconnectMessage env m s := by
  have htype : (AnyMessage.message m).base.type = .disconnect := h
  unfold process dispatch
  simp only [htype]
  rfl

end Dispatch

/-! ## One node -/

/-- The circumstances of `reader`, which reaches no backup. -/
def readerCircumstances : Circumstances where
  host := reader
  undefined _ _ := false
  sendClock _ := .utc 0
  checkClock _ := .utc 0
  syncTime _ := 0
  lockTime _ := 0
  attempts _ := none

/-- What becomes of a node that processes the messages, unless a handler throws. -/
def afterAll (s : Managers) (ls : List (Circumstances × AnyMessage)) : Option Managers :=
  ls.foldlM (fun s l => match process l.1 (some l.2) s with
    | .ok _ t => some t
    | .error _ _ => none) s

theorem trace_of_afterAll {s t : Managers} {ls : List (Circumstances × AnyMessage)}
    (h : s.afterAll ls = some t) : Trace Processes s ls t := by
  induction ls generalizing s with
  | nil =>
    obtain rfl : s = t := Option.some_inj.mp h
    exact .nil s
  | cons l ls ih =>
    rw [afterAll, List.foldlM_cons, Option.bind_eq_bind, Option.bind_eq_some_iff] at h
    obtain ⟨u, hfirst, hrest⟩ := h
    cases hrun : process l.1 (some l.2) s with
    | ok processed u' =>
      rw [hrun] at hfirst
      obtain rfl := Option.some_inj.mp hfirst
      exact .cons ⟨processed, hrun⟩ (ih hrest)
    | error e u' =>
      rw [hrun] at hfirst
      cases hfirst

/-- A node that has joined a network with the one file `docs/a`. -/
def joinedDocs : Managers where
  files := .docs ⟨[], 0o644⟩
  queue := []
  receivedInitialFiles := 1
  totalInitialFiles := 1
  folders := [FileSystem.docsA.dropLast]
  peerManager := {}

end Managers

end WhisperNet
