import WhisperNet.Common

/-!
# Messages

`messages.hpp`: the message classes, the string each is hashed by, and how each is written to and
read from a cereal binary archive. The archive writes integers at their width in the machine's
byte order, and strings and vectors after their 8-byte size.

An object of a subclass is a structure that extends its base class; `AnyMessage` is what a
`std::unique_ptr<Message>` may point to.
-/

namespace WhisperNet

open Bin

/-! ## The classes -/

/-- `Message::Type`, an enumeration over `uint8_t`. -/
inductive MessageType
  | invalid
  | lock
  | unlock
  | deleteFile
  | contentChange
  | initialSync
  | initialSyncRequest
  | connect
  | disconnect
  | payload
  | resendRequest
  | linkLost
  /-- A byte that names no enumerator. -/
  | unknown (b : UInt8) (h : 12 ≤ b)
  deriving DecidableEq

namespace MessageType

def toByte : MessageType → UInt8
  | invalid => 0
  | lock => 1
  | unlock => 2
  | deleteFile => 3
  | contentChange => 4
  | initialSync => 5
  | initialSyncRequest => 6
  | connect => 7
  | disconnect => 8
  | payload => 9
  | resendRequest => 10
  | linkLost => 11
  | unknown b _ => b

def ofByte (b : UInt8) : MessageType :=
  if h : 12 ≤ b then unknown b h
  else match b.toNat with
    | 0 => invalid
    | 1 => lock
    | 2 => unlock
    | 3 => deleteFile
    | 4 => contentChange
    | 5 => initialSync
    | 6 => initialSyncRequest
    | 7 => connect
    | 8 => disconnect
    | 9 => payload
    | 10 => resendRequest
    | _ => linkLost

@[simp] theorem ofByte_toByte (t : MessageType) : ofByte t.toByte = t := by
  cases t with
  | unknown b h => exact dif_pos h
  | _ => rfl

theorem toByte_ofByte (b : UInt8) : (ofByte b).toByte = b := by
  unfold ofByte
  split
  · rfl
  · next h =>
    have hlt : b.toNat < 12 := UInt8.lt_iff_toNat_lt.mp (UInt8.not_le.mp h)
    rw [← UInt8.ofNat_toNat (x := b)]
    interval_cases b.toNat <;> rfl

/-- The file types of `PrioComp`, as the code tests for them: a bit in common with the union of the
enumerators. -/
def fileTypes : UInt8 :=
  lock.toByte ||| unlock.toByte ||| deleteFile.toByte ||| contentChange.toByte |||
    initialSync.toByte

end MessageType

/-- `Message`: type, routing and error checking. -/
structure Message where
  type : MessageType
  /-- The destination; unspecified to broadcast. -/
  receiverNode : IpAddress
  /-- The previous hop. Not serialized. -/
  senderNode : IpAddress := .ipv6Unspecified
  originatorNode : IpAddress := .ipv6Unspecified
  messageHash : UInt64
  deriving DecidableEq

structure PayloadMessage extends Message where
  payload : Bytes
  deriving DecidableEq

structure ResendRequestMessage extends Message where
  requestedHash : UInt64
  originalDestination : IpAddress
  deriving DecidableEq

structure FileMessage extends Message where
  targetFile : FsPath
  timestamp : TimePoint
  deriving DecidableEq

structure FileContentMessage extends FileMessage where
  fileContent : Bytes
  deriving DecidableEq

structure FileInitialSyncMessage extends FileContentMessage where
  total : UInt64
  index : UInt64
  deriving DecidableEq

structure ConnectMessage extends Message where
  backupPeers : List (IpAddress × UInt16)
  managedPaths : List FsPath
  deriving DecidableEq

/-- An object behind a `std::unique_ptr<Message>`. -/
inductive AnyMessage
  | message (m : Message)
  | payload (m : PayloadMessage)
  | resendRequest (m : ResendRequestMessage)
  | file (m : FileMessage)
  | fileContent (m : FileContentMessage)
  | fileInitialSync (m : FileInitialSyncMessage)
  | connect (m : ConnectMessage)
  deriving DecidableEq

namespace AnyMessage

/-- The `Message` part of an object. -/
def base : AnyMessage → Message
  | message m => m
  | payload m => m.toMessage
  | resendRequest m => m.toMessage
  | file m => m.toMessage
  | fileContent m => m.toMessage
  | fileInitialSync m => m.toMessage
  | connect m => m.toMessage

/-- The object with another `Message` part. -/
def withBase (b : Message) : AnyMessage → AnyMessage
  | message _ => message b
  | payload m => payload { m with toMessage := b }
  | resendRequest m => resendRequest { m with toMessage := b }
  | file m => file { m with toMessage := b }
  | fileContent m => fileContent { m with toMessage := b }
  | fileInitialSync m => fileInitialSync { m with toMessage := b }
  | connect m => connect { m with toMessage := b }

@[simp] theorem base_withBase (m : AnyMessage) (b : Message) : (m.withBase b).base = b := by
  cases m <;> rfl

@[simp] theorem withBase_withBase (m : AnyMessage) (b c : Message) :
    (m.withBase b).withBase c = m.withBase c := by
  cases m <;> rfl

end AnyMessage

/-! ## What is hashed -/

section HashString

variable (pf : Platform) (clk : Clock)

def Message.hashString (m : Message) : Bytes :=
  toDecimal m.type.toByte.toNat ++ pf.ipToString m.receiverNode ++ pf.ipToString m.originatorNode

def PayloadMessage.hashString (m : PayloadMessage) : Bytes :=
  m.toMessage.hashString pf ++ m.payload

def ResendRequestMessage.hashString (m : ResendRequestMessage) : Bytes :=
  m.toMessage.hashString pf ++ toDecimal m.requestedHash.toNat ++
    pf.ipToString m.originalDestination

def FileMessage.hashString (m : FileMessage) : Bytes :=
  m.toMessage.hashString pf ++ m.targetFile.native ++ ctime clk (to_time_t clk m.timestamp)

def FileContentMessage.hashString (m : FileContentMessage) : Bytes :=
  m.toFileMessage.hashString pf clk ++ m.fileContent

def FileInitialSyncMessage.hashString (m : FileInitialSyncMessage) : Bytes :=
  m.toFileContentMessage.hashString pf clk ++ toDecimal m.total.toNat ++ toDecimal m.index.toNat

def ConnectMessage.hashString (m : ConnectMessage) : Bytes :=
  m.toMessage.hashString pf ++
    m.backupPeers.flatMap (fun peer => pf.ipToString peer.1 ++ toDecimal peer.2.toNat) ++
    m.managedPaths.flatMap FsPath.native

/-- The virtual `hashString`. -/
def AnyMessage.hashString : AnyMessage → Bytes
  | message m => m.hashString pf
  | payload m => m.hashString pf
  | resendRequest m => m.hashString pf
  | file m => m.hashString pf clk
  | fileContent m => m.hashString pf clk
  | fileInitialSync m => m.hashString pf clk
  | connect m => m.hashString pf

/-- `Message::hash`. -/
def AnyMessage.hash (m : AnyMessage) : UInt64 := WhisperNet.hash (m.hashString pf clk)

end HashString

/-! ## The archive -/

section Archive

variable (pf : Platform)

/-- A string: its size, then its characters. -/
def saveString (s : Bytes) : Bytes := putNat pf.endian 8 s.length ++ s

def loadString : Reader Bytes := do
  let size ← getNat pf.endian 8
  block size

/-- A vector: its size, then its elements. -/
def saveVector {α : Type} (save : α → Bytes) (xs : List α) : Bytes :=
  putNat pf.endian 8 xs.length ++ xs.flatMap save

def loadVector {α : Type} (load : Reader α) : Reader (List α) := do
  let size ← getNat pf.endian 8
  many load size

def IpAddress.save : IpAddress → Bytes
  | ipv4 addr => put8 pf.ipv4Family ++ put32 .big addr
  | ipv6 hi lo => put8 pf.ipv6Family ++ (put64 .big hi ++ put64 .big lo)

def IpAddress.load : Reader IpAddress := do
  let family ← get8
  if family = pf.ipv4Family then
    let data ← get32 .big
    return ipv4 data
  else
    let hi ← get64 .big
    let lo ← get64 .big
    return ipv6 hi lo

/-- A path is saved as the elements of its normal form. -/
def savePath (p : FsPath) : Bytes := saveVector pf (saveString pf) p.lexicallyNormal.elements

def loadPath : Reader FsPath := do
  let parts ← loadVector pf (loadString pf)
  return FsPath.ofElements parts

/-- `Message::serialize`, writing. -/
def Message.save (m : Message) : Bytes :=
  put8 m.type.toByte ++
    (m.receiverNode.save pf ++ (m.originatorNode.save pf ++ put64 pf.endian m.messageHash))

/-- `Message::serialize`, reading into a fresh object. -/
def Message.load : Reader Message := do
  let type ← get8
  let receiverNode ← IpAddress.load pf
  let originatorNode ← IpAddress.load pf
  let messageHash ← get64 pf.endian
  return { type := .ofByte type, receiverNode, originatorNode, messageHash }

def PayloadMessage.save (m : PayloadMessage) : Bytes :=
  m.toMessage.save pf ++ saveString pf m.payload

def PayloadMessage.load : Reader PayloadMessage := do
  let toMessage ← Message.load pf
  let payload ← loadString pf
  return { toMessage, payload }

def ResendRequestMessage.save (m : ResendRequestMessage) : Bytes :=
  m.toMessage.save pf ++ (put64 pf.endian m.requestedHash ++ m.originalDestination.save pf)

def ResendRequestMessage.load : Reader ResendRequestMessage := do
  let toMessage ← Message.load pf
  let requestedHash ← get64 pf.endian
  let originalDestination ← IpAddress.load pf
  return { toMessage, requestedHash, originalDestination }

/-- `FileMessage::save`: the timestamp goes out as a `time_t`. -/
def FileMessage.save (m : FileMessage) : Bytes :=
  m.toMessage.save pf ++
    (savePath pf m.targetFile ++ put64 pf.endian (systemToTimeT m.timestamp).toUInt64)

def FileMessage.load : Reader FileMessage := do
  let toMessage ← Message.load pf
  let targetFile ← loadPath pf
  let tm ← get64 pf.endian
  return { toMessage, targetFile, timestamp := systemFromTimeT tm.toInt64 }

def FileContentMessage.save (m : FileContentMessage) : Bytes :=
  m.toFileMessage.save pf ++ saveString pf m.fileContent

def FileContentMessage.load : Reader FileContentMessage := do
  let toFileMessage ← FileMessage.load pf
  let fileContent ← loadString pf
  return { toFileMessage, fileContent }

def FileInitialSyncMessage.save (m : FileInitialSyncMessage) : Bytes :=
  m.toFileContentMessage.save pf ++ (put64 pf.endian m.total ++ put64 pf.endian m.index)

def FileInitialSyncMessage.load : Reader FileInitialSyncMessage := do
  let toFileContentMessage ← FileContentMessage.load pf
  let total ← get64 pf.endian
  let index ← get64 pf.endian
  return { toFileContentMessage, total, index }

/-- One entry of `backupPeers`. -/
def savePeer (peer : IpAddress × UInt16) : Bytes := peer.1.save pf ++ put16 pf.endian peer.2

def loadPeer : Reader (IpAddress × UInt16) := do
  let ip ← IpAddress.load pf
  let port ← get16 pf.endian
  return (ip, port)

def ConnectMessage.save (m : ConnectMessage) : Bytes :=
  m.toMessage.save pf ++
    (saveVector pf (savePeer pf) m.backupPeers ++ saveVector pf (savePath pf) m.managedPaths)

def ConnectMessage.load : Reader ConnectMessage := do
  let toMessage ← Message.load pf
  let backupPeers ← loadVector pf (loadPeer pf)
  let managedPaths ← loadVector pf (loadPath pf)
  return { toMessage, backupPeers, managedPaths }

/-- `ar << msg`, for the class of the object. -/
def AnyMessage.save : AnyMessage → Bytes
  | message m => m.save pf
  | payload m => m.save pf
  | resendRequest m => m.save pf
  | file m => m.save pf
  | fileContent m => m.save pf
  | fileInitialSync m => m.save pf
  | connect m => m.save pf

end Archive

/-! ## Small facts -/

theorem AnyMessage.save_base (pf : Platform) (m : AnyMessage) :
    ∃ rest, m.save pf = m.base.save pf ++ rest := by
  cases m with
  | message m => exact ⟨[], (List.append_nil _).symm⟩
  | payload m => exact ⟨_, rfl⟩
  | resendRequest m => exact ⟨_, rfl⟩
  | file m => exact ⟨_, rfl⟩
  | fileContent m => exact ⟨_, List.append_assoc _ _ _⟩
  | fileInitialSync m =>
    exact ⟨_, (congrArg (· ++ _) (List.append_assoc _ _ _)).trans (List.append_assoc _ _ _)⟩
  | connect m => exact ⟨_, rfl⟩

/-- The first byte of a message is its type. -/
theorem AnyMessage.head?_save (pf : Platform) (m : AnyMessage) :
    (m.save pf).head? = some m.base.type.toByte := by
  obtain ⟨rest, hrest⟩ := m.save_base pf
  rw [hrest]
  rfl

end WhisperNet
