import WhisperNet.WireFormat

/-!
# The codec round trip

What a message's `save` writes is in the wire format of its class, not as the message itself but as
`received` describes it: so the reader of the class consumes exactly those bytes and returns that.
The sender of the previous hop is not on the wire, a path comes back in its normal form and a
timestamp in whole seconds; nothing else changes.
-/

namespace WhisperNet

open Bin

/-! ## What a message becomes on the wire -/

def Message.received (m : Message) : Message := { m with senderNode := .ipv6Unspecified }

def PayloadMessage.received (m : PayloadMessage) : PayloadMessage :=
  { m with toMessage := m.toMessage.received }

def ResendRequestMessage.received (m : ResendRequestMessage) : ResendRequestMessage :=
  { m with toMessage := m.toMessage.received }

def FileMessage.received (m : FileMessage) : FileMessage where
  toMessage := m.toMessage.received
  targetFile := m.targetFile.lexicallyNormal
  timestamp := truncateSeconds m.timestamp

def FileContentMessage.received (m : FileContentMessage) : FileContentMessage :=
  { m with toFileMessage := m.toFileMessage.received }

def FileInitialSyncMessage.received (m : FileInitialSyncMessage) : FileInitialSyncMessage :=
  { m with toFileContentMessage := m.toFileContentMessage.received }

def ConnectMessage.received (m : ConnectMessage) : ConnectMessage where
  toMessage := m.toMessage.received
  backupPeers := m.backupPeers
  managedPaths := m.managedPaths.map FsPath.lexicallyNormal

def AnyMessage.received : AnyMessage → AnyMessage
  | message m => message m.received
  | payload m => payload m.received
  | resendRequest m => resendRequest m.received
  | file m => file m.received
  | fileContent m => fileContent m.received
  | fileInitialSync m => fileInitialSync m.received
  | connect m => connect m.received

@[simp] theorem AnyMessage.base_received (m : AnyMessage) : m.received.base = m.base.received := by
  cases m <;> rfl

/-! ## Sizes -/

/-- The vector of strings a path is saved as fits in memory. -/
def PathFits (p : FsPath) : Prop :=
  SizeFits p.lexicallyNormal.elements.length ∧
    ∀ part ∈ p.lexicallyNormal.elements, SizeFits part.length

instance (p : FsPath) : Decidable (PathFits p) :=
  inferInstanceAs (Decidable (_ ∧ ∀ part ∈ p.lexicallyNormal.elements, SizeFits part.length))

/-- Every string and vector of the message fits in memory. -/
def AnyMessage.Fits : AnyMessage → Prop
  | message _ => True
  | payload m => SizeFits m.payload.length
  | resendRequest _ => True
  | file m => PathFits m.targetFile
  | fileContent m => PathFits m.targetFile ∧ SizeFits m.fileContent.length
  | fileInitialSync m => PathFits m.targetFile ∧ SizeFits m.fileContent.length
  | connect m => SizeFits m.backupPeers.length ∧ SizeFits m.managedPaths.length ∧
      ∀ p ∈ m.managedPaths, PathFits p

/-! ## What is written -/

section Writing

variable (pf : Platform)

theorem writtenAs_ipAddress (ip : IpAddress) : ip.WrittenAs pf (ip.save pf) := by
  cases ip with
  | ipv4 addr => exact .ipv4 addr
  | ipv6 hi lo => exact .ipv6 pf.family_ne hi lo

theorem writtenAs_vector {α β : Type} {F : Format β} {save : α → Bytes} {g : α → β} {xs : List α}
    (h : SizeFits xs.length) (hxs : ∀ x ∈ xs, F (g x) (save x)) :
    VectorWrittenAs pf F (xs.map g) (saveVector pf save xs) := by
  have hsize : SizeFits (xs.map g).length := by rwa [List.length_map]
  have hparts : List.Forall₂ F (xs.map g) (xs.map save) := by
    rw [List.forall₂_map_left_iff, List.forall₂_map_right_iff]
    exact List.forall₂_same.mpr hxs
  have hwritten : VectorWrittenAs pf F (xs.map g) _ := .mk hsize hparts
  rwa [List.length_map, ← List.flatMap_def] at hwritten

theorem writtenAs_path {p : FsPath} (h : PathFits p) :
    PathWrittenAs pf p.lexicallyNormal (savePath pf p) := by
  have hparts : VectorWrittenAs pf (StringWrittenAs pf) (p.lexicallyNormal.elements.map id)
      (savePath pf p) := writtenAs_vector pf h.1 fun part hpart => ⟨h.2 part hpart, rfl⟩
  rw [List.map_id] at hparts
  have hpath : PathWrittenAs pf _ (savePath pf p) := .mk hparts
  rwa [FsPath.ofElements_elements_normal] at hpath

theorem writtenAs_message (m : Message) : m.received.WrittenAs pf (m.save pf) :=
  .mk m.type (writtenAs_ipAddress pf m.receiverNode) (writtenAs_ipAddress pf m.originatorNode)
    m.messageHash

theorem writtenAs_payload {m : PayloadMessage} (h : SizeFits m.payload.length) :
    m.received.WrittenAs pf (m.save pf) :=
  .mk (writtenAs_message pf m.toMessage) ⟨h, rfl⟩

theorem writtenAs_file {m : FileMessage} (h : PathFits m.targetFile) :
    m.received.WrittenAs pf (m.save pf) := by
  have hwritten := FileMessage.WrittenAs.mk (writtenAs_message pf m.toMessage)
    (writtenAs_path pf h) (systemToTimeT m.timestamp).toUInt64
  rwa [Int64.toInt64_toUInt64] at hwritten

theorem writtenAs_fileContent {m : FileContentMessage} (hp : PathFits m.targetFile)
    (hc : SizeFits m.fileContent.length) : m.received.WrittenAs pf (m.save pf) :=
  .mk (writtenAs_file pf hp) ⟨hc, rfl⟩

/-- **What is saved is in the format of its class.** -/
theorem writtenAs_save {m : AnyMessage} (hf : m.Fits) : m.received.WrittenAs pf (m.save pf) := by
  cases m with
  | message m => exact writtenAs_message pf m
  | payload m => exact writtenAs_payload pf hf
  | resendRequest m =>
    exact .mk (writtenAs_message pf m.toMessage) m.requestedHash
      (writtenAs_ipAddress pf m.originalDestination)
  | file m => exact writtenAs_file pf hf
  | fileContent m => exact writtenAs_fileContent pf hf.1 hf.2
  | fileInitialSync m => exact .mk (writtenAs_fileContent pf hf.1 hf.2) m.total m.index
  | connect m =>
    have hpeers : VectorWrittenAs pf (PeerWrittenAs pf) (m.backupPeers.map id)
        (saveVector pf (savePeer pf) m.backupPeers) :=
      writtenAs_vector pf hf.1 fun peer _ => .mk (writtenAs_ipAddress pf peer.1) peer.2
    rw [List.map_id] at hpeers
    exact .mk (writtenAs_message pf m.toMessage) hpeers
      (writtenAs_vector pf hf.2.1 fun p hp => writtenAs_path pf (hf.2.2 p hp))

/-! ## What is read back -/

theorem reads_message (m : Message) : Reads (Message.load pf) (m.save pf) m.received :=
  (parses_message pf).reads (writtenAs_message pf m)

theorem reads_payload {m : PayloadMessage} (h : SizeFits m.payload.length) :
    Reads (PayloadMessage.load pf) (m.save pf) m.received :=
  (parses_payload pf).reads (writtenAs_payload pf h)

theorem reads_file {m : FileMessage} (h : PathFits m.targetFile) :
    Reads (FileMessage.load pf) (m.save pf) m.received :=
  (parses_file pf).reads (writtenAs_file pf h)

end Writing

end WhisperNet
