import WhisperNet.Routing

/-!
# The routing header

`Peer::processMessage` reads the routing data of a frame from its first `sizeof(Message)` bytes.
That is the size of an object in memory and not that of a header on the wire, which is shorter. So
what is decoded is right whatever the rest of these bytes are, but a frame that is shorter still is
read beyond its end.

* `header_save`, `decoded_save` — what is decoded from the first bytes, and from all of them.
* `length_save` — the size of a frame.
* `headerAgrees_iff` — exactly which frames are routed by bytes of their own only.
-/

namespace WhisperNet

open Bin MessageManager PeerManager

/-! ## Decoding -/

section Decoding

variable (pf : Platform)

/-- What `Peer::processMessage` decodes. The bytes after the frame are those after it in memory. -/
def header (data memory : Bytes) : Option Message :=
  ((Message.load pf).run ((data ++ memory).take pf.sizeofMessage)).map Prod.fst

/-- What `deserializeMessage` decodes, before the hash is checked. -/
def decoded (data : Bytes) : Option AnyMessage := do
  let type ← data.head?
  let br ← branch pf (.ofByte type)
  let (m, _) ← br.load.run data
  return m

/-- A frame is routed by its header. -/
theorem processMessage_header {ι : Type} (r : Router ι) (peer : ι) (data memory : Bytes) :
    r.processMessage pf peer data memory = (header pf data memory).map fun m =>
      r.routeData m.receiverNode
        (if m.senderNode = .ipv6Unspecified then r.getRemoteIP peer else m.senderNode) := by
  rw [Router.processMessage, header, Option.map_map]
  cases (Message.load pf).run ((data ++ memory).take pf.sizeofMessage) <;> rfl

section Enqueued

variable {pf} {clk : Clock} {m m' : AnyMessage} {data : Bytes}

/-- The offset of the hash is that of the class. -/
theorem branch_offset {br : Branch} (hbr : branch pf m.base.type = some br) (hw : m.WireTyped) :
    br.offset = if m.filePart.isSome then 1 else 0 := by
  have hof {t : MessageType} (htype : m.base.type = t) (hoffset : ∀ br, branch pf t = some br →
      br.offset = if m.filePart.isSome then 1 else 0) :
      br.offset = if m.filePart.isSome then 1 else 0 := hoffset br (htype ▸ hbr)
  cases m with
  | file m =>
    have htype : (AnyMessage.file m).base.type = .lock ∨
      (AnyMessage.file m).base.type = .unlock ∨ (AnyMessage.file m).base.type = .deleteFile := hw
    rcases htype with htype | htype | htype <;>
      exact hof htype fun br hbr => by
        obtain rfl := Option.some_inj.mp hbr
        rfl
  | message m | payload m | resendRequest m | fileContent m | fileInitialSync m | connect m =>
    exact hof hw fun br hbr => by
      obtain rfl := Option.some_inj.mp hbr
      rfl

/-- What is read is checked with the offset of its class. -/
theorem enqueued_iff : (∃ priority, deserializeMessage pf clk data = .enqueued priority m') ↔
    decoded pf data = some m' ∧
      m'.base.messageHash = m'.hash pf clk + if m'.filePart.isSome then 1 else 0 := by
  cases data with
  | nil => simp [deserializeMessage, decoded]
  | cons type rest =>
    cases hbr : branch pf (.ofByte type) with
    | none => simp [deserializeMessage, decoded, hbr]
    | some br =>
      cases hload : br.load.run (type :: rest) with
      | none => simp [deserializeMessage, decoded, hbr, hload]
      | some read =>
        obtain ⟨m, left⟩ := read
        obtain ⟨htype, hwire, -⟩ := branch_accepts hbr (head?_cons_toByte type rest) hload
        have hoffset := branch_offset (htype ▸ hbr) hwire
        have hdecoded : decoded pf (type :: rest) = some m := by simp [decoded, hbr, hload]
        have hvalid : validateMessageHash pf clk m br.offset = true ↔
            m.base.messageHash = m.hash pf clk + if m.filePart.isSome then 1 else 0 := by
          rw [validateMessageHash, hoffset, beq_iff_eq]
        rw [hdecoded, Option.some_inj]
        simp only [deserializeMessage, List.head?_cons, hbr, hload]
        constructor
        · rintro ⟨priority, h⟩
          split at h
          · next hcheck =>
            obtain ⟨-, rfl⟩ := Outcome.enqueued.inj h
            exact ⟨rfl, hvalid.mp hcheck⟩
          · cases h
        · rintro ⟨rfl, hhash⟩
          exact ⟨br.priority, if_pos (hvalid.mpr hhash)⟩

/-- **What is decoded is what the frame begins with**: a message of the class of its type, in the
format of this class. -/
theorem decoded_iff : decoded pf data = some m ↔
    m.WireTyped ∧ ∃ used rest, m.WrittenAs pf used ∧ data = used ++ rest := by
  constructor
  · intro h
    obtain ⟨type, hhead, h⟩ := Option.bind_eq_some_iff.mp h
    obtain ⟨br, hbr, h⟩ := Option.bind_eq_some_iff.mp h
    obtain ⟨⟨m', rest⟩, hrun, hm⟩ := Option.bind_eq_some_iff.mp h
    obtain rfl := Option.some_inj.mp hm
    obtain ⟨left, rfl⟩ := List.head?_eq_some_iff.mp hhead
    obtain ⟨-, hw, used, hused, hdata⟩ := branch_accepts hbr (head?_cons_toByte type left) hrun
    exact ⟨hw, used, rest, hused, hdata⟩
  · rintro ⟨hw, used, rest, hused, rfl⟩
    obtain ⟨br, hbr, hread, -, -⟩ := branch_reads_writtenAs hw hused
    have hhead : (used ++ rest).head? = some m.base.type.toByte := by
      rw [List.head?_append, head?_writtenAs hused]
      rfl
    simp [decoded, hhead, hbr, hread rest]

/-- What is read from a frame that has bytes after it. -/
theorem decoded_append (hw : m.WireTyped) (hf : m.Fits) (rest : Bytes) :
    decoded pf (m.save pf ++ rest) = some m.received :=
  decoded_iff.mpr ⟨wireTyped_received hw, m.save pf, rest, writtenAs_save pf hf, rfl⟩

end Enqueued

/-- The first bytes of a frame hold its routing data, whatever is behind it. -/
theorem header_save (m : AnyMessage) (memory : Bytes) :
    header pf (m.save pf) memory = some m.base.received := by
  obtain ⟨rest, htake⟩ := Router.take_save pf m memory
  rw [header, htake, reads_message pf m.base]
  rfl

theorem decoded_save {m : AnyMessage} (hw : m.WireTyped) (hf : m.Fits) :
    decoded pf (m.save pf) = some m.received := by
  have h := @decoded_append pf m hw hf []
  rwa [List.append_nil] at h

end Decoding

/-! ## Sizes -/

def IpAddress.wireSize : IpAddress → Nat
  | ipv4 _ => 5
  | ipv6 _ _ => 17

/-- The type, two addresses and the hash. -/
def Message.wireSize (m : Message) : Nat :=
  1 + m.receiverNode.wireSize + m.originatorNode.wireSize + 8

def stringSize (s : Bytes) : Nat := 8 + s.length

def pathSize (p : FsPath) : Nat := 8 + (p.lexicallyNormal.elements.map stringSize).sum

/-- What the class of a message adds to the header. -/
def AnyMessage.bodySize : AnyMessage → Nat
  | message _ => 0
  | payload m => stringSize m.payload
  | resendRequest m => 8 + m.originalDestination.wireSize
  | file m => pathSize m.targetFile + 8
  | fileContent m => pathSize m.targetFile + 8 + stringSize m.fileContent
  | fileInitialSync m => pathSize m.targetFile + 8 + stringSize m.fileContent + 16
  | connect m => 8 + (m.backupPeers.map fun peer => peer.1.wireSize + 2).sum +
      (8 + (m.managedPaths.map pathSize).sum)

/-- The size of a message on the wire. -/
def AnyMessage.wireSize (m : AnyMessage) : Nat := m.base.wireSize + m.bodySize

section Sizes

variable (pf : Platform)

theorem length_saveString (s : Bytes) : (saveString pf s).length = stringSize s := by
  simp [saveString, stringSize]

theorem length_saveVector {α : Type} {save : α → Bytes} {size : α → Nat}
    (h : ∀ x, (save x).length = size x) (xs : List α) :
    (saveVector pf save xs).length = 8 + (xs.map size).sum := by
  have hsize : (fun x => (save x).length) = size := funext h
  simp [saveVector, List.length_flatMap, hsize]

@[simp] theorem length_saveIpAddress (ip : IpAddress) : (ip.save pf).length = ip.wireSize := by
  cases ip <;> simp [IpAddress.save, IpAddress.wireSize, put8, put32]

theorem length_savePath (p : FsPath) : (savePath pf p).length = pathSize p :=
  length_saveVector pf (length_saveString pf) _

theorem length_savePeer (peer : IpAddress × UInt16) :
    (savePeer pf peer).length = peer.1.wireSize + 2 := by
  simp [savePeer, put16]

@[simp] theorem length_saveMessage (m : Message) : (m.save pf).length = m.wireSize := by
  simp [Message.save, Message.wireSize, put8]
  omega

theorem length_saveFile (m : FileMessage) :
    (m.save pf).length = m.toMessage.wireSize + (pathSize m.targetFile + 8) := by
  simp [FileMessage.save, length_savePath]

theorem length_saveFileContent (m : FileContentMessage) : (m.save pf).length =
    m.toMessage.wireSize + (pathSize m.targetFile + 8 + stringSize m.fileContent) := by
  simp [FileContentMessage.save, length_saveFile, length_saveString]
  omega

/-- **The size of a frame.** -/
theorem length_save (m : AnyMessage) : (m.save pf).length = m.wireSize := by
  cases m with
  | message m => simp [AnyMessage.save, AnyMessage.wireSize, AnyMessage.bodySize, AnyMessage.base]
  | payload m =>
    simp [AnyMessage.save, PayloadMessage.save, AnyMessage.wireSize, AnyMessage.bodySize,
      AnyMessage.base, length_saveString]
  | resendRequest m =>
    simp [AnyMessage.save, ResendRequestMessage.save, AnyMessage.wireSize, AnyMessage.bodySize,
      AnyMessage.base]
  | file m => exact length_saveFile pf m
  | fileContent m => exact length_saveFileContent pf m
  | fileInitialSync m =>
    simp [AnyMessage.save, FileInitialSyncMessage.save, AnyMessage.wireSize, AnyMessage.bodySize,
      AnyMessage.base, length_saveFileContent]
    omega
  | connect m =>
    simp [AnyMessage.save, ConnectMessage.save, AnyMessage.wireSize, AnyMessage.bodySize,
      AnyMessage.base, length_saveVector pf (length_savePeer pf),
      length_saveVector pf (length_savePath pf)]

end Sizes

/-! ## Agreement -/

/-- The header is read from bytes of the frame, and says the same as the message in it. -/
structure HeaderAgrees (pf : Platform) (data : Bytes) : Prop where
  inside : ∀ i < pf.sizeofMessage, i < data.length
  agrees : ∀ memory, ∃ h m, header pf data memory = some h ∧ decoded pf data = some m ∧
    h.type = m.base.type ∧ h.receiverNode = m.base.receiverNode ∧
    h.originatorNode = m.base.originatorNode ∧ h.messageHash = m.base.messageHash

section Frames

variable (pf : Platform) (clk : Clock) (self destination : IpAddress)

theorem wireSize_withBase {m : AnyMessage} {b : Message} (hb : b.wireSize = m.base.wireSize) :
    (m.withBase b).wireSize = m.wireSize := by
  cases m <;> exact congrArg (· + _) hb

/-- The hash has the same size whatever it is. -/
theorem length_frame (m : AnyMessage) :
    (frame pf clk self destination m).length = (route self destination m).wireSize := by
  rw [frame, length_save]
  exact wireSize_withBase rfl

/-- **The routing header agrees with the message exactly when the frame is not shorter than a
`Message` in memory.** -/
theorem headerAgrees_iff {m : AnyMessage} (hw : m.WireTyped) (hf : m.Fits) :
    HeaderAgrees pf (frame pf clk self destination m) ↔
      pf.sizeofMessage ≤ (route self destination m).wireSize := by
  rw [← length_frame pf clk]
  constructor
  · intro h
    by_contra hshort
    exact absurd (h.inside _ (not_le.mp hshort)) (lt_irrefl _)
  · intro hlong
    refine ⟨fun i hi => hi.trans_le hlong, fun memory => ?_⟩
    refine ⟨_, _, header_save pf _ memory, decoded_save pf (stamp_wireTyped hw) (stamp_fits hf), ?_⟩
    rw [AnyMessage.base_received]
    exact ⟨rfl, rfl, rfl, rfl⟩

/-- The frame of a message without a body is always shorter. -/
theorem wireSize_message_lt (m : Message) :
    (route self destination (.message m)).wireSize < pf.sizeofMessage := by
  have haddress : ∀ ip : IpAddress, ip.wireSize ≤ 17 := by
    intro ip
    cases ip <;> simp [IpAddress.wireSize]
  have hreceiver := haddress destination
  have horiginator := haddress (route self destination (.message m)).base.originatorNode
  have hsize := pf.sizeofMessage_ge
  show 1 + destination.wireSize + IpAddress.wireSize _ + 8 + 0 < _
  omega

end Frames

/-- A payload of 53 bytes. -/
def longPayload : AnyMessage :=
  .payload ⟨⟨.payload, .ipv6Unspecified, .ipv6Unspecified, .ipv6Unspecified, 0⟩,
    List.replicate 53 120⟩

def goodbye : AnyMessage :=
  .message ⟨.disconnect, .ipv6Unspecified, .ipv6Unspecified, .ipv6Unspecified, 0⟩

theorem longPayload_agrees : HeaderAgrees .littleEndian
    (frame .littleEndian (.utc 0) (.ipv4 0x0a000001) (.ipv4 0x0a000002) longPayload) := by
  have hw : longPayload.WireTyped := rfl
  have hf : longPayload.Fits := by
    show SizeFits 53
    decide
  exact (headerAgrees_iff .littleEndian (.utc 0) (.ipv4 0x0a000001) (.ipv4 0x0a000002) hw hf).mpr
    (by decide)

/-- Not so the frame of a node that says it leaves. -/
theorem goodbye_disagrees : ¬ ∀ pf clk self destination m, AnyMessage.WireTyped m → m.Fits →
    HeaderAgrees pf (frame pf clk self destination m) := by
  intro hall
  have h := hall .littleEndian (.utc 0) (.ipv4 0x0a000001) .ipv6Unspecified goodbye rfl trivial
  have hlong := h.inside 42 (by decide)
  rw [length_frame] at hlong
  exact absurd hlong (by decide)

end WhisperNet
