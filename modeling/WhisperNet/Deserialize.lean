import WhisperNet.Codec

/-!
# From `PeerManager::send` to the message queue

What `PeerManager::send` puts on the wire for a message, and what `deserializeMessage` makes of a
frame: it picks a branch by the first byte, reads the message, checks its hash and either enqueues
it or asks for it to be sent again.

* `branch_accepts` — what a branch reads was written in the format of its class.
* `codec_round_trip` — the branch reads back what was sent, and messages without a file part are
  accepted.
-/

namespace WhisperNet

open Bin

/-! ## Sending -/

namespace PeerManager

/-- The routing information `send` adds. -/
def route (self destination : IpAddress) (m : AnyMessage) : AnyMessage :=
  m.withBase { m.base with
    receiverNode := destination
    senderNode := self
    originatorNode :=
      if m.base.originatorNode = .ipv6Unspecified then self else m.base.originatorNode }

/-- `send` up to the serialization: routing information, then the hash. -/
def stamp (pf : Platform) (clk : Clock) (self destination : IpAddress) (m : AnyMessage) :
    AnyMessage :=
  let msg := route self destination m
  msg.withBase { msg.base with messageHash := msg.hash pf clk }

/-- The frame `send` hands to `routeData`. -/
def frame (pf : Platform) (clk : Clock) (self destination : IpAddress) (m : AnyMessage) : Bytes :=
  (stamp pf clk self destination m).save pf

end PeerManager

/-! ## Receiving -/

namespace MessageManager

def payloadPriority : Nat := 10

def resendPriority : Nat := 0

def lockPriority : Nat := 4

def filePriority : Nat := 5

def connectPriority : Nat := 1

def disconnectPriority : Nat := 2

/-- One case of the switch in `deserializeMessage`: how the message is read, the offset its hash is
checked with, and the priority it is enqueued at. -/
structure Branch where
  load : Reader AnyMessage
  offset : UInt64
  priority : Nat

/-- The switch in `deserializeMessage`; `none` is the default, which throws. -/
def branch (pf : Platform) : MessageType → Option Branch
  | .payload => some ⟨AnyMessage.payload <$> PayloadMessage.load pf, 0, payloadPriority⟩
  | .resendRequest =>
    some ⟨AnyMessage.resendRequest <$> ResendRequestMessage.load pf, 0, resendPriority⟩
  | .lock => some ⟨AnyMessage.file <$> FileMessage.load pf, 1, lockPriority⟩
  | .unlock => some ⟨AnyMessage.file <$> FileMessage.load pf, 1, lockPriority⟩
  | .deleteFile => some ⟨AnyMessage.file <$> FileMessage.load pf, 1, filePriority⟩
  | .contentChange => some ⟨AnyMessage.fileContent <$> FileContentMessage.load pf, 1, filePriority⟩
  | .initialSync =>
    some ⟨AnyMessage.fileInitialSync <$> FileInitialSyncMessage.load pf, 1, lockPriority⟩
  | .connect => some ⟨AnyMessage.connect <$> ConnectMessage.load pf, 0, connectPriority⟩
  | .disconnect => some ⟨AnyMessage.message <$> Message.load pf, 0, disconnectPriority⟩
  | _ => none

/-- `validateMessageHash`, its verdict. -/
def validateMessageHash (pf : Platform) (clk : Clock) (m : AnyMessage) (offset : UInt64) : Bool :=
  m.base.messageHash == m.hash pf clk + offset

/-- The request `validateMessageHash` sends to the previous hop. `send` fills in the rest of it. -/
def resendRequestFor (m : Message) : ResendRequestMessage where
  type := .resendRequest
  receiverNode := .ipv6Unspecified
  messageHash := 0
  requestedHash := m.messageHash
  originalDestination := m.receiverNode

/-- What `deserializeMessage` does with a frame. -/
inductive Outcome
  /-- The message joins the queue. -/
  | enqueued (priority : Nat) (m : AnyMessage)
  /-- The hashes differ: the request goes out to this destination. -/
  | resend (request : ResendRequestMessage) (destination : IpAddress)
  /-- `std::runtime_error("Unrecognized message type")` -/
  | unrecognized
  /-- The archive throws for lack of input. -/
  | truncated
  /-- `data[0]` of an empty frame. -/
  | outOfRange
  deriving DecidableEq

def deserializeMessage (pf : Platform) (clk : Clock) (data : Bytes) : Outcome :=
  match data.head? with
  | none => .outOfRange
  | some type =>
    match branch pf (.ofByte type) with
    | none => .unrecognized
    | some br =>
      match br.load.run data with
      | none => .truncated
      | some (m, _) =>
        if validateMessageHash pf clk m br.offset then .enqueued br.priority m
        else .resend (resendRequestFor m.base) m.base.senderNode

end MessageManager

/-! ## The cache -/

namespace MessageManager

/-- `oldMessages.emplace_back`: of 101 messages the oldest goes. -/
def emplaceBack (oldMessages : List AnyMessage) (m : AnyMessage) : List AnyMessage :=
  (oldMessages ++ [m]).drop (oldMessages.length + 1 - 100)

/-- `processResendRequestMessage`: the message passed to `send` and its destination, if there is
one. The outer `none` is the exception, or the read of the first entry of an empty buffer, which is
a null pointer: its `begin` and `end` differ. -/
def processResendRequestMessage (self : IpAddress) (oldMessages : List AnyMessage)
    (request : ResendRequestMessage) : Option (Option (AnyMessage × IpAddress)) :=
  if request.originatorNode = self then some none
  else if oldMessages.isEmpty then none
  else match oldMessages.find? fun m => m.base.messageHash == request.requestedHash with
    | none => some none
    | some m => match m.base.type with
      | .resendRequest | .invalid | .unknown _ _ => none
      | _ => some (some (m, request.originalDestination))

end MessageManager

open MessageManager PeerManager

/-! ## Wire types -/

/-- The class of a message sent over the wire is the one of its type. -/
def AnyMessage.WireTyped : AnyMessage → Prop
  | message m => m.type = .disconnect
  | payload m => m.type = .payload
  | resendRequest m => m.type = .resendRequest
  | file m => m.type = .lock ∨ m.type = .unlock ∨ m.type = .deleteFile
  | fileContent m => m.type = .contentChange
  | fileInitialSync m => m.type = .initialSync
  | connect m => m.type = .connect

/-- It depends on the type alone. -/
theorem wireTyped_withBase {m : AnyMessage} (h : m.WireTyped) {b : Message}
    (hb : b.type = m.base.type) : (m.withBase b).WireTyped := by
  cases m with
  | file m => exact h.imp hb.trans (Or.imp hb.trans hb.trans)
  | message m | payload m | resendRequest m | fileContent m | fileInitialSync m | connect m =>
    exact hb.trans h

theorem wireTyped_received {m : AnyMessage} (h : m.WireTyped) : m.received.WireTyped := by
  cases m <;> exact h

/-- The file part of a message. -/
def AnyMessage.filePart : AnyMessage → Option FileMessage
  | file m => some m
  | fileContent m => some m.toFileMessage
  | fileInitialSync m => some m.toFileMessage
  | _ => none

/-- The priority of each wire type. -/
def wirePriority : MessageType → Nat
  | .payload => 10
  | .resendRequest => 0
  | .connect => 1
  | .disconnect => 2
  | .deleteFile | .contentChange => 5
  | _ => 4

/-- **The branch picked by the type reads what is in the format of its class**, with the offset of
file messages and the priority of the type. -/
theorem branch_reads_writtenAs {pf : Platform} {m : AnyMessage} {used : Bytes} (hw : m.WireTyped)
    (h : m.WrittenAs pf used) :
    ∃ br, branch pf m.base.type = some br ∧ Reads br.load used m ∧
      br.offset = (if m.filePart.isSome then 1 else 0) ∧
      br.priority = wirePriority m.base.type := by
  cases m with
  | message m =>
    have htype : (AnyMessage.message m).base.type = .disconnect := hw
    rw [htype]
    exact ⟨_, rfl, ((parses_message pf).reads h).map AnyMessage.message, rfl, rfl⟩
  | payload m =>
    have htype : (AnyMessage.payload m).base.type = .payload := hw
    rw [htype]
    exact ⟨_, rfl, ((parses_payload pf).reads h).map AnyMessage.payload, rfl, rfl⟩
  | resendRequest m =>
    have htype : (AnyMessage.resendRequest m).base.type = .resendRequest := hw
    rw [htype]
    exact ⟨_, rfl, ((parses_resendRequest pf).reads h).map AnyMessage.resendRequest, rfl, rfl⟩
  | file m =>
    have hread := ((parses_file pf).reads h).map AnyMessage.file
    have htype : (AnyMessage.file m).base.type = .lock ∨
      (AnyMessage.file m).base.type = .unlock ∨
      (AnyMessage.file m).base.type = .deleteFile := hw
    rcases htype with htype | htype | htype <;> rw [htype] <;> exact ⟨_, rfl, hread, rfl, rfl⟩
  | fileContent m =>
    have htype : (AnyMessage.fileContent m).base.type = .contentChange := hw
    rw [htype]
    exact ⟨_, rfl, ((parses_fileContent pf).reads h).map AnyMessage.fileContent, rfl, rfl⟩
  | fileInitialSync m =>
    have htype : (AnyMessage.fileInitialSync m).base.type = .initialSync := hw
    rw [htype]
    exact ⟨_, rfl, ((parses_fileInitialSync pf).reads h).map AnyMessage.fileInitialSync, rfl, rfl⟩
  | connect m =>
    have htype : (AnyMessage.connect m).base.type = .connect := hw
    rw [htype]
    exact ⟨_, rfl, ((parses_connect pf).reads h).map AnyMessage.connect, rfl, rfl⟩

/-- It reads back what was saved. -/
theorem branch_reads (pf : Platform) {m : AnyMessage} (hw : m.WireTyped) (hf : m.Fits) :
    ∃ br, branch pf m.base.type = some br ∧ Reads br.load (m.save pf) m.received ∧
      br.offset = (if m.filePart.isSome then 1 else 0) ∧
      br.priority = wirePriority m.base.type := by
  have hread := branch_reads_writtenAs (wireTyped_received hw) (writtenAs_save pf hf)
  cases m <;> exact hread

/-- **A frame is accepted or sent again on its hash alone.** -/
theorem deserializeMessage_save (pf : Platform) (clk : Clock) {m : AnyMessage} (hw : m.WireTyped)
    (hf : m.Fits) :
    deserializeMessage pf clk (m.save pf) =
      if m.base.messageHash = m.received.hash pf clk + (if m.filePart.isSome then 1 else 0) then
        .enqueued (wirePriority m.base.type) m.received
      else .resend (resendRequestFor m.base.received) .ipv6Unspecified := by
  obtain ⟨br, hbr, hread, hoffset, hpriority⟩ := branch_reads pf hw hf
  have hhash : m.received.base.messageHash = m.base.messageHash := by
    rw [AnyMessage.base_received]
    rfl
  rw [deserializeMessage, m.head?_save pf]
  dsimp only
  rw [MessageType.ofByte_toByte, hbr]
  dsimp only
  rw [hread.run_eq]
  dsimp only
  rw [validateMessageHash, hhash, hoffset, hpriority, AnyMessage.base_received]
  simp only [beq_iff_eq]
  rfl

/-! ## What joins the queue -/

/-- The branch is that of the first byte. -/
theorem head?_cons_toByte (type : UInt8) (rest : Bytes) :
    (type :: rest).head? = some (MessageType.ofByte type).toByte := by
  rw [MessageType.toByte_ofByte]
  rfl

theorem branch_priority {pf : Platform} {t : MessageType} {br : Branch} (h : branch pf t = some br) :
    br.priority = wirePriority t := by
  cases t <;> cases h <;> rfl

/-- **The branch for a type reads what begins with a message** of this type, in the format of its
class. -/
theorem branch_accepts {pf : Platform} {t : MessageType} {br : Branch} (h : branch pf t = some br)
    {data : Bytes} (hhead : data.head? = some t.toByte) {m : AnyMessage} {rest : Bytes}
    (hrun : br.load.run data = some (m, rest)) :
    m.base.type = t ∧ m.WireTyped ∧ ∃ used, m.WrittenAs pf used ∧ data = used ++ rest := by
  have of {α : Type} {load : Reader α} {F : Format α} (hload : Parses load F)
      (f : α → AnyMessage) (hf : ∀ a used, F a used → (f a).WrittenAs pf used)
      (hclass : ∀ a, (f a).base.type = t → (f a).WireTyped)
      (hrun : (f <$> load).run data = some (m, rest)) :
      m.base.type = t ∧ m.WireTyped ∧ ∃ used, m.WrittenAs pf used ∧ data = used ++ rest := by
    obtain ⟨a, used, ha, hdata, rfl⟩ := hload.run_map hrun
    have hfirst : data.head? = some (f a).base.type.toByte := by
      rw [hdata, List.head?_append, head?_writtenAs (hf a used ha)]
      rfl
    have htype : (f a).base.type = t := by
      rw [← MessageType.ofByte_toByte (f a).base.type, ← MessageType.ofByte_toByte t,
        Option.some_inj.mp (hfirst.symm.trans hhead)]
    exact ⟨htype, hclass a htype, used, hf a used ha, hdata⟩
  cases t with
  | payload =>
    obtain rfl := Option.some_inj.mp h
    exact of (parses_payload pf) .payload (fun _ _ ha => ha) (fun _ ht => ht) hrun
  | resendRequest =>
    obtain rfl := Option.some_inj.mp h
    exact of (parses_resendRequest pf) .resendRequest (fun _ _ ha => ha) (fun _ ht => ht) hrun
  | lock =>
    obtain rfl := Option.some_inj.mp h
    exact of (parses_file pf) .file (fun _ _ ha => ha) (fun _ ht => Or.inl ht) hrun
  | unlock =>
    obtain rfl := Option.some_inj.mp h
    exact of (parses_file pf) .file (fun _ _ ha => ha) (fun _ ht => Or.inr (Or.inl ht)) hrun
  | deleteFile =>
    obtain rfl := Option.some_inj.mp h
    exact of (parses_file pf) .file (fun _ _ ha => ha) (fun _ ht => Or.inr (Or.inr ht)) hrun
  | contentChange =>
    obtain rfl := Option.some_inj.mp h
    exact of (parses_fileContent pf) .fileContent (fun _ _ ha => ha) (fun _ ht => ht) hrun
  | initialSync =>
    obtain rfl := Option.some_inj.mp h
    exact of (parses_fileInitialSync pf) .fileInitialSync (fun _ _ ha => ha) (fun _ ht => ht) hrun
  | connect =>
    obtain rfl := Option.some_inj.mp h
    exact of (parses_connect pf) .connect (fun _ _ ha => ha) (fun _ ht => ht) hrun
  | disconnect =>
    obtain rfl := Option.some_inj.mp h
    exact of (parses_message pf) .message (fun _ _ ha => ha) (fun _ ht => ht) hrun
  | invalid | initialSyncRequest | linkLost | unknown b h' => cases h

/-- **Whatever joins the queue** from a frame is of the type the frame begins with and of the class
of that type, at its priority. -/
theorem enqueued_typed {pf : Platform} {clk : Clock} {data : Bytes} {priority : Nat}
    {m : AnyMessage} (h : deserializeMessage pf clk data = .enqueued priority m) :
    m.WireTyped ∧ priority = wirePriority m.base.type ∧
      data.head?.map .ofByte = some m.base.type := by
  cases data with
  | nil => cases h
  | cons type rest =>
    rw [deserializeMessage, List.head?_cons] at h
    dsimp only at h
    cases hbr : branch pf (.ofByte type) with
    | none =>
      rw [hbr] at h
      cases h
    | some br =>
      rw [hbr] at h
      dsimp only at h
      cases hload : br.load.run (type :: rest) with
      | none =>
        rw [hload] at h
        cases h
      | some read =>
        obtain ⟨m', left⟩ := read
        obtain ⟨htype, hwire, -⟩ := branch_accepts hbr (head?_cons_toByte type rest) hload
        rw [hload] at h
        dsimp only at h
        split at h
        · obtain ⟨rfl, rfl⟩ := Outcome.enqueued.inj h
          refine ⟨hwire, by rw [htype, branch_priority hbr], ?_⟩
          rw [htype]
          rfl
        · cases h

/-! ## Stamping -/

@[simp] theorem stamp_type (pf : Platform) (clk : Clock) (self destination : IpAddress)
    (m : AnyMessage) : (stamp pf clk self destination m).base.type = m.base.type := by
  simp [stamp, route]

theorem stamp_wireTyped {pf : Platform} {clk : Clock} {self destination : IpAddress}
    {m : AnyMessage} (hw : m.WireTyped) : (stamp pf clk self destination m).WireTyped := by
  cases m <;> exact hw

theorem stamp_fits {pf : Platform} {clk : Clock} {self destination : IpAddress}
    {m : AnyMessage} (hf : m.Fits) : (stamp pf clk self destination m).Fits := by
  cases m <;> exact hf

/-- The hash is not part of what is hashed. -/
theorem hash_withHash (pf : Platform) (clk : Clock) (m : AnyMessage) (h : UInt64) :
    (m.withBase { m.base with messageHash := h }).hash pf clk = m.hash pf clk := by
  cases m <;> rfl

/-- What is sent carries its own hash. -/
theorem stamp_messageHash (pf : Platform) (clk : Clock) (self destination : IpAddress)
    (m : AnyMessage) : (stamp pf clk self destination m).base.messageHash =
      (stamp pf clk self destination m).hash pf clk := by
  rw [stamp, hash_withHash, AnyMessage.base_withBase]

/-! ## Messages without a file part -/

/-- No file part, and managed paths in normal form. -/
def AnyMessage.Unfiled : AnyMessage → Prop
  | message _ | payload _ | resendRequest _ => True
  | connect m => ∀ p ∈ m.managedPaths, p.lexicallyNormal = p
  | file _ | fileContent _ | fileInitialSync _ => False

/-- Nothing that the wire changes is hashed. -/
theorem hash_received_of_unfiled {pf : Platform} (clk : Clock) {clk' : Clock} {m : AnyMessage}
    (h : m.Unfiled) : m.received.hash pf clk' = m.hash pf clk := by
  cases m with
  | message m => rfl
  | payload m => rfl
  | resendRequest m => rfl
  | connect m =>
    have hpaths : m.managedPaths.map FsPath.lexicallyNormal = m.managedPaths := by
      rw [List.map_congr_left h, List.map_id']
    show hash (m.received.hashString pf) = hash (m.hashString pf)
    rw [ConnectMessage.hashString, ConnectMessage.received, hpaths]
    rfl
  | file m => exact h.elim
  | fileContent m => exact h.elim
  | fileInitialSync m => exact h.elim

theorem filePart_of_unfiled {m : AnyMessage} (h : m.Unfiled) : m.filePart = none := by
  cases m <;> first | rfl | exact h.elim

/-- A message without a file part is enqueued at the priority of its type. -/
theorem deserializeMessage_frame (pf : Platform) (clk clk' : Clock) (self destination : IpAddress)
    {m : AnyMessage} (hw : m.WireTyped) (hf : m.Fits) (hu : m.Unfiled) :
    deserializeMessage pf clk' (frame pf clk self destination m) =
      .enqueued (wirePriority m.base.type) (stamp pf clk self destination m).received := by
  have hu' : (stamp pf clk self destination m).Unfiled := by cases m <;> exact hu
  rw [frame, deserializeMessage_save pf clk' (stamp_wireTyped hw) (stamp_fits hf),
    filePart_of_unfiled hu', hash_received_of_unfiled clk hu', stamp_messageHash, stamp_type]
  simp

/-- **The codec round trip.** The branch `deserializeMessage` selects from the first byte of a
frame consumes exactly the frame and returns the message sent, up to what `received` changes. A
message without a file part is then enqueued at the priority of its type. -/
theorem codec_round_trip (pf : Platform) (clk clk' : Clock) (self destination : IpAddress)
    (m : AnyMessage) (hw : m.WireTyped) (hf : m.Fits) :
    (∃ type br, (frame pf clk self destination m).head? = some type ∧
      branch pf (.ofByte type) = some br ∧
      br.load.run (frame pf clk self destination m) =
        some ((stamp pf clk self destination m).received, [])) ∧
    (m.Unfiled → deserializeMessage pf clk' (frame pf clk self destination m) =
      .enqueued (wirePriority m.base.type) (stamp pf clk self destination m).received) := by
  have hw' : (stamp pf clk self destination m).WireTyped := stamp_wireTyped hw
  have hf' : (stamp pf clk self destination m).Fits := stamp_fits hf
  refine ⟨?_, fun hu => ?_⟩
  · obtain ⟨br, hbr, hread, -, -⟩ := branch_reads pf hw' hf'
    refine ⟨_, br, AnyMessage.head?_save pf _, ?_, hread.run_eq⟩
    rwa [MessageType.ofByte_toByte]
  · exact deserializeMessage_frame pf clk clk' self destination hw hf hu

/-- `hi`, broadcast. -/
def greeting : PayloadMessage where
  type := .payload
  receiverNode := .ipv6Unspecified
  messageHash := 0
  payload := [104, 105]

theorem greeting_round_trip :
    deserializeMessage .littleEndian (.utc 0)
        (frame .littleEndian (.utc 0) (.ipv4 0x0a000001) .ipv6Unspecified (.payload greeting)) =
      .enqueued 10 (stamp .littleEndian (.utc 0) (.ipv4 0x0a000001) .ipv6Unspecified
        (.payload greeting)).received :=
  (codec_round_trip .littleEndian (.utc 0) (.utc 0) (.ipv4 0x0a000001) .ipv6Unspecified
    (.payload greeting) rfl (show SizeFits 2 by decide)).2 trivial

end WhisperNet
