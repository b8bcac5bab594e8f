import WhisperNet.RoutingHeader

/-!
# What the format says of a frame

Any bytes may come over a link. The wire format alone says what `deserializeMessage` is to make of
them: `Decodes` is that relation, with no reader in it. A frame begins with at most one message, so
the switch, the readers of the seven classes and the check of the hash together compute it.

* `unambiguous` — no bytes begin with two messages.
* `branch_isSome_iff` — the switch has a case for the types of the wire.
* `deserializes_iff` — what becomes of a frame, for all bytes.
-/

namespace WhisperNet

open Bin MessageManager PeerManager

/-! ## The format -/

/-- The hash a message carries is right for its class. -/
def AnyMessage.HashMatches (pf : Platform) (clk : Clock) (m : AnyMessage) : Prop :=
  m.base.messageHash = m.hash pf clk + if m.filePart.isSome then 1 else 0

instance (pf : Platform) (clk : Clock) (m : AnyMessage) : Decidable (m.HashMatches pf clk) :=
  inferInstanceAs (Decidable (_ = _))

/-- A message of the wire, with the bytes it is written as and those behind it. -/
structure BeginsWith (pf : Platform) (data : Bytes) (m : AnyMessage) : Prop where
  wireTyped : m.WireTyped
  written : ∃ used rest, m.WrittenAs pf used ∧ data = used ++ rest

/-- The types of the messages that go over the wire. The others are for the queue only. -/
def MessageType.onWire : List MessageType :=
  [.lock, .unlock, .deleteFile, .contentChange, .initialSync, .connect, .disconnect, .payload,
    .resendRequest]

/-- What the format says becomes of a frame. -/
inductive Decodes (pf : Platform) (clk : Clock) : Bytes → Outcome → Prop
  | outOfRange : Decodes pf clk [] .outOfRange
  | unrecognized {t : MessageType} {rest : Bytes} (htype : t ∉ MessageType.onWire) :
      Decodes pf clk (t.toByte :: rest) .unrecognized
  | truncated {t : MessageType} {rest : Bytes} (htype : t ∈ MessageType.onWire)
      (hnone : ∀ m, ¬ BeginsWith pf (t.toByte :: rest) m) :
      Decodes pf clk (t.toByte :: rest) .truncated
  | enqueued {data : Bytes} {m : AnyMessage} (hm : BeginsWith pf data m)
      (hhash : m.HashMatches pf clk) :
      Decodes pf clk data (.enqueued (wirePriority m.base.type) m)
  | resend {data : Bytes} {m : AnyMessage} (hm : BeginsWith pf data m)
      (hhash : ¬ m.HashMatches pf clk) :
      Decodes pf clk data (.resend (resendRequestFor m.base) .ipv6Unspecified)

/-! ## One message at most -/

section Prefixes

variable {pf : Platform} {m m' : AnyMessage} {data used used' rest rest' : Bytes}

theorem senderNode_message {m : Message} (h : m.WrittenAs pf used) :
    m.senderNode = .ipv6Unspecified := by
  cases h
  rfl

theorem onWire_of_wireTyped (h : m.WireTyped) : m.base.type ∈ MessageType.onWire := by
  cases m with
  | file m =>
    have htype : m.type = .lock ∨ m.type = .unlock ∨ m.type = .deleteFile := h
    rcases htype with htype | htype | htype <;>
      simp [AnyMessage.base, htype, MessageType.onWire]
  | message m | payload m | resendRequest m | fileContent m | fileInitialSync m | connect m =>
    have htype : m.type = _ := h
    simp [AnyMessage.base, htype, MessageType.onWire]

/-- The sender is not on the wire. -/
theorem senderNode_writtenAs (h : m.WrittenAs pf used) :
    m.base.senderNode = .ipv6Unspecified := by
  cases m with
  | message m => exact senderNode_message h
  | payload m | resendRequest m | file m | connect m =>
    obtain ⟨hm, _, _⟩ := h
    exact senderNode_message hm
  | fileContent m =>
    obtain ⟨⟨hm, _, _⟩, _⟩ := h
    exact senderNode_message hm
  | fileInitialSync m =>
    obtain ⟨⟨⟨hm, _, _⟩, _⟩, _, _⟩ := h
    exact senderNode_message hm

theorem beginsWith_iff : BeginsWith pf data m ↔ decoded pf data = some m := by
  rw [decoded_iff]
  exact ⟨fun h => ⟨h.wireTyped, h.written⟩, fun ⟨hw, h⟩ => ⟨hw, h⟩⟩

/-- The type of what a frame begins with is its first byte. -/
theorem BeginsWith.onWire {t : MessageType} {rest : Bytes}
    (hm : BeginsWith pf (t.toByte :: rest) m) : t ∈ MessageType.onWire := by
  obtain ⟨hw, used, left, hused, h⟩ := hm
  have hhead := congrArg List.head? h
  rw [List.head?_cons, List.head?_append, head?_writtenAs hused] at hhead
  have htype : t = m.base.type := by
    rw [← MessageType.ofByte_toByte t, Option.some_inj.mp hhead]
    exact MessageType.ofByte_toByte _
  rw [htype]
  exact onWire_of_wireTyped hw

/-- **No bytes begin with two messages**, or with one in two ways. -/
theorem unambiguous (hw : m.WireTyped) (hw' : m'.WireTyped) (hm : m.WrittenAs pf used)
    (hm' : m'.WrittenAs pf used') (h : used ++ rest = used' ++ rest') :
    m = m' ∧ used = used' := by
  obtain ⟨br, hbr, hread, -, -⟩ := branch_reads_writtenAs hw hm
  obtain ⟨br', hbr', hread', -, -⟩ := branch_reads_writtenAs hw' hm'
  have htype : m.base.type = m'.base.type := by
    have hhead := congrArg List.head? h
    rw [List.head?_append, List.head?_append, head?_writtenAs hm, head?_writtenAs hm'] at hhead
    rw [← MessageType.ofByte_toByte m.base.type, ← MessageType.ofByte_toByte m'.base.type]
    exact congrArg _ (Option.some_inj.mp hhead)
  obtain rfl : br = br' := Option.some_inj.mp (hbr.symm.trans (htype ▸ hbr'))
  have hrun := hread rest
  rw [h, hread' rest'] at hrun
  obtain ⟨rfl, rfl⟩ := Prod.mk.inj (Option.some_inj.mp hrun)
  exact ⟨rfl, List.append_cancel_right h⟩

end Prefixes

/-! ## The switch -/

section Switch

variable {pf : Platform} {clk : Clock} {data : Bytes} {m : AnyMessage}

theorem branch_isSome_iff {t : MessageType} :
    (branch pf t).isSome ↔ t ∈ MessageType.onWire := by
  cases t <;> simp [branch, MessageType.onWire]

/-- A frame whose type has a case and that begins with no message ends too early. -/
theorem deserializeMessage_of_not_beginsWith {t : MessageType} {rest : Bytes}
    (hno : ∀ m, ¬ BeginsWith pf (t.toByte :: rest) m) :
    deserializeMessage pf clk (t.toByte :: rest) =
      if t ∈ MessageType.onWire then .truncated else .unrecognized := by
  have hdecoded : decoded pf (t.toByte :: rest) = none :=
    Option.eq_none_iff_forall_ne_some.mpr fun m h => hno m (beginsWith_iff.mpr h)
  rw [deserializeMessage, List.head?_cons]
  dsimp only
  rw [MessageType.ofByte_toByte]
  cases hbr : branch pf t with
  | none =>
    have htype : t ∉ MessageType.onWire := by
      intro hwire
      have hsome : (branch pf t).isSome := branch_isSome_iff.mpr hwire
      rw [hbr] at hsome
      cases hsome
    rw [if_neg htype]
  | some br =>
    have htype : t ∈ MessageType.onWire := branch_isSome_iff.mp (Option.isSome_of_eq_some hbr)
    rw [if_pos htype]
    dsimp only
    cases hload : br.load.run (t.toByte :: rest) with
    | none => rfl
    | some read => simp [decoded, hbr, hload] at hdecoded

/-- A frame that begins with a message is accepted or asked for again, as its hash says. -/
theorem deserializeMessage_of_beginsWith (hm : BeginsWith pf data m) :
    deserializeMessage pf clk data =
      if m.HashMatches pf clk then .enqueued (wirePriority m.base.type) m
      else .resend (resendRequestFor m.base) .ipv6Unspecified := by
  obtain ⟨hw, used, rest, hused, rfl⟩ := hm
  obtain ⟨br, hbr, hread, hoffset, hpriority⟩ := branch_reads_writtenAs hw hused
  have hhead : (used ++ rest).head? = some m.base.type.toByte := by
    rw [List.head?_append, head?_writtenAs hused]
    rfl
  rw [deserializeMessage, hhead]
  dsimp only
  rw [MessageType.ofByte_toByte, hbr]
  dsimp only
  rw [hread rest]
  dsimp only
  rw [validateMessageHash, hoffset, hpriority, senderNode_writtenAs hused]
  simp only [beq_iff_eq]
  rfl

end Switch

/-- **Sound and complete**: for all bytes, what `deserializeMessage` does is what the format says. -/
theorem deserializes_iff (pf : Platform) (clk : Clock) (data : Bytes) (outcome : Outcome) :
    deserializeMessage pf clk data = outcome ↔ Decodes pf clk data outcome := by
  constructor
  · rintro rfl
    cases data with
    | nil => exact .outOfRange
    | cons type rest =>
      rw [← MessageType.toByte_ofByte type]
      by_cases hm : ∃ m, BeginsWith pf ((MessageType.ofByte type).toByte :: rest) m
      · obtain ⟨m, hm⟩ := hm
        rw [deserializeMessage_of_beginsWith hm]
        split
        · next hhash => exact .enqueued hm hhash
        · next hhash => exact .resend hm hhash
      · rw [deserializeMessage_of_not_beginsWith (not_exists.mp hm)]
        split
        · next htype => exact .truncated htype (not_exists.mp hm)
        · next htype => exact .unrecognized htype
  · intro h
    cases h with
    | outOfRange => rfl
    | @unrecognized t rest htype =>
      have hno : ∀ m, ¬ BeginsWith pf (t.toByte :: rest) m := fun m hm => htype hm.onWire
      rw [deserializeMessage_of_not_beginsWith hno, if_neg htype]
    | truncated htype hnone => rw [deserializeMessage_of_not_beginsWith hnone, if_pos htype]
    | enqueued hm hhash => rw [deserializeMessage_of_beginsWith hm, if_pos hhash]
    | resend hm hhash => rw [deserializeMessage_of_beginsWith hm, if_neg hhash]

end WhisperNet
