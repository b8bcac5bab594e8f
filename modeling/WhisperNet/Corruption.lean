import WhisperNet.FrameParts

/-!
# A changed byte

The hash of a message is the sum of the characters of a text in which its fields are rendered one
after the other. A receiver computes it from what it has read. So a changed byte is noticed if it
changes this sum, or the hash itself, which is not part of the text; and it goes unnoticed where
another text has the same sum.

* `detected_iff_not_mistaken` — what is enqueued instead of the message sent.
* `Told` — what comes of a change, by the part of the frame it is in.
* `corruption_detected_iff` — exactly which changes are noticed.
-/

namespace WhisperNet

open Bin MessageManager PeerManager

/-! ## Detection -/

/-- A frame of this message has arrived as `data`. The receiver enqueues nothing else than the
message. -/
def Detected (pf : Platform) (clk : Clock) (m : AnyMessage) (data : Bytes) : Prop :=
  ∀ priority m', deserializeMessage pf clk data = .enqueued priority m' → m' = m.received

/-- The frame begins with another message, and the characters of its text add up to the hash it
carries. -/
def Mistaken (pf : Platform) (clk : Clock) (m : AnyMessage) (data : Bytes) : Prop :=
  ∃ m' used rest, m'.WireTyped ∧ m'.WrittenAs pf used ∧ data = used ++ rest ∧ m' ≠ m.received ∧
    m'.base.messageHash = m'.hash pf clk + if m'.filePart.isSome then 1 else 0

/-- Byte `i` of the frame of a message may be changed to `b` unnoticed. -/
def Overlooked (pf : Platform) (clk : Clock) (m : AnyMessage) (i : Nat) (b : UInt8) : Prop :=
  (m.part i).Overlooks pf b (Mistaken pf clk m ((m.save pf).set i b))

section Detection

variable {pf : Platform} {clk : Clock} {m m' : AnyMessage} {data : Bytes}

/-- What a frame begins with is decoded. -/
theorem mistaken_iff : Mistaken pf clk m data ↔ ∃ m', decoded pf data = some m' ∧
    m' ≠ m.received ∧
    m'.base.messageHash = m'.hash pf clk + if m'.filePart.isSome then 1 else 0 := by
  constructor
  · rintro ⟨m', used, rest, hw, hused, hdata, hother⟩
    exact ⟨m', decoded_iff.mpr ⟨hw, used, rest, hused, hdata⟩, hother⟩
  · rintro ⟨m', hdecoded, hother⟩
    obtain ⟨hw, used, rest, hused, hdata⟩ := decoded_iff.mp hdecoded
    exact ⟨m', used, rest, hw, hused, hdata, hother⟩

/-- **What is enqueued instead of the message sent.** -/
theorem detected_iff_not_mistaken : Detected pf clk m data ↔ ¬ Mistaken pf clk m data := by
  rw [mistaken_iff]
  constructor
  · intro h ⟨m', hdecoded, hne, hhash⟩
    obtain ⟨priority, henqueued⟩ := enqueued_iff.mpr ⟨hdecoded, hhash⟩
    exact hne (h priority m' henqueued)
  · intro h priority m' henqueued
    by_contra hne
    obtain ⟨hdecoded, hhash⟩ := enqueued_iff.mp ⟨priority, henqueued⟩
    exact h ⟨m', hdecoded, hne, hhash⟩

end Detection

/-! ## What comes of a change -/

/-- A message as `send` leaves it, with nothing in it that reads as something else. -/
structure Sent (pf : Platform) (clk : Clock) (m : AnyMessage) : Prop where
  wire : m.WireTyped
  fits : m.Fits
  unfiled : m.Unfiled
  hash : m.base.messageHash = m.hash pf clk

/-- **What comes of a change** to a byte of this part: it is noticed unless the sum is the same. -/
def Told (pf : Platform) (clk : Clock) (m : AnyMessage) (b : UInt8) (part : Part) (data : Bytes) :
    Prop :=
  Detected pf clk m data ↔ ¬ part.Overlooks pf b (Mistaken pf clk m data)

/-- The messages of the wire that have no file part. -/
def PlainAs (pf : Platform) : Format AnyMessage := fun m bs =>
  m.WireTyped ∧ m.filePart = none ∧ m.WrittenAs pf bs

/-- How much more the characters of a message add up to than its hash. -/
def AnyMessage.excess (pf : Platform) (clk : Clock) (m : AnyMessage) : UInt64 :=
  m.hash pf clk - m.base.messageHash

section Telling

variable {pf : Platform} {clk : Clock} {b : UInt8} {m m₁ : AnyMessage} {part : Part} {data : Bytes}

/-- The header is hashed first. -/
theorem hash_withBase_add (base : Message) :
    (m.withBase base).hash pf clk + hash (m.base.hashString pf) =
      m.hash pf clk + hash (base.hashString pf) := by
  cases m <;>
    simp only [AnyMessage.withBase, AnyMessage.base, AnyMessage.hash, AnyMessage.hashString,
      PayloadMessage.hashString, ResendRequestMessage.hashString, FileMessage.hashString,
      FileContentMessage.hashString, FileInitialSyncMessage.hashString, ConnectMessage.hashString,
      hash_append, UInt64.add_assoc, UInt64.add_comm, sum_left_comm]

/-- It adds up. -/
theorem Sent.excess (h : Sent pf clk m) : m.received.excess pf clk = 0 := by
  have hhash := h.hash
  rw [AnyMessage.excess, hash_received_of_unfiled clk h.unfiled, AnyMessage.base_received,
    UInt64.sub_eq_iff_eq_add, UInt64.zero_add]
  exact hhash.symm

/-- What the bytes begin with is enqueued if it adds up, and it is told from the message sent if it
is not the same. -/
theorem mistaken_append (hm : PlainAs pf m₁ data) (rest : Bytes) :
    Mistaken pf clk m (data ++ rest) ↔ m₁ ≠ m.received ∧ m₁.excess pf clk = 0 := by
  have hdecoded : decoded pf (data ++ rest) = some m₁ :=
    decoded_iff.mpr ⟨hm.1, data, rest, hm.2.2, rfl⟩
  have hsum : m₁.excess pf clk = 0 ↔
      m₁.base.messageHash = m₁.hash pf clk + if m₁.filePart.isSome then 1 else 0 := by
    rw [hm.2.1, AnyMessage.excess, UInt64.sub_eq_iff_eq_add, UInt64.zero_add, eq_comm]
    simp
  rw [mistaken_iff, hsum]
  constructor
  · intro ⟨m', hm', hother⟩
    obtain rfl := Option.some_inj.mp (hdecoded.symm.trans hm')
    exact hother
  · intro hother
    exact ⟨m₁, hdecoded, hother⟩

/-- What has become of the frame is noticed by its hash. -/
theorem Retold.told (h : Sent pf clk m)
    (hretold : Retold pf b (PlainAs pf) (AnyMessage.excess pf clk) m.received part data) :
    Told pf clk m b part data := by
  rw [Told, detected_iff_not_mistaken, not_iff_not]
  cases hretold with
  | anyhow hoverlooks => exact (hoverlooks _).symm
  | @value m₁ _ hm₁ hoverlooks =>
    have hmistaken : Mistaken pf clk m (data ++ []) ↔ _ := mistaken_append hm₁ []
    rw [List.append_nil] at hmistaken
    rw [hoverlooks, hmistaken, h.excess]

/-- The type tells the class, and a type that is not on the wire is refused. -/
theorem told_type (hhead : data.head? = some b) : Told pf clk m b .type data := by
  rw [Told, detected_iff_not_mistaken, not_iff_not]
  refine (and_iff_right_of_imp ?_).symm
  rintro ⟨m', used, rest, hwire, hused, rfl, -⟩
  have htype : m'.base.type.toByte = b := by
    rw [List.head?_append, head?_writtenAs hused] at hhead
    exact Option.some_inj.mp hhead
  rw [← htype, MessageType.ofByte_toByte]
  exact onWire_of_wireTyped hwire

theorem told_layout (data : Bytes) : Told pf clk m b .layout data := detected_iff_not_mistaken

/-- The rest of the message stays as it is. -/
theorem told_header (h : Sent pf clk m) (rest : Bytes)
    (hrest : ∀ base bs, base.WrittenAs pf bs →
      (m.received.withBase base).WrittenAs pf (bs ++ rest)) :
    Alters (m.base.save pf) m.base.parts b fun part bs' =>
      Told pf clk m b part (bs' ++ rest) := by
  refine (alters_message m.base).mono ?_
  rintro part bs' (⟨rfl, hhead⟩ | hretold)
  · refine told_type ?_
    rw [List.head?_append, hhead]
    rfl
  · refine (hretold.map (G := PlainAs pf) m.received.withBase (· ++ rest) ?_).told h
    intro base bs ⟨htype, hbase⟩
    have hself : m.received.withBase m.base.received = m.received := by cases m <;> rfl
    have hheader : m.received.base.hashString pf = m.base.received.hashString pf := by
      rw [AnyMessage.base_received]
    refine ⟨⟨?_, ?_, hrest base bs hbase⟩, ⟨?_, ?_⟩, ?_⟩
    · refine wireTyped_withBase (wireTyped_received h.wire) ?_
      rw [htype, AnyMessage.base_received]
      rfl
    · have hpart := filePart_of_unfiled h.unfiled
      cases m <;> first | rfl | cases hpart
    · intro heq
      rw [← AnyMessage.base_withBase m.received base, heq, AnyMessage.base_received]
    · rintro rfl
      exact hself
    · have hsum : (m.received.withBase base).hash pf clk + hash (m.received.base.hashString pf) =
          m.received.hash pf clk + hash (base.hashString pf) := hash_withBase_add base
      rw [hheader] at hsum
      simp only [AnyMessage.excess, Message.excess, AnyMessage.base_withBase,
        AnyMessage.base_received]
      grind

/-! ### Payloads -/

/-- Nothing is read beyond the end. -/
theorem decoded_long {m : PayloadMessage} (htype : m.type = .payload) {n : Nat}
    (hn : n < 256 ^ 8) (hlong : m.payload.length < n) :
    decoded pf (m.toMessage.save pf ++ (putNat pf.endian 8 n ++ m.payload)) = none := by
  have hhead : (m.toMessage.save pf ++ (putNat pf.endian 8 n ++ m.payload)).head? =
      some MessageType.payload.toByte := by
    rw [← htype]
    rfl
  have hshort : (loadString pf).run (putNat pf.endian 8 n ++ m.payload) = none := by
    rw [loadString, StateT.run_bind, reads_getNat pf.endian hn]
    exact if_neg (Nat.not_le_of_lt hlong)
  have hload : (PayloadMessage.load pf).run
      (m.toMessage.save pf ++ (putNat pf.endian 8 n ++ m.payload)) = none := by
    rw [PayloadMessage.load, StateT.run_bind, reads_message pf m.toMessage]
    show ((loadString pf).run (putNat pf.endian 8 n ++ m.payload)).bind _ = none
    rw [hshort]
    rfl
  rw [decoded, hhead]
  show ((AnyMessage.payload <$> PayloadMessage.load pf).run _).bind _ = none
  rw [StateT.run_map, hload]
  rfl

/-- A payload that has been cut off. -/
theorem mistaken_cut {m : PayloadMessage} (h : Sent pf clk (.payload m)) {n : Nat}
    (hn : n < m.payload.length) :
    Mistaken pf clk (.payload m)
      (m.toMessage.save pf ++ (putNat pf.endian 8 n ++ m.payload)) ↔
        hash (m.payload.drop n) = 0 := by
  have hlength : (m.payload.take n).length = n := List.length_take_of_le hn.le
  have hfits : SizeFits m.payload.length := h.fits
  have hfits' : SizeFits (m.payload.take n).length := by
    rw [hlength]
    exact hn.trans hfits
  have hplain : PlainAs pf (.payload { m.received with payload := m.payload.take n })
      (m.toMessage.save pf ++ saveString pf (m.payload.take n)) :=
    ⟨h.wire, rfl, .mk (writtenAs_message pf m.toMessage) ⟨hfits', rfl⟩⟩
  have hcut : m.toMessage.save pf ++ (putNat pf.endian 8 n ++ m.payload) =
      (m.toMessage.save pf ++ saveString pf (m.payload.take n)) ++ m.payload.drop n := by
    rw [saveString, hlength, List.append_assoc, List.append_assoc, List.take_append_drop]
  have hother : AnyMessage.payload { m.received with payload := m.payload.take n } ≠
      (AnyMessage.payload m).received := by
    intro heq
    have hsame : m.payload.take n = m.payload :=
      congrArg PayloadMessage.payload (AnyMessage.payload.inj heq)
    rw [hsame] at hlength
    exact hn.ne' hlength
  have hsum : (AnyMessage.payload m).received.excess pf clk =
      (AnyMessage.payload { m.received with payload := m.payload.take n }).excess pf clk +
        hash (m.payload.drop n) := by
    show hash (m.toMessage.hashString pf ++ m.payload) - m.messageHash =
      hash (m.toMessage.hashString pf ++ m.payload.take n) - m.messageHash +
        hash (m.payload.drop n)
    nth_rewrite 1 [← List.take_append_drop n m.payload]
    simp only [hash_append]
    grind
  rw [h.excess] at hsum
  rw [hcut, mistaken_append hplain, and_iff_right hother]
  grind

theorem told_size {m : PayloadMessage} (h : Sent pf clk (.payload m)) :
    Alters (putNat pf.endian 8 m.payload.length) ((List.range 8).map (.size m.payload)) b
      fun part bs' => Told pf clk (.payload m) b part
        (m.toMessage.save pf ++ (bs' ++ m.payload)) := by
  refine (alters_putNat pf.endian 8 m.payload.length _).mono ?_
  rintro part _ ⟨i, _, rfl, hne, rfl⟩
  have hn := alteredNat_lt pf.endian 8 m.payload.length i b
  rw [Told, detected_iff_not_mistaken, not_iff_not]
  rcases lt_or_gt_of_ne hne with hlt | hgt
  · rw [mistaken_cut h hlt]
    exact (and_iff_right hlt).symm
  · refine iff_of_false ?_ fun hcut => Nat.lt_asymm hgt hcut.1
    rw [mistaken_iff]
    intro ⟨m', hm', _⟩
    rw [decoded_long h.wire hn hgt] at hm'
    cases hm'

theorem told_payload {m : PayloadMessage} (h : Sent pf clk (.payload m)) :
    Alters (AnyMessage.save pf (.payload m)) (AnyMessage.payload m).parts b
      (Told pf clk (.payload m) b) := by
  have hfits : SizeFits m.payload.length := h.fits
  refine .append (m.toMessage.length_parts pf)
    (told_header h _ fun base bs hbase => .mk hbase ⟨hfits, rfl⟩)
    (.append (by simp) (told_size h) ((alters_text m.payload).mono ?_))
  rintro part bs' ⟨rfl, hlength, hhash⟩
  have hplain : PlainAs pf (.payload { m.received with payload := bs' })
      (m.toMessage.save pf ++ (putNat pf.endian 8 m.payload.length ++ bs')) := by
    rw [← hlength]
    exact ⟨h.wire, rfl, .mk (writtenAs_message pf m.toMessage) ⟨hlength ▸ hfits, rfl⟩⟩
  have hretold : Retold pf b (PlainAs pf) (AnyMessage.excess pf clk)
      (AnyMessage.payload m).received .text
        (m.toMessage.save pf ++ (putNat pf.endian 8 m.payload.length ++ bs')) := by
    refine .value hplain fun mistaken => iff_of_false id fun heq => hhash ?_
    have hsum : hash (m.toMessage.hashString pf ++ bs') - m.messageHash =
        hash (m.toMessage.hashString pf ++ m.payload) - m.messageHash := heq.2
    rwa [UInt64.sub_left_inj, hash_append, hash_append, UInt64.add_right_inj] at hsum
  exact hretold.told h

/-! ### Requests to send again -/

theorem told_resendRequest {m : ResendRequestMessage} (h : Sent pf clk (.resendRequest m)) :
    Alters (AnyMessage.save pf (.resendRequest m)) (AnyMessage.resendRequest m).parts b
      (Told pf clk (.resendRequest m) b) := by
  refine .append (m.toMessage.length_parts pf) (told_header h _ fun base bs hbase =>
    .mk hbase m.requestedHash (writtenAs_ipAddress pf m.originalDestination))
    (.append (by simp) ((alters_number 8 m.requestedHash.toNat).mono ?_)
      ((alters_ipAddress m.originalDestination).mono ?_))
  · intro part bs' hretold
    refine (hretold.map (G := PlainAs pf)
      (fun n => .resendRequest { m.received with requestedHash := .ofNat n })
      (fun bs => m.toMessage.save pf ++ (bs ++ m.originalDestination.save pf)) ?_).told h
    rintro n _ ⟨hn, rfl⟩
    have hnumber : (UInt64.ofNat n).toNat = n := UInt64.toNat_ofNat_of_lt' hn
    refine ⟨⟨h.wire, rfl, ?_⟩, ?_, ?_⟩
    · have hput : putNat pf.endian 8 n = put64 pf.endian (.ofNat n) := by
        rw [put64, hnumber]
      rw [hput]
      exact .mk (writtenAs_message pf m.toMessage) _ (writtenAs_ipAddress pf m.originalDestination)
    · simp [AnyMessage.received, ResendRequestMessage.received, ← UInt64.toNat_inj, hnumber]
    · simp [AnyMessage.excess, AnyMessage.hash, AnyMessage.hashString, AnyMessage.base,
        AnyMessage.received, ResendRequestMessage.hashString, ResendRequestMessage.received,
        hnumber]
  · intro part bs' hretold
    refine (hretold.map (G := PlainAs pf)
      (fun ip => .resendRequest { m.received with originalDestination := ip })
      (fun bs => m.toMessage.save pf ++ (putNat pf.endian 8 m.requestedHash.toNat ++ bs))
      ?_).told h
    intro ip bs hip
    refine ⟨⟨h.wire, rfl, .mk (writtenAs_message pf m.toMessage) m.requestedHash hip⟩, ?_, ?_⟩
    · simp [AnyMessage.received, ResendRequestMessage.received]
    · simp [AnyMessage.excess, AnyMessage.hash, AnyMessage.hashString, AnyMessage.base,
        AnyMessage.received, ResendRequestMessage.hashString, ResendRequestMessage.received]

/-! ### Greetings -/

theorem plain_connect {m : ConnectMessage} (h : Sent pf clk (.connect m))
    {backupPeers : List (IpAddress × UInt16)} {managedPaths : List FsPath} {peers paths : Bytes}
    (hpeers : VectorWrittenAs pf (PeerWrittenAs pf) backupPeers peers)
    (hpaths : VectorWrittenAs pf (PathWrittenAs pf) managedPaths paths) :
    PlainAs pf (.connect ⟨m.toMessage.received, backupPeers, managedPaths⟩)
      (m.toMessage.save pf ++ (peers ++ paths)) :=
  ⟨h.wire, rfl, .mk (writtenAs_message pf m.toMessage) hpeers hpaths⟩

theorem writtenAs_peers {m : ConnectMessage} (h : Sent pf clk (.connect m)) :
    VectorWrittenAs pf (PeerWrittenAs pf) m.backupPeers
      (saveVector pf (savePeer pf) m.backupPeers) := by
  have hpeers : VectorWrittenAs pf (PeerWrittenAs pf) (m.backupPeers.map id)
      (saveVector pf (savePeer pf) m.backupPeers) :=
    writtenAs_vector pf h.fits.1 fun peer _ => .mk (writtenAs_ipAddress pf peer.1) peer.2
  rwa [List.map_id] at hpeers

theorem writtenAs_managedPath {m : ConnectMessage} (h : Sent pf clk (.connect m)) {p : FsPath}
    (hp : p ∈ m.managedPaths) : PathWrittenAs pf p (savePath pf p) := by
  have hwritten := writtenAs_path pf (h.fits.2.2 p hp)
  rwa [h.unfiled p hp] at hwritten

/-- Any of the managed paths. -/
theorem writtenAs_managedPaths {m : ConnectMessage} (h : Sent pf clk (.connect m))
    {paths : List FsPath} (hsize : SizeFits paths.length) (hsub : paths ⊆ m.managedPaths) :
    VectorWrittenAs pf (PathWrittenAs pf) paths (saveVector pf (savePath pf) paths) := by
  have hpaths : VectorWrittenAs pf (PathWrittenAs pf) (paths.map id)
      (saveVector pf (savePath pf) paths) :=
    writtenAs_vector pf hsize fun p hp => writtenAs_managedPath h (hsub hp)
  rwa [List.map_id] at hpaths

theorem received_connect {m : ConnectMessage} (h : Sent pf clk (.connect m)) :
    (AnyMessage.connect m).received =
      .connect ⟨m.toMessage.received, m.backupPeers, m.managedPaths⟩ := by
  have hpaths : m.managedPaths.map FsPath.lexicallyNormal = m.managedPaths := by
    rw [List.map_congr_left h.unfiled, List.map_id']
  rw [AnyMessage.received, ConnectMessage.received, hpaths]

theorem excess_connect (base : Message) (backupPeers : List (IpAddress × UInt16))
    (managedPaths : List FsPath) :
    AnyMessage.excess pf clk (.connect ⟨base, backupPeers, managedPaths⟩) =
      hash (base.hashString pf) + hash (backupPeers.flatMap (peerText pf)) +
        hash (managedPaths.flatMap FsPath.native) - base.messageHash := by
  rw [← hash_append, ← hash_append]
  rfl

/-- There are no more paths to be read. -/
theorem decoded_more {m : ConnectMessage} (h : Sent pf clk (.connect m)) {n : Nat}
    (hn : n < 256 ^ 8) (hlong : m.managedPaths.length < n) :
    decoded pf (m.toMessage.save pf ++ (saveVector pf (savePeer pf) m.backupPeers ++
      (putNat pf.endian 8 n ++ m.managedPaths.flatMap (savePath pf)))) = none := by
  have htype : m.type = .connect := h.wire
  have hnil : (loadPath pf).run [] = none := rfl
  have hreads (p : FsPath) (hp : p ∈ m.managedPaths) : Reads (loadPath pf) (savePath pf p) p :=
    (parses_loadPath pf).reads (writtenAs_managedPath h hp)
  have hshort : (loadVector pf (loadPath pf)).run
      (putNat pf.endian 8 n ++ m.managedPaths.flatMap (savePath pf)) = none := by
    rw [loadVector, StateT.run_bind, reads_getNat pf.endian hn]
    exact run_many_short (g := id) hnil hreads hlong
  have hpeers := (parses_loadVector pf (parses_loadPeer pf)).reads (writtenAs_peers h)
  have hload : (ConnectMessage.load pf).run (m.toMessage.save pf ++
      (saveVector pf (savePeer pf) m.backupPeers ++
        (putNat pf.endian 8 n ++ m.managedPaths.flatMap (savePath pf)))) = none := by
    rw [ConnectMessage.load, StateT.run_bind, reads_message pf m.toMessage]
    show ((loadVector pf (loadPeer pf)).run _).bind _ = none
    rw [hpeers]
    show ((loadVector pf (loadPath pf)).run _).bind _ = none
    rw [hshort]
    rfl
  have hhead : (m.toMessage.save pf ++ (saveVector pf (savePeer pf) m.backupPeers ++
      (putNat pf.endian 8 n ++ m.managedPaths.flatMap (savePath pf)))).head? =
        some MessageType.connect.toByte := by
    rw [← htype]
    rfl
  rw [decoded, hhead]
  show ((AnyMessage.connect <$> ConnectMessage.load pf).run _).bind _ = none
  rw [StateT.run_map, hload]
  rfl

/-- The paths that have been cut off. -/
theorem mistaken_fewer {m : ConnectMessage} (h : Sent pf clk (.connect m)) {n : Nat}
    (hn : n < m.managedPaths.length) :
    Mistaken pf clk (.connect m) (m.toMessage.save pf ++
      (saveVector pf (savePeer pf) m.backupPeers ++
        (putNat pf.endian 8 n ++ m.managedPaths.flatMap (savePath pf)))) ↔
          hash ((m.managedPaths.drop n).flatMap FsPath.native) = 0 := by
  have hlength : (m.managedPaths.take n).length = n := List.length_take_of_le hn.le
  have hfits : SizeFits (m.managedPaths.take n).length := by
    rw [hlength]
    exact hn.trans h.fits.2.1
  have hplain := plain_connect h (writtenAs_peers h)
    (writtenAs_managedPaths h hfits (List.take_subset n _))
  have hcut : m.toMessage.save pf ++ (saveVector pf (savePeer pf) m.backupPeers ++
      (putNat pf.endian 8 n ++ m.managedPaths.flatMap (savePath pf))) =
      (m.toMessage.save pf ++ (saveVector pf (savePeer pf) m.backupPeers ++
        saveVector pf (savePath pf) (m.managedPaths.take n))) ++
          (m.managedPaths.drop n).flatMap (savePath pf) := by
    conv_lhs => rw [← List.take_append_drop n m.managedPaths, List.flatMap_append]
    simp only [saveVector, hlength, List.append_assoc]
  have hother : AnyMessage.connect
      ⟨m.toMessage.received, m.backupPeers, m.managedPaths.take n⟩ ≠
        (AnyMessage.connect m).received := by
    rw [received_connect h]
    intro heq
    have hsame : m.managedPaths.take n = m.managedPaths :=
      congrArg ConnectMessage.managedPaths (AnyMessage.connect.inj heq)
    rw [hsame] at hlength
    exact hn.ne' hlength
  have hsum := h.excess
  rw [received_connect h, excess_connect, ← List.take_append_drop n m.managedPaths,
    List.flatMap_append, hash_append] at hsum
  rw [hcut, mistaken_append hplain, and_iff_right hother, excess_connect]
  grind

theorem told_count {m : ConnectMessage} (h : Sent pf clk (.connect m)) :
    Alters (putNat pf.endian 8 m.managedPaths.length)
      ((List.range 8).map (.count m.managedPaths)) b fun part bs' =>
        Told pf clk (.connect m) b part (m.toMessage.save pf ++
          (saveVector pf (savePeer pf) m.backupPeers ++
            (bs' ++ m.managedPaths.flatMap (savePath pf)))) := by
  refine (alters_putNat pf.endian 8 m.managedPaths.length _).mono ?_
  rintro part _ ⟨i, _, rfl, hne, rfl⟩
  have hn := alteredNat_lt pf.endian 8 m.managedPaths.length i b
  rw [Told, detected_iff_not_mistaken, not_iff_not]
  rcases lt_or_gt_of_ne hne with hlt | hgt
  · rw [mistaken_fewer h hlt]
    exact (and_iff_right hlt).symm
  · refine iff_of_false ?_ fun hcut => Nat.lt_asymm hgt hcut.1
    rw [mistaken_iff]
    intro ⟨m', hm', _⟩
    rw [decoded_more h hn hgt] at hm'
    cases hm'

theorem told_connect {m : ConnectMessage} (h : Sent pf clk (.connect m)) :
    Alters (AnyMessage.save pf (.connect m)) (AnyMessage.connect m).parts b
      (Told pf clk (.connect m) b) := by
  have hparts : (AnyMessage.connect m).parts = m.toMessage.parts ++
      ((List.replicate 8 .layout ++ m.backupPeers.flatMap peerParts) ++
        ((List.range 8).map (.count m.managedPaths) ++ m.managedPaths.flatMap pathParts)) :=
    if_pos h.unfiled
  have hpeers := writtenAs_peers h
  have hpaths := writtenAs_managedPaths h h.fits.2.1 (List.Subset.refl _)
  rw [hparts]
  refine .append (m.toMessage.length_parts pf) (told_header h _ fun base bs hbase => ?_)
    (.append ?_ (.append (by simp) (.replicate 8 fun _ => told_layout _) ?_)
      (.append (by simp) (told_count h) ?_))
  · rw [received_connect h]
    exact .mk hbase hpeers hpaths
  · simp only [saveVector, List.length_append, List.length_replicate, length_putNat,
      List.length_flatMap, length_peerParts pf]
  · refine (alters_list (peerText pf) (length_peerParts pf) h.fits.1
      (fun peer _ => .mk (writtenAs_ipAddress pf peer.1) peer.2)
      fun peer _ => alters_peer peer).mono ?_
    intro part bs' hretold
    have hwhole := hretold.map (G := PlainAs pf) (v := AnyMessage.excess pf clk)
      (y := (AnyMessage.connect m).received)
      (fun peers => .connect ⟨m.toMessage.received, peers, m.managedPaths⟩)
      (fun bs => m.toMessage.save pf ++ (bs ++ saveVector pf (savePath pf) m.managedPaths)) ?_
    · rw [List.append_assoc] at hwhole ⊢
      exact hwhole.told h
    · intro peers bs hpeers
      refine ⟨plain_connect h hpeers hpaths, ?_, ?_⟩ <;> rw [received_connect h]
      · simp
      · rw [excess_connect, excess_connect]
        grind
  · refine (alters_list FsPath.native (length_pathParts pf) h.fits.2.1
      (fun p hp => writtenAs_managedPath h hp)
      fun p hp => alters_path (h.unfiled p hp) (h.fits.2.2 p hp)).mono ?_
    intro part bs' hretold
    have hwhole := hretold.map (G := PlainAs pf) (v := AnyMessage.excess pf clk)
      (y := (AnyMessage.connect m).received)
      (fun paths => .connect ⟨m.toMessage.received, m.backupPeers, paths⟩)
      (fun bs => m.toMessage.save pf ++ (saveVector pf (savePeer pf) m.backupPeers ++ bs)) ?_
    · exact hwhole.told h
    · intro paths bs hwritten
      refine ⟨plain_connect h hpeers hwritten, ?_, ?_⟩ <;> rw [received_connect h]
      · simp
      · rw [excess_connect, excess_connect]
        grind

theorem told_message {m : Message} (h : Sent pf clk (.message m)) :
    Alters (AnyMessage.save pf (.message m)) (AnyMessage.message m).parts b
      (Told pf clk (.message m) b) := by
  refine (told_header h [] fun base bs hbase => ?_).mono ?_
  · rw [List.append_nil]
    exact hbase
  · intro part bs' htold
    rwa [List.append_nil] at htold

/-- **A frame with a changed byte**, of whatever class it is. -/
theorem told_save (hw : m.WireTyped) (hf : m.Fits) (hpart : m.filePart = none)
    (hhash : m.base.messageHash = m.hash pf clk) :
    Alters (m.save pf) m.parts b (Told pf clk m b) := by
  have hsent (hu : m.Unfiled) : Sent pf clk m := ⟨hw, hf, hu, hhash⟩
  cases m with
  | message m => exact told_message (hsent trivial)
  | payload m => exact told_payload (hsent trivial)
  | resendRequest m => exact told_resendRequest (hsent trivial)
  | connect m =>
    by_cases hnormal : ∀ p ∈ m.managedPaths, p.lexicallyNormal = p
    · exact told_connect (hsent hnormal)
    · have hparts : (AnyMessage.connect m).parts = [] := if_neg hnormal
      rw [hparts]
      exact .nil _
  | file m | fileContent m | fileInitialSync m => cases hpart

end Telling

/-! ## Frames -/

/-- The clocks play no part where there is no timestamp. -/
theorem hash_clock (pf : Platform) (clk clk' : Clock) {m : AnyMessage} (hpart : m.filePart = none) :
    m.hash pf clk = m.hash pf clk' := by
  cases m with
  | message m | payload m | resendRequest m | connect m => rfl
  | file m | fileContent m | fileInitialSync m => cases hpart

/-- **Which changes are noticed.** Some byte of the frame of a message is changed. Nothing else than
the message is enqueued if and only if the change is not one that the sum overlooks: of an address,
a number or a managed path, in which the characters of another rendering add up to the same; of the
size of a payload or the number of the managed paths, in which what is cut off adds up to nothing;
or of what tells how to read the rest, with which the frame begins with another message whose text
adds up to the hash. -/
theorem corruption_detected_iff (pf : Platform) (clk clk' : Clock) (self destination : IpAddress)
    {m : AnyMessage} (hw : m.WireTyped) (hf : m.Fits) (hpart : m.filePart = none) {i : Nat}
    {b c : UInt8} (hc : (frame pf clk self destination m)[i]? = some c) (hne : c ≠ b) :
    Detected pf clk' (PeerManager.stamp pf clk self destination m)
        ((frame pf clk self destination m).set i b) ↔
      ¬ Overlooked pf clk' (PeerManager.stamp pf clk self destination m) i b := by
  have hpart' : (PeerManager.stamp pf clk self destination m).filePart = none := by
    cases m with
    | message m | payload m | resendRequest m | connect m => rfl
    | file m | fileContent m | fileInitialSync m => cases hpart
  have hhash := stamp_messageHash pf clk self destination m
  rw [hash_clock pf clk clk' hpart'] at hhash
  have htold := told_save (b := b) (stamp_wireTyped hw) (stamp_fits hf) hpart' hhash
  unfold Overlooked AnyMessage.part
  cases hrole : (PeerManager.stamp pf clk self destination m).parts[i]? with
  | none => exact detected_iff_not_mistaken
  | some part => exact htold i part c hrole hc hne

/-! ## The greeting -/

/-- The greeting with another character is not taken for it. -/
theorem greeting_protected :
    Detected .littleEndian (.utc 0) (PeerManager.stamp .littleEndian (.utc 0) (.ipv4 0x0a00000c)
        .ipv6Unspecified (.payload greeting))
      ((frame .littleEndian (.utc 0) (.ipv4 0x0a00000c) .ipv6Unspecified
        (.payload greeting)).set 39 105) := by
  have hwire : (AnyMessage.payload greeting).WireTyped := rfl
  have hfits : (AnyMessage.payload greeting).Fits := show SizeFits 2 by decide
  refine (corruption_detected_iff .littleEndian (.utc 0) (.utc 0) (.ipv4 0x0a00000c)
    .ipv6Unspecified hwire hfits rfl (c := 104) (by decide +kernel) (by decide)).mpr ?_
  exact id

/-- The one from 10.0.0.12 is taken for one from 10.0.0.21. -/
theorem greeting_misattributed : ¬ ∀ (pf : Platform) (clk clk' : Clock)
    (self destination : IpAddress) (m : AnyMessage), m.WireTyped → m.Fits → m.filePart = none →
      ∀ (i : Nat) (b c : UInt8), (frame pf clk self destination m)[i]? = some c → c ≠ b →
        Detected pf clk' (PeerManager.stamp pf clk self destination m)
          ((frame pf clk self destination m).set i b) := by
  intro hall
  have hdetected := hall .littleEndian (.utc 0) (.utc 0) (.ipv4 0x0a00000c) .ipv6Unspecified
    (.payload greeting) rfl (show SizeFits 2 by decide) rfl 22 21 12 (by decide +kernel) (by decide)
  have henqueued : deserializeMessage .littleEndian (.utc 0) ((frame .littleEndian (.utc 0)
      (.ipv4 0x0a00000c) .ipv6Unspecified (.payload greeting)).set 22 21) =
      .enqueued 10 ((PeerManager.stamp .littleEndian (.utc 0) (.ipv4 0x0a00000c) .ipv6Unspecified
        (.payload greeting)).withBase
          ⟨.payload, .ipv6Unspecified, .ipv6Unspecified, .ipv4 0x0a000015, 812⟩) := by
    decide +kernel
  have hsame := hdetected _ _ henqueued
  revert hsame
  decide +kernel

end WhisperNet
