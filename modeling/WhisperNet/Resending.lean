import WhisperNet.BadFrames

/-!
# Resending

A node that receives a corrupted message asks for it by its hash. Who is asked goes through the old
messages from the oldest on and sends the first one with that hash, whatever it is: different
messages may have one hash, and not every type that is in the cache can be sent, or read.

* `cacheOf_eq` — the old messages are the last hundred.
* `answer_eq_some` — which message is sent.
* `answered_iff` — exactly when that is the message asked for.
-/

namespace WhisperNet

open Bin MessageManager PeerManager Managers

/-! ## The cache -/

/-- `oldMessages` after these messages have been appended to it. -/
def cacheOf (history : List AnyMessage) : List AnyMessage :=
  history.foldl MessageManager.emplaceBack []

/-- The last hundred, in order. -/
theorem cacheOf_eq (history : List AnyMessage) :
    cacheOf history = history.drop (history.length - 100) := by
  induction history using List.reverseRecOn with
  | nil => rfl
  | append_singleton history m ih =>
    have hdrop : history.drop (history.length - 100) ++ [m] =
        (history ++ [m]).drop (history.length - 100) := by
      rw [List.drop_append_of_le_length (by omega)]
    rw [cacheOf, List.foldl_append] at *
    have hcount : history.length - 100 + (history.length - (history.length - 100) + 1 - 100) =
        history.length + 1 - 100 := by omega
    rw [ih, List.foldl_cons, List.foldl_nil, MessageManager.emplaceBack, hdrop, List.drop_drop,
      List.length_drop, hcount, List.length_append, List.length_singleton]

theorem mem_history {history : List AnyMessage} {m : AnyMessage} (h : m ∈ cacheOf history) :
    m ∈ history := by
  rw [cacheOf_eq] at h
  exact List.mem_of_mem_drop h

/-- A message that a node appends to its old messages. -/
inductive Recorded (pf : Platform) (self : IpAddress) : AnyMessage → Prop
  /-- It has been sent, as an object of the class of its type. -/
  | sent {clk : Clock} {destination : IpAddress} {m : AnyMessage} (h : Typed m) (hf : m.Fits) :
      Recorded pf self (PeerManager.stamp pf clk self destination m)
  /-- `processNextMessage` has processed it, received or created here. -/
  | processed {env : Circumstances} {s t : Managers} {m : AnyMessage}
      (h : process env (some m) s = .ok true t) (hf : m.Fits) : Recorded pf self m

section Classes

variable {pf : Platform} {self : IpAddress} {m : AnyMessage}

theorem typed_withBase (h : Typed m) {b : Message} (hb : b.type = m.base.type) :
    Typed (m.withBase b) := by
  cases m with
  | message m => exact h.imp hb.trans (Or.imp hb.trans hb.trans)
  | file m => exact h.imp hb.trans (Or.imp hb.trans hb.trans)
  | payload m | resendRequest m | fileContent m | fileInitialSync m | connect m =>
    exact hb.trans h

/-- Stamping a message replaces its base. -/
theorem stamp_eq (clk : Clock) (destination : IpAddress) :
    PeerManager.stamp pf clk self destination m =
      m.withBase (PeerManager.stamp pf clk self destination m).base := by
  cases m <;> rfl

theorem Recorded.typed (h : Recorded pf self m) : Typed m := by
  cases h with
  | sent h hf =>
    rw [stamp_eq]
    exact typed_withBase h (stamp_type _ _ _ _ _)
  | processed h hf => exact typed_of_process _ _ h

theorem Recorded.fits (h : Recorded pf self m) : m.Fits := by
  cases h with
  | sent h hf => exact stamp_fits hf
  | processed h hf => exact hf

/-- Of the messages in the cache, a branch reads those that are sent over the wire. -/
theorem wireTyped_of_branch (h : Typed m) {br : Branch}
    (hbr : branch pf m.base.type = some br) : m.WireTyped := by
  cases m with
  | message m =>
    rcases h with h | h | h
    · exact h
    · have htype : (AnyMessage.message m).base.type = .initialSyncRequest := h
      rw [htype] at hbr
      cases hbr
    · have htype : (AnyMessage.message m).base.type = .linkLost := h
      rw [htype] at hbr
      cases hbr
  | payload m | resendRequest m | file m | fileContent m | fileInitialSync m | connect m => exact h

end Classes

/-! ## The answer -/

section Answers

variable (pf : Platform) (clk : Clock) (own : IpAddress)

/-- The message that a resend request makes a node send, as it goes out. -/
def answer (oldMessages : List AnyMessage) (request : ResendRequestMessage) : Option AnyMessage :=
  match MessageManager.processResendRequestMessage own oldMessages request with
  | some (some (m, destination)) => some (PeerManager.stamp pf clk own destination m)
  | _ => none

/-- What the handler does is send that message, if there is one. -/
theorem processResendRequestMessage_sends (env : Circumstances) {s : Managers}
    {request : ResendRequestMessage} {m : AnyMessage} {destination : IpAddress}
    (h : MessageManager.processResendRequestMessage env.host.self s.oldMessages request =
      some (some (m, destination))) :
    Managers.processResendRequestMessage env request s =
      (do send env m destination; return true : ManagersM Bool) s := by
  have hget : (get : ManagersM Managers) s = .ok s s := rfl
  rw [Managers.processResendRequestMessage, Effect.bind_ok hget, h]

/-- The message asked for is sent: of the same type, originator and body, in a frame that the
destination decodes. -/
structure Answered (oldMessages : List AnyMessage) (request : ResendRequestMessage)
    (M sent : AnyMessage) : Prop where
  answered : answer pf clk own oldMessages request = some sent
  type : sent.base.type = M.base.type
  originatorNode : sent.base.originatorNode = M.base.originatorNode
  body : sent.withBase M.base = M
  decodes : Decodes pf (sent.save pf)

/-- The originator of a message that is sent. -/
def originatorOf (m : AnyMessage) : IpAddress :=
  if m.base.originatorNode = .ipv6Unspecified then own else m.base.originatorNode

/-- Of the old messages with the hash of `M`, the oldest is like `M`, which is sent over the wire
and no resend request. -/
structure OldestAlike (oldMessages : List AnyMessage) (M : AnyMessage) : Prop where
  wire : M.WireTyped
  noRequest : M.base.type ≠ .resendRequest
  oldest : ∃ before m after, oldMessages = before ++ m :: after ∧
    (∀ x ∈ before, x.base.messageHash ≠ M.base.messageHash) ∧
    m.base.messageHash = M.base.messageHash ∧ m.base.type = M.base.type ∧
    originatorOf own m = M.base.originatorNode ∧ m.withBase M.base = M

variable {pf clk own} {oldMessages : List AnyMessage} {request : ResendRequestMessage}
  {m M : AnyMessage} {destination : IpAddress}

/-- **Which message is sent.** The oldest with that hash, unless it cannot be sent. -/
theorem processResendRequestMessage_eq_some (hother : request.originatorNode ≠ own) :
    MessageManager.processResendRequestMessage own oldMessages request =
        some (some (m, destination)) ↔
      destination = request.originalDestination ∧
      oldMessages.find? (fun x => x.base.messageHash == request.requestedHash) = some m ∧
      m.base.type ≠ .resendRequest ∧ m.base.type ≠ .invalid ∧
      ∀ b h, m.base.type ≠ .unknown b h := by
  unfold MessageManager.processResendRequestMessage
  rw [if_neg hother]
  cases hfind : oldMessages.find? fun x => x.base.messageHash == request.requestedHash with
  | none =>
    split
    · simp
    · simp
  | some m' =>
    have hsome : ¬ oldMessages.isEmpty = true := by
      intro hempty
      rw [List.isEmpty_iff.mp hempty] at hfind
      cases hfind
    rw [if_neg hsome]
    dsimp only
    constructor
    · intro h
      split at h
      · cases h
      · cases h
      · cases h
      · next hrequest hinvalid hunknown =>
        obtain ⟨rfl, rfl⟩ := Prod.mk.inj (Option.some_inj.mp (Option.some_inj.mp h))
        exact ⟨rfl, rfl, hrequest, hinvalid, hunknown⟩
    · rintro ⟨rfl, hm, hrequest, hinvalid, hunknown⟩
      obtain rfl := Option.some_inj.mp hm
      split
      · next htype => exact absurd htype hrequest
      · next htype => exact absurd htype hinvalid
      · next b h htype => exact absurd htype (hunknown b h)
      · rfl

/-- The type has an enumerator, and not that of no message. -/
def Named (t : MessageType) : Prop := t ≠ .invalid ∧ ∀ b h, t ≠ .unknown b h

theorem named_of_wireTyped (h : M.WireTyped) : Named M.base.type := by
  have hof {t : MessageType} (htype : M.base.type = t) (ht : Named t) : Named M.base.type := by
    rwa [htype]
  cases M with
  | file m =>
    exact h.elim (hof · ⟨nofun, nofun⟩) fun h =>
      h.elim (hof · ⟨nofun, nofun⟩) (hof · ⟨nofun, nofun⟩)
  | message m | payload m | resendRequest m | fileContent m | fileInitialSync m | connect m =>
    exact hof h ⟨nofun, nofun⟩

/-- The oldest message with that hash, by its place. -/
theorem find_oldest_iff {hash : UInt64} :
    oldMessages.find? (fun x => x.base.messageHash == hash) = some m ↔
      m.base.messageHash = hash ∧ ∃ before after, oldMessages = before ++ m :: after ∧
        ∀ x ∈ before, x.base.messageHash ≠ hash := by
  rw [List.find?_eq_some_iff_append]
  simp

theorem originatorNode_stamp (m : AnyMessage) :
    (PeerManager.stamp pf clk own destination m).base.originatorNode = originatorOf own m := by
  simp [PeerManager.stamp, route, originatorOf]

/-- **A resend request is answered with the message asked for exactly when that is sent over the
wire, is no resend request itself, and no older message with its hash is different.** -/
theorem answered_iff {history : List AnyMessage} (hhistory : ∀ m ∈ history, Recorded pf own m)
    (hother : request.originatorNode ≠ own)
    (hhash : M.base.messageHash = request.requestedHash) :
    (∃ sent, Answered pf clk own (cacheOf history) request M sent) ↔
      OldestAlike own (cacheOf history) M := by
  constructor
  · intro ⟨sent, hsent⟩
    obtain ⟨m, destination, hprocess, rfl⟩ : ∃ m destination,
        MessageManager.processResendRequestMessage own (cacheOf history) request =
          some (some (m, destination)) ∧ PeerManager.stamp pf clk own destination m = sent := by
      have hanswer := hsent.answered
      unfold answer at hanswer
      split at hanswer
      · next m destination hprocess =>
        exact ⟨m, destination, hprocess, Option.some_inj.mp hanswer⟩
      · cases hanswer
    obtain ⟨-, hfind, hrequest, -, -⟩ := (processResendRequestMessage_eq_some hother).mp hprocess
    have hm := hhistory m (mem_history (List.mem_of_find?_eq_some hfind))
    have htype : m.base.type = M.base.type := by
      rw [← hsent.type, stamp_type]
    have hbody : m.withBase M.base = M := by
      have hbody := hsent.body
      rwa [stamp_eq, AnyMessage.withBase_withBase] at hbody
    -- The destination has a branch for the type, so the class is the one on the wire.
    have hwire : m.WireTyped := by
      obtain ⟨type, br, read, rest, hhead, hbr, -⟩ := hsent.decodes
      rw [AnyMessage.head?_save, stamp_type] at hhead
      obtain rfl := Option.some_inj.mp hhead
      rw [MessageType.ofByte_toByte] at hbr
      exact wireTyped_of_branch hm.typed hbr
    obtain ⟨hmhash, before, after, hcache, hbefore⟩ := find_oldest_iff.mp hfind
    rw [← hhash] at hmhash hbefore
    refine ⟨?_, htype ▸ hrequest, before, m, after, hcache, hbefore, hmhash, htype, ?_, hbody⟩
    · rw [← hbody]
      exact wireTyped_withBase hwire htype.symm
    · rw [← hsent.originatorNode, originatorNode_stamp]
  · intro ⟨hwire, hrequest, before, m, after, hcache, hbefore, hmhash, htype, horiginator, hbody⟩
    have hm := hhistory m (mem_history (by rw [hcache]; simp))
    have hmwire : m.WireTyped := by
      have hback : M.withBase m.base = m := by
        rw [← hbody, AnyMessage.withBase_withBase]
        cases m <;> rfl
      rw [← hback]
      exact wireTyped_withBase hwire htype
    have hfind : (cacheOf history).find? (fun x => x.base.messageHash == request.requestedHash) =
        some m := find_oldest_iff.mpr
      ⟨hmhash.trans hhash, before, after, hcache, fun x hx => hhash ▸ hbefore x hx⟩
    have hnamed := named_of_wireTyped hmwire
    have hprocess := (processResendRequestMessage_eq_some hother).mpr
      ⟨rfl, hfind, htype ▸ hrequest, hnamed.1, hnamed.2⟩
    refine ⟨PeerManager.stamp pf clk own request.originalDestination m, ?_, ?_, ?_, ?_, ?_⟩
    · rw [answer, hprocess]
    · rw [stamp_type, htype]
    · rw [originatorNode_stamp, horiginator]
    · rw [stamp_eq, AnyMessage.withBase_withBase, hbody]
    · have hwire' : (PeerManager.stamp pf clk own request.originalDestination m).WireTyped :=
        stamp_wireTyped hmwire
      obtain ⟨br, hbr, hread, -, -⟩ := branch_reads pf hwire' (stamp_fits hm.fits)
      refine ⟨_, br, _, _, AnyMessage.head?_save pf _, ?_, hread.run_eq⟩
      rwa [MessageType.ofByte_toByte]

end Answers

/-! ## Two locks of one hash -/

section Locks

/-- The lock of a file in `docs`, as a sweep broadcasts it. -/
def lockNamed (name : Bytes) : AnyMessage :=
  .file ⟨⟨.lock, .ipv6Unspecified, .ipv6Unspecified, .ipv6Unspecified, 0⟩,
    ⟨[100, 111, 99, 115, 47] ++ name⟩, 0⟩

/-- It is sent. -/
def lockSent (name : Bytes) : AnyMessage :=
  PeerManager.stamp .littleEndian (.utc 0) (.ipv4 0x0a000001) .ipv6Unspecified (lockNamed name)

/-- A neighbor asks for the message with this hash. -/
def askFor (m : AnyMessage) : ResendRequestMessage :=
  { resendRequestFor m.base with originatorNode := .ipv4 0x0a000002 }

/-- After the lock of `docs/ab`, that of `docs/ba`. -/
def bothLocks : List AnyMessage := [lockSent [97, 98], lockSent [98, 97]]

theorem lockSent_recorded (name : Bytes) (h : PathFits ⟨[100, 111, 99, 115, 47] ++ name⟩) :
    Recorded .littleEndian (.ipv4 0x0a000001) (lockSent name) :=
  .sent (Or.inl rfl) h

theorem locks_hash :
    (lockSent [97, 98]).base.messageHash = (lockSent [98, 97]).base.messageHash := by
  decide

/-- The older one is sent again, -/
theorem olderLock_answered : ∃ sent, Answered .littleEndian (.utc 0) (.ipv4 0x0a000001)
    (cacheOf bothLocks) (askFor (lockSent [97, 98])) (lockSent [97, 98]) sent := by
  have hrecorded : ∀ m ∈ bothLocks, Recorded .littleEndian (.ipv4 0x0a000001) m := by
    intro m hm
    rcases List.mem_pair.mp hm with rfl | rfl
    · exact lockSent_recorded _ (by decide)
    · exact lockSent_recorded _ (by decide)
  refine (answered_iff hrecorded (by decide) rfl).mpr ?_
  refine ⟨Or.inl rfl, nofun, [], lockSent [97, 98], [lockSent [98, 97]], rfl, ?_, rfl, rfl, rfl,
    rfl⟩
  intro x hx
  exact absurd hx List.not_mem_nil

/-- and in place of the younger one as well. -/
theorem youngerLock_not_answered : ¬ ∀ pf clk self history request M,
    (∀ m ∈ history, Recorded pf self m) → request.originatorNode ≠ self →
    M ∈ cacheOf history → M.base.messageHash = request.requestedHash → M.WireTyped →
      ∃ sent, Answered pf clk self (cacheOf history) request M sent := by
  intro hall
  have hrecorded : ∀ m ∈ bothLocks, Recorded .littleEndian (.ipv4 0x0a000001) m := by
    intro m hm
    rcases List.mem_pair.mp hm with rfl | rfl
    · exact lockSent_recorded _ (by decide)
    · exact lockSent_recorded _ (by decide)
  obtain ⟨sent, hsent⟩ := hall .littleEndian (.utc 0) (.ipv4 0x0a000001) bothLocks
    (askFor (lockSent [98, 97])) (lockSent [98, 97]) hrecorded (by decide)
    (List.mem_cons_of_mem _ List.mem_cons_self) rfl (Or.inl rfl)
  have hfind : (cacheOf bothLocks).find? (fun x =>
      x.base.messageHash == (askFor (lockSent [98, 97])).requestedHash) =
        some (lockSent [97, 98]) :=
    find_oldest_iff.mpr ⟨locks_hash, [], [lockSent [98, 97]], rfl, by simp⟩
  have hother : (askFor (lockSent [98, 97])).originatorNode ≠ .ipv4 0x0a000001 := by decide
  have hprocess := (processResendRequestMessage_eq_some hother).mpr
    ⟨rfl, hfind, nofun, nofun, nofun⟩
  have hanswer := hsent.answered
  rw [answer, hprocess] at hanswer
  obtain rfl := Option.some_inj.mp hanswer
  exact absurd hsent.body (by decide)

end Locks

end WhisperNet
