import WhisperNet.Deserialize

/-!
# When a message with a file part passes its hash check

The sender hashes the target path as it is spelled and the `ctime` of a timestamp with nanoseconds;
the receiver hashes the normalised path and the `ctime` of the whole seconds, and expects its own
sum to be one smaller. Each side renders the second its two clock readings lead it to.

* `deserializeMessage_file` — the check passes when the two sums differ by exactly one.
* `digitSum_succ` — the next second of a day adds one to the digits, or takes at least eight away.
* `file_accepted_iff` — the receiver accepts when it renders the second before the sender's and the
  sender's does not end in 0.
-/

namespace WhisperNet

open Bin MessageManager PeerManager

/-! ## The sums -/

/-- What is hashed besides the path and the timestamp. -/
def AnyMessage.restHash (pf : Platform) : AnyMessage → UInt64
  | file m => WhisperNet.hash (m.toMessage.hashString pf)
  | fileContent m => WhisperNet.hash (m.toMessage.hashString pf) + WhisperNet.hash m.fileContent
  | fileInitialSync m =>
      WhisperNet.hash (m.toMessage.hashString pf) + WhisperNet.hash m.fileContent +
      WhisperNet.hash (toDecimal m.total.toNat) + WhisperNet.hash (toDecimal m.index.toNat)
  | _ => 0

/-- The path and the rendered timestamp. -/
def FileMessage.stampHash (clk : Clock) (f : FileMessage) : UInt64 :=
  hash f.targetFile.native + hash (ctime clk (to_time_t clk f.timestamp))

theorem hash_of_filePart (pf : Platform) (clk : Clock) {m : AnyMessage} {f : FileMessage}
    (h : m.filePart = some f) : m.hash pf clk = m.restHash pf + f.stampHash clk := by
  cases m with
  | file m =>
    obtain rfl : m = f := by simpa [AnyMessage.filePart] using h
    simp only [AnyMessage.hash, AnyMessage.hashString, FileMessage.hashString, hash_append,
      AnyMessage.restHash, FileMessage.stampHash, UInt64.add_assoc]
  | fileContent m =>
    obtain rfl : m.toFileMessage = f := by simpa [AnyMessage.filePart] using h
    simp only [AnyMessage.hash, AnyMessage.hashString, FileContentMessage.hashString,
      FileMessage.hashString, hash_append, AnyMessage.restHash, FileMessage.stampHash,
      UInt64.add_assoc, UInt64.add_comm, sum_left_comm]
  | fileInitialSync m =>
    obtain rfl : m.toFileMessage = f := by simpa [AnyMessage.filePart] using h
    simp only [AnyMessage.hash, AnyMessage.hashString, FileInitialSyncMessage.hashString,
      FileContentMessage.hashString, FileMessage.hashString, hash_append, AnyMessage.restHash,
      FileMessage.stampHash, UInt64.add_assoc, UInt64.add_comm, sum_left_comm]
  | message m => exact absurd h (by simp [AnyMessage.filePart])
  | payload m => exact absurd h (by simp [AnyMessage.filePart])
  | resendRequest m => exact absurd h (by simp [AnyMessage.filePart])
  | connect m => exact absurd h (by simp [AnyMessage.filePart])

theorem restHash_received (pf : Platform) (m : AnyMessage) :
    m.received.restHash pf = m.restHash pf := by
  cases m <;> rfl

theorem filePart_received {m : AnyMessage} {f : FileMessage} (h : m.filePart = some f) :
    m.received.filePart = some f.received := by
  cases m <;> simp [AnyMessage.filePart] at h <;> subst h <;> rfl

/-- Stamping leaves the target and the timestamp alone. -/
theorem filePart_stamp (pf : Platform) (clk : Clock) (self destination : IpAddress)
    {m : AnyMessage} {f : FileMessage} (h : m.filePart = some f) :
    ∃ f', (stamp pf clk self destination m).filePart = some f' ∧ f'.targetFile = f.targetFile ∧
      f'.timestamp = f.timestamp := by
  cases m <;> simp [AnyMessage.filePart] at h <;> subst h <;> exact ⟨_, rfl, rfl, rfl⟩

/-- **A file message is accepted when the receiver's sum is one smaller than the sender's.** -/
theorem deserializeMessage_file (pf : Platform) (cs cr : Clock) (self destination : IpAddress)
    {m : AnyMessage} {f : FileMessage} (hw : m.WireTyped) (hf : m.Fits)
    (hfile : m.filePart = some f) :
    deserializeMessage pf cr (frame pf cs self destination m) =
      if f.stampHash cs = f.received.stampHash cr + 1 then
        .enqueued (wirePriority m.base.type) (stamp pf cs self destination m).received
      else .resend (resendRequestFor (stamp pf cs self destination m).base.received)
        .ipv6Unspecified := by
  obtain ⟨f', hf', htarget, htime⟩ := filePart_stamp pf cs self destination hfile
  have hstamp : f'.stampHash cs = f.stampHash cs := by
    rw [FileMessage.stampHash, FileMessage.stampHash, htarget, htime]
  have hstamp' : f'.received.stampHash cr = f.received.stampHash cr := by
    rw [FileMessage.stampHash, FileMessage.stampHash, FileMessage.received, FileMessage.received,
      htarget, htime]
  rw [frame, deserializeMessage_save pf cr (stamp_wireTyped hw) (stamp_fits hf),
    stamp_messageHash, hash_of_filePart pf cs hf', hash_of_filePart pf cr (filePart_received hf'),
    restHash_received, hf', hstamp, hstamp', UInt64.add_assoc, stamp_type]
  simp only [Option.isSome_some, if_true, UInt64.add_right_inj]

/-! ## The digits of a time of day -/

def digits (n : Nat) : Nat := n / 10 + n % 10

theorem digits_succ (n : Nat) :
    digits (n + 1) = digits n + 1 ∧ (n + 1) % 10 ≠ 0 ∨
      digits (n + 1) + 8 = digits n ∧ (n + 1) % 10 = 0 := by
  simp only [digits]
  omega

def digitSum (s : Nat) : Nat := digits (s / 3600) + digits (s / 60 % 60) + digits (s % 60)

theorem hash_twoDigits {n : Nat} (h : n < 100) :
    hash (twoDigits n) = 96 + UInt64.ofNat (digits n) := by
  have hall : ∀ n < 100, hash (twoDigits n) = 96 + UInt64.ofNat (digits n) := by decide
  exact hall n h

theorem hash_timeOfDay {s : Nat} (h : s < 86400) :
    hash (timeOfDay s) = 404 + UInt64.ofNat (digitSum s) := by
  have hsep : hash [58] = 58 := by decide
  have hhour : s / 3600 < 100 := by omega
  have hmin : s / 60 % 60 < 100 := by omega
  have hsec : s % 60 < 100 := by omega
  simp only [timeOfDay, hash_append, hsep, hash_twoDigits hhour, hash_twoDigits hmin,
    hash_twoDigits hsec, digitSum, UInt64.ofNat_add]
  generalize UInt64.ofNat (digits (s / 3600)) = a, UInt64.ofNat (digits (s / 60 % 60)) = b,
    UInt64.ofNat (digits (s % 60)) = c
  grind

theorem digitSum_succ (s : Nat) :
    digitSum (s + 1) = digitSum s + 1 ∧ (s + 1) % 10 ≠ 0 ∨
      digitSum (s + 1) + 8 ≤ digitSum s ∧ (s + 1) % 10 = 0 := by
  have hzero : digits 0 = 0 := rfl
  have hlast : digits 59 = 14 := rfl
  simp only [digitSum]
  by_cases hx : s % 60 = 59
  · have hx' : (s + 1) % 60 = 0 := by omega
    by_cases hm : s / 60 % 60 = 59
    · have hm' : (s + 1) / 60 % 60 = 0 := by omega
      have hh' : (s + 1) / 3600 = s / 3600 + 1 := by omega
      have hd := digits_succ (s / 3600)
      rw [hx, hx', hm, hm', hh', hzero, hlast]
      omega
    · have hm' : (s + 1) / 60 % 60 = s / 60 % 60 + 1 := by omega
      have hh' : (s + 1) / 3600 = s / 3600 := by omega
      have hd := digits_succ (s / 60 % 60)
      rw [hx, hx', hm', hh', hzero, hlast]
      omega
  · have hx' : (s + 1) % 60 = s % 60 + 1 := by omega
    have hm' : (s + 1) / 60 = s / 60 := by omega
    have hh' : (s + 1) / 3600 = s / 3600 := by omega
    have hd := digits_succ (s % 60)
    rw [hx', hm', hh']
    omega

theorem digitSum_lt {s : Nat} (h : s < 86400) : digitSum s < 256 := by
  simp only [digitSum, digits]
  omega

/-! ## The seconds rendered -/

/-- The second of local time `ctime` renders. -/
def localTime (clk : Clock) (t : Int) : Int := t + clk.zone t

/-- On one local day the two texts differ in the time of day only. -/
theorem hash_ctime {cs cr : Clock} {a b : Int}
    (hday : localTime cs a / 86400 = localTime cr b / 86400) :
    hash (ctime cs a) = hash (ctime cr b) + 1 ↔
      digitSum (localTime cs a % 86400).toNat = digitSum (localTime cr b % 86400).toNat + 1 := by
  have ha : (localTime cs a % 86400).toNat < 86400 := by omega
  have hb : (localTime cr b % 86400).toNat < 86400 := by omega
  have hda := digitSum_lt ha
  have hdb := digitSum_lt hb
  have hinj : UInt64.ofNat (digitSum (localTime cs a % 86400).toNat) =
      UInt64.ofNat (digitSum (localTime cr b % 86400).toNat + 1) ↔
      digitSum (localTime cs a % 86400).toNat = digitSum (localTime cr b % 86400).toNat + 1 := by
    have hsize : UInt64.size = 2 ^ 64 := rfl
    rw [← UInt64.toNat_inj, UInt64.toNat_ofNat_of_lt' (by omega),
      UInt64.toNat_ofNat_of_lt' (by omega)]
  simp only [localTime] at *
  rw [← hinj, ctime, ctime, hday]
  simp only [hash_append, hash_timeOfDay ha, hash_timeOfDay hb, UInt64.ofNat_add]
  grind

/-- Rounding towards zero, as bounds. -/
theorem tdiv_bounds (x : Int) :
    0 ≤ x ∧ 1000000000 * x.tdiv 1000000000 ≤ x ∧ x < 1000000000 * x.tdiv 1000000000 + 1000000000 ∨
      x < 0 ∧ x ≤ 1000000000 * x.tdiv 1000000000 ∧
        1000000000 * x.tdiv 1000000000 - 1000000000 < x := by
  have hsplit := Int.mul_tdiv_add_tmod x 1000000000
  rcases lt_or_ge x 0 with hx | hx
  · have hlo := Int.lt_tmod_of_pos x (show (0 : Int) < 1000000000 by decide)
    have hhi := Int.tmod_nonneg 1000000000 (show 0 ≤ -x by omega)
    rw [Int.neg_tmod] at hhi
    omega
  · have hlo := Int.tmod_nonneg 1000000000 hx
    have hhi := Int.tmod_lt_of_pos x (show (0 : Int) < 1000000000 by decide)
    omega

/-- Clock readings in one order and less than a second apart render seconds at most one apart. -/
theorem rendered_close {cs cr : Clock} (ts : TimePoint)
    (horder : 0 ≤ cs.drift ∧ 0 ≤ cr.drift ∨ cs.drift ≤ 0 ∧ cr.drift ≤ 0)
    (hs : |cs.drift| < 1000000000) (hr : |cr.drift| < 1000000000) :
    to_time_t cs ts = to_time_t cr (truncateSeconds ts) ∨
      to_time_t cs ts = to_time_t cr (truncateSeconds ts) + 1 ∨
      to_time_t cr (truncateSeconds ts) = to_time_t cs ts + 1 := by
  rw [abs_lt] at hs hr
  simp only [to_time_t, convertTimepoint, toInt_truncateSeconds]
  have h := tdiv_bounds ts.toInt
  have ha := tdiv_bounds (ts.toInt + cs.drift)
  have hb := tdiv_bounds (ts.toInt.tdiv 1000000000 * 1000000000 + cr.drift)
  omega

/-- With one offset from UTC, on one local day. -/
theorem hash_ctime_iff {cs cr : Clock} {a b : Int} (hzone : cs.zone a = cr.zone b)
    (hday : localTime cs a / 86400 = localTime cr b / 86400)
    (hclose : a = b ∨ a = b + 1 ∨ b = a + 1) :
    hash (ctime cs a) = hash (ctime cr b) + 1 ↔ a = b + 1 ∧ localTime cs a % 10 ≠ 0 := by
  rw [hash_ctime hday]
  simp only [localTime, ← hzone] at *
  rcases hclose with rfl | rfl | rfl
  · omega
  · have hnext : ((b + 1 + cs.zone (b + 1)) % 86400).toNat =
        ((b + cs.zone (b + 1)) % 86400).toNat + 1 := by omega
    have hstep := digitSum_succ ((b + cs.zone (b + 1)) % 86400).toNat
    have hlast : (((b + cs.zone (b + 1)) % 86400).toNat + 1) % 10 = 0 ↔
        (b + 1 + cs.zone (b + 1)) % 10 = 0 := by omega
    rw [hnext]
    omega
  · have hnext : ((a + 1 + cs.zone a) % 86400).toNat = ((a + cs.zone a) % 86400).toNat + 1 := by
      omega
    have hstep := digitSum_succ ((a + cs.zone a) % 86400).toNat
    rw [hnext]
    omega

/-! ## When a file message is accepted -/

/-- The frame is read, passes its hash check and joins the queue. -/
def Accepted (pf : Platform) (clk : Clock) (data : Bytes) : Prop :=
  ∃ priority m, deserializeMessage pf clk data = .enqueued priority m

/-- **When a message with a file part is accepted.** The receiver's path and time must hash to one
less than the sender's. With a normal path, one offset from UTC, clock readings in one order and
less than a second apart, and both seconds on one local day, that is: the receiver renders the
second before the one the sender renders, and the sender's does not end in 0. -/
theorem file_accepted_iff (pf : Platform) (cs cr : Clock) (self destination : IpAddress)
    (m : AnyMessage) (f : FileMessage) (hw : m.WireTyped) (hf : m.Fits)
    (hfile : m.filePart = some f) :
    let sent := to_time_t cs f.timestamp
    let received := to_time_t cr (truncateSeconds f.timestamp)
    (Accepted pf cr (frame pf cs self destination m) ↔
      hash f.targetFile.native + hash (ctime cs sent) =
        hash f.targetFile.lexicallyNormal.native + hash (ctime cr received) + 1) ∧
    (f.targetFile.lexicallyNormal = f.targetFile → cs.zone sent = cr.zone received →
      (0 ≤ cs.drift ∧ 0 ≤ cr.drift ∨ cs.drift ≤ 0 ∧ cr.drift ≤ 0) →
      |cs.drift| < 1000000000 → |cr.drift| < 1000000000 →
      localTime cs sent / 86400 = localTime cr received / 86400 →
      (Accepted pf cr (frame pf cs self destination m) ↔
        sent = received + 1 ∧ localTime cs sent % 10 ≠ 0)) := by
  intro sent received
  have hsum : Accepted pf cr (frame pf cs self destination m) ↔
      hash f.targetFile.native + hash (ctime cs sent) =
        hash f.targetFile.lexicallyNormal.native + hash (ctime cr received) + 1 := by
    rw [Accepted, deserializeMessage_file pf cs cr self destination hw hf hfile]
    by_cases h : f.stampHash cs = f.received.stampHash cr + 1
    · rw [if_pos h]
      exact ⟨fun _ => h, fun _ => ⟨_, _, rfl⟩⟩
    · rw [if_neg h]
      exact ⟨fun ⟨_, _, h'⟩ => (by cases h'), fun h' => absurd h' h⟩
  refine ⟨hsum, fun hpath hzone horder hs hr hday => ?_⟩
  rw [hsum, hpath, UInt64.add_assoc, UInt64.add_right_inj]
  exact hash_ctime_iff hzone hday (rendered_close f.timestamp horder hs hr)

/-- The unlock of `docs/a` that `processDisconnectMessage` sends, at a given time. -/
def unlockOf (timestamp : TimePoint) : FileMessage where
  type := .unlock
  receiverNode := .ipv6Unspecified
  originatorNode := .ipv4 0x0a000001
  messageHash := 0
  targetFile := ⟨[100, 111, 99, 115, 47, 97]⟩
  timestamp

theorem unlockOf_fits (timestamp : TimePoint) : (AnyMessage.file (unlockOf timestamp)).Fits :=
  show PathFits ⟨[100, 111, 99, 115, 47, 97]⟩ by decide

/-- At the epoch both sides render the same second, and the unlock is refused. -/
theorem epoch_unlock_refused :
    ¬ Accepted .littleEndian (.utc 0)
      (frame .littleEndian (.utc 0) (.ipv4 0x0a000002) .ipv6Loopback (.file (unlockOf 0))) := by
  rintro ⟨priority, m, h⟩
  rw [deserializeMessage_file (m := .file (unlockOf 0)) _ _ _ _ _ (Or.inr (Or.inl rfl))
    (unlockOf_fits 0) rfl, if_neg (by decide)] at h
  cases h

/-- A second and a half after the epoch, with enough drift at the sender, it is accepted. -/
theorem late_unlock_accepted :
    Accepted .littleEndian (.utc 0) (frame .littleEndian (.utc 600000000) (.ipv4 0x0a000002)
      .ipv6Loopback (.file (unlockOf 1500000000))) :=
  ((file_accepted_iff .littleEndian (.utc 600000000) (.utc 0) (.ipv4 0x0a000002) .ipv6Loopback
    (.file (unlockOf 1500000000)) (unlockOf 1500000000) (Or.inr (Or.inl rfl))
    (unlockOf_fits 1500000000) rfl).2 rfl rfl (by decide) (by decide) (by decide) (by decide)).2
    (by decide)

end WhisperNet
