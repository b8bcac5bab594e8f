import WhisperNet.Failover

/-!
# Connecting to a backup

`Peer::connect` makes its attempts until the socket is open. `init` opens it; whether `connect`
succeeds makes no difference, and its error is caught. So the first attempt that gets a socket is
the last, and the `Peer` is returned even if nobody is at the other end.

The list of backups to choose from is purged of a node that has disconnected, by a loop that passes
over the entry behind each one it erases.

* `connect_honest_iff` — when `Peer::connect` returns what is connected, and throws otherwise.
* `purged_iff` — when no entry of the node is left.
-/

namespace WhisperNet

open Effect PeerManager

namespace Peer

/-! ## The socket -/

/-- The `zt::Socket` of a connection in the making. -/
structure ConnectionSocket where
  isOpen : Bool := false
  connected : Bool := false

abbrev ConnectionM := EStateM ZTError ConnectionSocket

/-- What comes of the two calls in one attempt. -/
structure Attempt where
  init : Bool
  connect : Bool

namespace Attempt

/-- `connectionSocket.init(…)`, which an open socket refuses. -/
def initSocket (a : Attempt) : ConnectionM Unit := fun socket =>
  if !socket.isOpen && a.init then .ok () { isOpen := true } else .error .error socket

/-- `connectionSocket.connect(ip, port)` -/
def connectSocket (a : Attempt) : ConnectionM Unit := fun socket =>
  if a.connect then .ok () { socket with connected := true } else .error .error socket

/-- The body of the `try`. -/
def run (a : Attempt) : ConnectionM Unit := do
  a.initSocket
  a.connectSocket

/-- Both calls succeed. -/
def Succeeds (a : Attempt) : Prop := a.init = true ∧ a.connect = true

instance (a : Attempt) : Decidable a.Succeeds :=
  inferInstanceAs (Decidable (a.init = true ∧ a.connect = true))

/-- What an attempt makes of a socket that is not open. Errors are caught. -/
theorem final_run (a : Attempt) :
    final (a.run {}) = if a.init then { isOpen := true, connected := a.connect } else {} := by
  obtain ⟨init, connect⟩ := a
  cases init
  · rfl
  · cases connect <;> rfl

end Attempt

/-! ## The loop -/

/-- The loop from the `i`-th attempt on, with so many left: the socket it leaves, and how many
attempts have been made. -/
def attempts (outcomes : Nat → Attempt) : Nat → Nat → ConnectionSocket → ConnectionSocket × Nat
  | 0, i, socket => (socket, i)
  | left + 1, i, socket =>
    if socket.isOpen then (socket, i)
    else attempts outcomes left (i + 1) (final ((outcomes i).run socket))

/-- `if(retryAttempts == 0) retryAttempts--;` -/
def limit (retryAttempts : UInt64) : UInt64 :=
  if retryAttempts = 0 then retryAttempts - 1 else retryAttempts

/-- `Peer::connect`: the socket of the `Peer` it returns, or `none` where it throws; and how many
attempts it has made. -/
def connect (remote : Endpoint) (outcomes : Nat → Attempt) (retryAttempts : UInt64) :
    Option Socket × Nat :=
  let (socket, made) := attempts outcomes (limit retryAttempts).toNat 0 {}
  if socket.isOpen then (some ⟨remote.1, remote.2, socket.connected⟩, made) else (none, made)

section Loop

variable {outcomes : Nat → Attempt} {socket : ConnectionSocket} {left i k : Nat}

theorem attempts_open (h : socket.isOpen = true) :
    attempts outcomes left i socket = (socket, i) := by
  cases left with
  | zero => rfl
  | succ left => rw [attempts, if_pos h]

/-- No socket is to be had. -/
theorem attempts_none (h : ∀ j, i ≤ j → j < i + left → (outcomes j).init = false) :
    attempts outcomes left i {} = ({}, i + left) := by
  induction left generalizing i with
  | zero => rfl
  | succ left ih =>
    have hinit : (outcomes i).init = false := h i (le_refl i) (by omega)
    rw [attempts, if_neg (by simp), Attempt.final_run, hinit, if_neg (by simp),
      ih fun j hj hlt => h j (by omega) (by omega)]
    congr 1
    omega

/-- The first attempt that gets a socket is the last. -/
theorem attempts_first (hk : i ≤ k) (hlt : k < i + left) (hinit : (outcomes k).init = true)
    (h : ∀ j, i ≤ j → j < k → (outcomes j).init = false) :
    attempts outcomes left i {} =
      ({ isOpen := true, connected := (outcomes k).connect }, k + 1) := by
  induction left generalizing i with
  | zero => omega
  | succ left ih =>
    rw [attempts, if_neg (by simp), Attempt.final_run]
    rcases hk.eq_or_lt with rfl | hk
    · rw [hinit, if_pos rfl]
      exact attempts_open rfl
    · rw [h i (le_refl i) hk, if_neg (by simp)]
      exact ih hk (by omega) fun j hj => h j (by omega)

end Loop

/-! ## When it is right -/

/-- The attempt is one of the first `retryAttempts`; with 0, every attempt is. -/
def Among (retryAttempts : UInt64) (i : Nat) : Prop :=
  retryAttempts = 0 ∨ i < retryAttempts.toNat

/-- A `Peer` is returned if and only if one of the attempts that may be made succeeds, and the first
that does is the last; otherwise all of them are made. -/
structure Honest (outcomes : Nat → Attempt) (retryAttempts : UInt64)
    (result : Option Socket × Nat) : Prop where
  returns : result.1.isSome = true ↔ ∃ i, Among retryAttempts i ∧ (outcomes i).Succeeds
  last : ∀ i, Among retryAttempts i → (outcomes i).Succeeds →
    (∀ j < i, ¬ (outcomes j).Succeeds) → result.2 = i + 1
  throws : result.1 = none → result.2 = retryAttempts.toNat

/-- The first socket that is got connects, if one is; if none is, the attempts are limited. -/
structure Sound (outcomes : Nat → Attempt) (retryAttempts : UInt64) : Prop where
  connects : ∀ i < (limit retryAttempts).toNat, (outcomes i).init = true →
    (∀ j < i, (outcomes j).init = false) → (outcomes i).connect = true
  limited : (∀ i < (limit retryAttempts).toNat, (outcomes i).init = false) → retryAttempts ≠ 0

section Connect

variable {outcomes : Nat → Attempt} {retryAttempts : UInt64} {k : Nat}

theorem limit_of_ne (h : retryAttempts ≠ 0) : limit retryAttempts = retryAttempts := if_neg h

theorem among_of_lt (h : k < (limit retryAttempts).toNat) : Among retryAttempts k := by
  by_cases hzero : retryAttempts = 0
  · exact Or.inl hzero
  · rw [limit_of_ne hzero] at h
    exact Or.inr h

theorem connect_none (remote : Endpoint)
    (h : ∀ i < (limit retryAttempts).toNat, (outcomes i).init = false) :
    connect remote outcomes retryAttempts = (none, (limit retryAttempts).toNat) := by
  rw [connect, attempts_none fun j _ hj => h j (by omega), Nat.zero_add]
  rfl

/-- The `Peer` that is returned has the socket of the first attempt that gets one, connected or
not. -/
theorem connect_first (remote : Endpoint) (hk : k < (limit retryAttempts).toNat)
    (hinit : (outcomes k).init = true) (h : ∀ j < k, (outcomes j).init = false) :
    connect remote outcomes retryAttempts =
      (some ⟨remote.1, remote.2, (outcomes k).connect⟩, k + 1) := by
  rw [connect, attempts_first k.zero_le (by omega) hinit fun j _ => h j]
  rfl

theorem exists_first {p : Nat → Prop} [DecidablePred p] {n : Nat} (h : ¬ ∀ i < n, ¬ p i) :
    ∃ k < n, p k ∧ ∀ j < k, ¬ p j := by
  push Not at h
  obtain ⟨i, hi, hp⟩ := h
  have hex : ∃ i, p i := ⟨i, hp⟩
  exact ⟨Nat.find hex, (Nat.find_min' hex hp).trans_lt hi, Nat.find_spec hex,
    fun j hj => Nat.find_min hex hj⟩

/-- **Connecting.** Whatever comes of the calls: what `Peer::connect` does is right if and only if
the first socket that it gets connects, or it gets none and there was a limit. -/
theorem connect_honest_iff (remote : Endpoint) (outcomes : Nat → Attempt)
    (retryAttempts : UInt64) :
    Honest outcomes retryAttempts (connect remote outcomes retryAttempts) ↔
      Sound outcomes retryAttempts := by
  by_cases hnone : ∀ i < (limit retryAttempts).toNat, (outcomes i).init = false
  · rw [connect_none remote hnone]
    constructor
    · intro h
      refine ⟨fun i hi hinit => ?_, fun _ hzero => ?_⟩
      · rw [hnone i hi] at hinit
        cases hinit
      · have hthrows := h.throws rfl
        rw [hzero] at hthrows
        exact absurd hthrows (by decide)
    · intro h
      have hne := h.limited hnone
      rw [limit_of_ne hne] at hnone ⊢
      have hfails : ∀ i, Among retryAttempts i → ¬ (outcomes i).Succeeds := by
        intro i hi hsucceeds
        have hinit := hnone i (hi.resolve_left hne)
        rw [hsucceeds.1] at hinit
        cases hinit
      refine ⟨⟨nofun, fun ⟨i, hi, hsucceeds⟩ => absurd hsucceeds (hfails i hi)⟩, ?_, fun _ => rfl⟩
      exact fun i hi hsucceeds => absurd hsucceeds (hfails i hi)
  · obtain ⟨k, hk, hinit, hbefore⟩ := exists_first (p := fun i => (outcomes i).init = true)
      (n := (limit retryAttempts).toNat) (by simpa using hnone)
    replace hbefore : ∀ j < k, (outcomes j).init = false := by simpa using hbefore
    have hleast {i : Nat} (hi : (outcomes i).init = true) : k ≤ i := by
      by_contra hlt
      rw [hbefore i (not_le.mp hlt)] at hi
      cases hi
    rw [connect_first remote hk hinit hbefore]
    constructor
    · intro h
      obtain ⟨i, hi, hsucceeds⟩ := h.returns.mp rfl
      obtain ⟨first, hfirst, hsucceeds, hmin⟩ := exists_first
        (p := fun i => (outcomes i).Succeeds) (n := i + 1)
        fun hnot => hnot i (Nat.lt_succ_self i) hsucceeds
      have hmade := h.last first (hi.imp_right fun hi => by omega) hsucceeds hmin
      obtain rfl : k = first := Nat.succ_injective hmade
      refine ⟨fun j hj hinit' hbefore' => ?_, fun hall => ?_⟩
      · obtain rfl : j = k := by
          refine le_antisymm (le_of_not_gt fun hlt => ?_) (hleast hinit')
          rw [hbefore' k hlt] at hinit
          cases hinit
        exact hsucceeds.2
      · rw [hall k hk] at hinit
        cases hinit
    · intro h
      have hsucceeds : (outcomes k).Succeeds := ⟨hinit, h.connects k hk hinit hbefore⟩
      refine ⟨⟨fun _ => ⟨k, among_of_lt hk, hsucceeds⟩, fun _ => rfl⟩, ?_, nofun⟩
      intro i _ hi hmin
      have hge : k ≤ i := hleast hi.1
      have hle : i ≤ k := le_of_not_gt fun hlt => hmin k hlt hsucceeds
      rw [le_antisymm hge hle]

end Connect

/-- Nobody answers: a socket that is connected to nobody is returned. -/
theorem dead_returned : ¬ ∀ (remote : Endpoint) (outcomes : Nat → Attempt)
    (retryAttempts : UInt64),
    Honest outcomes retryAttempts (connect remote outcomes retryAttempts) := by
  intro h
  have hhonest := h (.ipv4 0x0a000002, 9993) (fun _ => ⟨true, false⟩) 3
  obtain ⟨_, -, -, hconnect⟩ := hhonest.returns.mp (by decide)
  cases hconnect

/-! ## The next gateway -/

section Gateway

variable {isValid : IpAddress → Bool} {backups : List Endpoint} {outcomes : Nat → Nat → Attempt}
  {peer : Nat}

/-- `Peer::connect`, as `processLinkLostMessage` calls it for each backup. -/
def zeroTier (isValid : IpAddress → Bool) (backups : List Endpoint)
    (outcomes : Nat → Nat → Attempt) : ZeroTier where
  isValid
  connect peer := backups[peer]?.bind fun backup => (connect backup (outcomes peer) 3).1

theorem connect_isSome_iff (remote : Endpoint) (outcomes : Nat → Attempt) (retryAttempts : UInt64) :
    (connect remote outcomes retryAttempts).1.isSome = true ↔
      ∃ i < (limit retryAttempts).toNat, (outcomes i).init = true := by
  by_cases hnone : ∀ i < (limit retryAttempts).toNat, (outcomes i).init = false
  · rw [connect_none remote hnone]
    simpa using hnone
  · obtain ⟨k, hk, hinit, hbefore⟩ := exists_first (p := fun i => (outcomes i).init = true)
      (n := (limit retryAttempts).toNat) (by simpa using hnone)
    rw [connect_first remote hk hinit (by simpa using hbefore)]
    exact iff_of_true rfl ⟨k, hk, hinit⟩

/-- A backup is taken for the gateway as soon as there is a socket for it. -/
theorem taken_iff : ((zeroTier isValid backups outcomes).attempts backups peer).isSome = true ↔
    ∃ backup, backups[peer]? = some backup ∧ isValid backup.1 = true ∧
      ∃ i < 3, (outcomes peer i).init = true := by
  have hattempts : (zeroTier isValid backups outcomes).attempts backups peer =
      backups[peer]?.bind fun backup =>
        if isValid backup.1 then backups[peer]?.bind fun backup =>
          (connect backup (outcomes peer) 3).1 else none := rfl
  rw [hattempts]
  cases hbackup : backups[peer]? with
  | none => simp
  | some backup =>
    have hsome := connect_isSome_iff backup (outcomes peer) 3
    by_cases hvalid : isValid backup.1 = true
    · rw [Option.bind_some, if_pos hvalid, Option.bind_some, hsome]
      exact ⟨fun hi => ⟨backup, rfl, hvalid, hi⟩, fun ⟨_, _, _, hi⟩ => hi⟩
    · rw [Option.bind_some, if_neg hvalid]
      refine iff_of_false (by simp) fun ⟨backup', heq, hvalid', _⟩ => hvalid ?_
      rwa [Option.some_inj.mp heq]

end Gateway

end Peer

namespace Managers

/-! ## The dead are purged -/

section Purge

variable {ip : IpAddress} {backups : List Endpoint}

/-- Everything that is not an entry of this node. -/
def without (ip : IpAddress) (backups : List Endpoint) : List Endpoint :=
  backups.filter fun backup => backup.1 ≠ ip

/-- Of every two neighbours, one at most is an entry of this node. -/
def Spaced (ip : IpAddress) (backups : List Endpoint) : Prop :=
  backups.IsChain fun backup next => ¬ (backup.1 = ip ∧ next.1 = ip)

theorem spaced_cons_of_ne {backup : Endpoint} (h : backup.1 ≠ ip) :
    Spaced ip (backup :: backups) ↔ Spaced ip backups := by
  cases backups with
  | nil => exact iff_of_true (.singleton _) .nil
  | cons next rest =>
    rw [Spaced, List.isChain_cons_cons]
    exact and_iff_right fun ⟨hip, _⟩ => h hip

theorem without_cons_of_ne {backup : Endpoint} (h : backup.1 ≠ ip) :
    without ip (backup :: backups) = backup :: without ip backups :=
  List.filter_cons_of_pos (decide_eq_true h)

theorem without_cons_of_eq {backup : Endpoint} (h : backup.1 = ip) :
    without ip (backup :: backups) = without ip backups :=
  List.filter_cons_of_neg (by simpa using h)

theorem eraseBackups_iff (ip : IpAddress) (backups : List Endpoint) :
    eraseBackups ip backups = without ip backups ↔ Spaced ip backups := by
  fun_induction eraseBackups ip backups with
  | case1 => exact iff_of_true rfl .nil
  | case2 backup h =>
    refine iff_of_true ?_ (.singleton _)
    rw [without_cons_of_eq h]
    rfl
  | case3 backup h =>
    refine iff_of_true ?_ (.singleton _)
    rw [without_cons_of_ne h]
    rfl
  | case4 backup next rest h ih =>
    rw [without_cons_of_eq h, Spaced, List.isChain_cons_cons]
    by_cases hnext : next.1 = ip
    · -- The second of two is passed over.
      refine iff_of_false (fun heq => ?_) fun hspaced => hspaced.1 ⟨h, hnext⟩
      have hmem : next ∈ without ip (next :: rest) := heq ▸ List.mem_cons_self
      exact absurd hnext (of_decide_eq_true (List.mem_filter.mp hmem).2)
    · rw [without_cons_of_ne hnext, List.cons_inj_right, ih]
      refine Iff.trans (spaced_cons_of_ne hnext).symm (and_iff_right fun hboth => ?_).symm
      exact hnext hboth.2
  | case5 backup next rest h ih =>
    rw [without_cons_of_ne h, List.cons_inj_right, ih]
    exact (spaced_cons_of_ne h).symm

end Purge

section Disconnect

variable {env : Circumstances} {s : Managers} {m : Message}

/-- Nothing else that the handler does changes the backups. -/
theorem sparedByAsking_backups (backups : List Endpoint) :
    SparedByAsking fun s => s.peerManager.backupPeers = backups where
  asked _ _ h := h
  written _ _ h := h
  emplaced _ _ _ _ h := h

theorem keeps_backups_unlockEach (backups : List Endpoint) (m : Message) (paths : List FilePath) :
    Keeps (fun s => s.peerManager.backupPeers = backups) (unlockEach env m paths) := by
  induction paths with
  | nil => exact Keeps.pure ()
  | cons path paths ih =>
    exact (keeps_sendAt (sparedByAsking_backups backups) (fun _ _ h => h) 2 _ _).bind fun _ => ih

theorem disconnect_backups (hs : s.isFinishedConnecting = true) :
    (final (processDisconnectMessage env m s)).peerManager.backupPeers =
      eraseBackups m.originatorNode s.peerManager.backupPeers := by
  let backups := eraseBackups m.originatorNode s.peerManager.backupPeers
  have hrest : Keeps (fun s => s.peerManager.backupPeers = backups)
      (onFiles (Fs.enumerateAllFiles s.folders) >>= fun paths =>
        unlockEach env m paths >>= fun _ => pure true) := by
    have hfiles : Keeps (fun s => s.peerManager.backupPeers = backups)
        (onFiles (Fs.enumerateAllFiles s.folders)) := by
      intro s hs
      unfold onFiles onNode Node.onFiles
      cases Fs.enumerateAllFiles _ s.files with
      | ok a files => exact hs
      | error e files => exact hs
    exact hfiles.bind fun _ => (keeps_backups_unlockEach _ _ _).bind fun _ => Keeps.pure _
  have hrun : processDisconnectMessage env m s =
      (removeBackup m.originatorNode >>= fun _ => onFiles (Fs.enumerateAllFiles s.folders) >>=
        fun paths => unlockEach env m paths >>= fun _ => pure true) s := by
    show (if !s.isFinishedConnecting then _ else _ : ManagersM Bool) s = _
    rw [hs]
    rfl
  rw [hrun]
  exact hrest _ rfl

end Disconnect

/-- **The dead are purged.** Once a node that has finished connecting has been told that another has
disconnected, its backups are those that were not entries of that node if and only if no two
neighbours were. -/
theorem purged_iff (env : Circumstances) (m : Message) (s : Managers)
    (hs : s.isFinishedConnecting = true) :
    (final (processDisconnectMessage env m s)).peerManager.backupPeers =
        without m.originatorNode s.peerManager.backupPeers ↔
      Spaced m.originatorNode s.peerManager.backupPeers := by
  rw [disconnect_backups hs]
  exact eraseBackups_iff _ _

/-- A node that has joined, with these backups. -/
def backedUp (backupPeers : List Endpoint) : Managers :=
  { joinedDocs with peerManager := { backupPeers } }

/-- Two entries apart from each other both go. -/
theorem apart_purged : (final (processDisconnectMessage readerCircumstances
      (disconnectOf (.ipv4 0x0a000003)) (backedUp [(.ipv4 0x0a000003, 9000),
        (.ipv4 0x0a000004, 9000), (.ipv4 0x0a000003, 9001)]))).peerManager.backupPeers =
    [(.ipv4 0x0a000004, 9000)] :=
  (purged_iff readerCircumstances (disconnectOf (.ipv4 0x0a000003)) (backedUp _) rfl).mpr
    (.cons_cons (by decide) (.cons_cons (by decide) (.singleton _)))

/-- Of two in a row, one stays. -/
theorem repeated_stays : ¬ ∀ (env : Circumstances) (m : Message) (s : Managers),
    s.isFinishedConnecting = true →
      (final (processDisconnectMessage env m s)).peerManager.backupPeers =
        without m.originatorNode s.peerManager.backupPeers := by
  intro h
  have hpurged := h readerCircumstances (disconnectOf (.ipv4 0x0a000003))
    (backedUp [(.ipv4 0x0a000003, 9000), (.ipv4 0x0a000003, 9000)]) rfl
  rw [disconnect_backups rfl] at hpurged
  exact absurd hpurged (by decide)

end Managers

end WhisperNet
