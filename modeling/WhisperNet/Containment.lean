import WhisperNet.Confinement
import WhisperNet.ListeningThread
import WhisperNet.Shutdown

/-!
# What a node touches

A node that knows of managed files and folders alone, in its queue, its old messages, the locks on
its disk and the frames it has written, stays that way: whatever it processes or receives, it sends
nothing that names another file, and touches no other file even where it ends in an exception.

* `keeps_contained_send`, `keeps_contained_processMessage` — sending, and receiving a frame.
* `contains_dispatch` — processing a message, for every type.
* `contains_acceptConnection` — greeting a new peer.
-/

namespace WhisperNet

open Bin Fs Effect MessageManager FilesystemSweeper

namespace Managers

/-! ## One node -/

/-- The node knows of nothing but managed files and folders, and has touched no other file. -/
structure Contained (pf : Platform) (managed : List FilePath) (base : FileSystem) (s : Managers) :
    Prop where
  folders : s.folders ⊆ managed
  size : SizeFits s.folders.length
  disk : Tidy pf managed base s.files
  queue : ∀ e ∈ s.queue, ∀ m, e.2 = some m → Confined managed m
  oldMessages : ∀ m ∈ s.oldMessages, Confined managed m
  written : ∀ w ∈ s.written, ConfinedFrame pf managed w.2

/-- What an exception leaves: the rest of the disk is as it was, and what has been written names
nothing else. -/
structure Unspoilt (pf : Platform) (managed : List FilePath) (base : FileSystem) (s : Managers) :
    Prop where
  spared : Spared managed base s.files
  written : ∀ w ∈ s.written, ConfinedFrame pf managed w.2

/-- A contained node stays contained, or throws and has touched no other file. -/
def Contains {α : Type} (pf : Platform) (managed : List FilePath) (base : FileSystem)
    (x : ManagersM α) : Prop :=
  Triple (Contained pf managed base) x (fun _ => Contained pf managed base)
    (Unspoilt pf managed base)

section Parts

variable {pf : Platform} {managed : List FilePath} {base : FileSystem} {env : Circumstances}
  {α : Type} {s t : Managers} {m : AnyMessage} {data : Bytes}

theorem Contained.unspoilt (h : Contained pf managed base s) : Unspoilt pf managed base s :=
  ⟨h.disk.spared, h.written⟩

theorem contains_of_keeps {x : ManagersM α} (h : Keeps (Contained pf managed base) x) :
    Contains pf managed base x :=
  h.triple fun _ hs => hs.unspoilt

theorem Contained.withPeers (h : Contained pf managed base s) (peerManager : PeerManager) :
    Contained pf managed base { s with peerManager } :=
  ⟨h.folders, h.size, h.disk, h.queue, h.oldMessages, h.written⟩

theorem keeps_contained_onPeerManager (x : PeerManager.PeerM α) :
    Keeps (Contained pf managed base) (onPeerManager x) := by
  intro s hs
  unfold onPeerManager
  cases x s.peerManager with
  | ok a peerManager => exact hs.withPeers peerManager
  | error e peerManager => exact hs.withPeers peerManager

/-- What joins the queue. -/
theorem Contained.push (h : Contained pf managed base s) (undefined : Prio → Prio → Bool)
    (priority : Nat) {msgPtr : Option AnyMessage} (hm : ∀ m, msgPtr = some m → Confined managed m)
    (emplaced : List AnyMessage) : Contained pf managed base { s with
      queue := Heap.push (PrioComp undefined) s.queue (priority, msgPtr)
      emplaced } where
  folders := h.folders
  size := h.size
  disk := h.disk
  queue e he := by
    rcases List.mem_cons.mp ((Heap.push_perm _ _ _).mem_iff.mp he) with rfl | he
    · exact hm
    · exact h.queue e he
  oldMessages := h.oldMessages
  written := h.written

theorem keeps_contained_emplace (priority : Nat) (hm : Confined managed m) :
    Keeps (Contained pf managed base) (emplace env priority m) := fun _ hs =>
  hs.push _ _ (fun _ h => Option.some_inj.mp h ▸ hm) _

/-! ## Sending -/

theorem keeps_contained_transmit (index : Nat) (hdata : ConfinedFrame pf managed data) :
    Keeps (Contained pf managed base) (transmit index data) := by
  refine fun s hs => ⟨hs.folders, hs.size, hs.disk, hs.queue, hs.oldMessages, fun w hw => ?_⟩
  rcases List.mem_append.mp hw with hw | hw
  · exact hs.written w hw
  · obtain ⟨peer, -, rfl⟩ := Option.map_eq_some_iff.mp (Option.mem_toList.mp hw)
    exact hdata

theorem keeps_contained_forward (source : IpAddress) (hdata : ConfinedFrame pf managed data)
    (indices : List Nat) : Keeps (Contained pf managed base) (forward source data indices) := by
  induction indices with
  | nil => exact Keeps.pure ()
  | cons index rest ih =>
    have hhere : Keeps (Contained pf managed base) (forwardTo source data index) :=
      (keeps_contained_onPeerManager _).bind fun ip =>
        (keeps_contained_transmit index hdata).ite (Keeps.pure ())
    exact hhere.bind fun _ => ih

theorem keeps_contained_routeData {receive : Bytes → ManagersM Unit}
    (hreceive : Keeps (Contained pf managed base) (receive data))
    (hdata : ConfinedFrame pf managed data) (destination source : IpAddress) :
    Keeps (Contained pf managed base) (routeData env receive data destination source) := by
  have hall : Keeps (Contained pf managed base) (forward2all env receive source data) :=
    keeps_get.bind fun s => (keeps_contained_forward source hdata _).bind fun _ =>
      (Keeps.pure ()).ite hreceive
  refine hall.ite (hreceive.ite ((keeps_contained_onPeerManager _).bind fun index => ?_))
  cases index with
  | none => exact hall
  | some index => exact keeps_contained_transmit index hdata

/-- What comes off a frame joins the queue, or is asked for again. -/
theorem keeps_contained_receive {send : AnyMessage → IpAddress → ManagersM Unit}
    (hpf : env.host.platform = pf)
    (hsend : ∀ (request : ResendRequestMessage) destination, request.type = .resendRequest →
      Keeps (Contained pf managed base) (send (.resendRequest request) destination))
    (hdata : ConfinedFrame pf managed data) :
    Keeps (Contained pf managed base) (receive env send data) := by
  unfold receive
  rw [hpf]
  cases hrun : deserializeMessage pf (env.checkClock data) data with
  | enqueued priority m => exact keeps_contained_emplace priority (hdata _ priority m hrun)
  | resend request destination =>
    obtain ⟨b, rfl⟩ := resend_requests hrun
    exact hsend _ destination rfl
  | unrecognized | truncated | outOfRange => exact Keeps.throw _

theorem keeps_contained_sendAt (hpf : env.host.platform = pf) (hmanaged : Manageable managed)
    (depth : Nat) (hm : Confined managed m) (destination : IpAddress) :
    Keeps (Contained pf managed base) (sendAt env depth m destination) := by
  induction depth generalizing m destination with
  | zero => exact Keeps.throw _
  | succ depth ih =>
    subst hpf
    have hstamped := hm.stamp env.host.platform (env.sendClock m) env.host.self destination
    have hdata := confinedFrame_save env.host.platform hmanaged hstamped
    have hreceive : Keeps (Contained env.host.platform managed base)
        (receive env (sendAt env depth) _) := keeps_contained_receive rfl
      (fun request destination h => ih (confined_resendRequest h) destination) hdata
    refine (keeps_contained_routeData hreceive hdata _ _).bind fun _ s hs => ?_
    refine ⟨hs.folders, hs.size, hs.disk, hs.queue, fun m' hm' => ?_, hs.written⟩
    rcases List.mem_append.mp (List.mem_of_mem_drop hm') with hm' | hm'
    · exact hs.oldMessages m' hm'
    · exact List.mem_singleton.mp hm' ▸ hstamped

theorem keeps_contained_send (hpf : env.host.platform = pf) (hmanaged : Manageable managed)
    (hm : Confined managed m) (destination : IpAddress) :
    Keeps (Contained pf managed base) (send env m destination) :=
  keeps_contained_sendAt hpf hmanaged 2 hm destination

/-- `Peer::processMessage`, however it ends. -/
theorem keeps_contained_processMessage (hpf : env.host.platform = pf)
    (hmanaged : Manageable managed) (hdata : ConfinedFrame pf managed data) (index : Nat)
    (memory : Bytes) : Keeps (Contained pf managed base) (processMessage env index data memory) := by
  have hreceive : Keeps (Contained pf managed base) (receive env (send env) data) :=
    keeps_contained_receive hpf (fun request destination h =>
      keeps_contained_send hpf hmanaged (confined_resendRequest h) destination) hdata
  unfold processMessage
  split
  · exact Keeps.throw _
  · refine Keeps.bind (Keeps.ite ?_ (Keeps.pure _)) fun source =>
      keeps_contained_routeData hreceive hdata _ _
    exact (keeps_contained_onPeerManager _).bind fun _ => Keeps.pure _

/-! ## The handlers -/

/-- What a handler does to the files. -/
theorem triple_onFiles {x : Fs α} {R : α → Prop}
    (h : Triple (Tidy pf managed base) x (fun a fs => Tidy pf managed base fs ∧ R a)
      (Spared managed base)) :
    Triple (Contained pf managed base) (onFiles x) (fun a s => Contained pf managed base s ∧ R a)
      (Unspoilt pf managed base) where
  ok hs hrun := by
    obtain ⟨files, hx, rfl⟩ := onFiles_eq_ok hrun
    obtain ⟨htidy, hR⟩ := h.ok hs.disk hx
    exact ⟨⟨hs.folders, hs.size, htidy, hs.queue, hs.oldMessages, hs.written⟩, hR⟩
  error {s t e} hs hrun := by
    unfold onFiles onNode Node.onFiles at hrun
    cases hx : x s.files with
    | ok a files =>
      rw [hx] at hrun
      cases hrun
    | error e' files =>
      rw [hx] at hrun
      obtain ⟨-, rfl⟩ := EStateM.Result.error.inj hrun
      exact ⟨h.error hs.disk hx, hs.written⟩

theorem contains_onFiles {x : Fs α}
    (h : Triple (Tidy pf managed base) x (fun _ => Tidy pf managed base) (Spared managed base)) :
    Contains pf managed base (onFiles x) where
  ok hs hrun := by
    obtain ⟨files, hx, rfl⟩ := onFiles_eq_ok hrun
    exact ⟨hs.folders, hs.size, h.ok hs.disk hx, hs.queue, hs.oldMessages, hs.written⟩
  error hs hrun := (triple_onFiles (R := fun _ => True)
    ⟨fun htidy hx => ⟨h.ok htidy hx, trivial⟩, h.error⟩).error hs hrun

/-- What is resent is an old message. -/
theorem resends_known {self : IpAddress} {oldMessages : List AnyMessage}
    {request : ResendRequestMessage} {destination : IpAddress}
    (h : MessageManager.processResendRequestMessage self oldMessages request =
      some (some (m, destination))) : m ∈ oldMessages := by
  unfold MessageManager.processResendRequestMessage at h
  split at h
  · cases h
  · split at h
    · cases h
    · split at h
      · cases h
      · next m' hfind =>
        split at h
        · cases h
        · cases h
        · cases h
        · obtain ⟨rfl, -⟩ := Prod.mk.inj (Option.some_inj.mp (Option.some_inj.mp h))
          exact List.mem_of_find?_eq_some hfind

/-- The lock that goes along with a file names what the lock file says. -/
theorem triple_lockOf (hpf : env.host.platform = pf) (i : Nat) {p : FilePath}
    (hp : Nameable managed p) :
    Triple (Tidy pf managed base) (lockOf env i p)
      (fun lock? fs => Tidy pf managed base fs ∧ ∀ lock ∈ lock?, Confined managed (.file lock))
      (Spared managed base) := by
  refine Triple.bind (tidy_read fun fs => rfl) fun isLocked => Triple.ite ?_ ?_
  · refine Triple.bind (R := fun lock fs => Tidy pf managed base fs ∧
      Confined managed (.file lock.1)) ⟨fun htidy hload => ?_, fun htidy hload => ?_⟩ fun lock => ?_
    · obtain ⟨rfl, hrecord⟩ := loadLockFile_eq_ok hload
      exact ⟨htidy, htidy.locks p hp.listable _ _ (hpf ▸ hrecord)⟩
    · exact ((keeps_loadLockFile _ _).triple fun _ htidy => htidy.spared).error htidy hload
    · refine Triple.assuming fun hlock => Triple.pure fun fs htidy => ⟨htidy, fun lock' h => ?_⟩
      obtain rfl := Option.some_inj.mp (Option.mem_def.mp h)
      obtain ⟨q, hq, htarget⟩ := hlock.file _ rfl
      exact confined_file (m := .file _) hlock.typed rfl hq htarget
  · exact Triple.pure fun fs htidy => ⟨htidy, nofun⟩

section Handlers

variable (hpf : env.host.platform = pf) (hmanaged : Manageable managed)
include hpf hmanaged

theorem contains_send (hm : Confined managed m) (destination : IpAddress) :
    Contains pf managed base (send env m destination) :=
  contains_of_keeps (keeps_contained_send hpf hmanaged hm destination)

theorem contains_resend (request : ResendRequestMessage) :
    Contains pf managed base (processResendRequestMessage env request) := by
  refine Triple.get_bind fun s hs => ?_
  split
  · exact Triple.throw fun _ hs => hs.unspoilt
  · exact Triple.pure fun _ hs => hs
  · next m destination hresent =>
    have hm := hs.oldMessages m (resends_known hresent)
    exact (contains_send hpf hmanaged hm destination).bind fun _ => Triple.pure fun _ hs => hs

theorem contains_sendFile (destination : IpAddress) (size i : Nat) {p : FilePath}
    (hp : Nameable managed p) :
    Contains pf managed base (sendFile env destination size i p) := by
  refine (contains_onFiles (tidy_read fun fs => rfl)).bind fun content => ?_
  refine (contains_send hpf hmanaged ?_ destination).bind fun _ => ?_
  · exact confined_file (m := .fileInitialSync _) rfl rfl hp rfl
  · refine (triple_onFiles (triple_lockOf hpf i hp)).bind fun lock? =>
      Triple.assuming fun hlock => ?_
    cases lock? with
    | none => exact Triple.pure fun _ hs => hs
    | some lock => exact contains_send hpf hmanaged (hlock lock rfl) destination

theorem contains_sendFiles (destination : IpAddress) (size i : Nat) {paths : List FilePath}
    (hpaths : ∀ p ∈ paths, Nameable managed p) :
    Contains pf managed base (sendFiles env destination size i paths) := by
  induction paths generalizing i with
  | nil => exact Triple.pure fun _ hs => hs
  | cons path paths ih =>
    obtain ⟨hpath, hrest⟩ := List.forall_mem_cons.mp hpaths
    exact (contains_sendFile hpf hmanaged destination size i hpath).bind fun _ => ih (i + 1) hrest

theorem contains_syncRequest (m : Message) :
    Contains pf managed base (processInitialFileSyncRequestMessage env m) := by
  refine Triple.get_bind fun s hs => Triple.ite (Triple.pure fun _ hs => hs) ?_
  refine (triple_onFiles (tidy_enumerate hs.folders)).bind fun paths =>
    Triple.assuming fun hpaths => ?_
  exact (contains_sendFiles hpf hmanaged _ _ _ hpaths).bind fun _ => Triple.pure fun _ hs => hs

theorem contains_unlockEach (m : Message) {paths : List FilePath}
    (hpaths : ∀ p ∈ paths, Nameable managed p) :
    Contains pf managed base (unlockEach env m paths) := by
  induction paths with
  | nil => exact Triple.pure fun _ hs => hs
  | cons path paths ih =>
    obtain ⟨hpath, hrest⟩ := List.forall_mem_cons.mp hpaths
    refine (contains_send hpf hmanaged ?_ _).bind fun _ => ih hrest
    exact confined_file (m := .file _) (Or.inr (Or.inl rfl)) rfl hpath rfl

theorem contains_disconnect (m : Message) :
    Contains pf managed base (processDisconnectMessage env m) := by
  refine Triple.get_bind fun s hs => Triple.ite (Triple.pure fun _ hs => hs) ?_
  have hbackup : Contains pf managed base (removeBackup m.originatorNode) :=
    contains_of_keeps fun s hs => hs.withPeers _
  refine hbackup.bind fun _ => ?_
  refine (triple_onFiles (tidy_enumerate hs.folders)).bind fun paths =>
    Triple.assuming fun hpaths => ?_
  exact (contains_unlockEach hpf hmanaged m hpaths).bind fun _ => Triple.pure fun _ hs => hs

theorem contains_linkLost (m : Message) :
    Contains pf managed base (processLinkLostMessage env m) := by
  refine (contains_of_keeps (keeps_contained_onPeerManager _)).bind fun removedIP => ?_
  cases removedIP with
  | none => exact Triple.pure fun _ hs => hs
  | some removedIP =>
    refine (contains_send hpf hmanaged ?_ _).bind fun _ => Triple.pure fun _ hs => hs
    exact confined_message (Or.inl rfl)

omit hpf in
/-- The folders a node takes over are managed folders. -/
theorem contains_connect {c : ConnectMessage} (h : Confined managed (.connect c)) :
    Contains pf managed base (processConnectMessage c) := by
  obtain ⟨-, folders, hsub, hsize, hpaths⟩ := h.connect c rfl
  have hfolders : c.managedPaths.map filePath = folders := by
    rw [hpaths, List.map_map]
    calc folders.map _ = folders.map id := List.map_congr_left fun folder hfolder =>
          (hmanaged.normal folder (hsub hfolder)).ofElements.2
      _ = folders := List.map_id _
  have hadopt : Contains pf managed base (adopt c) := by
    refine contains_of_keeps fun s hs => ?_
    show Contained pf managed base { s with
      peerManager := { s.peerManager with backupPeers := c.backupPeers }
      folders := c.managedPaths.map filePath }
    rw [hfolders]
    exact ⟨hsub, hsize, hs.disk, hs.queue, hs.oldMessages, hs.written⟩
  have hreset : Contains pf managed base resetCounts := contains_of_keeps fun s hs =>
    ⟨hs.folders, hs.size, hs.disk, hs.queue, hs.oldMessages, hs.written⟩
  refine hadopt.bind fun _ => (contains_onFiles ?_).bind fun _ => hreset.bind fun _ =>
    Triple.pure fun _ hs => hs
  rw [hfolders]
  exact tidy_prepare hsub

/-- **Whatever a message asks for**, it is about managed files. -/
theorem contains_dispatch (hm : Confined managed m) :
    Contains pf managed base (dispatch env m) := by
  subst hpf
  refine Triple.get_bind fun s hs => ?_
  dsimp only
  split
  · exact Triple.pure fun _ hs => hs
  · exact contains_resend rfl hmanaged _
  · exact contains_onFiles (tidy_lock hmanaged hm)
  · exact contains_onFiles (tidy_unlock hmanaged hm)
  · exact contains_onFiles (tidy_delete hmanaged hm)
  · exact contains_onFiles (tidy_content hmanaged hm)
  · refine Triple.bind (contains_of_keeps fun s hs => ?_) fun _ =>
      contains_onFiles (tidy_sync hmanaged hm)
    exact ⟨hs.folders, hs.size, hs.disk, hs.queue, hs.oldMessages, hs.written⟩
  · exact contains_syncRequest rfl hmanaged _
  · exact contains_connect hmanaged hm
  · exact contains_disconnect rfl hmanaged _
  · exact contains_linkLost rfl hmanaged _
  · exact Triple.throw fun _ hs => hs.unspoilt

/-! ## The main thread -/

omit hpf hmanaged in
/-- What has been processed joins the old messages. -/
theorem contains_retire {msgPtr : Option AnyMessage}
    (hm : ∀ m, msgPtr = some m → Confined managed m) :
    Contains pf managed base (retire msgPtr) := by
  refine contains_of_keeps fun s hs =>
    ⟨hs.folders, hs.size, hs.disk, hs.queue, fun m h => ?_, hs.written⟩
  cases msgPtr with
  | none => exact hs.oldMessages m h
  | some m' =>
    rcases List.mem_append.mp (List.mem_of_mem_drop h) with hold | hnew
    · exact hs.oldMessages m hold
    · exact List.mem_singleton.mp hnew ▸ hm m' rfl

theorem contains_process {msgPtr : Option AnyMessage}
    (hm : ∀ m, msgPtr = some m → Confined managed m) :
    Contains pf managed base (process env msgPtr) := by
  cases msgPtr with
  | none => exact Triple.throw fun _ hs => hs.unspoilt
  | some m => exact contains_dispatch hpf hmanaged (hm m rfl)

theorem contains_processNextMessage : Contains pf managed base (processNextMessage env) := by
  refine Triple.get_bind fun s hs => ?_
  split
  · exact Triple.pure fun _ hs => hs
  · next priority msgPtr rest hqueue =>
    have hm := hs.queue (priority, msgPtr) (hqueue ▸ List.mem_cons_self)
    have hpop : Contains pf managed base (pop env) := contains_of_keeps fun s hs =>
      ⟨hs.folders, hs.size, hs.disk, fun e he => hs.queue e (Heap.pop_subset _ _ he),
        hs.oldMessages, hs.written⟩
    have hrequeue : Contains pf managed base (requeue env msgPtr) := by
      unfold requeue
      split
      · exact contains_of_keeps fun s hs => hs.push _ _ hm _
      · exact Triple.throw fun _ hs => hs.unspoilt
    exact hpop.bind fun _ => (contains_process hpf hmanaged hm).bind fun processed =>
      (contains_retire hm).ite hrequeue

end Handlers

/-! ## New peers -/

theorem length_askEach {β : Type} (ask : EStateM ZTError PeerEntry β) (indices : List Nat) :
    Ensures (PeerManager.askEach ask indices) fun as _ => as.length ≤ indices.length := by
  induction indices with
  | nil => exact Ensures.pure fun _ => Nat.le_refl 0
  | cons index rest ih =>
    refine Ensures.bind fun a => fun peers as peers' hrun => ?_
    obtain ⟨more, peers₁, hmore, hreturn⟩ := bind_eq_ok hrun
    obtain ⟨rfl, rfl⟩ := EStateM.Result.ok.inj hreturn
    have hlength := ih _ _ _ hmore
    have hone : a.toList.length ≤ 1 := by cases a <;> simp
    rw [List.length_append, List.length_cons]
    omega

/-- A new peer gets no more backups than there are peers. -/
theorem accept_backups {pm pm' : PeerManager} {socket : Socket} {grows : Bool}
    {backupPeers : List (IpAddress × UInt16)} {peerIP : Option IpAddress}
    (h : PeerManager.accept socket grows pm = .ok (backupPeers, peerIP) pm') :
    backupPeers.length ≤ pm.peers.length := by
  obtain ⟨pm₁, pm₂, hget, h⟩ := bind_eq_ok h
  obtain ⟨rfl, rfl⟩ := EStateM.Result.ok.inj hget
  obtain ⟨backups, pm₃, hask, h⟩ := bind_eq_ok h
  obtain ⟨⟨⟩, pm₄, -, h⟩ := bind_eq_ok h
  obtain ⟨pm₅, pm₆, -, h⟩ := bind_eq_ok h
  obtain ⟨ip, pm₇, -, hreturn⟩ := bind_eq_ok h
  obtain ⟨hpair, -⟩ := EStateM.Result.ok.inj hreturn
  obtain ⟨rfl, -⟩ := Prod.mk.inj hpair
  unfold PeerManager.onPeers at hask
  split at hask
  · next as peers hpeers =>
    obtain ⟨rfl, -⟩ := EStateM.Result.ok.inj hask
    have hlength := length_askEach _ _ _ _ _ hpeers
    rwa [List.length_range] at hlength
  · cases hask

/-- The greeting names the folders of the node, which are managed. -/
theorem confined_connectMessage {backupPeers : List (IpAddress × UInt16)}
    (hbackups : SizeFits backupPeers.length) (hs : Contained pf managed base s) :
    Confined managed (.connect (connectMessage backupPeers s.folders)) where
  typed := rfl
  file := nofun
  connect c hc := by
    obtain rfl := AnyMessage.connect.inj hc
    exact ⟨hbackups, s.folders, hs.folders, hs.size, rfl⟩

/-- **A new peer** learns of nothing but managed folders. -/
theorem contains_acceptConnection {a : Arrival} (hpf : a.env.host.platform = pf)
    (hmanaged : Manageable managed) :
    Triple (fun s => Contained pf managed base s ∧ SizeFits s.peerManager.peers.length)
      (acceptConnection a) (fun _ => Contained pf managed base) (Unspoilt pf managed base) := by
  have haccept : Triple
      (fun s => Contained pf managed base s ∧ SizeFits s.peerManager.peers.length)
      (onPeerManager (PeerManager.accept a.socket a.grows))
      (fun greeting s => Contained pf managed base s ∧ SizeFits greeting.1.length)
      (Unspoilt pf managed base) := by
    refine ⟨fun hs hrun => ?_, fun hs hrun => ?_⟩
    · refine ⟨(keeps_contained_onPeerManager _).ok hrun hs.1, ?_⟩
      unfold onPeerManager at hrun
      split at hrun
      · next greeting pm haccept =>
        obtain ⟨rfl, -⟩ := EStateM.Result.ok.inj hrun
        exact (accept_backups haccept).trans_lt hs.2
      · cases hrun
    · exact (contains_of_keeps (keeps_contained_onPeerManager _)).error hs.1 hrun
  refine haccept.bind fun greeting => Triple.assuming fun hbackups => ?_
  obtain ⟨backupPeers, peerIP⟩ := greeting
  cases peerIP with
  | none => exact Triple.pure fun _ hs => hs
  | some peerIP =>
    refine Triple.get_bind fun s hs => ?_
    have hgreeting := confined_connectMessage hbackups hs
    have hrequest : Confined managed (.message (syncRequest peerIP)) :=
      confined_message (Or.inr (Or.inl rfl))
    exact (contains_send hpf hmanaged hgreeting peerIP).bind fun _ =>
      contains_of_keeps (keeps_contained_emplace _ hrequest)

end Parts

end Managers

end WhisperNet
