import WhisperNet.BadFrames
import WhisperNet.Deferral
import WhisperNet.FileHash
import WhisperNet.LockHandlers
import WhisperNet.LockStability

/-!
# The locks of a node that has disconnected

`processDisconnectMessage` has the node send itself an unlock of every file, in the name of the one
that is gone. Such an unlock has no timestamp, and is checked like any other message: where it fails
the check, what joins the queue is a request to send it again, which the node ignores as its own.

* `unlockEach_pending` — what is then in the queue.
* `Releasing.step` — what the processing of it leaves.
* `disconnect_releases_iff` — exactly when the locks of the node are gone in the end.
-/

namespace WhisperNet

open Bin Fs Effect MessageManager

namespace Managers

/-! ## What the node sends itself -/

/-- The unlock of `p` passes its check: the clock shows another second when the hash is checked than
when it was made, and the two texts of the epoch hash to one apart. -/
def Passes (env : Circumstances) (m : Message) (p : FilePath) : Prop :=
  let unlock := AnyMessage.file (Node.disconnectUnlock m p)
  let sent := env.sendClock unlock
  let checked := env.checkClock
    (PeerManager.frame env.host.platform sent env.host.self .ipv6Loopback unlock)
  hash (ctime sent (to_time_t sent 0)) = hash (ctime checked (to_time_t checked 0)) + 1

instance (env : Circumstances) (m : Message) (p : FilePath) : Decidable (Passes env m p) :=
  inferInstanceAs (Decidable (_ = _))

/-- An unlock of `p` in the name of who disconnected. -/
def IsUnlock (m : Message) (p : FilePath) (e : Prio) : Prop :=
  ∃ priority unlock, e = (priority, some (.file unlock)) ∧ unlock.type = .unlock ∧
    unlock.originatorNode = m.originatorNode ∧ filePath unlock.targetFile = p

/-- A request of the node's own. -/
def IsOwnRequest (self : IpAddress) (e : Prio) : Prop :=
  ∃ priority request, e = (priority, some (.resendRequest request)) ∧
    request.type = .resendRequest ∧ request.originatorNode = self

section Sending

variable {env : Circumstances} {m : Message} {s t : Managers} {p : FilePath}

/-- A request joins the queue, if anything does. -/
theorem sendAt_request_queue {depth : Nat} {request : ResendRequestMessage}
    {destination : IpAddress} (htype : request.type = .resendRequest)
    (hnew : request.originatorNode = .ipv6Unspecified)
    (h : sendAt env (depth + 1) (.resendRequest request) destination s = .ok () t) :
    ∃ es, t.queue.Perm (es ++ s.queue) ∧
      ∀ e ∈ es, e.1 = resendPriority ∧ IsOwnRequest env.host.self e := by
  obtain ⟨r, u, hr, hsu, hrun⟩ := sendAt_request env s depth htype destination
  rw [h] at hrun
  rcases hrun with hrun | hrun | hrun
  · obtain ⟨-, rfl⟩ := EStateM.Result.ok.inj hrun
    refine ⟨[(resendPriority, some (.resendRequest r.received))], ?_, ?_⟩
    · rw [← hsu.queue]
      exact Heap.push_perm _ u.queue _
    · intro e he
      obtain rfl := List.mem_singleton.mp he
      have hbase := congrArg AnyMessage.base hr
      have htype' : r.type = request.type := (congrArg Message.type hbase).symm
      have horiginator : r.originatorNode =
          if request.originatorNode = .ipv6Unspecified then env.host.self
          else request.originatorNode := (congrArg Message.originatorNode hbase).symm
      rw [if_pos hnew] at horiginator
      exact ⟨rfl, _, _, rfl, htype'.trans htype, horiginator⟩
  · obtain ⟨-, rfl⟩ := EStateM.Result.ok.inj hrun
    refine ⟨[], ?_, by simp⟩
    rw [List.nil_append, ← hsu.queue]
  · cases hrun

theorem passes_iff (hp : InNormalForm p) :
    (Node.disconnectUnlock m p).stampHash (env.sendClock (.file (Node.disconnectUnlock m p))) =
        (Node.disconnectUnlock m p).received.stampHash (env.checkClock
          (PeerManager.frame env.host.platform (env.sendClock (.file (Node.disconnectUnlock m p)))
            env.host.self .ipv6Loopback (.file (Node.disconnectUnlock m p)))) + 1 ↔
      Passes env m p := by
  have htarget : (Node.disconnectUnlock m p).received.targetFile = .ofElements p := hp.ofElements.1
  have htime : (Node.disconnectUnlock m p).received.timestamp = 0 := by
    show truncateSeconds 0 = 0
    decide
  rw [FileMessage.stampHash, FileMessage.stampHash, htarget, htime, UInt64.add_assoc]
  exact UInt64.add_right_inj _

/-- What the unlock of a file leaves in the queue. -/
theorem send_unlock (hX : m.originatorNode ≠ .ipv6Unspecified) (hp : InNormalForm p)
    (hfits : PathFits (.ofElements p))
    (h : send env (.file (Node.disconnectUnlock m p)) .ipv6Loopback s = .ok () t) :
    ∃ es, t.queue.Perm (es ++ s.queue) ∧
      (∀ e ∈ es, IsOwnRequest env.host.self e ∨ Passes env m p ∧ IsUnlock m p e) ∧
      (Passes env m p → ∃ e ∈ es, IsUnlock m p e) := by
  have hsend : send env (.file (Node.disconnectUnlock m p)) .ipv6Loopback s =
      (receive env (sendAt env 1) (PeerManager.frame env.host.platform
        (env.sendClock (.file (Node.disconnectUnlock m p))) env.host.self .ipv6Loopback
          (.file (Node.disconnectUnlock m p))) >>= fun _ => remember _) s := rfl
  rw [hsend] at h
  obtain ⟨⟨⟩, u, hreceive, hremember⟩ := bind_eq_ok h
  obtain ⟨-, rfl⟩ := EStateM.Result.ok.inj hremember
  have hframe (cr : Clock) := deserializeMessage_file env.host.platform
    (env.sendClock (.file (Node.disconnectUnlock m p))) cr env.host.self .ipv6Loopback
    (m := .file (Node.disconnectUnlock m p)) (Or.inr (Or.inl rfl)) hfits rfl
  unfold receive at hreceive
  rw [hframe] at hreceive
  by_cases hpass : Passes env m p
  · rw [if_pos ((passes_iff hp).mpr hpass)] at hreceive
    obtain ⟨-, rfl⟩ := EStateM.Result.ok.inj hreceive
    have hunlock : IsUnlock m p (wirePriority .unlock, some (PeerManager.stamp env.host.platform
        (env.sendClock (.file (Node.disconnectUnlock m p))) env.host.self .ipv6Loopback
          (.file (Node.disconnectUnlock m p))).received) :=
      ⟨_, _, rfl, rfl, if_neg hX, hp.received⟩
    refine ⟨[_], Heap.push_perm _ s.queue _, fun e he => ?_, fun _ => ⟨_, List.mem_singleton_self _,
      hunlock⟩⟩
    obtain rfl := List.mem_singleton.mp he
    exact Or.inr ⟨hpass, hunlock⟩
  · rw [if_neg fun heq => hpass ((passes_iff hp).mp heq)] at hreceive
    obtain ⟨es, hperm, hes⟩ := sendAt_request_queue rfl rfl hreceive
    exact ⟨es, hperm, fun e he => Or.inl (hes e he).2, fun hpass' => absurd hpass' hpass⟩

/-- What waits in the queue: requests of the node's own, and unlocks of these files; one at least
of each file whose unlock passes its check. -/
structure Pending (env : Circumstances) (m : Message) (paths : List FilePath) (queue : List Prio) :
    Prop where
  entries : ∀ e ∈ queue, IsOwnRequest env.host.self e ∨
    ∃ p ∈ paths, Passes env m p ∧ IsUnlock m p e
  unlocks : ∀ p ∈ paths, Passes env m p → ∃ e ∈ queue, IsUnlock m p e

/-- **All the unlocks.** -/
theorem unlockEach_pending {paths done : List FilePath} (hX : m.originatorNode ≠ .ipv6Unspecified)
    (hpaths : ∀ p ∈ paths, InNormalForm p ∧ PathFits (.ofElements p))
    (hdone : Pending env m done s.queue) (h : unlockEach env m paths s = .ok () t) :
    t.files = s.files ∧ Pending env m (done ++ paths) t.queue := by
  induction paths generalizing done s with
  | nil =>
    obtain ⟨-, rfl⟩ := EStateM.Result.ok.inj h
    exact ⟨rfl, by rwa [List.append_nil]⟩
  | cons p paths ih =>
    obtain ⟨⟨⟩, u, hsend, hrest⟩ := bind_eq_ok h
    obtain ⟨hp, hpaths⟩ := List.forall_mem_cons.mp hpaths
    obtain ⟨es, hperm, hes, hunlock⟩ := send_unlock hX hp.1 hp.2 hsend
    have hpending : Pending env m (done ++ [p]) u.queue := by
      refine ⟨fun e he => ?_, fun q hq hpass => ?_⟩
      · rcases List.mem_append.mp (hperm.mem_iff.mp he) with he | he
        · refine (hes e he).imp_right fun hpass => ⟨p, by simp, hpass⟩
        · refine (hdone.entries e he).imp_right fun ⟨q, hq, hpass⟩ => ⟨q, ?_, hpass⟩
          exact List.mem_append_left _ hq
      · rcases List.mem_append.mp hq with hq | hq
        · obtain ⟨e, he, hunlock⟩ := hdone.unlocks q hq hpass
          exact ⟨e, hperm.mem_iff.mpr (List.mem_append_right _ he), hunlock⟩
        · obtain rfl := List.mem_singleton.mp hq
          obtain ⟨e, he, hunlock⟩ := hunlock hpass
          exact ⟨e, hperm.mem_iff.mpr (List.mem_append_left _ he), hunlock⟩
    obtain ⟨hfiles, hall⟩ := ih hpaths hpending hrest
    refine ⟨hfiles.trans (send_files hsend), ?_⟩
    rwa [List.append_assoc, List.singleton_append] at hall

/-- **Disconnecting.** With nothing else in the queue, what waits then are the unlocks. -/
theorem disconnect_pending {b : Bool} (hX : m.originatorNode ≠ .ipv6Unspecified)
    (hconnected : s.isFinishedConnecting = true) (hqueue : s.queue = [])
    (hpaths : ∀ p ∈ s.files.files, Listable s.folders p →
      InNormalForm p ∧ PathFits (.ofElements p))
    (h : processDisconnectMessage env m s = .ok b t) :
    b = true ∧ t.isFinishedConnecting = true ∧ t.files = s.files ∧
      ∃ paths, (∀ p, p ∈ paths ↔ p ∈ s.files.files ∧ Listable s.folders p) ∧
        Pending env m paths t.queue := by
  have hcounts := Keeps.ok (keeps_disconnect
    (sparedByHandlers_counts s.receivedInitialFiles s.totalInitialFiles) m) h ⟨rfl, rfl⟩
  obtain ⟨s', s₁, hget, h⟩ := bind_eq_ok h
  obtain ⟨rfl, rfl⟩ := EStateM.Result.ok.inj hget
  rw [hconnected] at h
  obtain ⟨⟨⟩, s₂, hbackup, h⟩ := bind_eq_ok h
  obtain ⟨paths, s₃, hlist, h⟩ := bind_eq_ok h
  obtain ⟨⟨⟩, s₄, hunlock, h⟩ := bind_eq_ok h
  obtain ⟨rfl, rfl⟩ := EStateM.Result.ok.inj h
  have hsame : s₂.files = s.files ∧ s₂.queue = [] := by
    obtain ⟨-, rfl⟩ := EStateM.Result.ok.inj hbackup
    exact ⟨rfl, hqueue⟩
  obtain ⟨hlisted, rfl⟩ := onFiles_enumerate hlist
  rw [hsame.1] at hlisted
  obtain ⟨-, -, hmem⟩ := enumerateAllFiles_eq_ok hlisted
  have hnothing : Pending env m [] s₃.queue := by
    refine ⟨fun e he => ?_, fun p hp => absurd hp List.not_mem_nil⟩
    rw [hsame.2] at he
    exact absurd he List.not_mem_nil
  obtain ⟨hfiles, hpending⟩ := unlockEach_pending hX
    (fun p hp => hpaths p ((hmem p).mp hp).1 ((hmem p).mp hp).2) hnothing hunlock
  refine ⟨rfl, ?_, hfiles.trans hsame.1, paths, hmem, hpending⟩
  rw [isFinishedConnecting_iff hcounts, ← isFinishedConnecting_iff ⟨rfl, rfl⟩]
  exact hconnected

end Sending

/-! ## What the unlocks do -/

/-- The lock record of the file names the node. -/
def LockedBy (pf : Platform) (ip : IpAddress) (fs : FileSystem) (p : FilePath) : Prop :=
  ∃ lock perms, lockRecord pf fs p = some (lock, perms) ∧ lock.originatorNode = ip

/-- Nobody may write to the file. -/
def Closed (fs : FileSystem) (p : FilePath) : Prop :=
  ∃ f, fs.file? p = some f ∧ f.writeBits = 0

/-- The file has been unlocked, and its lock is gone. -/
def Opened (fs : FileSystem) (p : FilePath) : Prop :=
  fs.file? p ≠ none ∧ fs.file? (lockFilePath p) = none

section Unlocking

variable {host : Host} {fs fs' : FileSystem} {p q : FilePath}

theorem Opened.not_lockedBy {pf : Platform} {ip : IpAddress} (h : Opened fs p) :
    ¬ LockedBy pf ip fs p := by
  rintro ⟨lock, perms, hrecord, -⟩
  rw [lockRecord_none h.2] at hrecord
  cases hrecord

/-- A file is not the lock of another. -/
theorem lock_ne_file (hp : p ∈ fs.files) (hq : q ∈ fs.files) (hmeta : wnts ∉ p) :
    lockFilePath q ≠ p := by
  rintro rfl
  have hparent := fs.parent_file _ hp
  rw [folder_of_lock hmeta] at hparent
  exact fs.disjoint q hq hparent

/-- **What an unlock does**: nothing, unless it is by who has locked the file, and nobody may write
to the file. -/
theorem processUnlockMessage_step {b : Bool} {unlock : FileMessage}
    (hp : filePath unlock.targetFile = p)
    (h : processUnlockMessage host true unlock fs = .ok b fs') :
    b = true ∧
      (¬ (LockedBy host.platform unlock.originatorNode fs p ∧ Closed fs p) ∧ fs' = fs ∨
        LockedBy host.platform unlock.originatorNode fs p ∧ Closed fs p ∧ Opened fs' p ∧
          ∀ q, p ≠ q → lockFilePath p ≠ q → fs'.file? q = fs.file? q) := by
  obtain ⟨hb, hdone⟩ := processUnlockMessage_ok hp h
  have hframe (q : FilePath) (hq : p ≠ q) (hq' : lockFilePath p ≠ q) :
      fs'.file? q = fs.file? q := by
    have hspares : Spares host
        [filePath unlock.targetFile, lockFilePath (filePath unlock.targetFile)]
        (FileIs q (fs.file? q)) := spares_file (by simp [hp, hq.symm, hq'.symm])
    exact (keeps_unlock unlock hspares).ok h rfl
  refine ⟨hb, ?_⟩
  rcases hdone with hsame | ⟨oldLock, oldPerms, hrecord, howner, hreleased⟩
  · refine Or.inl ⟨fun ⟨⟨lock, perms, hrecord, howner⟩, f, hf, hbits⟩ => ?_, hsame⟩
    have hgone := processUnlockMessage_releases hp hrecord howner.symm hf hbits h
    rw [hsame] at hgone
    rw [lockRecord_none hgone] at hrecord
    cases hrecord
  · obtain ⟨f, hf, hbits, hf'⟩ := hreleased.file
    refine Or.inr ⟨⟨oldLock, oldPerms, hrecord, howner.symm⟩, ⟨f, hf, hbits⟩, ⟨?_, hreleased.free⟩,
      hframe⟩
    rw [hf']
    exact Option.some_ne_none _

end Unlocking

/-! ## The queue until it is empty -/

/-- The file and its lock are as they were. -/
def Untouched (p : FilePath) (fs fs' : FileSystem) : Prop :=
  fs'.file? p = fs.file? p ∧ fs'.file? (lockFilePath p) = fs.file? (lockFilePath p)

/-- While the unlocks of `paths` wait in the queue: files are as they were, or have been opened as
they should be. -/
structure Releasing (env : Circumstances) (m : Message) (paths : List FilePath) (fs : FileSystem)
    (s : Managers) : Prop where
  connected : s.isFinishedConnecting = true
  entries : ∀ e ∈ s.queue, IsOwnRequest env.host.self e ∨
    ∃ p ∈ paths, Passes env m p ∧ IsUnlock m p e
  files : ∀ p ∈ paths, Untouched p fs s.files ∨
    Passes env m p ∧ LockedBy env.host.platform m.originatorNode fs p ∧ Closed fs p ∧
      Opened s.files p
  pending : ∀ p ∈ paths, Passes env m p → LockedBy env.host.platform m.originatorNode fs p →
    Closed fs p → Opened s.files p ∨ ∃ e ∈ s.queue, IsUnlock m p e
  elsewhere : ∀ q, wnts ∉ q → q ∉ paths → s.files.file? q = fs.file? q

section Draining

variable {env env' : Circumstances} {m : Message} {paths : List FilePath} {fs : FileSystem}
  {s t u : Managers} {p q : FilePath}

theorem Untouched.lockedBy_iff {pf : Platform} {ip : IpAddress} {fs' : FileSystem}
    (h : Untouched p fs fs') : LockedBy pf ip fs' p ↔ LockedBy pf ip fs p := by
  rw [LockedBy, LockedBy, lockRecord_congr h.2]

theorem Untouched.closed_iff {fs' : FileSystem} (h : Untouched p fs fs') :
    Closed fs' p ↔ Closed fs p := by
  rw [Closed, Closed, h.1]

theorem IsUnlock.inj {e : Prio} (h : IsUnlock m p e) (h' : IsUnlock m q e) : p = q := by
  obtain ⟨priority, unlock, rfl, -, -, rfl⟩ := h
  obtain ⟨priority', unlock', heq, -, -, rfl⟩ := h'
  obtain rfl := AnyMessage.file.inj (Option.some_inj.mp (congrArg Prod.snd heq))
  rfl

/-- Of the unlocks that waited, that of `p` has been popped. -/
theorem pending_of_ne {e : Prio} {queue rest : List Prio} (hperm : queue.Perm (e :: rest))
    (he : IsUnlock m p e) (hne : p ≠ q) (h : ∃ e ∈ queue, IsUnlock m q e) :
    ∃ e ∈ rest, IsUnlock m q e := by
  obtain ⟨e', he', hunlock⟩ := h
  rcases List.mem_cons.mp (hperm.mem_iff.mp he') with rfl | he'
  · exact absurd (he.inj hunlock) hne
  · exact ⟨e', he', hunlock⟩

/-- A request of the node's own changes nothing. -/
theorem Releasing.ignored {e : Prio} (h : Releasing env m paths fs s)
    (hown : IsOwnRequest env.host.self e) (hperm : s.queue.Perm (e :: t.queue))
    (hconnected : t.isFinishedConnecting = true) (hfiles : t.files = s.files) :
    Releasing env m paths fs t := by
  refine ⟨hconnected, fun e' he' => ?_, by rw [hfiles]; exact h.files,
    fun p hp hpass hlock hclosed => ?_, by rw [hfiles]; exact h.elsewhere⟩
  · exact h.entries e' (hperm.mem_iff.mpr (List.mem_cons_of_mem e he'))
  · rw [hfiles]
    refine (h.pending p hp hpass hlock hclosed).imp_right fun ⟨e', he', hunlock⟩ => ?_
    rcases List.mem_cons.mp (hperm.mem_iff.mp he') with rfl | he'
    · obtain ⟨priority, request, rfl, -, -⟩ := hown
      obtain ⟨priority', unlock, heq, -⟩ := hunlock
      cases heq
    · exact ⟨e', he', hunlock⟩

/-- An unlock opens its file, if it should. -/
theorem Releasing.unlocked {e : Prio} {b : Bool} {unlock : FileMessage}
    (hpaths : ∀ p ∈ paths, p ∈ fs.files ∧ wnts ∉ p) (h : Releasing env m paths fs s)
    (hp : p ∈ paths) (hpass : Passes env m p) (he : IsUnlock m p e)
    (hperm : s.queue.Perm (e :: t.queue)) (hconnected : t.isFinishedConnecting = true)
    (htarget : filePath unlock.targetFile = p) (howner : unlock.originatorNode = m.originatorNode)
    (hrun : processUnlockMessage env.host true unlock s.files = .ok b t.files) :
    Releasing env m paths fs t := by
  have hentries : ∀ e ∈ t.queue, IsOwnRequest env.host.self e ∨
      ∃ p ∈ paths, Passes env m p ∧ IsUnlock m p e := fun e' he' =>
    h.entries e' (hperm.mem_iff.mpr (List.mem_cons_of_mem e he'))
  obtain ⟨-, hdone⟩ := processUnlockMessage_step htarget hrun
  rw [howner] at hdone
  rcases hdone with ⟨hnot, hfiles⟩ | ⟨hlock, hclosed, hopened, hframe⟩
  · refine ⟨hconnected, hentries, by rw [hfiles]; exact h.files,
      fun q hq hqpass hqlock hqclosed => ?_, by rw [hfiles]; exact h.elsewhere⟩
    rw [hfiles]
    by_cases hpq : p = q
    · subst hpq
      -- As it was, the file would have been opened now.
      rcases h.files p hp with hsame | ⟨-, -, -, hopened⟩
      · exact absurd ⟨hsame.lockedBy_iff.mpr hqlock, hsame.closed_iff.mpr hqclosed⟩ hnot
      · exact Or.inl hopened
    · exact (h.pending q hq hqpass hqlock hqclosed).imp_right (pending_of_ne hperm he hpq)
  · have hsame : Untouched p fs s.files := by
      rcases h.files p hp with hsame | ⟨-, -, -, hopened⟩
      · exact hsame
      · exact absurd hlock hopened.not_lockedBy
    obtain ⟨hpfile, hpmeta⟩ := hpaths p hp
    have hother {q : FilePath} (hq : q ∈ paths) (hpq : p ≠ q) :
        t.files.file? q = s.files.file? q ∧
          t.files.file? (lockFilePath q) = s.files.file? (lockFilePath q) := by
      obtain ⟨hqfile, hqmeta⟩ := hpaths q hq
      exact ⟨hframe q hpq (lock_ne_file hqfile hpfile hqmeta),
        hframe _ (lock_ne_file hpfile hqfile hpmeta).symm fun heq => hpq (lockFilePath_inj heq)⟩
    refine ⟨hconnected, hentries, fun q hq => ?_, fun q hq hqpass hqlock hqclosed => ?_,
      fun q hqmeta hq => ?_⟩
    · by_cases hpq : p = q
      · subst hpq
        exact Or.inr ⟨hpass, hsame.lockedBy_iff.mp hlock, hsame.closed_iff.mp hclosed, hopened⟩
      · obtain ⟨hfile, hlockFile⟩ := hother hq hpq
        rw [Untouched, Opened, hfile, hlockFile]
        exact h.files q hq
    · by_cases hpq : p = q
      · subst hpq
        exact Or.inl hopened
      · obtain ⟨hfile, hlockFile⟩ := hother hq hpq
        rw [Opened, hfile, hlockFile]
        exact (h.pending q hq hqpass hqlock hqclosed).imp_right (pending_of_ne hperm he hpq)
    · have hpq : p ≠ q := fun heq => hq (heq ▸ hp)
      obtain ⟨f, hf, -⟩ := hclosed
      obtain ⟨lock, perms, hrecord, -⟩ := hlock
      obtain ⟨g, hg⟩ := file?_of_lockRecord hrecord
      have hlength := Node.two_le_length_of_lock hf hg
      rw [hframe q hpq (Node.lockFilePath_ne_target hlength hqmeta)]
      exact h.elsewhere q hqmeta hq

/-- **One call.** -/
theorem Releasing.step (hhost : env'.host = env.host)
    (hpaths : ∀ p ∈ paths, p ∈ fs.files ∧ wnts ∉ p) (h : Releasing env m paths fs s)
    (hcall : Step s (env', .call) t) : Releasing env m paths fs t := by
  rcases call_cases hcall with ⟨-, rfl⟩ | ⟨priority, message, rest, u, hqueue, hcall⟩
  · exact h
  · have hin : (priority, some message) ∈ s.queue := by
      rw [hqueue]
      exact List.mem_cons_self
    have hpop : (popped env' s).queue.Perm rest := Heap.perm_pop _ hqueue
    have hperm : s.queue.Perm ((priority, some message) :: (popped env' s).queue) := by
      rw [hqueue]
      exact hpop.symm.cons _
    rcases h.entries _ hin with hown | ⟨p, hp, hpass, hunlock⟩
    · obtain ⟨_, request, heq, htype, hself⟩ := id hown
      obtain rfl : message = .resendRequest request := Option.some_inj.mp (congrArg Prod.snd heq)
      have hrun := process_ownRequest env' (popped env' s) htype (hhost ▸ hself)
      rcases hcall with ⟨hprocess, rfl⟩ | ⟨again, hprocess, -, -⟩
      · obtain ⟨-, rfl⟩ := EStateM.Result.ok.inj (hrun.symm.trans hprocess)
        exact h.ignored hown hperm h.connected rfl
      · cases hrun.symm.trans hprocess
    · obtain ⟨_, unlock, heq, htype, howner, htarget⟩ := id hunlock
      obtain rfl : message = .file unlock := Option.some_inj.mp (congrArg Prod.snd heq)
      have hconnected : (popped env' s).isFinishedConnecting = true := h.connected
      have hfiles {b : Bool}
          (hprocess : process env' (some (.file unlock)) (popped env' s) = .ok b u) :
          ∃ files, processUnlockMessage env.host true unlock s.files = .ok b files ∧
            u = { popped env' s with files } := by
        rw [process_unlock env' _ htype, hconnected, hhost] at hprocess
        exact onFiles_eq_ok hprocess
      rcases hcall with ⟨hprocess, rfl⟩ | ⟨again, hprocess, -, -⟩
      · obtain ⟨files, hrun, rfl⟩ := hfiles hprocess
        exact h.unlocked hpaths hp hpass hunlock hperm h.connected htarget howner hrun
      · obtain ⟨files, hrun, -⟩ := hfiles hprocess
        exact absurd (processUnlockMessage_step htarget hrun).1 Bool.false_ne_true

theorem Releasing.run {ls : List (Circumstances × Event)}
    (hpaths : ∀ p ∈ paths, p ∈ fs.files ∧ wnts ∉ p) (h : Releasing env m paths fs s)
    (hrun : Trace Step s ls t) (hcalls : ∀ l ∈ ls, l.1.host = env.host ∧ l.2 = .call) :
    Releasing env m paths fs t := by
  induction hrun with
  | nil => exact h
  | @cons s s' t l ls first _ ih =>
    obtain ⟨env', event⟩ := l
    obtain ⟨⟨hhost, hcall⟩, hrest⟩ := List.forall_mem_cons.mp hcalls
    obtain rfl : event = .call := hcall
    exact ih (h.step hhost hpaths first) hrest

/-! ## Disconnecting -/

/-- The locks of the node are gone, and those of any other are as they were. -/
structure Released (pf : Platform) (ip : IpAddress) (folders : List FilePath)
    (fs fs' : FileSystem) : Prop where
  released : ∀ p ∈ fs'.files, Listable folders p → ¬ LockedBy pf ip fs' p
  others : ∀ p ∈ fs.files, Listable folders p → ∀ other, other ≠ ip → LockedBy pf other fs p →
    lockRecord pf fs' p = lockRecord pf fs p ∧
      (fs'.file? p).map File.perms = (fs.file? p).map File.perms

/-- The call that processes the disconnect. -/
theorem call_disconnect {priority : Nat} (htype : m.type = .disconnect)
    (hX : m.originatorNode ≠ .ipv6Unspecified) (hconnected : s.isFinishedConnecting = true)
    (hqueue : s.queue = [(priority, some (.message m))])
    (hpaths : ∀ p ∈ s.files.files, Listable s.folders p →
      InNormalForm p ∧ PathFits (.ofElements p)) (hcall : Step s (env, .call) t) :
    ∃ paths, (∀ p, p ∈ paths ↔ p ∈ s.files.files ∧ Listable s.folders p) ∧
      Releasing env m paths s.files t := by
  obtain ⟨u, hcall⟩ := call_front hqueue hcall
  have hpop : (popped env s).queue.Perm [] := Heap.perm_pop _ hqueue
  have hempty : (popped env s).queue = [] := hpop.eq_nil
  have hpending {b : Bool}
      (hprocess : process env (some (.message m)) (popped env s) = .ok b u) :=
    disconnect_pending (s := popped env s) hX hconnected hempty hpaths
      ((process_disconnect env _ htype).symm.trans hprocess)
  rcases hcall with ⟨hprocess, rfl⟩ | ⟨again, hprocess, -, -⟩
  · obtain ⟨-, hstays, hfiles, paths, hmem, hpending⟩ := hpending hprocess
    refine ⟨paths, hmem, hstays, hpending.entries, fun p _ => Or.inl ?_,
      fun p hp hpass _ _ => Or.inr (hpending.unlocks p hp hpass), fun q _ _ => ?_⟩
    · exact ⟨congrArg (FileSystem.file? · p) hfiles,
        congrArg (FileSystem.file? · (lockFilePath p)) hfiles⟩
    · exact congrArg (FileSystem.file? · q) hfiles
  · exact absurd (hpending hprocess).1 Bool.false_ne_true

/-- **Releasing.** A node that has finished connecting processes a disconnect message, and then what
is in its queue until that is empty. The locks of who disconnected are then gone, and no others, if
and only if of every file it had locked nobody could write to the file, and the unlock passes its
check. -/
theorem disconnect_releases_iff (env : Circumstances) {priority : Nat}
    {ls : List (Circumstances × Event)} (htype : m.type = .disconnect)
    (hX : m.originatorNode ≠ .ipv6Unspecified)
    (hconnected : s.isFinishedConnecting = true)
    (hqueue : s.queue = [(priority, some (.message m))])
    (hpaths : ∀ p ∈ s.files.files, Listable s.folders p →
      InNormalForm p ∧ PathFits (.ofElements p))
    (hrun : Trace Step s ((env, .call) :: ls) t)
    (hcalls : ∀ l ∈ ls, l.1.host = env.host ∧ l.2 = .call) (hempty : t.queue = []) :
    Released env.host.platform m.originatorNode s.folders s.files t.files ↔
      ∀ p ∈ s.files.files, Listable s.folders p →
        LockedBy env.host.platform m.originatorNode s.files p →
          Closed s.files p ∧ Passes env m p := by
  cases hrun with
  | cons first rest =>
    obtain ⟨paths, hmem, hstart⟩ :=
      call_disconnect htype hX hconnected hqueue hpaths first
    have hlisted : ∀ p ∈ paths, p ∈ s.files.files ∧ wnts ∉ p := fun p hp =>
      ⟨((hmem p).mp hp).1, ((hmem p).mp hp).2.notMeta⟩
    have hend := hstart.run hlisted rest hcalls
    constructor
    · intro hreleased p hp hlist hlocked
      rcases hend.files p ((hmem p).mpr ⟨hp, hlist⟩) with hsame | ⟨hpass, -, hclosed, -⟩
      · have hp' : p ∈ t.files.files := by
          rwa [← FileSystem.file?_ne_none, hsame.1, FileSystem.file?_ne_none]
        exact absurd (hsame.lockedBy_iff.mpr hlocked) (hreleased.released p hp' hlist)
      · exact ⟨hclosed, hpass⟩
    · intro hcan
      refine ⟨fun p hp' hlist hlocked => ?_, fun p hp hlist other hother hlocked => ?_⟩
      · have hp : p ∈ paths := by
          by_contra hp
          have hsame := hend.elsewhere p hlist.notMeta hp
          rw [← FileSystem.file?_ne_none, hsame, FileSystem.file?_ne_none] at hp'
          exact hp ((hmem p).mpr ⟨hp', hlist⟩)
        rcases hend.files p hp with hsame | ⟨-, -, -, hopened⟩
        · have hbefore := hsame.lockedBy_iff.mp hlocked
          obtain ⟨hclosed, hpass⟩ := hcan p (hlisted p hp).1 hlist hbefore
          rcases hend.pending p hp hpass hbefore hclosed with hopened | ⟨e, he, -⟩
          · exact hopened.not_lockedBy hlocked
          · rw [hempty] at he
            exact List.not_mem_nil he
        · exact hopened.not_lockedBy hlocked
      · rcases hend.files p ((hmem p).mpr ⟨hp, hlist⟩) with hsame | ⟨-, hlocked', -, -⟩
        · exact ⟨lockRecord_congr hsame.2, by rw [hsame.1]⟩
        · obtain ⟨lock, perms, hrecord, rfl⟩ := hlocked
          obtain ⟨lock', perms', hrecord', howner⟩ := hlocked'
          obtain rfl := (Prod.mk.inj (Option.some_inj.mp (hrecord.symm.trans hrecord'))).1
          exact absurd howner hother

end Draining

/-- The one file is locked, and who locked it has disconnected. -/
def deserted : Managers := { joinedDocs with
  files := lockedDocs
  queue := [(disconnectPriority, some (.message farewell))] }

theorem deserted_file {p : FilePath} (hp : p ∈ deserted.files.files)
    (hlist : Listable deserted.folders p) : p = FileSystem.docsA := by
  rw [← FileSystem.file?_ne_none] at hp
  by_contra hne
  have hlock : lockFilePath FileSystem.docsA ≠ p := by
    rintro rfl
    exact hlist.notMeta (by decide)
  have hnone : deserted.files.file? p = none := by
    show lockedDocs.file? p = none
    rw [lockedDocs, FileSystem.file?_setFile, if_neg hlock, FileSystem.file?_addDir,
      FileSystem.file?_docs, if_neg (Ne.symm hne)]
  exact hp hnone

theorem deserted_paths : ∀ p ∈ deserted.files.files, Listable deserted.folders p →
    InNormalForm p ∧ PathFits (.ofElements p) := by
  intro p hp hlist
  obtain rfl := deserted_file hp hlist
  exact ⟨⟨⟨[100, 111, 99, 115, 47, 97]⟩, by decide, by decide⟩, by decide⟩

/-- The clock shows the next second when the hash has been made. -/
def slowCircumstances : Circumstances :=
  { readerCircumstances with sendClock _ := .utc 1000000000 }

/-- Two calls: the disconnect, and what the node has sent itself. -/
def afterTwo (env : Circumstances) (s : Managers) : Managers :=
  final (processNextMessage env (final (processNextMessage env s)))

theorem two_calls {env : Circumstances} {s : Managers}
    (hfirst : value? (processNextMessage env s) = some ())
    (hsecond : value? (processNextMessage env (final (processNextMessage env s))) = some ()) :
    Trace Step s [(env, .call), (env, .call)] (afterTwo env s) :=
  .cons (eq_ok_of_value hfirst) (.cons (eq_ok_of_value hsecond) (.nil _))

theorem deserted_released : Released .littleEndian farewell.originatorNode deserted.folders
    deserted.files (afterTwo slowCircumstances deserted).files := by
  refine (disconnect_releases_iff slowCircumstances rfl (by decide) rfl rfl deserted_paths
    (two_calls (by decide +kernel) (by decide +kernel)) (by simp) (by decide +kernel)).mpr ?_
  intro p hp hlist _
  obtain rfl := deserted_file hp hlist
  exact ⟨⟨lockedFile, lockedDocs_file, by decide⟩, by decide +kernel⟩

/-- With the clock at one second throughout, the unlock fails its check, and the lock stays. -/
theorem deserted_stays_locked : ¬ ∀ (env : Circumstances) (m : Message) (s t : Managers)
    (priority : Nat) (ls : List (Circumstances × Event)), m.type = .disconnect →
    m.originatorNode ≠ .ipv6Unspecified → m.originatorNode ≠ env.host.self →
    s.isFinishedConnecting = true → s.queue = [(priority, some (.message m))] →
    (∀ p ∈ s.files.files, Listable s.folders p → InNormalForm p ∧ PathFits (.ofElements p)) →
    Trace Step s ((env, .call) :: ls) t → (∀ l ∈ ls, l.1.host = env.host ∧ l.2 = .call) →
    t.queue = [] → Released env.host.platform m.originatorNode s.folders s.files t.files := by
  intro hall
  have hreleased := hall readerCircumstances farewell deserted
    (afterTwo readerCircumstances deserted) disconnectPriority [(readerCircumstances, .call)] rfl
    (by decide) (by decide) rfl rfl deserted_paths
    (two_calls (by decide +kernel) (by decide +kernel)) (by simp) (by decide +kernel)
  have hfile : FileSystem.docsA ∈ (afterTwo readerCircumstances deserted).files.files := by
    decide +kernel
  have hlist : Listable deserted.folders FileSystem.docsA := by decide +kernel
  have hlocked : (lockRecord .littleEndian (afterTwo readerCircumstances deserted).files
      FileSystem.docsA).map (fun lock => lock.1.originatorNode) = some farewell.originatorNode := by
    decide +kernel
  obtain ⟨⟨lock, perms⟩, hrecord, howner⟩ := Option.map_eq_some_iff.mp hlocked
  exact hreleased.released _ hfile hlist ⟨lock, perms, hrecord, howner⟩

end Managers

end WhisperNet
