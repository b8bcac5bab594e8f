import WhisperNet.Managers

/-!
# What a gateway sends a new node

`processInitialFileSyncRequestMessage` sends a sync for every file that is listed, and a lock for
those that are locked. What else is sent meanwhile are requests to send such a message again.

* `SyncFor` — what the sync of a file says.
* `syncRequest_syncs` — the syncs that have been sent, one for each file.
-/

namespace WhisperNet

open Bin Effect MessageManager

/-- The initial syncs among some messages. -/
def AnyMessage.sync? : AnyMessage → Option FileInitialSyncMessage
  | .fileInitialSync m => some m
  | _ => none

def syncs (ms : List AnyMessage) : List FileInitialSyncMessage := ms.filterMap AnyMessage.sync?

namespace Managers

/-! ## What sending leaves -/

theorem sparedBySending_files (fs : FileSystem) :
    SparedBySending fun s : Managers => s.files = fs where
  peers _ _ h := h
  written _ _ h := h
  emplaced _ _ _ _ h := h
  remembered _ _ h := h

section Sent

variable {env : Circumstances} {s t : Managers} {destination : IpAddress}

/-- Sending does not touch the files. -/
theorem send_files {m : AnyMessage} (h : send env m destination s = .ok () t) :
    t.files = s.files :=
  (keeps_send (sparedBySending_files s.files) m destination).ok h rfl

/-- The syncs among what has been sent. -/
def SyncsAre (ms : List FileInitialSyncMessage) (s : Managers) : Prop := syncs s.sent = ms

theorem sparedByRouting_syncs (ms : List FileInitialSyncMessage) :
    SparedByRouting (SyncsAre ms) where
  peers _ _ h := h
  written _ _ h := h
  emplaced _ _ _ _ h := h

theorem keeps_syncs_remember {ms : List FileInitialSyncMessage} {m : AnyMessage}
    (hm : m.sync? = none) : Keeps (SyncsAre ms) (remember m) := by
  intro s hs
  show syncs (s.sent ++ [m]) = ms
  rw [syncs, List.filterMap_append, List.filterMap_cons_none hm, List.filterMap_nil,
    List.append_nil]
  exact hs

theorem stamp_sync? (pf : Platform) (clk : Clock) (self : IpAddress) (m : AnyMessage) :
    (PeerManager.stamp pf clk self destination m).sync? =
      m.sync?.map fun m => { m with toMessage :=
        (PeerManager.stamp pf clk self destination (.fileInitialSync m)).base } := by
  cases m <;> rfl

/-- What we send ourselves calls for no more than requests. -/
theorem keeps_syncs_sendAt {ms : List FileInitialSyncMessage} (depth : Nat) {m : AnyMessage}
    (hm : m.sync? = none) : Keeps (SyncsAre ms) (sendAt env depth m destination) := by
  induction depth generalizing m destination with
  | zero => exact Keeps.throw _
  | succ depth ih =>
    refine (keeps_routed (sparedByRouting_syncs ms).asking (fun _ _ => ih rfl) _ _ _).bind fun _ =>
      keeps_syncs_remember ?_
    rw [stamp_sync?, hm]
    rfl

theorem send_syncs {m : AnyMessage} (h : send env m destination s = .ok () t) :
    syncs t.sent = syncs s.sent ++ syncs [PeerManager.stamp env.host.platform (env.sendClock m)
      env.host.self destination m] := by
  obtain ⟨⟨⟩, s₁, hroute, hremember⟩ := bind_eq_ok h
  obtain ⟨-, rfl⟩ := EStateM.Result.ok.inj hremember
  have hkeeps : SyncsAre (syncs s.sent) s₁ := by
    refine (keeps_routed (sparedByRouting_syncs _).asking (fun _ _ => ?_) _ _ _).ok hroute rfl
    exact keeps_syncs_sendAt 1 rfl
  show syncs (s₁.sent ++ _) = _
  rw [syncs, List.filterMap_append]
  exact congrArg (· ++ _) hkeeps

/-- What the sync of the file `p` says, one of `size`. -/
structure SyncFor (fs : FileSystem) (size : Nat) (p : FilePath) (m : FileInitialSyncMessage) :
    Prop where
  type : m.type = .initialSync
  targetFile : m.targetFile = .ofElements p
  /-- The content of the file up to the first null character. -/
  fileContent : m.fileContent = (fs.file? p).elim [] fun f => f.content.takeWhile (· ≠ 0)
  total : m.total = UInt64.ofNat size

theorem final_lockOf (i : Nat) (p : FilePath) (fs : FileSystem) :
    final (lockOf env i p fs) = fs := by
  have hkeeps : Keeps (fun fs' => fs' = fs) (lockOf env i p) := by
    refine Fs.keeps_exist.bind fun found => Keeps.ite ?_ (Keeps.pure _)
    have hload : Keeps (fun fs' => fs' = fs) (loadLockFile env.host.platform p) := by
      apply Keeps.of_final
      intro fs
      unfold loadLockFile
      split <;> rfl
    exact hload.bind fun _ => Keeps.pure _
  exact hkeeps fs rfl

theorem sendFile_syncs {size i : Nat} {path : FilePath}
    (h : sendFile env destination size i path s = .ok () t) :
    t.files = s.files ∧
      ∃ m, syncs t.sent = syncs s.sent ++ [m] ∧ SyncFor s.files size path m := by
  obtain ⟨content, s₁, hread, h⟩ := bind_eq_ok h
  obtain ⟨⟨⟩, s₂, hsend, h⟩ := bind_eq_ok h
  obtain ⟨lock, s₃, hlock, h⟩ := bind_eq_ok h
  obtain ⟨hread, rfl⟩ := onFiles_read (fun _ => rfl) hread
  obtain ⟨-, rfl⟩ := onFiles_read (final_lockOf i path) hlock
  obtain ⟨rfl, -⟩ := EStateM.Result.ok.inj hread
  have hfiles := send_files hsend
  have hsyncs := send_syncs hsend
  have hlast : t.files = s₃.files ∧ syncs t.sent = syncs s₃.sent := by
    cases lock with
    | none =>
      obtain ⟨-, rfl⟩ := EStateM.Result.ok.inj h
      exact ⟨rfl, rfl⟩
    | some lock => exact ⟨send_files h, (send_syncs h).trans (List.append_nil _)⟩
  exact ⟨hlast.1.trans hfiles, _, hlast.2.trans hsyncs, rfl, rfl, rfl, rfl⟩

theorem sendFiles_syncs {size i : Nat} {paths : List FilePath}
    (h : sendFiles env destination size i paths s = .ok () t) :
    ∃ new, syncs t.sent = syncs s.sent ++ new ∧ List.Forall₂ (SyncFor s.files size) paths new := by
  induction paths generalizing i s with
  | nil =>
    obtain ⟨-, rfl⟩ := EStateM.Result.ok.inj h
    exact ⟨[], (List.append_nil _).symm, .nil⟩
  | cons path paths ih =>
    obtain ⟨⟨⟩, s₁, hhere, hrest⟩ := bind_eq_ok h
    obtain ⟨hfiles, m, hsyncs, hm⟩ := sendFile_syncs hhere
    obtain ⟨new, hnew, hall⟩ := ih hrest
    rw [hfiles] at hall
    refine ⟨m :: new, ?_, .cons hm hall⟩
    rw [hnew, hsyncs, List.append_assoc, List.singleton_append]

/-- Every sync is that of a file. -/
theorem exists_syncFor {fs : FileSystem} {size : Nat} {paths : List FilePath}
    {ms : List FileInitialSyncMessage} (h : List.Forall₂ (SyncFor fs size) paths ms)
    {m : FileInitialSyncMessage} (hm : m ∈ ms) : ∃ p ∈ paths, SyncFor fs size p m := by
  induction h with
  | nil => cases hm
  | @cons p m' paths ms hfor _ ih =>
    rcases List.mem_cons.mp hm with rfl | hm
    · exact ⟨p, List.mem_cons_self, hfor⟩
    · obtain ⟨q, hq, hfor⟩ := ih hm
      exact ⟨q, List.mem_cons_of_mem p hq, hfor⟩

/-- The syncs sent since. -/
def sentSince (s t : Managers) : List FileInitialSyncMessage :=
  (syncs t.sent).drop (syncs s.sent).length

/-- **What a gateway sends.** A sync for every file that is listed. -/
theorem syncRequest_syncs {m : Message}
    (h : processInitialFileSyncRequestMessage env m s = .ok true t) :
    ∃ paths, Fs.enumerateAllFiles s.folders s.files = .ok paths s.files ∧
      List.Forall₂ (SyncFor s.files paths.length) paths (sentSince s t) := by
  obtain ⟨s', s₁, hget, h⟩ := bind_eq_ok h
  obtain ⟨rfl, rfl⟩ := EStateM.Result.ok.inj hget
  split at h
  · cases h
  · obtain ⟨paths, s₂, hlist, h⟩ := bind_eq_ok h
    obtain ⟨⟨⟩, s₃, hsend, h⟩ := bind_eq_ok h
    obtain ⟨-, rfl⟩ := EStateM.Result.ok.inj h
    obtain ⟨hlist, rfl⟩ := onFiles_enumerate hlist
    obtain ⟨new, hnew, hall⟩ := sendFiles_syncs hsend
    refine ⟨paths, hlist, ?_⟩
    rw [sentSince, hnew, List.drop_left]
    exact hall

end Sent

end Managers

end WhisperNet
