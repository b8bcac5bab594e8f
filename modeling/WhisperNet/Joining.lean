import WhisperNet.InitialSync

/-!
# Finishing to connect

`isFinishedConnecting()` compares two counters: how many initial syncs have been processed since the
last connect message, and how many the last of them said there are.

* `processes_counts` — what a message does to the counters.
* `stays_connected_iff` — exactly which messages a node stays connected through.
* `joining_completes_iff` — exactly when a node that joins finishes connecting: if there are files.
-/

namespace WhisperNet

open Bin Effect MessageManager

namespace Managers

/-! ## The counters -/

/-- The counters, `received` and `total`. -/
def Counts (received total : UInt64) (s : Managers) : Prop :=
  s.receivedInitialFiles = received ∧ s.totalInitialFiles = total

theorem sparedByHandlers_counts (received total : UInt64) :
    SparedByHandlers (Counts received total) where
  files _ _ h := h
  peers _ _ h := h
  written _ _ h := h
  emplaced _ _ _ _ h := h
  remembered _ _ h := h

/-- What the counters are after a message. -/
def counted (received total : UInt64) : AnyMessage → UInt64 × UInt64
  | .fileInitialSync m => (received + 1, m.total)
  | .connect _ => (0, 1)
  | _ => (received, total)

section Counters

variable {env : Circumstances} {s t : Managers} {m : AnyMessage} {processed : Bool}

/-- Most messages leave the counters alone. -/
theorem process_counts_same (hsync : m.base.type ≠ .initialSync) (hconnect : m.base.type ≠ .connect)
    (h : process env (some m) s = .ok processed t) :
    Counts s.receivedInitialFiles s.totalInitialFiles t := by
  have hrun : dispatch env m s = .ok processed t := h
  refine (keeps_dispatch (sparedByHandlers_counts _ _) ?_ ?_).ok hrun ⟨rfl, rfl⟩
  · exact fun htype => absurd htype hsync
  · exact fun htype => absurd htype hconnect

/-- An initial sync is counted, and saved. -/
theorem process_sync_ok {m : FileInitialSyncMessage} (hm : m.type = .initialSync)
    (h : process env (some (.fileInitialSync m)) s = .ok processed t) :
    processInitialFileSyncMessage env.host m s.files = .ok processed t.files ∧
      Counts (s.receivedInitialFiles + 1) m.total t := by
  rw [process_initialSync env s hm] at h
  obtain ⟨⟨⟩, s', hcount, hsave⟩ := bind_eq_ok h
  obtain ⟨-, rfl⟩ := EStateM.Result.ok.inj hcount
  obtain ⟨files, hfiles, rfl⟩ := onFiles_eq_ok hsave
  exact ⟨hfiles, rfl, rfl⟩

/-- A connect has the folders prepared, and the counters start again. -/
theorem process_connect_ok {m : ConnectMessage} (hm : m.type = .connect)
    (h : process env (some (.connect m)) s = .ok processed t) :
    prepareFolders (m.managedPaths.map filePath) s.files = .ok () t.files ∧ Counts 0 1 t := by
  rw [process_connect env s hm] at h
  obtain ⟨⟨⟩, s₁, hadopt, h⟩ := bind_eq_ok h
  obtain ⟨-, rfl⟩ := EStateM.Result.ok.inj hadopt
  obtain ⟨⟨⟩, s₂, hprepare, h⟩ := bind_eq_ok h
  obtain ⟨files, hfiles, rfl⟩ := onFiles_eq_ok hprepare
  obtain ⟨⟨⟩, s₃, hcount, h⟩ := bind_eq_ok h
  obtain ⟨-, rfl⟩ := EStateM.Result.ok.inj hcount
  obtain ⟨-, rfl⟩ := EStateM.Result.ok.inj h
  exact ⟨hfiles, rfl, rfl⟩

/-- **The counters after a message.** -/
theorem processes_counts (h : Processes s (env, m) t) :
    Counts (counted s.receivedInitialFiles s.totalInitialFiles m).1
      (counted s.receivedInitialFiles s.totalInitialFiles m).2 t := by
  obtain ⟨processed, h⟩ := h
  have htyped := typed_of_process env s h
  cases m with
  | fileInitialSync m => exact (process_sync_ok htyped h).2
  | connect m => exact (process_connect_ok htyped h).2
  | message m =>
    have htype : (AnyMessage.message m).base.type = .disconnect ∨
      (AnyMessage.message m).base.type = .initialSyncRequest ∨
      (AnyMessage.message m).base.type = .linkLost := htyped
    rcases htype with htype | htype | htype <;>
      exact process_counts_same (by simp [htype]) (by simp [htype]) h
  | payload m =>
    have htype : (AnyMessage.payload m).base.type = .payload := htyped
    exact process_counts_same (by simp [htype]) (by simp [htype]) h
  | resendRequest m =>
    have htype : (AnyMessage.resendRequest m).base.type = .resendRequest := htyped
    exact process_counts_same (by simp [htype]) (by simp [htype]) h
  | file m =>
    have htype : (AnyMessage.file m).base.type = .lock ∨ (AnyMessage.file m).base.type = .unlock ∨
      (AnyMessage.file m).base.type = .deleteFile := htyped
    rcases htype with htype | htype | htype <;>
      exact process_counts_same (by simp [htype]) (by simp [htype]) h
  | fileContent m =>
    have htype : (AnyMessage.fileContent m).base.type = .contentChange := htyped
    exact process_counts_same (by simp [htype]) (by simp [htype]) h

end Counters

/-! ## Staying connected -/

/-- Each initial sync says there are as many files as have been received with it. -/
def Steady : UInt64 → List AnyMessage → Prop
  | _, [] => True
  | received, .fileInitialSync m :: ms => m.total = received + 1 ∧ Steady (received + 1) ms
  | received, _ :: ms => Steady received ms

/-- After each of the messages the node is connected. -/
def StaysConnected (s : Managers) (ls : List (Circumstances × AnyMessage)) : Prop :=
  ∀ before after t, ls = before ++ after → Trace Processes s before t →
    t.isFinishedConnecting = true

section Staying

variable {s t : Managers} {l : Circumstances × AnyMessage}
  {ls : List (Circumstances × AnyMessage)}

theorem processes_deterministic {t' : Managers} (h : Processes s l t) (h' : Processes s l t') :
    t = t' := by
  obtain ⟨processed, h⟩ := h
  obtain ⟨processed', h'⟩ := h'
  exact (EStateM.Result.ok.inj (h.symm.trans h')).2

theorem staysConnected_cons (h : Processes s l t) : StaysConnected s (l :: ls) ↔
    s.isFinishedConnecting = true ∧ StaysConnected t ls := by
  constructor
  · intro hstays
    refine ⟨hstays [] (l :: ls) s rfl (.nil s), fun before after u hls hrun => ?_⟩
    exact hstays (l :: before) after u (congrArg (l :: ·) hls) (.cons h hrun)
  · rintro ⟨hs, hstays⟩ before after u hls hrun
    cases hrun with
    | nil => exact hs
    | cons hfirst hrest =>
      obtain rfl := (List.cons.inj hls).1
      obtain rfl := processes_deterministic h hfirst
      exact hstays _ after u (List.cons.inj hls).2 hrest

theorem isFinishedConnecting_iff {received total : UInt64} (h : Counts received total s) :
    s.isFinishedConnecting = true ↔ total = received := by
  rw [Node.isFinishedConnecting, h.1, h.2, beq_iff_eq, eq_comm]

/-- **Staying connected.** A node that has finished connecting stays connected through a sequence of
messages without a connect if and only if every initial sync among them says that there are just
as many files as it then has received, counted on from before. -/
theorem stays_connected_iff (hrun : Trace Processes s ls t)
    (hs : s.isFinishedConnecting = true) (hconnect : ∀ l ∈ ls, l.2.base.type ≠ .connect) :
    StaysConnected s ls ↔ Steady s.receivedInitialFiles (ls.map Prod.snd) := by
  induction hrun with
  | nil =>
    refine iff_of_true (fun before after u hls hrun => ?_) trivial
    obtain ⟨rfl, -⟩ := List.append_eq_nil_iff.mp hls.symm
    cases hrun
    exact hs
  | @cons s s' t l ls first _ ih =>
    obtain ⟨env, m⟩ := l
    obtain ⟨hm, hrest⟩ := List.forall_mem_cons.mp hconnect
    have hcounts := processes_counts first
    have htyped := first.elim fun _ h => typed_of_process env s h
    rw [staysConnected_cons first, and_iff_right hs]
    -- Only an initial sync touches the counters.
    have hother (hother : counted s.receivedInitialFiles s.totalInitialFiles m =
        (s.receivedInitialFiles, s.totalInitialFiles)) : StaysConnected s' ls ↔
        Steady s.receivedInitialFiles (ls.map Prod.snd) := by
      rw [hother] at hcounts
      rw [ih ((isFinishedConnecting_iff hcounts).mpr ((isFinishedConnecting_iff ⟨rfl, rfl⟩).mp hs))
        hrest, hcounts.1]
    cases m with
    | fileInitialSync m =>
      show _ ↔ m.total = s.receivedInitialFiles + 1 ∧ _
      have hcounts : Counts (s.receivedInitialFiles + 1) m.total s' := hcounts
      rw [← isFinishedConnecting_iff hcounts]
      constructor
      · intro hstays
        have hs' := hstays [] ls s' rfl (.nil s')
        refine ⟨hs', ?_⟩
        rw [ih hs' hrest, hcounts.1] at hstays
        exact hstays
      · rintro ⟨hs', hsteady⟩
        rw [ih hs' hrest, hcounts.1]
        exact hsteady
    | connect m => exact absurd htyped hm
    | message m => exact hother rfl
    | payload m => exact hother rfl
    | resendRequest m => exact hother rfl
    | file m => exact hother rfl
    | fileContent m => exact hother rfl

end Staying

/-! ## Joining -/

section Joining

variable {s t : Managers} {ls : List (Circumstances × AnyMessage)} {received total all : UInt64}

/-- Messages without a connect whose initial syncs agree on the total. -/
theorem trace_counts (hrun : Trace Processes s ls t) (hs : Counts received total s)
    (hconnect : ∀ l ∈ ls, l.2.base.type ≠ .connect)
    (hall : ∀ m ∈ syncs (ls.map Prod.snd), m.total = all) :
    Counts (received + UInt64.ofNat (syncs (ls.map Prod.snd)).length)
      (if syncs (ls.map Prod.snd) = [] then total else all) t := by
  induction hrun generalizing received total with
  | nil => simpa [syncs] using hs
  | @cons s s' t l ls first _ ih =>
    obtain ⟨env, m⟩ := l
    obtain ⟨hm, hrest⟩ := List.forall_mem_cons.mp hconnect
    have hcounts := processes_counts first
    have htyped := first.elim fun _ h => typed_of_process env s h
    rw [hs.1, hs.2] at hcounts
    cases m with
    | fileInitialSync m =>
      have hsyncs : syncs (((env, .fileInitialSync m) :: ls).map Prod.snd) =
          m :: syncs (ls.map Prod.snd) := rfl
      rw [hsyncs] at hall ⊢
      obtain ⟨hhere, hall⟩ := List.forall_mem_cons.mp hall
      have htail := ih hcounts hrest hall
      refine ⟨?_, ?_⟩
      · rw [htail.1, List.length_cons, UInt64.ofNat_add, UInt64.add_comm (UInt64.ofNat _),
          ← UInt64.add_assoc]
        rfl
      · rw [htail.2, if_neg (List.cons_ne_nil _ _)]
        split
        · exact hhere
        · rfl
    | connect m => exact absurd htyped hm
    | message m => exact ih hcounts hrest hall
    | payload m => exact ih hcounts hrest hall
    | resendRequest m => exact ih hcounts hrest hall
    | file m => exact ih hcounts hrest hall
    | fileContent m => exact ih hcounts hrest hall

/-- The node has finished connecting exactly when no initial sync is left to come. -/
def FinishesWithSyncs (s : Managers) (ls : List (Circumstances × AnyMessage)) : Prop :=
  ∀ before after t, ls = before ++ after → Trace Processes s before t →
    (t.isFinishedConnecting = true ↔ syncs (after.map Prod.snd) = [])

theorem syncs_append (ms ms' : List AnyMessage) : syncs (ms ++ ms') = syncs ms ++ syncs ms' :=
  List.filterMap_append

/-- After the connect message, of `n` syncs that all say `n`. -/
theorem finishesWithSyncs_iff {n : Nat} (hrun : Trace Processes s ls t) (hs : Counts 0 1 s)
    (hconnect : ∀ l ∈ ls, l.2.base.type ≠ .connect)
    (hlength : (syncs (ls.map Prod.snd)).length = n) (hsize : n < 2 ^ 64)
    (hall : ∀ m ∈ syncs (ls.map Prod.snd), m.total = UInt64.ofNat n) :
    FinishesWithSyncs s ls ↔ n ≠ 0 := by
  constructor
  · rintro hfinishes rfl
    have hconnected := (hfinishes [] ls s rfl (.nil s)).mpr (List.length_eq_zero_iff.mp hlength)
    rw [isFinishedConnecting_iff hs] at hconnected
    exact absurd hconnected (by decide)
  · intro hn before after u hls hbefore
    subst hls
    rw [List.map_append, syncs_append] at hlength hall
    rw [List.length_append] at hlength
    have hcounts := trace_counts hbefore hs (fun l hl => hconnect l (List.mem_append_left _ hl))
      fun m hm => hall m (List.mem_append_left _ hm)
    rw [isFinishedConnecting_iff hcounts, UInt64.zero_add]
    by_cases hnone : syncs (before.map Prod.snd) = []
    · -- No sync has been processed yet.
      rw [if_pos hnone, hnone]
      rw [hnone] at hlength
      refine iff_of_false (by decide) fun hafter => hn ?_
      rw [← hlength, hafter]
      rfl
    · rw [if_neg hnone, ← UInt64.toNat_inj, UInt64.toNat_ofNat_of_lt' hsize,
        UInt64.toNat_ofNat_of_lt' (Nat.lt_of_le_of_lt (by omega) hsize),
        ← List.length_eq_zero_iff]
      omega

/-- **Joining.** A node processes a connect message, and then, in any order and among any others,
each of the syncs its gateway has sent it. It is not connected before the last of them has been
processed and is then, until another sync arrives, if and only if the gateway has any files. -/
theorem joining_completes_iff {env env' : Circumstances} {request : Message}
    {gateway gateway' : Managers} {c : ConnectMessage} {s₀ : Managers}
    (hanswer : processInitialFileSyncRequestMessage env request gateway = .ok true gateway')
    (hsize : (sentSince gateway gateway').length < 2 ^ 64)
    (hconnected : Processes s₀ (env', .connect c) s) (hrun : Trace Processes s ls t)
    (hconnect : ∀ l ∈ ls, l.2.base.type ≠ .connect)
    (hsyncs : (syncs (ls.map Prod.snd)).Perm
      ((sentSince gateway gateway').map FileInitialSyncMessage.received)) :
    FinishesWithSyncs s ls ↔
      ∃ p ∈ gateway.files.files, Listable gateway.folders p := by
  obtain ⟨paths, hlist, hsent⟩ := syncRequest_syncs hanswer
  obtain ⟨-, -, hmem⟩ := enumerateAllFiles_eq_ok hlist
  have hlength := hsent.length_eq
  have hall : ∀ m ∈ syncs (ls.map Prod.snd), m.total = UInt64.ofNat paths.length := by
    intro m hm
    obtain ⟨sent, hsent', rfl⟩ := List.mem_map.mp (hsyncs.mem_iff.mp hm)
    obtain ⟨p, -, hfor⟩ := exists_syncFor hsent hsent'
    exact hfor.total
  have hcounts : Counts 0 1 s := processes_counts hconnected
  rw [finishesWithSyncs_iff hrun hcounts hconnect (hsyncs.length_eq.trans (List.length_map _))
    hsize (by rwa [← hlength]), ← hlength]
  constructor
  · intro hne
    obtain ⟨p, hp⟩ := List.exists_mem_of_length_pos (Nat.pos_of_ne_zero hne)
    exact ⟨p, (hmem p).mp hp⟩
  · rintro ⟨p, hp⟩
    exact (List.length_pos_of_mem ((hmem p).mpr hp)).ne'

end Joining

/-- A node joins the network of `joinedDocs`. -/
def docsRequest : Message where
  type := .initialSyncRequest
  receiverNode := .ipv6Unspecified
  originatorNode := .ipv4 0x0a000001
  messageHash := 0

def docsConnect : ConnectMessage where
  type := .connect
  receiverNode := .ipv6Unspecified
  messageHash := 0
  backupPeers := []
  managedPaths := [⟨[100, 111, 99, 115]⟩]

/-- What its gateway sends it. -/
def docsSyncs (gateway : Managers) : List FileInitialSyncMessage :=
  (sentSince gateway (final (processInitialFileSyncRequestMessage readerCircumstances docsRequest
    gateway))).map FileInitialSyncMessage.received

def docsRun (gateway : Managers) : List (Circumstances × AnyMessage) :=
  (docsSyncs gateway).map fun m => (readerCircumstances, .fileInitialSync m)

theorem docs_joins : ∃ s t, Processes joinedDocs (readerCircumstances, .connect docsConnect) s ∧
    Trace Processes s (docsRun joinedDocs) t ∧ FinishesWithSyncs s (docsRun joinedDocs) := by
  have hanswer : value? (processInitialFileSyncRequestMessage readerCircumstances docsRequest
      joinedDocs) = some true := by decide +kernel
  have hconnect : value? (process readerCircumstances (some (.connect docsConnect)) joinedDocs) =
      some true := by decide +kernel
  have hrun : ((final (process readerCircumstances (some (.connect docsConnect))
      joinedDocs)).afterAll (docsRun joinedDocs)).isSome = true := by decide +kernel
  obtain ⟨t, ht⟩ := Option.isSome_iff_exists.mp hrun
  have hconnected : Processes joinedDocs (readerCircumstances, .connect docsConnect) _ :=
    ⟨true, eq_ok_of_value hconnect⟩
  refine ⟨_, t, hconnected, trace_of_afterAll ht, ?_⟩
  refine (joining_completes_iff (eq_ok_of_value hanswer) (by decide +kernel) hconnected
    (trace_of_afterAll ht) (by decide +kernel) (.of_eq (by decide +kernel))).mpr ?_
  exact ⟨FileSystem.docsA, by decide +kernel, FileSystem.docsA.dropLast, by decide +kernel⟩

/-- The node that founded a network without any files. -/
def emptyDocs : Managers where
  files := (FileSystem.docs ⟨[], 0o644⟩).eraseFile FileSystem.docsA
  queue := []
  receivedInitialFiles := 0
  totalInitialFiles := 0
  folders := [FileSystem.docsA.dropLast]
  peerManager := {}

/-- Who joins it waits for ever. -/
theorem empty_never_joined : ∃ (env env' : Circumstances) (request : Message)
    (gateway gateway' s₀ s t : Managers) (c : ConnectMessage)
    (ls : List (Circumstances × AnyMessage)),
    processInitialFileSyncRequestMessage env request gateway = .ok true gateway' ∧
    Processes s₀ (env', .connect c) s ∧ Trace Processes s ls t ∧
    (∀ l ∈ ls, l.2.base.type ≠ .connect) ∧
    (syncs (ls.map Prod.snd)).Perm
      ((sentSince gateway gateway').map FileInitialSyncMessage.received) ∧
    ¬ FinishesWithSyncs s ls := by
  have hanswer : value? (processInitialFileSyncRequestMessage readerCircumstances docsRequest
      emptyDocs) = some true := by decide +kernel
  have hconnect : value? (process readerCircumstances (some (.connect docsConnect)) joinedDocs) =
      some true := by decide +kernel
  refine ⟨readerCircumstances, readerCircumstances, docsRequest, emptyDocs, _, joinedDocs, _, _,
    docsConnect, [], eq_ok_of_value hanswer, ⟨true, eq_ok_of_value hconnect⟩, .nil _, by simp,
    .of_eq (by decide +kernel), fun hfinishes => ?_⟩
  have hconnected := (hfinishes [] [] _ rfl (.nil _)).mpr rfl
  revert hconnected
  decide +kernel

/-- The sync of the one file there is. -/
def syncDocs : FileInitialSyncMessage where
  type := .initialSync
  receiverNode := .ipv6Unspecified
  messageHash := 0
  targetFile := ⟨[100, 111, 99, 115, 47, 97]⟩
  timestamp := 0
  fileContent := []
  total := 1
  index := 0

/-- A file that says that it is the second of two comes between two payloads. -/
theorem second_sync_stays_connected : StaysConnected joinedDocs
    [(readerCircumstances, .payload greeting),
      (readerCircumstances, .fileInitialSync { syncDocs with total := 2, index := 1 }),
      (readerCircumstances, .payload greeting)] := by
  have hsync : value? (process readerCircumstances
      (some (.fileInitialSync { syncDocs with total := 2, index := 1 })) joinedDocs) =
      some true := by decide +kernel
  exact (stays_connected_iff (.cons ⟨true, rfl⟩ (.cons ⟨true, eq_ok_of_value hsync⟩
    (.cons ⟨true, rfl⟩ (.nil _)))) rfl (by simp; decide)).mpr ⟨by decide, trivial⟩

/-- It is sent again. -/
theorem repeated_sync_disconnects : ∃ (s t : Managers) (ls : List (Circumstances × AnyMessage)),
    Trace Processes s ls t ∧ s.isFinishedConnecting = true ∧
      (∀ l ∈ ls, l.2.base.type ≠ .connect) ∧ ¬ StaysConnected s ls := by
  have hrun : value? (process readerCircumstances (some (.fileInitialSync syncDocs)) joinedDocs) =
      some true := by decide +kernel
  have hfirst := eq_ok_of_value hrun
  refine ⟨joinedDocs, _, [(readerCircumstances, .fileInitialSync syncDocs)],
    .cons ⟨true, hfirst⟩ (.nil _), rfl, by simp; decide, fun hstays => ?_⟩
  have hconnected := hstays _ [] _ (List.append_nil _).symm (.cons ⟨true, hfirst⟩ (.nil _))
  revert hconnected
  decide +kernel

end Managers

end WhisperNet
