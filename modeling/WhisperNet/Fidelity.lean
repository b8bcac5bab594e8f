import WhisperNet.Joining
import Mathlib.Data.List.TakeWhile

/-!
# What a node that joins has in its folders

The gateway reads every file that is listed up to its first null character, and sends that; the
joining node has removed its own files, and writes what it is sent.

* `saveContent_saved` — what writing a file leaves, whatever was there.
* `trace_syncs` — the files after all the syncs, in whichever order.
* `mirrors_iff` — exactly when the folders are then the gateway's.
-/

namespace WhisperNet

open Bin Fs Effect MessageManager

/-! ## Writing a file -/

/-- What is under a path after a content has been written there. A directory is left alone, and so
is a file that cannot be opened. -/
def stored (host : Host) (content : Bytes) (isDir : Bool) : Option File → Option File
  | none => if isDir then none else some ⟨content, host.newPerms⟩
  | some f => if host.CanWrite f.perms then some { f with content } else some f

/-- What writing a content under `p` leaves. -/
structure Saved (host : Host) (p : FilePath) (content : Bytes) (fs fs' : FileSystem) : Prop where
  here : fs'.file? p = stored host content (p ∈ fs.dirs) (fs.file? p)
  elsewhere : ∀ q, p ≠ q → fs'.file? q = fs.file? q
  dirs : ∀ d, d ∈ fs'.dirs ↔ d <+: p.dropLast ∨ d ∈ fs.dirs

section Saving

variable {host : Host} {p : FilePath} {content : Bytes} {fs fs' : FileSystem}

/-- A path is not in its own parent. -/
theorem not_prefix_dropLast (hp : p ≠ []) : ¬ p <+: p.dropLast := by
  intro h
  have hlength := h.length_le
  have hpos := List.length_pos_iff.mpr hp
  rw [List.length_dropLast] at hlength
  omega

/-- Where the parent is a directory, the file is written, or else left. -/
theorem written_file (hparent : p.dropLast ∈ fs.dirs)
    (h : (ofstream host p >>= fun isOpen => put isOpen p content) fs = .ok () fs') :
    fs.Sets p (stored host content (p ∈ fs.dirs) (fs.file? p)) fs' := by
  cases hfile : fs.file? p with
  | some f =>
    by_cases hw : host.CanWrite f.perms
    · obtain ⟨fs₁, hopen, hset₁⟩ := ofstream_ok hfile hw
      obtain ⟨fs₂, happend, hset₂⟩ := append_ok content hset₁.here
      rw [bind_ok hopen] at h
      obtain ⟨-, rfl⟩ := EStateM.Result.ok.inj (happend.symm.trans h)
      rw [stored, if_pos hw]
      exact hset₁.trans hset₂
    · rw [bind_ok (ofstream_refused hfile hw)] at h
      obtain ⟨-, rfl⟩ := EStateM.Result.ok.inj h
      rw [stored, if_neg hw]
      exact .same hfile
  | none =>
    have hnone : p ∉ fs.files := fun hmem => FileSystem.file?_ne_none.mpr hmem hfile
    by_cases hdir : p ∈ fs.dirs
    · have hclosed : ofstream host p fs = .ok false fs := by
        rw [ofstream, dif_neg hnone, dif_neg fun hnot => hnot.2 hdir]
      rw [bind_ok hclosed] at h
      obtain ⟨-, rfl⟩ := EStateM.Result.ok.inj h
      simpa [stored, hdir] using FileSystem.Sets.same hfile
    · have hcreates : ∃ fs₁, ofstream host p fs = .ok true fs₁ ∧
          fs.Sets p (some ⟨[], host.newPerms⟩) fs₁ := ofstream_creates hnone hparent hdir
      obtain ⟨fs₁, hopen, hset₁⟩ := hcreates
      obtain ⟨fs₂, happend, hset₂⟩ := append_ok content hset₁.here
      rw [bind_ok hopen] at h
      obtain ⟨-, rfl⟩ := EStateM.Result.ok.inj (happend.symm.trans h)
      simpa [stored, hdir] using hset₁.trans hset₂

theorem saveContent_saved (h : saveContent host p content fs = .ok () fs') :
    Saved host p content fs fs' := by
  obtain ⟨⟨⟩, fs₁, hcreate, hwrite⟩ := bind_eq_ok h
  obtain ⟨hparent, hmem, -⟩ := createDirectories_dirs hcreate
  have hdirs := mem_createDirectories hcreate
  have hp : p ≠ [] := fun hnil => hparent (by rw [hnil]; rfl)
  have hdir : p ∈ fs₁.dirs ↔ p ∈ fs.dirs := by
    rw [hdirs, or_iff_right (not_prefix_dropLast hp)]
  have hset := written_file hmem hwrite
  refine ⟨?_, fun q hq => ?_, fun d => ?_⟩
  · rw [hset.here, createDirectories_eq_ok hcreate, decide_eq_decide.mpr hdir]
  · rw [hset.elsewhere hq, createDirectories_eq_ok hcreate]
  · rw [hset.dirs, hdirs]

/-- Once the directories are there, writing does not throw. -/
theorem saveContent_ok (host : Host) (content : Bytes)
    (h : createDirectories p.dropLast fs = .ok () fs') :
    ∃ fs'', saveContent host p content fs = .ok () fs'' := by
  obtain ⟨isOpen, fs₁, hopen⟩ := ofstream_returns host p fs'
  obtain ⟨fs₂, hput⟩ := put_returns isOpen p content fs₁
  exact ⟨fs₂, by rw [saveContent, bind_ok h, bind_ok hopen, hput]⟩

end Saving

namespace Managers

/-! ## Processing the syncs -/

section Syncs

variable {env : Circumstances} {s t : Managers} {ls : List (Circumstances × AnyMessage)}

/-- What processing a sync does to the files. -/
theorem processes_sync {m : FileInitialSyncMessage}
    (h : Processes s (env, .fileInitialSync m) t) :
    Saved env.host (filePath m.targetFile) m.fileContent s.files t.files := by
  obtain ⟨processed, h⟩ := h
  obtain ⟨hfiles, -⟩ := process_sync_ok (typed_of_process env s h) h
  obtain ⟨⟨⟩, files', hwrite, hdone⟩ := bind_eq_ok hfiles
  obtain ⟨-, rfl⟩ := EStateM.Result.ok.inj hdone
  exact saveContent_saved hwrite

/-- **All the syncs.** Of files that are not there yet, each is created with the content it was sent
with, except where there is a directory. -/
theorem trace_syncs {ms : List FileInitialSyncMessage} (hrun : Trace Processes s ls t)
    (hls : ls.map Prod.snd = ms.map .fileInitialSync)
    (hdistinct : (ms.map fun m => filePath m.targetFile).Nodup)
    (hnew : ∀ m ∈ ms, s.files.file? (filePath m.targetFile) = none)
    (hinner : ∀ m ∈ ms, ∀ m' ∈ ms, ¬ filePath m.targetFile <+: (filePath m'.targetFile).dropLast) :
    (∀ q, (∀ m ∈ ms, filePath m.targetFile ≠ q) → t.files.file? q = s.files.file? q) ∧
      ∀ m ∈ ms, (t.files.file? (filePath m.targetFile)).map File.content =
        if filePath m.targetFile ∈ s.files.dirs then none else some m.fileContent := by
  induction hrun generalizing ms with
  | nil s =>
    obtain rfl : ms = [] := by simpa using hls.symm
    exact ⟨fun q _ => rfl, by simp⟩
  | @cons s s' t l ls first _ ih =>
    obtain ⟨env, message⟩ := l
    cases ms with
    | nil => simp at hls
    | cons m ms =>
      obtain ⟨hmessage, hrest⟩ := List.cons.inj hls
      obtain rfl : message = .fileInitialSync m := hmessage
      obtain ⟨hm, hdistinct⟩ := List.nodup_cons.mp hdistinct
      obtain ⟨hnewHere, hnew⟩ := List.forall_mem_cons.mp hnew
      have hsaved := processes_sync first
      have hother (m' : FileInitialSyncMessage) (hm' : m' ∈ ms) :
          filePath m.targetFile ≠ filePath m'.targetFile := fun heq =>
        hm (List.mem_map.mpr ⟨m', hm', heq.symm⟩)
      -- No file of another sync is in the way, and no directory of this one is.
      obtain ⟨helse, hthere⟩ := ih hrest hdistinct
        (fun m' hm' => (hsaved.elsewhere _ (hother m' hm')).trans (hnew m' hm'))
        fun m' hm' m'' hm'' => hinner m' (List.mem_cons_of_mem m hm') m''
          (List.mem_cons_of_mem m hm'')
      refine ⟨fun q hq => ?_, List.forall_mem_cons.mpr ⟨?_, fun m' hm' => ?_⟩⟩
      · obtain ⟨hqHere, hq⟩ := List.forall_mem_cons.mp hq
        rw [helse q hq, hsaved.elsewhere q hqHere]
      · rw [helse _ fun m' hm' => (hother m' hm').symm, hsaved.here, hnewHere, stored]
        by_cases hdir : filePath m.targetFile ∈ s.files.dirs <;> simp [hdir]
      · have hdir : filePath m'.targetFile ∈ s'.files.dirs ↔
            filePath m'.targetFile ∈ s.files.dirs := by
          rw [hsaved.dirs, or_iff_right (hinner m' (List.mem_cons_of_mem m hm') m
            List.mem_cons_self)]
        rw [hthere m' hm']
        simp only [hdir]

end Syncs

/-! ## Mirroring the gateway -/

/-- The files of the folders are the same, with the same contents. -/
def Mirrors (folders : List FilePath) (fs fs' : FileSystem) : Prop :=
  ∀ p, Listable folders p → (fs'.file? p).map File.content = (fs.file? p).map File.content

theorem until_null_iff {content : Bytes} :
    content.takeWhile (· ≠ 0) = content ↔ 0 ∉ content := by
  rw [List.takeWhile_eq_self_iff]
  constructor
  · intro h hzero
    simpa using h 0 hzero
  · intro h b hb
    have hne : b ≠ 0 := fun hzero => h (hzero ▸ hb)
    simpa using hne

section Mirroring

variable {env env' : Circumstances} {request : Message} {gateway gateway' s₀ s t : Managers}
  {c : ConnectMessage} {ls : List (Circumstances × AnyMessage)}

/-- What processing a connect message does to the files. -/
theorem processes_connect (h : Processes s₀ (env, .connect c) s) :
    prepareFolders (c.managedPaths.map filePath) s₀.files = .ok () s.files := by
  obtain ⟨processed, h⟩ := h
  exact (process_connect_ok (typed_of_process env s₀ h) h).1

/-- The syncs as they are received name the files of the gateway. -/
theorem targets_received {fs : FileSystem} {size : Nat} {paths : List FilePath}
    {sent : List FileInitialSyncMessage} (h : List.Forall₂ (SyncFor fs size) paths sent)
    (hnormal : ∀ p ∈ paths, InNormalForm p) :
    (sent.map FileInitialSyncMessage.received).map (fun m => filePath m.targetFile) = paths := by
  induction h with
  | nil => rfl
  | @cons p m paths sent hfor _ ih =>
    obtain ⟨hp, hpaths⟩ := List.forall_mem_cons.mp hnormal
    have htarget : filePath m.received.targetFile = p := by
      show filePath m.targetFile.lexicallyNormal = p
      rw [hfor.targetFile, hp.received]
    rw [List.map_cons, List.map_cons, htarget, ih hpaths]

/-- They have the content of these files up to the first null character. -/
theorem content_received {fs : FileSystem} {size : Nat} {paths : List FilePath}
    {sent : List FileInitialSyncMessage} (h : List.Forall₂ (SyncFor fs size) paths sent)
    (hnormal : ∀ p ∈ paths, InNormalForm p) {m : FileInitialSyncMessage}
    (hm : m ∈ sent.map FileInitialSyncMessage.received) : m.fileContent =
      (fs.file? (filePath m.targetFile)).elim [] fun f => f.content.takeWhile (· ≠ 0) := by
  obtain ⟨sent, hsent, rfl⟩ := List.mem_map.mp hm
  obtain ⟨p, hp, hfor⟩ := exists_syncFor h hsent
  have htarget : filePath sent.received.targetFile = p := by
    show filePath sent.targetFile.lexicallyNormal = p
    rw [hfor.targetFile, (hnormal p hp).received]
  rw [htarget]
  exact hfor.fileContent

/-- **Mirroring.** A node processes a connect message, and then, in any order, each of the syncs its
gateway has sent it. What it then has in the folders are the files of the gateway, if and only if
none of these contains a null character, and no directory has been in the place of one. -/
theorem mirrors_iff {ms : List FileInitialSyncMessage}
    (hanswer : processInitialFileSyncRequestMessage env request gateway = .ok true gateway')
    (hfolders : c.managedPaths.map filePath = gateway.folders)
    (hapart : gateway.folders.Pairwise Apart)
    (hnormal : ∀ p ∈ gateway.files.files, Listable gateway.folders p → InNormalForm p)
    (hconnected : Processes s₀ (env', .connect c) s)
    (hms : ms.Perm ((sentSince gateway gateway').map FileInitialSyncMessage.received))
    (hls : ls.map Prod.snd = ms.map .fileInitialSync) (hrun : Trace Processes s ls t) :
    Mirrors gateway.folders gateway.files t.files ↔
      ∀ p f, gateway.files.file? p = some f → Listable gateway.folders p →
        0 ∉ f.content ∧ p ∉ s₀.files.dirs := by
  obtain ⟨paths, hlist, hsent⟩ := syncRequest_syncs hanswer
  obtain ⟨-, -, hmem⟩ := enumerateAllFiles_eq_ok hlist
  have hprepare := processes_connect hconnected
  rw [hfolders] at hprepare
  have hlisted (p : FilePath) (hp : p ∈ paths) : InNormalForm p :=
    hnormal p ((hmem p).mp hp).1 ((hmem p).mp hp).2
  have htargets : (ms.map fun m => filePath m.targetFile).Perm paths := by
    have hperm := hms.map fun m => filePath m.targetFile
    rwa [targets_received hsent hlisted] at hperm
  have htarget (m : FileInitialSyncMessage) (hm : m ∈ ms) : filePath m.targetFile ∈ paths :=
    htargets.mem_iff.mp (List.mem_map_of_mem hm)
  obtain ⟨helse, hthere⟩ := trace_syncs hrun hls
    (htargets.nodup_iff.mpr (enumerateAllFiles_nodup hapart hlist))
    (fun m hm => prepareFolders_listable hprepare ((hmem _).mp (htarget m hm)).2)
    fun m hm m' hm' hin => by
      -- The gateway has no directory where it has a file.
      obtain ⟨rest, hrest⟩ := hin
      have hparent := gateway.files.parent_file _ ((hmem _).mp (htarget m' hm')).1
      rw [← hrest] at hparent
      exact gateway.files.disjoint _ ((hmem _).mp (htarget m hm)).1
        (gateway.files.mem_dirs_of_append hparent)
  have hhere (p : FilePath) (f : File) (hf : gateway.files.file? p = some f)
      (hp : Listable gateway.folders p) : (t.files.file? p).map File.content =
        if p ∈ s₀.files.dirs then none else some (f.content.takeWhile (· ≠ 0)) := by
    have hin : p ∈ paths := (hmem p).mpr ⟨FileSystem.mem_files_of_file? hf, hp⟩
    obtain ⟨m, hm, rfl⟩ := List.mem_map.mp (htargets.mem_iff.mpr hin)
    have hcontent := content_received hsent hlisted (hms.mem_iff.mp hm)
    rw [hf] at hcontent
    have hdir := mem_prepareFolders hprepare (d := filePath m.targetFile)
      fun p' _ _ heq => hp.notMeta (heq ▸ wnts_mem_wntsPath p')
    rw [or_iff_right fun ⟨folder, hfolder, hin⟩ => not_prefix_folder hapart hp folder hfolder hin]
      at hdir
    rw [hthere m hm, hcontent]
    simp only [hdir, Option.elim_some]
  have hnothing (p : FilePath) (hf : gateway.files.file? p = none)
      (hp : Listable gateway.folders p) : t.files.file? p = none := by
    rw [helse p, prepareFolders_listable hprepare hp]
    rintro m hm rfl
    exact FileSystem.file?_ne_none.mpr ((hmem _).mp (htarget m hm)).1 hf
  constructor
  · intro hmirrors p f hf hp
    have hsame := hmirrors p hp
    rw [hhere p f hf hp, hf] at hsame
    split at hsame
    · cases hsame
    · next hdir => exact ⟨until_null_iff.mp (Option.some_inj.mp hsame), hdir⟩
  · intro hclean p hp
    cases hf : gateway.files.file? p with
    | none => rw [hnothing p hf hp]
    | some f =>
      obtain ⟨hnull, hdir⟩ := hclean p f hf hp
      rw [hhere p f hf hp, if_neg hdir, until_null_iff.mpr hnull]
      rfl

end Mirroring

/-- A gateway with the one file `docs/a`. -/
def docsWith (content : Bytes) : Managers := { joinedDocs with files := .docs ⟨content, 0o644⟩ }

theorem docsWith_file {content : Bytes} {p : FilePath} {f : File}
    (h : (docsWith content).files.file? p = some f) :
    p = FileSystem.docsA ∧ f = ⟨content, 0o644⟩ := by
  have hfile := (FileSystem.file?_docs ⟨content, 0o644⟩ p).symm.trans h
  split at hfile
  · next hp => exact ⟨hp.symm, (Option.some_inj.mp hfile).symm⟩
  · cases hfile

theorem docsWith_normal (content : Bytes) : ∀ p ∈ (docsWith content).files.files,
    Listable (docsWith content).folders p → InNormalForm p := by
  intro p hp _
  obtain ⟨f, hf⟩ := Option.ne_none_iff_exists'.mp (FileSystem.file?_ne_none.mpr hp)
  obtain ⟨rfl, -⟩ := docsWith_file hf
  exact ⟨⟨[100, 111, 99, 115, 47, 97]⟩, by decide, by decide⟩

/-- `hi` arrives as it is. -/
theorem hi_mirrored : ∃ s t, Processes joinedDocs (readerCircumstances, .connect docsConnect) s ∧
    Trace Processes s (docsRun (docsWith [104, 105])) t ∧
      Mirrors (docsWith [104, 105]).folders (docsWith [104, 105]).files t.files := by
  have hanswer : value? (processInitialFileSyncRequestMessage readerCircumstances docsRequest
      (docsWith [104, 105])) = some true := by decide +kernel
  have hconnect : value? (process readerCircumstances (some (.connect docsConnect)) joinedDocs) =
      some true := by decide +kernel
  have hrun : ((final (process readerCircumstances (some (.connect docsConnect))
      joinedDocs)).afterAll (docsRun (docsWith [104, 105]))).isSome = true := by decide +kernel
  obtain ⟨t, ht⟩ := Option.isSome_iff_exists.mp hrun
  have hconnected : Processes joinedDocs (readerCircumstances, .connect docsConnect) _ :=
    ⟨true, eq_ok_of_value hconnect⟩
  refine ⟨_, t, hconnected, trace_of_afterAll ht, ?_⟩
  refine (mirrors_iff (eq_ok_of_value hanswer) (by decide +kernel) (by decide +kernel)
    (docsWith_normal _) hconnected (.refl (docsSyncs (docsWith [104, 105])))
    (by rw [docsRun, List.map_map]; rfl) (trace_of_afterAll ht)).mpr ?_
  intro p f hf _
  obtain ⟨rfl, rfl⟩ := docsWith_file hf
  exact ⟨by decide, by decide +kernel⟩

/-- Of `a`, a null character and `b` no more than the `a` arrives. -/
theorem null_cuts : ∃ (env env' : Circumstances) (request : Message)
    (gateway gateway' s₀ s t : Managers) (c : ConnectMessage) (ms : List FileInitialSyncMessage)
    (ls : List (Circumstances × AnyMessage)),
    processInitialFileSyncRequestMessage env request gateway = .ok true gateway' ∧
    c.managedPaths.map filePath = gateway.folders ∧ gateway.folders.Pairwise Apart ∧
    (∀ p ∈ gateway.files.files, Listable gateway.folders p → InNormalForm p) ∧
    Processes s₀ (env', .connect c) s ∧
    ms.Perm ((sentSince gateway gateway').map FileInitialSyncMessage.received) ∧
    ls.map Prod.snd = ms.map .fileInitialSync ∧ Trace Processes s ls t ∧
    ¬ Mirrors gateway.folders gateway.files t.files := by
  have hanswer : value? (processInitialFileSyncRequestMessage readerCircumstances docsRequest
      (docsWith [97, 0, 98])) = some true := by decide +kernel
  have hconnect : value? (process readerCircumstances (some (.connect docsConnect)) joinedDocs) =
      some true := by decide +kernel
  have hrun : ((final (process readerCircumstances (some (.connect docsConnect))
      joinedDocs)).afterAll (docsRun (docsWith [97, 0, 98]))).map
        (fun t => (t.files.file? FileSystem.docsA).map File.content) = some (some [97]) := by
    decide +kernel
  obtain ⟨t, ht, hcontent⟩ := Option.map_eq_some_iff.mp hrun
  refine ⟨readerCircumstances, readerCircumstances, docsRequest, docsWith [97, 0, 98], _,
    joinedDocs, _, t, docsConnect, docsSyncs (docsWith [97, 0, 98]), docsRun (docsWith [97, 0, 98]),
    eq_ok_of_value hanswer, by decide +kernel, by decide +kernel, docsWith_normal _,
    ⟨true, eq_ok_of_value hconnect⟩, .refl _, by rw [docsRun, List.map_map]; rfl,
    trace_of_afterAll ht, fun hmirrors => ?_⟩
  have hsame := hmirrors FileSystem.docsA ⟨FileSystem.docsA.dropLast, by decide +kernel⟩
  rw [hcontent] at hsame
  revert hsame
  decide +kernel

end Managers

end WhisperNet
