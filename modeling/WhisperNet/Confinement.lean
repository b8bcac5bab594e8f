import WhisperNet.Broadcasts
import WhisperNet.ContentBroadcasts
import WhisperNet.Greeting
import WhisperNet.QueueOrder
import WhisperNet.RoutingHeader

/-!
# What a message may name

The path of a file comes over the wire, and the handlers create, write, remove or change the
permissions of whatever it names. What keeps a node from touching the rest of the disk is that no
node ever names anything else: a message names a file that a sweep has found in a managed folder,
that a listing has found there, or that another message has named.

* `confinedFrame_save` — what is read off a frame names what was written to it.
* `Tidy` — the managed files of a disk can be named, and so can those in their locks.
* `tidy_handler` — the rule for a handler that touches a few paths.
-/

namespace WhisperNet

open Bin Fs Effect MessageManager PeerManager

/-! ## Names -/

/-- Folders that a network can manage: they have names, and can be sent. -/
structure Manageable (folders : List FilePath) : Prop where
  named : ∀ folder ∈ folders, folder ≠ []
  normal : ∀ folder ∈ folders, InNormalForm folder
  fits : ∀ folder ∈ folders, PathFits (.ofElements folder)

/-- A file of the managed folders, under a path that is sent as it is. -/
structure Nameable (managed : List FilePath) (p : FilePath) : Prop where
  listable : Listable managed p
  normal : InNormalForm p
  fits : PathFits (.ofElements p)

/-- A file of the managed folders, its hash or its lock. -/
def Belongs (managed : List FilePath) (q : FilePath) : Prop :=
  ∃ p, Listable managed p ∧ (q = p ∨ q = wntsPath p ∨ q = lockFilePath p)

/-- It names nothing but managed files and folders. -/
structure Confined (managed : List FilePath) (m : AnyMessage) : Prop where
  typed : Managers.Typed m
  file : ∀ f, m.filePart = some f → ∃ p, Nameable managed p ∧ f.targetFile = .ofElements p
  connect : ∀ c, m = .connect c → SizeFits c.backupPeers.length ∧ ∃ folders,
    folders ⊆ managed ∧ SizeFits folders.length ∧ c.managedPaths = folders.map .ofElements

/-- Whatever is read off the frame names nothing else. -/
def ConfinedFrame (pf : Platform) (managed : List FilePath) (data : Bytes) : Prop :=
  ∀ clk priority m, deserializeMessage pf clk data = .enqueued priority m → Confined managed m

section Messages

variable {pf : Platform} {managed : List FilePath} {m : AnyMessage} {p : FilePath}

theorem Nameable.filePath (h : Nameable managed p) : filePath (.ofElements p) = p :=
  h.normal.ofElements.2

theorem Nameable.lexicallyNormal (h : Nameable managed p) :
    (FsPath.ofElements p).lexicallyNormal = .ofElements p :=
  h.normal.ofElements.1

/-- What names no file and no folder. -/
theorem confined_of_none (ht : Managers.Typed m) (hfile : m.filePart = none)
    (hconnect : ∀ c, m ≠ .connect c) : Confined managed m where
  typed := ht
  file f hf := by
    rw [hfile] at hf
    cases hf
  connect c hc := absurd hc (hconnect c)

theorem confined_message {b : Message} (h : Managers.Typed (.message b)) :
    Confined managed (.message b) :=
  confined_of_none h rfl nofun

theorem confined_resendRequest {r : ResendRequestMessage} (h : r.type = .resendRequest) :
    Confined managed (.resendRequest r) :=
  confined_of_none h rfl nofun

/-- A message about one file. -/
theorem confined_file {f : FileMessage} (ht : Managers.Typed m) (hm : m.filePart = some f)
    (hp : Nameable managed p) (hf : f.targetFile = .ofElements p) : Confined managed m where
  typed := ht
  file f' hf' := by
    obtain rfl := Option.some_inj.mp (hm.symm.trans hf')
    exact ⟨p, hp, hf⟩
  connect c hc := by
    subst hc
    cases hm

/-- Routing information names no file. -/
theorem Confined.withBase (h : Confined managed m) {b : Message} (hb : b.type = m.base.type) :
    Confined managed (m.withBase b) := by
  cases m with
  | file m =>
    obtain ⟨p, hp, hf⟩ := h.file _ rfl
    exact confined_file (m := .file _) (h.typed.imp hb.trans (Or.imp hb.trans hb.trans)) rfl hp hf
  | fileContent m =>
    obtain ⟨p, hp, hf⟩ := h.file _ rfl
    exact confined_file (m := .fileContent _) (hb.trans h.typed) rfl hp hf
  | fileInitialSync m =>
    obtain ⟨p, hp, hf⟩ := h.file _ rfl
    exact confined_file (m := .fileInitialSync _) (hb.trans h.typed) rfl hp hf
  | message m => exact confined_message (h.typed.imp hb.trans (Or.imp hb.trans hb.trans))
  | payload m => exact confined_of_none (hb.trans h.typed) rfl nofun
  | resendRequest m => exact confined_resendRequest (hb.trans h.typed)
  | connect m =>
    refine ⟨hb.trans h.typed, nofun, fun c hc => ?_⟩
    obtain rfl := AnyMessage.connect.inj hc
    exact h.connect m rfl

theorem Confined.stamp (h : Confined managed m) (pf : Platform) (clk : Clock)
    (self destination : IpAddress) :
    Confined managed (PeerManager.stamp pf clk self destination m) := by
  have hroute : Confined managed (PeerManager.route self destination m) := h.withBase rfl
  exact hroute.withBase rfl

/-! ## Frames -/

/-- A message about a file begins with its file part, as it is written. -/
theorem save_filePart {f : FileMessage} (h : m.filePart = some f) :
    ∃ rest, m.save pf = f.save pf ++ rest := by
  cases m with
  | file m =>
    obtain rfl := Option.some_inj.mp h
    exact ⟨[], (List.append_nil _).symm⟩
  | fileContent m =>
    obtain rfl := Option.some_inj.mp h
    exact ⟨_, rfl⟩
  | fileInitialSync m =>
    obtain rfl := Option.some_inj.mp h
    exact ⟨_, List.append_assoc _ _ _⟩
  | message m | payload m | resendRequest m | connect m => cases h

/-- And so does what it is read from. -/
theorem writtenAs_filePart {used : Bytes} (hw : m.WrittenAs pf used) {f : FileMessage}
    (h : m.filePart = some f) : ∃ header rest, f.WrittenAs pf header ∧ used = header ++ rest := by
  cases m with
  | file m =>
    obtain rfl := Option.some_inj.mp h
    exact ⟨used, [], hw, (List.append_nil _).symm⟩
  | fileContent m =>
    obtain rfl := Option.some_inj.mp h
    obtain ⟨hf, -⟩ := hw
    exact ⟨_, _, hf, rfl⟩
  | fileInitialSync m =>
    obtain rfl := Option.some_inj.mp h
    obtain ⟨⟨hf, -⟩, total, index⟩ := hw
    exact ⟨_, _, hf, List.append_assoc _ _ _⟩
  | message m | payload m | resendRequest m | connect m => cases h

/-- The types of the messages about files. -/
def MessageType.ofFile : MessageType → Bool
  | .lock | .unlock | .deleteFile | .contentChange | .initialSync => true
  | _ => false

theorem filePart_isSome (h : Managers.Typed m) : m.filePart.isSome = m.base.type.ofFile := by
  cases m with
  | file m | message m =>
    have htype := h
    rcases htype with htype | htype | htype <;>
      simp [AnyMessage.filePart, AnyMessage.base, htype, MessageType.ofFile]
  | payload m | resendRequest m | fileContent m | fileInitialSync m | connect m =>
    have htype : m.type = _ := h
    simp [AnyMessage.filePart, AnyMessage.base, htype, MessageType.ofFile]

theorem exists_connect (h : Managers.Typed m) (htype : m.base.type = .connect) :
    ∃ c, m = .connect c := by
  cases m with
  | connect c => exact ⟨c, rfl⟩
  | file m | message m => rcases h with h | h | h <;> cases htype.symm.trans h
  | payload m | resendRequest m | fileContent m | fileInitialSync m => cases htype.symm.trans h

/-- **The file a frame names** is the one that was written to it, whatever follows. -/
theorem confined_filePart {m' : AnyMessage} (h : Confined managed m) {used rest : Bytes}
    (hused : m'.WrittenAs pf used) (hdata : m.save pf = used ++ rest)
    (hfile : m'.filePart.isSome = m.filePart.isSome) {f' : FileMessage}
    (hf' : m'.filePart = some f') : ∃ p, Nameable managed p ∧ f'.targetFile = .ofElements p := by
  rw [hf', Option.isSome_some, eq_comm, Option.isSome_iff_exists] at hfile
  obtain ⟨f, hf⟩ := hfile
  obtain ⟨p, hp, htarget⟩ := h.file f hf
  obtain ⟨header, more, hheader, rfl⟩ := writtenAs_filePart hused hf'
  obtain ⟨content, hsave⟩ : ∃ rest, m.save pf = f.save pf ++ rest := save_filePart hf
  have hfits : PathFits f.targetFile := htarget ▸ hp.fits
  have hread := reads_file pf hfits content
  rw [← hsave, hdata, List.append_assoc, (parses_file pf).reads hheader] at hread
  obtain ⟨rfl, -⟩ := Prod.mk.inj (Option.some_inj.mp hread)
  exact ⟨p, hp, (congrArg FsPath.lexicallyNormal htarget).trans hp.lexicallyNormal⟩

theorem confined_connect {clk : Clock} {priority : Nat} (hmanaged : Manageable managed)
    {c c' : ConnectMessage} (h : Confined managed (.connect c))
    (hm' : deserializeMessage pf clk ((AnyMessage.connect c).save pf) =
      .enqueued priority (.connect c')) : SizeFits c'.backupPeers.length ∧ ∃ folders,
        folders ⊆ managed ∧ SizeFits folders.length ∧
        c'.managedPaths = folders.map .ofElements := by
  obtain ⟨hbackups, folders, hsub, hsize, hpaths⟩ := h.connect c rfl
  have hfits : (AnyMessage.connect c).Fits := by
    refine ⟨hbackups, ?_, fun path hpath => ?_⟩
    · rwa [hpaths, List.length_map]
    · rw [hpaths] at hpath
      obtain ⟨folder, hfolder, rfl⟩ := List.mem_map.mp hpath
      exact hmanaged.fits folder (hsub hfolder)
  have hwire : (AnyMessage.connect c).WireTyped := h.typed
  have hdecoded := (enqueued_iff.mp ⟨priority, hm'⟩).1
  rw [decoded_save pf hwire hfits] at hdecoded
  obtain rfl := AnyMessage.connect.inj (Option.some_inj.mp hdecoded)
  refine ⟨hbackups, folders, hsub, hsize, ?_⟩
  show c.managedPaths.map FsPath.lexicallyNormal = _
  rw [hpaths, List.map_map]
  exact List.map_congr_left fun folder hfolder =>
    (hmanaged.normal folder (hsub hfolder)).ofElements.1

/-- **What is written names what is read**, as far as it names anything. -/
theorem confinedFrame_save (pf : Platform) (hmanaged : Manageable managed) (h : Confined managed m) :
    ConfinedFrame pf managed (m.save pf) := by
  intro clk priority m' hm'
  obtain ⟨hw, -, hhead⟩ := enqueued_typed hm'
  obtain ⟨-, used, rest, hused, hdata⟩ := decoded_iff.mp (enqueued_iff.mp ⟨priority, hm'⟩).1
  have htyped : Managers.Typed m' := (Managers.typed_of_wireTyped hw).1
  rw [m.head?_save pf, Option.map_some, MessageType.ofByte_toByte, Option.some_inj] at hhead
  refine ⟨htyped, fun f' hf' => ?_, fun c' hc' => ?_⟩
  · refine confined_filePart h hused hdata ?_ hf'
    rw [filePart_isSome htyped, filePart_isSome h.typed, hhead]
  · subst hc'
    obtain ⟨c, rfl⟩ := exists_connect h.typed (hhead.trans hw)
    exact confined_connect hmanaged h hm'

end Messages

/-! ## Disks -/

/-- Only what belongs to the managed folders has changed. -/
def Spared (managed : List FilePath) (base fs : FileSystem) : Prop :=
  ∀ q, ¬ Belongs managed q → fs.file? q = base.file? q

/-- And whatever the disk names can be named: the managed files, and the files in their locks. -/
structure Tidy (pf : Platform) (managed : List FilePath) (base fs : FileSystem) : Prop where
  spared : Spared managed base fs
  files : ∀ p, Listable managed p → fs.file? p ≠ none → Nameable managed p
  locks : ∀ p, Listable managed p → ∀ lock perms, lockRecord pf fs p = some (lock, perms) →
    Confined managed (.file lock)

section Disks

variable {pf : Platform} {managed : List FilePath} {base fs fs' : FileSystem} {p q : FilePath}

theorem belongs_file (h : Listable managed p) : Belongs managed p := ⟨p, h, Or.inl rfl⟩

theorem belongs_hash (h : Listable managed p) : Belongs managed (wntsPath p) :=
  ⟨p, h, Or.inr (Or.inl rfl)⟩

theorem belongs_lock (h : Listable managed p) : Belongs managed (lockFilePath p) :=
  ⟨p, h, Or.inr (Or.inr rfl)⟩

/-- Hashes and locks are not listed. -/
theorem Manageable.not_listable_lock (hmanaged : Manageable managed) (h : Listable managed p) :
    ¬ Listable managed (lockFilePath p) := fun hlock =>
  hlock.notMeta (wnts_mem_lockFilePath (h.managed hmanaged.named).inFolder)

theorem not_listable_hash : ¬ Listable managed (wntsPath p) := fun h =>
  h.notMeta (wnts_mem_wntsPath p)

/-- **A handler that touches a few paths**, all of which belong to the managed folders, leaves a
tidy disk if the files and locks among them are fit to be named. -/
theorem tidy_handler {α : Type} {x : Fs α} (paths : List FilePath)
    (hbelongs : ∀ r ∈ paths, Belongs managed r)
    (hfiles : ∀ r ∈ paths, Listable managed r → Nameable managed r)
    (hkeeps : ∀ r, r ∉ paths → ∀ f, Keeps (Fs.FileIs r f) x)
    (hlocks : ∀ fs a fs', x fs = .ok a fs' → ∀ p, Listable managed p → lockFilePath p ∈ paths →
      ∀ lock perms, lockRecord pf fs' p = some (lock, perms) →
        lockRecord pf fs p = some (lock, perms) ∨ Confined managed (.file lock)) :
    Triple (Tidy pf managed base) x (fun _ => Tidy pf managed base) (Spared managed base) where
  ok {fs fs' a} htidy h := by
    have hsame : ∀ r, r ∉ paths → fs'.file? r = fs.file? r := fun r hr => (hkeeps r hr _).ok h rfl
    refine ⟨fun q hq => ?_, fun p hp hfile => ?_, fun p hp lock perms hrecord => ?_⟩
    · rw [hsame q fun hmem => hq (hbelongs q hmem)]
      exact htidy.spared q hq
    · by_cases hmem : p ∈ paths
      · exact hfiles p hmem hp
      · rw [hsame p hmem] at hfile
        exact htidy.files p hp hfile
    · by_cases hmem : lockFilePath p ∈ paths
      · rcases hlocks fs a fs' h p hp hmem lock perms hrecord with hold | hnew
        · exact htidy.locks p hp lock perms hold
        · exact hnew
      · rw [lockRecord_congr (hsame _ hmem)] at hrecord
        exact htidy.locks p hp lock perms hrecord
  error {fs fs' e} htidy h q hq := by
    have hfinal := hkeeps q (fun hmem => hq (hbelongs q hmem)) _ fs rfl
    rw [h] at hfinal
    exact hfinal.trans (htidy.spared q hq)

/-- Reading. -/
theorem tidy_read {α : Type} {x : Fs α} (h : ∀ fs, final (x fs) = fs) :
    Triple (Tidy pf managed base) x (fun _ => Tidy pf managed base) (Spared managed base) :=
  (Keeps.of_final h).triple fun _ htidy => htidy.spared

/-- What is listed can be named. -/
theorem tidy_enumerate {folders : List FilePath} (hsub : folders ⊆ managed) :
    Triple (Tidy pf managed base) (enumerateAllFiles folders)
      (fun paths fs => Tidy pf managed base fs ∧ ∀ p ∈ paths, Nameable managed p)
      (Spared managed base) where
  ok htidy h := by
    obtain ⟨rfl, -, hpaths⟩ := enumerateAllFiles_eq_ok h
    refine ⟨htidy, fun p hp => ?_⟩
    obtain ⟨hfile, folder, hfolder, hin⟩ := (hpaths p).mp hp
    exact htidy.files p ⟨folder, hsub hfolder, hin⟩ (FileSystem.file?_ne_none.mpr hfile)
  error htidy h :=
    ((keeps_enumerateAllFiles folders).triple fun _ htidy => htidy.spared).error htidy h

/-! ## The handlers -/

section Handlers

variable {host : Host} {connected : Bool}

/-- A lock is none of the files. -/
theorem Manageable.lock_ne (hmanaged : Manageable managed) {r : FilePath}
    (hr : Listable managed r) (hp : Listable managed p) : lockFilePath r ≠ p := fun heq =>
  hmanaged.not_listable_lock hr (heq ▸ hp)

/-- Writing a file. -/
theorem tidy_written {α : Type} {x : Fs α} (hmanaged : Manageable managed)
    (hp : Nameable managed p) (hkeeps : ∀ r, r ∉ [p] → ∀ f, Keeps (FileIs r f) x) :
    Triple (Tidy pf managed base) x (fun _ => Tidy pf managed base) (Spared managed base) :=
  tidy_handler [p] (List.forall_mem_singleton.mpr (belongs_file hp.listable))
    (List.forall_mem_singleton.mpr fun _ => hp) hkeeps fun _ _ _ _ _ hr hmem =>
      absurd (List.mem_singleton.mp hmem) (hmanaged.lock_ne hr hp.listable)

theorem tidy_content (hmanaged : Manageable managed) {m : FileContentMessage}
    (h : Confined managed (.fileContent m)) :
    Triple (Tidy pf managed base) (processContentFileMessage host connected m)
      (fun _ => Tidy pf managed base) (Spared managed base) := by
  obtain ⟨p, hp, htarget⟩ := h.file _ rfl
  have hpath : filePath m.targetFile = p := htarget ▸ hp.filePath
  exact tidy_written hmanaged hp fun r hr f =>
    keeps_content m (spares_file (hpath ▸ hr)).toSparedByWriting

theorem tidy_sync (hmanaged : Manageable managed) {m : FileInitialSyncMessage}
    (h : Confined managed (.fileInitialSync m)) :
    Triple (Tidy pf managed base) (processInitialFileSyncMessage host m)
      (fun _ => Tidy pf managed base) (Spared managed base) := by
  obtain ⟨p, hp, htarget⟩ := h.file _ rfl
  have hpath : filePath m.targetFile = p := htarget ▸ hp.filePath
  exact tidy_written hmanaged hp fun r hr f =>
    keeps_sync m (spares_file (hpath ▸ hr)).toSparedByWriting

/-- A lock that is taken says what took it, whether or not there is a file. -/
theorem takeLock_record {m : FileMessage} (hm : filePath m.targetFile = p)
    (hfits : PathFits m.targetFile) (h : takeLock host m fs = .ok () fs') :
    ∃ perms, lockRecord host.platform fs' p = some (m.received, perms) := by
  subst hm
  obtain ⟨⟨⟩, fs₁, -, h⟩ := bind_eq_ok h
  obtain ⟨⟨⟩, fs₂, -, h⟩ := bind_eq_ok h
  obtain ⟨fout, fs₃, hopen, h⟩ := bind_eq_ok h
  obtain ⟨perms, fs₄, hstatus, harchive⟩ := bind_eq_ok h
  obtain ⟨rfl, -⟩ := statusPermissions_eq_ok hstatus
  obtain ⟨⟨lockPerms, hlock⟩, -⟩ := archived hopen (fun _ => rfl) harchive
  exact ⟨_, lockRecord_of_saved hfits hlock rfl⟩

/-- What the lock of the file says once a lock has been processed: what it said, or the new one. -/
theorem processLockMessage_record {m : FileMessage} {b : Bool} {lock : FileMessage} {perms : Perms}
    (hm : filePath m.targetFile = p) (hfits : PathFits m.targetFile)
    (h : processLockMessage host connected m fs = .ok b fs')
    (hrecord : lockRecord host.platform fs' p = some (lock, perms)) :
    lockRecord host.platform fs p = some (lock, perms) ∨ lock = m.received := by
  cases connected with
  | false =>
    obtain ⟨-, rfl⟩ := EStateM.Result.ok.inj h
    exact Or.inl hrecord
  | true =>
    have hbody : (exist (filePath m.targetFile) >>= _) fs = .ok b fs' := h
    obtain ⟨isThere, fs₁, hthere, hrest⟩ := bind_eq_ok hbody
    obtain ⟨rfl, -⟩ := exist_eq_ok hthere
    cases isThere with
    | false =>
      obtain ⟨-, rfl⟩ := EStateM.Result.ok.inj hrest
      exact Or.inl hrecord
    | true =>
      obtain ⟨isLocked, fs₂, hexist, hrest⟩ := bind_eq_ok hrest
      obtain ⟨rfl, -⟩ := exist_eq_ok hexist
      cases isLocked with
      | false =>
        obtain ⟨⟨⟩, fs₃, htake, hreturn⟩ := bind_eq_ok hrest
        obtain ⟨-, rfl⟩ := EStateM.Result.ok.inj hreturn
        obtain ⟨taken, hnew⟩ := takeLock_record hm hfits htake
        rw [hnew] at hrecord
        exact Or.inr (Prod.mk.inj (Option.some_inj.mp hrecord)).1.symm
      | true =>
        obtain ⟨⟨⟩, fs₃, hcontest, hreturn⟩ := bind_eq_ok hrest
        obtain ⟨-, rfl⟩ := EStateM.Result.ok.inj hreturn
        obtain ⟨oldLock, oldPerms, -, hdone⟩ := contestLock_ok hm hfits hcontest
        split at hdone
        · rw [hdone.record] at hrecord
          exact Or.inr (Prod.mk.inj (Option.some_inj.mp hrecord)).1.symm
        · rw [hdone] at hrecord
          exact Or.inl hrecord

theorem confined_received {m : FileMessage} (h : Confined managed (.file m)) :
    Confined managed (.file m.received) := by
  obtain ⟨p, hp, htarget⟩ := h.file _ rfl
  exact confined_file (m := .file _) h.typed rfl hp
    ((congrArg FsPath.lexicallyNormal htarget).trans hp.lexicallyNormal)

/-- Changing a file and its lock. -/
theorem tidy_locking {α : Type} {x : Fs α} (hmanaged : Manageable managed)
    (hp : Nameable managed p) (hkeeps : ∀ r, r ∉ [p, lockFilePath p] → ∀ f, Keeps (FileIs r f) x)
    (hrecord : ∀ fs a fs', x fs = .ok a fs' → ∀ lock perms,
      lockRecord pf fs' p = some (lock, perms) →
        lockRecord pf fs p = some (lock, perms) ∨ Confined managed (.file lock)) :
    Triple (Tidy pf managed base) x (fun _ => Tidy pf managed base) (Spared managed base) := by
  refine tidy_handler [p, lockFilePath p] ?_ ?_ hkeeps ?_
  · simpa using ⟨belongs_file hp.listable, belongs_lock hp.listable⟩
  · simpa using ⟨fun _ => hp, fun hlock => absurd hlock (hmanaged.not_listable_lock hp.listable)⟩
  · intro fs a fs' hrun r hr hmem
    obtain rfl : r = p := by
      rcases List.mem_cons.mp hmem with heq | hmem
      · exact absurd heq (hmanaged.lock_ne hr hp.listable)
      · exact lockFilePath_inj (List.mem_singleton.mp hmem)
    exact hrecord fs a fs' hrun

theorem tidy_lock (hmanaged : Manageable managed) {m : FileMessage}
    (h : Confined managed (.file m)) :
    Triple (Tidy host.platform managed base) (processLockMessage host connected m)
      (fun _ => Tidy host.platform managed base) (Spared managed base) := by
  obtain ⟨p, hp, htarget⟩ := h.file _ rfl
  have hpath : filePath m.targetFile = p := htarget ▸ hp.filePath
  refine tidy_locking hmanaged hp (fun r hr f => ?_) fun fs b fs' hrun lock perms hrecord => ?_
  · exact keeps_lock m (spares_file (hpath ▸ hr)).toSparedByWriting
  · refine (processLockMessage_record hpath (htarget ▸ hp.fits) hrun hrecord).imp_right ?_
    rintro rfl
    exact confined_received h

theorem tidy_unlock (hmanaged : Manageable managed) {m : FileMessage}
    (h : Confined managed (.file m)) :
    Triple (Tidy host.platform managed base) (processUnlockMessage host connected m)
      (fun _ => Tidy host.platform managed base) (Spared managed base) := by
  obtain ⟨p, hp, htarget⟩ := h.file _ rfl
  have hpath : filePath m.targetFile = p := htarget ▸ hp.filePath
  refine tidy_locking hmanaged hp (fun r hr f => ?_) fun fs b fs' hrun lock perms hrecord => ?_
  · exact keeps_unlock m (spares_file (hpath ▸ hr))
  · cases connected with
    | false =>
      obtain ⟨-, rfl⟩ := EStateM.Result.ok.inj hrun
      exact Or.inl hrecord
    | true =>
      obtain ⟨-, rfl | ⟨oldLock, oldPerms, -, -, hreleased⟩⟩ := processUnlockMessage_ok hpath hrun
      · exact Or.inl hrecord
      · rw [lockRecord_none hreleased.free] at hrecord
        cases hrecord

/-! ## Removing -/

/-- The file is as it was, or gone. -/
def Thinned (q : FilePath) (f : Option File) (fs : FileSystem) : Prop :=
  fs.file? q = f ∨ fs.file? q = none

theorem keeps_thinned {α : Type} {x : Fs α} {f : Option File} (h : ∀ g, Keeps (FileIs q g) x) :
    Keeps (Thinned q f) x :=
  keeps_of_file (Q := fun g => g = f ∨ g = none) h

theorem keeps_thinned_remove {f : Option File} : Keeps (Thinned q f) (remove p) := by
  intro fs h
  by_cases hp : p = q
  · subst hp
    cases hrun : remove p fs with
    | ok u fs' => exact Or.inr (remove_eq_ok hrun)
    | error e fs' => exact remove_eq_error hrun ▸ h
  · exact keeps_thinned (fun g => keeps_remove hp) fs h

/-- A lock that may have been removed says nothing new. -/
theorem lockRecord_thinned {lock : FileMessage × Perms}
    (h : Thinned (lockFilePath p) (fs.file? (lockFilePath p)) fs')
    (hrecord : lockRecord pf fs' p = some lock) : lockRecord pf fs p = some lock := by
  rcases h with hsame | hgone
  · rwa [← lockRecord_congr hsame]
  · rw [lockRecord_none hgone] at hrecord
    cases hrecord

theorem keeps_thinned_delete {m : FileMessage} {f : Option File}
    (hq : filePath m.targetFile ≠ q) :
    Keeps (Thinned q f) (processDeleteFileMessage host connected m) := by
  refine (Keeps.pure _).ite ?_
  refine (keeps_permissionsToAdd _ _).bind fun allowed => ?_
  cases allowed with
  | none => exact Keeps.pure _
  | some perms =>
    have hadd : Keeps (Thinned q f) (addPermissions (filePath m.targetFile) perms) :=
      keeps_thinned fun g => keeps_permissions _ hq
    have hdelete : Keeps (Thinned q f) (deleteFile (filePath m.targetFile) perms) :=
      hadd.bind fun _ => keeps_thinned_remove.bind fun _ => keeps_thinned_remove.bind fun _ =>
        keeps_thinned_remove
    exact hdelete.bind fun _ => Keeps.pure _

theorem tidy_delete (hmanaged : Manageable managed) {m : FileMessage}
    (h : Confined managed (.file m)) :
    Triple (Tidy pf managed base) (processDeleteFileMessage host connected m)
      (fun _ => Tidy pf managed base) (Spared managed base) := by
  obtain ⟨p, hp, htarget⟩ := h.file _ rfl
  have hpath : filePath m.targetFile = p := htarget ▸ hp.filePath
  refine tidy_handler [p, lockFilePath p, wntsPath p] ?_ ?_ (fun r hr f => ?_) ?_
  · simpa using ⟨belongs_file hp.listable, belongs_lock hp.listable, belongs_hash hp.listable⟩
  · simpa using ⟨fun _ => hp, fun hlock => absurd hlock (hmanaged.not_listable_lock hp.listable),
      fun hhash => absurd hhash not_listable_hash⟩
  · exact keeps_delete m (spares_file (hpath ▸ hr))
  · intro fs b fs' hrun r hr _ lock perms hrecord
    have hne : filePath m.targetFile ≠ lockFilePath r :=
      hpath ▸ (hmanaged.lock_ne hr hp.listable).symm
    exact Or.inl (lockRecord_thinned ((keeps_thinned_delete hne).ok hrun (Or.inl rfl)) hrecord)

/-- A handler that touches some of the managed files, and what is kept beside them, and leaves a
lock as it was or takes it away. -/
theorem tidy_thinned {α : Type} {x : Fs α} {paths : List FilePath} {beside : FilePath → FilePath}
    (hpaths : ∀ p ∈ paths, Nameable managed p)
    (hbeside : ∀ p, Listable managed p →
      Belongs managed (beside p) ∧ ¬ Listable managed (beside p))
    (hkeeps : ∀ r, r ∉ paths → r ∉ paths.map beside → ∀ f, Keeps (FileIs r f) x)
    (hthinned : ∀ r, Listable managed r → ∀ f, Keeps (Thinned (lockFilePath r) f) x) :
    Triple (Tidy pf managed base) x (fun _ => Tidy pf managed base) (Spared managed base) := by
  refine tidy_handler (paths ++ paths.map beside) ?_ ?_ (fun r hr f => ?_) ?_
  · rw [List.forall_mem_append, List.forall_mem_map]
    exact ⟨fun p hp => belongs_file (hpaths p hp).listable,
      fun p hp => (hbeside p (hpaths p hp).listable).1⟩
  · rw [List.forall_mem_append, List.forall_mem_map]
    exact ⟨fun p hp _ => hpaths p hp,
      fun p hp hlisted => absurd hlisted (hbeside p (hpaths p hp).listable).2⟩
  · rw [List.mem_append, not_or] at hr
    exact hkeeps r hr.1 hr.2 f
  · intro fs a fs' hrun r hr _ lock perms hrecord
    exact Or.inl (lockRecord_thinned ((hthinned r hr _).ok hrun (Or.inl rfl)) hrecord)

theorem tidy_removeEach {paths : List FilePath} (hpaths : ∀ p ∈ paths, Nameable managed p) :
    Triple (Tidy pf managed base) (removeEach paths) (fun _ => Tidy pf managed base)
      (Spared managed base) := by
  refine tidy_thinned hpaths (fun p hp => ⟨belongs_hash hp, not_listable_hash⟩)
    (fun r hr hhash f => ?_) fun r _ f => ?_
  · refine keeps_removeEach fun p hp => ⟨keeps_remove ?_, keeps_remove ?_⟩
    · exact ne_of_mem_of_not_mem hp hr
    · exact ne_of_mem_of_not_mem (List.mem_map_of_mem hp) hhash
  · exact keeps_removeEach fun _ _ => ⟨keeps_thinned_remove, keeps_thinned_remove⟩

/-- **Joining a network** empties its folders. -/
theorem tidy_prepare {folders : List FilePath} (hsub : folders ⊆ managed) :
    Triple (Tidy pf managed base) (prepareFolders folders) (fun _ => Tidy pf managed base)
      (Spared managed base) := by
  have hcreate : Triple (Tidy pf managed base) (createEach folders)
      (fun _ => Tidy pf managed base) (Spared managed base) :=
    tidy_handler [] nofun nofun
      (fun _ _ _ => keeps_createEach fun _ => keeps_createDirectories) fun _ _ _ _ _ _ hmem => by
        cases hmem
  exact hcreate.bind fun _ => (tidy_enumerate hsub).bind fun paths =>
    Triple.assuming fun hpaths => tidy_removeEach hpaths

/-! ## Sweeps -/

/-- A lock takes more bytes than a hash has digits. -/
theorem length_lockRecord {lock : FileMessage × Perms} {f : File}
    (hf : fs.file? (lockFilePath p) = some f) (hrecord : lockRecord pf fs p = some lock) :
    20 < f.content.length := by
  rw [lockRecord, hf, Option.bind_some] at hrecord
  obtain ⟨⟨lock', rest⟩, hrun, -⟩ := Option.map_eq_some_iff.mp hrecord
  obtain ⟨m, used, left, hused, hcontent, -⟩ := (parses_file pf).run_bind hrun
  obtain ⟨⟨type, hreceiver, horiginator, messageHash⟩, ⟨⟨hsize, hparts⟩⟩, tm⟩ := hused
  rw [hcontent]
  simp only [List.length_append, put64, length_putNat, put8]
  omega

theorem length_toDecimal (hash : UInt64) : (toDecimal hash.toNat).length ≤ 20 := by
  rw [toDecimal, List.length_map, Nat.length_toDigits_le_iff (by omega) (by omega)]
  have hlt := hash.toNat_lt
  omega

/-- A hash that is stored is no lock, where a lock may have the name of a hash. -/
theorem storeHash_lock {hash : UInt64} {r : FilePath} {lock : FileMessage × Perms}
    (h : storeHash host p hash fs = .ok () fs') (hr : lockFilePath r = wntsPath p)
    (hrecord : lockRecord pf fs' r = some lock) : lockRecord pf fs r = some lock := by
  obtain ⟨isOpen, fs₁, hopen, hput⟩ := bind_eq_ok h
  cases isOpen with
  | false =>
    obtain ⟨-, rfl⟩ := EStateM.Result.ok.inj hput
    rwa [ofstream_false hopen] at hrecord
  | true =>
    obtain ⟨perms, hset⟩ := ofstream_true hopen
    obtain ⟨fs₂, happend, hset'⟩ := append_ok (toDecimal hash.toNat) hset.here
    obtain ⟨-, rfl⟩ := EStateM.Result.ok.inj (happend.symm.trans hput)
    have hlong := length_lockRecord (hr ▸ hset'.here) hrecord
    exact absurd (length_toDecimal hash) (not_le.mpr hlong)

theorem tidy_storeHash (hp : Nameable managed p) (hash : UInt64) :
    Triple (Tidy pf managed base) (storeHash host p hash) (fun _ => Tidy pf managed base)
      (Spared managed base) := by
  refine tidy_handler [wntsPath p] (List.forall_mem_singleton.mpr (belongs_hash hp.listable))
    (List.forall_mem_singleton.mpr fun hhash => absurd hhash not_listable_hash)
    (fun r hr f => ?_) fun fs u fs' hrun r _ hmem lock perms hrecord =>
      Or.inl (storeHash_lock hrun (List.mem_singleton.mp hmem) hrecord)
  have hspares : SparedByWriting host [wntsPath p] (FileIs r f) :=
    (spares_file hr).toSparedByWriting
  exact (hspares.ofstream _ (by simp)).bind fun _ => hspares.put _ _ (by simp)

/-- The disk is tidy, and what is to be broadcast names nothing else. -/
def Reports (pf : Platform) (managed : List FilePath) (base : FileSystem) (sent : List AnyMessage)
    (fs : FileSystem) : Prop :=
  Tidy pf managed base fs ∧ ∀ m ∈ sent, Confined managed m

theorem tidy_report {m : AnyMessage} (hm : Confined managed m) :
    Triple (Tidy pf managed base) (pure [m] : Fs (List AnyMessage)) (Reports pf managed base)
      (Spared managed base) :=
  Triple.pure fun _ htidy => ⟨htidy, List.forall_mem_singleton.mpr hm⟩

theorem tidy_lastWriteTime (mtime : FilePath → FileTime) (p : FilePath) :
    Triple (Tidy pf managed base) (lastWriteTime mtime p) (fun _ => Tidy pf managed base)
      (Spared managed base) := by
  refine tidy_read fun fs => ?_
  unfold lastWriteTime
  split <;> rfl

theorem tidy_createdOrModified (mtime : FilePath → FileTime) (r : Readings)
    (hp : Nameable managed p) :
    Triple (Tidy pf managed base) (onFileCreatedOrModified host mtime r p) (Reports pf managed base)
      (Spared managed base) := by
  refine (tidy_lastWriteTime mtime p).bind fun time => (tidy_read fun fs => ?_).bind fun content =>
    (tidy_read fun fs => ?_).bind fun send => Triple.ite ?_ ?_
  · unfold readFile
    split <;> rfl
  · rw [shouldSend_ok]
    rfl
  · exact (tidy_storeHash hp _).bind fun _ =>
      tidy_report (confined_file (m := .fileContent _) rfl rfl hp rfl)
  · exact Triple.pure fun _ htidy => ⟨htidy, List.forall_mem_nil _⟩

/-- **What a callback broadcasts** names the file it is about. -/
theorem tidy_callback (mtime : FilePath → FileTime) (r : Readings) {event : SweepEvent}
    (hp : Nameable managed event.path) :
    Triple (Tidy pf managed base) (callback host mtime r event) (Reports pf managed base)
      (Spared managed base) := by
  cases event with
  | created p | modified p => exact tidy_createdOrModified mtime r hp
  | deleted p => exact tidy_report (confined_file (m := .file _) (Or.inr (Or.inr rfl)) rfl hp rfl)
  | fastTracked p =>
    exact (tidy_lastWriteTime mtime p).bind fun _ =>
      tidy_report (confined_file (m := .file _) (Or.inl rfl) rfl hp rfl)
  | unFastTracked p =>
    exact (tidy_lastWriteTime mtime p).bind fun _ =>
      tidy_report (confined_file (m := .file _) (Or.inr (Or.inl rfl)) rfl hp rfl)

end Handlers

end Disks

end WhisperNet
