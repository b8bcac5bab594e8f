import WhisperNet.Cleanup
import WhisperNet.Containment
import WhisperNet.SweepReports

/-!
# What a network leaves alone

Whole nodes once they have started, each with its main thread, its sweeper and the threads that
accept connections and listen to peers, and users who edit the managed files. A frame that has been
written anywhere may come to any node over any link, at any time, more than once or never. A node
may shut down, or an exception that nobody catches ends it in the middle of what it was doing.

* `TracksOnly.event` — a sweep reports what it lists and what it keeps track of.
* `sweep_station` — a sweep of a whole node is one of its station.
* `contains_sweep` — a sweep, with its callbacks and what they send, knows of managed files alone.
* `rest_untouched` — whatever happens, no file changes that does not belong to a managed folder.
-/

namespace WhisperNet

open Bin Fs Effect MessageManager FilesystemSweeper

/-! ## What a sweeper keeps track of -/

namespace FilesystemSweeper

/-- All paths it keeps track of are such paths. -/
structure TracksOnly (P : FilePath → Prop) (sw : FilesystemSweeper) : Prop where
  timestamps : ∀ p ∈ sw.timestamps, P p
  fastTrackTimestamps : ∀ p ∈ sw.fastTrackTimestamps, P p

section Tracks

variable {P : FilePath → Prop} {sw sw' : FilesystemSweeper} {s : Surroundings} {path : FilePath}
  {pair : FileTime × UInt64}

theorem forall_insert {m : TimeMap} (h : ∀ p ∈ m, P p) (hpath : P path) :
    ∀ p ∈ m.insert path pair, P p := by
  intro p hp
  rcases Std.TreeMap.mem_insert.mp hp with heq | hp
  · rwa [← Std.compare_eq_iff_eq.mp heq]
  · exact h p hp

theorem TracksOnly.map (h : TracksOnly P sw) (total : Bool) : ∀ p ∈ sw.map total, P p := by
  cases total
  · exact h.fastTrackTimestamps
  · exact h.timestamps

theorem TracksOnly.mark (h : TracksOnly P sw) (total : Bool) (hpath : P path) :
    TracksOnly P (sw.mark total path pair) := by
  cases total
  · exact ⟨h.timestamps, forall_insert h.fastTrackTimestamps hpath⟩
  · exact ⟨forall_insert h.timestamps hpath, h.fastTrackTimestamps⟩

theorem TracksOnly.fastTrack (h : TracksOnly P sw) (hpath : P path) :
    TracksOnly P (sw.fastTrack path pair).2 :=
  ⟨h.timestamps, forall_insert h.fastTrackTimestamps hpath⟩

theorem TracksOnly.visit (h : TracksOnly P sw) (total : Bool) (hpath : P path) (t : FileTime) :
    TracksOnly P (sw.visit total path t).2 := by
  unfold FilesystemSweeper.visit
  split
  · exact (h.fastTrack hpath).mark total hpath
  · dsimp only
    split
    · exact (h.fastTrack hpath).mark total hpath
    · exact h.mark total hpath

theorem TracksOnly.scan {files : List (FilePath × Stat)} (h : TracksOnly P sw) (total : Bool)
    (hfiles : ∀ file ∈ files, P file.1) : TracksOnly P (scan total sw files).2.1 := by
  induction files generalizing sw with
  | nil => exact h
  | cons file rest ih =>
    obtain ⟨path, stat⟩ := file
    obtain ⟨hpath, hrest⟩ := List.forall_mem_cons.mp hfiles
    cases stat with
    | time t => exact ih (h.visit total hpath t) hrest
    | notFound => exact h
    | failed => exact h

theorem TracksOnly.paths (h : TracksOnly P sw) (hlisting : ∀ file ∈ s.listing, P file.1) :
    ∀ file ∈ sw.paths s, P file.1 := by
  unfold FilesystemSweeper.paths
  split
  · exact hlisting
  · intro file hfile
    obtain ⟨p, hp, rfl⟩ := List.mem_map.mp hfile
    exact h.fastTrackTimestamps p (Std.TreeMap.mem_keys.mp hp)

/-- A sweep keeps track of nothing that it does not list. -/
theorem TracksOnly.sweep (h : TracksOnly P sw) (hlisting : ∀ file ∈ s.listing, P file.1)
    (hsweep : (sw.sweep s).2 = some sw') : TracksOnly P sw' := by
  obtain ⟨htotal, hfast⟩ := sweep_maps hsweep
  have hscan := h.scan s.total (h.paths hlisting)
  refine ⟨fun p hp => ?_, fun p hp => ?_⟩
  · obtain ⟨pair, hpair⟩ := mem_iff_exists.mp hp
    exact hscan.timestamps p (mem_iff_exists.mpr ⟨pair, htotal p pair hpair⟩)
  · obtain ⟨pair, hpair⟩ := mem_iff_exists.mp hp
    exact hscan.fastTrackTimestamps p (mem_iff_exists.mpr ⟨pair, hfast p pair hpair⟩)

/-- **What a sweep reports** is about a path that it lists or keeps track of. -/
theorem TracksOnly.event {event : SweepEvent} (h : TracksOnly P sw)
    (hlisting : ∀ file ∈ s.listing, P file.1) (hevent : event ∈ (sw.sweep s).1) :
    P event.path := by
  rcases mem_sweep hevent with hscan | hdeleted | ⟨-, t, hentry⟩
  · obtain ⟨t, hmem⟩ := time_of_scanned (path_mem_scanned _ _ hscan)
    exact h.paths hlisting _ hmem
  · rw [hdeleted, mem_deleted_iff] at hevent
    obtain ⟨-, -, pair, hpair, -⟩ := hevent
    exact h.map s.total _ (mem_iff_exists.mpr ⟨pair, hpair⟩)
  · exact (h.scan s.total (h.paths hlisting)).map s.total _ (mem_iff_exists.mpr ⟨_, hentry⟩)

end Tracks

end FilesystemSweeper

/-! ## Shutting down -/

section Release

variable {pf : Platform} {managed : List FilePath} {base : FileSystem} {paths : List FilePath}

theorem keeps_releaseEach {Inv : FileSystem → Prop} (h : ∀ p ∈ paths,
      (∀ perms, Keeps Inv (addPermissions p perms)) ∧ Keeps Inv (remove (lockFilePath p))) :
    Keeps Inv (releaseEach pf paths) := by
  induction paths with
  | nil => exact Keeps.pure ()
  | cons path paths ih =>
    obtain ⟨⟨hadd, hremove⟩, hpaths⟩ := List.forall_mem_cons.mp h
    have hpath : Keeps Inv (release pf path) := by
      refine keeps_exist.bind fun isLocked => Keeps.ite ?_ (Keeps.pure ())
      exact (keeps_loadLockFile _ _).bind fun lock => (hadd lock.2).bind fun _ => hremove
    exact hpath.bind fun _ => ih hpaths

/-- **Shutting down** touches the managed files that are locked, and their locks. -/
theorem tidy_cleanUp (hmanaged : Manageable managed) {folders : List FilePath}
    (hsub : folders ⊆ managed) :
    Triple (Tidy pf managed base) (cleanUp pf folders) (fun _ => Tidy pf managed base)
      (Spared managed base) := by
  refine (tidy_enumerate hsub).bind fun paths => Triple.assuming fun hpaths => ?_
  refine tidy_thinned hpaths
    (fun p hp => ⟨belongs_lock hp, hmanaged.not_listable_lock hp⟩)
    (fun r hr hlock f => ?_) fun r hr f => ?_
  · refine keeps_releaseEach fun p hp => ⟨fun perms => keeps_permissions _ ?_, keeps_remove ?_⟩
    · exact ne_of_mem_of_not_mem hp hr
    · exact ne_of_mem_of_not_mem (List.mem_map_of_mem hp) hlock
  · refine keeps_releaseEach fun p hp => ⟨fun perms => ?_, keeps_thinned_remove⟩
    have hne : p ≠ lockFilePath r := (hmanaged.lock_ne hr (hpaths p hp).listable).symm
    exact keeps_thinned fun g => keeps_permissions _ hne

end Release

/-! ## A node and its sweeper -/

namespace Managers

section Reports

variable (env : Circumstances)

/-- What a callback sends goes to everyone. -/
def broadcast : List AnyMessage → ManagersM Unit
  | [] => pure ()
  | m :: rest => do
    send env m .ipv6Unspecified
    broadcast rest

/-- The callbacks of these events. -/
def onEvents (mtime : FilePath → FileTime) (readings : SweepEvent → Readings) :
    List SweepEvent → ManagersM Unit
  | [] => pure ()
  | event :: rest => do
    let sent ← onFiles (callback env.host mtime (readings event) event)
    broadcast env sent
    onEvents mtime readings rest

/-- What a sweep enumerates. -/
def listing (total : Bool) : ManagersM (List FilePath) := do
  let s ← get
  if total then onFiles (Fs.enumerateAllFiles s.folders) else pure []

/-- A frame has arrived from the peer at this index. The thread prints a `ZTError` and goes on. -/
def receiveFrame (index : Nat) (data memory : Bytes) : ManagersM Unit := fun s =>
  match processMessage env index data memory s with
  | .error .zt t => .ok () t
  | result => result

end Reports

end Managers

/-- A node with its sweeper, and whether it runs. -/
structure Member extends Managers where
  sweeper : FilesystemSweeper
  running : Bool

/-- What may change a member, or throw. -/
abbrev MemberM := EStateM Exn Member

namespace Member

open Managers

def onManagers {α : Type} (x : ManagersM α) : MemberM α := fun s =>
  match x s.toManagers with
  | .ok a managers => .ok a { s with toManagers := managers }
  | .error e managers => .error e { s with toManagers := managers }

/-- As a sweep finds it. -/
def station (s : Member) (mtime : FilePath → FileTime) : Station :=
  ⟨s.toNode, s.folders, mtime, s.sweeper⟩

/-- The sweeper after a sweep, unless an exception has left it. -/
def keep : Option FilesystemSweeper → MemberM Unit
  | some sweeper => modify fun s => { s with sweeper }
  | none => throw .filesystem

def sweep (env : Circumstances) (mtime : FilePath → FileTime) (call : SweepCall) :
    MemberM Unit := do
  let paths ← onManagers (listing call.total)
  let s ← get
  let found := s.sweeper.sweep ((s.station mtime).surroundings call paths)
  onManagers (onEvents env mtime call.readings found.1)
  keep found.2

/-- The end of `~MessageManager`, and of the program. -/
def quit (pf : Platform) : MemberM Unit := do
  let s ← get
  onManagers (onFiles (cleanUp pf s.folders))
  modify fun s => { s with running := false }

theorem onManagers_eq_ok {α : Type} {x : ManagersM α} {s t : Member} {a : α}
    (h : onManagers x s = .ok a t) :
    ∃ managers, x s.toManagers = .ok a managers ∧ t = { s with toManagers := managers } := by
  unfold onManagers at h
  split at h
  · next b managers hx =>
    obtain ⟨rfl, rfl⟩ := EStateM.Result.ok.inj h
    exact ⟨managers, hx, rfl⟩
  · cases h

theorem keep_eq_ok {sweeper? : Option FilesystemSweeper} {s t : Member}
    (h : keep sweeper? s = .ok () t) :
    ∃ sweeper, sweeper? = some sweeper ∧ t = { s with sweeper } := by
  cases sweeper? with
  | none => cases h
  | some sweeper =>
    obtain ⟨-, rfl⟩ := EStateM.Result.ok.inj h
    exact ⟨sweeper, rfl, rfl⟩

section Sweep

variable {env : Circumstances} {mtime : FilePath → FileTime} {call : SweepCall} {s t : Member}

/-- Sending does not touch the files. -/
theorem broadcast_files {sent : List AnyMessage} {s t : Managers}
    (h : broadcast env sent s = .ok () t) : t.files = s.files := by
  induction sent generalizing s with
  | nil =>
    obtain ⟨-, rfl⟩ := EStateM.Result.ok.inj h
    rfl
  | cons m rest ih =>
    obtain ⟨⟨⟩, s₁, hsend, hrest⟩ := bind_eq_ok h
    exact (ih hrest).trans (send_files hsend)

/-- The callbacks of a sweep, with what they send. -/
theorem onEvents_eq_ok {readings : SweepEvent → Readings} {events : List SweepEvent}
    {s t : Managers} (h : onEvents env mtime readings events s = .ok () t) :
    ∃ sent, callbacks env.host mtime readings s.files events = (sent, some t.files) := by
  induction events generalizing s with
  | nil =>
    obtain ⟨-, rfl⟩ := EStateM.Result.ok.inj h
    exact ⟨[], rfl⟩
  | cons event rest ih =>
    obtain ⟨sent, s₁, hcallback, h⟩ := bind_eq_ok h
    obtain ⟨⟨⟩, s₂, hsent, hrest⟩ := bind_eq_ok h
    obtain ⟨files, hfiles, rfl⟩ := onFiles_eq_ok hcallback
    have hsame : s₂.files = files := broadcast_files hsent
    obtain ⟨more, hmore⟩ := ih hrest
    rw [hsame] at hmore
    refine ⟨sent ++ more, ?_⟩
    rw [callbacks, hfiles]
    dsimp only
    rw [hmore]

/-- What is enumerated is what the station lists. -/
theorem listing_eq_ok (mtime : FilePath → FileTime) {total : Bool} {paths : List FilePath}
    (h : onManagers (listing total) s = .ok paths t) :
    t = s ∧ (if total then (s.station mtime).listing else some []) = some paths := by
  obtain ⟨managers, hlisting, rfl⟩ := onManagers_eq_ok h
  cases total with
  | false =>
    obtain ⟨rfl, rfl⟩ := EStateM.Result.ok.inj hlisting
    exact ⟨rfl, rfl⟩
  | true =>
    obtain ⟨hrun, rfl⟩ := onFiles_enumerate hlisting
    exact ⟨rfl, congrArg value? hrun⟩

/-- **A sweep that returns** is one of the station, whatever becomes of what its callbacks send. -/
theorem sweep_station (h : sweep env mtime call s = .ok () t) : ∃ sent,
    (s.station mtime).sweep env.host call = (sent, some { s.station mtime with
      node := { s.toNode with files := t.files }
      sweeper := t.sweeper }) := by
  obtain ⟨paths, s₁, hlisting, hrest⟩ := bind_eq_ok h
  obtain ⟨rfl, hpaths⟩ := listing_eq_ok mtime hlisting
  obtain ⟨s₂, s₃, hget, hbody⟩ := bind_eq_ok hrest
  obtain ⟨rfl, rfl⟩ := EStateM.Result.ok.inj hget
  obtain ⟨⟨⟩, s₄, hevents, hkeep⟩ := bind_eq_ok hbody
  obtain ⟨managers, hrun, rfl⟩ := onManagers_eq_ok hevents
  obtain ⟨sweeper, hfound, rfl⟩ := keep_eq_ok hkeep
  obtain ⟨sent, hsent⟩ := onEvents_eq_ok hrun
  have hcallbacks : callbacks env.host (s₁.station mtime).mtime call.readings
      (s₁.station mtime).node.files
      ((s₁.station mtime).sweeper.sweep ((s₁.station mtime).surroundings call paths)).1 =
    (sent, some managers.files) := hsent
  have hsweeper : ((s₁.station mtime).sweeper.sweep
      ((s₁.station mtime).surroundings call paths)).2 = some sweeper := hfound
  refine ⟨sent, ?_⟩
  rw [Station.sweep, hpaths]
  dsimp only
  rw [hcallbacks, hsweeper]
  rfl

end Sweep

/-! ## The network -/

section Network

variable {ν : Type}

/-- What a running node may do next. -/
inductive Acts (pf : Platform) (s : ν → Member) (v : ν) : MemberM Unit → Prop
  /-- The main thread processes a message. -/
  | process (env : Circumstances) (hpf : env.host.platform = pf) :
    Acts pf s v (onManagers (processNextMessage env))
  | sweep (env : Circumstances) (hpf : env.host.platform = pf) (mtime : FilePath → FileTime)
      (call : SweepCall) : Acts pf s v (sweep env mtime call)
  /-- It connects to its gateway. -/
  | connect (socket : Socket) (remoteIP : IpAddress) (grows : Bool) :
    Acts pf s v (onManagers (onPeerManager (PeerManager.connectTo socket remoteIP grows)))
  /-- A connection is accepted. There are no more peers than a vector can have. -/
  | accept (a : Arrival) (hpf : a.env.host.platform = pf)
      (hpeers : SizeFits (s v).peerManager.peers.length) :
    Acts pf s v (onManagers (acceptConnection a))
  /-- A peer gets something that has been written somewhere. -/
  | receive (env : Circumstances) (hpf : env.host.platform = pf) (u : ν) {w : Socket × Bytes}
      (hw : w ∈ (s u).written) (index : Nat) (memory : Bytes) :
    Acts pf s v (onManagers (receiveFrame env index w.2 memory))
  /-- A peer finds its link lost. -/
  | lose (env : Circumstances) (ip : IpAddress) :
    Acts pf s v (onManagers (emplace env disconnectPriority (.message (linkLostOf ip))))
  | quit : Acts pf s v (quit pf)

variable [DecidableEq ν]

/-- What happens next. -/
inductive Step (pf : Platform) (managed : List FilePath) (s : ν → Member) : (ν → Member) → Prop
  | acts (v : ν) (hrunning : (s v).running = true) {x : MemberM Unit} (hx : Acts pf s v x)
      {t : Member} (hrun : x (s v) = .ok () t) : Step pf managed s (Function.update s v t)
  /-- An exception ends the program. -/
  | dies (v : ν) (hrunning : (s v).running = true) {x : MemberM Unit} (hx : Acts pf s v x)
      {e : Exn} {t : Member} (hrun : x (s v) = .error e t) :
    Step pf managed s (Function.update s v { t with running := false })
  /-- A user creates, changes or removes managed files. -/
  | edits (v : ν) (files : FileSystem)
      (hfiles : ∀ q, files.file? q ≠ (s v).files.file? q → Nameable managed q) :
    Step pf managed s (Function.update s v { s v with files })

end Network

/-- A node as it starts: it manages some of the folders, nothing has reached it, and what it finds
in the folders can be sent. -/
structure Starts (pf : Platform) (managed : List FilePath) (s : Member) : Prop where
  folders : s.folders ⊆ managed
  size : SizeFits s.folders.length
  files : ∀ p, Listable managed p → s.files.file? p ≠ none → Nameable managed p
  locks : ∀ p, Listable managed p → ∀ lock perms,
    lockRecord pf s.files p = some (lock, perms) → Confined managed (.file lock)
  queue : s.queue = []
  oldMessages : s.oldMessages = []
  written : s.written = []
  sweeper : s.sweeper = {}

/-! ## One node -/

/-- It knows of nothing but managed files. -/
structure Innocent (pf : Platform) (managed : List FilePath) (base : FileSystem) (s : Member) :
    Prop where
  contained : Contained pf managed base s.toManagers
  tracks : TracksOnly (Nameable managed) s.sweeper

section Parts

variable {pf : Platform} {managed : List FilePath} {base : FileSystem} {env : Circumstances}
  {α : Type} {s : Member}

/-- What the managers do leaves the sweeper. -/
theorem triple_onManagers {x : ManagersM α} {P : Managers → Prop} {R : α → Prop}
    (h : Triple (fun s => Contained pf managed base s ∧ P s) x
      (fun a s => Contained pf managed base s ∧ R a) (Unspoilt pf managed base)) :
    Triple (fun s => Innocent pf managed base s ∧ P s.toManagers) (onManagers x)
      (fun a s => Innocent pf managed base s ∧ R a)
      (fun s => Unspoilt pf managed base s.toManagers) where
  ok {s t a} hs hrun := by
    obtain ⟨managers, hx, rfl⟩ := onManagers_eq_ok hrun
    obtain ⟨hcontained, hR⟩ := h.ok ⟨hs.1.contained, hs.2⟩ hx
    exact ⟨⟨hcontained, hs.1.tracks⟩, hR⟩
  error {s t e} hs hrun := by
    unfold onManagers at hrun
    split at hrun
    · cases hrun
    · next e' managers hx =>
      obtain ⟨-, rfl⟩ := EStateM.Result.error.inj hrun
      exact h.error ⟨hs.1.contained, hs.2⟩ hx

theorem contains_onManagers {x : ManagersM α} (h : Contains pf managed base x) :
    Triple (Innocent pf managed base) (onManagers x) (fun _ => Innocent pf managed base)
      (fun s => Unspoilt pf managed base s.toManagers) :=
  (triple_onManagers (P := fun _ => True) (R := fun _ => True)
    (h.weaken (fun _ hs => hs.1) fun _ _ hs => ⟨hs, trivial⟩)).weaken
      (fun _ hs => ⟨hs, trivial⟩) fun _ _ hs => hs.1

theorem triple_listing (total : Bool) : Triple (Contained pf managed base) (listing total)
    (fun paths s => Contained pf managed base s ∧ ∀ p ∈ paths, Nameable managed p)
    (Unspoilt pf managed base) := by
  refine Triple.get_bind fun s hs => Triple.ite (triple_onFiles (tidy_enumerate hs.folders)) ?_
  exact Triple.pure fun _ hs => ⟨hs, List.forall_mem_nil _⟩

section Sending

variable (hpf : env.host.platform = pf) (hmanaged : Manageable managed)
include hpf hmanaged

theorem contains_broadcast {sent : List AnyMessage} (hsent : ∀ m ∈ sent, Confined managed m) :
    Contains pf managed base (broadcast env sent) := by
  induction sent with
  | nil => exact Triple.pure fun _ hs => hs
  | cons m rest ih =>
    obtain ⟨hm, hrest⟩ := List.forall_mem_cons.mp hsent
    exact (contains_send hpf hmanaged hm _).bind fun _ => ih hrest

theorem contains_onEvents (mtime : FilePath → FileTime) (readings : SweepEvent → Readings)
    {events : List SweepEvent} (hevents : ∀ event ∈ events, Nameable managed event.path) :
    Contains pf managed base (onEvents env mtime readings events) := by
  induction events with
  | nil => exact Triple.pure fun _ hs => hs
  | cons event rest ih =>
    obtain ⟨hevent, hrest⟩ := List.forall_mem_cons.mp hevents
    refine (triple_onFiles (tidy_callback mtime (readings event) hevent)).bind fun sent =>
      Triple.assuming fun hsent => ?_
    exact (contains_broadcast hpf hmanaged hsent).bind fun _ => ih hrest

theorem contains_receiveFrame {data : Bytes} (hdata : ConfinedFrame pf managed data) (index : Nat)
    (memory : Bytes) : Contains pf managed base (receiveFrame env index data memory) := by
  refine contains_of_keeps fun s hs => ?_
  have hfinal := keeps_contained_processMessage hpf hmanaged hdata index memory s hs
  unfold receiveFrame
  split
  · next t hthrown => rwa [hthrown] at hfinal
  · exact hfinal

/-- **A sweep** reports managed files, and stores the hashes of managed files. -/
theorem contains_sweep (mtime : FilePath → FileTime) (call : SweepCall) :
    Triple (Innocent pf managed base) (sweep env mtime call) (fun _ => Innocent pf managed base)
      (fun s => Unspoilt pf managed base s.toManagers) := by
  have hlist : Triple (Innocent pf managed base) (onManagers (listing call.total))
      (fun paths s => Innocent pf managed base s ∧ ∀ p ∈ paths, Nameable managed p)
      (fun s => Unspoilt pf managed base s.toManagers) :=
    (triple_onManagers (P := fun _ => True)
      ((triple_listing _).weaken (fun _ hs => hs.1) fun _ _ hs => hs)).weaken
        (fun _ hs => ⟨hs, trivial⟩) fun _ _ hs => hs
  refine hlist.bind fun paths => Triple.assuming fun hpaths => Triple.get_bind fun s hs => ?_
  have hlisting : ∀ file ∈ ((s.station mtime).surroundings call paths).listing,
      Nameable managed file.1 := List.forall_mem_map.mpr hpaths
  refine (contains_onManagers (contains_onEvents hpf hmanaged mtime call.readings
    fun event hevent => hs.tracks.event hlisting hevent)).bind fun _ => ?_
  cases hfound : (s.sweeper.sweep ((s.station mtime).surroundings call paths)).2 with
  | none => exact Triple.throw fun _ hs => hs.contained.unspoilt
  | some sweeper =>
    have hkeep : Keeps (Innocent pf managed base) (keep (some sweeper)) := fun _ hs' =>
      ⟨hs'.contained, hs.tracks.sweep hlisting hfound⟩
    exact hkeep.triple fun _ hs => hs.contained.unspoilt

omit hpf in
theorem contains_quit : Triple (Innocent pf managed base) (quit pf)
    (fun _ => Innocent pf managed base) (fun s => Unspoilt pf managed base s.toManagers) := by
  refine Triple.get_bind fun s hs => ?_
  have hstop : Keeps (Innocent pf managed base)
      (modify fun s => { s with running := false } : MemberM Unit) := fun _ hs =>
    ⟨hs.contained, hs.tracks⟩
  exact (contains_onManagers (contains_onFiles (tidy_cleanUp hmanaged hs.contained.folders))).bind
    fun _ => hstop.triple fun _ hs => hs.contained.unspoilt

end Sending

end Parts

/-! ## All nodes -/

section Network

variable {ν : Type} {pf : Platform} {managed : List FilePath} {base : ν → FileSystem}
  {fs fs' : FileSystem} {s t : ν → Member} {v : ν}

/-- A node that runs knows of nothing but managed files, and one that has ended has left the rest
of its disk as it was. -/
structure Harmless (pf : Platform) (managed : List FilePath) (base : FileSystem) (s : Member) :
    Prop where
  unspoilt : Unspoilt pf managed base s.toManagers
  innocent : s.running = true → Innocent pf managed base s

/-- Whatever its nodes do next, the network stays so. -/
def AllHarmless (pf : Platform) (managed : List FilePath) (base : ν → FileSystem) (s : ν → Member) :
    Prop := ∀ v, Harmless pf managed (base v) (s v)

theorem Innocent.harmless {s : Member} (h : Innocent pf managed (base v) s) :
    Harmless pf managed (base v) s :=
  ⟨h.contained.unspoilt, fun _ => h⟩

/-- What a node that runs may do next. -/
theorem contains_acts (hmanaged : Manageable managed)
    (hs : AllHarmless pf managed base s) {x : MemberM Unit} (hx : Acts pf s v x) :
    Triple (fun s' => Innocent pf managed (base v) s' ∧ s' = s v) x
      (fun _ => Innocent pf managed (base v))
      (fun s' => Unspoilt pf managed (base v) s'.toManagers) := by
  have hact {x : MemberM Unit} (h : Triple (Innocent pf managed (base v)) x
      (fun _ => Innocent pf managed (base v))
      (fun s' => Unspoilt pf managed (base v) s'.toManagers)) :
      Triple (fun s' => Innocent pf managed (base v) s' ∧ s' = s v) x
        (fun _ => Innocent pf managed (base v))
        (fun s' => Unspoilt pf managed (base v) s'.toManagers) :=
    h.weaken (fun _ hs => hs.1) fun _ _ hs => hs
  cases hx with
  | process env hpf => exact hact (contains_onManagers (contains_processNextMessage hpf hmanaged))
  | sweep env hpf mtime call => exact hact (contains_sweep hpf hmanaged mtime call)
  | connect socket remoteIP grows =>
    exact hact (contains_onManagers (contains_of_keeps (keeps_contained_onPeerManager _)))
  | accept a hpf hpeers =>
    refine (triple_onManagers (P := fun s => SizeFits s.peerManager.peers.length)
      (R := fun _ => True) ?_).weaken ?_ fun _ _ hs => hs.1
    · exact (contains_acceptConnection hpf hmanaged).weaken (fun _ hs => hs)
        fun _ _ hs => ⟨hs, trivial⟩
    · rintro _ ⟨hinnocent, rfl⟩
      exact ⟨hinnocent, hpeers⟩
  | receive env hpf u hw index memory =>
    have hdata := (hs u).unspoilt.written _ hw
    exact hact (contains_onManagers (contains_receiveFrame hpf hmanaged hdata index memory))
  | lose env ip =>
    have hlost : Confined managed (.message (linkLostOf ip)) :=
      confined_message (Or.inr (Or.inr rfl))
    exact hact (contains_onManagers (contains_of_keeps (keeps_contained_emplace _ hlost)))
  | quit => exact hact (contains_quit hmanaged)

/-- Users that edit managed files leave the rest. -/
theorem spared_edited (h : Spared managed (base v) fs)
    (hedited : ∀ q, fs'.file? q ≠ fs.file? q → Nameable managed q) :
    Spared managed (base v) fs' := by
  intro q hq
  have hsame : fs'.file? q = fs.file? q := by
    by_contra hne
    exact hq (belongs_file (hedited q hne).listable)
  exact hsame.trans (h q hq)

/-- And they leave the locks. -/
theorem tidy_edited (hmanaged : Manageable managed) (h : Tidy pf managed (base v) fs)
    (hedited : ∀ q, fs'.file? q ≠ fs.file? q → Nameable managed q) :
    Tidy pf managed (base v) fs' := by
  refine ⟨spared_edited h.spared hedited, fun p hp hfile => ?_, fun p hp lock perms hrecord => ?_⟩
  · by_cases hsame : fs'.file? p = fs.file? p
    · exact h.files p hp (hsame ▸ hfile)
    · exact hedited p hsame
  · have hsame : fs'.file? (lockFilePath p) = fs.file? (lockFilePath p) := by
      by_contra hne
      exact hmanaged.not_listable_lock hp (hedited _ hne).listable
    exact h.locks p hp lock perms ((lockRecord_congr hsame).symm.trans hrecord)

variable [DecidableEq ν]

theorem harmless_step (hmanaged : Manageable managed)
    (hs : AllHarmless pf managed base s) (hstep : Step pf managed s t) :
    AllHarmless pf managed base t := by
  have hupdate {v : ν} {s' : Member} (h : Harmless pf managed (base v) s') :
      AllHarmless pf managed base (Function.update s v s') := by
    intro u
    by_cases hu : u = v
    · subst hu
      rwa [Function.update_self]
    · rw [Function.update_of_ne hu]
      exact hs u
  cases hstep with
  | acts v hrunning hx hrun =>
    have hv := (hs v).innocent hrunning
    have ht := (contains_acts hmanaged hs hx).ok ⟨hv, rfl⟩ hrun
    exact hupdate ht.harmless
  | dies v hrunning hx hrun =>
    have hv := (hs v).innocent hrunning
    have ht := (contains_acts hmanaged hs hx).error ⟨hv, rfl⟩ hrun
    exact hupdate ⟨ht, nofun⟩
  | edits v files hfiles =>
    refine hupdate ⟨⟨spared_edited (hs v).unspoilt.spared hfiles, (hs v).unspoilt.written⟩, ?_⟩
    intro hrunning
    obtain ⟨⟨hfolders, hsize, hdisk, hqueue, hold, hwritten⟩, htracks⟩ := (hs v).innocent hrunning
    exact ⟨⟨hfolders, hsize, tidy_edited hmanaged hdisk hfiles, hqueue, hold, hwritten⟩, htracks⟩

theorem Starts.harmless {s : Member} (h : Starts pf managed s) :
    Harmless pf managed s.files s := by
  have hdisk : Tidy pf managed s.files s.files := ⟨fun _ _ => rfl, h.files, h.locks⟩
  have hwritten : ∀ w ∈ s.written, ConfinedFrame pf managed w.2 := by
    rw [h.written]
    exact List.forall_mem_nil _
  refine ⟨⟨hdisk.spared, hwritten⟩, fun _ => ⟨⟨h.folders, h.size, hdisk, ?_, ?_, hwritten⟩, ?_⟩⟩
  · rw [h.queue]
    exact List.forall_mem_nil _
  · rw [h.oldMessages]
    exact List.forall_mem_nil _
  · rw [h.sweeper]
    exact ⟨fun p hp => absurd hp Std.TreeMap.not_mem_emptyc,
      fun p hp => absurd hp Std.TreeMap.not_mem_emptyc⟩

/-- **The rest of the disk is left alone.** Whatever the nodes of a network do and in whatever
order, no node changes a file that does not belong to one of the folders they manage between them,
nor comes to manage any other folder. -/
theorem rest_untouched {n : Nat} (hmanaged : Manageable managed)
    (hs : ∀ v, Starts pf managed (s v)) (run : Run (Step pf managed) n s t) (v : ν) :
    (∀ q, ¬ Belongs managed q → (t v).files.file? q = (s v).files.file? q) ∧
      ((t v).running = true → (t v).folders ⊆ managed) := by
  have hstart : AllHarmless pf managed (fun v => (s v).files) s := fun v => (hs v).harmless
  have ht := run.invariant hstart fun _ _ hinv hstep => harmless_step hmanaged hinv hstep
  exact ⟨(ht v).unspoilt.spared, fun hrunning => ((ht v).innocent hrunning).contained.folders⟩

end Network

/-! ## Two nodes -/

/-- A node with the one file `docs/a`. -/
def docsMember : Member where
  toManagers := joinedDocs
  sweeper := {}
  running := true

/-- The clocks stand still. -/
def firstSweep : SweepCall := ⟨true, 0, fun _ => ⟨0, 0, 0⟩⟩

theorem docs_manageable : Manageable joinedDocs.folders where
  named := by decide
  normal := List.forall_mem_singleton.mpr ⟨⟨[100, 111, 99, 115]⟩, by decide, by decide⟩
  fits := List.forall_mem_singleton.mpr (by decide)

theorem docsMember_starts : Starts .littleEndian joinedDocs.folders docsMember where
  folders := List.Subset.refl _
  size := by decide
  files p hp hfile := by
    have hdocs : FileSystem.docsA = p := by
      by_contra hne
      exact hfile ((FileSystem.file?_docs ⟨[], 0o644⟩ p).trans (if_neg hne))
    subst hdocs
    exact ⟨hp, ⟨⟨[100, 111, 99, 115, 47, 97]⟩, by decide, by decide⟩, by decide⟩
  locks p hp lock perms hrecord := by
    have hmeta := wnts_mem_lockFilePath (hp.managed docs_manageable.named).inFolder
    have hne : FileSystem.docsA ≠ lockFilePath p := fun heq =>
      absurd (heq ▸ hmeta) (by decide)
    have hnone : docsMember.files.file? (lockFilePath p) = none :=
      (FileSystem.file?_docs ⟨[], 0o644⟩ _).trans (if_neg hne)
    rw [lockRecord_none hnone] at hrecord
    cases hrecord
  queue := rfl
  oldMessages := rfl
  written := rfl
  sweeper := rfl

/-- Once it has connected to the other one. -/
def connectedDocs : Member := { docsMember with
  peerManager := {
    peers := [{ socket := PeerManager.second }]
    gatewayIP := PeerManager.second.remoteIP } }

theorem connectedDocs_sweeps : ∃ swept,
    sweep readerCircumstances (fun _ => 0) firstSweep connectedDocs = .ok () swept ∧
      swept.written ≠ [] := by
  have hvalue : value? (sweep readerCircumstances (fun _ => 0) firstSweep connectedDocs) =
      some () := by decide +kernel
  have hwritten : (final (sweep readerCircumstances (fun _ => 0) firstSweep
      connectedDocs)).written ≠ [] := by decide +kernel
  exact ⟨_, eq_ok_of_value hvalue, hwritten⟩

/-- One of them connects to the other, sweeps, and sends what it finds. -/
theorem swept_untouched : ∃ t : Bool → Member,
    Run (Step .littleEndian joinedDocs.folders) 2 (fun _ => docsMember) t ∧
      (t true).written ≠ [] ∧ ∀ v q, ¬ Belongs joinedDocs.folders q →
        (t v).files.file? q = docsMember.files.file? q := by
  obtain ⟨swept, hsweep, hwritten⟩ := connectedDocs_sweeps
  have hconnect : onManagers (onPeerManager (PeerManager.connectTo PeerManager.second
      PeerManager.second.remoteIP true)) docsMember = .ok () connectedDocs := rfl
  have hfirst : Run (Step .littleEndian joinedDocs.folders) 1 (fun _ : Bool => docsMember)
      (Function.update (fun _ => docsMember) true connectedDocs) :=
    .snoc (.nil _) (.acts true rfl (.connect _ _ _) hconnect)
  have hrun : Run (Step .littleEndian joinedDocs.folders) 2 (fun _ : Bool => docsMember)
      (Function.update (Function.update (fun _ => docsMember) true connectedDocs) true swept) := by
    have hself : Function.update (fun _ => docsMember) true connectedDocs true = connectedDocs :=
      Function.update_self ..
    refine .snoc hfirst (.acts true ?_ (.sweep readerCircumstances rfl (fun _ => 0) firstSweep) ?_)
    · exact (congrArg running hself).trans rfl
    · exact (congrArg (sweep readerCircumstances (fun _ => 0) firstSweep) hself).trans hsweep
  refine ⟨_, hrun, ?_, fun v q hq => ?_⟩
  · rwa [Function.update_self]
  · exact (rest_untouched docs_manageable (fun _ => docsMember_starts) hrun v).1 q hq

end Member

end WhisperNet
