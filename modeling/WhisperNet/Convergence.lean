import Mathlib.Data.List.DropRight
import WhisperNet.Node

/-!
# Which content a file ends up with

Several changes to the content of one file arrive, in any order and between any calls of
`processNextMessage`. The handler makes each change as it comes, without a look at its timestamp,
and `PrioComp` puts the *newest* of the queued ones at the front. So what is queued together is made
from the newest to the oldest, and what the file ends up with is the oldest change of those that
were queued when the last one had arrived.

* `Settling.call` — one call makes the newest of the queued changes.
* `drained` — when only calls follow, the oldest change in the queue is the last one made.
* `converges_iff` — the file ends up with the newest content exactly if that oldest change has it.
-/

namespace WhisperNet

open Bin MessageManager Node

/-! ## One file -/

/-- What is in the file. -/
def FileSystem.content? (fs : FileSystem) (p : FilePath) : Option Bytes :=
  (fs.file? p).map File.content

/-- An existing file that may be written to and is not locked. -/
structure Writable (host : Host) (fs : FileSystem) (p : FilePath) : Prop where
  managed : Managed p
  file : ∃ f, fs.file? p = some f ∧ host.CanWrite f.perms
  unlocked : LockState host.platform fs p none

/-- A change to the content of `p`. -/
structure Edits (p : FilePath) (m : FileContentMessage) : Prop where
  type : m.type = .contentChange
  target : filePath m.targetFile = p

section File

variable {host : Host} {fs : FileSystem} {p : FilePath} {m : FileContentMessage}

/-- A change is made, whatever its timestamp, and the next one can be. -/
theorem Writable.edit (h : Writable host fs p) (hm : Edits p m) :
    ∃ fs', processContentFileMessage host true m fs = .ok true fs' ∧ Writable host fs' p ∧
      fs'.content? p = some m.fileContent := by
  obtain ⟨f, hf, hw⟩ := h.file
  have hask := permissionsToAdd_ok m.originatorNode h.unlocked
  have hw0 : host.CanWrite (f.perms ||| 0) := by simpa using hw
  obtain ⟨fs', hrun, hset⟩ := processContentFileMessage_writes hask hm.target
    h.managed.parent_ne_nil hf hw0
  have hperms : (f.perms ||| 0) &&& ~~~0 = f.perms := by simp
  rw [hperms] at hset
  refine ⟨fs', hrun, ⟨h.managed, ⟨_, hset.here, hw⟩, ?_, ?_⟩, ?_⟩
  · rw [hset.elsewhere (lockFilePath_ne h.managed).symm]
    exact h.unlocked.1
  · rw [hset.dirs]
    exact h.unlocked.2
  · rw [FileSystem.content?, hset.here]
    rfl

end File

/-! ## The queue -/

/-- A change in the queue. -/
def entry (m : FileContentMessage) : Prio := (filePriority, some (.fileContent m))

/-- The timestamp an entry is compared by. -/
def stamp (e : Prio) : Int := (e.2.bind AnyMessage.filePart).elim 0 (·.timestamp.toInt)

theorem entry_injective : Function.Injective entry := by
  intro m m' h
  exact AnyMessage.fileContent.inj (Option.some_inj.mp (congrArg Prod.snd h))

theorem hasFileType_edit {m : FileContentMessage} (h : m.type = .contentChange) :
    (AnyMessage.fileContent m).hasFileType = true := by
  show (m.type.toByte &&& MessageType.fileTypes != 0) = true
  rw [h]
  decide

theorem prioComp_entry (undefined : Prio → Prio → Bool) {m m' : FileContentMessage}
    (hm : m.type = .contentChange) (hm' : m'.type = .contentChange) :
    PrioComp undefined (entry m) (entry m') = true ↔ stamp (entry m) < stamp (entry m') := by
  rw [entry, entry, prioComp_files undefined (hasFileType_edit hm) (hasFileType_edit hm') rfl rfl,
    decide_eq_true_iff, sub_neg]
  rfl

/-- Changes are ordered by their timestamps. -/
theorem orders_entries (undefined : Prio → Prio → Bool) {p : FilePath} {queue : List Prio}
    (h : ∀ e ∈ queue, ∃ m, e = entry m ∧ Edits p m) : Heap.Orders (PrioComp undefined) queue := by
  apply Heap.Orders.of_key stamp
  intro e he e' he'
  obtain ⟨m, rfl, hm⟩ := h e he
  obtain ⟨m', rfl, hm'⟩ := h e' he'
  exact prioComp_entry undefined hm.type hm'.type

/-! ## Every step -/

/-- The node has finished connecting; some of the changes `ms` wait in the queue. -/
structure Settling (env : Env) (p : FilePath) (ms : List FileContentMessage) (n : Node) :
    Prop where
  connected : n.isFinishedConnecting = true
  writable : Writable env.host n.files p
  queued : ∀ e ∈ n.queue, ∃ m ∈ ms, e = entry m
  edits : ∀ m ∈ ms, Edits p m
  heap : Heap.IsHeap (PrioComp env.undefined) n.queue
  distinct : (n.queue.map stamp).Nodup

section Steps

variable {env : Env} {p : FilePath} {ms : List FileContentMessage} {n n' t : Node}
  {m : FileContentMessage} {rest : List Prio}

theorem Settling.orders (h : Settling env p ms n) :
    Heap.Orders (PrioComp env.undefined) n.queue := by
  apply orders_entries env.undefined (p := p)
  intro e he
  obtain ⟨m, hm, rfl⟩ := h.queued e he
  exact ⟨m, rfl, h.edits m hm⟩

/-- Another change arrives. -/
theorem Settling.arrive (h : Settling env p ms n) (hm : Edits p m)
    (hnew : ∀ m' ∈ ms, m'.timestamp ≠ m.timestamp)
    (hstep : Step env n (.arrive (.fileContent m)) n') : Settling env p (ms ++ [m]) n' := by
  have htype : (AnyMessage.fileContent m).base.type = .contentChange := hm.type
  have hperm := Heap.push_perm (PrioComp env.undefined) n.queue (entry m)
  have hedits : ∀ m' ∈ ms ++ [m], Edits p m' := by
    intro m' hm'
    rcases List.mem_append.mp hm' with hm' | hm'
    · exact h.edits m' hm'
    · rw [List.mem_singleton.mp hm']
      exact hm
  have hqueued : ∀ e ∈ entry m :: n.queue, ∃ m' ∈ ms ++ [m], e = entry m' := by
    intro e he
    rcases List.mem_cons.mp he with rfl | he
    · exact ⟨m, List.mem_append_right ms (List.mem_singleton_self m), rfl⟩
    · obtain ⟨m', hm', rfl⟩ := h.queued e he
      exact ⟨m', List.mem_append_left _ hm', rfl⟩
  rw [step_arrive hstep, htype]
  refine ⟨h.connected, h.writable, fun e he => hqueued e (hperm.mem_iff.mp he), hedits, ?_, ?_⟩
  · apply h.heap.push
    apply Heap.Orders.refines
    apply orders_entries env.undefined (p := p)
    intro e he
    obtain ⟨m', hm', rfl⟩ := hqueued e he
    exact ⟨m', rfl, hedits m' hm'⟩
  · apply ((hperm.map stamp).nodup_iff).mpr
    rw [List.map_cons, List.nodup_cons]
    refine ⟨fun hmem => ?_, h.distinct⟩
    obtain ⟨e, he, hstamp⟩ := List.mem_map.mp hmem
    obtain ⟨m', hm', rfl⟩ := h.queued e he
    exact hnew m' hm' (Int64.toInt_inj.mp hstamp)

/-- The front of the queue is the newest change in it. -/
theorem Settling.front_newest (h : Settling env p ms n) {e : Prio} (hq : n.queue = e :: rest) :
    ∀ e' ∈ rest, stamp e' ≤ stamp e := by
  intro e' he'
  obtain ⟨k, hk, hget⟩ := List.mem_iff_getElem.mp he'
  have hlen : k + 1 < n.queue.length := by
    rw [hq]
    exact Nat.succ_lt_succ hk
  have hgreatest := h.heap.greatest h.orders hlen
  rw [Heap.before_eq (Nat.zero_lt_of_lt hlen) hlen] at hgreatest
  have hfront : n.queue[0] = e := by simp [hq]
  have hother : n.queue[k + 1] = e' := by simp [hq, hget]
  rw [hfront, hother] at hgreatest
  obtain ⟨m, hm, rfl⟩ := h.queued e (hq ▸ List.mem_cons_self)
  obtain ⟨m', hm', rfl⟩ := h.queued e' (hq ▸ List.mem_cons_of_mem _ he')
  rw [← not_lt, ← prioComp_entry env.undefined (h.edits m hm).type (h.edits m' hm').type,
    hgreatest]
  exact Bool.false_ne_true

/-- One call makes the change at the front. -/
theorem Settling.makes (h : Settling env p ms n) (hq : n.queue = entry m :: rest) :
    ∃ n', Step env n .call n' ∧ Settling env p ms n' ∧
      n'.files.content? p = some m.fileContent ∧ n'.queue.Perm rest := by
  obtain ⟨m', hm', heq⟩ := h.queued (entry m) (hq ▸ List.mem_cons_self)
  obtain rfl := entry_injective heq
  have hm := h.edits m hm'
  obtain ⟨fs', hrun, hwritable, hcontent⟩ := h.writable.edit hm
  have hperm : (Heap.pop (PrioComp env.undefined) n.queue).Perm rest := Heap.perm_pop _ hq
  have hsub : ∀ e ∈ Heap.pop (PrioComp env.undefined) n.queue, e ∈ n.queue := fun e he =>
    hq ▸ List.mem_cons_of_mem _ (hperm.mem_iff.mp he)
  have hprocess : process env (some (.fileContent m)) (popped env n) =
      .ok true { popped env n with files := fs' } := by
    have hconnected : (popped env n).isFinishedConnecting = true := h.connected
    rw [process_contentChange _ _ hm.type, hconnected]
    exact onFiles_ok hrun
  refine ⟨{ popped env n with files := fs' }, call_ok hq hprocess, ⟨h.connected, hwritable,
    fun e he => h.queued e (hsub e he), h.edits, h.heap.pop h.orders.refines, ?_⟩, hcontent, hperm⟩
  have hdistinct := h.distinct
  rw [hq, List.map_cons, List.nodup_cons] at hdistinct
  exact (hperm.map stamp).nodup_iff.mpr hdistinct.2

theorem Settling.call (h : Settling env p ms n) (hq : n.queue = entry m :: rest)
    (hstep : Step env n .call n') :
    Settling env p ms n' ∧ n'.files.content? p = some m.fileContent ∧ n'.queue.Perm rest := by
  obtain ⟨n'', hstep', hmade⟩ := h.makes hq
  rwa [step_deterministic hstep hstep']

/-! ## Every run -/

/-- **What a run preserves.** -/
theorem Settling.run {events : List Event} {new : List FileContentMessage}
    (h : Settling env p ms n) (run : Trace (Step env) n events t)
    (hnew : arrivals events = new.map AnyMessage.fileContent) (hedits : ∀ m ∈ new, Edits p m)
    (hdistinct : ((ms ++ new).map (·.timestamp)).Nodup) : Settling env p (ms ++ new) t := by
  induction run generalizing ms new with
  | nil =>
    have hnil : new = [] := List.map_eq_nil_iff.mp hnew.symm
    rwa [hnil, List.append_nil]
  | @cons n n' t event events hstep rest ih =>
    cases event with
    | arrive m =>
      cases new with
      | nil => cases hnew
      | cons c new =>
        obtain ⟨rfl, hrest⟩ := List.cons_eq_cons.mp hnew
        have happend : ms ++ c :: new = (ms ++ [c]) ++ new := by simp
        rw [happend] at hdistinct ⊢
        have hfresh : ∀ m' ∈ ms, m'.timestamp ≠ c.timestamp := by
          rw [List.map_append, List.map_append, List.append_assoc, List.nodup_append] at hdistinct
          intro m' hm'
          exact hdistinct.2.2 _ (List.mem_map_of_mem hm') _ List.mem_cons_self
        have harrive := h.arrive (hedits c List.mem_cons_self) hfresh hstep
        exact ih harrive hrest (fun m hm => hedits m (List.mem_cons_of_mem c hm)) hdistinct
    | call =>
      have hcall : Settling env p ms n' := by
        cases hq : n.queue with
        | nil => rwa [call_empty hq hstep]
        | cons e rest =>
          obtain ⟨m, -, rfl⟩ := h.queued e (hq ▸ List.mem_cons_self)
          exact (h.call hq hstep).1
      exact ih hcall hnew hedits hdistinct

/-- Calls on an empty queue do nothing. -/
theorem idle {calls : List Event} (hcalls : ∀ e ∈ calls, e = .call) (hq : n.queue = [])
    (run : Trace (Step env) n calls t) : t = n := by
  induction run with
  | nil => rfl
  | @cons n n' t event calls hstep rest ih =>
    rw [hcalls event List.mem_cons_self] at hstep
    obtain rfl := call_empty hq hstep
    exact ih (fun e he => hcalls e (List.mem_cons_of_mem _ he)) hq

/-- **Draining.** When only calls follow, the oldest change in the queue is the last one made: it
comes to the front when it is alone. -/
theorem drained {calls : List Event} (h : Settling env p ms n) (hcalls : ∀ e ∈ calls, e = .call)
    (run : Trace (Step env) n calls t) (hdone : t.queue = []) (hm : entry m ∈ n.queue)
    (holdest : ∀ e ∈ n.queue, stamp (entry m) ≤ stamp e) :
    t.files.content? p = some m.fileContent := by
  induction run with
  | nil =>
    rw [hdone] at hm
    cases hm
  | @cons n n' t event calls hstep rest ih =>
    rw [hcalls event List.mem_cons_self] at hstep
    have hcalls' : ∀ e ∈ calls, e = .call := fun e he => hcalls e (List.mem_cons_of_mem _ he)
    cases hq : n.queue with
    | nil =>
      rw [hq] at hm
      cases hm
    | cons e others =>
      obtain ⟨front, -, rfl⟩ := h.queued e (hq ▸ List.mem_cons_self)
      obtain ⟨hn', hcontent, hperm⟩ := h.call hq hstep
      rw [hq] at hm holdest
      rcases List.mem_cons.mp hm with heq | hmem
      · -- The oldest change is also the newest: there is no other one.
        have halone : others = [] := by
          rw [List.eq_nil_iff_forall_not_mem]
          intro e he
          have hdistinct := h.distinct
          rw [hq, List.map_cons, List.nodup_cons] at hdistinct
          apply hdistinct.1
          have hle := holdest e (List.mem_cons_of_mem _ he)
          have hge := h.front_newest hq e he
          rw [heq] at hle
          rw [le_antisymm hle hge]
          exact List.mem_map_of_mem he
        have hempty : n'.queue = [] := by
          rw [halone] at hperm
          exact hperm.eq_nil
        rw [idle hcalls' hempty rest, hcontent, entry_injective heq]
      · apply ih hn' hcalls' hdone (hperm.mem_iff.mpr hmem)
        exact fun e he => holdest e (List.mem_cons_of_mem _ (hperm.mem_iff.mp he))

end Steps

/-! ## The last change -/

/-- What a node receives: changes to a file that is writable, with pairwise distinct timestamps,
in any order and between any calls. -/
structure Receives (env : Env) (p : FilePath) (ms : List FileContentMessage) (start : Node)
    (events : List Event) : Prop where
  connected : start.isFinishedConnecting = true
  writable : Writable env.host start.files p
  empty : start.queue = []
  arrive : arrivals events = ms.map AnyMessage.fileContent
  edits : ∀ m ∈ ms, Edits p m
  distinct : (ms.map (·.timestamp)).Nodup

/-- The events up to the last arrival. -/
def untilLastArrival (events : List Event) : List Event := events.rdropWhile (· = .call)

theorem arrivals_calls {calls : List Event} (h : ∀ e ∈ calls, e = .call) : arrivals calls = [] := by
  rw [arrivals, List.filterMap_eq_nil_iff]
  intro e he
  rw [h e he]

/-- The file has the content of the newest change. -/
def Converged (p : FilePath) (ms : List FileContentMessage) (t : Node) : Prop :=
  ∀ newest ∈ ms, (∀ m ∈ ms, m.timestamp ≤ newest.timestamp) →
    t.files.content? p = some newest.fileContent

/-- The oldest change in the queue has the content of the newest change of all. -/
def OldestIsNewest (ms : List FileContentMessage) (u : Node) : Prop :=
  ∀ newest ∈ ms, (∀ m ∈ ms, m.timestamp ≤ newest.timestamp) →
    ∀ oldest, entry oldest ∈ u.queue →
      (∀ m, entry m ∈ u.queue → oldest.timestamp ≤ m.timestamp) →
      oldest.fileContent = newest.fileContent

section Last

variable {env : Env} {p : FilePath} {ms : List FileContentMessage} {start u t : Node}
  {events : List Event}

theorem splitLast (events : List Event) :
    ∃ calls, untilLastArrival events ++ calls = events ∧ ∀ e ∈ calls, e = .call :=
  ⟨events.rtakeWhile (· = .call), List.rdropWhile_append_rtakeWhile, fun e he => by
    simpa using List.mem_rtakeWhile_imp he⟩

theorem arrivals_untilLastArrival (events : List Event) :
    arrivals (untilLastArrival events) = arrivals events := by
  obtain ⟨calls, hsplit, hcalls⟩ := splitLast events
  conv_rhs => rw [← hsplit, arrivals, List.filterMap_append]
  have hnone : calls.filterMap _ = [] := arrivals_calls hcalls
  rw [hnone, List.append_nil]
  rfl

theorem settling_start (h : Receives env p ms start events) : Settling env p [] start where
  connected := h.connected
  writable := h.writable
  queued e he := by
    rw [h.empty] at he
    cases he
  edits m hm := absurd hm List.not_mem_nil
  heap := by
    rw [h.empty]
    exact Heap.isHeap_nil
  distinct := by
    rw [h.empty]
    exact List.nodup_nil

/-- The last change has just arrived. -/
theorem queue_ne_nil (h : Receives env p ms start events) (hms : ms ≠ [])
    (last : Trace (Step env) start (untilLastArrival events) u) : u.queue ≠ [] := by
  have hne : untilLastArrival events ≠ [] := by
    intro hnil
    have harrive := arrivals_untilLastArrival events
    rw [hnil, h.arrive] at harrive
    exact hms (List.map_eq_nil_iff.mp harrive.symm)
  have hlast := List.rdropWhile_last_not _ _ hne
  rw [← List.dropLast_append_getLast hne] at last
  obtain ⟨s, -, htail⟩ := last.split
  cases htail with
  | cons hstep hnil =>
    cases hnil
    cases hevent : (untilLastArrival events).getLast hne with
    | call => exact absurd (decide_eq_true hevent) hlast
    | arrive m =>
      rw [hevent] at hstep
      rw [step_arrive hstep]
      intro hnil
      have hperm := Heap.push_perm (PrioComp env.undefined) s.queue
        (wirePriority m.base.type, some m)
      exact absurd (hperm.symm.trans (List.Perm.of_eq hnil)).eq_nil (List.cons_ne_nil _ _)

/-- Whatever is queued, something is the oldest of it. -/
theorem exists_oldest (h : Settling env p ms u) (hne : u.queue ≠ []) :
    ∃ oldest, entry oldest ∈ u.queue ∧ ∀ e ∈ u.queue, stamp (entry oldest) ≤ stamp e := by
  obtain ⟨e, he, hmin⟩ := u.queue.toFinset.exists_min_image stamp
    ((List.toFinset_nonempty_iff _).mpr hne)
  obtain ⟨m, -, rfl⟩ := h.queued e (List.mem_toFinset.mp he)
  exact ⟨m, List.mem_toFinset.mp he, fun e' he' => hmin e' (List.mem_toFinset.mpr he')⟩

end Last

/-- **Convergence.** Let `u` be the node when the last change has arrived. Once all have been
processed, the file has the content of the newest change exactly if the oldest change that was
queued in `u` has it. -/
theorem converges_iff (env : Env) (p : FilePath) (ms : List FileContentMessage) (start u t : Node)
    (events : List Event) (h : Receives env p ms start events)
    (run : Trace (Step env) start events t) (hdone : t.queue = [])
    (last : Trace (Step env) start (untilLastArrival events) u) :
    Converged p ms t ↔ OldestIsNewest ms u := by
  obtain ⟨calls, hsplit, hcalls⟩ := splitLast events
  have hstart := settling_start h
  have hu : Settling env p ms u := by
    have harrive := (arrivals_untilLastArrival events).trans h.arrive
    exact hstart.run last harrive h.edits h.distinct
  have hrest : Trace (Step env) u calls t := by
    rw [← hsplit] at run
    obtain ⟨u', hbefore, hafter⟩ := run.split
    rwa [trace_deterministic hbefore last] at hafter
  have hdrained {oldest : FileContentMessage} (hmem : entry oldest ∈ u.queue)
      (hmin : ∀ e ∈ u.queue, stamp (entry oldest) ≤ stamp e) :
      t.files.content? p = some oldest.fileContent :=
    drained hu hcalls hrest hdone hmem hmin
  constructor
  · intro hconverged newest hnewest hmax oldest holdest hmin
    have hfinal := hdrained holdest fun e he => by
      obtain ⟨m, -, rfl⟩ := hu.queued e he
      exact Int64.le_iff_toInt_le.mp (hmin m he)
    exact Option.some_inj.mp (hfinal.symm.trans (hconverged newest hnewest hmax))
  · intro hcondition newest hnewest hmax
    obtain ⟨oldest, holdest, hmin⟩ := exists_oldest hu
      (queue_ne_nil h (List.ne_nil_of_mem hnewest) last)
    rw [hdrained holdest hmin]
    exact congrArg some (hcondition newest hnewest hmax oldest holdest fun m hm =>
      Int64.le_iff_toInt_le.mpr (hmin _ hm))

/-! ## Two changes queued together -/

/-- A change of `docs/a` to one letter, made so many seconds after the epoch. -/
def letterAt (letter : UInt8) (seconds : Int64) : FileContentMessage where
  type := .contentChange
  receiverNode := .ipv6Unspecified
  originatorNode := .ipv4 0x0a000001
  messageHash := 0
  targetFile := ⟨[100, 111, 99, 115, 47, 97]⟩
  timestamp := systemFromTimeT seconds
  fileContent := [letter]

/-- A node that manages `docs/a`. -/
def docsNode : Node where
  files := FileSystem.docs ⟨[], 0o644⟩
  queue := []
  receivedInitialFiles := 1
  totalInitialFiles := 1

def docsEnv : Env where
  host := ⟨.littleEndian, .ipv4 0x0a000002, false, 0o644⟩
  undefined := fun _ _ => false
  other := fun _ => throw .runtime

/-- Both changes arrive before either is made. -/
def bothQueued : Node :=
  { docsNode with queue := [entry (letterAt 98 2), entry (letterAt 97 1)] }

theorem docsNode_writable : Writable docsEnv.host docsNode.files FileSystem.docsA where
  managed := ⟨by decide, by decide⟩
  file := ⟨⟨[], 0o644⟩, by decide, by decide⟩
  unlocked := ⟨by decide, by decide⟩

theorem letterAt_edits (letter : UInt8) (seconds : Int64) :
    Edits FileSystem.docsA (letterAt letter seconds) where
  type := rfl
  target := show filePath ⟨[100, 111, 99, 115, 47, 97]⟩ = FileSystem.docsA by decide

theorem two_received (calls : List Event) (h : arrivals calls = []) :
    Receives docsEnv FileSystem.docsA [letterAt 97 1, letterAt 98 2] docsNode
      (.arrive (.fileContent (letterAt 97 1)) :: .arrive (.fileContent (letterAt 98 2)) :: calls)
    where
  connected := rfl
  writable := docsNode_writable
  empty := rfl
  arrive := congrArg (List.cons _ <| List.cons _ ·) h
  edits m hm := by
    rcases List.mem_pair.mp hm with rfl | rfl
    · exact letterAt_edits 97 1
    · exact letterAt_edits 98 2
  distinct := by decide

theorem bothQueued_reached :
    Trace (Step docsEnv) docsNode
      [.arrive (.fileContent (letterAt 97 1)), .arrive (.fileContent (letterAt 98 2))]
      bothQueued := by
  have hfirst : Step docsEnv docsNode (.arrive (.fileContent (letterAt 97 1)))
      { docsNode with queue := [entry (letterAt 97 1)] } := rfl
  have hsecond : Step docsEnv { docsNode with queue := [entry (letterAt 97 1)] }
      (.arrive (.fileContent (letterAt 98 2))) bothQueued := rfl
  exact .cons hfirst (.cons hsecond (.nil _))

/-- Two calls make both changes, and leave the content of the older one. -/
theorem bothQueued_drained :
    ∃ t, Trace (Step docsEnv) bothQueued [.call, .call] t ∧ t.queue = [] ∧
      t.files.content? FileSystem.docsA = some [97] := by
  have hu := (settling_start (two_received [] rfl)).run bothQueued_reached rfl
    (two_received [] rfl).edits (two_received [] rfl).distinct
  obtain ⟨n, hfirst, hn, -, hqueue⟩ := hu.makes rfl
  have hq : n.queue = [entry (letterAt 97 1)] := List.perm_singleton.mp hqueue
  obtain ⟨t, hsecond, -, hcontent, hempty⟩ := hn.makes hq
  exact ⟨t, .cons hfirst (.cons hsecond (.nil t)), hempty.eq_nil, hcontent⟩

/-- The change made one second later is lost. -/
theorem newer_change_lost :
    ∃ events t, Receives docsEnv FileSystem.docsA [letterAt 97 1, letterAt 98 2] docsNode events ∧
      Trace (Step docsEnv) docsNode events t ∧ t.queue = [] ∧
      ¬ Converged FileSystem.docsA [letterAt 97 1, letterAt 98 2] t := by
  obtain ⟨t, hcalls, hdone, hcontent⟩ := bothQueued_drained
  refine ⟨_, t, two_received [.call, .call] rfl, bothQueued_reached.append hcalls, hdone, ?_⟩
  intro hconverged
  have hnewest := hconverged (letterAt 98 2) (by simp) (by decide)
  rw [hcontent] at hnewest
  exact absurd hnewest (by decide)

/-- What the theorem says of these two. -/
theorem two_changes_converge_iff :
    ∃ t, t.queue = [] ∧ (Converged FileSystem.docsA [letterAt 97 1, letterAt 98 2] t ↔
      OldestIsNewest [letterAt 97 1, letterAt 98 2] bothQueued) := by
  obtain ⟨t, hcalls, hdone, -⟩ := bothQueued_drained
  exact ⟨t, hdone, converges_iff docsEnv FileSystem.docsA [letterAt 97 1, letterAt 98 2] docsNode
    bothQueued t _ (two_received [.call, .call] rfl) (bothQueued_reached.append hcalls) hdone
    bothQueued_reached⟩

end WhisperNet
