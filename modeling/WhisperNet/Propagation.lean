import WhisperNet.HandlerRuns

/-!
# What becomes of an edit

Another node has edited a file: its sweeps send the new content and a lock, and an unlock once the
edit is over. Here the lock is what matters. It takes the file its write permissions and saves none,
so that no unlock can give them back; and content that is processed after it is refused.

* `Free.lock`, `Foreign.unlock`, … — what each of the three does to the file.
* `pending_step` — until the lock has been processed, it is still to come.
* `edit_never_propagates` — the edit never leaves the file as it should.
-/

namespace WhisperNet

open Bin Fs Effect MessageManager

/-! ## The file -/

/-- The file is not locked, and has these write permissions. -/
def Free (p : FilePath) (bits : Perms) (fs : FileSystem) : Prop :=
  ∃ f, fs.file? p = some f ∧ f.writeBits = bits ∧ fs.file? (lockFilePath p) = none

/-- Another node has locked the file, which has no write permissions left; none are saved. -/
def Foreign (host : Host) (p : FilePath) (fs : FileSystem) : Prop :=
  ∃ f, fs.file? p = some f ∧ f.writeBits = 0 ∧ ∃ lock s,
    lockRecord host.platform fs p = some (lock, s) ∧ lock.originatorNode ≠ host.self ∧
    s &&& writePerms = 0

section Handlers

variable {host : Host} {p : FilePath} {fs fs' : FileSystem} {b : Bool} {bits : Perms}

/-- The lock has been written for another node. -/
theorem foreign_written {m : FileMessage} {s : Perms} {f : File} {fs₁ : FileSystem}
    (hp : Managed p) (hm : m.originatorNode ≠ host.self) (hf : fs₁.file? p = some f)
    (hbits : f.writeBits = 0) (hsaved : s &&& writePerms = 0)
    (hwritten : LockWritten host m p (s &&& writePerms) fs₁ fs') : Foreign host p fs' := by
  refine ⟨f, (hwritten.frame p (lockFilePath_ne hp)).trans hf, hbits, m.received, _,
    hwritten.record, hm, ?_⟩
  rw [masked_bits, hsaved]

/-- **The lock** of another node takes the permissions away and saves none. -/
theorem Free.lock {m : FileMessage} (h : Free p bits fs) (hm : filePath m.targetFile = p)
    (hp : Managed p) (hfits : PathFits m.targetFile) (hforeign : m.originatorNode ≠ host.self)
    (hrun : processLockMessage host true m fs = .ok b fs') : b = true ∧ Foreign host p fs' := by
  obtain ⟨f, hf, -, hfree⟩ := h
  obtain ⟨rfl, ⟨-, fs₁, hset, hwritten⟩ | ⟨old, s, hold, -⟩⟩ :=
    processLockMessage_ok hm hfits hf hrun
  · have hcleared := guarded_foreign f hforeign
    exact ⟨rfl, foreign_written hp hforeign hset.here hcleared hcleared hwritten⟩
  · rw [lockRecord_none hfree] at hold
    cases hold

theorem Foreign.lock {m : FileMessage} (h : Foreign host p fs) (hm : filePath m.targetFile = p)
    (hp : Managed p) (hfits : PathFits m.targetFile) (hforeign : m.originatorNode ≠ host.self)
    (hrun : processLockMessage host true m fs = .ok b fs') : b = true ∧ Foreign host p fs' := by
  obtain ⟨f, hf, hbits, lock, s, hrecord, hlock, hsaved⟩ := h
  obtain ⟨rfl, ⟨hfree, -⟩ | ⟨old, t, hold, hdone⟩⟩ := processLockMessage_ok hm hfits hf hrun
  · rw [lockRecord_none hfree] at hrecord
    cases hrecord
  · obtain ⟨rfl, rfl⟩ := Prod.mk.inj (Option.some_inj.mp (hrecord.symm.trans hold))
    refine ⟨rfl, ?_⟩
    by_cases hearlier : m.timestamp < lock.timestamp
    · rw [if_pos hearlier] at hdone
      exact foreign_written hp hforeign hf hbits hsaved hdone
    · rw [if_neg hearlier] at hdone
      subst hdone
      exact ⟨f, hf, hbits, lock, s, hrecord, hlock, hsaved⟩

/-- An unlock does nothing where there is no lock. -/
theorem Free.unlock {m : FileMessage} (h : Free p bits fs) (hm : filePath m.targetFile = p)
    (hrun : processUnlockMessage host true m fs = .ok b fs') : b = true ∧ Free p bits fs' := by
  obtain ⟨rfl, hsame | ⟨old, s, hold, -⟩⟩ := processUnlockMessage_ok hm hrun
  · subst hsame
    exact ⟨rfl, h⟩
  · obtain ⟨f, -, -, hfree⟩ := h
    rw [lockRecord_none hfree] at hold
    cases hold

/-- **The unlock** adds the permissions saved: none. -/
theorem Foreign.unlock {m : FileMessage} (h : Foreign host p fs)
    (hm : filePath m.targetFile = p)
    (hrun : processUnlockMessage host true m fs = .ok b fs') :
    b = true ∧ (Foreign host p fs' ∨ Free p 0 fs') := by
  obtain ⟨rfl, hsame | ⟨old, t, hold, -, hreleased⟩⟩ := processUnlockMessage_ok hm hrun
  · subst hsame
    exact ⟨rfl, Or.inl h⟩
  · obtain ⟨f, hf, hbits, lock, s, hrecord, -, hsaved⟩ := h
    obtain ⟨rfl, rfl⟩ := Prod.mk.inj (Option.some_inj.mp (hrecord.symm.trans hold))
    obtain ⟨g, hg, hcleared, hg'⟩ := hreleased.file
    refine ⟨rfl, Or.inr ⟨_, hg', ?_, hreleased.free⟩⟩
    show (g.perms ||| s) &&& writePerms = 0
    rw [added_bits, hcleared, hsaved, UInt32.or_self]

/-- The content is written, or dropped, and the permissions stay. -/
theorem Free.content {m : FileContentMessage} (h : Free p bits fs)
    (hm : filePath m.targetFile = p) (hp : Managed p)
    (hrun : processContentFileMessage host true m fs = .ok b fs') : b = true ∧ Free p bits fs' := by
  obtain ⟨f, hf, hbits, hfree⟩ := h
  obtain ⟨rfl, hdone⟩ := processContentFileMessage_ok hm hp hf hrun
  rw [lockRecord_none hfree] at hdone
  obtain ⟨content, hset⟩ := hdone
  refine ⟨rfl, _, hset.here, ?_, (hset.elsewhere (lockFilePath_ne hp).symm).trans hfree⟩
  rw [← hbits]
  show (f.perms ||| 0) &&& ~~~0 &&& writePerms = f.perms &&& writePerms
  rw [UInt32.or_zero, UInt32.and_assoc]
  rfl

/-- The content is refused. -/
theorem Foreign.content {m : FileContentMessage} (h : Foreign host p fs)
    (hm : filePath m.targetFile = p) (hp : Managed p)
    (hrun : processContentFileMessage host true m fs = .ok b fs') :
    b = true ∧ Foreign host p fs' := by
  obtain ⟨f, hf, hbits, lock, s, hrecord, hlock, hsaved⟩ := h
  obtain ⟨rfl, hdone⟩ := processContentFileMessage_ok hm hp hf hrun
  rw [hrecord, allowance_other hlock] at hdone
  subst hdone
  exact ⟨rfl, f, hf, hbits, lock, s, hrecord, hlock, hsaved⟩

end Handlers

namespace Node

/-! ## The edit -/

/-- What the sweeps of another node send for one edit, in that order. -/
structure Edit where
  content : FileContentMessage
  lock : FileMessage
  unlock : FileMessage

def Edit.broadcast (e : Edit) : List AnyMessage :=
  [.fileContent e.content, .file e.lock, .file e.unlock]

/-- They are about `p`, and from another node. -/
structure Edit.Of (host : Host) (p : FilePath) (e : Edit) : Prop where
  contentType : e.content.type = .contentChange
  lockType : e.lock.type = .lock
  unlockType : e.unlock.type = .unlock
  contentTarget : filePath e.content.targetFile = p
  lockTarget : filePath e.lock.targetFile = p
  unlockTarget : filePath e.unlock.targetFile = p
  fits : PathFits e.lock.targetFile
  foreign : ∀ m ∈ e.broadcast, m.base.originatorNode ≠ host.self

/-- The node has finished connecting and has nothing to do; its user may write to the file, which
nobody has locked. -/
structure Ready (host : Host) (p : FilePath) (f : File) (n : Node) : Prop where
  connected : n.isFinishedConnecting = true
  idle : n.queue = []
  file : n.files.file? p = some f
  writable : f.perms &&& ownerWrite ≠ 0
  unlocked : LockState host.platform n.files p none

/-- The file has the new content, is not locked, and has the write permissions it had. -/
def Propagated (p : FilePath) (e : Edit) (f : File) (n : Node) : Prop :=
  ∃ f', n.files.file? p = some f' ∧ f'.content = e.content.fileContent ∧
    n.files.file? (lockFilePath p) = none ∧ f'.writeBits = f.writeBits

/-- The lock is in the queue, or still to arrive. -/
def LockToCome (e : Edit) (n : Node) (events : List Event) : Prop :=
  (∃ priority, (priority, some (.file e.lock)) ∈ n.queue) ∨ .file e.lock ∈ arrivals events

/-- Until the lock has been processed it is to come; then the write permissions are gone. -/
structure Pending (host : Host) (p : FilePath) (e : Edit) (bits : Perms) (n : Node)
    (events : List Event) : Prop where
  connected : n.isFinishedConnecting = true
  queued : ∀ entry ∈ n.queue, ∃ m ∈ e.broadcast, entry.2 = some m
  file : Free p bits n.files ∧ LockToCome e n events ∨ Foreign host p n.files ∨ Free p 0 n.files

section Steps

variable {env : Env} {p : FilePath} {e : Edit} {bits : Perms} {n n' : Node} {events : List Event}

theorem pending_arrive {m : AnyMessage} (hm : m ∈ e.broadcast)
    (h : Pending env.host p e bits n (.arrive m :: events)) (hstep : Step env n (.arrive m) n') :
    Pending env.host p e bits n' events := by
  obtain rfl := step_arrive hstep
  have hperm := Heap.push_perm (PrioComp env.undefined) n.queue (wirePriority m.base.type, some m)
  refine ⟨h.connected, fun entry hentry => ?_, h.file.imp_left fun hfree => ⟨hfree.1, ?_⟩⟩
  · rcases List.mem_cons.mp (hperm.mem_iff.mp hentry) with rfl | hold
    · exact ⟨m, hm, rfl⟩
    · exact h.queued entry hold
  · rcases hfree.2 with ⟨priority, hmem⟩ | harrive
    · exact Or.inl ⟨priority, hperm.mem_iff.mpr (List.mem_cons_of_mem _ hmem)⟩
    · rcases List.mem_cons.mp harrive with rfl | hrest
      · exact Or.inl ⟨_, hperm.mem_iff.mpr List.mem_cons_self⟩
      · exact Or.inr hrest

/-- What is left of the queue once the front has been popped. -/
theorem mem_popped {entry front : Prio} {rest : List Prio} (hq : n.queue = front :: rest) :
    entry ∈ (popped env n).queue ↔ entry ∈ rest := by
  have hperm : (popped env n).queue.Perm rest := Heap.perm_pop _ hq
  exact hperm.mem_iff

/-- The front has been handled, and was not the lock. -/
theorem lockToCome_popped {priority : Nat} {m : AnyMessage} {rest : List Prio}
    {files : FileSystem} (hq : n.queue = (priority, some m) :: rest) (hm : m ≠ .file e.lock)
    (h : LockToCome e n (.call :: events)) :
    LockToCome e { popped env n with files } events := by
  rcases h with ⟨priority', hmem⟩ | harrive
  · refine Or.inl ⟨priority', (mem_popped hq).mpr ?_⟩
    rw [hq] at hmem
    rcases List.mem_cons.mp hmem with heq | hrest
    · obtain ⟨-, heq⟩ := Prod.mk.inj heq
      exact absurd (Option.some_inj.mp heq).symm hm
    · exact hrest
  · exact Or.inr harrive

/-- The handler of the front has returned `true`. -/
theorem pending_popped {priority : Nat} {m : AnyMessage} {rest : List Prio} {files : FileSystem}
    (h : Pending env.host p e bits n (.call :: events))
    (hq : n.queue = (priority, some m) :: rest)
    (hfile : Free p bits files ∧ LockToCome e { popped env n with files } events ∨
      Foreign env.host p files ∨ Free p 0 files) :
    Pending env.host p e bits { popped env n with files } events where
  connected := h.connected
  queued entry hentry := by
    apply h.queued entry
    rw [hq]
    exact List.mem_cons_of_mem _ ((mem_popped hq).mp hentry)
  file := hfile

/-- What the handler of the front did, if it said that the message was processed. -/
theorem call_processed {priority : Nat} {m : AnyMessage} {rest : List Prio} {y : Fs Bool}
    (hq : n.queue = (priority, some m) :: rest)
    (hhandler : process env (some m) (popped env n) = onFiles y (popped env n))
    (htrue : ∀ b files, y n.files = .ok b files → b = true) (hstep : Step env n .call n') :
    ∃ files, y n.files = .ok true files ∧ n' = { popped env n with files } := by
  obtain ⟨processed, n'', hprocess, hreturn⟩ := call_eq_ok hq hstep
  rw [hhandler] at hprocess
  obtain ⟨files, hrun, rfl⟩ := onFiles_eq_ok hprocess
  obtain rfl := htrue processed files hrun
  rw [if_pos rfl] at hreturn
  obtain ⟨-, rfl⟩ := EStateM.Result.ok.inj hreturn
  exact ⟨files, hrun, rfl⟩

theorem pending_call (he : e.Of env.host p) (hp : Managed p)
    (h : Pending env.host p e bits n (.call :: events)) (hstep : Step env n .call n') :
    Pending env.host p e bits n' events := by
  cases hq : n.queue with
  | nil =>
    obtain rfl := call_empty hq hstep
    exact ⟨h.connected, h.queued, h.file⟩
  | cons front rest =>
    obtain ⟨priority, msgPtr⟩ := front
    obtain ⟨m, hm, hptr⟩ := h.queued (priority, msgPtr) (hq ▸ List.mem_cons_self)
    obtain rfl : msgPtr = some m := hptr
    have hconnected : (popped env n).isFinishedConnecting = true := h.connected
    have hforeign := he.foreign (.file e.lock) (by simp [Edit.broadcast])
    simp only [Edit.broadcast, List.mem_cons, List.not_mem_nil, or_false] at hm
    rcases hm with rfl | rfl | rfl
    · have hhandler := process_contentChange env (popped env n) he.contentType
      rw [hconnected] at hhandler
      have hdone : ∀ b files,
          processContentFileMessage env.host true e.content n.files = .ok b files → b = true ∧
            (Free p bits files ∧ LockToCome e { popped env n with files } events ∨
              Foreign env.host p files ∨ Free p 0 files) := by
        intro b files hrun
        rcases h.file with ⟨hfree, hcome⟩ | hforeign | hfree
        · have hfile := hfree.content he.contentTarget hp hrun
          exact ⟨hfile.1, Or.inl ⟨hfile.2, lockToCome_popped hq nofun hcome⟩⟩
        · have hfile := hforeign.content he.contentTarget hp hrun
          exact ⟨hfile.1, Or.inr (Or.inl hfile.2)⟩
        · have hfile := hfree.content he.contentTarget hp hrun
          exact ⟨hfile.1, Or.inr (Or.inr hfile.2)⟩
      obtain ⟨files, hrun, rfl⟩ :=
        call_processed hq hhandler (fun b files hr => (hdone b files hr).1) hstep
      exact pending_popped h hq (hdone true files hrun).2
    · have hhandler := process_lock env (popped env n) he.lockType
      rw [hconnected] at hhandler
      have hdone : ∀ b files, processLockMessage env.host true e.lock n.files = .ok b files →
          b = true ∧ Foreign env.host p files := by
        intro b files hrun
        rcases h.file with ⟨hfree, -⟩ | hforeign' | hfree
        · exact hfree.lock he.lockTarget hp he.fits hforeign hrun
        · exact hforeign'.lock he.lockTarget hp he.fits hforeign hrun
        · exact hfree.lock he.lockTarget hp he.fits hforeign hrun
      obtain ⟨files, hrun, rfl⟩ :=
        call_processed hq hhandler (fun b files hr => (hdone b files hr).1) hstep
      exact pending_popped h hq (Or.inr (Or.inl (hdone true files hrun).2))
    · have hhandler := process_unlock env (popped env n) he.unlockType
      rw [hconnected] at hhandler
      have hne : AnyMessage.file e.unlock ≠ .file e.lock := by
        intro heq
        have htype : MessageType.unlock = .lock :=
          he.unlockType.symm.trans ((congrArg (·.type) (AnyMessage.file.inj heq)).trans he.lockType)
        cases htype
      have hdone : ∀ b files, processUnlockMessage env.host true e.unlock n.files = .ok b files →
          b = true ∧ (Free p bits files ∧ LockToCome e { popped env n with files } events ∨
            Foreign env.host p files ∨ Free p 0 files) := by
        intro b files hrun
        rcases h.file with ⟨hfree, hcome⟩ | hforeign' | hfree
        · have hfile := hfree.unlock he.unlockTarget hrun
          exact ⟨hfile.1, Or.inl ⟨hfile.2, lockToCome_popped hq hne hcome⟩⟩
        · have hfile := hforeign'.unlock he.unlockTarget hrun
          exact ⟨hfile.1, Or.inr hfile.2⟩
        · have hfile := hfree.unlock he.unlockTarget hrun
          exact ⟨hfile.1, Or.inr (Or.inr hfile.2)⟩
      obtain ⟨files, hrun, rfl⟩ :=
        call_processed hq hhandler (fun b files hr => (hdone b files hr).1) hstep
      exact pending_popped h hq (hdone true files hrun).2

/-- At the end the lock has been processed. -/
theorem pending_run (he : e.Of env.host p) (hp : Managed p)
    (h : Pending env.host p e bits n events) (hevents : ∀ m ∈ arrivals events, m ∈ e.broadcast)
    (run : Trace (Step env) n events n') : Pending env.host p e bits n' [] := by
  induction run with
  | nil => exact h
  | @cons s t u event events hfirst _ ih =>
    cases event with
    | arrive m =>
      have hm : m ∈ e.broadcast := hevents m (by simp [arrivals])
      refine ih (pending_arrive hm h hfirst) fun m' hm' => hevents m' ?_
      simpa [arrivals] using Or.inr hm'
    | call => exact ih (pending_call he hp h hfirst) hevents

end Steps

/-- **Propagation.** Once the three messages of an edit have arrived and the queue is empty, the
file has not been left with the new content, unlocked, and with its write permissions. -/
theorem edit_never_propagates (env : Env) (p : FilePath) (e : Edit) (f : File) (n n' : Node)
    (events : List Event) (hp : Managed p) (he : e.Of env.host p) (hn : Ready env.host p f n)
    (harrive : arrivals events = e.broadcast) (run : Trace (Step env) n events n')
    (hdone : n'.queue = []) : ¬ Propagated p e f n' := by
  have hstart : Pending env.host p e f.writeBits n events := by
    refine ⟨hn.connected, ?_, Or.inl ⟨⟨f, hn.file, rfl, hn.unlocked.1⟩, Or.inr ?_⟩⟩
    · intro entry hentry
      rw [hn.idle] at hentry
      cases hentry
    · rw [harrive]
      simp [Edit.broadcast]
  have hend := pending_run he hp hstart (fun m hm => harrive ▸ hm) run
  rintro ⟨f', hf', -, hunlocked, hbits⟩
  have hlost : f.writeBits ≠ 0 := by
    intro hzero
    have hmask : writePerms &&& ownerWrite = ownerWrite := by decide
    apply hn.writable
    rw [← hmask, ← UInt32.and_assoc]
    show f.writeBits &&& ownerWrite = 0
    rw [hzero, UInt32.zero_and]
  rcases hend.file with ⟨-, ⟨priority, hmem⟩ | harrive⟩ | ⟨g, hg, hzero, -⟩ | ⟨g, hg, hzero, -⟩
  · rw [hdone] at hmem
    cases hmem
  · cases harrive
  · obtain rfl := Option.some_inj.mp (hg.symm.trans hf')
    exact hlost (hbits.symm.trans hzero)
  · obtain rfl := Option.some_inj.mp (hg.symm.trans hf')
    exact hlost (hbits.symm.trans hzero)

/-! ## One edit -/

/-- Another node edits `docs/a`, which gets the content `new`. -/
def newEdit : Edit where
  content := ownersEdit
  lock := foreignLock
  unlock := { foreignLock with type := .unlock }

/-- What a node becomes in a sequence of events. -/
def afterEvents (env : Env) (n : Node) (events : List Event) : Node :=
  events.foldl (fun n event => Effect.final (perform env event n)) n

/-- Every message is processed before the next one arrives. -/
def oneByOne : List Event :=
  newEdit.broadcast.flatMap fun m => [.arrive m, .call]

/-- All of them arrive before the first is processed. -/
def allAtOnce : List Event :=
  newEdit.broadcast.map .arrive ++ [.call, .call, .call]

theorem newEdit_of : newEdit.Of reader FileSystem.docsA where
  contentType := rfl
  lockType := rfl
  unlockType := rfl
  contentTarget := show filePath ⟨[100, 111, 99, 115, 47, 97]⟩ = FileSystem.docsA by decide
  lockTarget := show filePath ⟨[100, 111, 99, 115, 47, 97]⟩ = FileSystem.docsA by decide
  unlockTarget := show filePath ⟨[100, 111, 99, 115, 47, 97]⟩ = FileSystem.docsA by decide
  fits := show PathFits ⟨[100, 111, 99, 115, 47, 97]⟩ by decide
  foreign m hm := by
    simp only [Edit.broadcast, List.mem_cons, List.not_mem_nil, or_false] at hm
    rcases hm with rfl | rfl | rfl
    · decide
    · decide
    · decide

theorem unlockedNode_ready : Ready reader FileSystem.docsA ⟨[], 0o644⟩ unlockedNode where
  connected := rfl
  idle := rfl
  file := by decide
  writable := by decide
  unlocked := ⟨by decide, by decide⟩

/-- The node has the new content, and nobody has locked the file: but nobody can write to it. -/
theorem new_content_not_writable :
    newEdit.Of reader FileSystem.docsA ∧
      Ready reader FileSystem.docsA ⟨[], 0o644⟩ unlockedNode ∧
      arrivals oneByOne = newEdit.broadcast ∧
      ∃ n', Trace (Step readerSetting.toEnv) unlockedNode oneByOne n' ∧ n'.queue = [] ∧
        ¬ Propagated FileSystem.docsA newEdit ⟨[], 0o644⟩ n' := by
  refine ⟨newEdit_of, unlockedNode_ready, rfl,
    afterEvents readerSetting.toEnv unlockedNode oneByOne, ?_, by decide, ?_⟩
  · exact .cons (Effect.eq_ok_of_value (by decide)) <| .cons (Effect.eq_ok_of_value (by decide)) <|
      .cons (Effect.eq_ok_of_value (by decide)) <| .cons (Effect.eq_ok_of_value (by decide)) <|
      .cons (Effect.eq_ok_of_value (by decide)) <| .cons (Effect.eq_ok_of_value (by decide)) <|
      .nil _
  · rintro ⟨f', hf', -, -, hbits⟩
    have hf : (afterEvents readerSetting.toEnv unlockedNode oneByOne).files.file? FileSystem.docsA =
        some ⟨[110, 101, 119], 0o444⟩ := by decide
    obtain rfl := Option.some_inj.mp (hf.symm.trans hf')
    exact absurd hbits (by decide)

/-- Nor does the edit propagate if all of it waits in the queue. -/
theorem all_at_once_not_propagated :
    ¬ Propagated FileSystem.docsA newEdit ⟨[], 0o644⟩
      (afterEvents readerSetting.toEnv unlockedNode allAtOnce) :=
  edit_never_propagates readerSetting.toEnv FileSystem.docsA newEdit ⟨[], 0o644⟩ unlockedNode _
    allAtOnce docsA_managed newEdit_of unlockedNode_ready rfl
    (.cons (Effect.eq_ok_of_value (by decide)) <| .cons (Effect.eq_ok_of_value (by decide)) <|
      .cons (Effect.eq_ok_of_value (by decide)) <| .cons (Effect.eq_ok_of_value (by decide)) <|
      .cons (Effect.eq_ok_of_value (by decide)) <| .cons (Effect.eq_ok_of_value (by decide)) <|
      .nil _)
    (by decide)

end Node

end WhisperNet
