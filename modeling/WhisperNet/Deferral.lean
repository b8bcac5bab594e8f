import WhisperNet.Joining

/-!
# Messages are conserved

A message that joins the queue is in it until its handler has said that it was processed, and in the
old messages from then on. Until a node has finished connecting, the messages that have to wait go
back into the queue, and that is all that happens.

* `Accounted` — the invariant: what has been emplaced is queued or retired.
* `run_arrivals`, `run_remembered` — what the accounts are of: messages that were queued or arrived,
  and messages that are among the old ones.
* `call_cases` — what a call that returned did.
* `deferral_conserves` — the invariant over any run, and what deferring a message leaves.
-/

namespace WhisperNet

open Bin Effect MessageManager

namespace Managers

/-! ## The accounts -/

/-- Every message emplaced is retired, held by the main thread, or queued, as often as it was
emplaced. -/
def Accounted (held : List AnyMessage) (s : Managers) : Prop :=
  s.emplaced.Perm (s.retired ++ (held ++ messages s.queue))

/-- The state as it is when the accounts are opened. -/
def counting (s : Managers) : Managers := { s with emplaced := messages s.queue, retired := [] }

theorem accounted_counting (s : Managers) : Accounted [] s.counting := List.Perm.refl _

section Accounts

variable {held : List AnyMessage} {env : Circumstances} {s t : Managers}

theorem messages_push (undefined : Prio → Prio → Bool) (queue : List Prio) (priority : Nat)
    (m : AnyMessage) : (messages (Heap.push (PrioComp undefined) queue (priority, some m))).Perm
      (m :: messages queue) :=
  messages_perm (Heap.push_perm (PrioComp undefined) queue (priority, some m))

theorem messages_pop (undefined : Prio → Prio → Bool) {queue rest : List Prio} {priority : Nat}
    {m : AnyMessage} (hq : queue = (priority, some m) :: rest) :
    (m :: messages (Heap.pop (PrioComp undefined) queue)).Perm (messages queue) := by
  have hpop := messages_perm (Heap.perm_pop (PrioComp undefined) hq)
  rw [hq]
  rw [hq] at hpop
  exact hpop.cons m

theorem sparedByHandlers_accounted (held : List AnyMessage) :
    SparedByHandlers (Accounted held) where
  peers _ _ h := h
  written _ _ h := h
  emplaced env priority m s h := by
    have hqueue : (held ++ messages (Heap.push (PrioComp env.undefined) s.queue
        (priority, some m))).Perm (m :: (held ++ messages s.queue)) :=
      ((messages_push env.undefined s.queue priority m).append_left held).trans List.perm_middle
    exact (h.cons m).trans (List.perm_middle.symm.trans (hqueue.symm.append_left _))
  remembered _ _ h := h
  files _ _ h := h

/-- What all that the handlers do keeps, they keep. -/
theorem keeps_dispatched {Inv : Managers → Prop} (h : SparedByHandlers Inv)
    (hcount : ∀ m, Keeps Inv (onNode (Node.countInitialFile m))) (hadopt : ∀ m, Keeps Inv (adopt m))
    (hreset : Keeps Inv resetCounts) (m : AnyMessage) : Keeps Inv (dispatch env m) := by
  refine keeps_dispatch h (fun _ m => hcount m) fun _ m => ?_
  refine (hadopt m).bind fun _ => (keeps_onFiles h _).bind fun _ => ?_
  exact hreset.bind fun _ => Keeps.pure _

/-- No handler drops or duplicates a message. -/
theorem keeps_accounted (m : AnyMessage) : Keeps (Accounted held) (dispatch env m) :=
  keeps_dispatched (sparedByHandlers_accounted held) (fun _ _ h => h) (fun _ _ h => h)
    (fun _ h => h) m

theorem sparedByHandlers_retired (retired : List AnyMessage) :
    SparedByHandlers fun s => s.retired = retired where
  peers _ _ h := h
  written _ _ h := h
  emplaced _ _ _ _ h := h
  remembered _ _ h := h
  files _ _ h := h

/-- No handler moves a message into the old messages of the accounts. -/
theorem keeps_retired (retired : List AnyMessage) (m : AnyMessage) :
    Keeps (fun s => s.retired = retired) (dispatch env m) :=
  keeps_dispatched (sparedByHandlers_retired retired) (fun _ _ h => h) (fun _ _ h => h)
    (fun _ h => h) m

/-! ## What the accounts are of -/

/-- These messages have been emplaced, as often as they are listed. -/
def Received (ms : List AnyMessage) (s : Managers) : Prop := ms.Subperm s.emplaced

theorem keeps_received (ms : List AnyMessage) (m : AnyMessage) :
    Keeps (Received ms) (dispatch env m) := by
  have hspared : SparedByHandlers (Received ms) :=
    { peers := fun _ _ h => h
      written := fun _ _ h => h
      emplaced := fun _ _ m s h => h.trans (List.sublist_cons_self m s.emplaced).subperm
      remembered := fun _ _ h => h
      files := fun _ _ h => h }
  exact keeps_dispatched hspared (fun _ _ h => h) (fun _ _ h => h) (fun _ h => h) m

/-- Every old message was one at the start, or has been retired or sent. -/
def Remembered (old : List AnyMessage) (s : Managers) : Prop :=
  ∀ m ∈ s.oldMessages, m ∈ old ∨ m ∈ s.retired ∨ m ∈ s.sent

theorem mem_emplaceBack {old : List AnyMessage} {m m' : AnyMessage}
    (h : m' ∈ MessageManager.emplaceBack old m) : m' ∈ old ∨ m' = m := by
  rcases List.mem_append.mp (List.mem_of_mem_drop h) with hold | hnew
  · exact Or.inl hold
  · exact Or.inr (List.mem_singleton.mp hnew)

/-- The newest message stays. -/
theorem mem_emplaceBack_self (old : List AnyMessage) (m : AnyMessage) :
    m ∈ MessageManager.emplaceBack old m := by
  rw [MessageManager.emplaceBack, List.drop_append_of_le_length (by omega)]
  exact List.mem_append_right _ (List.mem_singleton_self m)

theorem keeps_remembered (old : List AnyMessage) (m : AnyMessage) :
    Keeps (Remembered old) (dispatch env m) := by
  have hspared : SparedByHandlers (Remembered old) :=
    { peers := fun _ _ h => h
      written := fun _ _ h => h
      emplaced := fun _ _ _ _ h => h
      remembered := by
        intro m s h m' hm'
        rcases mem_emplaceBack hm' with hold | rfl
        · exact (h m' hold).imp_right (Or.imp_right (List.mem_append_left _))
        · exact Or.inr (Or.inr (List.mem_append_right _ (List.mem_singleton_self _)))
      files := fun _ _ h => h }
  exact keeps_dispatched hspared (fun _ _ h => h) (fun _ _ h => h) (fun _ h => h) m

end Accounts

/-! ## One call -/

section Call

variable {env : Circumstances} {s t : Managers} {priority : Nat} {msgPtr : Option AnyMessage}
  {rest : List Prio}

/-- The state once the front has been popped. -/
def popped (env : Circumstances) (s : Managers) : Managers :=
  { s with queue := Heap.pop (PrioComp env.undefined) s.queue }

theorem processNextMessage_nil (hq : s.queue = []) : processNextMessage env s = .ok () s := by
  obtain ⟨⟨_, queue⟩⟩ := s
  obtain rfl : queue = [] := hq
  rfl

theorem processNextMessage_cons (hq : s.queue = (priority, msgPtr) :: rest) :
    processNextMessage env s = (process env msgPtr >>= fun processed =>
      if processed then retire msgPtr else requeue env msgPtr) (popped env s) := by
  obtain ⟨⟨_, queue⟩⟩ := s
  obtain rfl : queue = (priority, msgPtr) :: rest := hq
  rfl

/-- **One call.** The queue was empty; or the handler of the message at the front said that it was
processed, and it is now an old message; or it said that it was not, and the message is back in the
queue. -/
theorem call_cases (h : Step s (env, .call) t) :
    s.queue = [] ∧ t = s ∨
    ∃ priority m rest u, s.queue = (priority, some m) :: rest ∧
      (process env (some m) (popped env s) = .ok true u ∧
        t = { u with
          oldMessages := MessageManager.emplaceBack u.oldMessages m
          retired := m :: u.retired } ∨
      ∃ again, process env (some m) (popped env s) = .ok false u ∧
        requeuePriority m.base.type = some again ∧
        t = { u with queue := Heap.push (PrioComp env.undefined) u.queue (again, some m) }) := by
  have hrun : processNextMessage env s = .ok () t := h
  match hq : s.queue with
  | [] =>
    rw [processNextMessage_nil hq] at hrun
    exact Or.inl ⟨rfl, (EStateM.Result.ok.inj hrun).2.symm⟩
  | (priority, none) :: rest =>
    rw [processNextMessage_cons hq] at hrun
    cases hrun
  | (priority, some m) :: rest =>
    rw [processNextMessage_cons hq] at hrun
    obtain ⟨processed, u, hprocess, hrun⟩ := bind_eq_ok hrun
    refine Or.inr ⟨priority, m, rest, u, rfl, ?_⟩
    cases processed with
    | true =>
      obtain ⟨-, rfl⟩ := EStateM.Result.ok.inj hrun
      exact Or.inl ⟨hprocess, rfl⟩
    | false =>
      have hrequeue : requeue env (some m) u = .ok () t := hrun
      unfold requeue at hrequeue
      cases hagain : requeuePriority m.base.type with
      | none =>
        rw [Option.bind_some, hagain] at hrequeue
        cases hrequeue
      | some again =>
        rw [Option.bind_some, hagain] at hrequeue
        obtain ⟨-, rfl⟩ := EStateM.Result.ok.inj hrequeue
        exact Or.inr ⟨again, hprocess, rfl, rfl⟩

/-- The same, where it is known what is at the front. -/
theorem call_front {m : AnyMessage} (hq : s.queue = (priority, some m) :: rest)
    (h : Step s (env, .call) t) : ∃ u,
      process env (some m) (popped env s) = .ok true u ∧
        t = { u with
          oldMessages := MessageManager.emplaceBack u.oldMessages m
          retired := m :: u.retired } ∨
      ∃ again, process env (some m) (popped env s) = .ok false u ∧
        requeuePriority m.base.type = some again ∧
        t = { u with queue := Heap.push (PrioComp env.undefined) u.queue (again, some m) } := by
  rcases call_cases h with ⟨hnil, -⟩ | ⟨_, _, _, u, hq', hcall⟩
  · rw [hq] at hnil
    cases hnil
  · obtain ⟨hfront, -⟩ := List.cons.inj (hq.symm.trans hq')
    obtain rfl := Option.some_inj.mp (Prod.mk.inj hfront).2
    exact ⟨u, hcall⟩

/-- The handler of the message at the front says that it was processed, and the message is moved
into the old messages. -/
def Retires (env : Circumstances) (s t : Managers) : Prop :=
  ∃ priority m rest u, s.queue = (priority, some m) :: rest ∧
    process env (some m) (popped env s) = .ok true u ∧
    t.oldMessages = MessageManager.emplaceBack u.oldMessages m ∧ m ∈ t.oldMessages ∧
    t.retired = m :: s.retired

/-- A message is retired by its own handler only. -/
theorem step_retired {l : Circumstances × Event} (h : Step s l t) :
    t.retired = s.retired ∨ Retires l.1 s t := by
  obtain ⟨env, event⟩ := l
  cases event with
  | arrive priority m =>
    have hrun : emplace env priority m s = .ok () t := h
    obtain ⟨-, rfl⟩ := EStateM.Result.ok.inj hrun
    exact Or.inl rfl
  | call =>
    rcases call_cases h with ⟨-, rfl⟩ | ⟨priority, m, rest, u, hq, hcall⟩
    · exact Or.inl rfl
    · rcases hcall with ⟨hprocess, rfl⟩ | ⟨again, hprocess, -, rfl⟩
      · have hu : u.retired = s.retired := (keeps_retired s.retired m).ok hprocess rfl
        exact Or.inr ⟨priority, m, rest, u, hq, hprocess, rfl, mem_emplaceBack_self _ m,
          congrArg (m :: ·) hu⟩
      · have hu : u.retired = s.retired := (keeps_retired s.retired m).ok hprocess rfl
        exact Or.inl hu

end Call

/-! ## Runs -/

section Runs

variable {env : Circumstances} {s t : Managers} {l : Circumstances × Event}
  {ls : List (Circumstances × Event)}

theorem step_accounted (hs : Accounted [] s) (h : Step s l t) : Accounted [] t := by
  obtain ⟨env, event⟩ := l
  cases event with
  | arrive priority m =>
    have hrun : emplace env priority m s = .ok () t := h
    exact ((sparedByHandlers_accounted []).emplaced env priority m).ok hrun hs
  | call =>
    rcases call_cases h with ⟨-, rfl⟩ | ⟨priority, m, rest, u, hq, hcall⟩
    · exact hs
    · have hpopped : Accounted [m] (popped env s) :=
        hs.trans ((messages_pop env.undefined hq).symm.append_left s.retired)
      rcases hcall with ⟨hprocess, rfl⟩ | ⟨again, hprocess, -, rfl⟩
      · have hu : Accounted [m] u := (keeps_accounted m).ok hprocess hpopped
        exact hu.trans List.perm_middle
      · have hu : Accounted [m] u := (keeps_accounted m).ok hprocess hpopped
        exact hu.trans ((messages_push env.undefined u.queue again m).symm.append_left u.retired)

theorem run_accounted (hrun : Trace Step s ls t) (hs : Accounted [] s) : Accounted [] t := by
  induction hrun with
  | nil => exact hs
  | cons first _ ih => exact ih (step_accounted hs first)

/-- What joins the queue from other threads. -/
def arrival : Circumstances × Event → Option AnyMessage
  | (_, .arrive _ m) => some m
  | (_, .call) => none

/-- What arrives is emplaced. -/
theorem step_received {ms : List AnyMessage} (hs : Received ms s) (h : Step s l t) :
    Received (ms ++ (arrival l).toList) t := by
  obtain ⟨env, event⟩ := l
  cases event with
  | arrive priority m =>
    have hrun : emplace env priority m s = .ok () t := h
    obtain ⟨-, rfl⟩ := EStateM.Result.ok.inj hrun
    exact (List.perm_append_singleton m ms).subperm.trans ((List.subperm_cons m).mpr hs)
  | call =>
    rw [arrival, Option.toList_none, List.append_nil]
    rcases call_cases h with ⟨-, rfl⟩ | ⟨priority, m, rest, u, hq, hcall⟩
    · exact hs
    · have hpopped : Received ms (popped env s) := hs
      rcases hcall with ⟨hprocess, rfl⟩ | ⟨again, hprocess, -, rfl⟩
      · have hu : Received ms u := (keeps_received ms m).ok hprocess hpopped
        exact hu
      · have hu : Received ms u := (keeps_received ms m).ok hprocess hpopped
        exact hu

theorem run_received {ms : List AnyMessage} (hrun : Trace Step s ls t) (hs : Received ms s) :
    Received (ms ++ ls.filterMap arrival) t := by
  induction hrun generalizing ms with
  | nil =>
    rw [List.filterMap_nil, List.append_nil]
    exact hs
  | @cons _ _ _ l ls first _ ih =>
    have hrest := ih (step_received hs first)
    rw [List.append_assoc] at hrest
    cases hl : arrival l with
    | none =>
      rw [List.filterMap_cons_none hl]
      rwa [hl, Option.toList_none, List.nil_append] at hrest
    | some m =>
      rw [List.filterMap_cons_some hl]
      rwa [hl, Option.toList_some, List.singleton_append] at hrest

/-- What was queued at the start and what has arrived since then has been emplaced. -/
theorem run_arrivals (hrun : Trace Step s.counting ls t) :
    (messages s.queue ++ ls.filterMap arrival).Subperm t.emplaced :=
  run_received hrun (List.Subperm.refl _)

theorem step_remembered {old : List AnyMessage} (hs : Remembered old s) (h : Step s l t) :
    Remembered old t := by
  obtain ⟨env, event⟩ := l
  cases event with
  | arrive priority m =>
    have hrun : emplace env priority m s = .ok () t := h
    obtain ⟨-, rfl⟩ := EStateM.Result.ok.inj hrun
    exact hs
  | call =>
    rcases call_cases h with ⟨-, rfl⟩ | ⟨priority, m, rest, u, hq, hcall⟩
    · exact hs
    · have hpopped : Remembered old (popped env s) := hs
      rcases hcall with ⟨hprocess, rfl⟩ | ⟨again, hprocess, -, rfl⟩
      · have hu : Remembered old u := (keeps_remembered old m).ok hprocess hpopped
        intro m' hm'
        rcases mem_emplaceBack hm' with hold | rfl
        · exact (hu m' hold).imp_right (Or.imp_left (List.mem_cons_of_mem m))
        · exact Or.inr (Or.inl List.mem_cons_self)
      · have hu : Remembered old u := (keeps_remembered old m).ok hprocess hpopped
        exact hu

theorem run_remembered {old : List AnyMessage} (hrun : Trace Step s ls t) (hs : Remembered old s) :
    Remembered old t := by
  induction hrun with
  | nil => exact hs
  | cons first _ ih => exact ih (step_remembered hs first)

end Runs

/-! ## Deferral -/

/-- The types that wait until the node has finished connecting. -/
def Waits : MessageType → Prop
  | .lock | .unlock | .deleteFile | .contentChange | .initialSyncRequest | .disconnect => True
  | _ => False

section Deferral

variable {env : Circumstances} {s : Managers} {m : AnyMessage}

/-- A handler that waits does nothing. -/
theorem process_waits (htyped : Typed m) (hwaits : Waits m.base.type)
    (hs : s.isFinishedConnecting = false) : process env (some m) s = .ok false s := by
  cases m with
  | file m =>
    rcases htyped with htype | htype | htype
    · rw [process_lock env s htype, hs]
      rfl
    · rw [process_unlock env s htype, hs]
      rfl
    · rw [process_deleteFile env s htype, hs]
      rfl
  | fileContent m =>
    rw [process_contentChange env s htyped, hs]
    rfl
  | message m =>
    rcases htyped with htype | htype | htype
    · rw [process_disconnect env s htype]
      show (if !s.isFinishedConnecting then _ else _ : ManagersM Bool) s = _
      rw [hs]
      rfl
    · rw [process_syncRequest env s htype]
      show (if !s.isFinishedConnecting then _ else _ : ManagersM Bool) s = _
      rw [hs]
      rfl
    · have hlost : (AnyMessage.message m).base.type = .linkLost := htype
      rw [hlost] at hwaits
      exact hwaits.elim
  | fileInitialSync m =>
    have htype : (AnyMessage.fileInitialSync m).base.type = .initialSync := htyped
    rw [htype] at hwaits
    exact hwaits.elim
  | connect m =>
    have htype : (AnyMessage.connect m).base.type = .connect := htyped
    rw [htype] at hwaits
    exact hwaits.elim
  | payload m =>
    have htype : (AnyMessage.payload m).base.type = .payload := htyped
    rw [htype] at hwaits
    exact hwaits.elim
  | resendRequest m =>
    have htype : (AnyMessage.resendRequest m).base.type = .resendRequest := htyped
    rw [htype] at hwaits
    exact hwaits.elim

theorem requeuePriority_waits {type : MessageType} (h : Waits type) :
    ∃ again, requeuePriority type = some again := by
  cases type with
  | lock | unlock | deleteFile | contentChange | initialSyncRequest | disconnect => exact ⟨_, rfl⟩
  | _ => exact h.elim

/-- A message that has to wait goes back into the queue, and nothing else happens. -/
theorem call_waits {priority : Nat} {rest : List Prio} (hq : s.queue = (priority, some m) :: rest)
    (htyped : Typed m) (hwaits : Waits m.base.type) (hs : s.isFinishedConnecting = false) :
    ∃ again, requeuePriority m.base.type = some again ∧
      processNextMessage env s = .ok () { s with
        queue := Heap.push (PrioComp env.undefined) (Heap.pop (PrioComp env.undefined) s.queue)
          (again, some m) } := by
  obtain ⟨again, hagain⟩ := requeuePriority_waits hwaits
  have hprocess : process env (some m) (popped env s) = .ok false (popped env s) :=
    process_waits htyped hwaits hs
  refine ⟨again, hagain, ?_⟩
  rw [processNextMessage_cons hq, bind_ok hprocess]
  show requeue env (some m) (popped env s) = _
  unfold requeue
  rw [Option.bind_some, hagain]
  rfl

end Deferral

/-- **Messages are conserved.** In every run from any state, whatever was emplaced is queued or
retired: what was queued at the start, what has arrived, and what the node has sent itself. Only its
own handler has a message retired, and then it is among the old messages, where there is nothing
else but what has been sent. Until the node has finished connecting, a message that has to wait is
put back, and nothing else happens. -/
theorem deferral_conserves (s : Managers) :
    (∀ ls t, Trace Step s.counting ls t → t.emplaced.Perm (t.retired ++ messages t.queue) ∧
      (messages s.queue ++ ls.filterMap arrival).Subperm t.emplaced ∧
      Remembered s.oldMessages t ∧
      ∀ l u, Step t l u → u.retired = t.retired ∨ Retires l.1 t u) ∧
    ∀ env priority m rest, s.queue = (priority, some m) :: rest → Typed m → Waits m.base.type →
      s.isFinishedConnecting = false → ∃ again, requeuePriority m.base.type = some again ∧
        processNextMessage env s = .ok () { s with
          queue := Heap.push (PrioComp env.undefined) (Heap.pop (PrioComp env.undefined) s.queue)
            (again, some m) } := by
  refine ⟨fun ls t hrun => ⟨?_, run_arrivals hrun, ?_, fun l u h => step_retired h⟩, ?_⟩
  · exact run_accounted hrun (accounted_counting s)
  · exact run_remembered hrun fun _ hm => Or.inl hm
  · intro env priority m rest hq htyped hwaits hs
    exact call_waits hq htyped hwaits hs

/-- A node that is still connecting, with the unlock that it has to wait with. -/
def waitingDocs : Managers := { joinedDocs with
  queue := [(lockPriority, some (.file (Node.disconnectUnlock docsRequest FileSystem.docsA)))]
  receivedInitialFiles := 0 }

theorem docs_waits :
    (final (processNextMessage readerCircumstances waitingDocs.counting)).emplaced.Perm
      ((final (processNextMessage readerCircumstances waitingDocs.counting)).retired ++
        messages (final (processNextMessage readerCircumstances waitingDocs.counting)).queue) ∧
    ∃ again, processNextMessage readerCircumstances waitingDocs = .ok () { waitingDocs with
      queue := [(again, some (.file (Node.disconnectUnlock docsRequest FileSystem.docsA)))] } := by
  have hcall : value? (processNextMessage readerCircumstances waitingDocs.counting) = some () := by
    decide +kernel
  have hstep : Step waitingDocs.counting (readerCircumstances, .call) _ := eq_ok_of_value hcall
  have hconserves := deferral_conserves waitingDocs
  refine ⟨(hconserves.1 _ _ (.cons hstep (.nil _))).1, ?_⟩
  obtain ⟨again, -, hwaits⟩ := hconserves.2 readerCircumstances lockPriority _ [] rfl
    (Or.inr (Or.inl rfl)) trivial (by decide +kernel)
  exact ⟨again, hwaits⟩

end Managers

end WhisperNet
