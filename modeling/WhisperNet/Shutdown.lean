import WhisperNet.AbsentFiles
import WhisperNet.Lib.Worklist
import WhisperNet.QueueOrder
import WhisperNet.Releases

/-!
# Shutting down

The destructor of the message manager processes messages until the queue is empty, with no one left
to send any. Handlers put messages into the queue of their own node, but fewer generations of them
may come of those. A message that has to wait goes back at a priority of its own; from then on it is
the next to be dispatched, for ever, unless something that need not wait is ahead of it.

* `grows_dispatch` — what a handler puts into the queue.
* `process_false_iff` — when a handler puts its message back.
* `iterates_progress` — what an iteration uses up.
* `shutdown_terminates_iff` — when the loop ends.
-/

namespace WhisperNet

open Bin Effect MessageManager PeerManager Worklist

namespace Managers

/-! ## What joins the queue -/

section Growing

variable {α β : Type} {env : Circumstances} {P Q : Prio → Prop} {x : ManagersM α}
  {f : α → ManagersM β}

/-- If the effect returns, what has joined the queue satisfies `P`. -/
def Grows (P : Prio → Prop) (x : ManagersM α) : Prop :=
  ∀ s a t, x s = .ok a t → ∃ new, t.queue.Perm (new ++ s.queue) ∧ ∀ e ∈ new, P e

theorem Grows.of_same (h : ∀ s a t, x s = .ok a t → t.queue = s.queue) : Grows P x := by
  intro s a t hrun
  exact ⟨[], by rw [h s a t hrun]; rfl, fun e he => absurd he List.not_mem_nil⟩

theorem Grows.pure (a : α) : Grows P (Pure.pure a : ManagersM α) :=
  Grows.of_same fun _ _ _ h => (EStateM.Result.ok.inj h).2 ▸ rfl

theorem Grows.throw (e : Exn) : Grows P (MonadExcept.throw e : ManagersM α) :=
  fun _ _ _ h => nomatch h

theorem Grows.bind (hx : Grows P x) (hf : ∀ a, Grows P (f a)) : Grows P (x >>= f) := by
  intro s b t h
  obtain ⟨a, u, hfirst, hrest⟩ := bind_eq_ok h
  obtain ⟨new, hnew, hP⟩ := hx s a u hfirst
  obtain ⟨new', hnew', hP'⟩ := hf a u b t hrest
  refine ⟨new' ++ new, ?_, fun e he => (List.mem_append.mp he).elim (hP' e) (hP e)⟩
  rw [List.append_assoc]
  exact hnew'.trans (hnew.append_left new')

theorem Grows.ite {c : Prop} [Decidable c] {y : ManagersM α} (hx : Grows P x) (hy : Grows P y) :
    Grows P (if c then x else y) := by
  split
  · exact hx
  · exact hy

theorem Grows.mono (hx : Grows P x) (h : ∀ e, P e → Q e) : Grows Q x := by
  intro s a t hrun
  obtain ⟨new, hnew, hP⟩ := hx s a t hrun
  exact ⟨new, hnew, fun e he => h e (hP e he)⟩

theorem grows_get : Grows P (get : ManagersM Managers) :=
  Grows.of_same fun _ _ _ h => (EStateM.Result.ok.inj h).2 ▸ rfl

theorem grows_onFiles (x : Fs α) : Grows P (onFiles x) := by
  refine Grows.of_same fun s a t h => ?_
  obtain ⟨files, -, rfl⟩ := onFiles_eq_ok h
  rfl

theorem grows_onPeerManager (x : PeerManager.PeerM α) : Grows P (onPeerManager x) := by
  refine Grows.of_same fun s a t h => ?_
  unfold onPeerManager at h
  split at h
  · obtain ⟨-, rfl⟩ := EStateM.Result.ok.inj h
    rfl
  · cases h

theorem grows_modify {g : Managers → Managers} (h : ∀ s, (g s).queue = s.queue) :
    Grows P (modify g : ManagersM Unit) := by
  refine Grows.of_same fun s a t hrun => ?_
  obtain ⟨-, rfl⟩ := EStateM.Result.ok.inj hrun
  exact h s

/-- What `deserializeMessage` asks for is a request of the node's own. -/
theorem resend_requests {pf : Platform} {clk : Clock} {data : Bytes}
    {request : ResendRequestMessage} {destination : IpAddress}
    (h : deserializeMessage pf clk data = .resend request destination) :
    ∃ m, request = resendRequestFor m := by
  have hdata : data ≠ [] := by
    rintro rfl
    cases h
  rcases deserializeMessage_cases pf clk hdata with ⟨-, ⟨_, _, h'⟩ | ⟨m, _, h'⟩⟩ | ⟨-, h' | h'⟩
  · cases h.symm.trans h'
  · exact ⟨m, (Outcome.resend.inj (h.symm.trans h')).1⟩
  · cases h.symm.trans h'
  · cases h.symm.trans h'

/-- What comes of sending a message of this type: the node's own copy joins the queue, or requests
for it. -/
def Sent (self : IpAddress) (type : MessageType) (e : Prio) : Prop :=
  e.1 = resendPriority ∧ IsOwnRequest self e ∨
    ∃ m, e = (wirePriority type, some m) ∧ m.WireTyped ∧ m.base.type = type

theorem grows_send (m : AnyMessage) (destination : IpAddress) :
    Grows (Sent env.host.self m.base.type) (send env m destination) := by
  intro s a t h
  let msg := PeerManager.stamp env.host.platform (env.sendClock m) env.host.self destination m
  obtain ⟨⟨⟩, u, hroute, hremember⟩ := bind_eq_ok
    (x := routeData env (receive env (sendAt env 1)) (msg.save env.host.platform) destination
      .ipv6Unspecified) (f := fun _ => remember msg) h
  obtain ⟨-, rfl⟩ := EStateM.Result.ok.inj hremember
  have hcases : Routed (receive env (sendAt env 1)) (msg.save env.host.platform) s
      (HandsOver env s destination .ipv6Unspecified) _ := routeData_cases _
  obtain ⟨v, hforwarded, hrun⟩ := hcases
  show ∃ new, u.queue.Perm (new ++ s.queue) ∧ _
  rw [← hforwarded.queue]
  rcases hrun with ⟨-, hrun⟩ | ⟨-, hrun | hrun⟩
  · rw [hroute] at hrun
    have hreceive := hrun.symm
    cases hdata : deserializeMessage env.host.platform
        (env.checkClock (msg.save env.host.platform)) (msg.save env.host.platform) with
    | enqueued priority m' =>
      rw [receive, hdata] at hreceive
      obtain ⟨-, rfl⟩ := EStateM.Result.ok.inj hreceive
      obtain ⟨hwire, rfl, htype⟩ := enqueued_typed hdata
      rw [AnyMessage.head?_save, Option.map_some, MessageType.ofByte_toByte,
        stamp_type, Option.some_inj] at htype
      refine ⟨[(wirePriority m'.base.type, some m')], Heap.push_perm _ _ _, fun e he => ?_⟩
      exact Or.inr ⟨m', List.mem_singleton.mp he ▸ htype ▸ rfl, hwire, htype.symm⟩
    | resend request destination' =>
      obtain ⟨m', rfl⟩ := resend_requests hdata
      rw [receive, hdata] at hreceive
      obtain ⟨es, hes, hown⟩ := sendAt_request_queue rfl rfl hreceive
      exact ⟨es, hes, fun e he => Or.inl (hown e he)⟩
    | unrecognized | truncated | outOfRange =>
      rw [receive, hdata] at hreceive
      cases hreceive
  · rw [hroute] at hrun
    obtain ⟨-, rfl⟩ := EStateM.Result.ok.inj hrun
    exact ⟨[], List.Perm.refl _, fun e he => absurd he List.not_mem_nil⟩
  · rw [hroute] at hrun
    cases hrun

end Growing

/-! ## Generations -/

/-- How many generations of messages may come of one of this type; `own` where it is from the node
itself. -/
def generationsOf (own : Bool) : MessageType → Nat
  | .initialSyncRequest => 3
  | .resendRequest => if own then 0 else 2
  | .linkLost => 2
  | .disconnect => 1
  | _ => 0

def generations (self : IpAddress) (m : AnyMessage) : Nat :=
  generationsOf (m.base.originatorNode == self) m.base.type

/-- The message is of the class of its type, and at the priority of its type; or at the other one,
if it may have had to wait. -/
structure Seated (priority : Nat) (m : AnyMessage) : Prop where
  typed : Typed m
  priority : priority = freshPriority m.base.type ∨
    Waits m.base.type ∧ requeuePriority m.base.type = some priority

/-- An entry that is one generation further on. -/
def Below (self : IpAddress) (n : Nat) (e : Prio) : Prop :=
  ∃ m, e.2 = some m ∧ Seated e.1 m ∧ generations self m < n

section Dispatch

variable {env : Circumstances} {self : IpAddress}

theorem generations_of {m : AnyMessage} {type : MessageType} (h : m.base.type = type) :
    generations self m = generationsOf (m.base.originatorNode == self) type := by
  rw [generations, h]

theorem generations_wireTyped {m : AnyMessage} (h : m.WireTyped) : generations self m ≤ 2 ∧
    (m.base.type ≠ .resendRequest → generations self m ≤ 1) := by
  have hof {type : MessageType} (htype : m.base.type = type)
      (hle : ∀ own, generationsOf own type ≤ 1) : generations self m ≤ 2 ∧
      (m.base.type ≠ .resendRequest → generations self m ≤ 1) := by
    rw [generations_of htype]
    exact ⟨(hle _).trans one_le_two, fun _ => hle _⟩
  cases m with
  | resendRequest m =>
    refine ⟨?_, fun hne => absurd h hne⟩
    have htype : (AnyMessage.resendRequest m).base.type = .resendRequest := h
    rw [generations_of htype, generationsOf]
    split <;> omega
  | file m =>
    rcases h with h | h | h
    · exact hof h (by decide)
    · exact hof h (by decide)
    · exact hof h (by decide)
  | message m | payload m | fileContent m | fileInitialSync m | connect m =>
    exact hof h (by decide)

/-- What is sent ranks below if messages of its type do. -/
theorem below_of_sent {type : MessageType} {n : Nat} {e : Prio} (h : Sent self type e) (hn : 0 < n)
    (hbelow : ∀ m : AnyMessage, m.WireTyped → m.base.type = type → generations self m < n) :
    Below self n e := by
  rcases h with ⟨hpriority, _, request, rfl, htype, hself⟩ | ⟨m, rfl, hwire, htype⟩
  · have hrequest : (AnyMessage.resendRequest request).base.type = .resendRequest := htype
    have hown : ((AnyMessage.resendRequest request).base.originatorNode == self) = true :=
      beq_iff_eq.mpr hself
    refine ⟨_, rfl, ⟨htype, Or.inl ?_⟩, ?_⟩
    · rw [hpriority, hrequest]
      rfl
    · rwa [generations_of hrequest, hown]
  · obtain ⟨htyped, hpriority⟩ := typed_of_wireTyped hwire
    refine ⟨m, rfl, ⟨htyped, Or.inl ?_⟩, hbelow m hwire htype⟩
    rw [hpriority, htype]

/-- No request is resent, and nothing for a request of the node's own. -/
theorem resends_old {oldMessages : List AnyMessage} {request : ResendRequestMessage}
    {m : AnyMessage} {destination : IpAddress}
    (h : MessageManager.processResendRequestMessage self oldMessages request =
      some (some (m, destination))) :
    request.originatorNode ≠ self ∧ m.base.type ≠ .resendRequest := by
  unfold MessageManager.processResendRequestMessage at h
  split at h
  · cases h
  · next hself =>
    refine ⟨hself, ?_⟩
    split at h
    · cases h
    · split at h
      · cases h
      · split at h
        · cases h
        · cases h
        · cases h
        · next hne _ _ =>
          obtain ⟨rfl, -⟩ := Prod.mk.inj (Option.some_inj.mp (Option.some_inj.mp h))
          exact hne

theorem grows_resend {request : ResendRequestMessage} (hrequest : request.type = .resendRequest) :
    Grows (Below env.host.self (generations env.host.self (.resendRequest request)))
      (processResendRequestMessage env request) := by
  have htype : (AnyMessage.resendRequest request).base.type = .resendRequest := hrequest
  refine grows_get.bind fun s => ?_
  split
  · exact Grows.throw _
  · exact Grows.pure _
  · next m destination hold =>
    obtain ⟨hself, hne⟩ := resends_old hold
    have hforeign : ((AnyMessage.resendRequest request).base.originatorNode == env.host.self) =
        false := beq_false_of_ne hself
    rw [generations_of htype, hforeign]
    refine ((grows_send m destination).mono fun e he => ?_).bind fun _ => Grows.pure _
    refine below_of_sent he two_pos fun m' hwire htype' => ?_
    exact Nat.lt_succ_of_le ((generations_wireTyped hwire).2 (htype' ▸ hne))

theorem grows_sendFiles (destination : IpAddress) (size i : Nat) (paths : List FilePath) :
    Grows (Below env.host.self 3) (sendFiles env destination size i paths) := by
  have hsend (m : AnyMessage) : Grows (Below env.host.self 3) (send env m destination) :=
    (grows_send m destination).mono fun e he => below_of_sent he three_pos fun m hwire _ =>
      Nat.lt_succ_of_le (generations_wireTyped hwire).1
  induction paths generalizing i with
  | nil => exact Grows.pure ()
  | cons path paths ih =>
    have hhere : Grows (Below env.host.self 3) (sendFile env destination size i path) := by
      refine (grows_onFiles _).bind fun content => (hsend _).bind fun _ => ?_
      refine (grows_onFiles _).bind fun lock => ?_
      cases lock with
      | none => exact Grows.pure ()
      | some lock => exact hsend _
    exact hhere.bind fun _ => ih _

theorem grows_syncRequest (m : Message) :
    Grows (Below env.host.self 3) (processInitialFileSyncRequestMessage env m) := by
  refine grows_get.bind fun s => (Grows.pure _).ite ?_
  refine (grows_onFiles _).bind fun paths => ?_
  exact (grows_sendFiles _ _ _ _).bind fun _ => Grows.pure _

theorem grows_linkLost (m : Message) :
    Grows (Below env.host.self 2) (processLinkLostMessage env m) := by
  refine (grows_onPeerManager _).bind fun removedIP => ?_
  cases removedIP with
  | none => exact Grows.pure _
  | some removedIP =>
    refine ((grows_send _ _).mono fun e he => ?_).bind fun _ => Grows.pure _
    refine below_of_sent he two_pos fun m hwire htype => ?_
    exact Nat.lt_succ_of_le ((generations_wireTyped hwire).2 (htype ▸ nofun))

theorem grows_unlockEach (m : Message) (paths : List FilePath) :
    Grows (Below env.host.self 1) (unlockEach env m paths) := by
  induction paths with
  | nil => exact Grows.pure ()
  | cons path paths ih =>
    refine ((grows_send _ _).mono fun e he => ?_).bind fun _ => ih
    refine below_of_sent he one_pos fun m hwire htype => ?_
    rw [generations_of htype]
    exact one_pos

theorem grows_disconnect (m : Message) :
    Grows (Below env.host.self 1) (processDisconnectMessage env m) := by
  refine grows_get.bind fun s => (Grows.pure _).ite ?_
  have hbackup : Grows (Below env.host.self 1) (removeBackup m.originatorNode) :=
    grows_modify fun _ => rfl
  refine hbackup.bind fun _ => (grows_onFiles _).bind fun paths => ?_
  exact (grows_unlockEach m paths).bind fun _ => Grows.pure _

theorem grows_connect {n : Nat} (m : ConnectMessage) :
    Grows (Below self n) (processConnectMessage m) := by
  have hadopt : Grows (Below self n) (adopt m) := grows_modify fun _ => rfl
  have hreset : Grows (Below self n) resetCounts := grows_modify fun _ => rfl
  exact hadopt.bind fun _ => (grows_onFiles _).bind fun _ => hreset.bind fun _ => Grows.pure _

/-- **What a handler puts into the queue ranks below the message.** -/
theorem grows_dispatch (m : AnyMessage) :
    Grows (Below env.host.self (generations env.host.self m)) (dispatch env m) := by
  refine grows_get.bind fun s => ?_
  dsimp only
  split
  · exact Grows.pure _
  · next htype => exact grows_resend htype
  · exact grows_onFiles _
  · exact grows_onFiles _
  · exact grows_onFiles _
  · exact grows_onFiles _
  · next m _ =>
    have hcount : Grows (Below env.host.self (generations env.host.self (.fileInitialSync m)))
        (onNode (Node.countInitialFile m)) := Grows.of_same fun _ _ _ h =>
      (EStateM.Result.ok.inj h).2 ▸ rfl
    exact hcount.bind fun _ => grows_onFiles _
  · next htype => exact generations_of htype ▸ grows_syncRequest _
  · exact grows_connect _
  · next htype => exact generations_of htype ▸ grows_disconnect _
  · next htype => exact generations_of htype ▸ grows_linkLost _
  · exact Grows.throw _

end Dispatch

/-! ## Waiting -/

section Waiting

variable {env : Circumstances} {s t : Managers} {m : AnyMessage} {processed : Bool}

/-- If the handler returns, it says that the message was processed. -/
def Finishes (s : Managers) (x : ManagersM Bool) : Prop :=
  ∀ processed t, x s = .ok processed t → processed = true

theorem finishes_pure : Finishes s (pure true) :=
  fun _ _ h => (EStateM.Result.ok.inj h).1.symm

theorem finishes_bind {α : Type} {x : ManagersM α} {f : α → ManagersM Bool}
    (hf : ∀ a u, Finishes u (f a)) : Finishes s (x >>= f) := by
  intro b t h
  obtain ⟨a, u, -, hrest⟩ := bind_eq_ok h
  exact hf a u b t hrest

theorem finishes_onFiles {x : Fs Bool} (hx : Concludes x) : Finishes s (onFiles x) := by
  intro b t h
  obtain ⟨files, hrun, -⟩ := onFiles_eq_ok h
  exact hx _ _ _ hrun

/-- What asks first whether the node has finished connecting. -/
theorem finishes_connected {x : Managers → ManagersM Bool} (hs : s.isFinishedConnecting = true)
    (hx : Finishes s (x s)) :
    Finishes s (get >>= fun s => if !s.isFinishedConnecting then pure false else x s) := by
  intro b t h
  refine hx b t ?_
  rw [← h]
  show _ = (if !s.isFinishedConnecting then _ else _ : ManagersM Bool) s
  rw [hs]
  rfl

theorem finishes_resend (request : ResendRequestMessage) :
    Finishes s (processResendRequestMessage env request) := by
  refine finishes_bind fun s u => ?_
  split
  · exact fun _ _ h => nomatch h
  · exact finishes_pure
  · exact finishes_bind fun _ _ => finishes_pure

theorem finishes_linkLost (m : Message) : Finishes s (processLinkLostMessage env m) := by
  refine finishes_bind fun removedIP u => ?_
  cases removedIP with
  | none => exact finishes_pure
  | some removedIP => exact finishes_bind fun _ _ => finishes_pure

/-- A handler that does not have to wait is done with its message. -/
theorem finishes_dispatch (hready : Waits m.base.type → s.isFinishedConnecting = true) :
    Finishes s (dispatch env m) := by
  intro b t h
  obtain ⟨_, _, hget, hrun⟩ := bind_eq_ok h
  obtain ⟨rfl, rfl⟩ := EStateM.Result.ok.inj hget
  revert b t
  suffices hfinishes : Finishes s _ from fun b t _ hrun => hfinishes b t hrun
  dsimp only
  split
  · exact finishes_pure
  · exact finishes_resend _
  · next htype => exact finishes_onFiles (hready (htype ▸ trivial) ▸ concludes_lock _)
  · next htype => exact finishes_onFiles (hready (htype ▸ trivial) ▸ concludes_unlock _)
  · next htype => exact finishes_onFiles (hready (htype ▸ trivial) ▸ concludes_delete _)
  · next htype => exact finishes_onFiles (hready (htype ▸ trivial) ▸ concludes_content _)
  · exact finishes_bind fun _ _ => finishes_onFiles (concludes_sync _)
  · next htype =>
    refine finishes_connected (hready (htype ▸ trivial)) ?_
    exact finishes_bind fun _ _ => finishes_bind fun _ _ => finishes_pure
  · exact finishes_bind fun _ _ => finishes_bind fun _ _ => finishes_bind fun _ _ => finishes_pure
  · next htype =>
    refine finishes_connected (hready (htype ▸ trivial)) ?_
    refine finishes_bind fun _ _ => finishes_bind fun _ _ => ?_
    exact finishes_bind fun _ _ => finishes_pure
  · exact finishes_linkLost _
  · exact fun _ _ h => nomatch h

/-- **When a handler puts its message back**: it has to wait, and has done nothing. -/
theorem process_false_iff (h : process env (some m) s = .ok processed t) :
    processed = false ↔ Waits m.base.type ∧ s.isFinishedConnecting = false := by
  constructor
  · rintro rfl
    by_contra hnot
    have hready : Waits m.base.type → s.isFinishedConnecting = true := fun hwaits =>
      eq_true_of_ne_false fun hs => hnot ⟨hwaits, hs⟩
    cases finishes_dispatch hready _ _ h
  · intro ⟨hwaits, hs⟩
    rw [process_waits (typed_of_process env s h) hwaits hs] at h
    exact (EStateM.Result.ok.inj h).1.symm

end Waiting

/-! ## The loop -/

/-- The queue is a heap by its priorities, and every entry holds a message that is where its type
belongs. -/
structure Arranged (s : Managers) : Prop where
  heap : Heap.IsHeap (rankLt fun _ => false) s.queue
  seated : ∀ e ∈ s.queue, ∃ m, e.2 = some m ∧ Seated e.1 m

/-- An iteration of the loop in the destructor, in whatever circumstances. -/
def Iterates (host : Host) (s t : Managers) : Prop :=
  s.queue ≠ [] ∧ ∃ env : Circumstances, env.host = host ∧ processNextMessage env s = .ok () t

/-- The node waits, and some message that has to wait goes back ahead of everything that has not. -/
def Stuck (s : Managers) : Prop :=
  s.isFinishedConnecting = false ∧ ∃ priority m again, (priority, some m) ∈ s.queue ∧
    Waits m.base.type ∧ requeuePriority m.base.type = some again ∧
    ∀ e ∈ s.queue, ¬ Waits (typeOf e) → again < e.1

section Loop

variable {host : Host} {s t : Managers} {l : Circumstances × Event}
  {ls : List (Circumstances × Event)}

theorem Grows.queue {P : Prio → Prop} {α : Type} {x : ManagersM α} {a : α} {rest : List Prio}
    (hx : Grows P x) (h : x s = .ok a t) (hrest : s.queue.Perm rest) :
    ∃ new, t.queue.Perm (new ++ rest) ∧ ∀ e ∈ new, P e := by
  obtain ⟨new, hnew, hP⟩ := hx s a t h
  exact ⟨new, hnew.trans (hrest.append_left new), hP⟩

/-- **One iteration.** The message at the front is replaced by some that rank below it; or it has to
wait, and goes back. -/
theorem iterates_cases (h : Iterates host s t) :
    ∃ priority m rest, s.queue = (priority, some m) :: rest ∧
      ((Waits m.base.type → s.isFinishedConnecting = true) ∧
        (∃ new, t.queue.Perm (new ++ rest) ∧
          ∀ e ∈ new, Below host.self (generations host.self m) e) ∨
      (Waits m.base.type ∧ s.isFinishedConnecting = false) ∧ t.isFinishedConnecting = false ∧
        ∃ again, requeuePriority m.base.type = some again ∧
          t.queue.Perm ((again, some m) :: rest)) := by
  obtain ⟨hne, env, rfl, hrun⟩ := h
  rcases call_cases hrun with ⟨hnil, -⟩ | ⟨priority, m, rest, u, hq, hcall⟩
  · exact absurd hnil hne
  · have hpop : (popped env s).queue.Perm rest := Heap.perm_pop _ hq
    refine ⟨priority, m, rest, hq, ?_⟩
    rcases hcall with ⟨hprocess, rfl⟩ | ⟨again, hprocess, hagain, rfl⟩
    · obtain ⟨new, hnew, hbelow⟩ := (grows_dispatch m).queue hprocess hpop
      refine Or.inl ⟨fun hwaits => ?_, new, hnew, hbelow⟩
      by_contra hs
      have hfalse := (process_false_iff hprocess).mpr ⟨hwaits, eq_false_of_ne_true hs⟩
      cases hfalse
    · have hwaits := (process_false_iff hprocess).mp rfl
      rw [process_waits (typed_of_process env _ hprocess) hwaits.1 hwaits.2] at hprocess
      obtain ⟨-, rfl⟩ := EStateM.Result.ok.inj hprocess
      refine Or.inr ⟨hwaits, hwaits.2, again, hagain, ?_⟩
      exact (Heap.push_perm _ _ _).trans (hpop.cons _)

theorem seated_of_below {self : IpAddress} {n : Nat} {e : Prio} (h : Below self n e) :
    ∃ m, e.2 = some m ∧ Seated e.1 m := by
  obtain ⟨m, hm, hseated, -⟩ := h
  exact ⟨m, hm, hseated⟩

theorem heap_of_step (hs : Heap.IsHeap (rankLt fun _ => false) s.queue) (h : Step s l t) :
    Heap.IsHeap (rankLt fun _ => false) t.queue := by
  have huntimed (queue : List Prio) : FilesAt (fun _ => false) queue := fun _ _ => nofun
  exact step_rankHeap (huntimed _) (fun _ => hs) h (huntimed _)

theorem Arranged.iterates (hs : Arranged s) (h : Iterates host s t) : Arranged t where
  heap := by
    obtain ⟨-, env, -, hrun⟩ := h
    exact heap_of_step (l := (env, .call)) hs.heap hrun
  seated := by
    obtain ⟨priority, m, rest, hq, hcall⟩ := iterates_cases h
    have hseated := hs.seated
    rw [hq, List.forall_mem_cons] at hseated
    obtain ⟨hfront, hrest⟩ := hseated
    intro e he
    rcases hcall with ⟨-, new, hperm, hnew⟩ | ⟨⟨hwaits, -⟩, -, again, hagain, hperm⟩
    · rcases List.mem_append.mp (hperm.mem_iff.mp he) with he | he
      · exact seated_of_below (hnew e he)
      · exact hrest e he
    · rcases List.mem_cons.mp (hperm.mem_iff.mp he) with rfl | he
      · obtain ⟨m', hm, htyped, -⟩ := hfront
        obtain rfl := Option.some_inj.mp hm
        exact ⟨m, rfl, htyped, Or.inr ⟨hwaits, hagain⟩⟩
      · exact hrest e he

/-- The generations of the messages in the queue. -/
def work (self : IpAddress) (queue : List Prio) : Multiset Nat :=
  (messages queue).map (generations self)

/-- A message that has not been put back yet. -/
def isAhead (e : Prio) : Bool := e.2.all fun m => requeuePriority m.base.type != some e.1

theorem work_perm {self : IpAddress} {q q' : List Prio} (h : q.Perm q') :
    work self q = work self q' :=
  Multiset.coe_eq_coe.mpr ((h.filterMap _).map _)

theorem work_append (self : IpAddress) (q q' : List Prio) :
    work self (q ++ q') = work self q + work self q' := by
  simp [work, messages]

theorem work_cons (self : IpAddress) (priority : Nat) (m : AnyMessage) (q : List Prio) :
    work self ((priority, some m) :: q) = generations self m ::ₘ work self q := by
  simp [work, messages]

theorem mem_work {self : IpAddress} {q : List Prio} {n : Nat} (h : n ∈ work self q) :
    ∃ e ∈ q, ∃ m, e.2 = some m ∧ generations self m = n := by
  obtain ⟨m, hm, rfl⟩ := List.mem_map.mp (Multiset.mem_coe.mp h)
  obtain ⟨e, he, hem⟩ := List.mem_filterMap.mp hm
  exact ⟨e, he, m, hem, rfl⟩

/-- What is put back is never at the priority of anything that does not have to wait. -/
theorem fresh_ne_again {waiting other : MessageType} {again : Nat} (hwaits : Waits waiting)
    (hagain : requeuePriority waiting = some again) (hother : ¬ Waits other) :
    freshPriority other ≠ again := by
  have hvalue : again = 3 ∨ again = 5 ∨ again = 6 := by
    cases waiting <;> simp [Waits, requeuePriority] at hwaits hagain
    all_goals rw [← hagain]; decide
  have hfresh : freshPriority other = 10 ∨ freshPriority other ≤ 2 ∨ freshPriority other = 4 := by
    cases other <;> simp [Waits, freshPriority, wirePriority, disconnectPriority] at hother ⊢
  omega

theorem fresh_le_again {waiting : MessageType} {again : Nat} (hwaits : Waits waiting)
    (hagain : requeuePriority waiting = some again) : freshPriority waiting ≤ again := by
  cases waiting <;> simp [Waits, requeuePriority] at hwaits hagain
  all_goals rw [← hagain]; decide

/-- Messages at the front that have been put back already: the node is stuck. -/
theorem stuck_of_again (hs : Arranged s) {again : Nat} {m : AnyMessage} {rest : List Prio}
    (hq : s.queue = (again, some m) :: rest) (hwaits : Waits m.base.type)
    (hagain : requeuePriority m.base.type = some again)
    (hwaiting : s.isFinishedConnecting = false) : Stuck s := by
  refine ⟨hwaiting, again, m, again, hq ▸ List.mem_cons_self, hwaits, hagain, ?_⟩
  intro e he hother
  have hleast : again ≤ e.1 := front_least (hq ▸ hs.heap) (hq ▸ he)
  obtain ⟨m', hm, -, hfresh | ⟨hwaits', -⟩⟩ := hs.seated e he
  · rw [typeOf, hm] at hother
    have hne := fresh_ne_again hwaits hagain hother
    rw [hfresh] at hleast ⊢
    exact lt_of_le_of_ne hleast hne.symm
  · rw [typeOf, hm] at hother
    exact absurd hwaits' hother

/-- **An iteration that is not for nothing.** -/
theorem iterates_progress (hs : Arranged s) (hnot : ¬ Stuck s) (h : Iterates host s t) :
    Progress (fun s => work host.self s.queue) (fun s => s.queue.countP isAhead) (· < ·) s t := by
  obtain ⟨priority, m, rest, hq, hcall⟩ := iterates_cases h
  rcases hcall with ⟨-, new, hperm, hnew⟩ | ⟨⟨hwaits, hwaiting⟩, -, again, hagain, hperm⟩
  · refine Or.inl ⟨work host.self new, generations host.self m, fun n hn => ?_, ?_⟩
    · obtain ⟨e, he, m', hm', rfl⟩ := mem_work hn
      obtain ⟨m'', hm'', -, hless⟩ := hnew e he
      rwa [Option.some_inj.mp (hm'.symm.trans hm'')]
    · show work host.self t.queue + _ = work host.self s.queue + _
      rw [work_perm hperm, hq, work_append, work_cons, ← Multiset.singleton_add]
      ac_rfl
  · refine Or.inr ⟨?_, ?_⟩
    · show work host.self t.queue = work host.self s.queue
      rw [work_perm hperm, hq, work_cons, work_cons]
    · have hne : priority ≠ again := by
        rintro rfl
        exact hnot (stuck_of_again hs hq hwaits hagain hwaiting)
      have hback : isAhead (again, some m) = false := by simp [isAhead, hagain]
      have hahead : isAhead (priority, some m) = true := by simp [isAhead, hagain, hne.symm]
      show t.queue.countP isAhead < s.queue.countP isAhead
      rw [hperm.countP_eq, hq, List.countP_cons_of_neg (by simp [hback]),
        List.countP_cons_of_pos hahead]
      exact Nat.lt_succ_self _

/-- What has to wait is at the front of a node that is stuck. -/
theorem Stuck.front (hs : Arranged s) (hstuck : Stuck s) :
    ∃ priority m rest, s.queue = (priority, some m) :: rest ∧ Typed m ∧ Waits m.base.type := by
  obtain ⟨hwaiting, priority, m, again, hmem, hwaits, hagain, hother⟩ := hstuck
  obtain ⟨⟨p, msgPtr⟩, rest, hq⟩ := List.exists_cons_of_ne_nil (List.ne_nil_of_mem hmem)
  obtain ⟨m', rfl, htyped, -⟩ := hs.seated (p, msgPtr) (hq ▸ List.mem_cons_self)
  refine ⟨p, m', rest, hq, htyped, ?_⟩
  by_contra hnot
  have hbehind : again < p := hother (p, some m') (hq ▸ List.mem_cons_self) hnot
  have hfront : p ≤ priority := front_least (hq ▸ hs.heap) (hq ▸ hmem)
  have hback : priority ≤ again := by
    obtain ⟨m'', hm, -, hfresh | ⟨-, hagain'⟩⟩ := hs.seated (priority, some m) hmem
    · obtain rfl := Option.some_inj.mp hm
      rw [show priority = _ from hfresh]
      exact fresh_le_again hwaits hagain
    · obtain rfl := Option.some_inj.mp hm
      exact (Option.some_inj.mp (hagain'.symm.trans hagain)).le
  omega

/-- A node that is stuck stays so. -/
theorem Stuck.iterates (host : Host) (hs : Arranged s) (hstuck : Stuck s) :
    ∃ t, Iterates host s t ∧ Stuck t := by
  obtain ⟨p, front, rest, hq, htyped, hfront⟩ := hstuck.front hs
  obtain ⟨hwaiting, priority, m, again, hmem, hwaits, hagain, hother⟩ := hstuck
  let env : Circumstances := ⟨host, fun _ _ => false, fun _ => .utc 0, fun _ => .utc 0, fun _ => 0,
    fun _ => 0, fun _ => none⟩
  obtain ⟨frontAgain, hfrontAgain, hrun⟩ := @call_waits env _ _ _ _ hq htyped hfront hwaiting
  refine ⟨_, ⟨hq ▸ List.cons_ne_nil _ _, env, rfl, hrun⟩, hwaiting, ?_⟩
  have hperm : (Heap.push (PrioComp env.undefined) (Heap.pop (PrioComp env.undefined) s.queue)
      (frontAgain, some front)).Perm ((frontAgain, some front) :: rest) :=
    (Heap.push_perm _ _ _).trans ((Heap.perm_pop _ hq).cons _)
  have hbehind : ∀ e ∈ (frontAgain, some front) :: rest, ¬ Waits (typeOf e) → again < e.1 := by
    intro e he hnot
    rcases List.mem_cons.mp he with rfl | he
    · exact absurd hfront hnot
    · exact hother e (hq ▸ List.mem_cons_of_mem _ he) hnot
  rw [hq] at hmem
  rcases List.mem_cons.mp hmem with heq | hmem
  · obtain ⟨rfl, hm⟩ := Prod.mk.inj heq
    obtain rfl := Option.some_inj.mp hm
    obtain rfl := Option.some_inj.mp (hagain.symm.trans hfrontAgain)
    refine ⟨again, m, again, hperm.mem_iff.mpr List.mem_cons_self, hwaits, hagain, fun e he => ?_⟩
    exact hbehind e (hperm.mem_iff.mp he)
  · refine ⟨priority, m, again, hperm.mem_iff.mpr (List.mem_cons_of_mem _ hmem), hwaits, hagain,
      fun e he => ?_⟩
    exact hbehind e (hperm.mem_iff.mp he)

/-- One event; what arrives has come from another node, or from a thread of this one. -/
def FreshStep (s : Managers) (l : Circumstances × Event) (t : Managers) : Prop :=
  Step s l t ∧ ∀ priority m, l.2 = .arrive priority m → Fresh priority m

theorem step_arranged (hs : Arranged s) (h : FreshStep s l t) : Arranged t := by
  obtain ⟨env, event⟩ := l
  obtain ⟨hstep, hfresh⟩ := h
  cases event with
  | arrive priority m =>
    refine ⟨heap_of_step hs.heap hstep, fun e he => ?_⟩
    obtain ⟨-, rfl⟩ := EStateM.Result.ok.inj hstep
    rcases List.mem_cons.mp ((Heap.push_perm _ _ _).mem_iff.mp he) with rfl | he
    · obtain ⟨htyped, hpriority⟩ := typed_of_fresh (hfresh priority m rfl)
      exact ⟨m, rfl, htyped, Or.inl hpriority⟩
    · exact hs.seated e he
  | call =>
    by_cases hq : s.queue = []
    · have hrun : processNextMessage env s = .ok () t := hstep
      rw [processNextMessage_nil hq] at hrun
      obtain ⟨-, rfl⟩ := EStateM.Result.ok.inj hrun
      exact hs
    · exact hs.iterates ⟨hq, env, rfl, hstep⟩

/-- **Every run.** -/
theorem run_arranged (hs : s.queue = []) (run : Trace FreshStep s ls t) : Arranged t := by
  have harranged : Arranged s := by
    refine ⟨hs ▸ Heap.isHeap_nil, fun e he => ?_⟩
    rw [hs] at he
    cases he
  clear hs
  induction run with
  | nil => exact harranged
  | cons first _ ih => exact ih (step_arranged harranged first)

theorem not_terminates_of_stuck (hs : Arranged s) (hstuck : Stuck s) :
    ¬ Terminates (Iterates host) s := by
  refine not_terminates (P := fun s => Arranged s ∧ Stuck s) (fun s ⟨hs, hstuck⟩ => ?_)
    ⟨hs, hstuck⟩
  obtain ⟨t, hiterates, ht⟩ := hstuck.iterates host hs
  exact ⟨t, hiterates, hs.iterates hiterates, ht⟩

end Loop

/-- **Shutting down.** Whatever is in the queue, and whatever comes of each iteration: the loop ends
if and only if it never comes to where the node waits, and a message that has to wait goes back
ahead of everything that has not. Every queue is arranged as this needs it. -/
theorem shutdown_terminates_iff (host : Host) :
    (∀ s, Arranged s → (Terminates (Iterates host) s ↔
      ∀ t, Relation.ReflTransGen (Iterates host) s t → ¬ Stuck t)) ∧
    ∀ s ls t, s.queue = [] → Trace FreshStep s ls t → Arranged t := by
  refine ⟨fun s hs => ?_, fun s ls t hs run => run_arranged hs run⟩
  refine terminates_iff_never (fun s => work host.self s.queue) (fun s => s.queue.countP isAhead)
    Nat.lt_wfRel.wf (fun _ _ hs h => hs.iterates h) ?_ (fun _ hs h => h.iterates host hs) hs
  intro s t hs hnot h
  exact iterates_progress hs hnot h

/-! ## One unlock -/

/-- A node with the one file `docs/a`, and an unlock that has arrived. -/
def unlockArrived (receivedInitialFiles : UInt64) : Managers := { joinedDocs with
  queue := [(lockPriority, some lateUnlock)]
  receivedInitialFiles
  emplaced := [lateUnlock] }

theorem unlockArrived_run (receivedInitialFiles : UInt64) :
    Trace FreshStep { joinedDocs with receivedInitialFiles }
      [(readerCircumstances, .arrive lockPriority lateUnlock)]
      (unlockArrived receivedInitialFiles) := by
  refine .cons ⟨rfl, fun priority m hl => ?_⟩ (.nil _)
  obtain ⟨rfl, rfl⟩ := Event.arrive.inj hl
  exact lateUnlock_fresh

/-- The sync of `docs/a`, as it arrives. -/
def lateSync : AnyMessage :=
  (PeerManager.stamp .littleEndian (.utc 600000000) (.ipv4 0x0a000001) (.ipv4 0x0a000002)
    (.fileInitialSync { syncDocs with timestamp := 1500000000 })).received

theorem lateSync_fresh : Fresh lockPriority lateSync := by
  have hfits : (AnyMessage.fileInitialSync { syncDocs with timestamp := 1500000000 }).Fits :=
    ⟨by decide, by decide⟩
  have haccepted : deserializeMessage .littleEndian (.utc 0) (frame .littleEndian (.utc 600000000)
      (.ipv4 0x0a000001) (.ipv4 0x0a000002)
      (.fileInitialSync { syncDocs with timestamp := 1500000000 })) =
      .enqueued lockPriority lateSync := by
    rw [deserializeMessage_file (m := .fileInitialSync { syncDocs with timestamp := 1500000000 })
      _ _ _ _ _ rfl hfits rfl, if_pos (by decide)]
    rfl
  exact .received haccepted

/-- A node that joins, once an unlock and its one file have arrived. -/
def fileArrived : Managers := { unlockArrived 0 with
  queue := [(lockPriority, some lateUnlock), (lockPriority, some lateSync)]
  emplaced := [lateSync, lateUnlock] }

theorem fileArrived_run : Trace FreshStep { joinedDocs with receivedInitialFiles := 0 }
    [(readerCircumstances, .arrive lockPriority lateUnlock),
      (readerCircumstances, .arrive lockPriority lateSync)] fileArrived := by
  refine (unlockArrived_run 0).append (.cons ⟨rfl, fun priority m hl => ?_⟩ (.nil _))
  obtain ⟨rfl, rfl⟩ := Event.arrive.inj hl
  exact lateSync_fresh

/-- Where the loop may be: both messages are queued, or the unlock is left, or nothing is. -/
inductive Joins (t : Managers) : Prop
  | both {priority : Nat} (counts : Counts 0 1 t)
      (queue : t.queue.Perm [(priority, some lateUnlock), (lockPriority, some lateSync)])
  | unlock {priority : Nat} (connected : t.isFinishedConnecting = true)
      (queue : t.queue = [(priority, some lateUnlock)])
  | nothing (queue : t.queue = [])

/-- The unlock goes back behind the file. -/
theorem Joins.not_stuck {t : Managers} (h : Joins t) : ¬ Stuck t := by
  rintro ⟨hwaiting, priority, m, again, hmem, hwaits, hagain, hahead⟩
  cases h with
  | both _ hqueue =>
    have hbehind := hahead _ (hqueue.mem_iff.mpr (List.mem_cons_of_mem _ (List.mem_singleton_self _)))
      nofun
    rcases List.mem_cons.mp (hqueue.mem_iff.mp hmem) with hm | hm
    · obtain rfl := Option.some_inj.mp (Prod.mk.inj hm).2
      obtain rfl := Option.some_inj.mp hagain
      exact absurd hbehind (by decide)
    · obtain rfl := Option.some_inj.mp (Prod.mk.inj (List.mem_singleton.mp hm)).2
      exact hwaits
  | unlock hconnected _ =>
    rw [hwaiting] at hconnected
    cases hconnected
  | nothing hqueue =>
    rw [hqueue] at hmem
    cases hmem

theorem Joins.iterates {s t : Managers} (h : Joins s) (hstep : Iterates reader s t) : Joins t := by
  obtain ⟨priority, m, rest, hq, hcall⟩ := iterates_cases hstep
  -- No message comes of either of the two.
  have hnone {new : List Prio} (hgenerations : generations reader.self m = 0)
      (hnew : ∀ e ∈ new, Below reader.self (generations reader.self m) e) : new = [] := by
    refine List.eq_nil_iff_forall_not_mem.mpr fun e he => ?_
    obtain ⟨m', -, -, hless⟩ := hnew e he
    rw [hgenerations] at hless
    exact Nat.not_lt_zero _ hless
  cases h with
  | both hcounts hqueue =>
    have hwaiting : s.isFinishedConnecting = false := by
      rw [Node.isFinishedConnecting, hcounts.1, hcounts.2]
      rfl
    obtain ⟨-, env, -, hrun⟩ := hstep
    rw [hq] at hqueue
    rcases List.mem_cons.mp (hqueue.mem_iff.mp List.mem_cons_self) with hfront | hfront
    · -- The unlock goes back.
      obtain ⟨rfl, hm⟩ := Prod.mk.inj hfront
      obtain rfl := Option.some_inj.mp hm
      obtain ⟨again, -, hback⟩ := @call_waits env s _ _ _ hq (Or.inr (Or.inl rfl)) trivial hwaiting
      obtain ⟨-, rfl⟩ := EStateM.Result.ok.inj (hback.symm.trans hrun)
      refine .both hcounts ((Heap.push_perm _ _ _).trans (((Heap.perm_pop _ hq).trans ?_).cons _))
      exact (List.perm_cons _).mp hqueue
    · -- The file is stored, and the node has finished connecting.
      obtain ⟨rfl, hm⟩ := Prod.mk.inj (List.mem_singleton.mp hfront)
      obtain rfl := Option.some_inj.mp hm
      have hrest := (List.perm_cons _).mp (hqueue.trans (List.Perm.swap _ _ []))
      rcases hcall with ⟨-, new, hperm, hnew⟩ | ⟨⟨hwaits, -⟩, -⟩
      · rw [hnone rfl hnew, List.nil_append] at hperm
        obtain ⟨u, ⟨hprocess, rfl⟩ | ⟨-, hprocess, -, -⟩⟩ := call_front hq hrun
        · have hafter : Counts (s.receivedInitialFiles + 1) 1 u :=
            processes_counts ⟨true, hprocess⟩
          rw [hcounts.1] at hafter
          exact .unlock ((isFinishedConnecting_iff hafter).mpr rfl)
            (List.perm_singleton.mp (hperm.trans hrest))
        · exact ((process_false_iff hprocess).mp rfl).1.elim
      · exact hwaits.elim
  | unlock hconnected hqueue =>
    obtain ⟨hfront, rfl⟩ := List.cons.inj (hq.symm.trans hqueue)
    obtain rfl := Option.some_inj.mp (Prod.mk.inj hfront).2
    rcases hcall with ⟨-, new, hperm, hnew⟩ | ⟨⟨-, hwaiting⟩, -⟩
    · rw [hnone rfl hnew, List.append_nil] at hperm
      exact .nothing hperm.eq_nil
    · rw [hconnected] at hwaiting
      cases hwaiting
  | nothing hqueue => exact absurd hqueue hstep.1

/-- A node that joins shuts down with an unlock in its queue, as its file is there as well. -/
theorem fileArrived_terminates : Terminates (Iterates reader) fileArrived := by
  have harranged := (shutdown_terminates_iff reader).2 _ _ _ rfl fileArrived_run
  refine ((shutdown_terminates_iff reader).1 _ harranged).mpr fun t hrun => Joins.not_stuck ?_
  induction hrun with
  | refl => exact .both ⟨rfl, rfl⟩ (List.Perm.refl _)
  | tail _ hlast ih => exact ih.iterates hlast

/-- Without the file it goes on for ever. -/
theorem unlockArrived_waits : ¬ ∀ (host : Host) (s : Managers)
    (ls : List (Circumstances × Event)) (t : Managers), s.queue = [] → Trace FreshStep s ls t →
      Terminates (Iterates host) t := by
  intro h
  refine not_terminates_of_stuck (run_arranged rfl (unlockArrived_run 0)) ⟨rfl, lockPriority,
    lateUnlock, 5, List.mem_cons_self, trivial, rfl, fun e he hnot => ?_⟩
    (h reader _ _ _ rfl (unlockArrived_run 0))
  obtain rfl := List.mem_singleton.mp he
  exact absurd trivial hnot

end Managers

end WhisperNet
