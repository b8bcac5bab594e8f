import WhisperNet.Joining
import WhisperNet.RoutingHeader
import WhisperNet.Shutdown

/-!
# Waiting for the initial syncs

A node that joins puts most messages back until it has received all files. They go back behind the
initial syncs, at 5 and 6, but for a disconnect, which goes back at 3: ahead of them, and so it is
the next to be processed again and again.

* `starved_step` — with a disconnect in the queue the node makes no progress.
* `Awaiting.step` — without one, each call leaves the files to come in the queue.
* `syncs_not_starved` — when a node that joins finishes connecting.
-/

namespace WhisperNet

open Bin Effect MessageManager PeerManager Worklist

namespace Managers

/-! ## Calls one after the other -/

/-- `processNextMessage`, unless an exception leaves it. -/
def afterCall (env : Circumstances) (s : Managers) : Option Managers :=
  match processNextMessage env s with
  | .ok _ t => some t
  | .error _ _ => none

/-- The node after so many calls, in these circumstances, with nothing that arrives. -/
def calls (envs : ℕ → Circumstances) (s : Managers) : ℕ → Option Managers
  | 0 => some s
  | n + 1 => (calls envs s n).bind (afterCall (envs n))

/-- After some number of calls the node has finished connecting. -/
def Connects (envs : ℕ → Circumstances) (s : Managers) : Prop :=
  ∃ n t, calls envs s n = some t ∧ t.isFinishedConnecting = true

/-- The node after so many calls, if it has not finished connecting until then. -/
structure Joining (envs : ℕ → Circumstances) (s : Managers) (n : ℕ) (t : Managers) : Prop where
  reached : calls envs s n = some t
  waiting : ∀ k ≤ n, ∀ u, calls envs s k = some u → u.isFinishedConnecting = false

section Calls

variable {env : Circumstances} {envs : ℕ → Circumstances} {s t u : Managers} {n : ℕ}

theorem afterCall_eq_some : afterCall env s = some t ↔ processNextMessage env s = .ok () t := by
  unfold afterCall
  cases h : processNextMessage env s with
  | ok a u =>
    simp only [Option.some_inj]
    exact ⟨fun heq => by rw [heq], fun heq => (EStateM.Result.ok.inj heq).2⟩
  | error e u => simp

theorem calls_succ (h : calls envs s n = some t) :
    calls envs s (n + 1) = afterCall (envs n) t := by
  rw [calls, h, Option.bind_some]

/-- Later calls need those before. -/
theorem calls_of_le {k : ℕ} (h : calls envs s n = some t) (hk : k ≤ n) :
    ∃ u, calls envs s k = some u := by
  induction n generalizing t with
  | zero =>
    obtain rfl := Nat.le_zero.mp hk
    exact ⟨t, h⟩
  | succ n ih =>
    rcases Nat.le_succ_iff.mp hk with hk | rfl
    · obtain ⟨v, hv, -⟩ := Option.bind_eq_some_iff.mp h
      exact ih hv hk
    · exact ⟨t, h⟩

theorem Joining.zero (h : s.isFinishedConnecting = false) : Joining envs s 0 s where
  reached := rfl
  waiting k hk u hu := by
    obtain rfl := Nat.le_zero.mp hk
    obtain rfl := Option.some_inj.mp hu
    exact h

theorem Joining.succ (h : Joining envs s n t) (hcall : calls envs s (n + 1) = some u)
    (hu : u.isFinishedConnecting = false) : Joining envs s (n + 1) u where
  reached := hcall
  waiting k hk v hv := by
    rcases Nat.le_succ_iff.mp hk with hk | rfl
    · exact h.waiting k hk v hv
    · obtain rfl := Option.some_inj.mp (hcall.symm.trans hv)
      exact hu

end Calls

/-! ## A disconnect -/

/-- The type of one of the messages in the queue. -/
def Holds (type : MessageType) (queue : List Prio) : Prop := ∃ e ∈ queue, typeOf e = type

section Starving

variable {env : Circumstances} {s t : Managers} {e : Prio}

theorem Arranged.call (hs : Arranged s) (h : processNextMessage env s = .ok () t) :
    Arranged t := by
  by_cases hq : s.queue = []
  · rw [processNextMessage_nil hq] at h
    obtain ⟨-, rfl⟩ := EStateM.Result.ok.inj h
    exact hs
  · exact hs.iterates ⟨hq, env, rfl, h⟩

/-- An entry at the priority of its type, or at the one it goes back to. -/
theorem Arranged.entry (hs : Arranged s) (he : e ∈ s.queue) : ∃ m, e.2 = some m ∧ Typed m ∧
    (e.1 = freshPriority (typeOf e) ∨
      Waits (typeOf e) ∧ requeuePriority (typeOf e) = some e.1) := by
  obtain ⟨m, hm, htyped, hpriority⟩ := hs.seated e he
  refine ⟨m, hm, htyped, ?_⟩
  rw [typeOf, hm]
  exact hpriority

theorem Arranged.typed {priority : Nat} {m : AnyMessage} (hs : Arranged s)
    (he : (priority, some m) ∈ s.queue) : Typed m := by
  obtain ⟨m', hm, htyped, -⟩ := hs.entry he
  obtain rfl := Option.some_inj.mp hm
  exact htyped

/-- A disconnect is ahead of the initial syncs. -/
theorem Arranged.disconnect_le (hs : Arranged s) (he : e ∈ s.queue)
    (htype : typeOf e = .disconnect) : e.1 ≤ 3 := by
  obtain ⟨m, -, -, hpriority | ⟨-, hpriority⟩⟩ := hs.entry he
  · rw [htype] at hpriority
    rw [hpriority]
    decide
  · rw [htype] at hpriority
    rw [← Option.some_inj.mp hpriority]
    decide

theorem Arranged.sync_eq (hs : Arranged s) (he : e ∈ s.queue)
    (htype : typeOf e = .initialSync) : e.1 = 4 := by
  obtain ⟨m, -, -, hpriority | ⟨hwaits, -⟩⟩ := hs.entry he
  · rwa [htype] at hpriority
  · rw [htype] at hwaits
    exact hwaits.elim

/-- What a call does to the counters. -/
theorem call_counts {priority : Nat} {m : AnyMessage} {rest : List Prio}
    (hq : s.queue = (priority, some m) :: rest) (h : processNextMessage env s = .ok () t) :
    Counts (counted s.receivedInitialFiles s.totalInitialFiles m).1
      (counted s.receivedInitialFiles s.totalInitialFiles m).2 t := by
  obtain ⟨u, hcall⟩ := call_front hq h
  have hcounts : ∀ processed, process env (some m) (popped env s) = .ok processed u →
      Counts (counted s.receivedInitialFiles s.totalInitialFiles m).1
        (counted s.receivedInitialFiles s.totalInitialFiles m).2 u := by
    intro processed hprocess
    have hprocesses : Processes (popped env s) (env, m) u := ⟨processed, hprocess⟩
    have hcounts : Counts (counted (popped env s).receivedInitialFiles
        (popped env s).totalInitialFiles m).1 (counted (popped env s).receivedInitialFiles
        (popped env s).totalInitialFiles m).2 u := processes_counts hprocesses
    exact hcounts
  rcases hcall with ⟨hprocess, rfl⟩ | ⟨again, hprocess, -, rfl⟩
  · exact hcounts true hprocess
  · exact hcounts false hprocess

/-- **A disconnect in the queue stays there, and nothing is counted.** -/
theorem starved_step (hs : Arranged s) (hwaiting : s.isFinishedConnecting = false)
    (hheld : Holds .disconnect s.queue) (h : processNextMessage env s = .ok () t) :
    t.isFinishedConnecting = false ∧ Holds .disconnect t.queue := by
  obtain ⟨e, he, htype⟩ := hheld
  have hne : s.queue ≠ [] := List.ne_nil_of_mem he
  obtain ⟨priority, m, rest, hq, hcall⟩ := iterates_cases ⟨hne, env, rfl, h⟩
  have hfront : (priority, some m) ∈ s.queue := hq ▸ List.mem_cons_self
  have hle : priority ≤ 3 :=
    (front_least (hq ▸ hs.heap) (hq ▸ he)).trans (hs.disconnect_le he htype)
  constructor
  · have hcounts := call_counts hq h
    have hsame : (counted s.receivedInitialFiles s.totalInitialFiles m).1 ≠
        (counted s.receivedInitialFiles s.totalInitialFiles m).2 := by
      have hne' : s.receivedInitialFiles ≠ s.totalInitialFiles := by
        intro heq
        rw [Node.isFinishedConnecting, heq, beq_self_eq_true] at hwaiting
        cases hwaiting
      cases m with
      | fileInitialSync m =>
        -- An initial sync is not at the front.
        have hfour : priority = 4 := hs.sync_eq hfront (hs.typed hfront)
        omega
      | connect m => exact (by decide : (0 : UInt64) ≠ 1)
      | message m | payload m | resendRequest m | file m | fileContent m => exact hne'
    rw [Node.isFinishedConnecting, hcounts.1, hcounts.2]
    exact beq_false_of_ne hsame
  · rw [hq] at he
    rcases hcall with ⟨hnot, new, hperm, -⟩ | ⟨-, -, again, -, hperm⟩
    · rcases List.mem_cons.mp he with rfl | he
      · have hwaits : Waits m.base.type := by
          have hm : m.base.type = .disconnect := htype
          rw [hm]
          trivial
        rw [hnot hwaits] at hwaiting
        cases hwaiting
      · exact ⟨e, hperm.mem_iff.mpr (List.mem_append_right _ he), htype⟩
    · rcases List.mem_cons.mp he with rfl | he
      · exact ⟨(again, some m), hperm.mem_iff.mpr List.mem_cons_self, htype⟩
      · exact ⟨e, hperm.mem_iff.mpr (List.mem_cons_of_mem _ he), htype⟩

end Starving

/-! ## What a waiting node sends itself -/

/-- A request in the queue has the node resend a message of this type. -/
def Resends (self : IpAddress) (s : Managers) (type : MessageType) : Prop :=
  ∃ request m destination, .resendRequest request ∈ messages s.queue ∧
    MessageManager.processResendRequestMessage self s.oldMessages request =
      some (some (m, destination)) ∧
    m.base.type = type

section Sending

variable {env : Circumstances} {s t : Managers}

theorem typeOf_sent {self : IpAddress} {type : MessageType} {e : Prio} (h : Sent self type e) :
    typeOf e = type ∨ typeOf e = .resendRequest := by
  rcases h with ⟨-, priority, request, rfl, htype, -⟩ | ⟨m, rfl, -, htype⟩
  · exact Or.inr htype
  · exact Or.inl htype

/-- Of the messages that need not wait, a lost link sends a disconnect. -/
theorem grows_waiting {m : AnyMessage} (hwaits : ¬ Waits m.base.type)
    (hconnect : m.base.type ≠ .connect) (hresend : m.base.type ≠ .resendRequest) :
    Grows (fun e => typeOf e = .disconnect ∨ typeOf e = .resendRequest) (dispatch env m) := by
  refine grows_get.bind fun s => ?_
  dsimp only
  split
  · exact Grows.pure _
  · next htype => exact absurd htype hresend
  · next htype => exact absurd (htype ▸ trivial) hwaits
  · next htype => exact absurd (htype ▸ trivial) hwaits
  · next htype => exact absurd (htype ▸ trivial) hwaits
  · next htype => exact absurd (htype ▸ trivial) hwaits
  · next m _ =>
    have hcount : Grows (fun e => typeOf e = .disconnect ∨ typeOf e = .resendRequest)
        (onNode (Node.countInitialFile m)) := grows_modify fun _ => rfl
    exact hcount.bind fun _ => grows_onFiles _
  · next htype => exact absurd (htype ▸ trivial) hwaits
  · next htype => exact absurd htype hconnect
  · next htype => exact absurd (htype ▸ trivial) hwaits
  · refine (grows_onPeerManager _).bind fun removedIP => ?_
    cases removedIP with
    | none => exact Grows.pure _
    | some removedIP =>
      exact ((grows_send _ _).mono fun e he => typeOf_sent he).bind fun _ => Grows.pure _
  · exact Grows.throw _

/-- A request has an old message sent. -/
theorem resend_grows {request : ResendRequestMessage} {processed : Bool}
    (h : processResendRequestMessage env request s = .ok processed t) :
    ∃ new, t.queue.Perm (new ++ s.queue) ∧ ∀ e ∈ new, typeOf e = .resendRequest ∨
      ∃ m destination, MessageManager.processResendRequestMessage env.host.self s.oldMessages
        request = some (some (m, destination)) ∧ m.base.type = typeOf e := by
  obtain ⟨_, _, hget, h⟩ := bind_eq_ok h
  obtain ⟨rfl, rfl⟩ := EStateM.Result.ok.inj hget
  match hold : MessageManager.processResendRequestMessage env.host.self s.oldMessages request with
  | none =>
    rw [hold] at h
    cases h
  | some none =>
    rw [hold] at h
    obtain ⟨-, rfl⟩ := EStateM.Result.ok.inj h
    exact ⟨[], List.Perm.refl _, fun e he => absurd he List.not_mem_nil⟩
  | some (some (m, destination)) =>
    rw [hold] at h
    have hgrows : Grows (Sent env.host.self m.base.type) (send env m destination >>= fun _ =>
        (pure true : ManagersM Bool)) := (grows_send m destination).bind fun _ => Grows.pure _
    obtain ⟨new, hperm, hnew⟩ := hgrows s processed t h
    refine ⟨new, hperm, fun e he => ?_⟩
    rcases typeOf_sent (hnew e he) with htype | htype
    · exact Or.inr ⟨m, destination, rfl, htype.symm⟩
    · exact Or.inl htype

/-- **What a call puts into the queue of a waiting node**: a disconnect, requests, or what the node
has been asked to resend. -/
theorem call_grows {priority : Nat} {m : AnyMessage} {rest : List Prio}
    (hq : s.queue = (priority, some m) :: rest) (hwaits : ¬ Waits m.base.type)
    (hconnect : m.base.type ≠ .connect) (h : processNextMessage env s = .ok () t) :
    ∃ new, t.queue.Perm (new ++ rest) ∧ ∀ e ∈ new, typeOf e = .disconnect ∨
      typeOf e = .resendRequest ∨ Resends env.host.self s (typeOf e) := by
  obtain ⟨u, hcall⟩ := call_front hq h
  have hpop : (popped env s).queue.Perm rest := Heap.perm_pop _ hq
  rcases hcall with ⟨hprocess, rfl⟩ | ⟨again, hprocess, -, -⟩
  · by_cases hresend : m.base.type = .resendRequest
    · obtain ⟨request, rfl⟩ := (typed_of_process env _ hprocess).of_resendRequest hresend
      rw [process_resendRequest _ _ hresend] at hprocess
      obtain ⟨new, hperm, hnew⟩ := resend_grows hprocess
      refine ⟨new, hperm.trans (hpop.append_left new), fun e he => ?_⟩
      rcases hnew e he with htype | ⟨m, destination, hold, htype⟩
      · exact Or.inr (Or.inl htype)
      · refine Or.inr (Or.inr ⟨request, m, destination, ?_, hold, htype⟩)
        rw [hq]
        exact List.mem_cons_self
    · obtain ⟨new, hperm, hnew⟩ :=
        (grows_waiting hwaits hconnect hresend).queue hprocess hpop
      refine ⟨new, hperm, fun e he => ?_⟩
      rcases hnew e he with htype | htype
      · exact Or.inl htype
      · exact Or.inr (Or.inl htype)
  · exact absurd ((process_false_iff hprocess).mp rfl).1 hwaits

end Sending

/-! ## The files to come -/

/-- The initial syncs in the queue that carry the total the node has been told. -/
def filesToCome (s : Managers) : Nat :=
  (syncs (messages s.queue)).countP fun m => m.total == s.totalInitialFiles

/-- A node that has not finished connecting, with all the files still to come in its queue, and no
connect. -/
structure Awaiting (s : Managers) : Prop where
  arranged : Arranged s
  waiting : s.isFinishedConnecting = false
  noConnect : ¬ Holds .connect s.queue
  remaining : (s.totalInitialFiles - s.receivedInitialFiles).toNat ≤ filesToCome s

/-- Nothing keeps the node from the files: there is no disconnect, every initial sync carries the
same total, and no request has the node resend a connect, which might come back to it. -/
structure Unhindered (own : IpAddress) (s : Managers) : Prop where
  noDisconnect : ¬ Holds .disconnect s.queue
  sameTotal : ∀ m ∈ syncs (messages s.queue), m.total = s.totalInitialFiles
  noConnect : ¬ Resends own s .connect

section Files

variable {env : Circumstances} {s t : Managers} {e : Prio}

/-- Only an initial sync is one. -/
theorem sync?_eq_none {m : AnyMessage} (h : Typed m) (htype : m.base.type ≠ .initialSync) :
    m.sync? = none := by
  cases m with
  | fileInitialSync m => exact absurd h htype
  | message m | payload m | resendRequest m | file m | fileContent m | connect m => rfl

theorem syncs_perm {q q' : List Prio} (h : q.Perm q') :
    (syncs (messages q)).Perm (syncs (messages q')) :=
  (h.filterMap _).filterMap _

theorem syncs_messages_append (q q' : List Prio) :
    syncs (messages (q ++ q')) = syncs (messages q) ++ syncs (messages q') := by
  simp [syncs, messages]

theorem syncs_cons (priority : Nat) (m : AnyMessage) (q : List Prio) :
    syncs (messages ((priority, some m) :: q)) = m.sync?.toList ++ syncs (messages q) := by
  cases h : m.sync? <;> simp [syncs, messages, h]

/-- The initial syncs in a queue. -/
theorem mem_syncs {q : List Prio} {m : FileInitialSyncMessage} (h : m ∈ syncs (messages q)) :
    ∃ e ∈ q, ∃ m', e.2 = some m' ∧ m'.sync? = some m := by
  obtain ⟨m', hm', hsync⟩ := List.mem_filterMap.mp h
  obtain ⟨e, he, hem⟩ := List.mem_filterMap.mp hm'
  exact ⟨e, he, m', hem, hsync⟩

/-- No file is to come once the counters agree. -/
theorem eq_of_remaining_zero {total received : UInt64} (h : (total - received).toNat = 0) :
    total = received := by
  have hsub : total - received = 0 := UInt64.toNat_inj.mp h
  rw [← UInt64.sub_add_cancel total received, hsub, UInt64.zero_add]

/-- One file less. -/
theorem remaining_pred {total received : UInt64} (h : total ≠ received) :
    (total - (received + 1)).toNat = (total - received).toNat - 1 := by
  have hpos : (total - received).toNat ≠ 0 := fun hzero => h (eq_of_remaining_zero hzero)
  rw [UInt64.toNat_sub] at hpos ⊢
  rw [UInt64.toNat_sub, UInt64.toNat_add, UInt64.toNat_one]
  have htotal := total.toNat_lt
  have hreceived := received.toNat_lt
  omega

theorem Awaiting.counters_ne (h : Awaiting s) : s.totalInitialFiles ≠ s.receivedInitialFiles := by
  intro heq
  have hwaiting := h.waiting
  rw [Node.isFinishedConnecting, heq, beq_self_eq_true] at hwaiting
  cases hwaiting

/-- There is a file to come. -/
theorem Awaiting.holds_sync (h : Awaiting s) : Holds .initialSync s.queue := by
  have hpos : 0 < filesToCome s := by
    refine lt_of_lt_of_le (Nat.pos_of_ne_zero fun hzero => ?_) h.remaining
    exact h.counters_ne (eq_of_remaining_zero hzero)
  obtain ⟨m, hm, -⟩ := List.countP_pos_iff.mp hpos
  obtain ⟨e, he, m', hem, hsync⟩ := mem_syncs hm
  refine ⟨e, he, ?_⟩
  by_contra hne
  obtain ⟨m'', hm'', htyped, -⟩ := h.arranged.entry he
  obtain rfl := Option.some_inj.mp (hem.symm.trans hm'')
  rw [typeOf, hem] at hne
  rw [sync?_eq_none htyped hne] at hsync
  cases hsync

/-- Nothing but a disconnect goes back ahead of them. -/
theorem Awaiting.not_stuck (h : Awaiting s) (hnone : ¬ Holds .disconnect s.queue) : ¬ Stuck s := by
  intro ⟨_, priority, m, again, hmem, hwaits, hagain, hother⟩
  obtain ⟨e, he, htype⟩ := h.holds_sync
  have hlt : again < 4 := by
    rw [← h.arranged.sync_eq he htype]
    refine hother e he ?_
    rw [htype]
    exact id
  refine hnone ⟨(priority, some m), hmem, ?_⟩
  show m.base.type = .disconnect
  cases hm : m.base.type <;> rw [hm] at hwaits hagain <;>
    first | rfl | exact hwaits.elim | skip
  all_goals
    rw [← Option.some_inj.mp hagain] at hlt
    exact absurd hlt (by decide)

/-- A call that counts a file. -/
theorem Awaiting.step_sync (h : Awaiting s) (hclear : Unhindered env.host.self s)
    {priority : Nat} {m : FileInitialSyncMessage} {rest : List Prio}
    (hq : s.queue = (priority, some (.fileInitialSync m)) :: rest) (hperm : t.queue.Perm rest)
    (hcall : processNextMessage env s = .ok () t) :
    t.isFinishedConnecting = true ∨ Awaiting t := by
  have hsyncs : syncs (messages s.queue) = m :: syncs (messages rest) := by
    rw [hq]
    exact syncs_cons _ _ _
  have htotal : m.total = s.totalInitialFiles :=
    hclear.sameTotal m (hsyncs ▸ List.mem_cons_self)
  obtain ⟨hreceived, htotal'⟩ := call_counts hq hcall
  have htotals : t.totalInitialFiles = s.totalInitialFiles := htotal'.trans htotal
  have hfiles : filesToCome t + 1 = filesToCome s := by
    rw [filesToCome, filesToCome, (syncs_perm hperm).countP_eq, htotals, hsyncs,
      List.countP_cons_of_pos (by rw [htotal, beq_self_eq_true])]
  cases hconnected : t.isFinishedConnecting with
  | true => exact Or.inl rfl
  | false =>
    refine Or.inr ⟨h.arranged.call hcall, hconnected, ?_, ?_⟩
    · intro ⟨e, he, htype⟩
      refine h.noConnect ⟨e, ?_, htype⟩
      rw [hq]
      exact List.mem_cons_of_mem _ (hperm.mem_iff.mp he)
    · have hremaining := h.remaining
      rw [htotals, hreceived]
      have hpred : (s.totalInitialFiles - (s.receivedInitialFiles + 1)).toNat =
          (s.totalInitialFiles - s.receivedInitialFiles).toNat - 1 := remaining_pred h.counters_ne
      show (s.totalInitialFiles - (s.receivedInitialFiles + 1)).toNat ≤ _
      omega

/-- A call that leaves the files where they are. -/
theorem Awaiting.step_other (h : Awaiting s) {priority : Nat} {m : AnyMessage}
    {rest new : List Prio} (hq : s.queue = (priority, some m) :: rest)
    (hne : m.base.type ≠ .initialSync) (hperm : t.queue.Perm (new ++ rest))
    (hnew : ∀ e ∈ new, typeOf e ≠ .connect)
    (hcall : processNextMessage env s = .ok () t) : Awaiting t := by
  have hfront : (priority, some m) ∈ s.queue := hq ▸ List.mem_cons_self
  have htyped : Typed m := h.arranged.typed hfront
  have hconnect : m.base.type ≠ .connect := fun htype => h.noConnect ⟨_, hfront, htype⟩
  obtain ⟨hreceived, htotal⟩ : Counts s.receivedInitialFiles s.totalInitialFiles t := by
    have hcounts := call_counts hq hcall
    cases m with
    | fileInitialSync m => exact absurd htyped hne
    | connect m => exact absurd htyped hconnect
    | message m | payload m | resendRequest m | file m | fileContent m => exact hcounts
  refine ⟨h.arranged.call hcall, ?_, ?_, ?_⟩
  · rw [Node.isFinishedConnecting, hreceived, htotal]
    exact h.waiting
  · rintro ⟨e, he, htype⟩
    rcases List.mem_append.mp (hperm.mem_iff.mp he) with he | he
    · exact hnew e he htype
    · refine h.noConnect ⟨e, ?_, htype⟩
      rw [hq]
      exact List.mem_cons_of_mem _ he
  · have hfiles : filesToCome s ≤ filesToCome t := by
      rw [filesToCome, filesToCome, (syncs_perm hperm).countP_eq, syncs_messages_append, htotal, hq,
        syncs_cons, sync?_eq_none htyped hne, Option.toList_none, List.nil_append,
        List.countP_append]
      exact Nat.le_add_left _ _
    rw [hreceived, htotal]
    exact h.remaining.trans hfiles

/-- **A call of a node that waits for files.** Either it has them all, or it still waits. -/
theorem Awaiting.step (h : Awaiting s) (hclear : Unhindered env.host.self s)
    (hcall : processNextMessage env s = .ok () t) :
    t.isFinishedConnecting = true ∨ Awaiting t := by
  obtain ⟨_, hfirst, -⟩ := h.holds_sync
  have hne : s.queue ≠ [] := List.ne_nil_of_mem hfirst
  obtain ⟨priority, m, rest, hq, hcases⟩ := iterates_cases ⟨hne, env, rfl, hcall⟩
  have hfront : (priority, some m) ∈ s.queue := hq ▸ List.mem_cons_self
  have hconnect : m.base.type ≠ .connect := fun htype => h.noConnect ⟨_, hfront, htype⟩
  rcases hcases with ⟨hnot, new, hperm, hbelow⟩ | ⟨⟨hwaits, -⟩, -, again, -, hperm⟩
  · have hready : ¬ Waits m.base.type := by
      intro hwaits
      have hconnected := hnot hwaits
      rw [h.waiting] at hconnected
      cases hconnected
    by_cases hsync : m.base.type = .initialSync
    · -- No message comes of an initial sync.
      have hnil : new = [] := by
        refine List.eq_nil_iff_forall_not_mem.mpr fun e he => ?_
        obtain ⟨_, -, -, hless⟩ := hbelow e he
        rw [generations_of hsync] at hless
        exact Nat.not_lt_zero _ hless
      rw [hnil, List.nil_append] at hperm
      obtain ⟨sync, rfl⟩ := (h.arranged.typed hfront).of_initialSync hsync
      exact h.step_sync hclear hq hperm hcall
    · obtain ⟨new', hperm', hnew⟩ := call_grows hq hready hconnect hcall
      refine Or.inr (h.step_other hq hsync hperm' (fun e he htype => ?_) hcall)
      rcases hnew e he with hd | hr | hresends
      · exact absurd (htype.symm.trans hd) (by decide)
      · exact absurd (htype.symm.trans hr) (by decide)
      · exact hclear.noConnect (htype ▸ hresends)
  · have hsync : m.base.type ≠ .initialSync := by
      intro hsync
      rw [hsync] at hwaits
      exact hwaits
    have hperm' : t.queue.Perm ([(again, some m)] ++ rest) := hperm
    refine Or.inr (h.step_other hq hsync hperm' ?_ hcall)
    intro e he
    obtain rfl := List.mem_singleton.mp he
    exact hconnect

end Files

/-! ## Which calls return -/

section Returns

variable {env : Circumstances} {s t : Managers} {priority : Nat} {m : AnyMessage}
  {rest : List Prio}

/-- Where the front is an initial sync, it has a folder, or one can be made. -/
def Stored (s : Managers) : Prop := ∀ priority m rest,
  s.queue = (priority, some (.fileInitialSync m)) :: rest →
    Savable s.files (filePath m.targetFile)

/-- Where the front is a lost link or a request, its handler, which asks the peers for their
addresses and sends, returns. -/
def Sendable (env : Circumstances) (s : Managers) : Prop := ∀ priority m rest,
  s.queue = (priority, some m) :: rest →
    m.base.type = .linkLost ∨ m.base.type = .resendRequest →
      ∃ processed t, process env (some m) (popped env s) = .ok processed t

/-- A call returns if the handler does: what it puts back has a priority to go back to. -/
theorem call_returns_iff (hq : s.queue = (priority, some m) :: rest) :
    (∃ t, processNextMessage env s = .ok () t) ↔
      ∃ processed u, process env (some m) (popped env s) = .ok processed u := by
  rw [processNextMessage_cons hq]
  constructor
  · intro ⟨t, hrun⟩
    obtain ⟨processed, u, hprocess, -⟩ := bind_eq_ok hrun
    exact ⟨processed, u, hprocess⟩
  · intro ⟨processed, u, hprocess⟩
    rw [bind_ok hprocess]
    cases processed with
    | true => exact ⟨_, rfl⟩
    | false =>
      obtain ⟨again, hagain⟩ := requeuePriority_waits ((process_false_iff hprocess).mp rfl).1
      show ∃ t, requeue env (some m) u = .ok () t
      unfold requeue
      rw [Option.bind_some, hagain]
      exact ⟨_, rfl⟩

theorem process_sync_returns_iff {sync : FileInitialSyncMessage} (hsync : sync.type = .initialSync) :
    (∃ processed u, process env (some (.fileInitialSync sync)) s = .ok processed u) ↔
      Savable s.files (filePath sync.targetFile) := by
  rw [← processInitialFileSyncMessage_ok_iff env.host]
  constructor
  · intro ⟨processed, u, hprocess⟩
    obtain ⟨hfiles, -⟩ := process_sync_ok hsync hprocess
    obtain ⟨⟨⟩, fs, hsave, hdone⟩ := bind_eq_ok hfiles
    exact ⟨fs, bind_ok hsave⟩
  · intro ⟨fs, hfiles⟩
    rw [process_initialSync env s hsync]
    exact ⟨true, _, onFiles_ok hfiles⟩

/-- What a call that returned had. -/
theorem Arranged.served (hs : Arranged s) (hcall : processNextMessage env s = .ok () t) :
    Stored s ∧ Sendable env s := by
  refine ⟨fun priority m rest hq => ?_, fun priority m rest hq _ => ?_⟩
  · have hfront : (priority, some (.fileInitialSync m)) ∈ s.queue := hq ▸ List.mem_cons_self
    have htype : m.type = .initialSync := hs.typed hfront
    have hreturns := (call_returns_iff hq).mp ⟨t, hcall⟩
    exact (process_sync_returns_iff (s := popped env s) htype).mp hreturns
  · exact (call_returns_iff hq).mp ⟨t, hcall⟩

/-- **A call of a node that waits for files** needs nothing else: other messages go back, or there
is nothing to do. -/
theorem Awaiting.returns (h : Awaiting s) (hstored : Stored s) (hsendable : Sendable env s) :
    ∃ t, processNextMessage env s = .ok () t := by
  obtain ⟨e, he, -⟩ := h.holds_sync
  obtain ⟨⟨priority, msgPtr⟩, rest, hq⟩ := List.exists_cons_of_ne_nil (List.ne_nil_of_mem he)
  obtain ⟨m, rfl, htyped, -⟩ := h.arranged.entry (hq ▸ List.mem_cons_self)
  refine (call_returns_iff hq).mpr ?_
  by_cases hwaits : Waits m.base.type
  · exact ⟨false, _, process_waits htyped hwaits h.waiting⟩
  cases m with
  | fileInitialSync m => exact (process_sync_returns_iff htyped).mpr (hstored _ _ _ hq)
  | resendRequest m => exact hsendable _ _ _ hq (Or.inr htyped)
  | payload m =>
    refine ⟨true, popped env s, ?_⟩
    have htype : (AnyMessage.payload m).base.type = .payload := htyped
    unfold process dispatch
    simp only [htype]
    rfl
  | message m =>
    rcases htyped with htype | htype | htype
    · exact absurd (htype ▸ trivial) hwaits
    · exact absurd (htype ▸ trivial) hwaits
    · exact hsendable _ _ _ hq (Or.inl htype)
  | connect m =>
    have hfront : (priority, some (.connect m)) ∈ s.queue := hq ▸ List.mem_cons_self
    exact absurd ⟨_, hfront, htyped⟩ h.noConnect
  | file m => rcases htyped with htype | htype | htype <;> exact absurd (htype ▸ trivial) hwaits
  | fileContent m => exact absurd (htyped ▸ trivial) hwaits

end Returns

/-! ## The calls of a node that joins -/

section Calls

variable {envs : ℕ → Circumstances} {host : Host} {s t : Managers} {n : ℕ}

/-- A call that may be one of those before the node has finished connecting. -/
def Approaches (host : Host) (s t : Managers) : Prop :=
  Iterates host s t ∧ Awaiting s ∧ Unhindered host.self s

/-- They come to an end. -/
theorem terminates_approaches (host : Host) (s : Managers) : Terminates (Approaches host) s := by
  refine terminates_of_progress (fun s => work host.self s.queue)
    (fun s => s.queue.countP isAhead) Nat.lt_wfRel.wf (P := fun _ => True) ?_ trivial
  intro s t _ ⟨h, hs, hclear⟩
  exact ⟨trivial, iterates_progress hs.arranged (hs.not_stuck hclear.noDisconnect) h⟩

/-- **A node that nothing keeps from its files finishes connecting.** -/
theorem connects_of_unhindered (henvs : ∀ n, (envs n).host = host) (hs : Awaiting s)
    (hclear : ∀ n t, Joining envs s n t →
      Unhindered host.self t ∧ Stored t ∧ Sendable (envs n) t) :
    Connects envs s := by
  by_contra hnever
  have hall : ∀ n, ∃ t, Joining envs s n t ∧ Awaiting t := by
    intro n
    induction n with
    | zero => exact ⟨s, .zero hs.waiting, hs⟩
    | succ n ih =>
      obtain ⟨t, hjoining, ht⟩ := ih
      obtain ⟨hunhindered, hstored, hsendable⟩ := hclear n t hjoining
      obtain ⟨u, hcall⟩ := ht.returns hstored hsendable
      rw [← henvs n] at hunhindered
      have hreached : calls envs s (n + 1) = some u :=
        (calls_succ hjoining.reached).trans (afterCall_eq_some.mpr hcall)
      rcases ht.step hunhindered hcall with hconnected | hu
      · exact absurd ⟨n + 1, u, hreached, hconnected⟩ hnever
      · exact ⟨u, hjoining.succ hreached hu.waiting, hu⟩
  choose run hrun using hall
  refine terminates_approaches host (run 0) ⟨run, rfl, fun n => ?_⟩
  obtain ⟨hjoining, ht⟩ := hrun n
  obtain ⟨hunhindered, hstored, hsendable⟩ := hclear n _ hjoining
  obtain ⟨u, hcall⟩ := ht.returns hstored hsendable
  have hnext : run (n + 1) = u := by
    have hreached := (calls_succ hjoining.reached).trans (afterCall_eq_some.mpr hcall)
    exact Option.some_inj.mp ((hrun (n + 1)).1.reached.symm.trans hreached)
  obtain ⟨_, hfirst, -⟩ := ht.holds_sync
  exact ⟨⟨List.ne_nil_of_mem hfirst, envs n, henvs n, hnext ▸ hcall⟩, ht, hunhindered⟩

theorem Arranged.calls (hs : Arranged s) (h : calls envs s n = some t) : Arranged t := by
  induction n generalizing t with
  | zero =>
    obtain rfl := Option.some_inj.mp h
    exact hs
  | succ n ih =>
    obtain ⟨u, hu, hcall⟩ := Option.bind_eq_some_iff.mp h
    exact (ih hu).call (afterCall_eq_some.mp hcall)

/-- With a disconnect in its queue the node waits for ever. -/
theorem starved (hs : Arranged s) (h : Joining envs s n t) (hheld : Holds .disconnect t.queue)
    (k : ℕ) {u : Managers} (hu : Managers.calls envs s (n + k) = some u) :
    u.isFinishedConnecting = false ∧ Holds .disconnect u.queue := by
  induction k generalizing u with
  | zero =>
    obtain rfl := Option.some_inj.mp (h.reached.symm.trans hu)
    exact ⟨h.waiting n le_rfl _ h.reached, hheld⟩
  | succ k ih =>
    obtain ⟨v, hv, hcall⟩ := Option.bind_eq_some_iff.mp hu
    obtain ⟨hwaiting, hv'⟩ := ih hv
    exact starved_step (hs.calls hv) hwaiting hv' (afterCall_eq_some.mp hcall)

/-- **What connecting needs**: until then there is no disconnect, and every call returns. -/
theorem Connects.unhindered (hs : Arranged s) (hconnects : Connects envs s)
    (h : Joining envs s n t) :
    ¬ Holds .disconnect t.queue ∧ Stored t ∧ Sendable (envs n) t := by
  obtain ⟨k, u, hu, hconnected⟩ := hconnects
  have hlt : n < k := by
    by_contra hle
    have hwaiting := h.waiting k (not_lt.mp hle) u hu
    rw [hconnected] at hwaiting
    cases hwaiting
  constructor
  · intro hheld
    obtain ⟨j, rfl⟩ := Nat.exists_eq_add_of_le hlt.le
    rw [(starved hs h hheld j hu).1] at hconnected
    cases hconnected
  · obtain ⟨v, hv⟩ := calls_of_le hu hlt
    rw [calls_succ h.reached] at hv
    exact (hs.calls h.reached).served (afterCall_eq_some.mp hv)

end Calls

/-! ## A queue with nothing that ends the wait or prolongs it -/

/-- No disconnect, nothing that a message may come of, and no other total. -/
structure Quiet (s : Managers) : Prop where
  types : ∀ e ∈ s.queue,
    typeOf e ≠ .disconnect ∧ typeOf e ≠ .linkLost ∧ typeOf e ≠ .resendRequest
  sameTotal : ∀ m ∈ syncs (messages s.queue), m.total = s.totalInitialFiles

section Quiet

variable {env : Circumstances} {envs : ℕ → Circumstances} {host : Host} {s t : Managers} {n : ℕ}

theorem Quiet.unhindered (h : Quiet s) (hs : Arranged s) : Unhindered host.self s where
  noDisconnect := by
    intro ⟨e, he, htype⟩
    exact (h.types e he).1 htype
  sameTotal := h.sameTotal
  noConnect := by
    intro ⟨request, m, destination, hrequest, _⟩
    obtain ⟨e, he, hem⟩ := List.mem_filterMap.mp hrequest
    obtain ⟨m', hm', htyped, -⟩ := hs.entry he
    obtain rfl := Option.some_inj.mp (hem.symm.trans hm')
    refine (h.types e he).2.2 ?_
    rw [typeOf, hem]
    exact htyped

theorem Quiet.sendable (h : Quiet s) : Sendable env s := by
  intro priority m rest hq hsends
  obtain ⟨-, hlost, hresend⟩ := h.types (priority, some m) (hq ▸ List.mem_cons_self)
  exact (hsends.elim hlost hresend).elim

/-- No message comes of a payload or of an initial sync. -/
theorem Quiet.call_queue (h : Quiet s) (hs : Awaiting s)
    (hcall : processNextMessage env s = .ok () t) : ∃ priority m rest,
      s.queue = (priority, some m) :: rest ∧
      (t.queue.Perm rest ∨ ∃ again, t.queue.Perm ((again, some m) :: rest)) := by
  obtain ⟨_, hfirst, -⟩ := hs.holds_sync
  have hne : s.queue ≠ [] := List.ne_nil_of_mem hfirst
  obtain ⟨priority, m, rest, hq, hcases⟩ := iterates_cases ⟨hne, env, rfl, hcall⟩
  refine ⟨priority, m, rest, hq, ?_⟩
  have hfront : (priority, some m) ∈ s.queue := hq ▸ List.mem_cons_self
  rcases hcases with ⟨hnot, new, hperm, hbelow⟩ | ⟨-, -, again, -, hperm⟩
  · have hnone : generations env.host.self m = 0 := by
      obtain ⟨hdisconnect, hlost, hresend⟩ := h.types _ hfront
      have hrequest : m.base.type ≠ .initialSyncRequest := by
        intro htype
        have hconnected := hnot (htype ▸ trivial)
        rw [hs.waiting] at hconnected
        cases hconnected
      show generationsOf _ m.base.type = 0
      unfold generationsOf
      split
      · next htype => exact absurd htype hrequest
      · next htype => exact absurd htype hresend
      · next htype => exact absurd htype hlost
      · next htype => exact absurd htype hdisconnect
      · rfl
    have hnil : new = [] := by
      refine List.eq_nil_iff_forall_not_mem.mpr fun e he => ?_
      obtain ⟨_, -, -, hless⟩ := hbelow e he
      rw [hnone] at hless
      exact Nat.not_lt_zero _ hless
    rw [hnil, List.nil_append] at hperm
    exact Or.inl hperm
  · exact Or.inr ⟨again, hperm⟩

theorem Quiet.step (h : Quiet s) (hs : Awaiting s)
    (hcall : processNextMessage env s = .ok () t) : Quiet t := by
  obtain ⟨priority, m, rest, hq, hperm⟩ := h.call_queue hs hcall
  have hfront : (priority, some m) ∈ s.queue := hq ▸ List.mem_cons_self
  have hkept : ∀ e ∈ t.queue, ∃ e' ∈ s.queue, e.2 = e'.2 := by
    intro e he
    rw [hq]
    rcases hperm with hperm | ⟨again, hperm⟩
    · exact ⟨e, List.mem_cons_of_mem _ (hperm.mem_iff.mp he), rfl⟩
    · rcases List.mem_cons.mp (hperm.mem_iff.mp he) with rfl | he
      · exact ⟨_, List.mem_cons_self, rfl⟩
      · exact ⟨e, List.mem_cons_of_mem _ he, rfl⟩
  have htotal : t.totalInitialFiles = s.totalInitialFiles := by
    obtain ⟨-, htotal⟩ := call_counts hq hcall
    have htyped : Typed m := hs.arranged.typed hfront
    cases m with
    | fileInitialSync m =>
      refine htotal.trans (h.sameTotal m ?_)
      rw [hq, syncs_cons]
      exact List.mem_cons_self
    | connect m => exact absurd ⟨_, hfront, htyped⟩ hs.noConnect
    | message m | payload m | resendRequest m | file m | fileContent m => exact htotal
  constructor
  · intro e he
    obtain ⟨e', he', heq⟩ := hkept e he
    have htypes := h.types e' he'
    rwa [typeOf, ← heq] at htypes
  · intro m hm
    obtain ⟨e, he, m', hem, hsync⟩ := mem_syncs hm
    obtain ⟨e', he', heq⟩ := hkept e he
    rw [htotal]
    refine h.sameTotal m (List.mem_filterMap.mpr ⟨m', ?_, hsync⟩)
    exact List.mem_filterMap.mpr ⟨e', he', heq ▸ hem⟩

theorem Quiet.joining (h : Quiet s) (hs : Awaiting s) (hjoining : Joining envs s n t) :
    Awaiting t ∧ Quiet t := by
  induction n generalizing t with
  | zero =>
    obtain rfl := Option.some_inj.mp hjoining.reached
    exact ⟨hs, h⟩
  | succ n ih =>
    obtain ⟨u, hu, hcall⟩ := Option.bind_eq_some_iff.mp hjoining.reached
    have hcall := afterCall_eq_some.mp hcall
    have hbefore : Joining envs s n u :=
      ⟨hu, fun k hk => hjoining.waiting k (Nat.le_succ_of_le hk)⟩
    obtain ⟨hwaits, hquiet⟩ := ih hbefore
    refine ⟨?_, hquiet.step hwaits hcall⟩
    rcases hwaits.step (hquiet.unhindered hwaits.arranged) hcall with hconnected | ht
    · rw [hjoining.waiting (n + 1) le_rfl t hjoining.reached] at hconnected
      cases hconnected
    · exact ht

end Quiet

/-- **When a node that joins finishes connecting.** It does if until then nothing keeps it from its
files, they can be stored, and what it has to send can be sent; it does not with a disconnect in the
queue. With none there, and nothing that one may come of, the files only have to be storable. -/
theorem syncs_not_starved (host : Host) (envs : ℕ → Circumstances)
    (henvs : ∀ n, (envs n).host = host) :
    (∀ s, Awaiting s →
      ((∀ n t, Joining envs s n t → Unhindered host.self t ∧ Stored t ∧ Sendable (envs n) t) →
          Connects envs s) ∧
      (Connects envs s → ∀ n t, Joining envs s n t →
        ¬ Holds .disconnect t.queue ∧ Stored t ∧ Sendable (envs n) t) ∧
      (Quiet s → (Connects envs s ↔ ∀ n t, Joining envs s n t → Stored t))) ∧
    ∀ s ls t, s.queue = [] → Trace FreshStep s ls t → Arranged t := by
  refine ⟨fun s hs => ⟨?_, ?_, ?_⟩, fun s ls t hs run => run_arranged hs run⟩
  · intro hclear
    exact connects_of_unhindered henvs hs hclear
  · intro hconnects n t hjoining
    exact hconnects.unhindered hs.arranged hjoining
  · intro hquiet
    constructor
    · intro hconnects n t hjoining
      exact (hconnects.unhindered hs.arranged hjoining).2.1
    · intro hstored
      refine connects_of_unhindered henvs hs fun n t hjoining => ?_
      obtain ⟨ht, hquiet'⟩ := hquiet.joining hs hjoining
      exact ⟨hquiet'.unhindered ht.arranged, hstored n t hjoining, hquiet'.sendable⟩

/-! ## One file -/

/-- A node that joins, once its one file has arrived. -/
def syncArrived : Managers := { joinedDocs with
  queue := [(lockPriority, some lateSync)]
  receivedInitialFiles := 0
  emplaced := [lateSync] }

/-- The disconnect has arrived as well. -/
def bothArrived : Managers := { syncArrived with
  queue := [(disconnectPriority, some lateGoodbye), (lockPriority, some lateSync)]
  emplaced := [lateGoodbye, lateSync] }

theorem syncArrived_run : Trace FreshStep { joinedDocs with receivedInitialFiles := 0 }
    [(readerCircumstances, .arrive lockPriority lateSync)] syncArrived := by
  refine .cons ⟨rfl, fun priority m hl => ?_⟩ (.nil _)
  obtain ⟨rfl, rfl⟩ := Event.arrive.inj hl
  exact lateSync_fresh

theorem bothArrived_run : Trace FreshStep { joinedDocs with receivedInitialFiles := 0 }
    [(readerCircumstances, .arrive lockPriority lateSync),
      (readerCircumstances, .arrive disconnectPriority lateGoodbye)] bothArrived := by
  refine syncArrived_run.append (.cons ⟨rfl, fun priority m hl => ?_⟩ (.nil _))
  obtain ⟨rfl, rfl⟩ := Event.arrive.inj hl
  exact lateGoodbye_fresh

/-- An unlock that has to wait is no obstacle: it goes back behind the file. -/
theorem fileArrived_connects : Connects (fun _ => readerCircumstances) fileArrived := by
  have hawaiting : Awaiting fileArrived := {
    arranged := run_arranged rfl fileArrived_run
    waiting := rfl
    noConnect := by
      intro ⟨e, he, htype⟩
      rcases List.mem_cons.mp he with rfl | he
      · cases htype
      · obtain rfl := List.mem_singleton.mp he
        cases htype
    remaining := by decide }
  have hquiet : Quiet fileArrived := {
    types := by
      intro e he
      rcases List.mem_cons.mp he with rfl | he
      · exact ⟨nofun, nofun, nofun⟩
      · obtain rfl := List.mem_singleton.mp he
        exact ⟨nofun, nofun, nofun⟩
    sameTotal := by
      intro m hm
      obtain rfl := List.mem_singleton.mp hm
      rfl }
  refine (((syncs_not_starved reader _ fun _ => rfl).1 _ hawaiting).2.2 hquiet).mpr ?_
  have hfirst : (calls (fun _ => readerCircumstances) fileArrived 1).map
      (fun t => (t.queue, decide (Savable t.files FileSystem.docsA))) =
        some ([(lockPriority, some lateSync), (lockPriority + 1, some lateUnlock)], true) := by
    decide +kernel
  have hsecond : (calls (fun _ => readerCircumstances) fileArrived 2).map
      (·.isFinishedConnecting) = some true := by decide +kernel
  obtain ⟨t₁, ht₁, hfront⟩ := Option.map_eq_some_iff.mp hfirst
  obtain ⟨hqueue, hsavable⟩ := Prod.mk.inj hfront
  obtain ⟨t₂, ht₂, hconnected⟩ := Option.map_eq_some_iff.mp hsecond
  intro n t hjoining priority m rest hq
  match n with
  | 0 =>
    obtain rfl := Option.some_inj.mp hjoining.reached
    cases hq
  | 1 =>
    obtain rfl := Option.some_inj.mp (ht₁.symm.trans hjoining.reached)
    obtain ⟨hsync, -⟩ := List.cons.inj (hqueue.symm.trans hq)
    obtain rfl := AnyMessage.fileInitialSync.inj (Option.some_inj.mp (Prod.mk.inj hsync).2)
    exact of_decide_eq_true hsavable
  | n + 2 =>
    rw [hjoining.waiting 2 (Nat.le_add_left 2 n) t₂ ht₂] at hconnected
    cases hconnected

/-- Not so with the disconnect. -/
theorem bothArrived_starves : ¬ ∀ (host : Host) (envs : ℕ → Circumstances) (s : Managers),
    (∀ n, (envs n).host = host) → Awaiting s → Connects envs s := by
  intro h
  have hawaiting : Awaiting bothArrived := {
    arranged := run_arranged rfl bothArrived_run
    waiting := rfl
    noConnect := by
      intro ⟨e, he, htype⟩
      rcases List.mem_cons.mp he with rfl | he
      · cases htype
      · obtain rfl := List.mem_singleton.mp he
        cases htype
    remaining := by decide }
  have hconnects := h reader (fun _ => readerCircumstances) bothArrived (fun _ => rfl) hawaiting
  have hheld : Holds .disconnect bothArrived.queue := ⟨_, List.mem_cons_self, rfl⟩
  exact (hconnects.unhindered hawaiting.arranged (.zero rfl)).1 hheld

end Managers

end WhisperNet
