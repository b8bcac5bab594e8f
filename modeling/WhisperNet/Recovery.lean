import WhisperNet.Delivery

/-!
# Corrupted payloads are asked for again

One payload is broadcast on a tree, and its text may be corrupted on any link. A node that fails to
validate a frame has already passed it on. It asks for the message to be sent again, but the
previous hop is not on the wire, so the request goes to everyone; whoever still has the message in
`oldMessages` sends it again to where it went the first time, which is everyone, itself included.

* `copies` — what the frames under way and the messages queued and dispatched are worth to a node.
* `step_copies` — a step that answers no request adds nothing to it.
* `answer_copies` — an answer adds a copy for every node.
* `at_most_once` — so, in a run of such steps, no node dispatches the payload twice.
-/

namespace WhisperNet

open Bin MessageManager PeerManager TreeFlood

/-! ## Nodes at work -/

/-- What a thread of a node does next. -/
inductive Action (V : Type)
  /-- `Peer::send` -/
  | send (peer : V) (data : Bytes)
  | deserialize (data : Bytes)
  /-- `oldMessages.emplace_back` -/
  | remember (m : AnyMessage)
  deriving DecidableEq

/-- A thread of a node, and what is left of its current call: the listening thread of a link, or
the main thread. -/
structure Call (V : Type) where
  node : V
  link : Option V
  todo : List (Action V)
  deriving DecidableEq

/-- All nodes, and the frames between them. -/
structure NetState (V : Type) where
  inFlight : List (Packet V)
  calls : List (Call V)
  /-- The entries of every node's queue. -/
  queued : List (V × AnyMessage)
  oldMessages : V → List AnyMessage
  /-- What the nodes have dispatched so far. -/
  dispatched : List (V × AnyMessage)

/-- What can happen next. Frames, calls and queue entries are taken in any order. -/
inductive NetEvent
  /-- Other bytes of the same number arrive in the place of the text of a payload. -/
  | corrupt (i : Nat) (text : Bytes)
  /-- A listening thread has read a frame, with this memory after it. -/
  | receive (i : Nat) (memory : Bytes)
  /-- A thread carries on. -/
  | act (i : Nat)
  /-- A main thread switches on a message from its queue. -/
  | dispatch (i : Nat)

namespace Overlay

open Mesh

variable {V : Type} (net : Overlay V) (pf : Platform) (clk : Clock)

/-- What the thread that routes `data` does. -/
def actions (data : Bytes) (steps : List (RouteStep V)) : List (Action V) :=
  steps.map fun
    | .send peer => .send peer data
    | .deserialize => .deserialize data

/-- `PeerManager::send` at `v`. -/
def sendActions (v : V) (m : AnyMessage) (destination : IpAddress) : List (Action V) :=
  let (data, steps) := (net.router v).send pf clk m destination true
  actions data steps ++ [.remember (PeerManager.stamp pf clk (net.addr v) destination m)]

/-- The cases of `processNextMessage` for the messages that occur here. -/
def process (oldMessages : List AnyMessage) (v : V) : AnyMessage → Option (List (Action V))
  | .payload _ => some []
  | .resendRequest request => do
    match ← processResendRequestMessage (net.addr v) oldMessages request with
    | some (m, destination) => return net.sendActions pf clk v m destination
    | none => return []
  | _ => none

section Steps

variable [DecidableEq V]

/-- The thread has returned from its last call. -/
def Idle (s : NetState V) (v : V) (link : Option V) : Prop :=
  ∀ call ∈ s.calls, call.node = v → call.link = link → call.todo = []

instance (s : NetState V) (v : V) (link : Option V) : Decidable (Idle s v link) :=
  inferInstanceAs (Decidable (∀ call ∈ s.calls, _ → _ → _))

/-- One action of a thread; `rest` is left to do. An exception in `deserializeMessage` ends the
program: the thread does not carry on. -/
def act (s : NetState V) (i : Nat) (call : Call V) (rest : List (Action V)) :
    Action V → Option (NetState V)
  | .send peer data => some { s with
      inFlight := s.inFlight ++ [⟨call.node, peer, data⟩]
      calls := s.calls.set i { call with todo := rest } }
  | .remember m => some { s with
      oldMessages := Function.update s.oldMessages call.node
        (MessageManager.emplaceBack (s.oldMessages call.node) m)
      calls := s.calls.set i { call with todo := rest } }
  | .deserialize data =>
    match deserializeMessage pf clk data with
    | .enqueued _ m => some { s with
        queued := s.queued ++ [(call.node, m)]
        calls := s.calls.set i { call with todo := rest } }
    | .resend request destination => some { s with
        calls := s.calls.set i { call with
          todo := net.sendActions pf clk call.node (.resendRequest request) destination ++ rest } }
    | _ => none

def step (s : NetState V) : NetEvent → Option (NetState V)
  | .corrupt i text => do
    let packet ← s.inFlight[i]?
    let (m, _) ← (PayloadMessage.load pf).run packet.data
    if m.type = .payload ∧ text.length = m.payload.length then
      some { s with
        inFlight := s.inFlight.set i { packet with
          data := (AnyMessage.payload { m with payload := text }).save pf } }
    else none
  | .receive i memory => do
    let packet ← s.inFlight[i]?
    let steps ← (net.router packet.dst).processMessage pf packet.src packet.data memory
    if Idle s packet.dst (some packet.src) then
      some { s with
        inFlight := s.inFlight.eraseIdx i
        calls := ⟨packet.dst, some packet.src, actions packet.data steps⟩ :: s.calls }
    else none
  | .act i => do
    let call ← s.calls[i]?
    match call.todo with
    | [] => none
    | action :: rest => net.act pf clk s i call rest action
  | .dispatch i => do
    let (v, m) ← s.queued[i]?
    let todo ← net.process pf clk (s.oldMessages v) v m
    if Idle s v none then
      some { s with
        queued := s.queued.eraseIdx i
        dispatched := s.dispatched ++ [(v, m)]
        calls := ⟨v, none, todo ++ [.remember m]⟩ :: s.calls }
    else none

/-- The main thread of `origin` is about to send the payload. Any messages may have been sent and
processed before. -/
def start (oldMessages : V → List AnyMessage) (origin : V) (destination : IpAddress)
    (m : PayloadMessage) : NetState V where
  inFlight := []
  calls := [⟨origin, none, net.sendActions pf clk origin (.payload m) destination⟩]
  queued := []
  oldMessages := oldMessages
  dispatched := []

/-- A request of another node is dispatched, and the message it asks for is still there. -/
def answers (s : NetState V) : NetEvent → Bool
  | .dispatch i =>
    match s.queued[i]? with
    | some (v, .resendRequest request) => request.originatorNode != net.addr v &&
        (s.oldMessages v).any fun m => m.base.messageHash == request.requestedHash
    | _ => false
  | _ => false

def NetStep (s t : NetState V) : Prop := ∃ e, net.step pf clk s e = some t

/-- A step that answers no request. -/
def UnansweredStep (s t : NetState V) : Prop :=
  ∃ e, net.answers s e = false ∧ net.step pf clk s e = some t

/-! ## What is under way -/

section Worth

variable (y : V)

/-- Only payload frames count. -/
def IsPayload (data : Bytes) : Prop := data.head? = some MessageType.payload.toByte

instance (data : Bytes) : Decidable (IsPayload data) := inferInstanceAs (Decidable (_ = _))

/-- A payload frame from `u` to `v` is worth one to the nodes of `v`'s side. -/
noncomputable def frameWorth (u v : V) (data : Bytes) : Nat :=
  if IsPayload data then side net.graph u v y else 0

noncomputable def actionWorth (v : V) : Action V → Nat
  | .send peer data => net.frameWorth y v peer data
  | .deserialize data => if IsPayload data ∧ v = y then 1 else 0
  | .remember _ => 0

noncomputable def packetWorth (packet : Packet V) : Nat :=
  net.frameWorth y packet.src packet.dst packet.data

noncomputable def callWorth (call : Call V) : Nat :=
  (call.todo.map (net.actionWorth y call.node)).sum

def entryWorth (entry : V × AnyMessage) : Nat :=
  if entry.1 = y ∧ entry.2.base.type = .payload then 1 else 0

/-- The payloads on their way to `y`, queued there and dispatched there. -/
noncomputable def copies (s : NetState V) : Nat :=
  (s.inFlight.map (net.packetWorth y)).sum + (s.calls.map (net.callWorth y)).sum +
    (s.queued.map (entryWorth y)).sum + (s.dispatched.map (entryWorth y)).sum

end Worth

end Steps

/-- The payload with some text in the place of its own, or a request for it. -/
inductive Known (p : PayloadMessage) : Bytes → Prop
  | payload {text : Bytes} (h : text.length = p.payload.length) :
    Known p ((AnyMessage.payload { p with payload := text }).save pf)
  | request (v : V) (request : ResendRequestMessage) (destination : IpAddress)
      (h : request.type = .resendRequest) :
    Known p (net.frame pf clk v destination (.resendRequest request))

/-- The thread of `v` passes on known frames, to its neighbours. -/
def Legal (p : PayloadMessage) (v : V) : Action V → Prop
  | .send peer data => net.graph.Adj v peer ∧ net.Known pf clk p data
  | .deserialize data => net.Known pf clk p data
  | .remember _ => True

/-- Known frames on the links of the overlay, and about to be. -/
structure Traffic (p : PayloadMessage) (s : NetState V) : Prop where
  packets : ∀ packet ∈ s.inFlight,
    net.graph.Adj packet.src packet.dst ∧ net.Known pf clk p packet.data
  calls : ∀ call ∈ s.calls, ∀ action ∈ call.todo, net.Legal pf clk p call.node action

section Frames

variable {net pf clk} {p : PayloadMessage}

theorem isPayload_save (m : AnyMessage) : IsPayload (m.save pf) ↔ m.base.type = .payload := by
  rw [IsPayload, m.head?_save, Option.some_inj]
  constructor
  · intro h
    rw [← MessageType.ofByte_toByte m.base.type, h, MessageType.ofByte_toByte]
  · intro h
    rw [h]

theorem not_isPayload_request (net : Overlay V) (pf : Platform) (clk : Clock) (v : V)
    {request : ResendRequestMessage} (destination : IpAddress) (h : request.type = .resendRequest) :
    ¬ IsPayload (net.frame pf clk v destination (.resendRequest request)) := by
  rw [Mesh.frame, PeerManager.frame, isPayload_save, stamp_type]
  show request.type ≠ .payload
  rw [h]
  decide

/-- Data goes to neighbours only. -/
theorem actions_legal {data : Bytes} (h : net.Known pf clk p data) (v : V)
    (destination source : IpAddress) :
    ∀ action ∈ actions data ((net.router v).routeData destination source),
      net.Legal pf clk p v action := by
  intro action haction
  obtain ⟨step, hstep, rfl⟩ := List.mem_map.mp haction
  cases step with
  | send peer => exact ⟨Router.mem_peers_of_send hstep, h⟩
  | deserialize => exact h

/-- A request is sent to neighbours. -/
theorem request_legal (v : V) {request : ResendRequestMessage} (destination : IpAddress)
    (h : request.type = .resendRequest) :
    ∀ action ∈ net.sendActions pf clk v (.resendRequest request) destination,
      net.Legal pf clk p v action := by
  intro action haction
  rcases List.mem_append.mp haction with haction | haction
  · exact actions_legal (.request v request destination h) v destination _ action haction
  · rw [List.mem_singleton.mp haction]
    trivial

/-- **Deserialized, a known frame is enqueued as what it is, or asked for again.** -/
theorem deserialize_known (hp : p.type = .payload) (hf : SizeFits p.payload.length) {data : Bytes}
    (h : net.Known pf clk p data) :
    (∃ priority m, deserializeMessage pf clk data = .enqueued priority m ∧
      (m.base.type = .payload ↔ IsPayload data)) ∨
    ∃ request destination, deserializeMessage pf clk data = .resend request destination ∧
      request.type = .resendRequest := by
  cases h with
  | @payload text htext =>
    have hfits : (AnyMessage.payload { p with payload := text }).Fits := by
      show SizeFits text.length
      rw [htext]
      exact hf
    rw [deserializeMessage_save pf clk (m := .payload { p with payload := text }) hp hfits]
    refine (ite_eq_or_eq _ _ _).imp (fun h => ⟨_, _, h, ?_⟩) fun h => ⟨_, _, h, rfl⟩
    rw [AnyMessage.base_received]
    exact (isPayload_save _).symm
  | request w request destination hr =>
    have hread := (codec_round_trip pf clk clk (net.addr w) destination (.resendRequest request) hr
      trivial).2 trivial
    refine Or.inl ⟨_, _, hread, ?_⟩
    rw [AnyMessage.base_received]
    exact (isPayload_save _).symm

/-- **Only the text of a payload frame changes.** -/
theorem corrupted_known (hp : p.type = .payload) (hf : SizeFits p.payload.length) {data : Bytes}
    (h : net.Known pf clk p data) {m : PayloadMessage} {rest : Bytes}
    (hload : (PayloadMessage.load pf).run data = some (m, rest)) (hm : m.type = .payload)
    {text : Bytes} (htext : text.length = m.payload.length) :
    IsPayload data ∧
      net.Known pf clk p ((AnyMessage.payload { m with payload := text }).save pf) := by
  cases h with
  | @payload old hold =>
    have hfits : SizeFits ({ p with payload := old } : PayloadMessage).payload.length := by
      show SizeFits old.length
      rw [hold]
      exact hf
    have hrun := (reads_payload pf hfits).run_eq
    obtain ⟨rfl, -⟩ := Prod.mk.inj (Option.some_inj.mp (hload.symm.trans hrun))
    exact ⟨(isPayload_save _).mpr hp, .payload (htext.trans hold)⟩
  | request w request destination hr =>
    -- The header is read first, and its type is not that of a payload.
    obtain ⟨body, hbody⟩ := (PeerManager.stamp pf clk (net.addr w) destination
      (.resendRequest request)).save_base pf
    rw [Mesh.frame, PeerManager.frame, hbody] at hload
    obtain ⟨⟨header, rest'⟩, hheader, hload⟩ := Option.bind_eq_some_iff.mp hload
    have hread := reads_message pf (PeerManager.stamp pf clk (net.addr w) destination
      (.resendRequest request)).base body
    cases hheader.symm.trans hread
    obtain ⟨⟨string, rest''⟩, -, hload⟩ := Option.bind_eq_some_iff.mp hload
    cases hload
    exact absurd (hm.symm.trans hr) (by decide)

variable [DecidableEq V]

/-- Frames that do not count are worth nothing, whatever is done with them. -/
theorem actions_worthless {data : Bytes} (h : ¬ IsPayload data) (y v : V)
    (steps : List (RouteStep V)) :
    ((actions data steps).map (net.actionWorth y v)).sum = 0 := by
  refine List.sum_eq_zero fun n hn => ?_
  obtain ⟨action, haction, rfl⟩ := List.mem_map.mp hn
  obtain ⟨step, -, rfl⟩ := List.mem_map.mp haction
  cases step <;> simp [actionWorth, frameWorth, h]

theorem request_worthless (net : Overlay V) (pf : Platform) (clk : Clock) (y v : V)
    {request : ResendRequestMessage} (destination : IpAddress) (h : request.type = .resendRequest) :
    ((net.sendActions pf clk v (.resendRequest request) destination).map
      (net.actionWorth y v)).sum = 0 := by
  have hframe := not_isPayload_request net pf clk v destination h
  rw [sendActions, List.map_append, List.sum_append]
  exact actions_worthless hframe y v _

/-- What a flood over the links in `ws` is worth. -/
theorem flood_worth (net : Overlay V) {data : Bytes} (h : IsPayload data) (y v : V) (ws : List V) :
    ((actions data (ws.map .send ++ [.deserialize])).map (net.actionWorth y v)).sum =
      (ws.map fun w => side net.graph v w y).sum + if v = y then 1 else 0 := by
  simp only [actions, List.map_append, List.map_map, List.sum_append, List.map_cons, List.map_nil,
    List.sum_cons, List.sum_nil]
  congr 1
  · congr 1
    refine List.map_congr_left fun w _ => ?_
    simp [actionWorth, frameWorth, h]
  · simp [actionWorth, h]

/-- **A payload sent to everyone** is worth one copy to every node. -/
theorem sent_worth (net : Overlay V) (pf : Platform) (clk : Clock) {m : PayloadMessage}
    (hm : m.type = .payload) {destination : IpAddress} (hd : destination.isUnspecified) (y v : V) :
    ((net.sendActions pf clk v (.payload m) destination).map (net.actionWorth y v)).sum = 1 := by
  have hpayload : IsPayload (net.frame pf clk v destination (.payload m)) := by
    rw [Mesh.frame, PeerManager.frame, isPayload_save, stamp_type]
    exact hm
  have hroute := Router.routeData_everyone (net.router v) hd .ipv6Unspecified
  have hflood := flood_worth net hpayload y v (net.peers v)
  rw [← forward2all_origin, ← hroute,
    sum_side net.isTree (net.nodup v) (fun w => Iff.rfl)] at hflood
  rw [sendActions, List.map_append, List.sum_append]
  exact hflood

/-- **A frame received is passed on at its worth.** -/
theorem received_actions (hp : p.type = .payload) (hd : p.receiverNode.isUnspecified) {u v : V}
    (hadj : net.graph.Adj u v) {data memory : Bytes} (h : net.Known pf clk p data)
    {steps : List (RouteStep V)}
    (hsteps : (net.router v).processMessage pf u data memory = some steps) (y : V) :
    (∀ action ∈ actions data steps, net.Legal pf clk p v action) ∧
      ((actions data steps).map (net.actionWorth y v)).sum = net.frameWorth y u v data := by
  cases h with
  | @payload text htext =>
    have hpayload : IsPayload ((AnyMessage.payload { p with payload := text }).save pf) :=
      (isPayload_save _).mpr hp
    rw [Router.processMessage_save, Option.some_inj] at hsteps
    subst hsteps
    refine ⟨actions_legal (.payload htext) v _ _, ?_⟩
    have hroute := Router.routeData_everyone (net.router v) hd (net.addr u)
    show ((actions _ ((net.router v).routeData p.receiverNode (net.addr u))).map _).sum = _
    rw [hroute, net.forward2all_onward hadj, flood_worth net hpayload,
      sum_side_onward net.isTree (net.nodup v) (fun w => Iff.rfl) hadj, frameWorth,
      if_pos hpayload]
  | request w request destination hr =>
    have hpayload := not_isPayload_request net pf clk w destination hr
    have hlegal := net.routesTo_frame pf clk w destination (.resendRequest request) v u memory
    rw [hlegal, Option.some_inj] at hsteps
    subst hsteps
    refine ⟨actions_legal (.request w request destination hr) v _ _, ?_⟩
    rw [actions_worthless hpayload, frameWorth, if_neg hpayload]

end Frames

/-! ## One step -/

section Steps

variable {net pf clk} {p : PayloadMessage} {s t : NetState V} {i : Nat}

/-- One thread has something else to do. -/
theorem calls_legal (ht : net.Traffic pf clk p s) {call : Call V} {todo : List (Action V)}
    (h : ∀ action ∈ todo, net.Legal pf clk p call.node action) :
    ∀ c ∈ s.calls.set i { call with todo := todo }, ∀ action ∈ c.todo,
      net.Legal pf clk p c.node action := by
  intro c hc
  rcases List.mem_or_eq_of_mem_set hc with hc | rfl
  · exact ht.calls c hc
  · exact h

/-- A request that is not answered sends nothing. -/
theorem process_unanswered {oldMessages : List AnyMessage} {v : V} {m : AnyMessage}
    {todo : List (Action V)} (h : net.process pf clk oldMessages v m = some todo)
    (hquiet : ∀ request, m = .resendRequest request → request.originatorNode ≠ net.addr v →
      ∀ x ∈ oldMessages, x.base.messageHash ≠ request.requestedHash) : todo = [] := by
  cases m with
  | payload m => exact (Option.some_inj.mp h).symm
  | resendRequest request =>
    have hnone : ∀ answer, processResendRequestMessage (net.addr v) oldMessages request =
        some answer → answer = none := by
      intro answer hanswer
      by_cases hown : request.originatorNode = net.addr v
      · rw [processResendRequestMessage, if_pos hown] at hanswer
        exact (Option.some_inj.mp hanswer).symm
      · have hfind : oldMessages.find? (fun x => x.base.messageHash == request.requestedHash) =
            none := List.find?_eq_none.mpr fun x hx => by simpa using hquiet request rfl hown x hx
        rw [processResendRequestMessage, if_neg hown, hfind] at hanswer
        split at hanswer
        · cases hanswer
        · exact (Option.some_inj.mp hanswer).symm
    obtain ⟨answer, hanswer, htodo⟩ := Option.bind_eq_some_iff.mp h
    obtain rfl := hnone answer hanswer
    exact (Option.some_inj.mp htodo).symm
  | _ => cases h

variable [DecidableEq V]

/-- **A thread that carries on** adds nothing. -/
theorem act_copies (hp : p.type = .payload) (hf : SizeFits p.payload.length)
    (ht : net.Traffic pf clk p s) {call : Call V} (hcall : s.calls[i]? = some call)
    {action : Action V} {rest : List (Action V)} (htodo : call.todo = action :: rest)
    (h : net.act pf clk s i call rest action = some t) :
    net.Traffic pf clk p t ∧ ∀ y, net.copies y t ≤ net.copies y s := by
  have hlegal := ht.calls call (List.mem_of_getElem? hcall)
  rw [htodo, List.forall_mem_cons] at hlegal
  have hworth : ∀ y, net.callWorth y call =
      net.actionWorth y call.node action + (rest.map (net.actionWorth y call.node)).sum := by
    intro y
    rw [callWorth, htodo, List.map_cons, List.sum_cons]
  have hset := fun y todo => Diffusion.sum_set (net.callWorth y) hcall { call with todo := todo }
  cases action with
  | send peer data =>
    rw [act, Option.some_inj] at h
    subst h
    refine ⟨⟨?_, calls_legal ht hlegal.2⟩, fun y => ?_⟩
    · intro packet hpacket
      rcases List.mem_append.mp hpacket with hpacket | hpacket
      · exact ht.packets packet hpacket
      · rw [List.mem_singleton.mp hpacket]
        exact hlegal.1
    · have hcalls := hset y rest
      rw [hworth, actionWorth] at hcalls
      simp only [copies, List.map_append, List.sum_append, List.map_singleton, List.sum_singleton,
        packetWorth]
      simp only [callWorth] at hcalls ⊢
      omega
  | remember m =>
    rw [act, Option.some_inj] at h
    subst h
    refine ⟨⟨ht.packets, calls_legal ht hlegal.2⟩, fun y => ?_⟩
    have hcalls := hset y rest
    rw [hworth, actionWorth] at hcalls
    simp only [copies, callWorth] at hcalls ⊢
    omega
  | deserialize data =>
    have hdata : net.Known pf clk p data := hlegal.1
    rcases deserialize_known hp hf hdata with
      ⟨priority, m, hread, htype⟩ | ⟨request, destination, hread, hr⟩
    · simp only [act, hread, Option.some_inj] at h
      subst h
      refine ⟨⟨ht.packets, calls_legal ht hlegal.2⟩, fun y => ?_⟩
      have hcalls := hset y rest
      have hentry : entryWorth y (call.node, m) =
          net.actionWorth y call.node (.deserialize data) := by
        simp only [entryWorth, actionWorth, htype, and_comm]
      rw [hworth, ← hentry] at hcalls
      simp only [copies, List.map_append, List.sum_append, List.map_singleton, List.sum_singleton]
      simp only [callWorth] at hcalls ⊢
      omega
    · simp only [act, hread, Option.some_inj] at h
      subst h
      refine ⟨⟨ht.packets, calls_legal ht ?_⟩, fun y => ?_⟩
      · intro action haction
        rcases List.mem_append.mp haction with haction | haction
        · exact request_legal call.node destination hr action haction
        · exact hlegal.2 action haction
      · have hcalls := hset y
          (net.sendActions pf clk call.node (.resendRequest request) destination ++ rest)
        have hnew := request_worthless net pf clk y call.node destination hr
        rw [hworth] at hcalls
        simp only [copies]
        simp only [callWorth, List.map_append, List.sum_append, hnew] at hcalls ⊢
        omega

/-- **A step that answers no request** adds nothing to what any node will get. -/
theorem step_copies (hp : p.type = .payload) (hf : SizeFits p.payload.length)
    (hd : p.receiverNode.isUnspecified) (ht : net.Traffic pf clk p s)
    (h : net.UnansweredStep pf clk s t) :
    net.Traffic pf clk p t ∧ ∀ y, net.copies y t ≤ net.copies y s := by
  obtain ⟨e, hquiet, h⟩ := h
  cases e with
  | corrupt i text =>
    obtain ⟨packet, hpacket, h⟩ := Option.bind_eq_some_iff.mp h
    obtain ⟨⟨m, rest⟩, hload, h⟩ := Option.bind_eq_some_iff.mp h
    rw [Option.ite_none_right_eq_some, Option.some_inj] at h
    obtain ⟨⟨htype, hlength⟩, rfl⟩ := h
    obtain ⟨hadj, hknown⟩ := ht.packets packet (List.mem_of_getElem? hpacket)
    obtain ⟨hold, hnew⟩ := corrupted_known hp hf hknown hload htype hlength
    have hpayload : IsPayload ((AnyMessage.payload { m with payload := text }).save pf) :=
      (isPayload_save _).mpr htype
    refine ⟨⟨fun q hq => ?_, ht.calls⟩, fun y => ?_⟩
    · rcases List.mem_or_eq_of_mem_set hq with hq | rfl
      · exact ht.packets q hq
      · exact ⟨hadj, hnew⟩
    · have hsum := Diffusion.sum_set (net.packetWorth y) hpacket { packet with
        data := (AnyMessage.payload { m with payload := text }).save pf }
      simp only [packetWorth, frameWorth, if_pos hold, if_pos hpayload] at hsum
      simp only [copies]
      omega
  | receive i memory =>
    obtain ⟨packet, hpacket, h⟩ := Option.bind_eq_some_iff.mp h
    obtain ⟨steps, hsteps, h⟩ := Option.bind_eq_some_iff.mp h
    rw [Option.ite_none_right_eq_some, Option.some_inj] at h
    obtain ⟨-, rfl⟩ := h
    obtain ⟨hadj, hknown⟩ := ht.packets packet (List.mem_of_getElem? hpacket)
    have hactions := received_actions hp hd hadj hknown hsteps
    refine ⟨⟨fun q hq => ht.packets q (List.mem_of_mem_eraseIdx hq), ?_⟩, fun y => ?_⟩
    · exact List.forall_mem_cons.mpr ⟨(hactions packet.src).1, ht.calls⟩
    · have hsum := Diffusion.sum_eraseIdx (net.packetWorth y) hpacket
      have hcall := (hactions y).2
      simp only [copies, List.map_cons, List.sum_cons]
      simp only [callWorth, packetWorth] at hsum hcall ⊢
      omega
  | act i =>
    obtain ⟨call, hcall, h⟩ := Option.bind_eq_some_iff.mp h
    cases htodo : call.todo with
    | nil =>
      rw [htodo] at h
      cases h
    | cons action rest =>
      rw [htodo] at h
      exact act_copies hp hf ht hcall htodo h
  | dispatch i =>
    obtain ⟨⟨v, m⟩, hentry, h⟩ := Option.bind_eq_some_iff.mp h
    obtain ⟨todo, htodo, h⟩ := Option.bind_eq_some_iff.mp h
    rw [Option.ite_none_right_eq_some, Option.some_inj] at h
    obtain ⟨-, rfl⟩ := h
    obtain rfl : todo = [] := by
      refine process_unanswered htodo fun request hm hown x hx hhash => ?_
      simp only [answers, hentry, hm, Bool.and_eq_false_iff, bne_eq_false_iff_eq,
        List.any_eq_false] at hquiet
      exact hquiet.elim hown fun hnone => hnone x hx (beq_iff_eq.mpr hhash)
    refine ⟨⟨ht.packets, List.forall_mem_cons.mpr ⟨?_, ht.calls⟩⟩, fun y => ?_⟩
    · intro action haction
      rw [List.mem_singleton.mp haction]
      trivial
    · have hsum := Diffusion.sum_eraseIdx (entryWorth y) hentry
      simp only [copies, List.map_cons, List.sum_cons, List.map_append, List.sum_append,
        List.map_nil, List.sum_nil]
      simp only [callWorth, List.nil_append, List.map_singleton, List.sum_singleton, actionWorth]
      omega

/-- **An answer** that goes to everyone adds a copy for every node, also for those that have
dispatched the payload. -/
theorem answer_copies {v : V} {request : ResendRequestMessage} {m : PayloadMessage}
    {destination : IpAddress} (hm : m.type = .payload) (hd : destination.isUnspecified)
    (hentry : s.queued[i]? = some (v, .resendRequest request))
    (hanswer : processResendRequestMessage (net.addr v) (s.oldMessages v) request =
      some (some (.payload m, destination)))
    (h : net.step pf clk s (.dispatch i) = some t) (y : V) :
    net.copies y t = net.copies y s + 1 := by
  have hprocess : net.process pf clk (s.oldMessages v) v (.resendRequest request) =
      some (net.sendActions pf clk v (.payload m) destination) := by
    rw [process, hanswer]
    rfl
  obtain ⟨entry, hentry', h⟩ := Option.bind_eq_some_iff.mp h
  obtain rfl := Option.some_inj.mp (hentry.symm.trans hentry')
  obtain ⟨todo, htodo, h⟩ := Option.bind_eq_some_iff.mp h
  obtain rfl := Option.some_inj.mp (hprocess.symm.trans htodo)
  rw [Option.ite_none_right_eq_some, Option.some_inj] at h
  obtain ⟨-, rfl⟩ := h
  have hsum := Diffusion.sum_eraseIdx (entryWorth y) hentry
  have hsend := sent_worth net pf clk hm hd y v
  simp only [copies, callWorth, List.map_cons, List.sum_cons, List.map_append, List.sum_append,
    List.map_nil, List.sum_nil, actionWorth, hsend]
  omega

end Steps

/-! ## Every run -/

/-- What `send` stamps. -/
theorem stamp_payload (origin : V) (destination : IpAddress) (m : PayloadMessage) :
    ∃ p : PayloadMessage,
      PeerManager.stamp pf clk (net.addr origin) destination (.payload m) = .payload p ∧
      p.type = m.type ∧ p.receiverNode = destination ∧ p.payload = m.payload :=
  ⟨_, rfl, rfl, rfl, rfl⟩

variable [DecidableEq V]

/-- The payload as the nodes get it. -/
def sentPayload (origin : V) (destination : IpAddress) (m : PayloadMessage) : AnyMessage :=
  (PeerManager.stamp pf clk (net.addr origin) destination (.payload m)).received

/-- No node has dispatched the message twice. -/
def AtMostOnce (message : AnyMessage) (s : NetState V) : Prop :=
  ∀ v, s.dispatched.count (v, message) ≤ 1

/-- Every node has one copy at most. -/
structure OneCopy (p : PayloadMessage) (s : NetState V) : Prop where
  traffic : net.Traffic pf clk p s
  copies : ∀ y, net.copies y s ≤ 1

/-- A node has a copy of what it has dispatched. -/
theorem count_le_copies {net : Overlay V} {message : AnyMessage}
    (h : message.base.type = .payload) (s : NetState V) (v : V) :
    s.dispatched.count (v, message) ≤ net.copies v s := by
  have hcount : ∀ log : List (V × AnyMessage),
      log.count (v, message) ≤ (log.map (entryWorth v)).sum := by
    intro log
    induction log with
    | nil => exact Nat.le_refl 0
    | cons entry log ih =>
      rw [List.count_cons, List.map_cons, List.sum_cons]
      by_cases heq : entry = (v, message)
      · have hworth : entryWorth v entry = 1 := by rw [entryWorth, if_pos (by simp [heq, h])]
        simp only [heq, beq_self_eq_true, if_true] at hworth ⊢
        omega
      · rw [if_neg (by simpa using heq)]
        omega
  exact (hcount s.dispatched).trans (Nat.le_add_left _ _)

section Start

variable {net pf clk} {origin : V} {destination : IpAddress} {m : PayloadMessage}

/-- The payload sent is worth one copy to every node. -/
theorem start_copies {p : PayloadMessage}
    (hstamp : PeerManager.stamp pf clk (net.addr origin) destination (.payload m) = .payload p)
    (hm : m.type = .payload) (hd : destination.isUnspecified) (oldMessages : V → List AnyMessage) :
    net.Traffic pf clk p (net.start pf clk oldMessages origin destination m) ∧
      ∀ y, net.copies y (net.start pf clk oldMessages origin destination m) = 1 := by
  have hknown : net.Known pf clk p (net.frame pf clk origin destination (.payload m)) := by
    rw [Mesh.frame, PeerManager.frame, hstamp]
    exact .payload rfl
  refine ⟨⟨fun _ hpacket => absurd hpacket List.not_mem_nil, ?_⟩, fun y => ?_⟩
  · intro call hcall action haction
    obtain rfl := List.mem_singleton.mp hcall
    rcases List.mem_append.mp haction with haction | haction
    · exact actions_legal hknown origin destination _ action haction
    · rw [List.mem_singleton.mp haction]
      trivial
  · have hsend := sent_worth net pf clk (m := m) hm hd y origin
    simp [copies, start, callWorth, hsend]

end Start

/-- **At most once.** A payload is broadcast on a tree, any of its frames are corrupted, and the
requests for it come up in any order. As long as no node that still has the message answers the
request of another, no node dispatches it twice. -/
theorem at_most_once (oldMessages : V → List AnyMessage) (origin : V) (destination : IpAddress)
    (m : PayloadMessage) (hm : m.type = .payload) (hf : SizeFits m.payload.length)
    (hd : destination.isUnspecified) (n : Nat) (t : NetState V)
    (run : Run (net.UnansweredStep pf clk) n
      (net.start pf clk oldMessages origin destination m) t) :
    AtMostOnce (net.sentPayload pf clk origin destination m) t := by
  obtain ⟨p, hstamp, htype, hreceiver, hpayload⟩ :=
    stamp_payload net pf clk origin destination m
  have hp : p.type = .payload := htype.trans hm
  obtain ⟨hstart, hone⟩ := start_copies hstamp hm hd oldMessages
  have hsound : net.OneCopy pf clk p t := by
    refine run.invariant ⟨hstart, fun y => Nat.le_of_eq (hone y)⟩ fun s u hs hstep => ?_
    obtain ⟨hu, hle⟩ := step_copies hp (by rwa [hpayload]) (by rwa [hreceiver]) hs.traffic hstep
    exact ⟨hu, fun y => (hle y).trans (hs.copies y)⟩
  intro v
  refine (count_le_copies ?_ t v).trans (hsound.copies v)
  rw [sentPayload, hstamp, AnyMessage.base_received]
  exact hp

/-! ## A request that is answered -/

/-- The greeting is about to be sent by the first of two nodes, which have just started. -/
def greetingStart : NetState Bool :=
  pair.start .littleEndian (.utc 0) (fun _ => []) false .ipv6Unspecified greeting

/-- `hi` arrives as `hj`. The second node asks for it to be sent again, and the first dispatches
its own copy. -/
def greetingCorrupted : List NetEvent :=
  [.act 0, .act 0, .act 0, .corrupt 0 [104, 106], .receive 0 [], .act 0, .act 0, .act 0, .act 0,
    .receive 0 [], .act 0, .dispatch 0, .act 0]

/-- The first node answers the request, and dispatches the greeting again. -/
def greetingAnswered : List NetEvent := [.dispatch 1, .act 0, .act 0, .act 0, .act 0, .dispatch 1]

theorem greeting_dispatched_twice :
    ∃ n t, Run (pair.NetStep .littleEndian (.utc 0)) n greetingStart t ∧
      t.dispatched.count (false,
        pair.sentPayload .littleEndian (.utc 0) false .ipv6Unspecified greeting) = 2 ∧
      ¬ AtMostOnce (pair.sentPayload .littleEndian (.utc 0) false .ipv6Unspecified greeting) t := by
  have htwice : ((greetingCorrupted ++ greetingAnswered).foldlM
      (pair.step .littleEndian (.utc 0)) greetingStart).map (fun t => t.dispatched.count (false,
        pair.sentPayload .littleEndian (.utc 0) false .ipv6Unspecified greeting)) = some 2 := by
    decide +kernel
  obtain ⟨t, hrun, hcount⟩ := Option.map_eq_some_iff.mp htwice
  refine ⟨_, t, Run.of_foldlM hrun, hcount, fun h => ?_⟩
  have hle := h false
  omega

/-- Until the request is answered the first node has dispatched the greeting once. -/
theorem greeting_dispatched_once :
    ∃ n t, Run (pair.UnansweredStep .littleEndian (.utc 0)) n greetingStart t ∧
      t.dispatched.count (false,
        pair.sentPayload .littleEndian (.utc 0) false .ipv6Unspecified greeting) = 1 ∧
      AtMostOnce (pair.sentPayload .littleEndian (.utc 0) false .ipv6Unspecified greeting) t := by
  have honce : (greetingCorrupted.foldlM (fun s e => if pair.answers s e = false then
      pair.step .littleEndian (.utc 0) s e else none) greetingStart).map (fun t =>
        t.dispatched.count (false, pair.sentPayload .littleEndian (.utc 0) false .ipv6Unspecified
          greeting)) = some 1 := by
    decide +kernel
  obtain ⟨t, hfold, hcount⟩ := Option.map_eq_some_iff.mp honce
  have run : Run (pair.UnansweredStep .littleEndian (.utc 0)) _ greetingStart t :=
    (Run.of_foldlM hfold).mono fun a b ⟨e, he⟩ => ⟨e, Option.ite_none_right_eq_some.mp he⟩
  exact ⟨_, t, run, hcount, at_most_once pair .littleEndian (.utc 0) (fun _ => []) false
    .ipv6Unspecified greeting rfl (show SizeFits 2 by decide) rfl _ t run⟩

end Overlay

end WhisperNet
