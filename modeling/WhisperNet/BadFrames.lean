import WhisperNet.Joining

/-!
# Frames from anywhere

What becomes of a frame that a peer has received, whatever its bytes are. Its thread catches
`ZTError` and nothing else, so any other exception ends the program. The header is read from more
memory than it needs and never falls short. `deserializeMessage` goes by the first byte before
anything has been checked: it throws for a type that is not sent over the wire, and lets the archive
throw for a frame that is too short for its type, while a frame whose hash is wrong is asked for
again.

* `processMessage` — `Peer::processMessage`.
* `routeData_cases` — a frame is handed over, or it is not; peers are asked who they are on the way.
* `survives_iff` — exactly which frames the node survives.
-/

namespace WhisperNet

open Bin Effect MessageManager

/-! ## The header -/

section Header

theorem within_ipAddress (pf : Platform) : Within 17 (IpAddress.load pf) := by
  refine within_get8.bind (k := 16) fun family => ?_
  split
  · exact ((within_get32 .big).map _).mono (by omega)
  · exact (within_get64 .big).bind fun hi => (within_get64 .big).map _

/-- The header takes 43 bytes at most. -/
theorem within_message (pf : Platform) : Within 43 (Message.load pf) :=
  within_get8.bind (k := 42) fun _ => (within_ipAddress pf).bind (k := 25) fun _ =>
    (within_ipAddress pf).bind (k := 8) fun _ => (within_get64 pf.endian).map _

/-- The previous hop is not sent along. -/
theorem senderNode_of_load {pf : Platform} {bs rest : Bytes} {m : Message}
    (h : (Message.load pf).run bs = some (m, rest)) : m.senderNode = .ipv6Unspecified := by
  obtain ⟨⟨type, bs₁⟩, -, h⟩ := Option.bind_eq_some_iff.mp h
  obtain ⟨⟨receiverNode, bs₂⟩, -, h⟩ := Option.bind_eq_some_iff.mp h
  obtain ⟨⟨originatorNode, bs₃⟩, -, h⟩ := Option.bind_eq_some_iff.mp h
  obtain ⟨⟨messageHash, bs₄⟩, -, h⟩ := Option.bind_eq_some_iff.mp h
  obtain ⟨rfl, -⟩ := Prod.mk.inj (Option.some_inj.mp h)
  rfl

end Header

/-- What the peer answers when it is asked for its address; `none` is a `ZTError`. -/
def PeerEntry.answer (peer : PeerEntry) : Option IpAddress :=
  match peer.remoteIP with
  | some ip => some ip
  | none => peer.socket.getRemoteIpAddress.toOption

namespace Managers

/-! ## Processing a frame -/

section Process

variable (env : Circumstances)

/-- The bytes the header is read from. -/
def headerBytes (data memory : Bytes) : Bytes :=
  (data ++ memory).take env.host.platform.sizeofMessage

/-- The source of the data. If we don't know who sent it, it came from the connected peer. -/
def sourceOf (index : Nat) (m : Message) : ManagersM IpAddress :=
  if m.senderNode = .ipv6Unspecified then do
    return (← getRemoteIP index).getD m.senderNode
  else return m.senderNode

/-- `Peer::processMessage`, for the peer in this place. What it reads may reach into the memory
after the data. -/
def processMessage (index : Nat) (data memory : Bytes) : ManagersM Unit :=
  match (Message.load env.host.platform).run (headerBytes env data memory) with
  | none => throw .archive
  | some (m, _) => do
    let source ← sourceOf index m
    routeData env (receive env (send env)) data m.receiverNode source

end Process

/-! ## Asking -/

/-- What the peers answer. -/
def answers (s : Managers) : List (Option IpAddress) := s.peerManager.peers.map PeerEntry.answer

/-- Nothing has been done with the data but to send it to peers. -/
structure Forwarded (data : Bytes) (s t : Managers) : Prop where
  queue : t.queue = s.queue
  sent : t.sent = s.sent
  answers : t.answers = s.answers
  written : ∃ ws, t.written = s.written ++ ws ∧ ∀ w ∈ ws, w.2 = data

section Asking

variable {data : Bytes} {s t u : Managers} {index : Nat}

theorem Forwarded.refl (data : Bytes) (s : Managers) : Forwarded data s s :=
  ⟨rfl, rfl, rfl, [], (List.append_nil _).symm, fun _ hw => absurd hw List.not_mem_nil⟩

theorem Forwarded.trans (hst : Forwarded data s t) (htu : Forwarded data t u) :
    Forwarded data s u := by
  obtain ⟨ws, hws, hdata⟩ := hst.written
  obtain ⟨vs, hvs, hdata'⟩ := htu.written
  refine ⟨htu.queue.trans hst.queue, htu.sent.trans hst.sent, htu.answers.trans hst.answers,
    ws ++ vs, ?_, fun w hw => ?_⟩
  · rw [hvs, hws, List.append_assoc]
  · rcases List.mem_append.mp hw with hw | hw
    · exact hdata w hw
    · exact hdata' w hw

theorem answer_eq_some {peer : PeerEntry} {ip : IpAddress} (h : peer.answer = some ip) :
    ∃ peer', PeerEntry.getRemoteIP peer = .ok ip peer' ∧ peer'.answer = some ip := by
  unfold PeerEntry.answer at h
  cases hcache : peer.remoteIP with
  | some cached =>
    rw [hcache] at h
    obtain rfl := Option.some_inj.mp h
    refine ⟨peer, ?_, ?_⟩
    · rw [PeerEntry.getRemoteIP, hcache]
    · rw [PeerEntry.answer, hcache]
  | none =>
    rw [hcache] at h
    cases hsocket : peer.socket.getRemoteIpAddress with
    | error e =>
      rw [hsocket] at h
      cases h
    | ok found =>
      rw [hsocket] at h
      obtain rfl := Option.some_inj.mp h
      refine ⟨{ peer with remoteIP := some found }, ?_, rfl⟩
      rw [PeerEntry.getRemoteIP, hcache]
      dsimp only
      rw [hsocket]

theorem answer_eq_none {peer : PeerEntry} (h : peer.answer = none) :
    ∃ e, PeerEntry.getRemoteIP peer = .error e peer := by
  unfold PeerEntry.answer at h
  cases hcache : peer.remoteIP with
  | some cached =>
    rw [hcache] at h
    cases h
  | none =>
    rw [hcache] at h
    cases hsocket : peer.socket.getRemoteIpAddress with
    | error e =>
      refine ⟨e, ?_⟩
      rw [PeerEntry.getRemoteIP, hcache]
      dsimp only
      rw [hsocket]
    | ok found =>
      rw [hsocket] at h
      cases h

/-- The peers answer as before when one has been asked. -/
theorem askAt_answers (peers : List PeerEntry) (index : Nat) :
    ∃ peers', peers'.map PeerEntry.answer = peers.map PeerEntry.answer ∧
      match (peers.map PeerEntry.answer)[index]? with
      | none => PeerManager.askAt PeerEntry.getRemoteIP index peers = .ok none peers'
      | some (some ip) => PeerManager.askAt PeerEntry.getRemoteIP index peers = .ok (some ip) peers'
      | some none => ∃ e,
        PeerManager.askAt PeerEntry.getRemoteIP index peers = .error e peers' := by
  rw [List.getElem?_map]
  unfold PeerManager.askAt
  cases hpeer : peers[index]? with
  | none => exact ⟨peers, rfl, rfl⟩
  | some peer =>
    dsimp only [Option.map_some]
    cases hanswer : peer.answer with
    | none =>
      obtain ⟨e, he⟩ := answer_eq_none hanswer
      rw [he]
      exact ⟨_, map_set_same hpeer rfl, e, rfl⟩
    | some ip =>
      obtain ⟨peer', hask, hsame⟩ := answer_eq_some hanswer
      rw [hask]
      exact ⟨_, map_set_same hpeer (hsame.trans hanswer.symm), rfl⟩

theorem onPeerManager_onPeers {α : Type} (x : EStateM ZTError (List PeerEntry) α) (s : Managers) :
    onPeerManager (PeerManager.onPeers x) s =
      match x s.peerManager.peers with
      | .ok a peers => .ok a { s with peerManager := { s.peerManager with peers } }
      | .error _ peers => .error .zt { s with peerManager := { s.peerManager with peers } } := by
  unfold onPeerManager PeerManager.onPeers
  cases x s.peerManager.peers <;> rfl

/-- A peer is asked for its address. -/
theorem getRemoteIP_cases (data : Bytes) (s : Managers) (index : Nat) :
    ∃ t, Forwarded data s t ∧
      match s.answers[index]? with
      | none => getRemoteIP index s = .ok none t
      | some (some ip) => getRemoteIP index s = .ok (some ip) t
      | some none => getRemoteIP index s = .error .zt t := by
  obtain ⟨peers, hsame, hask⟩ := askAt_answers s.peerManager.peers index
  refine ⟨{ s with peerManager := { s.peerManager with peers } },
    ⟨rfl, rfl, hsame, [], (List.append_nil _).symm, fun _ hw => absurd hw List.not_mem_nil⟩, ?_⟩
  have hanswers : s.answers = s.peerManager.peers.map PeerEntry.answer := rfl
  rw [hanswers]
  unfold getRemoteIP
  rw [onPeerManager_onPeers]
  split at hask
  · rw [hask]
  · rw [hask]
  · obtain ⟨e, he⟩ := hask
    rw [he]

/-- The data is sent to a peer. -/
theorem transmit_forwarded (data : Bytes) (s : Managers) (index : Nat) :
    ∃ t, Forwarded data s t ∧ transmit index data s = .ok () t := by
  refine ⟨{ s with written := s.written ++
    (s.peerManager.peers[index]?.map fun peer => (peer.socket, data)).toList },
    ⟨rfl, rfl, rfl, _, rfl, fun w hw => ?_⟩, rfl⟩
  rw [Option.mem_toList] at hw
  obtain ⟨peer, -, rfl⟩ := Option.map_eq_some_iff.mp hw
  rfl

theorem forwardTo_cases (data : Bytes) (source : IpAddress) (s : Managers) (index : Nat) :
    ∃ t, Forwarded data s t ∧
      (s.answers[index]? ≠ some none ∧ forwardTo source data index s = .ok () t ∨
        s.answers[index]? = some none ∧ forwardTo source data index s = .error .zt t) := by
  obtain ⟨t, hst, hask⟩ := getRemoteIP_cases data s index
  have hgo (ip : Option IpAddress) : ∃ u, Forwarded data t u ∧
      (if ip ≠ some source then transmit index data else pure ()) t = .ok () u := by
    by_cases hip : ip ≠ some source
    · rw [if_pos hip]
      exact transmit_forwarded data t index
    · rw [if_neg hip]
      exact ⟨t, .refl data t, rfl⟩
  unfold forwardTo
  split at hask
  · next hanswer =>
    obtain ⟨u, htu, hrun⟩ := hgo none
    refine ⟨u, hst.trans htu, Or.inl ⟨by simp [hanswer], ?_⟩⟩
    rw [bind_ok hask]
    exact hrun
  · next ip hanswer =>
    obtain ⟨u, htu, hrun⟩ := hgo (some ip)
    refine ⟨u, hst.trans htu, Or.inl ⟨by simp [hanswer], ?_⟩⟩
    rw [bind_ok hask]
    exact hrun
  · next hanswer => exact ⟨t, hst, Or.inr ⟨hanswer, bind_error hask⟩⟩

theorem forward_cases (data : Bytes) (source : IpAddress) (s : Managers) (indices : List Nat) :
    ∃ t, Forwarded data s t ∧
      ((∀ i ∈ indices, s.answers[i]? ≠ some none) ∧ forward source data indices s = .ok () t ∨
        (∃ i ∈ indices, s.answers[i]? = some none) ∧
          forward source data indices s = .error .zt t) := by
  induction indices generalizing s with
  | nil => exact ⟨s, .refl data s, Or.inl ⟨fun _ hi => absurd hi List.not_mem_nil, rfl⟩⟩
  | cons index rest ih =>
    obtain ⟨t, hst, ⟨hanswer, hrun⟩ | ⟨hanswer, hrun⟩⟩ := forwardTo_cases data source s index
    · obtain ⟨u, htu, hrest⟩ := ih t
      rw [hst.answers] at hrest
      refine ⟨u, hst.trans htu, ?_⟩
      rw [forward, bind_ok hrun]
      rcases hrest with ⟨hall, hrest⟩ | ⟨⟨i, hi, hnone⟩, hrest⟩
      · exact Or.inl ⟨List.forall_mem_cons.mpr ⟨hanswer, hall⟩, hrest⟩
      · exact Or.inr ⟨⟨i, List.mem_cons_of_mem index hi, hnone⟩, hrest⟩
    · refine ⟨t, hst, Or.inr ⟨⟨index, List.mem_cons_self, hanswer⟩, ?_⟩⟩
      rw [forward, bind_error hrun]

/-- The search asks peers until one has the address. -/
theorem findAmong_cases (ip : IpAddress) (indices : List Nat) (peers : List PeerEntry) :
    ∃ peers', peers'.map PeerEntry.answer = peers.map PeerEntry.answer ∧
      ((∃ index, (peers.map PeerEntry.answer)[index]? = some (some ip) ∧
          PeerManager.findAmong ip indices peers = .ok (some index) peers') ∨
        (∀ i ∈ indices, (peers.map PeerEntry.answer)[i]? ≠ some none ∧
          (peers.map PeerEntry.answer)[i]? ≠ some (some ip)) ∧
          PeerManager.findAmong ip indices peers = .ok none peers' ∨
        (∃ i ∈ indices, (peers.map PeerEntry.answer)[i]? = some none) ∧
          ∃ e, PeerManager.findAmong ip indices peers = .error e peers') := by
  induction indices generalizing peers with
  | nil => exact ⟨peers, rfl, Or.inr (Or.inl ⟨fun _ hi => absurd hi List.not_mem_nil, rfl⟩)⟩
  | cons index rest ih =>
    obtain ⟨peers₁, hsame, hask⟩ := askAt_answers peers index
    obtain ⟨peers₂, hsame', hrest⟩ := ih peers₁
    rw [hsame] at hsame' hrest
    -- The first of them is not the one, and the search goes on.
    have hmiss (found : Option IpAddress) (hne : found ≠ some ip)
        (hnone : (peers.map PeerEntry.answer)[index]? ≠ some none)
        (hsome : (peers.map PeerEntry.answer)[index]? ≠ some (some ip))
        (hrun : PeerManager.askAt PeerEntry.getRemoteIP index peers = .ok found peers₁) :
        (∃ index', (peers.map PeerEntry.answer)[index']? = some (some ip) ∧
            PeerManager.findAmong ip (index :: rest) peers = .ok (some index') peers₂) ∨
          (∀ i ∈ index :: rest, (peers.map PeerEntry.answer)[i]? ≠ some none ∧
            (peers.map PeerEntry.answer)[i]? ≠ some (some ip)) ∧
            PeerManager.findAmong ip (index :: rest) peers = .ok none peers₂ ∨
          (∃ i ∈ index :: rest, (peers.map PeerEntry.answer)[i]? = some none) ∧
            ∃ e, PeerManager.findAmong ip (index :: rest) peers = .error e peers₂ := by
      have hgo : PeerManager.findAmong ip (index :: rest) peers =
          PeerManager.findAmong ip rest peers₁ := by
        rw [PeerManager.findAmong, bind_ok hrun, if_neg hne]
      rw [hgo]
      rcases hrest with hfound | ⟨hall, hrest⟩ | ⟨⟨i, hi, hiNone⟩, hrest⟩
      · exact Or.inl hfound
      · exact Or.inr (Or.inl ⟨List.forall_mem_cons.mpr ⟨⟨hnone, hsome⟩, hall⟩, hrest⟩)
      · exact Or.inr (Or.inr ⟨⟨i, List.mem_cons_of_mem index hi, hiNone⟩, hrest⟩)
    split at hask
    · next hanswer =>
      exact ⟨peers₂, hsame', hmiss none nofun (by simp [hanswer]) (by simp [hanswer]) hask⟩
    · next found hanswer =>
      by_cases hip : found = ip
      · subst hip
        refine ⟨peers₁, hsame, Or.inl ⟨index, hanswer, ?_⟩⟩
        rw [PeerManager.findAmong, bind_ok hask, if_pos rfl]
        rfl
      · exact ⟨peers₂, hsame', hmiss (some found) (by simpa using hip) (by simp [hanswer])
          (by simpa [hanswer] using hip) hask⟩
    · next hanswer =>
      obtain ⟨e, he⟩ := hask
      refine ⟨peers₁, hsame, Or.inr (Or.inr ⟨⟨index, List.mem_cons_self, hanswer⟩, e, ?_⟩)⟩
      rw [PeerManager.findAmong, bind_error he]

theorem mem_answers_iff {peers : List PeerEntry} {answer : Option IpAddress} :
    answer ∈ peers.map PeerEntry.answer ↔
      ∃ i ∈ List.range peers.length, (peers.map PeerEntry.answer)[i]? = some answer := by
  rw [List.mem_iff_getElem?]
  constructor
  · rintro ⟨i, hi⟩
    have hlen := (List.getElem?_eq_some_iff.mp hi).1
    rw [List.length_map] at hlen
    exact ⟨i, List.mem_range.mpr hlen, hi⟩
  · rintro ⟨i, -, hi⟩
    exact ⟨i, hi⟩

/-- `findPeer`, on the peers of a node. -/
theorem findPeer_cases (data : Bytes) (ip : IpAddress) (s : Managers) :
    ∃ t, Forwarded data s t ∧
      ((∃ index, some ip ∈ s.answers ∧
          onPeerManager (PeerManager.onPeers (PeerManager.findPeer ip)) s = .ok (some index) t) ∨
        (none ∉ s.answers ∧ some ip ∉ s.answers) ∧
          onPeerManager (PeerManager.onPeers (PeerManager.findPeer ip)) s = .ok none t ∨
        none ∈ s.answers ∧
          onPeerManager (PeerManager.onPeers (PeerManager.findPeer ip)) s = .error .zt t) := by
  obtain ⟨peers, hsame, hfind⟩ := findAmong_cases ip (List.range s.peerManager.peers.length)
    s.peerManager.peers
  have hst : Forwarded data s { s with peerManager := { s.peerManager with peers } } :=
    ⟨rfl, rfl, hsame, [], (List.append_nil _).symm, fun _ hw => absurd hw List.not_mem_nil⟩
  have hrange : PeerManager.findPeer ip s.peerManager.peers = PeerManager.findAmong ip
      (List.range s.peerManager.peers.length) s.peerManager.peers := rfl
  refine ⟨_, hst, ?_⟩
  rw [onPeerManager_onPeers, hrange]
  rcases hfind with ⟨index, hanswer, hrun⟩ | ⟨hall, hrun⟩ | ⟨hnone, e, hrun⟩
  · rw [hrun]
    exact Or.inl ⟨index, List.mem_of_getElem? hanswer, rfl⟩
  · rw [hrun]
    refine Or.inr (Or.inl ⟨⟨fun hmem => ?_, fun hmem => ?_⟩, rfl⟩)
    · obtain ⟨i, hi, hanswer⟩ := mem_answers_iff.mp hmem
      exact (hall i hi).1 hanswer
    · obtain ⟨i, hi, hanswer⟩ := mem_answers_iff.mp hmem
      exact (hall i hi).2 hanswer
  · rw [hrun]
    exact Or.inr (Or.inr ⟨mem_answers_iff.mpr hnone, rfl⟩)

end Asking

/-! ## Routing -/

section Route

variable (env : Circumstances) {data : Bytes} {s : Managers} {destination source : IpAddress}

/-- Data that goes to everyone reaches the node itself as well: every peer could be asked, and it is
not from here. -/
def Floods (s : Managers) (source : IpAddress) : Prop :=
  none ∉ s.answers ∧ ¬ (source.isLoopback || source == env.host.self) = true

/-- The data is handed to `deserializeMessage`. -/
def HandsOver (s : Managers) (destination source : IpAddress) : Prop :=
  if destination.isUnspecified then Floods env s source
  else if destination.isLoopback || destination == env.host.self then True
  else some destination ∉ s.answers ∧ Floods env s source

variable {env} (receive : Bytes → ManagersM Unit)

/-- The data is handed over, once it has been sent to peers; or that is all; or a peer could not be
asked. -/
def Routed (data : Bytes) (s : Managers) (handed : Prop)
    (r : EStateM.Result Exn Managers Unit) : Prop :=
  ∃ t, Forwarded data s t ∧
    (handed ∧ r = receive data t ∨ ¬ handed ∧ (r = .ok () t ∨ r = .error .zt t))

theorem forward2all_cases : Routed receive data s (Floods env s source)
    (forward2all env receive source data s) := by
  obtain ⟨t, hst, hrun⟩ := forward_cases data source s (List.range s.peerManager.peers.length)
  have hgo : forward2all env receive source data s =
      (forward source data (List.range s.peerManager.peers.length) >>= fun _ =>
        if source.isLoopback || source == env.host.self then pure () else receive data) s := rfl
  refine ⟨t, hst, ?_⟩
  rw [hgo]
  rcases hrun with ⟨hall, hrun⟩ | ⟨hnone, hrun⟩
  · have hasked : none ∉ s.answers := fun hmem => by
      obtain ⟨i, hi, hanswer⟩ := mem_answers_iff.mp hmem
      exact hall i hi hanswer
    rw [bind_ok hrun]
    by_cases hhere : (source.isLoopback || source == env.host.self) = true
    · rw [if_pos hhere]
      exact Or.inr ⟨fun hfloods => hfloods.2 hhere, Or.inl rfl⟩
    · rw [if_neg hhere]
      exact Or.inl ⟨⟨hasked, hhere⟩, rfl⟩
  · rw [bind_error hrun]
    exact Or.inr ⟨fun hfloods => hfloods.1 (mem_answers_iff.mpr hnone), Or.inr rfl⟩

theorem routeData_cases : Routed receive data s (HandsOver env s destination source)
    (routeData env receive data destination source s) := by
  unfold HandsOver routeData
  by_cases hunspecified : destination.isUnspecified = true
  · rw [if_pos hunspecified, if_pos hunspecified]
    exact forward2all_cases receive
  rw [if_neg hunspecified, if_neg hunspecified]
  by_cases hself : (destination.isLoopback || destination == env.host.self) = true
  · rw [if_pos hself, if_pos hself]
    exact ⟨s, .refl data s, Or.inl ⟨trivial, rfl⟩⟩
  rw [if_neg hself, if_neg hself]
  obtain ⟨t, hst, hfind⟩ := findPeer_cases data destination s
  rcases hfind with ⟨index, hmem, hrun⟩ | ⟨⟨hasked, hmiss⟩, hrun⟩ | ⟨hnone, hrun⟩
  · obtain ⟨u, htu, hsend⟩ := transmit_forwarded data t index
    refine ⟨u, hst.trans htu, Or.inr ⟨fun hhanded => hhanded.1 hmem, Or.inl ?_⟩⟩
    rw [bind_ok hrun]
    exact hsend
  · have hcases : Routed receive data t (Floods env t source)
        (forward2all env receive source data t) := forward2all_cases receive
    obtain ⟨u, htu, hflood⟩ := hcases
    have hsame : Floods env t source ↔ some destination ∉ s.answers ∧ Floods env s source := by
      unfold Floods
      rw [hst.answers]
      exact (and_iff_right hmiss).symm
    rw [hsame] at hflood
    refine ⟨u, hst.trans htu, ?_⟩
    rw [bind_ok hrun]
    exact hflood
  · refine ⟨t, hst, Or.inr ⟨fun hhanded => hhanded.2.1 hnone, Or.inr ?_⟩⟩
    rw [bind_error hrun]

end Route

/-! ## Deserializing -/

section Receive

variable (env : Circumstances) {data : Bytes} {s t u : Managers}

/-- One message has joined the queue. -/
structure Enqueued (s t : Managers) : Prop where
  queue : ∃ priority m,
    t.queue = Heap.push (PrioComp env.undefined) s.queue (priority, some m)
  sent : t.sent = s.sent

/-- The message is asked for again. The request is sent to everyone, the node itself included. -/
structure Resent (s t : Managers) : Prop where
  queue : t.queue = s.queue ∨ ∃ request,
    t.queue = Heap.push (PrioComp env.undefined) s.queue
      (resendPriority, some (.resendRequest request))
  sent : ∃ request, t.sent = s.sent ++ [.resendRequest request]

/-- The frame has been dealt with: forwarded, its message enqueued, or dropped and asked for again.
`ZTError` is caught. -/
def Survives (data : Bytes) (s : Managers) : EStateM.Result Exn Managers Unit → Prop
  | .ok _ t => Forwarded data s t ∨ Enqueued env s t ∨ Resent env s t
  | .error e _ => e = .zt

variable {env}

theorem Survives.of_forwarded {r : EStateM.Result Exn Managers Unit} (hst : Forwarded data s t)
    (h : Survives env data t r) : Survives env data s r := by
  cases r with
  | error e u => exact h
  | ok _ u =>
    rcases h with h | h | h
    · exact Or.inl (hst.trans h)
    · obtain ⟨queue, sent⟩ := h
      rw [hst.queue] at queue
      rw [hst.sent] at sent
      exact Or.inr (Or.inl ⟨queue, sent⟩)
    · obtain ⟨queue, sent⟩ := h
      rw [hst.queue] at queue
      rw [hst.sent] at sent
      exact Or.inr (Or.inr ⟨queue, sent⟩)

/-- A request for a message is sent. It passes its own check. -/
theorem sendAt_request (env : Circumstances) (s : Managers) (depth : Nat)
    {request : ResendRequestMessage} (htype : request.type = .resendRequest)
    (destination : IpAddress) :
    ∃ r t, PeerManager.stamp env.host.platform (env.sendClock (.resendRequest request))
        env.host.self destination (.resendRequest request) = .resendRequest r ∧
      Forwarded ((AnyMessage.resendRequest r).save env.host.platform) s t ∧
      (sendAt env (depth + 1) (.resendRequest request) destination s =
          (emplace env resendPriority (.resendRequest r.received) >>= fun _ =>
            remember (.resendRequest r)) t ∨
        sendAt env (depth + 1) (.resendRequest request) destination s =
          remember (.resendRequest r) t ∨
        sendAt env (depth + 1) (.resendRequest request) destination s = .error .zt t) := by
  have hstamp : ∃ r, PeerManager.stamp env.host.platform (env.sendClock (.resendRequest request))
      env.host.self destination (.resendRequest request) = .resendRequest r := ⟨_, rfl⟩
  obtain ⟨r, hr⟩ := hstamp
  have hown : deserializeMessage env.host.platform (env.checkClock
      ((AnyMessage.resendRequest r).save env.host.platform))
      ((AnyMessage.resendRequest r).save env.host.platform) =
        .enqueued resendPriority (AnyMessage.resendRequest r).received := by
    have hbase : (AnyMessage.resendRequest request).base.type = .resendRequest := htype
    have hframe := deserializeMessage_frame env.host.platform
      (env.sendClock (.resendRequest request))
      (env.checkClock ((AnyMessage.resendRequest r).save env.host.platform)) env.host.self
      destination (m := .resendRequest request) htype trivial trivial
    rw [PeerManager.frame, hr, hbase] at hframe
    exact hframe
  have hsend : sendAt env (depth + 1) (.resendRequest request) destination s =
      (routeData env (receive env (sendAt env depth))
        ((AnyMessage.resendRequest r).save env.host.platform) destination .ipv6Unspecified >>=
          fun _ => remember (.resendRequest r)) s := by
    rw [← hr]
    rfl
  have hroute : Routed (receive env (sendAt env depth)) ((AnyMessage.resendRequest r).save
      env.host.platform) s (HandsOver env s destination .ipv6Unspecified) _ := routeData_cases _
  obtain ⟨t, hst, hrouted⟩ := hroute
  refine ⟨r, t, hr, hst, ?_⟩
  rw [hsend]
  rcases hrouted with ⟨-, hrun⟩ | ⟨-, hrun | hrun⟩
  · have hreceive : receive env (sendAt env depth)
        ((AnyMessage.resendRequest r).save env.host.platform) t =
          emplace env resendPriority (.resendRequest r.received) t := by
      rw [receive, hown]
      rfl
    rw [hreceive] at hrun
    exact Or.inl (bind_ok (hrun.trans rfl))
  · exact Or.inr (Or.inl (bind_ok hrun))
  · exact Or.inr (Or.inr (bind_error hrun))

theorem send_request {request : ResendRequestMessage} (htype : request.type = .resendRequest)
    (destination : IpAddress) :
    Survives env data s (send env (.resendRequest request) destination s) := by
  obtain ⟨r, t, -, hst, hrun⟩ := sendAt_request env s 1 htype destination
  rw [send]
  rcases hrun with hrun | hrun | hrun
  · rw [hrun]
    refine Or.inr (Or.inr ⟨Or.inr ⟨r.received, ?_⟩, r, ?_⟩)
    · rw [← hst.queue]
    · exact congrArg (· ++ [AnyMessage.resendRequest r]) hst.sent
  · rw [hrun]
    exact Or.inr (Or.inr ⟨Or.inl hst.queue, r, congrArg (· ++ [_]) hst.sent⟩)
  · rw [hrun]
    rfl

/-- The frame is of a type that is sent over the wire, and long enough for it. -/
def Decodes (pf : Platform) (data : Bytes) : Prop :=
  ∃ type br m rest, data.head? = some type ∧ branch pf (.ofByte type) = some br ∧
    br.load.run data = some (m, rest)

theorem deserializeMessage_cases (pf : Platform) (clk : Clock) (hdata : data ≠ []) :
    (Decodes pf data ∧ ((∃ priority m, deserializeMessage pf clk data = .enqueued priority m) ∨
      ∃ m destination, deserializeMessage pf clk data = .resend (resendRequestFor m) destination)) ∨
    (¬ Decodes pf data ∧ (deserializeMessage pf clk data = .unrecognized ∨
      deserializeMessage pf clk data = .truncated)) := by
  obtain ⟨type, tail, rfl⟩ := List.exists_cons_of_ne_nil hdata
  unfold deserializeMessage Decodes
  cases hbr : branch pf (.ofByte type) with
  | none => exact Or.inr ⟨by simp [hbr], Or.inl (by simp [hbr])⟩
  | some br =>
    cases hload : br.load.run (type :: tail) with
    | none => exact Or.inr ⟨by simp [hbr, hload], Or.inr (by simp [hbr, hload])⟩
    | some read =>
      obtain ⟨m, rest⟩ := read
      refine Or.inl ⟨⟨type, br, m, rest, rfl, hbr, hload⟩, ?_⟩
      simp only [List.head?_cons, hbr, hload]
      split
      · exact Or.inl ⟨_, _, rfl⟩
      · exact Or.inr ⟨_, _, rfl⟩

/-- **A frame that is handed over.** -/
theorem survives_receive_iff (hdata : data ≠ []) (hsu : Forwarded data s u) :
    Survives env data s (receive env (send env) data u) ↔ Decodes env.host.platform data := by
  have hcases := deserializeMessage_cases env.host.platform (env.checkClock data) hdata
  unfold receive
  rcases hcases with ⟨hdecodes, ⟨priority, m, hrun⟩ | ⟨m, destination, hrun⟩⟩ |
      ⟨hdecodes, hrun | hrun⟩
  · rw [hrun]
    have henqueued : Survives env data u (emplace env priority m u) :=
      Or.inr (Or.inl ⟨⟨priority, m, rfl⟩, rfl⟩)
    exact iff_of_true (henqueued.of_forwarded hsu) hdecodes
  · rw [hrun]
    exact iff_of_true ((send_request rfl destination).of_forwarded hsu) hdecodes
  · rw [hrun]
    exact iff_of_false nofun hdecodes
  · rw [hrun]
    exact iff_of_false nofun hdecodes

end Receive

/-! ## Any frame -/

/-- The frame reaches `deserializeMessage`: the peer says who it is, and the frame is handed over
for the receiver in its header. -/
def HandedOver (env : Circumstances) (s : Managers) (peer : PeerEntry) (data memory : Bytes) :
    Prop :=
  ∃ m rest ip, (Message.load env.host.platform).run (headerBytes env data memory) = some (m, rest) ∧
    peer.answer = some ip ∧ HandsOver env s m.receiverNode ip

/-- **Any frame.** A node survives a frame that one of its peers has received if and only if, when
it is handed over, it decodes. -/
theorem survives_iff (env : Circumstances) (s : Managers) (index : Nat) (peer : PeerEntry)
    (data memory : Bytes) (hpeer : s.peerManager.peers[index]? = some peer) (hdata : data ≠ [])
    (hmemory : env.host.platform.sizeofMessage ≤ (data ++ memory).length) :
    Survives env data s (processMessage env index data memory s) ↔
      (HandedOver env s peer data memory → Decodes env.host.platform data) := by
  have hlen : 43 ≤ (headerBytes env data memory).length := by
    have hsize := env.host.platform.sizeofMessage_ge
    rw [headerBytes, List.length_take]
    omega
  obtain ⟨m, rest, hload, -⟩ := within_message env.host.platform _ hlen
  have hrun : processMessage env index data memory s = (sourceOf index m >>= fun source =>
      routeData env (receive env (send env)) data m.receiverNode source) s := by
    rw [processMessage, hload]
  have hsource : sourceOf index m =
      getRemoteIP index >>= fun ip => pure (ip.getD m.senderNode) :=
    if_pos (senderNode_of_load hload)
  have hanswer : s.answers[index]? = some peer.answer := by
    rw [answers, List.getElem?_map, hpeer]
    rfl
  obtain ⟨t, hst, hask⟩ := getRemoteIP_cases data s index
  rw [hanswer] at hask
  rw [hrun]
  cases hpeerAnswer : peer.answer with
  | none =>
    rw [hpeerAnswer] at hask
    have hasked : sourceOf index m s = .error .zt t := by
      rw [hsource]
      exact bind_error hask
    rw [bind_error hasked]
    refine iff_of_true rfl fun hhanded => ?_
    obtain ⟨m', rest', ip, -, hip, -⟩ := hhanded
    rw [hpeerAnswer] at hip
    cases hip
  | some ip =>
    rw [hpeerAnswer] at hask
    have hasked : sourceOf index m s = .ok ip t := by
      rw [hsource]
      exact bind_ok hask
    have hhanded : HandedOver env s peer data memory ↔ HandsOver env s m.receiverNode ip := by
      constructor
      · rintro ⟨m', rest', ip', hload', hip', hhands⟩
        obtain ⟨rfl, -⟩ := Prod.mk.inj (Option.some_inj.mp (hload.symm.trans hload'))
        obtain rfl := Option.some_inj.mp (hpeerAnswer.symm.trans hip')
        exact hhands
      · intro hhands
        exact ⟨m, rest, ip, hload, hpeerAnswer, hhands⟩
    have hsame : HandsOver env t m.receiverNode ip ↔ HandsOver env s m.receiverNode ip := by
      unfold HandsOver Floods
      rw [hst.answers]
    have hroute : Routed (receive env (send env)) data t (HandsOver env t m.receiverNode ip)
        (routeData env (receive env (send env)) data m.receiverNode ip t) := routeData_cases _
    obtain ⟨u, htu, hrouted⟩ := hroute
    rw [bind_ok hasked, hhanded, ← hsame]
    rcases hrouted with ⟨hhands, hrouted⟩ | ⟨hhands, hrouted | hrouted⟩
    · rw [hrouted, survives_receive_iff hdata (hst.trans htu)]
      exact ⟨fun hdecodes _ => hdecodes, fun hdecodes => hdecodes hhands⟩
    · rw [hrouted]
      exact iff_of_true (Or.inl (hst.trans htu)) fun hyes => absurd hyes hhands
    · rw [hrouted]
      exact iff_of_true rfl fun hyes => absurd hyes hhands

/-- A node with one peer. -/
def linkedDocs : Managers := { joinedDocs with
  peerManager := { peers := [{ socket := PeerManager.second }] } }

/-- A request for files, as a frame. Its type is one that nodes only leave in their own queues. -/
def requestFrame : Bytes := docsRequest.save reader.platform

/-- What is in memory behind the frame. -/
def zeros : Bytes := List.replicate 80 0

theorem request_ends_node : ¬ ∀ (env : Circumstances) (s : Managers) (index : Nat)
    (peer : PeerEntry) (data memory : Bytes), s.peerManager.peers[index]? = some peer → data ≠ [] →
    env.host.platform.sizeofMessage ≤ (data ++ memory).length →
    Survives env data s (processMessage env index data memory s) := by
  intro hsurvives
  have hrequest := hsurvives readerCircumstances linkedDocs 0 { socket := PeerManager.second }
    requestFrame zeros rfl (by decide +kernel) (by decide +kernel)
  have hthrown : thrown? (processMessage readerCircumstances 0 requestFrame zeros linkedDocs) =
      some .runtime := by decide +kernel
  cases hrun : processMessage readerCircumstances 0 requestFrame zeros linkedDocs with
  | ok a t =>
    rw [hrun] at hthrown
    cases hthrown
  | error e t =>
    rw [hrun] at hthrown hrequest
    obtain rfl : e = .runtime := Option.some_inj.mp hthrown
    cases hrequest

/-- A message without a valid hash. -/
theorem farewell_survived : Survives readerCircumstances (farewell.save reader.platform) linkedDocs
    (processMessage readerCircumstances 0 (farewell.save reader.platform) zeros linkedDocs) :=
  (survives_iff readerCircumstances linkedDocs 0 { socket := PeerManager.second }
    (farewell.save reader.platform) zeros rfl (by decide +kernel) (by decide +kernel)).mpr
    fun _ => ⟨8, _, _, [], rfl, rfl, (reads_message reader.platform farewell).map
      AnyMessage.message |>.run_eq⟩

end Managers

end WhisperNet
