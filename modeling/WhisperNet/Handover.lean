import WhisperNet.Backups
import WhisperNet.BadFrames

/-!
# Peers whose connections move

What becomes of the list of peers, and of a broadcast to them, where links are lost. A peer whose
link is lost still gives its address if it has been asked for it before. When connections move
between the places of the list, the addresses that the places remember stay behind.

* `findPeer_asked` — a search asks the peers up to the one that it finds.
* `askable_eraseAt`, `askable_insertFront` — when every place can be asked after a move.
* `send_disconnect`, `send_stuck` — a broadcast reaches everyone, or ends at a peer that cannot be
  asked.
-/

namespace WhisperNet

open Bin Effect PeerManager Managers

namespace Failover

/-! ## The places -/

theorem sockets_shiftDown (peers : List PeerEntry) :
    sockets (shiftDown peers) = (sockets peers).tail := by
  induction peers using shiftDown.induct with
  | case1 => rfl
  | case2 peer => rfl
  | case3 peer next rest ih =>
    show next.socket :: sockets (shiftDown (next :: rest)) = next.socket :: sockets rest
    rw [ih]
    rfl

theorem sockets_eraseAt (index : Nat) (peers : List PeerEntry) :
    sockets (eraseAt index peers) = (sockets peers).eraseIdx index := by
  have hdrop := sockets_shiftDown (peers.drop index)
  rw [List.eraseIdx_eq_take_drop_succ, ← List.tail_drop]
  unfold sockets at hdrop ⊢
  rw [eraseAt, List.map_append, hdrop, List.map_take, List.map_drop]

theorem sockets_insertFront (new : PeerEntry) (peers : List PeerEntry) :
    sockets (insertFront new peers) = new.socket :: sockets peers := by
  induction peers generalizing new with
  | nil => rfl
  | cons peer rest ih =>
    show new.socket :: sockets (insertFront peer rest) = _
    rw [ih]
    rfl

/-- The peer gives the address of the node at the other end. -/
def Knows (peer : PeerEntry) : Prop :=
  ∃ peer', PeerEntry.getRemoteIP peer = .ok peer.socket.remoteIP peer'

/-- The peer gives some address. -/
def Askable (peer : PeerEntry) : Prop :=
  peer.remoteIP.isSome = true ∨ peer.socket.connected = true

/-- No address that the peer may give is unspecified. -/
structure Named (peer : PeerEntry) : Prop where
  remoteIP : peer.socket.remoteIP ≠ .ipv6Unspecified
  cached : ∀ ip ∈ peer.remoteIP, ip ≠ .ipv6Unspecified

section Asking

variable {peer : PeerEntry} {peers : List PeerEntry} {index : Nat}

theorem getRemoteIP_ok (h : Askable peer) : ∃ ip,
    PeerEntry.getRemoteIP peer = .ok ip { peer with remoteIP := some ip } ∧
      (peer.remoteIP = some ip ∨ peer.socket.remoteIP = ip) := by
  obtain ⟨socket, cached, remotePort⟩ := peer
  cases cached with
  | some ip => exact ⟨ip, rfl, Or.inl rfl⟩
  | none =>
    have hconnected : socket.connected = true := h.resolve_left Bool.false_ne_true
    refine ⟨socket.remoteIP, ?_, Or.inr rfl⟩
    unfold PeerEntry.getRemoteIP
    dsimp only
    rw [Socket.getRemoteIpAddress, if_pos hconnected]

theorem getRemoteIP_error (h : ¬ Askable peer) :
    PeerEntry.getRemoteIP peer = .error .error peer := by
  obtain ⟨socket, cached, remotePort⟩ := peer
  obtain ⟨hcached, hconnected⟩ := not_or.mp h
  cases cached with
  | some ip => exact absurd rfl hcached
  | none =>
    unfold PeerEntry.getRemoteIP
    dsimp only
    rw [Socket.getRemoteIpAddress, if_neg hconnected]

theorem Knows.askable (h : Knows peer) : Askable peer := by
  by_contra hnot
  obtain ⟨peer', hrun⟩ := h
  rw [getRemoteIP_error hnot] at hrun
  cases hrun

theorem Knows.getRemoteIP (h : Knows peer) : PeerEntry.getRemoteIP peer =
    .ok peer.socket.remoteIP { peer with remoteIP := some peer.socket.remoteIP } := by
  obtain ⟨ip, hask, -⟩ := getRemoteIP_ok h.askable
  obtain ⟨peer', hrun⟩ := h
  obtain ⟨hip, -⟩ := EStateM.Result.ok.inj (hrun.symm.trans hask)
  rw [hask, hip]

theorem Knows.named (h : Knows peer) (hip : peer.socket.remoteIP ≠ .ipv6Unspecified) :
    Named peer := by
  refine ⟨hip, fun ip hcached => ?_⟩
  have hrun : PeerEntry.getRemoteIP peer = .ok ip peer := by
    rw [PeerEntry.getRemoteIP, Option.mem_def.mp hcached]
  obtain ⟨rfl, -⟩ := EStateM.Result.ok.inj (hrun.symm.trans h.getRemoteIP)
  exact hip

/-- What becomes of the peers when the first `count` of them, and no others, are asked. -/
structure Asked (peers peers' : List PeerEntry) (count : Nat) : Prop where
  links : sockets peers' = sockets peers
  knows : ∀ peer ∈ peers', Knows peer
  cached : ∀ peer ∈ peers'.take count, peer.remoteIP.isSome = true
  after : peers'.drop count = peers.drop count

variable {peers' : List PeerEntry}

theorem Asked.next (h : Asked peers peers' index) (hindex : index < peers.length) :
    ∃ peers'', askAt PeerEntry.getRemoteIP index peers' =
        .ok ((sockets peers)[index]?.map Socket.remoteIP) peers'' ∧
      Asked peers peers'' (index + 1) := by
  have hlen : peers'.length = peers.length := by
    simpa [sockets] using congrArg List.length h.links
  obtain ⟨peer, hpeer⟩ : ∃ peer, peers'[index]? = some peer :=
    ⟨_, List.getElem?_eq_getElem (hlen.symm ▸ hindex)⟩
  have hsocket : (sockets peers)[index]? = some peer.socket := by
    rw [← h.links, sockets, List.getElem?_map, hpeer]
    rfl
  have hask := (h.knows peer (List.mem_of_getElem? hpeer)).getRemoteIP
  let asked : PeerEntry := { peer with remoteIP := some peer.socket.remoteIP }
  refine ⟨peers'.set index asked, ?_, ?_, fun other hother => ?_, fun other hother => ?_, ?_⟩
  · unfold askAt
    rw [hpeer, hsocket]
    dsimp only
    rw [hask]
    rfl
  · exact (map_set_same (f := PeerEntry.socket) (y := asked) hpeer rfl).trans h.links
  · rcases List.mem_or_eq_of_mem_set hother with hother | rfl
    · exact h.knows other hother
    · exact ⟨asked, rfl⟩
  · rw [List.take_add_one, List.take_set_of_le le_rfl] at hother
    rcases List.mem_append.mp hother with hother | hother
    · exact h.cached other hother
    · rw [List.getElem?_set_self (hlen.symm ▸ hindex)] at hother
      rw [List.mem_singleton.mp hother]
      rfl
  · rw [List.drop_set_of_lt (Nat.lt_succ_self index), ← List.tail_drop, h.after, List.tail_drop]

/-- The first of the links that has this address. -/
def FirstLink (ip : IpAddress) (links : List Socket) (index : Nat) : Prop :=
  links[index]?.map Socket.remoteIP = some ip ∧
    ∀ j < index, links[j]?.map Socket.remoteIP ≠ some ip

theorem findAmong_asked (ip : IpAddress) (len : Nat) (h : Asked peers peers' index)
    (hlen : index + len = peers.length)
    (hbefore : ∀ j < index, (sockets peers)[j]?.map Socket.remoteIP ≠ some ip) :
    ((∀ j < peers.length, (sockets peers)[j]?.map Socket.remoteIP ≠ some ip) ∧
      ∃ peers'', sockets peers'' = sockets peers ∧
        findAmong ip (List.range' index len) peers' = .ok none peers'') ∨
    ∃ found peers'', FirstLink ip (sockets peers) found ∧ Asked peers peers'' (found + 1) ∧
      findAmong ip (List.range' index len) peers' = .ok (some found) peers'' := by
  induction len generalizing index peers' with
  | zero =>
    refine Or.inl ⟨fun j hj => hbefore j (by omega), peers', h.links, rfl⟩
  | succ len ih =>
    obtain ⟨asked, hask, hnext⟩ := h.next (hlen ▸ Nat.lt_add_of_pos_right len.succ_pos)
    rw [List.range'_succ, findAmong, bind_ok hask]
    by_cases hfound : (sockets peers)[index]?.map Socket.remoteIP = some ip
    · rw [if_pos hfound]
      exact Or.inr ⟨index, asked, ⟨hfound, hbefore⟩, hnext, rfl⟩
    · rw [if_neg hfound]
      refine ih hnext (by omega) fun j hj => ?_
      rcases Nat.lt_succ_iff_lt_or_eq.mp hj with hj | rfl
      · exact hbefore j hj
      · exact hfound

/-- The search asks the peers up to the first that has the address. -/
theorem findPeer_asked (h : ∀ peer ∈ peers, Knows peer) (ip : IpAddress) :
    ((∀ socket ∈ sockets peers, socket.remoteIP ≠ ip) ∧
      ∃ peers', sockets peers' = sockets peers ∧ findPeer ip peers = .ok none peers') ∨
    ∃ found peers', FirstLink ip (sockets peers) found ∧ Asked peers peers' (found + 1) ∧
      findPeer ip peers = .ok (some found) peers' := by
  have hfind : findPeer ip peers = findAmong ip (List.range peers.length) peers := rfl
  rw [hfind, List.range_eq_range']
  have hstart : Asked peers peers 0 := ⟨rfl, h, nofun, rfl⟩
  rcases findAmong_asked ip peers.length hstart (Nat.zero_add _) nofun with
    ⟨hmissing, hrest⟩ | hfound
  · refine Or.inl ⟨fun socket hsocket hip => ?_, hrest⟩
    obtain ⟨j, hj⟩ := List.mem_iff_getElem?.mp hsocket
    have hlen := (List.getElem?_eq_some_iff.mp hj).1
    refine hmissing j (by simpa [sockets] using hlen) ?_
    rw [hj, Option.map_some, hip]
  · exact Or.inr hfound

end Asking

/-! ## Connections that move -/

section Moves

variable {peers : List PeerEntry}

/-- A place that is assigned to holds another socket. -/
theorem Named.moveAssign {peer other : PeerEntry} (h : Named peer) (h' : Named other) :
    Named (peer.moveAssign other) :=
  ⟨h'.remoteIP, h.cached⟩

theorem named_shiftDown (h : ∀ peer ∈ peers, Named peer) :
    ∀ peer ∈ shiftDown peers, Named peer := by
  induction peers using shiftDown.induct with
  | case1 => exact h
  | case2 peer => exact fun _ hpeer => absurd hpeer List.not_mem_nil
  | case3 peer next rest ih =>
    obtain ⟨hpeer, hrest⟩ := List.forall_mem_cons.mp h
    exact List.forall_mem_cons.mpr
      ⟨hpeer.moveAssign (hrest next List.mem_cons_self), ih hrest⟩

theorem named_eraseAt (index : Nat) (h : ∀ peer ∈ peers, Named peer) :
    ∀ peer ∈ eraseAt index peers, Named peer := by
  intro peer hpeer
  rcases List.mem_append.mp hpeer with hpeer | hpeer
  · exact h peer (List.mem_of_mem_take hpeer)
  · exact named_shiftDown (fun other hother => h other (List.mem_of_mem_drop hother)) peer hpeer

theorem named_insertFront {new : PeerEntry} (hnew : Named new) (h : ∀ peer ∈ peers, Named peer) :
    ∀ peer ∈ insertFront new peers, Named peer := by
  induction peers generalizing new with
  | nil =>
    intro peer hpeer
    rw [List.mem_singleton.mp hpeer]
    exact ⟨hnew.remoteIP, nofun⟩
  | cons peer rest ih =>
    obtain ⟨hpeer, hrest⟩ := List.forall_mem_cons.mp h
    exact List.forall_mem_cons.mpr ⟨hpeer.moveAssign hnew, ih hpeer hrest⟩

/-- No place that has never been asked gets a connection that is lost. -/
def ShiftsAsked (peers : List PeerEntry) : Prop :=
  peers.IsChain fun peer next => peer.remoteIP.isSome = true ∨ next.socket.connected = true

/-- When all move down by one, a place has to know an address or get a connection that does. -/
theorem askable_shiftDown : (∀ peer ∈ shiftDown peers, Askable peer) ↔ ShiftsAsked peers := by
  induction peers using shiftDown.induct with
  | case1 => exact iff_of_true (List.forall_mem_nil _) List.isChain_nil
  | case2 peer => exact iff_of_true (List.forall_mem_nil _) (List.isChain_singleton _)
  | case3 peer next rest ih =>
    rw [shiftDown, List.forall_mem_cons, ih]
    show (Askable (peer.moveAssign next) ∧ ShiftsAsked (next :: rest)) ↔ List.IsChain _ _
    rw [List.isChain_cons_cons]
    rfl

theorem shiftsAsked_cons {first : PeerEntry} (hfirst : first.remoteIP.isSome = true) :
    ShiftsAsked (first :: peers) ↔ ShiftsAsked peers := by
  unfold ShiftsAsked
  cases peers with
  | nil => exact iff_of_true (List.isChain_singleton _) List.isChain_nil
  | cons next rest => rw [List.isChain_cons_cons, and_iff_right (Or.inl hfirst)]

section Erase

variable {index : Nat} {peers' : List PeerEntry}

theorem Asked.at_index (h : Asked peers peers' (index + 1)) (hindex : index < peers.length) :
    ∃ first, peers'.drop index = first :: peers.drop (index + 1) ∧
      first.remoteIP.isSome = true := by
  have hlen : index < peers'.length := by
    have hlength := congrArg List.length h.links
    simp only [sockets, List.length_map] at hlength
    rwa [hlength]
  refine ⟨peers'[index], ?_, h.cached _ ?_⟩
  · rw [← h.after, List.drop_eq_getElem_cons hlen]
  · exact List.mem_take_iff_getElem.mpr ⟨index, by omega, rfl⟩

theorem askable_eraseAt (h : Asked peers peers' (index + 1)) (hindex : index < peers.length) :
    (∀ peer ∈ eraseAt index peers', Askable peer) ↔ ShiftsAsked (peers.drop (index + 1)) := by
  obtain ⟨first, hdrop, hfirst⟩ := h.at_index hindex
  have htake : ∀ peer ∈ peers'.take index, Askable peer := fun peer hpeer =>
    (h.knows peer (List.mem_of_mem_take hpeer)).askable
  rw [eraseAt, List.forall_mem_append, and_iff_right htake, hdrop, askable_shiftDown,
    shiftsAsked_cons hfirst]

end Erase

/-- What goes in front moves them up again: the last place is a new one. -/
theorem askable_insert_shiftDown {new first : PeerEntry}
    (hnew : first.remoteIP.isSome = true ∨ new.socket.connected = true)
    (hpeers : ∀ peer ∈ peers, Askable peer) :
    (∀ peer ∈ insertFront new (shiftDown (first :: peers)), Askable peer) ↔
      ∀ socket ∈ (new.socket :: sockets peers).getLast?, socket.connected = true := by
  induction peers generalizing new first with
  | nil =>
    have hlast : Askable new.moveConstruct ↔ new.socket.connected = true :=
      or_iff_right Bool.false_ne_true
    rw [shiftDown, insertFront, List.forall_mem_singleton, hlast]
    simp [sockets]
  | cons next rest ih =>
    obtain ⟨hnext, hrest⟩ := List.forall_mem_cons.mp hpeers
    have hfirst : Askable ((first.moveAssign next).moveAssign new) := hnew
    rw [shiftDown, insertFront, List.forall_mem_cons, and_iff_right hfirst]
    exact ih hnext hrest

theorem askable_insert_append {new first : PeerEntry} {rest : List PeerEntry}
    (hpeers : ∀ peer ∈ peers, peer.remoteIP.isSome = true) (hfirst : first.remoteIP.isSome = true)
    (hrest : ∀ peer ∈ rest, Askable peer) :
    (∀ peer ∈ insertFront new (peers ++ shiftDown (first :: rest)), Askable peer) ↔
      ∀ socket ∈ (new.socket :: (sockets peers ++ sockets rest)).getLast?,
        socket.connected = true := by
  induction peers generalizing new with
  | nil => exact askable_insert_shiftDown (Or.inl hfirst) hrest
  | cons peer peers ih =>
    obtain ⟨hpeer, hpeers⟩ := List.forall_mem_cons.mp hpeers
    have hplace : Askable (peer.moveAssign new) := Or.inl hpeer
    rw [List.cons_append, insertFront, List.forall_mem_cons, and_iff_right hplace, ih hpeers]
    rfl

theorem askable_insertFront {new : PeerEntry} {index : Nat} {peers' : List PeerEntry}
    (h : Asked peers peers' (index + 1)) (hindex : index < peers.length)
    (hnew : new.socket.connected = true) :
    (∀ peer ∈ insertFront new (eraseAt index peers'), Askable peer) ↔
      ∀ socket ∈ ((sockets peers).eraseIdx index).getLast?, socket.connected = true := by
  obtain ⟨first, hdrop, hfirst⟩ := h.at_index hindex
  have hcached : ∀ peer ∈ peers'.take index, peer.remoteIP.isSome = true := fun peer hpeer =>
    h.cached peer ((List.take_prefix_take_left index.le_succ).subset hpeer)
  have hrest : ∀ peer ∈ peers.drop (index + 1), Askable peer := by
    rw [← h.after]
    exact fun peer hpeer => (h.knows peer (List.mem_of_mem_drop hpeer)).askable
  have hlinks : sockets (peers'.take index) ++ sockets (peers.drop (index + 1)) =
      (sockets peers).eraseIdx index := by
    rw [List.eraseIdx_eq_take_drop_succ, ← h.links]
    unfold sockets
    rw [List.map_take, List.map_drop, ← List.map_drop, ← List.map_drop, h.after]
  rw [eraseAt, hdrop, askable_insert_append hcached hfirst hrest, hlinks]
  cases (sockets peers).eraseIdx index with
  | nil => simp [hnew]
  | cons socket rest => rw [List.getLast?_cons_cons]

end Moves

/-! ## What is sent -/

/-- The other ends of a node's connections. -/
def links (s : Managers) : List Socket := sockets s.peerManager.peers

/-- The message that is sent about a peer that is gone. -/
def announcement (env : Circumstances) (ip : IpAddress) : AnyMessage :=
  PeerManager.stamp env.host.platform (env.sendClock (.message (disconnectOf ip))) env.host.self
    .ipv6Unspecified (.message (disconnectOf ip))

section Sending

/-- Every peer can be asked, and none gives the unspecified address. -/
structure Sendable (s : Managers) : Prop where
  named : ∀ peer ∈ s.peerManager.peers, Named peer
  askable : ∀ peer ∈ s.peerManager.peers, Askable peer

theorem askAt_sendable {s : Managers} (h : Sendable s) (index : Nat) :
    ∃ answer peers, askAt PeerEntry.getRemoteIP index s.peerManager.peers = .ok answer peers ∧
      answer ≠ some .ipv6Unspecified ∧ sockets peers = links s ∧
      (∀ peer ∈ peers, Named peer) ∧ ∀ peer ∈ peers, Askable peer := by
  unfold askAt
  cases hpeer : s.peerManager.peers[index]? with
  | none => exact ⟨none, s.peerManager.peers, rfl, nofun, rfl, h.named, h.askable⟩
  | some peer =>
    have hmem := List.mem_of_getElem? hpeer
    obtain ⟨ip, hask, hip⟩ := getRemoteIP_ok (h.askable peer hmem)
    have hnamed := h.named peer hmem
    have hspecified : ip ≠ .ipv6Unspecified := by
      rcases hip with hcached | rfl
      · exact hnamed.cached ip hcached
      · exact hnamed.remoteIP
    dsimp only
    rw [hask]
    refine ⟨some ip, _, rfl, mt Option.some_inj.mp hspecified, map_set_same hpeer rfl, ?_, ?_⟩
    · intro other hother
      rcases List.mem_or_eq_of_mem_set hother with hother | rfl
      · exact h.named other hother
      · refine ⟨hnamed.remoteIP, fun cached hcached => ?_⟩
        rw [← Option.mem_some.mp hcached]
        exact hspecified
    · intro other hother
      rcases List.mem_or_eq_of_mem_set hother with hother | rfl
      · exact h.askable other hother
      · exact Or.inl rfl

/-- Nobody is the source of what the node sends itself. -/
theorem forwardTo_run (data : Bytes) (index : Nat) {s : Managers} (h : Sendable s) :
    ∃ peers, sockets peers = links s ∧
      (∀ peer ∈ peers, Named peer) ∧ (∀ peer ∈ peers, Askable peer) ∧
      forwardTo .ipv6Unspecified data index s = .ok () { s with
        peerManager := { s.peerManager with peers }
        written := s.written ++ ((links s)[index]?.map fun socket => (socket, data)).toList } := by
  obtain ⟨answer, peers, hask, hanswer, hsockets, hnamed, haskable⟩ := askAt_sendable h index
  refine ⟨peers, hsockets, hnamed, haskable, ?_⟩
  have hip : Managers.getRemoteIP index s =
      .ok answer { s with peerManager := { s.peerManager with peers } } := by
    rw [Managers.getRemoteIP, onPeerManager_onPeers, hask]
  have hsame : peers[index]?.map (fun peer => (peer.socket, data)) =
      (links s)[index]?.map fun socket => (socket, data) := by
    rw [← hsockets, sockets, List.getElem?_map, Option.map_map]
    rfl
  rw [forwardTo, bind_ok hip, if_pos hanswer, ← hsame]
  rfl

theorem forward_run (data : Bytes) (indices : List Nat) {s : Managers} (h : Sendable s) :
    ∃ peers, sockets peers = links s ∧
      forward .ipv6Unspecified data indices s = .ok () { s with
        peerManager := { s.peerManager with peers }
        written := s.written ++
          indices.filterMap fun i => (links s)[i]?.map fun socket => (socket, data) } := by
  induction indices generalizing s with
  | nil => exact ⟨s.peerManager.peers, rfl, by rw [List.filterMap_nil, List.append_nil]; rfl⟩
  | cons index rest ih =>
    obtain ⟨peers₁, hsockets₁, hnamed₁, haskable₁, hfirst⟩ := forwardTo_run data index h
    rw [forward, bind_ok hfirst]
    generalize hs₁ : ({ s with
      peerManager := { s.peerManager with peers := peers₁ }
      written := s.written ++ ((links s)[index]?.map fun socket => (socket, data)).toList } :
        Managers) = s₁
    have hlinks : links s₁ = links s := by rw [← hs₁]; exact hsockets₁
    obtain ⟨peers₂, hsockets₂, hrest⟩ := ih (s := s₁) (by rw [← hs₁]; exact ⟨hnamed₁, haskable₁⟩)
    refine ⟨peers₂, hsockets₂.trans hlinks, ?_⟩
    rw [hrest, hlinks, ← hs₁, List.append_assoc, List.filterMap_cons]
    cases (links s)[index]?.map fun socket => (socket, data) with
    | none => rfl
    | some w => rfl

theorem forwardTo_askable (source : IpAddress) (data : Bytes) {index : Nat} {s : Managers}
    (h : ∀ peer ∈ s.peerManager.peers[index]?, Askable peer) :
    ∃ t, forwardTo source data index s = .ok () t ∧
      ∀ j ≠ index, t.peerManager.peers[j]? = s.peerManager.peers[j]? := by
  obtain ⟨answer, peers, hask, hothers⟩ : ∃ answer peers,
      askAt PeerEntry.getRemoteIP index s.peerManager.peers = .ok answer peers ∧
        ∀ j ≠ index, peers[j]? = s.peerManager.peers[j]? := by
    unfold askAt
    cases hpeer : s.peerManager.peers[index]? with
    | none => exact ⟨none, _, rfl, fun _ _ => rfl⟩
    | some peer =>
      obtain ⟨ip, hask, -⟩ := getRemoteIP_ok (h peer hpeer)
      dsimp only
      rw [hask]
      exact ⟨some ip, _, rfl, fun j hj => List.getElem?_set_ne hj.symm⟩
  have hip : Managers.getRemoteIP index s =
      .ok answer { s with peerManager := { s.peerManager with peers } } := by
    rw [Managers.getRemoteIP, onPeerManager_onPeers, hask]
  rw [forwardTo, bind_ok hip]
  split
  · exact ⟨_, rfl, hothers⟩
  · exact ⟨_, rfl, hothers⟩

/-- A peer that cannot be asked ends the loop. -/
theorem forward_stuck (source : IpAddress) (data : Bytes) (indices : List Nat) {s : Managers}
    {index : Nat} {peer : PeerEntry} (hindex : index ∈ indices)
    (hpeer : s.peerManager.peers[index]? = some peer) (hstuck : ¬ Askable peer) :
    ∃ e t, forward source data indices s = .error e t := by
  induction indices generalizing s with
  | nil => cases hindex
  | cons first rest ih =>
    rw [forward]
    by_cases hfirst : ∀ peer ∈ s.peerManager.peers[first]?, Askable peer
    · obtain ⟨t, hrun, hothers⟩ := forwardTo_askable source data hfirst
      have hne : index ≠ first := by
        intro heq
        exact hstuck (hfirst peer (heq ▸ hpeer))
      rw [bind_ok hrun]
      refine ih ?_ ((hothers index hne).trans hpeer)
      exact (List.mem_cons.mp hindex).resolve_left hne
    · push Not at hfirst
      obtain ⟨other, hother, hstuck⟩ := hfirst
      have hask : askAt PeerEntry.getRemoteIP first s.peerManager.peers =
          .error .error (s.peerManager.peers.set first other) := by
        unfold askAt
        rw [Option.mem_def.mp hother]
        dsimp only
        rw [getRemoteIP_error hstuck]
      have hip := onPeerManager_onPeers (askAt PeerEntry.getRemoteIP first) s
      rw [hask] at hip
      have hrun : forwardTo source data first s = .error .zt _ := bind_error hip
      exact ⟨_, _, bind_error hrun⟩

/-- **Broadcasting a disconnect**: every peer is sent the same frame. -/
theorem send_disconnect (env : Circumstances) (ip : IpAddress) {s : Managers} (h : Sendable s) :
    ∃ t, Managers.send env (.message (disconnectOf ip)) .ipv6Unspecified s = .ok () t ∧
      links t = links s ∧ t.peerManager.gatewayIP = s.peerManager.gatewayIP ∧
      t.peerManager.backupPeers = s.peerManager.backupPeers ∧
      t.sent = s.sent ++ [announcement env ip] ∧
      t.written = s.written ++ (links s).map fun socket =>
        (socket, (announcement env ip).save env.host.platform) := by
  let data := (announcement env ip).save env.host.platform
  obtain ⟨peers, hsockets, hforward⟩ :=
    forward_run data (List.range s.peerManager.peers.length) h
  have hlen : s.peerManager.peers.length = (links s).length := (List.length_map _).symm
  rw [hlen, filterMap_range, ← hlen] at hforward
  -- The node's own copy passes its check and joins the queue.
  have hreceive (u : Managers) : ∃ priority m, receive env (sendAt env 1) data u =
      emplace env priority m u := by
    have hframe := deserializeMessage_frame env.host.platform
      (env.sendClock (.message (disconnectOf ip))) (env.checkClock data) env.host.self
      .ipv6Unspecified (m := .message (disconnectOf ip)) rfl trivial trivial
    have hdata : frame env.host.platform (env.sendClock (.message (disconnectOf ip)))
      env.host.self .ipv6Unspecified (.message (disconnectOf ip)) = data := rfl
    rw [hdata] at hframe
    exact ⟨_, _, by rw [receive, hframe]⟩
  have hroute : ∃ queue emplaced, routeData env (receive env (sendAt env 1)) data
      .ipv6Unspecified .ipv6Unspecified s = .ok () { s with
        peerManager := { s.peerManager with peers }
        written := s.written ++ (links s).map fun socket => (socket, data)
        queue, emplaced } := by
    have hunspecified : IpAddress.isUnspecified .ipv6Unspecified = true := rfl
    rw [routeData, if_pos hunspecified, forward2all]
    show ∃ queue emplaced, (forward .ipv6Unspecified data
      (List.range s.peerManager.peers.length) >>= fun _ => if IpAddress.isLoopback .ipv6Unspecified ||
        IpAddress.ipv6Unspecified == env.host.self then pure ()
      else receive env (sendAt env 1) data) s = _
    rw [bind_ok hforward]
    split
    · exact ⟨s.queue, s.emplaced, rfl⟩
    · obtain ⟨priority, m, hreceive⟩ := hreceive { s with
        peerManager := { s.peerManager with peers }
        written := s.written ++ (links s).map fun socket => (socket, data) }
      exact ⟨_, _, hreceive⟩
  obtain ⟨queue, emplaced, hroute⟩ := hroute
  refine ⟨_, bind_ok hroute, hsockets, rfl, rfl, rfl, rfl⟩

/-- Nothing is broadcast while there is a peer that cannot be asked. -/
theorem send_stuck (env : Circumstances) (m : AnyMessage) {s : Managers}
    (h : ¬ ∀ peer ∈ s.peerManager.peers, Askable peer) :
    ∃ e t, Managers.send env m .ipv6Unspecified s = .error e t := by
  obtain ⟨peer, hpeer, hstuck⟩ : ∃ peer ∈ s.peerManager.peers, ¬ Askable peer := by
    simpa using h
  obtain ⟨index, hindex⟩ := List.mem_iff_getElem?.mp hpeer
  have hrange := List.mem_range.mpr (List.getElem?_eq_some_iff.mp hindex).1
  let data := (PeerManager.stamp env.host.platform (env.sendClock m) env.host.self
    .ipv6Unspecified m).save env.host.platform
  obtain ⟨e, t, hforward⟩ := forward_stuck .ipv6Unspecified data _ hrange hindex hstuck
  refine ⟨e, t, ?_⟩
  have hunspecified : IpAddress.isUnspecified .ipv6Unspecified = true := rfl
  have hroute : routeData env (receive env (sendAt env 1)) data .ipv6Unspecified
      .ipv6Unspecified s = .error e t := by
    rw [routeData, if_pos hunspecified, forward2all]
    show (forward .ipv6Unspecified data (List.range s.peerManager.peers.length) >>=
      fun _ => _) s = _
    exact bind_error hforward
  exact bind_error hroute

end Sending

end Failover

end WhisperNet
