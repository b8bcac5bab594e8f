import WhisperNet.Handover

/-!
# The greeting of a new peer

The thread that `PeerManager::setup` starts adds each connection it accepts to the peers, sends the
new peer a `ConnectMessage` with the other ends of the peers there were, and leaves the main thread
a request to send it all files. The greeting goes by the address of the new peer: `send` gives it to
the first peer that has the address.

* `acceptConnection_run` — one connection.
* `newcomers_greeted` — any number of them: where each greeting goes, what the other end makes of
  it, and exactly when every newcomer gets its own.
-/

namespace WhisperNet

open Bin Effect PeerManager

/-- A connection that the accept thread finds, and whether the vector grows by it. -/
structure Arrival where
  env : Circumstances
  socket : Socket
  grows : Bool

namespace Managers

open Failover

/-- `connectMessage` -/
def connectMessage (backupPeers : List (IpAddress × UInt16)) (folders : List FilePath) :
    ConnectMessage where
  type := .connect
  receiverNode := .ipv6Unspecified
  messageHash := 0
  backupPeers := backupPeers
  managedPaths := folders.map .ofElements

/-- `syncRequest` -/
def syncRequest (peerIP : IpAddress) : Message where
  type := .initialSyncRequest
  receiverNode := .ipv6Unspecified
  originatorNode := peerIP
  messageHash := 0

/-- If there is a connection, accept it. -/
def acceptConnection (a : Arrival) : ManagersM Unit := do
  let (backupPeers, peerIP) ← onPeerManager (PeerManager.accept a.socket a.grows)
  match peerIP with
  | some peerIP => do
    let s ← get
    send a.env (.connect (connectMessage backupPeers s.folders)) peerIP
    emplace a.env MessageManager.disconnectPriority (.message (syncRequest peerIP))
  -- The new peer is the last, so there is one.
  | none => pure ()

/-- The loop of the thread. -/
def acceptConnections : List Arrival → ManagersM Unit
  | [] => pure ()
  | a :: rest => do
    acceptConnection a
    acceptConnections rest

/-- The address of some other node. -/
structure Distant (host : Host) (ip : IpAddress) : Prop where
  specified : ip.isUnspecified = false
  elsewhere : (ip.isLoopback || ip == host.self) = false

/-- The place of the first connection to this address. -/
def place (links : List Socket) (ip : IpAddress) : Nat :=
  links.findIdx fun link => link.remoteIP == ip

/-- The greeting of a node that is connected to these when the new peer arrives. -/
def greetingOf (a : Arrival) (folders : List FilePath) (links : List Socket) : Bytes :=
  let m := .connect (connectMessage (links.map Socket.remoteEnd) folders)
  frame a.env.host.platform (a.env.sendClock m) a.env.host.self a.socket.remoteIP m

/-- What the other end makes of it, whatever its clock: the folders, and these connections as
backups. -/
def Greets (a : Arrival) (folders : List FilePath) (links : List Socket) (data : Bytes) : Prop :=
  ∀ clk, ∃ m, MessageManager.deserializeMessage a.env.host.platform clk data =
      .enqueued MessageManager.connectPriority (.connect m) ∧
    m.backupPeers = links.map Socket.remoteEnd ∧ m.managedPaths.map filePath = folders

/-- The folders can be sent. -/
structure FoldersFit (folders : List FilePath) : Prop where
  size : SizeFits folders.length
  normal : ∀ p ∈ folders, InNormalForm p
  fits : ∀ p ∈ folders, PathFits (.ofElements p)

/-! ## Where it goes -/

section Place

variable {links rest : List Socket} {ip : IpAddress}

theorem place_eq (hmem : ∃ link ∈ links, link.remoteIP = ip) : ∃ link,
    links[place links ip]? = some link ∧ link.remoteIP = ip := by
  have hlt : place links ip < links.length := by
    apply List.findIdx_lt_length_of_exists
    obtain ⟨link, hlink, hip⟩ := hmem
    exact ⟨link, hlink, beq_iff_eq.mpr hip⟩
  refine ⟨_, List.getElem?_eq_getElem hlt, ?_⟩
  exact beq_iff_eq.mp (List.findIdx_getElem (w := hlt))

/-- Connections that come later do not change it. -/
theorem place_append (hmem : ∃ link ∈ links, link.remoteIP = ip) :
    place (links ++ rest) ip = place links ip := by
  obtain ⟨link, hget, -⟩ := place_eq hmem
  have hlt : place links ip < links.length := (List.getElem?_eq_some_iff.mp hget).1
  rw [place, List.findIdx_append]
  exact if_pos hlt

theorem place_eq_length_iff {socket : Socket} :
    place (links ++ [socket]) socket.remoteIP = links.length ↔
      ∀ link ∈ links, link.remoteIP ≠ socket.remoteIP := by
  have hsingle : [socket].findIdx (fun link => link.remoteIP == socket.remoteIP) = 0 := by
    simp
  rw [place, List.findIdx_append, hsingle, zero_add]
  have hall : links.findIdx (fun link => link.remoteIP == socket.remoteIP) = links.length ↔
      ∀ link ∈ links, link.remoteIP ≠ socket.remoteIP := by
    rw [List.findIdx_eq_length]
    simp
  rw [← hall]
  by_cases hlt : links.findIdx (fun link => link.remoteIP == socket.remoteIP) < links.length
  · rw [if_pos hlt]
  · rw [if_neg hlt]
    exact iff_of_true rfl (Nat.le_antisymm List.findIdx_le_length (Nat.not_lt.mp hlt))

end Place

/-! ## The search -/

section Search

variable {peers : List PeerEntry} {ip : IpAddress}

theorem findAmong_ready (ip : IpAddress) (indices : List Nat)
    (hpeers : ∀ peer ∈ peers, peer.Ready) :
    ∃ peers', findAmong ip indices peers =
        .ok (indices.find? fun index => (sockets peers)[index]?.map Socket.remoteIP == some ip)
          peers' ∧
      sockets peers' = sockets peers ∧ ∀ peer ∈ peers', peer.Ready := by
  have hask : Answers PeerEntry.getRemoteIP Socket.remoteIP := fun peer h => h.getRemoteIP
  induction indices generalizing peers with
  | nil => exact ⟨peers, rfl, rfl, hpeers⟩
  | cons index rest ih =>
    obtain ⟨peers₁, hfirst, hsockets₁, hready₁⟩ := askAt_ready hask hpeers index
    rw [findAmong, bind_ok hfirst, List.find?_cons]
    by_cases hfound : (sockets peers)[index]?.map Socket.remoteIP = some ip
    · rw [if_pos hfound, beq_iff_eq.mpr hfound]
      exact ⟨peers₁, rfl, hsockets₁, hready₁⟩
    · rw [if_neg hfound, beq_false_of_ne hfound]
      obtain ⟨peers₂, hrest, hsockets₂, hready₂⟩ := ih hready₁
      rw [hsockets₁] at hrest hsockets₂
      exact ⟨peers₂, hrest, hsockets₂, hready₂⟩

/-- The search finds the first connection to the address. -/
theorem findPeer_ready (hpeers : ∀ peer ∈ peers, peer.Ready)
    (hmem : ∃ link ∈ sockets peers, link.remoteIP = ip) :
    ∃ peers', findPeer ip peers = .ok (some (place (sockets peers) ip)) peers' ∧
      sockets peers' = sockets peers ∧ ∀ peer ∈ peers', peer.Ready := by
  obtain ⟨peers', hrun, hsockets, hready⟩ :=
    findAmong_ready ip (List.range peers.length) hpeers
  refine ⟨peers', ?_, hsockets, hready⟩
  show findAmong ip (List.range peers.length) peers = _
  rw [hrun]
  congr 1
  obtain ⟨link, hget, hip⟩ := place_eq hmem
  have hlt := (List.getElem?_eq_some_iff.mp hget).1
  rw [List.find?_range_eq_some]
  refine ⟨?_, List.mem_range.mpr (by simpa [sockets] using hlt), fun j hj => ?_⟩
  · rw [hget, Option.map_some, hip, beq_self_eq_true]
  · have hbefore := List.not_of_lt_findIdx hj
    rw [List.getElem?_eq_getElem (hj.trans hlt)]
    simpa using hbefore

end Search

/-! ## One connection -/

section Accepting

variable {a : Arrival} {s : Managers} {pm pm' : PeerManager}

/-- The address under which the new peer is greeted. -/
theorem accept_address {socket : Socket} {grows : Bool} {backups : List (IpAddress × UInt16)}
    {peerIP : Option IpAddress} (hsocket : socket.connected = true)
    (h : PeerManager.accept socket grows pm = .ok (backups, peerIP) pm') :
    peerIP = some socket.remoteIP := by
  obtain ⟨got, pm₀, hget, h⟩ := bind_eq_ok h
  obtain ⟨asked, pm₁, -, h⟩ := bind_eq_ok h
  obtain ⟨u, pm₂, hmodify, h⟩ := bind_eq_ok h
  obtain ⟨-, rfl⟩ := EStateM.Result.ok.inj hmodify
  obtain ⟨got', pm₃, hget', h⟩ := bind_eq_ok h
  obtain ⟨rfl, rfl⟩ := EStateM.Result.ok.inj hget'
  obtain ⟨ip, pm₄, hask, h⟩ := bind_eq_ok h
  obtain ⟨hresult, -⟩ := EStateM.Result.ok.inj h
  obtain ⟨-, rfl⟩ := Prod.mk.inj hresult
  have hlast : (emplaceBack grows pm₁.peers { socket })[
      (emplaceBack grows pm₁.peers { socket }).length - 1]? = some { socket } := by
    rw [← List.getLast?_eq_getElem?, emplaceBack, List.getLast?_append]
    rfl
  have hgives : PeerEntry.getRemoteIP { socket } =
      .ok socket.remoteIP { socket, remoteIP := some socket.remoteIP } := by
    rw [PeerEntry.getRemoteIP, Socket.getRemoteIpAddress, if_pos hsocket]
  rw [onPeers, askAt] at hask
  dsimp only at hask
  rw [hlast] at hask
  dsimp only at hask
  rw [hgives] at hask
  exact (EStateM.Result.ok.inj hask).1.symm

/-- What is sent to a peer is written to the first connection to its address. -/
theorem send_linked {env : Circumstances} {m : AnyMessage} {ip : IpAddress}
    (hpeers : ∀ peer ∈ s.peerManager.peers, peer.Ready) (hip : Distant env.host ip)
    (hmem : ∃ link ∈ links s, link.remoteIP = ip) :
    ∃ link t, (links s)[place (links s) ip]? = some link ∧ send env m ip s = .ok () t ∧
      links t = links s ∧ (∀ peer ∈ t.peerManager.peers, peer.Ready) ∧ t.folders = s.folders ∧
      t.emplaced = s.emplaced ∧ t.written = s.written ++
        [(link, frame env.host.platform (env.sendClock m) env.host.self ip m)] := by
  obtain ⟨link, hlink, -⟩ := place_eq hmem
  obtain ⟨peers, hfind, hsockets, hready⟩ := findPeer_ready hpeers hmem
  let msg := PeerManager.stamp env.host.platform (env.sendClock m) env.host.self ip m
  let t : Managers := { s with
    peerManager := { s.peerManager with peers }
    written := s.written ++ [(link, msg.save env.host.platform)] }
  have hrun : onPeerManager (onPeers (findPeer ip)) s =
      .ok (some (place (links s) ip)) { s with peerManager := { s.peerManager with peers } } := by
    rw [onPeerManager_onPeers, hfind]
    rfl
  have hwritten : peers[place (links s) ip]?.map
      (fun peer => (peer.socket, msg.save env.host.platform)) =
        some (link, msg.save env.host.platform) := by
    have hget : (sockets peers)[place (links s) ip]? = some link := by
      rw [hsockets]
      exact hlink
    rw [sockets, List.getElem?_map, Option.map_eq_some_iff] at hget
    obtain ⟨peer, hpeer, rfl⟩ := hget
    rw [hpeer]
    rfl
  have hroute : routeData env (receive env (sendAt env 1)) (msg.save env.host.platform) ip
      .ipv6Unspecified s = .ok () t := by
    rw [routeData, hip.specified, hip.elsewhere, if_neg Bool.false_ne_true,
      if_neg Bool.false_ne_true, bind_ok hrun]
    show EStateM.Result.ok () _ = _
    dsimp only
    rw [hwritten]
    rfl
  refine ⟨link, { t with
    oldMessages := MessageManager.emplaceBack t.oldMessages msg
    sent := t.sent ++ [msg] }, hlink, ?_, hsockets, hready, rfl, rfl, rfl⟩
  rw [send, sendAt, bind_ok hroute]
  rfl

/-- **One connection.** -/
theorem acceptConnection_run (hpeers : ∀ peer ∈ s.peerManager.peers, peer.Ready)
    (hsocket : a.socket.connected = true) (hip : Distant a.env.host a.socket.remoteIP) :
    ∃ link t, acceptConnection a s = .ok () t ∧ links t = links s ++ [a.socket] ∧
      (∀ peer ∈ t.peerManager.peers, peer.Ready) ∧ t.folders = s.folders ∧
      t.emplaced = .message (syncRequest a.socket.remoteIP) :: s.emplaced ∧
      (links t)[place (links t) a.socket.remoteIP]? = some link ∧
      t.written = s.written ++ [(link, greetingOf a s.folders (links s))] := by
  obtain ⟨peerIP, pm, haccept, hlinks, hready⟩ :=
    accept_greets a.socket a.grows hpeers hsocket
  obtain rfl := accept_address hsocket haccept
  have hfirst : onPeerManager (PeerManager.accept a.socket a.grows) s =
      .ok ((links s).map Socket.remoteEnd, some a.socket.remoteIP)
        { s with peerManager := pm } := by
    rw [onPeerManager, haccept]
    rfl
  have hmem : ∃ link ∈ links { s with peerManager := pm }, link.remoteIP = a.socket.remoteIP := by
    refine ⟨a.socket, ?_, rfl⟩
    show a.socket ∈ sockets pm.peers
    rw [hlinks]
    exact List.mem_append_right _ (List.mem_singleton.mpr rfl)
  obtain ⟨link, u, hlink, hsend, hsame, hready', hfolders, hemplaced, hwritten⟩ := send_linked
    (s := { s with peerManager := pm })
    (m := .connect (connectMessage ((links s).map Socket.remoteEnd) s.folders)) hready hip hmem
  let request := AnyMessage.message (syncRequest a.socket.remoteIP)
  refine ⟨link, { u with
      queue := Heap.push (PrioComp a.env.undefined) u.queue
        (MessageManager.disconnectPriority, some request)
      emplaced := request :: u.emplaced },
    ?_, hsame.trans hlinks, hready', hfolders, congrArg (request :: ·) hemplaced, ?_, hwritten⟩
  · rw [acceptConnection, bind_ok hfirst]
    show (send a.env (.connect (connectMessage ((links s).map Socket.remoteEnd) s.folders))
      a.socket.remoteIP >>= fun _ => emplace a.env MessageManager.disconnectPriority request)
        { s with peerManager := pm } = _
    rw [bind_ok hsend]
    rfl
  · show (links u)[place (links u) a.socket.remoteIP]? = some link
    rw [hsame]
    exact hlink

end Accepting

/-! ## All of them -/

/-- The other end reads what was written. -/
theorem greets_greetingOf {a : Arrival} {folders : List FilePath} {links : List Socket}
    (hfolders : FoldersFit folders) (hlinks : SizeFits links.length) :
    Greets a folders links (greetingOf a folders links) := by
  intro clk
  let m := connectMessage (links.map Socket.remoteEnd) folders
  have hfits : (AnyMessage.connect m).Fits := by
    refine ⟨?_, ?_, fun path hpath => ?_⟩
    · rwa [← List.length_map (f := Socket.remoteEnd)] at hlinks
    · exact (List.length_map FsPath.ofElements).symm ▸ hfolders.size
    · obtain ⟨p, hp, rfl⟩ := List.mem_map.mp hpath
      exact hfolders.fits p hp
  have hunfiled : (AnyMessage.connect m).Unfiled := by
    intro path hpath
    obtain ⟨p, hp, rfl⟩ := List.mem_map.mp hpath
    exact (hfolders.normal p hp).ofElements.1
  refine ⟨_, deserializeMessage_frame a.env.host.platform (a.env.sendClock (.connect m)) clk
    a.env.host.self a.socket.remoteIP rfl hfits hunfiled, rfl, ?_⟩
  show ((folders.map FsPath.ofElements).map FsPath.lexicallyNormal).map filePath = folders
  rw [List.map_map, List.map_map]
  calc folders.map _ = folders.map id :=
        List.map_congr_left fun p hp => (hfolders.normal p hp).received
    _ = folders := List.map_id _

section Loop

variable {s : Managers}

theorem acceptConnections_run (arrivals : List Arrival)
    (hpeers : ∀ peer ∈ s.peerManager.peers, peer.Ready)
    (harrivals : ∀ a ∈ arrivals, a.socket.connected = true ∧
      Distant a.env.host a.socket.remoteIP) :
    ∃ t greetings, acceptConnections arrivals s = .ok () t ∧
      links t = links s ++ arrivals.map Arrival.socket ∧
      t.emplaced = (arrivals.map fun a => .message (syncRequest a.socket.remoteIP)).reverse ++
        s.emplaced ∧
      t.written = s.written ++ greetings ∧ greetings.length = arrivals.length ∧
      ∀ k a, arrivals[k]? = some a → ∃ link,
        (links t)[place (links t) a.socket.remoteIP]? = some link ∧
        greetings[k]? = some (link, greetingOf a s.folders
          ((links t).take ((links s).length + k))) := by
  induction arrivals generalizing s with
  | nil =>
    exact ⟨s, [], rfl, (List.append_nil _).symm, rfl, (List.append_nil _).symm, rfl, nofun⟩
  | cons a rest ih =>
    obtain ⟨⟨hsocket, hip⟩, hrest⟩ := List.forall_mem_cons.mp harrivals
    obtain ⟨link, u, hfirst, hlinks₁, hready, hfolders, hemplaced₁, hlink, hwritten₁⟩ :=
      acceptConnection_run hpeers hsocket hip
    obtain ⟨t, greetings, hrun, hlinks₂, hemplaced₂, hwritten₂, hlength, hgreet⟩ :=
      ih hready hrest
    have hlinks : links t = links s ++ (a :: rest).map Arrival.socket := by
      rw [hlinks₂, hlinks₁, List.map_cons, List.append_assoc, List.singleton_append]
    refine ⟨t, (link, greetingOf a s.folders (links s)) :: greetings, ?_, hlinks, ?_, ?_, ?_, ?_⟩
    · rw [acceptConnections, bind_ok hfirst, hrun]
    · rw [hemplaced₂, hemplaced₁, List.map_cons, List.reverse_cons, List.append_assoc,
        List.singleton_append]
    · rw [hwritten₂, hwritten₁, List.append_assoc, List.singleton_append]
    · rw [List.length_cons, List.length_cons, hlength]
    · intro k b hb
      cases k with
      | zero =>
        obtain rfl : a = b := by simpa using hb
        refine ⟨link, ?_, ?_⟩
        · rw [hlinks₂, place_append ⟨a.socket, by simp [hlinks₁], rfl⟩,
            List.getElem?_append_left (List.getElem?_eq_some_iff.mp hlink).1]
          exact hlink
        · rw [hlinks, Nat.add_zero, List.take_left]
          rfl
      | succ k =>
        obtain ⟨link', hplace, hget⟩ := hgreet k b (by simpa using hb)
        refine ⟨link', hplace, ?_⟩
        rw [hlinks₁, List.length_append, List.length_singleton, Nat.add_assoc, Nat.add_comm 1,
          hfolders] at hget
        exact hget

/-- Nothing comes that is there. -/
theorem distinct_iff {α : Type} {xs ys : List α} :
    (∀ k y, ys[k]? = some y → y ∉ xs ++ ys.take k) ↔ ys.Nodup ∧ ∀ y ∈ ys, y ∉ xs := by
  induction ys generalizing xs with
  | nil => exact iff_of_true nofun ⟨List.nodup_nil, nofun⟩
  | cons y rest ih =>
    have hsplit : (∀ k z, (y :: rest)[k]? = some z → z ∉ xs ++ (y :: rest).take k) ↔
        y ∉ xs ∧ ∀ k z, rest[k]? = some z → z ∉ (xs ++ [y]) ++ rest.take k := by
      constructor
      · intro h
        refine ⟨by simpa using h 0 y rfl, fun k z hz => ?_⟩
        have hnext := h (k + 1) z hz
        rwa [List.take_succ_cons, ← List.singleton_append, ← List.append_assoc] at hnext
      · rintro ⟨hfirst, hrest⟩ k z hz
        cases k with
        | zero =>
          obtain rfl : y = z := by simpa using hz
          simpa using hfirst
        | succ k =>
          rw [List.take_succ_cons, ← List.singleton_append, ← List.append_assoc]
          exact hrest k z hz
    rw [hsplit, ih, List.nodup_cons]
    constructor
    · rintro ⟨hfirst, hnodup, hnew⟩
      refine ⟨⟨?_, hnodup⟩, List.forall_mem_cons.mpr ⟨hfirst, fun z hz => ?_⟩⟩
      · exact fun hy => hnew y hy (List.mem_append_right _ (List.mem_singleton.mpr rfl))
      · exact fun hmem => hnew z hz (List.mem_append_left _ hmem)
    · rintro ⟨⟨hout, hnodup⟩, hnew⟩
      obtain ⟨hfirst, hrest⟩ := List.forall_mem_cons.mp hnew
      refine ⟨hfirst, hnodup, fun z hz hmem => ?_⟩
      rcases List.mem_append.mp hmem with hmem | hmem
      · exact hrest z hz hmem
      · exact hout (List.mem_singleton.mp hmem ▸ hz)

/-- A newcomer's own place is the first with its address if no connection before has it. -/
theorem place_own_iff {before : List Socket} {sockets : List Socket} {k : Nat} {socket : Socket}
    (hsocket : sockets[k]? = some socket) :
    place (before ++ sockets) socket.remoteIP = before.length + k ↔
      socket.remoteIP ∉ before.map Socket.remoteIP ++ (sockets.map Socket.remoteIP).take k := by
  obtain ⟨hlt, rfl⟩ := List.getElem?_eq_some_iff.mp hsocket
  have hsplit : before ++ sockets =
      (before ++ sockets.take k) ++ [sockets[k]] ++ sockets.drop (k + 1) := by
    rw [List.append_assoc, List.append_assoc, List.singleton_append, List.getElem_cons_drop,
      List.take_append_drop]
  have hlength : (before ++ sockets.take k).length = before.length + k := by
    rw [List.length_append, List.length_take, Nat.min_eq_left hlt.le]
  rw [hsplit, place_append ⟨sockets[k],
    List.mem_append_right _ (List.mem_singleton.mpr rfl), rfl⟩, ← hlength, place_eq_length_iff,
    ← List.map_take, ← List.map_append]
  simp only [List.mem_map, not_exists, not_and]

/-- **The accept thread greets its newcomers.** Each gets a greeting that says what the node was
connected to when it came, on the first connection to its address; and all get their own if no two
newcomers have the same address and none has that of a peer there was. -/
theorem newcomers_greeted (arrivals : List Arrival)
    (hpeers : ∀ peer ∈ s.peerManager.peers, peer.Ready)
    (harrivals : ∀ a ∈ arrivals, a.socket.connected = true ∧
      Distant a.env.host a.socket.remoteIP)
    (hfolders : FoldersFit s.folders)
    (hsize : SizeFits ((links s).length + arrivals.length)) :
    ∃ t greetings, acceptConnections arrivals s = .ok () t ∧
      links t = links s ++ arrivals.map Arrival.socket ∧
      t.emplaced = (arrivals.map fun a => .message (syncRequest a.socket.remoteIP)).reverse ++
        s.emplaced ∧
      t.written = s.written ++ greetings ∧ greetings.length = arrivals.length ∧
      (∀ k a, arrivals[k]? = some a → ∃ link data, greetings[k]? = some (link, data) ∧
        (links t)[place (links t) a.socket.remoteIP]? = some link ∧
        Greets a s.folders ((links t).take ((links s).length + k)) data) ∧
      ((∀ k a, arrivals[k]? = some a →
          place (links t) a.socket.remoteIP = (links s).length + k) ↔
        (arrivals.map fun a => a.socket.remoteIP).Nodup ∧
          ∀ a ∈ arrivals, ∀ link ∈ links s, link.remoteIP ≠ a.socket.remoteIP) := by
  obtain ⟨t, greetings, hrun, hlinks, hemplaced, hwritten, hlength, hgreet⟩ :=
    acceptConnections_run arrivals hpeers harrivals
  refine ⟨t, greetings, hrun, hlinks, hemplaced, hwritten, hlength, fun k a ha => ?_, ?_⟩
  · obtain ⟨link, hplace, hget⟩ := hgreet k a ha
    have hk := (List.getElem?_eq_some_iff.mp ha).1
    refine ⟨link, _, hget, hplace, greets_greetingOf hfolders ?_⟩
    have hle : ((links t).take ((links s).length + k)).length ≤
        (links s).length + arrivals.length :=
      (List.length_take_le _ _).trans (Nat.add_le_add_left hk.le _)
    exact hle.trans_lt hsize
  · have hown : ∀ k a, arrivals[k]? = some a →
        (place (links t) a.socket.remoteIP = (links s).length + k ↔ a.socket.remoteIP ∉
          (links s).map Socket.remoteIP ++ (arrivals.map fun a => a.socket.remoteIP).take k) := by
      intro k a ha
      have hsocket : (arrivals.map Arrival.socket)[k]? = some a.socket := by
        rw [List.getElem?_map, ha]
        rfl
      rw [hlinks, place_own_iff hsocket, List.map_map]
      rfl
    have hnew : (arrivals.map fun a => a.socket.remoteIP).Nodup ∧
          (∀ a ∈ arrivals, ∀ link ∈ links s, link.remoteIP ≠ a.socket.remoteIP) ↔
        ∀ k a, arrivals[k]? = some a → a.socket.remoteIP ∉
          (links s).map Socket.remoteIP ++ (arrivals.map fun a => a.socket.remoteIP).take k := by
      have hbefore : (∀ a ∈ arrivals, ∀ link ∈ links s, link.remoteIP ≠ a.socket.remoteIP) ↔
          ∀ ip ∈ arrivals.map fun a => a.socket.remoteIP,
            ip ∉ (links s).map Socket.remoteIP := by
        constructor
        · intro h ip hip hmem
          obtain ⟨a, ha, rfl⟩ := List.mem_map.mp hip
          obtain ⟨link, hlink, heq⟩ := List.mem_map.mp hmem
          exact h a ha link hlink heq
        · intro h a ha link hlink heq
          exact h _ (List.mem_map.mpr ⟨a, ha, rfl⟩) (List.mem_map.mpr ⟨link, hlink, heq⟩)
      rw [hbefore, ← distinct_iff]
      constructor
      · intro h k a ha
        refine h k _ ?_
        rw [List.getElem?_map, ha]
        rfl
      · intro h k ip hip
        rw [List.getElem?_map, Option.map_eq_some_iff] at hip
        obtain ⟨a, ha, rfl⟩ := hip
        exact h k a ha
    rw [hnew]
    constructor
    · exact fun h k a ha => (hown k a ha).mp (h k a ha)
    · exact fun h k a ha => (hown k a ha).mpr (h k a ha)

end Loop

/-- A node that connects from this port. -/
def arrivalFrom (remotePort : UInt16) : Arrival where
  env := readerCircumstances
  socket := { remoteIP := .ipv4 0x0a000003, remotePort }
  grows := true

/-- A node that connects again is greeted on its old connection. -/
theorem greeted_on_old_connection : ∃ t,
    acceptConnections [arrivalFrom 12345, arrivalFrom 12346] joinedDocs = .ok () t ∧
      ∃ data, t.written[1]? = some ((arrivalFrom 12345).socket, data) ∧
        Greets (arrivalFrom 12346) joinedDocs.folders [(arrivalFrom 12345).socket] data := by
  have hfolders : FoldersFit joinedDocs.folders := by
    refine ⟨by decide, fun p hp => ?_, fun p hp => ?_⟩
    · rw [List.mem_singleton.mp hp]
      exact ⟨⟨[100, 111, 99, 115]⟩, by decide, by decide⟩
    · rw [List.mem_singleton.mp hp]
      decide
  obtain ⟨t, greetings, hrun, hlinks, -, hwritten, -, heach, -⟩ := newcomers_greeted
    [arrivalFrom 12345, arrivalFrom 12346] (s := joinedDocs) (fun _ h => absurd h List.not_mem_nil)
    (by
      intro a ha
      rcases List.mem_pair.mp ha with rfl | rfl
      · exact ⟨rfl, by decide, by decide⟩
      · exact ⟨rfl, by decide, by decide⟩)
    hfolders (by decide)
  obtain ⟨link, data, hget, hplace, hgreets⟩ := heach 1 (arrivalFrom 12346) rfl
  have hall : links t = [(arrivalFrom 12345).socket, (arrivalFrom 12346).socket] := hlinks
  rw [hall] at hplace hgreets
  obtain rfl : (arrivalFrom 12345).socket = link := Option.some_inj.mp hplace
  exact ⟨t, hrun, data, hwritten ▸ hget, hgreets⟩

end Managers

end WhisperNet
