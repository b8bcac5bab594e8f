import WhisperNet.Network

/-!
# Whose port a backup names

A node that accepts a connection tells the new peer about the peers it has: their addresses, and the
ports at the other ends of their sockets. Where the node itself connected, that is the port the
other one listens on. Where it accepted, it is the port that the other one's stack chose to connect
from, and nobody listens there.

* `accept_greets` — what the accept thread sends.
* `Ports` — where the peers of a node come from.
* `endpoints_listen_iff` — every backup listens if and only if no node accepts twice.
-/

namespace WhisperNet

open Effect PeerManager

/-! ## What the accept thread sends -/

namespace PeerEntry

/-- The peer answers, and for the socket it holds. -/
structure Ready (peer : PeerEntry) : Prop where
  accurate : peer.Accurate
  connected : peer.socket.connected = true

variable {peer : PeerEntry}

theorem Ready.getRemoteIP (h : peer.Ready) : ∃ peer', PeerEntry.getRemoteIP peer =
    .ok peer.socket.remoteIP peer' ∧ peer'.socket = peer.socket ∧ peer'.Ready := by
  have hok : ∃ ip peer', PeerEntry.getRemoteIP peer = .ok ip peer' ∧
      peer'.socket = peer.socket := by
    unfold PeerEntry.getRemoteIP
    cases peer.remoteIP with
    | some ip => exact ⟨ip, peer, rfl, rfl⟩
    | none =>
      rw [Socket.getRemoteIpAddress, if_pos h.connected]
      exact ⟨_, _, rfl, rfl⟩
  obtain ⟨ip, peer', hask, hsocket⟩ := hok
  obtain rfl := h.accurate.ip ip peer' hask
  refine ⟨peer', hask, hsocket, keeps_getRemoteIP.ok hask h.accurate, ?_⟩
  rw [hsocket]
  exact h.connected

theorem Ready.getRemotePort (h : peer.Ready) : ∃ peer', PeerEntry.getRemotePort peer =
    .ok peer.socket.remotePort peer' ∧ peer'.socket = peer.socket ∧ peer'.Ready := by
  have hok : ∃ port peer', PeerEntry.getRemotePort peer = .ok port peer' ∧
      peer'.socket = peer.socket := by
    unfold PeerEntry.getRemotePort
    split
    · rw [Socket.getRemotePort, if_pos h.connected]
      exact ⟨_, _, rfl, rfl⟩
    · exact ⟨_, _, rfl, rfl⟩
  obtain ⟨port, peer', hask, hsocket⟩ := hok
  obtain rfl := h.accurate.port port peer' hask
  refine ⟨peer', hask, hsocket, keeps_getRemotePort.ok hask h.accurate, ?_⟩
  rw [hsocket]
  exact h.connected

theorem Ready.getRemoteEnd (h : peer.Ready) : ∃ peer', PeerEntry.getRemoteEnd peer =
    .ok (peer.socket.remoteIP, peer.socket.remotePort) peer' ∧
      peer'.socket = peer.socket ∧ peer'.Ready := by
  obtain ⟨peer₁, hip, hsocket₁, hready₁⟩ := h.getRemoteIP
  obtain ⟨peer₂, hport, hsocket₂, hready₂⟩ := hready₁.getRemotePort
  refine ⟨peer₂, ?_, hsocket₂.trans hsocket₁, hready₂⟩
  rw [PeerEntry.getRemoteEnd, bind_ok hip, bind_ok hport, hsocket₁]
  rfl

/-- A peer that has just been made remembers nothing. -/
theorem ready_new {socket : Socket} (h : socket.connected = true) : Ready { socket } where
  accurate := accurate_moveConstruct { socket }
  connected := h

end PeerEntry

/-- The sockets that peers hold. -/
def sockets (peers : List PeerEntry) : List Socket := peers.map PeerEntry.socket

section Ask

variable {α : Type} {ask : EStateM ZTError PeerEntry α} {answer : Socket → α}

/-- What a question gets out of a ready peer, and leaves of it. -/
def Answers (ask : EStateM ZTError PeerEntry α) (answer : Socket → α) : Prop :=
  ∀ peer : PeerEntry, peer.Ready → ∃ peer', ask peer = .ok (answer peer.socket) peer' ∧
    peer'.socket = peer.socket ∧ peer'.Ready

theorem askAt_ready (hask : Answers ask answer) {peers : List PeerEntry}
    (hpeers : ∀ peer ∈ peers, peer.Ready) (index : Nat) :
    ∃ peers', askAt ask index peers = .ok ((sockets peers)[index]?.map answer) peers' ∧
      sockets peers' = sockets peers ∧ ∀ peer ∈ peers', peer.Ready := by
  unfold askAt sockets
  rw [List.getElem?_map]
  cases hpeer : peers[index]? with
  | none => exact ⟨peers, rfl, rfl, hpeers⟩
  | some peer =>
    obtain ⟨peer', hrun, hsocket, hready⟩ := hask peer (hpeers peer (List.mem_of_getElem? hpeer))
    dsimp only
    rw [hrun]
    refine ⟨peers.set index peer', rfl, map_set_same hpeer hsocket, fun p hp => ?_⟩
    rcases List.mem_or_eq_of_mem_set hp with hp | rfl
    · exact hpeers p hp
    · exact hready

theorem askEach_ready (hask : Answers ask answer) (indices : List Nat) {peers : List PeerEntry}
    (hpeers : ∀ peer ∈ peers, peer.Ready) :
    ∃ peers', askEach ask indices peers =
        .ok (indices.filterMap fun index => (sockets peers)[index]?.map answer) peers' ∧
      sockets peers' = sockets peers ∧ ∀ peer ∈ peers', peer.Ready := by
  induction indices generalizing peers with
  | nil => exact ⟨peers, rfl, rfl, hpeers⟩
  | cons index rest ih =>
    obtain ⟨peers₁, hfirst, hsockets₁, hready₁⟩ := askAt_ready hask hpeers index
    obtain ⟨peers₂, hrest, hsockets₂, hready₂⟩ := ih hready₁
    refine ⟨peers₂, ?_, hsockets₂.trans hsockets₁, hready₂⟩
    rw [askEach, bind_ok hfirst, bind_ok hrest, hsockets₁]
    show EStateM.Result.ok _ peers₂ = _
    rw [List.filterMap_cons]
    cases (sockets peers)[index]?.map answer with
    | none => rfl
    | some a => rfl

theorem filterMap_range {β : Type} (xs : List β) (f : β → α) :
    ((List.range xs.length).filterMap fun index => xs[index]?.map f) = xs.map f := by
  induction xs using List.reverseRecOn with
  | nil => rfl
  | append_singleton xs x ih =>
    rw [List.length_append, List.length_singleton, List.range_succ, List.filterMap_append,
      List.map_append]
    congr 1
    · rw [← ih]
      apply List.filterMap_congr
      intro index hindex
      rw [List.getElem?_append_left (List.mem_range.mp hindex)]
    · simp

end Ask

/-- The other end of a socket. -/
def Socket.remoteEnd (socket : Socket) : Endpoint := (socket.remoteIP, socket.remotePort)

theorem sockets_emplaceBack (grows : Bool) (peers : List PeerEntry) (peer : PeerEntry) :
    sockets (emplaceBack grows peers peer) = sockets peers ++ [peer.socket] := by
  unfold sockets emplaceBack
  cases grows with
  | true =>
    rw [if_pos rfl, List.map_append, List.map_map]
    rfl
  | false =>
    rw [if_neg Bool.false_ne_true, List.map_append]
    rfl

theorem ready_emplaceBack (grows : Bool) {peers : List PeerEntry} {peer : PeerEntry}
    (hpeers : ∀ p ∈ peers, p.Ready) (hpeer : peer.Ready) :
    ∀ p ∈ emplaceBack grows peers peer, p.Ready := by
  intro p hp
  rcases List.mem_append.mp hp with hp | hp
  · split at hp
    · obtain ⟨q, hq, rfl⟩ := List.mem_map.mp hp
      exact PeerEntry.ready_new (hpeers q hq).connected
    · exact hpeers p hp
  · rw [List.mem_singleton.mp hp]
    exact hpeer

/-- **The accept thread** sends the other ends of the sockets there are. -/
theorem accept_greets {pm : PeerManager} (socket : Socket) (grows : Bool)
    (hpeers : ∀ peer ∈ pm.peers, peer.Ready) (hsocket : socket.connected = true) :
    ∃ peerIP pm', PeerManager.accept socket grows pm =
        .ok ((sockets pm.peers).map Socket.remoteEnd, peerIP) pm' ∧
      sockets pm'.peers = sockets pm.peers ++ [socket] ∧ ∀ peer ∈ pm'.peers, peer.Ready := by
  have hend : Answers PeerEntry.getRemoteEnd Socket.remoteEnd := fun peer h => h.getRemoteEnd
  have hip : Answers PeerEntry.getRemoteIP Socket.remoteIP := fun peer h => h.getRemoteIP
  obtain ⟨peers₁, hask, hsockets₁, hready₁⟩ :=
    askEach_ready hend (List.range pm.peers.length) hpeers
  have hlen : pm.peers.length = (sockets pm.peers).length := (List.length_map _).symm
  rw [hlen, filterMap_range, ← hlen] at hask
  have hready₂ := ready_emplaceBack grows hready₁ (PeerEntry.ready_new hsocket)
  obtain ⟨peers₃, hlast, hsockets₃, hready₃⟩ := askAt_ready hip hready₂
    ((emplaceBack grows peers₁ { socket }).length - 1)
  generalize ((sockets (emplaceBack grows peers₁ { socket }))[
    (emplaceBack grows peers₁ { socket }).length - 1]?.map Socket.remoteIP) = peerIP at hlast
  refine ⟨peerIP, { pm with peers := peers₃ }, ?_, ?_, hready₃⟩
  · have hfirst : onPeers (askEach PeerEntry.getRemoteEnd (List.range pm.peers.length)) pm =
        .ok ((sockets pm.peers).map Socket.remoteEnd) { pm with peers := peers₁ } := onPeers_ok hask
    have hthird : onPeers (askAt PeerEntry.getRemoteIP
        ((emplaceBack grows peers₁ { socket }).length - 1))
        { pm with peers := emplaceBack grows peers₁ { socket } } =
          .ok peerIP { pm with peers := peers₃ } := onPeers_ok hlast
    show (onPeers (askEach PeerEntry.getRemoteEnd (List.range pm.peers.length)) >>= fun backups =>
      (modify fun pm => { pm with peers := emplaceBack grows pm.peers { socket } } :
        PeerM Unit) >>= fun _ => _) pm = _
    rw [bind_ok hfirst]
    show (onPeers (askAt PeerEntry.getRemoteIP
        ((emplaceBack grows peers₁ { socket }).length - 1)) >>= fun peerIP =>
      pure ((sockets pm.peers).map Socket.remoteEnd, peerIP))
        { pm with peers := emplaceBack grows peers₁ { socket } } = _
    rw [bind_ok hthird]
    rfl
  · rw [hsockets₃, sockets_emplaceBack, hsockets₁]

namespace Network

variable {ν : Type} {lan : Lan ν} {s t : Network ν}

/-! ## Endpoints -/

/-- The node that is named listens there. -/
def Listens (lan : Lan ν) (s : Network ν) (backup : Endpoint) : Prop :=
  ∃ v, lan.addr v = backup.1 ∧ s.listening v = some backup.2

/-- The node that is named listens on another port. -/
def Elsewhere (lan : Lan ν) (s : Network ν) (backup : Endpoint) : Prop :=
  ∃ v port, lan.addr v = backup.1 ∧ s.listening v = some port ∧ backup.2 ≠ port

/-- The node that is named runs. -/
def Known (lan : Lan ν) (s : Network ν) (backup : Endpoint) : Prop :=
  Listens lan s backup ∨ Elsewhere lan s backup

/-- The nodes that listen go on doing so. -/
def Extends (s t : Network ν) : Prop :=
  ∀ v port, s.listening v = some port → t.listening v = some port

section Endpoints

variable {backup : Endpoint}

theorem addr_injective (lan : Lan ν) {u v : ν} (h : lan.addr u = lan.addr v) : u = v := by
  have hu := (lan.whois_iff (lan.addr v) u).mpr h
  exact Option.some_inj.mp (hu.symm.trans ((lan.whois_iff (lan.addr v) v).mpr rfl))

theorem Elsewhere.not_listens (h : Elsewhere lan s backup) : ¬ Listens lan s backup := by
  obtain ⟨v, port, hv, hport, hne⟩ := h
  rintro ⟨w, hw, hlistens⟩
  obtain rfl := addr_injective lan (hv.trans hw.symm)
  exact hne (Option.some_inj.mp (hlistens.symm.trans hport))

theorem Extends.listens (h : Extends s t) (hs : Listens lan s backup) : Listens lan t backup := by
  obtain ⟨v, hv, hport⟩ := hs
  exact ⟨v, hv, h v _ hport⟩

theorem Extends.elsewhere (h : Extends s t) (hs : Elsewhere lan s backup) :
    Elsewhere lan t backup := by
  obtain ⟨v, port, hv, hport, hne⟩ := hs
  exact ⟨v, port, hv, h v port hport, hne⟩

theorem Extends.known (h : Extends s t) (hs : Known lan s backup) : Known lan t backup :=
  hs.imp h.listens h.elsewhere

/-- Nothing changes about an endpoint that is known. -/
theorem Extends.elsewhere_iff (h : Extends s t) (hs : Known lan s backup) :
    Elsewhere lan t backup ↔ Elsewhere lan s backup := by
  refine ⟨fun ht => ?_, h.elsewhere⟩
  exact hs.resolve_left fun hlistens => ht.not_listens (h.listens hlistens)

end Endpoints

/-! ## Every step -/

/-- The other ends of a node's sockets. -/
def remoteEnds (s : Network ν) (v : ν) : List Endpoint :=
  (sockets (s.managers v).peers).map Socket.remoteEnd

/-- Where the peers of each node and the backups in each greeting come from. -/
structure Ports (lan : Lan ν) (s : Network ν) : Prop where
  ready : ∀ v, ∀ peer ∈ (s.managers v).peers, peer.Ready
  known : ∀ v, ∀ backup ∈ s.remoteEnds v, Known lan s backup
  accepted : ∀ v, (∃ backup ∈ s.remoteEnds v, Elsewhere lan s backup) ↔ v ∈ s.acceptors
  sent : ∀ greeting ∈ s.greetings, ∀ backup ∈ greeting, Known lan s backup
  greeted : (∃ greeting ∈ s.greetings, ∃ backup ∈ greeting, Elsewhere lan s backup) ↔
    ¬ s.acceptors.Nodup
  backlog : ∀ waiting ∈ s.backlog, s.Chosen waiting.1.connector waiting.2
  started : ∀ v port, s.listening v = some port → v ∈ s.started

/-- What happens as nodes start and join. -/
def Joins : NetworkEvent ν → Prop
  | .start _ _ | .join _ _ _ _ | .accept _ _ _ | .drop _ _ | .connect _ _ => True
  | .crash _ | .lose _ _ | .linkLost _ _ _ | .disconnect _ _ => False

theorem Extends.chosen {v : ν} {sourcePort : UInt16} (h : Extends s t)
    (hs : s.Chosen v sourcePort) : t.Chosen v sourcePort := by
  obtain ⟨port, hport, hne⟩ := hs
  exact ⟨port, h v port hport, hne⟩

theorem ports_start (lan : Lan ν) : Ports lan ({} : Network ν) where
  ready _ _ hpeer := absurd hpeer List.not_mem_nil
  known _ _ hbackup := absurd hbackup List.not_mem_nil
  accepted _ := iff_of_false (fun ⟨_, hbackup, _⟩ => absurd hbackup List.not_mem_nil)
    List.not_mem_nil
  sent _ hgreeting := absurd hgreeting List.not_mem_nil
  greeted := iff_of_false (fun ⟨_, hgreeting, _⟩ => absurd hgreeting List.not_mem_nil)
    (not_not.mpr List.nodup_nil)
  backlog _ hwaiting := absurd hwaiting List.not_mem_nil
  started _ _ hport := absurd hport nofun

variable [DecidableEq ν]

/-- Another node listens. -/
theorem Ports.after_start (hs : Ports lan s) {v : ν} (port : UInt16) (hv : v ∉ s.started) :
    Ports lan (s.after lan (.start v port)) := by
  have hextends : Extends s (s.after lan (.start v port)) := by
    intro w p hp
    have hne : w ≠ v := by
      rintro rfl
      exact hv (hs.started w p hp)
    exact (Function.update_of_ne hne _ _).trans hp
  constructor
  · exact hs.ready
  · exact fun w backup hbackup => hextends.known (hs.known w backup hbackup)
  · intro w
    show _ ↔ w ∈ s.acceptors
    rw [← hs.accepted w]
    constructor
    · rintro ⟨backup, hbackup, helsewhere⟩
      exact ⟨backup, hbackup, (hextends.elsewhere_iff (hs.known w backup hbackup)).mp helsewhere⟩
    · rintro ⟨backup, hbackup, helsewhere⟩
      exact ⟨backup, hbackup, hextends.elsewhere helsewhere⟩
  · exact fun greeting hgreeting backup hbackup =>
      hextends.known (hs.sent greeting hgreeting backup hbackup)
  · show _ ↔ ¬ s.acceptors.Nodup
    rw [← hs.greeted]
    constructor
    · rintro ⟨greeting, hgreeting, backup, hbackup, helsewhere⟩
      have hknown := hs.sent greeting hgreeting backup hbackup
      exact ⟨greeting, hgreeting, backup, hbackup, (hextends.elsewhere_iff hknown).mp helsewhere⟩
    · rintro ⟨greeting, hgreeting, backup, hbackup, helsewhere⟩
      exact ⟨greeting, hgreeting, backup, hbackup, hextends.elsewhere helsewhere⟩
  · exact fun waiting hwaiting => hextends.chosen (hs.backlog waiting hwaiting)
  · intro w p hp
    by_cases hw : w = v
    · rw [hw]
      exact List.mem_cons_self
    · have hold : s.listening w = some p := (Function.update_of_ne hw _ _).symm.trans hp
      exact List.mem_cons_of_mem v (hs.started w p hold)

/-- A node joins, with the port its gateway listens on. -/
theorem Ports.after_join (hs : Ports lan s) {u v : ν} {sourcePort : UInt16} {grows : Bool}
    (hu : s.Chosen u sourcePort) (hv : s.alive v = true) :
    Ports lan (s.after lan (.join u v sourcePort grows)) := by
  obtain ⟨port, hport⟩ := Option.isSome_iff_exists.mp hv
  let socket : Socket := { remoteIP := lan.addr v, remotePort := (s.listening v).getD 0 }
  have hlistens : Listens lan s socket.remoteEnd := by
    refine ⟨v, rfl, ?_⟩
    show s.listening v = some ((s.listening v).getD 0)
    rw [hport]
    rfl
  have hmanager : (s.after lan (.join u v sourcePort grows)).managers = Function.update s.managers u
      { s.managers u with
        peers := emplaceBack grows (s.managers u).peers { socket }
        gatewayIP := lan.addr v } := rfl
  have hends (w : ν) : (s.after lan (.join u v sourcePort grows)).remoteEnds w =
      if w = u then s.remoteEnds u ++ [socket.remoteEnd] else s.remoteEnds w := by
    unfold remoteEnds
    rw [hmanager]
    by_cases hw : w = u
    · rw [hw, if_pos rfl, Function.update_self, sockets_emplaceBack, List.map_append]
      rfl
    · rw [if_neg hw, Function.update_of_ne hw]
  have hmem (w : ν) (backup : Endpoint) :
      backup ∈ (s.after lan (.join u v sourcePort grows)).remoteEnds w ↔
        backup ∈ s.remoteEnds w ∨ w = u ∧ backup = socket.remoteEnd := by
    rw [hends]
    by_cases hw : w = u
    · simp [hw]
    · simp [hw]
  constructor
  · intro w peer hpeer
    rw [hmanager] at hpeer
    by_cases hw : w = u
    · rw [hw, Function.update_self] at hpeer
      exact ready_emplaceBack _ (hs.ready u) (PeerEntry.ready_new rfl) peer hpeer
    · rw [Function.update_of_ne hw] at hpeer
      exact hs.ready w peer hpeer
  · intro w backup hbackup
    rcases (hmem w backup).mp hbackup with hbackup | ⟨-, rfl⟩
    · exact hs.known w backup hbackup
    · exact Or.inl hlistens
  · intro w
    show _ ↔ w ∈ s.acceptors
    rw [← hs.accepted w]
    constructor
    · rintro ⟨backup, hbackup, helsewhere⟩
      rcases (hmem w backup).mp hbackup with hbackup | ⟨-, rfl⟩
      · exact ⟨backup, hbackup, helsewhere⟩
      · exact absurd hlistens helsewhere.not_listens
    · rintro ⟨backup, hbackup, helsewhere⟩
      exact ⟨backup, (hmem w backup).mpr (Or.inl hbackup), helsewhere⟩
  · exact hs.sent
  · exact hs.greeted
  · intro waiting hwaiting
    rcases List.mem_cons.mp hwaiting with rfl | hwaiting
    · exact hu
    · exact hs.backlog waiting hwaiting
  · exact hs.started

/-- A connection is accepted, and the peers there are go into the greeting. -/
theorem Ports.after_accept (hs : Ports lan s) {c : Connection ν} {sourcePort : UInt16}
    {grows : Bool} (hc : (c, sourcePort) ∈ s.backlog) :
    Ports lan (s.after lan (.accept c sourcePort grows)) := by
  let socket : Socket := { remoteIP := lan.addr c.connector, remotePort := sourcePort }
  have helsewhere : Elsewhere lan s socket.remoteEnd := by
    obtain ⟨port, hport, hne⟩ := hs.backlog _ hc
    exact ⟨c.connector, port, rfl, hport, hne⟩
  obtain ⟨peerIP, pm, hrun, hsockets, hready⟩ :=
    accept_greets socket grows (hs.ready c.acceptor) rfl
  have hafter : s.after lan (.accept c sourcePort grows) =
      { (s.onManager c.acceptor pm).onPlaces c.acceptor (s.places c.acceptor ++ [c.id]) with
        backlog := s.backlog.erase (c, sourcePort)
        connects := (c.connector, s.remoteEnds c.acceptor) :: s.connects
        greetings := s.remoteEnds c.acceptor :: s.greetings
        acceptors := c.acceptor :: s.acceptors } := by
    show s.acceptNext lan c sourcePort grows = _
    unfold acceptNext
    simp only [socket] at hrun
    simp only [hrun]
    rfl
  have hmem (w : ν) (backup : Endpoint) :
      backup ∈ (s.after lan (.accept c sourcePort grows)).remoteEnds w ↔
        backup ∈ s.remoteEnds w ∨ w = c.acceptor ∧ backup = socket.remoteEnd := by
    rw [hafter]
    show backup ∈ (sockets (Function.update s.managers c.acceptor pm w).peers).map
      Socket.remoteEnd ↔ _
    by_cases hw : w = c.acceptor
    · rw [hw, Function.update_self, hsockets, List.map_append, List.mem_append]
      simp [remoteEnds]
    · rw [Function.update_of_ne hw]
      simp [hw, remoteEnds]
  have hknown (backup : Endpoint) : Known lan (s.after lan (.accept c sourcePort grows)) backup ↔
      Known lan s backup := by
    rw [hafter]
    rfl
  have hforeign (backup : Endpoint) :
      Elsewhere lan (s.after lan (.accept c sourcePort grows)) backup ↔ Elsewhere lan s backup := by
    rw [hafter]
    rfl
  have hgreetings : (s.after lan (.accept c sourcePort grows)).greetings =
      s.remoteEnds c.acceptor :: s.greetings := by rw [hafter]
  have hacceptors : (s.after lan (.accept c sourcePort grows)).acceptors =
      c.acceptor :: s.acceptors := by rw [hafter]
  constructor
  · intro w peer hpeer
    rw [hafter] at hpeer
    have hpeer : peer ∈ (Function.update s.managers c.acceptor pm w).peers := hpeer
    by_cases hw : w = c.acceptor
    · rw [hw, Function.update_self] at hpeer
      exact hready peer hpeer
    · rw [Function.update_of_ne hw] at hpeer
      exact hs.ready w peer hpeer
  · intro w backup hbackup
    rw [hknown]
    rcases (hmem w backup).mp hbackup with hbackup | ⟨-, rfl⟩
    · exact hs.known w backup hbackup
    · exact Or.inr helsewhere
  · intro w
    rw [hacceptors, List.mem_cons, ← hs.accepted w]
    constructor
    · rintro ⟨backup, hbackup, hnew⟩
      rcases (hmem w backup).mp hbackup with hbackup | ⟨hw, -⟩
      · exact Or.inr ⟨backup, hbackup, (hforeign backup).mp hnew⟩
      · exact Or.inl hw
    · rintro (hw | ⟨backup, hbackup, hold⟩)
      · exact ⟨socket.remoteEnd, (hmem w _).mpr (Or.inr ⟨hw, rfl⟩), (hforeign _).mpr helsewhere⟩
      · exact ⟨backup, (hmem w backup).mpr (Or.inl hbackup), (hforeign backup).mpr hold⟩
  · intro greeting hgreeting backup hbackup
    rw [hknown]
    rw [hgreetings] at hgreeting
    rcases List.mem_cons.mp hgreeting with rfl | hgreeting
    · exact hs.known c.acceptor backup hbackup
    · exact hs.sent greeting hgreeting backup hbackup
  · rw [hgreetings, hacceptors, List.nodup_cons, not_and_or, not_not, ← hs.accepted,
      ← hs.greeted]
    simp only [hforeign, List.exists_mem_cons_iff]
  · intro waiting hwaiting
    rw [hafter] at hwaiting ⊢
    exact hs.backlog waiting (List.mem_of_mem_erase hwaiting)
  · intro w port hport
    rw [hafter] at hport ⊢
    exact hs.started w port hport

/-- **One event.** -/
theorem Ports.step {e : NetworkEvent ν} (hs : Ports lan s) (hjoins : Joins e)
    (h : Step lan s e t) : Ports lan t := by
  obtain ⟨henabled, rfl⟩ := h
  cases e with
  | start v port => exact hs.after_start port henabled
  | join u v sourcePort grows => exact hs.after_join henabled.1 henabled.2.1
  | accept c sourcePort grows => exact hs.after_accept henabled.1
  | drop v backups =>
    exact ⟨hs.ready, hs.known, hs.accepted, hs.sent, hs.greeted, hs.backlog, hs.started⟩
  | connect v backups =>
    have hpeers (w : ν) : ((s.after lan (.connect v backups)).managers w).peers =
        (s.managers w).peers := by
      show (Function.update s.managers v { s.managers v with backupPeers := backups } w).peers = _
      by_cases hw : w = v
      · rw [hw, Function.update_self]
      · rw [Function.update_of_ne hw]
    have hends (w : ν) : (s.after lan (.connect v backups)).remoteEnds w = s.remoteEnds w := by
      unfold remoteEnds
      rw [hpeers]
    refine ⟨fun w => ?_, fun w => ?_, fun w => ?_, hs.sent, hs.greeted, hs.backlog, hs.started⟩
    · rw [hpeers]
      exact hs.ready w
    · rw [hends]
      exact hs.known w
    · rw [hends]
      exact hs.accepted w
  | _ => exact hjoins.elim

/-! ## Every run -/

/-- An event of nodes that start and join. -/
def JoinStep (lan : Lan ν) (s : Network ν) (e : NetworkEvent ν) (t : Network ν) : Prop :=
  Joins e ∧ Step lan s e t

theorem run_ports {es : List (NetworkEvent ν)} (run : Trace (JoinStep lan) s es t)
    (hs : Ports lan s) : Ports lan t := by
  induction run with
  | nil => exact hs
  | cons first _ ih => exact ih (hs.step first.1 first.2)

/-- **Backups.** However nodes start and join, every backup in every connect message that has been
sent is an endpoint that the node named listens on if and only if no node has accepted more than one
connection. -/
theorem endpoints_listen_iff (lan : Lan ν) (t : Network ν) (es : List (NetworkEvent ν))
    (run : Trace (JoinStep lan) {} es t) :
    (∀ greeting ∈ t.greetings, ∀ backup ∈ greeting, Listens lan t backup) ↔ t.acceptors.Nodup := by
  have ht : Ports lan t := run_ports run (ports_start lan)
  rw [← not_iff_not, ← ht.greeted]
  push Not
  constructor
  · rintro ⟨greeting, hgreeting, backup, hbackup, hlistens⟩
    have hknown := ht.sent greeting hgreeting backup hbackup
    exact ⟨greeting, hgreeting, backup, hbackup, hknown.resolve_left hlistens⟩
  · rintro ⟨greeting, hgreeting, backup, hbackup, helsewhere⟩
    exact ⟨greeting, hgreeting, backup, hbackup, helsewhere.not_listens⟩

end Network

/-- Nodes 1 and 2 both join through node 0. -/
def starEvents : List (NetworkEvent (Fin 4)) := [
  .start 0 9000, .start 1 9000, .start 2 9000,
  .join 1 0 5000 true, .accept ⟨0, 1, 0⟩ 5000 true,
  .join 2 0 5001 true, .accept ⟨1, 2, 0⟩ 5001 true]

/-- Node 2 joins through node 1 instead. -/
def chainEvents : List (NetworkEvent (Fin 4)) := [
  .start 0 9000, .start 1 9000, .start 2 9000,
  .join 1 0 5000 true, .accept ⟨0, 1, 0⟩ 5000 true,
  .join 2 1 5001 true, .accept ⟨1, 2, 1⟩ 5001 true]

/-- Node 2 is told of the port that node 1 connected from. -/
theorem star_unreachable : ¬ ∀ (t : Network (Fin 4)) (es : List (NetworkEvent (Fin 4))),
    Trace (Network.JoinStep four) {} es t →
    ∀ greeting ∈ t.greetings, ∀ backup ∈ greeting, Network.Listens four t backup := by
  intro hlistens
  have hstate : (({} : Network (Fin 4)).afterAll four starEvents).map (fun t =>
      (t.greetings, (List.finRange 4).map t.listening)) =
      some ([[(.ipv4 0x0a000002, 5000)], []], [some 9000, some 9000, some 9000, none]) := by
    decide +kernel
  obtain ⟨t, ht, hfacts⟩ := Option.map_eq_some_iff.mp hstate
  obtain ⟨hgreetings, hports⟩ := Prod.mk.inj hfacts
  have hrun := (Network.trace_of_afterAll four ht).labelled (P := Network.Joins) (by
    intro e he
    simp only [starEvents, List.mem_cons, List.not_mem_nil, or_false] at he
    rcases he with rfl | rfl | rfl | rfl | rfl | rfl | rfl <;> trivial)
  have hgreeting := hlistens t starEvents hrun [(.ipv4 0x0a000002, 5000)]
    (by rw [hgreetings]; exact List.mem_cons_self) _ List.mem_cons_self
  obtain ⟨v, -, hport⟩ := hgreeting
  have hmem : some 5000 ∈ (List.finRange 4).map t.listening :=
    List.mem_map.mpr ⟨v, List.mem_finRange v, hport⟩
  rw [hports] at hmem
  revert hmem
  decide

theorem chain_reachable : ∃ t, ({} : Network (Fin 4)).afterAll four chainEvents = some t ∧
    t.greetings = [[(.ipv4 0x0a000001, 9000)], []] ∧
    ∀ greeting ∈ t.greetings, ∀ backup ∈ greeting, Network.Listens four t backup := by
  have hstate : (({} : Network (Fin 4)).afterAll four chainEvents).map (fun t =>
      (t.greetings, t.acceptors)) = some ([[(.ipv4 0x0a000001, 9000)], []], [1, 0]) := by
    decide +kernel
  obtain ⟨t, ht, hfacts⟩ := Option.map_eq_some_iff.mp hstate
  obtain ⟨hgreetings, hacceptors⟩ := Prod.mk.inj hfacts
  have hrun := (Network.trace_of_afterAll four ht).labelled (P := Network.Joins) (by
    intro e he
    simp only [chainEvents, List.mem_cons, List.not_mem_nil, or_false] at he
    rcases he with rfl | rfl | rfl | rfl | rfl | rfl | rfl <;> trivial)
  refine ⟨t, ht, hgreetings, (Network.endpoints_listen_iff four t chainEvents hrun).mpr ?_⟩
  rw [hacceptors]
  decide

end WhisperNet
