import WhisperNet.Handover

/-!
# When a link is lost

`processLinkLostMessage` with an account of what it does under the lock and after: which backups it
tries to connect to, in which order, and what it sends. A backup whose address is not valid is
passed over.

* `processLinkLostMessage` — the handler, with its account.
* `erase_processLinkLostMessage` — without the account it is the handler of `Managers`.
* `failover_iff` — when the peer that is lost is removed, the gateway replaced and everyone told.
-/

namespace WhisperNet

open Bin Effect PeerManager Managers

/-- What the handler needs of ZeroTier: which addresses are valid, and what becomes of
`Peer::connect` for the backup at each position. -/
structure ZeroTier where
  isValid : IpAddress → Bool
  connect : Nat → Option Socket

/-- What comes of the attempt at each position, where one that is not valid is not reached. -/
def ZeroTier.attempts (zt : ZeroTier) (backups : List Endpoint) (peer : Nat) : Option Socket :=
  backups[peer]?.bind fun backup => if zt.isValid backup.1 then zt.connect peer else none

namespace Failover

/-! ## The handler -/

/-- What the handler does besides changing the state. -/
inductive Act
  | lock
  | unlock
  | connect (peer : Nat)
  | send (m : AnyMessage) (destination : IpAddress)

/-- The managers, and what has been done. -/
structure State where
  base : Managers
  acts : List Act := []

abbrev FailoverM := EStateM Exn State

def act (a : Act) : FailoverM Unit := modify fun s => { s with acts := s.acts ++ [a] }

def lift {α : Type} (x : ManagersM α) : FailoverM α := fun s =>
  match x s.base with
  | .ok a base => .ok a { s with base }
  | .error e base => .error e { s with base }

/-- The connection goes to the front, its backup becomes the gateway and is a backup no more. -/
def replaced (peer : Nat) (socket : Socket) (backupIP : IpAddress) (s : Managers) : Managers :=
  { s with peerManager := {
      peers := insertFront { socket } s.peerManager.peers
      gatewayIP := backupIP
      backupPeers := s.peerManager.backupPeers.eraseIdx peer } }

section Handler

variable (env : Circumstances) (zt : ZeroTier)

/-- The loop over the backups, from `peer` on. -/
def tryBackups : Nat → List Endpoint → FailoverM Unit
  | _, [] => pure ()
  | peer, (backupIP, _) :: rest =>
    if zt.isValid backupIP then do
      act (.connect peer)
      match zt.connect peer with
      | some socket => lift (modify (replaced peer socket backupIP))
      | none => tryBackups (peer + 1) rest
    else tryBackups (peer + 1) rest

/-- The gateway is gone. -/
def replaceGateway : FailoverM Unit := do
  lift (modify fun s => { s with peerManager := { s.peerManager with
    gatewayIP := .ipv6Unspecified } })
  tryBackups zt 0 (← get).base.peerManager.backupPeers

/-- Remove the disconnected peer from our list of peers. -/
def removePeer (index : Nat) : FailoverM Unit :=
  lift (modify fun s => { s with peerManager := { s.peerManager with
    peers := eraseAt index s.peerManager.peers } })

/-- What is done under the lock. -/
def removeLost (originatorNode : IpAddress) : FailoverM (Option IpAddress) := do
  match ← lift (onPeerManager (onPeers (findPeer originatorNode))) with
  | none => return none
  | some index => do
    let removedIP ← lift (onPeerManager (onPeers (askAt PeerEntry.getRemoteIP index)))
    removePeer index
    if removedIP = some (← get).base.peerManager.gatewayIP then replaceGateway zt else pure ()
    return removedIP

def processLinkLostMessage (m : Message) : FailoverM Bool := do
  act .lock
  let removedIP ← removeLost zt m.originatorNode
  act .unlock
  match removedIP.filter zt.isValid with
  | some removedIP => do
    act (.send (.message (disconnectOf removedIP)) .ipv6Unspecified)
    lift (Managers.send env (.message (disconnectOf removedIP)) .ipv6Unspecified)
    return true
  | none => return true

end Handler

theorem act_ok (a : Act) (s : State) : act a s = .ok () ⟨s.base, s.acts ++ [a]⟩ := rfl

theorem lift_ok {α : Type} {x : ManagersM α} {s : State} {a : α} {t : Managers}
    (h : x s.base = .ok a t) : lift x s = .ok a ⟨t, s.acts⟩ := by
  rw [lift, h]

theorem lift_error {α : Type} {x : ManagersM α} {s : State} {e : Exn} {t : Managers}
    (h : x s.base = .error e t) : lift x s = .error e ⟨t, s.acts⟩ := by
  rw [lift, h]

/-! ## The loop over the backups -/

/-- The positions that are tried among these backups, which start at `peer`. -/
def tries (zt : ZeroTier) : Nat → List Endpoint → List Act
  | _, [] => []
  | peer, backup :: rest =>
    if zt.isValid backup.1 then .connect peer :: tries zt (peer + 1) rest
    else tries zt (peer + 1) rest

/-- The backup at position `k` of these, which start at `peer`, is valid and reached. -/
def Reached (zt : ZeroTier) (peer : Nat) (backups : List Endpoint) (k : Nat) (ip : IpAddress)
    (socket : Socket) : Prop :=
  (∃ port, backups[k]? = some (ip, port)) ∧ zt.isValid ip = true ∧
    zt.connect (peer + k) = some socket

/-- It is the first. -/
def FirstReached (zt : ZeroTier) (peer : Nat) (backups : List Endpoint) (k : Nat)
    (ip : IpAddress) (socket : Socket) : Prop :=
  Reached zt peer backups k ip socket ∧
    ∀ j < k, ∀ ip socket, ¬ Reached zt peer backups j ip socket

section Loop

variable {zt : ZeroTier} {peer : Nat} {backup : Endpoint} {rest : List Endpoint}

theorem reached_zero {ip : IpAddress} {socket : Socket} :
    Reached zt peer (backup :: rest) 0 ip socket ↔
      backup.1 = ip ∧ zt.isValid ip = true ∧ zt.connect peer = some socket := by
  refine and_congr_left fun _ => ⟨?_, ?_⟩
  · intro ⟨port, hport⟩
    rw [Option.some_inj.mp hport]
  · intro hip
    exact ⟨backup.2, congrArg some (Prod.ext hip rfl)⟩

theorem reached_succ {k : Nat} {ip : IpAddress} {socket : Socket} :
    Reached zt peer (backup :: rest) (k + 1) ip socket ↔
      Reached zt (peer + 1) rest k ip socket := by
  unfold Reached
  rw [List.getElem?_cons_succ, Nat.add_right_comm, Nat.add_assoc]

/-- Where the first is not reached, the search goes on behind it. -/
theorem FirstReached.cons {k : Nat} {ip : IpAddress} {socket : Socket}
    (hfirst : ∀ ip socket, ¬ Reached zt peer (backup :: rest) 0 ip socket)
    (h : FirstReached zt (peer + 1) rest k ip socket) :
    FirstReached zt peer (backup :: rest) (k + 1) ip socket := by
  refine ⟨reached_succ.mpr h.1, fun j hj ip socket hreached => ?_⟩
  cases j with
  | zero => exact hfirst ip socket hreached
  | succ j => exact h.2 j (Nat.lt_of_succ_lt_succ hj) ip socket (reached_succ.mp hreached)

/-- **The loop** takes the first backup that is reached, and tries none after it. -/
theorem tryBackups_run (zt : ZeroTier) (peer : Nat) (backups : List Endpoint) (s : State) :
    (∃ k ip socket, FirstReached zt peer backups k ip socket ∧
      tryBackups zt peer backups s = .ok () ⟨replaced (peer + k) socket ip s.base,
        s.acts ++ tries zt peer (backups.take (k + 1))⟩) ∨
    (∀ k ip socket, ¬ Reached zt peer backups k ip socket) ∧
      tryBackups zt peer backups s = .ok () ⟨s.base, s.acts ++ tries zt peer backups⟩ := by
  induction backups generalizing peer s with
  | nil =>
    refine Or.inr ⟨fun k ip socket h => ?_, ?_⟩
    · obtain ⟨⟨port, hport⟩, -⟩ := h
      cases hport
    · rw [tries, List.append_nil]
      rfl
  | cons backup rest ih =>
    -- What the rest comes to, where this one is passed over.
    have hskip (s' : State) (hfirst : ∀ ip socket, ¬ Reached zt peer (backup :: rest) 0 ip socket)
        (hrun : tryBackups zt peer (backup :: rest) s = tryBackups zt (peer + 1) rest s')
        (hbase : s'.base = s.base)
        (hacts : ∀ backups, s.acts ++ tries zt peer (backup :: backups) =
          s'.acts ++ tries zt (peer + 1) backups) :
        (∃ k ip socket, FirstReached zt peer (backup :: rest) k ip socket ∧
          tryBackups zt peer (backup :: rest) s = .ok () ⟨replaced (peer + k) socket ip s.base,
            s.acts ++ tries zt peer ((backup :: rest).take (k + 1))⟩) ∨
        (∀ k ip socket, ¬ Reached zt peer (backup :: rest) k ip socket) ∧
          tryBackups zt peer (backup :: rest) s =
            .ok () ⟨s.base, s.acts ++ tries zt peer (backup :: rest)⟩ := by
      rw [hrun, ← hbase]
      rcases ih (peer + 1) s' with ⟨k, ip, socket, hreached, hrest⟩ | ⟨hnone, hrest⟩
      · refine Or.inl ⟨k + 1, ip, socket, hreached.cons hfirst, ?_⟩
        rw [hrest, List.take_succ_cons, hacts, Nat.add_right_comm, Nat.add_assoc]
      · refine Or.inr ⟨fun k ip socket h => ?_, ?_⟩
        · cases k with
          | zero => exact hfirst ip socket h
          | succ k => exact hnone k ip socket (reached_succ.mp h)
        · rw [hrest, hacts]
    by_cases hvalid : zt.isValid backup.1 = true
    · have hacts (backups : List Endpoint) : s.acts ++ tries zt peer (backup :: backups) =
          (s.acts ++ [.connect peer]) ++ tries zt (peer + 1) backups := by
        rw [tries, if_pos hvalid, List.append_assoc]
        rfl
      cases hconnect : zt.connect peer with
      | some socket =>
        refine Or.inl ⟨0, backup.1, socket, ⟨reached_zero.mpr ⟨rfl, hvalid, hconnect⟩, nofun⟩, ?_⟩
        have htries : s.acts ++ tries zt peer ((backup :: rest).take 1) =
            s.acts ++ [.connect peer] := by
          rw [List.take_succ_cons, List.take_zero, hacts, tries, List.append_nil]
        rw [tryBackups, if_pos hvalid, bind_ok (act_ok _ s), htries, hconnect]
        rfl
      | none =>
        refine hskip ⟨s.base, s.acts ++ [.connect peer]⟩ (fun ip socket h => ?_) ?_ rfl hacts
        · have hreached := (reached_zero.mp h).2.2
          rw [hconnect] at hreached
          cases hreached
        · rw [tryBackups, if_pos hvalid, bind_ok (act_ok _ s), hconnect]
    · refine hskip s (fun ip socket h => ?_) ?_ rfl fun backups => ?_
      · obtain ⟨rfl, hip, -⟩ := reached_zero.mp h
        exact hvalid hip
      · rw [tryBackups, if_neg hvalid]
      · rw [tries, if_neg hvalid]

end Loop

/-! ## What becomes of the gateway -/

/-- What has become of a node whose peer `ip` is gone, with `rest` of its links left; and the
backups it has tried to connect to. -/
inductive Replaced (zt : ZeroTier) (ip : IpAddress) (rest : List Socket) (s t : Managers) :
    List Act → Prop
  /-- It was not the gateway. -/
  | other (hip : ip ≠ s.peerManager.gatewayIP) (hlinks : links t = rest)
      (hgateway : t.peerManager.gatewayIP = s.peerManager.gatewayIP)
      (hbackups : t.peerManager.backupPeers = s.peerManager.backupPeers) :
      Replaced zt ip rest s t []
  /-- A backup takes its place, the first that is reached. -/
  | backup (hip : ip = s.peerManager.gatewayIP) {k : Nat} {backupIP : IpAddress} {socket : Socket}
      (hfirst : FirstReached zt 0 s.peerManager.backupPeers k backupIP socket)
      (hlinks : links t = socket :: rest) (hgateway : t.peerManager.gatewayIP = backupIP)
      (hbackups : t.peerManager.backupPeers = s.peerManager.backupPeers.eraseIdx k) :
      Replaced zt ip rest s t (tries zt 0 (s.peerManager.backupPeers.take (k + 1)))
  /-- None is reached. -/
  | unreachable (hip : ip = s.peerManager.gatewayIP)
      (hnone : ∀ k ip socket, ¬ Reached zt 0 s.peerManager.backupPeers k ip socket)
      (hlinks : links t = rest) (hgateway : t.peerManager.gatewayIP = .ipv6Unspecified)
      (hbackups : t.peerManager.backupPeers = s.peerManager.backupPeers) :
      Replaced zt ip rest s t (tries zt 0 s.peerManager.backupPeers)

/-- The peers give the addresses of the nodes at the other ends, which are addresses of nodes; and
so will those that are connected to. -/
structure Linked (zt : ZeroTier) (s : Managers) : Prop where
  knows : ∀ peer ∈ s.peerManager.peers, Knows peer
  valid : ∀ socket ∈ links s, zt.isValid socket.remoteIP = true
  named : ∀ socket ∈ links s, socket.remoteIP ≠ .ipv6Unspecified
  connected : ∀ k socket, zt.connect k = some socket →
    socket.connected = true ∧ socket.remoteIP ≠ .ipv6Unspecified

/-- A backup can take the place of this peer. -/
def Replaceable (zt : ZeroTier) (ip : IpAddress) (s : Managers) : Prop :=
  ip = s.peerManager.gatewayIP ∧
    ∃ k backupIP socket, Reached zt 0 s.peerManager.backupPeers k backupIP socket

/-- When the peer at `index` goes, no connection that is lost as well comes to a place that has
never been asked for its address. Where a backup goes in front, all move up again, and only the last
place is a new one. -/
structure StayKnown (zt : ZeroTier) (ip : IpAddress) (s : Managers) (index : Nat) : Prop where
  replaced : Replaceable zt ip s →
    ∀ socket ∈ ((links s).eraseIdx index).getLast?, socket.connected = true
  removed : ¬ Replaceable zt ip s → ShiftsAsked (s.peerManager.peers.drop (index + 1))

theorem stayKnown_of {zt : ZeroTier} {ip : IpAddress} {s : Managers} {index : Nat}
    (h : Replaceable zt ip s) : StayKnown zt ip s index ↔
      ∀ socket ∈ ((links s).eraseIdx index).getLast?, socket.connected = true :=
  ⟨fun hknown => hknown.replaced h, fun hlast => ⟨fun _ => hlast, fun hnot => absurd h hnot⟩⟩

theorem stayKnown_of_not {zt : ZeroTier} {ip : IpAddress} {s : Managers} {index : Nat}
    (h : ¬ Replaceable zt ip s) :
    StayKnown zt ip s index ↔ ShiftsAsked (s.peerManager.peers.drop (index + 1)) :=
  ⟨fun hknown => hknown.removed h, fun hshifts => ⟨fun hyes => absurd hyes h, fun _ => hshifts⟩⟩

section Removing

variable {zt : ZeroTier} {ip : IpAddress} {s t u : Managers} {rest : List Socket} {tried : List Act}

/-- Only the links, the gateway and the backups matter. -/
theorem Replaced.congr (h : Replaced zt ip rest s t tried) (hlinks : links u = links t)
    (hgateway : u.peerManager.gatewayIP = t.peerManager.gatewayIP)
    (hbackups : u.peerManager.backupPeers = t.peerManager.backupPeers) :
    Replaced zt ip rest s u tried := by
  cases h with
  | other hip hlinks' hgateway' hbackups' =>
    exact .other hip (hlinks.trans hlinks') (hgateway.trans hgateway') (hbackups.trans hbackups')
  | backup hip hfirst hlinks' hgateway' hbackups' =>
    exact .backup hip hfirst (hlinks.trans hlinks') (hgateway.trans hgateway')
      (hbackups.trans hbackups')
  | unreachable hip hnone hlinks' hgateway' hbackups' =>
    exact .unreachable hip hnone (hlinks.trans hlinks') (hgateway.trans hgateway')
      (hbackups.trans hbackups')

theorem FirstLink.lt {links : List Socket} {index : Nat} (h : FirstLink ip links index) :
    index < links.length := by
  obtain ⟨socket, hsocket, -⟩ := Option.map_eq_some_iff.mp h.1
  exact (List.getElem?_eq_some_iff.mp hsocket).1

theorem FirstLink.unique {links : List Socket} {i j : Nat} (hi : FirstLink ip links i)
    (hj : FirstLink ip links j) : i = j := by
  rcases Nat.lt_trichotomy i j with hlt | heq | hlt
  · exact absurd hi.1 (hj.2 i hlt)
  · exact heq
  · exact absurd hj.1 (hi.2 j hlt)

/-- What is known of the node once the lost peer is removed. -/
structure Removed (zt : ZeroTier) (ip : IpAddress) (s t : Managers) (index : Nat)
    (tried : List Act) : Prop where
  replaced : Replaced zt ip ((links s).eraseIdx index) s t tried
  named : ∀ peer ∈ t.peerManager.peers, Named peer
  askable : (∀ peer ∈ t.peerManager.peers, Askable peer) ↔ StayKnown zt ip s index
  sent : t.sent = s.sent
  written : t.written = s.written

/-- **Under the lock**: the first peer with the address is removed, and the gateway replaced if
that was it. -/
theorem removeLost_run (h : Linked zt s) (ip : IpAddress) (acts : List Act) :
    ((∀ socket ∈ links s, socket.remoteIP ≠ ip) ∧ ∃ peers, sockets peers = links s ∧
      removeLost zt ip ⟨s, acts⟩ =
        .ok none ⟨{ s with peerManager := { s.peerManager with peers } }, acts⟩) ∨
    ∃ index t tried, FirstLink ip (links s) index ∧ Removed zt ip s t index tried ∧
      removeLost zt ip ⟨s, acts⟩ = .ok (some ip) ⟨t, acts ++ tried⟩ := by
  rcases findPeer_asked h.knows ip with
    ⟨hmissing, peers, hpeers, hfind⟩ | ⟨index, peers, hfirst, hasked, hfind⟩
  · left
    have hrun : onPeerManager (onPeers (findPeer ip)) s =
        .ok none { s with peerManager := { s.peerManager with peers } } := by
      rw [onPeerManager_onPeers, hfind]
    refine ⟨hmissing, peers, hpeers, ?_⟩
    rw [removeLost, bind_ok (lift_ok (s := ⟨s, acts⟩) hrun)]
    rfl
  · right
    have hrun : onPeerManager (onPeers (findPeer ip)) s =
        .ok (some index) { s with peerManager := { s.peerManager with peers } } := by
      rw [onPeerManager_onPeers, hfind]
    have hask : onPeerManager (onPeers (askAt PeerEntry.getRemoteIP index))
        { s with peerManager := { s.peerManager with peers } } =
          .ok (some ip) { s with peerManager := { s.peerManager with peers } } := by
      have hagain : askAt PeerEntry.getRemoteIP index peers = .ok (some ip) peers :=
        askAt_found (show findAmong ip (List.range s.peerManager.peers.length)
          s.peerManager.peers = _ from hfind)
      rw [onPeerManager_onPeers, hagain]
    have hindex : index < s.peerManager.peers.length := by
      simpa [links, sockets] using hfirst.lt
    have hnamed : ∀ peer ∈ eraseAt index peers, Named peer := by
      refine named_eraseAt index fun peer hpeer => (hasked.knows peer hpeer).named ?_
      refine h.named _ ?_
      rw [links, ← hasked.links]
      exact List.mem_map_of_mem hpeer
    have hlinks : sockets (eraseAt index peers) = (links s).eraseIdx index := by
      rw [sockets_eraseAt, hasked.links]
      rfl
    let removed : Managers :=
      { s with peerManager := { s.peerManager with peers := eraseAt index peers } }
    have hgo : removeLost zt ip ⟨s, acts⟩ =
        (if some ip = some s.peerManager.gatewayIP then
          replaceGateway zt >>= fun _ => pure (some ip)
        else pure (some ip) : FailoverM (Option IpAddress)) ⟨removed, acts⟩ := by
      rw [removeLost, bind_ok (lift_ok (s := ⟨s, acts⟩) hrun)]
      refine (bind_ok (lift_ok (s := ⟨_, acts⟩) hask)).trans ?_
      rfl
    rw [hgo]
    by_cases hgateway : ip = s.peerManager.gatewayIP
    · rw [if_pos (congrArg some hgateway)]
      let orphan : Managers :=
        { removed with peerManager := { removed.peerManager with gatewayIP := .ipv6Unspecified } }
      have hstart : replaceGateway zt ⟨removed, acts⟩ =
          tryBackups zt 0 s.peerManager.backupPeers ⟨orphan, acts⟩ := rfl
      rcases tryBackups_run zt 0 s.peerManager.backupPeers ⟨orphan, acts⟩ with
        ⟨k, backupIP, socket, hreached, hloop⟩ | ⟨hnone, hloop⟩
      · rw [Nat.zero_add] at hloop
        obtain ⟨hconnected, hsocket⟩ := h.connected _ socket hreached.1.2.2
        have hreplaceable : Replaceable zt ip s := ⟨hgateway, k, backupIP, socket, hreached.1⟩
        have hnew : Named { socket } := ⟨hsocket, fun ip hip => absurd hip (Option.not_mem_none ip)⟩
        refine ⟨index, replaced k socket backupIP orphan, _, hfirst,
          ⟨.backup hgateway hreached ?_ rfl rfl, named_insertFront hnew hnamed, ?_, rfl, rfl⟩, ?_⟩
        · show sockets (insertFront { socket } (eraseAt index peers)) = _
          rw [sockets_insertFront, hlinks]
        · rw [stayKnown_of hreplaceable]
          exact askable_insertFront hasked hindex hconnected
        · rw [bind_ok (hstart.trans hloop)]
          rfl
      · have hnot : ¬ Replaceable zt ip s := by
          rintro ⟨-, k, backupIP, socket, hreached⟩
          exact hnone k backupIP socket hreached
        refine ⟨index, orphan, _, hfirst, ⟨.unreachable hgateway hnone hlinks rfl rfl, hnamed, ?_,
          rfl, rfl⟩, ?_⟩
        · rw [stayKnown_of_not hnot]
          exact askable_eraseAt hasked hindex
        · rw [bind_ok (hstart.trans hloop)]
          rfl
    · rw [if_neg (mt Option.some_inj.mp hgateway)]
      refine ⟨index, removed, [], hfirst, ⟨.other hgateway hlinks rfl rfl, hnamed, ?_, rfl, rfl⟩,
        ?_⟩
      · rw [stayKnown_of_not fun hreplaceable => hgateway hreplaceable.1]
        exact askable_eraseAt hasked hindex
      · rw [List.append_nil]
        rfl

end Removing

/-! ## Without the account -/

section Erasing

variable {zt : ZeroTier}

theorem attempts_some {backups : List Endpoint} {k : Nat} {socket : Socket} :
    zt.attempts backups k = some socket ↔ ∃ ip, Reached zt 0 backups k ip socket := by
  unfold ZeroTier.attempts Reached
  rw [Nat.zero_add]
  constructor
  · intro h
    obtain ⟨⟨ip, port⟩, hbackup, hreached⟩ := Option.bind_eq_some_iff.mp h
    obtain ⟨hvalid, hconnect⟩ := Option.ite_none_right_eq_some.mp hreached
    exact ⟨ip, ⟨port, hbackup⟩, hvalid, hconnect⟩
  · intro ⟨ip, ⟨port, hbackup⟩, hvalid, hconnect⟩
    rw [hbackup, Option.bind_some, if_pos hvalid, hconnect]

/-- The first backup that is reached, found in one pass over the list. -/
theorem firstReachable_first {attempts : Nat → Option Socket} {backups : List Endpoint} {k : Nat}
    {backup : Endpoint} {socket : Socket} (hbackup : backups[k]? = some backup)
    (hreached : attempts k = some socket) (hbefore : ∀ j < k, attempts j = none) :
    firstReachable attempts backups = some (socket, backup.1, backups.eraseIdx k) := by
  induction backups generalizing attempts k with
  | nil => cases hbackup
  | cons first rest ih =>
    cases k with
    | zero =>
      obtain rfl := Option.some_inj.mp hbackup
      rw [firstReachable, hreached]
      rfl
    | succ k =>
      have hrest : firstReachable (fun peer => attempts (peer + 1)) rest =
          some (socket, backup.1, rest.eraseIdx k) :=
        ih hbackup hreached fun j hj => hbefore (j + 1) (Nat.succ_lt_succ hj)
      rw [firstReachable, hbefore 0 k.succ_pos, hrest]
      rfl

theorem firstReachable_none {attempts : Nat → Option Socket} {backups : List Endpoint}
    (h : ∀ k, attempts k = none) : firstReachable attempts backups = none := by
  induction backups generalizing attempts with
  | nil => rfl
  | cons first rest ih =>
    have hrest : firstReachable (fun peer => attempts (peer + 1)) rest = none :=
      ih fun k => h (k + 1)
    rw [firstReachable, h 0, hrest]
    rfl

theorem replaceGateway_some {attempts : Nat → Option Socket} {pm : PeerManager} {socket : Socket}
    {ip : IpAddress} {left : List Endpoint}
    (h : firstReachable attempts pm.backupPeers = some (socket, ip, left)) :
    PeerManager.replaceGateway attempts pm =
      .ok () ⟨insertFront { socket } pm.peers, ip, left⟩ := by
  show EStateM.Result.ok () _ = _
  dsimp only
  rw [h]

theorem replaceGateway_none {attempts : Nat → Option Socket} {pm : PeerManager}
    (h : firstReachable attempts pm.backupPeers = none) :
    PeerManager.replaceGateway attempts pm =
      .ok () { pm with gatewayIP := .ipv6Unspecified } := by
  show EStateM.Result.ok () _ = _
  dsimp only
  rw [h]

/-- The backup that takes the place of the gateway is the same. -/
theorem replaceGateway_base (zt : ZeroTier) (s : State) : ∃ pm acts,
    PeerManager.replaceGateway (zt.attempts s.base.peerManager.backupPeers) s.base.peerManager =
      .ok () pm ∧ replaceGateway zt s = .ok () ⟨{ s.base with peerManager := pm }, acts⟩ := by
  let backups := s.base.peerManager.backupPeers
  let orphan : State := ⟨{ s.base with
    peerManager := { s.base.peerManager with gatewayIP := .ipv6Unspecified } }, s.acts⟩
  have hnone (j : Nat) (h : ∀ ip socket, ¬ Reached zt 0 backups j ip socket) :
      zt.attempts backups j = none := by
    refine Option.eq_none_iff_forall_ne_some.mpr fun socket hsocket => ?_
    obtain ⟨ip, hreached⟩ := attempts_some.mp hsocket
    exact h ip socket hreached
  have hstart : replaceGateway zt s = tryBackups zt 0 backups orphan := rfl
  rw [hstart]
  rcases tryBackups_run zt 0 backups orphan with ⟨k, ip, socket, hfirst, hrun⟩ | ⟨hmissed, hrun⟩
  · obtain ⟨port, hbackup⟩ := hfirst.1.1
    have hreached := firstReachable_first hbackup (attempts_some.mpr ⟨ip, hfirst.1⟩)
      fun j hj => hnone j (hfirst.2 j hj)
    rw [Nat.zero_add] at hrun
    exact ⟨_, _, replaceGateway_some hreached, hrun⟩
  · have hreached : firstReachable (zt.attempts backups) backups = none :=
      firstReachable_none fun k => hnone k (hmissed k)
    exact ⟨_, _, replaceGateway_none hreached, hrun⟩

/-- What is left of a result. -/
def erase {α : Type} : EStateM.Result Exn State α → EStateM.Result Exn Managers α
  | .ok a s => .ok a s.base
  | .error e s => .error e s.base

variable {α β : Type}

theorem erase_lift (x : ManagersM α) (s : State) : erase (lift x s) = x s.base := by
  unfold lift
  cases x s.base <;> rfl

theorem erase_bind {x : FailoverM α} {y : ManagersM α} {f : α → FailoverM β} {g : α → ManagersM β}
    {s : State} (hx : erase (x s) = y s.base)
    (hf : ∀ a t, x s = .ok a t → erase (f a t) = g a t.base) :
    erase ((x >>= f) s) = (y >>= g) s.base := by
  cases h : x s with
  | ok a t =>
    rw [h] at hx
    rw [bind_ok h, bind_ok hx.symm]
    exact hf a t h
  | error e t =>
    rw [h] at hx
    rw [bind_error h, bind_error hx.symm]
    rfl

theorem onPeerManager_bind (x : PeerM α) (f : α → PeerM β) :
    onPeerManager (x >>= f) = onPeerManager x >>= fun a => onPeerManager (f a) := by
  funext s
  cases h : x s.peerManager with
  | ok a pm =>
    have hrun : onPeerManager x s = .ok a { s with peerManager := pm } := by rw [onPeerManager, h]
    rw [bind_ok hrun, onPeerManager, bind_ok h]
    rfl
  | error e pm =>
    have hrun : onPeerManager x s = .error .zt { s with peerManager := pm } := by
      rw [onPeerManager, h]
    rw [bind_error hrun, onPeerManager, bind_error h]

theorem lift_onPeers_ok {x : EStateM ZTError (List PeerEntry) α} {s t : State} {a : α}
    (h : lift (onPeerManager (onPeers x)) s = .ok a t) :
    ∃ peers, x s.base.peerManager.peers = .ok a peers ∧
      t = ⟨{ s.base with peerManager := { s.base.peerManager with peers } }, s.acts⟩ := by
  unfold lift at h
  rw [onPeerManager_onPeers] at h
  cases hx : x s.base.peerManager.peers with
  | ok b peers =>
    rw [hx] at h
    obtain ⟨rfl, rfl⟩ := EStateM.Result.ok.inj h
    exact ⟨peers, rfl, rfl⟩
  | error e peers =>
    rw [hx] at h
    cases h

/-- Asking the peers leaves the backups alone. -/
theorem lift_onPeers_backups {x : EStateM ZTError (List PeerEntry) α} {s t : State} {a : α}
    (h : lift (onPeerManager (onPeers x)) s = .ok a t) :
    t.base.peerManager.backupPeers = s.base.peerManager.backupPeers := by
  obtain ⟨peers, -, rfl⟩ := lift_onPeers_ok h
  rfl

/-- The peer that is found gives its address again. -/
theorem removeLost_some {ip removedIP : IpAddress} {s t : State}
    (h : removeLost zt ip s = .ok (some removedIP) t) : removedIP = ip := by
  obtain ⟨found, u, hfound, hrest⟩ := bind_eq_ok h
  cases found with
  | none =>
    cases hrest
  | some index =>
    obtain ⟨asked, v, hasked, hrest⟩ := bind_eq_ok hrest
    obtain ⟨peers, hfind, rfl⟩ := lift_onPeers_ok hfound
    obtain ⟨peers', hask, rfl⟩ := lift_onPeers_ok hasked
    have hagain : askAt PeerEntry.getRemoteIP index peers = .ok (some ip) peers :=
      askAt_found (show findAmong ip (List.range s.base.peerManager.peers.length)
        s.base.peerManager.peers = _ from hfind)
    obtain ⟨rfl, -⟩ := EStateM.Result.ok.inj (hask.symm.trans hagain)
    obtain ⟨-, w, -, hrest⟩ := bind_eq_ok hrest
    obtain ⟨s', w', -, hrest⟩ := bind_eq_ok hrest
    dsimp only at hrest
    split at hrest
    · obtain ⟨-, w'', -, hrest⟩ := bind_eq_ok hrest
      obtain ⟨hip, -⟩ := EStateM.Result.ok.inj hrest
      exact (Option.some_inj.mp hip).symm
    · obtain ⟨hip, -⟩ := EStateM.Result.ok.inj hrest
      exact (Option.some_inj.mp hip).symm

/-- **Under the lock** the peers become what they become without an account. -/
theorem erase_removeLost (ip : IpAddress) (s : State) : erase (removeLost zt ip s) =
    onPeerManager (linkLost ip (zt.attempts s.base.peerManager.backupPeers)) s.base := by
  rw [removeLost, linkLost, onPeerManager_bind]
  refine erase_bind (erase_lift _ s) fun found t hfound => ?_
  cases found with
  | none => rfl
  | some index =>
    dsimp only
    rw [onPeerManager_bind, ← lift_onPeers_backups hfound]
    refine erase_bind (erase_lift _ t) fun removedIP u hasked => ?_
    rw [← lift_onPeers_backups hasked]
    let removed : State := ⟨{ u.base with
      peerManager := { u.base.peerManager with peers := eraseAt index u.base.peerManager.peers } },
      u.acts⟩
    show erase ((if removedIP = some u.base.peerManager.gatewayIP then
        replaceGateway zt >>= fun _ => pure removedIP else pure removedIP : FailoverM _) removed) =
      onPeerManager (if removedIP = some u.base.peerManager.gatewayIP then
        PeerManager.replaceGateway (zt.attempts u.base.peerManager.backupPeers) >>=
          fun _ => pure removedIP
        else pure removedIP) removed.base
    obtain ⟨pm, acts, hpm, hreplaced⟩ := replaceGateway_base zt removed
    split
    · have hmanagers : onPeerManager
          (PeerManager.replaceGateway (zt.attempts u.base.peerManager.backupPeers)) removed.base =
            .ok () { removed.base with peerManager := pm } := by rw [onPeerManager, hpm]
      rw [bind_ok hreplaced, onPeerManager_bind, bind_ok hmanagers]
      rfl
    · rfl

/-- **The handler** without its account. -/
theorem erase_processLinkLostMessage (env : Circumstances) (m : Message) (s : State)
    (hvalid : zt.isValid m.originatorNode = true) :
    erase (processLinkLostMessage env zt m s) = Managers.processLinkLostMessage
      { env with attempts := zt.attempts s.base.peerManager.backupPeers } m s.base := by
  show erase ((act .lock >>= fun _ => removeLost zt m.originatorNode >>= fun removedIP =>
    act .unlock >>= fun _ => _) s) = _
  rw [bind_ok (act_ok .lock s)]
  refine erase_bind (erase_removeLost m.originatorNode _) fun removedIP t hremoved => ?_
  rw [bind_ok (act_ok .unlock t)]
  cases removedIP with
  | none => rfl
  | some removedIP =>
    obtain rfl := removeLost_some hremoved
    rw [Option.filter_some_pos hvalid]
    refine (congrArg erase (bind_ok (act_ok _ _))).trans ?_
    exact erase_bind (erase_lift _ _) fun _ _ _ => rfl

end Erasing

/-! ## The whole handler -/

/-- Everyone that is still linked is told that `ip` is gone. -/
structure Announced (env : Circumstances) (ip : IpAddress) (s t : Managers) : Prop where
  type : (announcement env ip).base.type = .disconnect
  originatorNode : (announcement env ip).base.originatorNode = ip
  sent : t.sent = s.sent ++ [announcement env ip]
  written : t.written = s.written ++ (links t).map fun socket =>
    (socket, (announcement env ip).save env.host.platform)

/-- What the message does, and what is done in which order. -/
inductive Outcome (env : Circumstances) (zt : ZeroTier) (ip : IpAddress) (s t : Managers) :
    List Act → Prop
  /-- No peer has the address. The peers may have been asked for theirs. -/
  | missing {peers : List PeerEntry} (hip : ∀ socket ∈ links s, socket.remoteIP ≠ ip)
      (hpeers : sockets peers = links s)
      (ht : t = { s with peerManager := { s.peerManager with peers } }) :
      Outcome env zt ip s t [.lock, .unlock]
  /-- The first that has is removed. -/
  | removed {index : Nat} {tried : List Act} (hfirst : FirstLink ip (links s) index)
      (hreplaced : Replaced zt ip ((links s).eraseIdx index) s t tried)
      (hannounced : Announced env ip s t) :
      Outcome env zt ip s t (.lock :: (tried ++
        [.unlock, .send (.message (disconnectOf ip)) .ipv6Unspecified]))

section Outcome

variable {env : Circumstances} {zt : ZeroTier} {s : Managers} {m : Message}

/-- What is said under the lock leads to the rest. -/
theorem processLinkLostMessage_missing {t : State}
    (h : removeLost zt m.originatorNode ⟨s, [.lock]⟩ = .ok none t) :
    processLinkLostMessage env zt m ⟨s, []⟩ = .ok true ⟨t.base, t.acts ++ [.unlock]⟩ := by
  rw [processLinkLostMessage, bind_ok (act_ok .lock _)]
  exact bind_ok h

theorem processLinkLostMessage_removed {t : State} {removedIP : IpAddress}
    (h : removeLost zt m.originatorNode ⟨s, [.lock]⟩ = .ok (some removedIP) t)
    (hvalid : zt.isValid removedIP = true) :
    processLinkLostMessage env zt m ⟨s, []⟩ =
      (lift (Managers.send env (.message (disconnectOf removedIP)) .ipv6Unspecified) >>= fun _ =>
        pure true : FailoverM Bool) ⟨t.base,
          t.acts ++ [.unlock, .send (.message (disconnectOf removedIP)) .ipv6Unspecified]⟩ := by
  rw [processLinkLostMessage, bind_ok (act_ok .lock _)]
  refine (bind_ok h).trans ?_
  rw [bind_ok (act_ok .unlock _), Option.filter_some_pos hvalid]
  refine (bind_ok (act_ok _ _)).trans ?_
  rw [List.append_assoc]
  rfl

theorem Linked.originator (h : Linked zt s) {ip : IpAddress} {index : Nat}
    (hfirst : FirstLink ip (links s) index) :
    zt.isValid ip = true ∧ ip ≠ .ipv6Unspecified := by
  obtain ⟨socket, hsocket, rfl⟩ := Option.map_eq_some_iff.mp hfirst.1
  have hmem := List.mem_of_getElem? hsocket
  exact ⟨h.valid socket hmem, h.named socket hmem⟩

theorem link_lost_outcome (h : Linked zt s)
    (hknown : ∀ index, FirstLink m.originatorNode (links s) index →
      StayKnown zt m.originatorNode s index) :
    ∃ t acts, processLinkLostMessage env zt m ⟨s, []⟩ = .ok true ⟨t, acts⟩ ∧
      Outcome env zt m.originatorNode s t acts := by
  rcases removeLost_run h m.originatorNode [.lock] with
    ⟨hmissing, peers, hpeers, hrun⟩ | ⟨index, t, tried, hfirst, hremoved, hrun⟩
  · exact ⟨_, _, processLinkLostMessage_missing hrun, .missing hmissing hpeers rfl⟩
  · obtain ⟨hvalid, hspecified⟩ := h.originator hfirst
    obtain ⟨u, hsend, hlinks, hgateway, hbackups, hsent, hwritten⟩ :=
      send_disconnect env m.originatorNode
        ⟨hremoved.named, hremoved.askable.mpr (hknown index hfirst)⟩
    refine ⟨u, .lock :: (tried ++ [.unlock, _]), ?_, .removed hfirst
      (hremoved.replaced.congr hlinks hgateway hbackups)
      ⟨stamp_type _ _ _ _ _, if_neg hspecified, ?_, ?_⟩⟩
    · rw [processLinkLostMessage_removed hrun hvalid, bind_ok (lift_ok hsend)]
      rfl
    · rw [hsent, hremoved.sent]
    · rw [hwritten, hremoved.written, hlinks]

/-- The disconnect is not sent while a peer that stays cannot be asked: the handler throws. -/
theorem link_lost_throws (env : Circumstances) (h : Linked zt s) {index : Nat}
    (hfirst : FirstLink m.originatorNode (links s) index)
    (hknown : ¬ StayKnown zt m.originatorNode s index) :
    ∃ e t, processLinkLostMessage env zt m ⟨s, []⟩ = .error e t := by
  rcases removeLost_run h m.originatorNode [.lock] with
    ⟨hmissing, -⟩ | ⟨index', t, tried, hfirst', hremoved, hrun⟩
  · obtain ⟨socket, hsocket, hip⟩ := Option.map_eq_some_iff.mp hfirst.1
    exact absurd hip (hmissing socket (List.mem_of_getElem? hsocket))
  · obtain rfl := hfirst'.unique hfirst
    obtain ⟨e, u, hsend⟩ := send_stuck env (.message (disconnectOf m.originatorNode))
      (mt hremoved.askable.mp hknown)
    rw [processLinkLostMessage_removed hrun (h.originator hfirst).1]
    exact ⟨_, _, bind_error (lift_error hsend)⟩

/-- **Failover.** In every state in which the peers give the addresses of the nodes at their other
ends, and whatever comes of the attempts to connect, a link-lost message has the outcome it is meant
to have if and only if no connection that is lost as well comes to a place that has never been
asked: then a peer that stays cannot be asked for its address, and nothing is broadcast. -/
theorem failover_iff (env : Circumstances) (zt : ZeroTier) (s : Managers) (h : Linked zt s)
    (m : Message) :
    (∃ t acts, processLinkLostMessage env zt m ⟨s, []⟩ = .ok true ⟨t, acts⟩ ∧
      Outcome env zt m.originatorNode s t acts) ↔
    ∀ index, FirstLink m.originatorNode (links s) index →
      StayKnown zt m.originatorNode s index := by
  constructor
  · intro ⟨t, acts, hrun, _⟩ index hfirst
    by_contra hknown
    obtain ⟨e, u, hthrown⟩ := link_lost_throws env h hfirst hknown
    rw [hrun] at hthrown
    cases hthrown
  · exact link_lost_outcome h

end Outcome

/-! ## Two peers -/

/-- The addresses of nodes are valid, and the backup at position 2 is reached. -/
def thirdReached : ZeroTier where
  isValid ip := ip != .ipv6Unspecified
  connect k := if k = 2 then some { remoteIP := .ipv4 0x0a000005, remotePort := 9000 } else none

/-- The link to the gateway is lost. Both peers have been asked for their addresses. -/
def gatewayLost (second : Socket) : Managers := { joinedDocs with
  peerManager := {
    peers := [⟨{ PeerManager.first with connected := false }, some PeerManager.first.remoteIP,
      0xffff⟩, ⟨second, some second.remoteIP, 0xffff⟩]
    gatewayIP := PeerManager.first.remoteIP
    backupPeers := [(.ipv6Unspecified, 9000), (.ipv4 0x0a000004, 9000),
      (.ipv4 0x0a000005, 9000)] } }

/-- The message about the gateway. -/
def firstLost : Message where
  type := .linkLost
  receiverNode := .ipv6Unspecified
  originatorNode := PeerManager.first.remoteIP
  messageHash := 0

theorem linked_gatewayLost (second : Socket) (h : second.remoteIP ≠ .ipv6Unspecified) :
    Linked thirdReached (gatewayLost second) := by
  have hfirst : PeerManager.first.remoteIP ≠ .ipv6Unspecified := by decide
  refine ⟨fun peer hpeer => ?_, fun socket hsocket => ?_, fun socket hsocket => ?_,
    fun k socket hconnect => ?_⟩
  · rcases List.mem_pair.mp hpeer with rfl | rfl
    · exact ⟨_, rfl⟩
    · exact ⟨_, rfl⟩
  · rcases List.mem_pair.mp hsocket with rfl | rfl
    · exact bne_iff_ne.mpr hfirst
    · exact bne_iff_ne.mpr h
  · rcases List.mem_pair.mp hsocket with rfl | rfl
    · exact hfirst
    · exact h
  · obtain ⟨-, hsocket⟩ := Option.ite_none_right_eq_some.mp hconnect
    rw [← Option.some_inj.mp hsocket]
    exact ⟨rfl, by decide⟩

theorem firstLink_gatewayLost (second : Socket) :
    FirstLink firstLost.originatorNode (links (gatewayLost second)) 0 := ⟨rfl, nofun⟩

theorem replaceable_gatewayLost (second : Socket) :
    Replaceable thirdReached firstLost.originatorNode (gatewayLost second) :=
  ⟨rfl, 2, .ipv4 0x0a000005, _, ⟨9000, rfl⟩, rfl, rfl⟩

/-- Both links are lost at once: the second connection comes to a new place. -/
theorem both_lost : ¬ ∀ (env : Circumstances) (zt : ZeroTier) (s : Managers), Linked zt s →
    ∀ m : Message, ∃ t acts, processLinkLostMessage env zt m ⟨s, []⟩ = .ok true ⟨t, acts⟩ ∧
      Outcome env zt m.originatorNode s t acts := by
  intro h
  let lost : Socket := { PeerManager.second with connected := false }
  have hlinked := linked_gatewayLost lost (by decide)
  obtain ⟨t, acts, hrun, -⟩ := h readerCircumstances _ _ hlinked firstLost
  obtain ⟨e, u, hthrown⟩ := link_lost_throws readerCircumstances hlinked
    (firstLink_gatewayLost lost) fun hknown => by
      have hlast := hknown.replaced (replaceable_gatewayLost lost) lost rfl
      cases hlast
  rw [hrun] at hthrown
  cases hthrown

theorem stayKnown_gatewayLost {second : Socket} (h : second.connected = true) {index : Nat}
    (hfirst : FirstLink firstLost.originatorNode (links (gatewayLost second)) index) :
    StayKnown thirdReached firstLost.originatorNode (gatewayLost second) index := by
  obtain rfl := hfirst.unique (firstLink_gatewayLost second)
  rw [stayKnown_of (replaceable_gatewayLost second)]
  intro socket hsocket
  obtain rfl := Option.mem_some.mp hsocket
  exact h

/-- Where only the link to the gateway is lost, a backup takes its place. -/
theorem gateway_replaced : ∃ t acts, processLinkLostMessage readerCircumstances thirdReached
    firstLost ⟨gatewayLost PeerManager.second, []⟩ = .ok true ⟨t, acts⟩ ∧
      Outcome readerCircumstances thirdReached firstLost.originatorNode
        (gatewayLost PeerManager.second) t acts :=
  (failover_iff readerCircumstances _ _ (linked_gatewayLost _ (by decide)) firstLost).mpr
    fun _ hfirst => stayKnown_gatewayLost rfl hfirst

end Failover

end WhisperNet
