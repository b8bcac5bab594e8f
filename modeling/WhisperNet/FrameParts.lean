import WhisperNet.Lib.Layout
import WhisperNet.Decoding

/-!
# The parts of a frame

Every byte of a frame is part of something: of the type, of an address, of a number, of a character
that is hashed, or of a size. When it is changed, the field it is in is still that of some value, if
the bytes behind it are read as before; `Retold` says so, along the writer of each class.

* `AnyMessage.parts` — what the bytes of a frame are part of.
* `Part.Overlooks` — the changes that leave the sum as it is.
* `alters_message`, `alters_list` — a changed header, and a changed entry of a vector.
-/

namespace WhisperNet

open Bin

/-! ## The parts of a frame -/

/-- The address with another byte in place of its byte `k`, in network order. -/
def IpAddress.setOctet (k : Nat) (b : UInt8) : IpAddress → IpAddress
  | ipv4 addr => ipv4 (.ofNat (alteredNat .big 4 addr.toNat k b))
  | ipv6 hi lo =>
    if k < 8 then ipv6 (.ofNat (alteredNat .big 8 hi.toNat k b)) lo
    else ipv6 hi (.ofNat (alteredNat .big 8 lo.toNat (k - 8) b))

/-- What a byte of a frame is part of. -/
inductive Part
  /-- A size in a connect, but for that of the managed paths: it tells how to read the rest. -/
  | layout
  /-- The type. -/
  | type
  /-- The family of an address. -/
  | family (ip : IpAddress)
  /-- The hash. -/
  | hash
  /-- A character of a payload. -/
  | text
  /-- Byte `k` of an address. -/
  | octet (ip : IpAddress) (k : Nat)
  /-- Byte `k` of a number of this width. -/
  | number (width n k : Nat)
  /-- Byte `k` of the size of a payload. -/
  | size (s : Bytes) (k : Nat)
  /-- Byte `k` of the number of the managed paths. -/
  | count (paths : List FsPath) (k : Nat)
  /-- Character `k` of an element of a path, between the elements before and after it. -/
  | character (before : List Bytes) (element : Bytes) (after : List Bytes) (k : Nat)

def IpAddress.parts (ip : IpAddress) : List Part :=
  .family ip :: match ip with
    | ipv4 _ => (List.range 4).map (.octet ip)
    | ipv6 _ _ => (List.range 8).map (.octet ip) ++ (List.range 8).map fun k => .octet ip (8 + k)

def Message.parts (m : Message) : List Part :=
  .type :: (m.receiverNode.parts ++ (m.originatorNode.parts ++ (List.range 8).map fun _ => .hash))

/-- The parts of an entry of `backupPeers`. -/
def peerParts (peer : IpAddress × UInt16) : List Part :=
  peer.1.parts ++ (List.range 2).map (.number 2 peer.2.toNat)

/-- The parts of the elements of a path that follow those `before`. -/
def elementParts (before : List Bytes) : List Bytes → List Part
  | [] => []
  | element :: after =>
    (List.replicate 8 .layout ++
        (List.range element.length).map (.character before element after)) ++
      elementParts (before ++ [element]) after

/-- The parts of an entry of `managedPaths`. -/
def pathParts (p : FsPath) : List Part :=
  List.replicate 8 .layout ++ elementParts [] p.lexicallyNormal.elements

/-- The parts of a frame, byte by byte. What is not listed is layout: the whole of a connect whose
paths are not in normal form, as its text is another one when it is read. -/
def AnyMessage.parts : AnyMessage → List Part
  | message m => m.parts
  | payload m => m.parts ++ ((List.range 8).map (.size m.payload) ++ m.payload.map fun _ => .text)
  | resendRequest m =>
    m.parts ++ ((List.range 8).map (.number 8 m.requestedHash.toNat) ++ m.originalDestination.parts)
  | connect m =>
    if ∀ p ∈ m.managedPaths, p.lexicallyNormal = p then
      m.parts ++ ((List.replicate 8 .layout ++ m.backupPeers.flatMap peerParts) ++
        ((List.range 8).map (.count m.managedPaths) ++ m.managedPaths.flatMap pathParts))
    else []
  | _ => []

def AnyMessage.part (m : AnyMessage) (i : Nat) : Part := (m.parts[i]?).getD .layout

/-- With this family it is read at another length. -/
def IpAddress.Resized (pf : Platform) (b : UInt8) : IpAddress → Prop
  | ipv4 _ => True
  | ipv6 _ _ => b = pf.ipv4Family

/-- A byte of this part of a frame may be changed to `b` without changing the sum: `mistaken` is
what that takes where the rest is read in another way. -/
def Part.Overlooks (pf : Platform) (b : UInt8) (mistaken : Prop) : Part → Prop
  | layout => mistaken
  | type => .ofByte b ∈ MessageType.onWire ∧ mistaken
  | family ip => ip.Resized pf b ∧ mistaken
  | hash | text => False
  | octet ip k => WhisperNet.hash (pf.ipToString (ip.setOctet k b)) =
      WhisperNet.hash (pf.ipToString ip)
  | number width n k => WhisperNet.hash (toDecimal (alteredNat pf.endian width n k b)) =
      WhisperNet.hash (toDecimal n)
  | size s k => alteredNat pf.endian 8 s.length k b < s.length ∧
      WhisperNet.hash (s.drop (alteredNat pf.endian 8 s.length k b)) = 0
  | count paths k => alteredNat pf.endian 8 paths.length k b < paths.length ∧
      WhisperNet.hash ((paths.drop (alteredNat pf.endian 8 paths.length k b)).flatMap
        FsPath.native) = 0
  | character before element after k =>
    FsPath.ofElements (before ++ element.set k b :: after) ≠
        .ofElements (before ++ element :: after) ∧
      WhisperNet.hash (FsPath.ofElements (before ++ element.set k b :: after)).native =
        WhisperNet.hash (FsPath.ofElements (before ++ element :: after)).native

/-! ## What becomes of a field -/

/-- What becomes of the bytes of `x`, in a format: those of another value, which is overlooked if it
weighs the same; or bytes of which the part says nothing more. -/
inductive Retold (pf : Platform) (b : UInt8) {α : Type} (F : Format α) (weight : α → UInt64) (x : α)
    (part : Part) : Bytes → Prop
  | anyhow {bs : Bytes} (h : ∀ mistaken, part.Overlooks pf b mistaken ↔ mistaken) :
      Retold pf b F weight x part bs
  | value {x' : α} {bs : Bytes} (hwritten : F x' bs)
      (h : ∀ mistaken, part.Overlooks pf b mistaken ↔ x' ≠ x ∧ weight x' = weight x) :
      Retold pf b F weight x part bs

section Fields

variable {pf : Platform} {b : UInt8} {α β : Type} {F : Format α} {G : Format β} {part : Part}
  {bs : Bytes}

/-- A field of something else. -/
theorem Retold.map {w : α → UInt64} {v : β → UInt64} {x : α} {y : β} (f : α → β)
    (wrap : Bytes → Bytes) (hf : ∀ x' bs, F x' bs → G (f x') (wrap bs) ∧ (f x' = y ↔ x' = x) ∧
      (v (f x') = v y ↔ w x' = w x))
    (h : Retold pf b F w x part bs) : Retold pf b G v y part (wrap bs) := by
  cases h with
  | anyhow h => exact .anyhow h
  | @value x' _ hwritten h =>
    obtain ⟨hwritten', hsame, hweight⟩ := hf x' bs hwritten
    refine .value hwritten' fun mistaken => ?_
    rw [h, hweight, Ne, Ne, hsame]

theorem IpAddress.length_parts (pf : Platform) (ip : IpAddress) :
    ip.parts.length = (ip.save pf).length := by
  cases ip <;> rfl

theorem Message.length_parts (pf : Platform) (m : Message) :
    m.parts.length = (m.save pf).length := by
  simp [Message.parts, Message.save, put8, IpAddress.length_parts pf]

theorem length_peerParts (pf : Platform) (peer : IpAddress × UInt16) :
    (peerParts peer).length = (savePeer pf peer).length := by
  simp [peerParts, savePeer, put16, IpAddress.length_parts pf]

theorem length_elementParts (pf : Platform) (before elements : List Bytes) :
    (elementParts before elements).length = (elements.flatMap (saveString pf)).length := by
  induction elements generalizing before with
  | nil => rfl
  | cons element after ih =>
    rw [elementParts, List.length_append, ih, List.flatMap_cons, List.length_append]
    simp only [saveString, List.length_append, List.length_replicate, List.length_map,
      List.length_range, length_putNat]

theorem length_pathParts (pf : Platform) (p : FsPath) :
    (pathParts p).length = (savePath pf p).length := by
  simp only [pathParts, savePath, saveVector, List.length_append, List.length_replicate,
    length_putNat, length_elementParts pf]

/-- A number that has been changed is written at its width. -/
theorem put32_alteredNat (e : Endian) (n i : Nat) :
    put32 e (.ofNat (alteredNat e 4 n i b)) = putNat e 4 (alteredNat e 4 n i b) := by
  rw [put32, UInt32.toNat_ofNat_of_lt' (alteredNat_lt e 4 n i b)]

theorem put64_alteredNat (e : Endian) (n i : Nat) :
    put64 e (.ofNat (alteredNat e 8 n i b)) = putNat e 8 (alteredNat e 8 n i b) := by
  rw [put64, UInt64.toNat_ofNat_of_lt' (alteredNat_lt e 8 n i b)]

/-- It is another number. -/
theorem ofNat64_ne {e : Endian} {n : UInt64} {i : Nat} (h : alteredNat e 8 n.toNat i b ≠ n.toNat) :
    UInt64.ofNat (alteredNat e 8 n.toNat i b) ≠ n := by
  intro heq
  apply h
  rw [← UInt64.toNat_inj, UInt64.toNat_ofNat_of_lt' (alteredNat_lt _ _ _ _ _)] at heq
  exact heq

/-- **A changed address** is another address, or the same one if the family of an IPv6 address has
become another that is not that of IPv4. -/
theorem alters_ipAddress (ip : IpAddress) :
    Alters (ip.save pf) ip.parts b
      (Retold pf b (IpAddress.WrittenAs pf) (fun ip => hash (pf.ipToString ip)) ip) := by
  cases ip with
  | ipv4 addr =>
    show Alters (put8 pf.ipv4Family ++ put32 .big addr)
      ([Part.family (.ipv4 addr)] ++ (List.range 4).map (Part.octet (.ipv4 addr))) b _
    refine .append rfl ((alters_put8 _ _).mono ?_) ((alters_putNat .big 4 addr.toNat _).mono ?_)
    · rintro part _ ⟨rfl, rfl⟩
      exact .anyhow fun mistaken => and_iff_right trivial
    · rintro part _ ⟨i, _, rfl, hne, rfl⟩
      rw [← put32_alteredNat]
      refine .value (.ipv4 _) fun mistaken => (and_iff_right fun heq => hne ?_).symm
      have haddr := IpAddress.ipv4.inj heq
      rw [← UInt32.toNat_inj, UInt32.toNat_ofNat_of_lt' (alteredNat_lt _ _ _ _ _)] at haddr
      exact haddr
  | ipv6 hi lo =>
    show Alters (put8 pf.ipv6Family ++ (put64 .big hi ++ put64 .big lo))
      ([Part.family (.ipv6 hi lo)] ++ ((List.range 8).map (Part.octet (.ipv6 hi lo)) ++
        (List.range 8).map fun k => Part.octet (.ipv6 hi lo) (8 + k))) b _
    have hlength : ((List.range 8).map (Part.octet (.ipv6 hi lo))).length =
        (put64 .big hi).length := rfl
    refine .append rfl ((alters_put8 _ _).mono ?_) (.append hlength
      ((alters_putNat .big 8 hi.toNat _).mono ?_) ((alters_putNat .big 8 lo.toNat _).mono ?_))
    · rintro part _ ⟨rfl, rfl⟩
      by_cases hfamily : b = pf.ipv4Family
      · exact .anyhow fun mistaken => and_iff_right hfamily
      · exact .value (.ipv6 hfamily hi lo) fun mistaken =>
          iff_of_false (fun h => hfamily h.1) fun h => h.1 rfl
    · rintro part _ ⟨i, hi', rfl, hne, rfl⟩
      have hset : (IpAddress.ipv6 hi lo).setOctet i b =
          .ipv6 (.ofNat (alteredNat .big 8 hi.toNat i b)) lo := if_pos hi'
      rw [← put64_alteredNat]
      refine .value (.ipv6 pf.family_ne _ lo) fun mistaken => ?_
      rw [← hset]
      refine (and_iff_right fun heq => ofNat64_ne hne ?_).symm
      rw [hset] at heq
      exact (IpAddress.ipv6.inj heq).1
    · rintro part _ ⟨i, _, rfl, hne, rfl⟩
      have hset : (IpAddress.ipv6 hi lo).setOctet (8 + i) b =
          .ipv6 hi (.ofNat (alteredNat .big 8 lo.toNat i b)) := by
        simp [IpAddress.setOctet]
      rw [← put64_alteredNat]
      refine .value (.ipv6 pf.family_ne hi _) fun mistaken => ?_
      rw [← hset]
      refine (and_iff_right fun heq => ofNat64_ne hne ?_).symm
      rw [hset] at heq
      exact (IpAddress.ipv6.inj heq).2

/-- A changed number. -/
theorem alters_number (k n : Nat) :
    Alters (putNat pf.endian k n) ((List.range k).map (.number k n)) b
      (Retold pf b (fun n' bs => n' < 256 ^ k ∧ bs = putNat pf.endian k n')
        (fun n => hash (toDecimal n)) n) := by
  refine (alters_putNat pf.endian k n _).mono ?_
  rintro part _ ⟨i, _, rfl, hne, rfl⟩
  exact .value ⟨alteredNat_lt _ _ _ _ _, rfl⟩ fun mistaken => (and_iff_right hne).symm

/-- A changed element of a list. -/
theorem alters_list {save : α → Bytes} {parts : α → List Part} (text : α → Bytes)
    (hlength : ∀ x, (parts x).length = (save x).length) {xs : List α} (hsize : SizeFits xs.length)
    (hxs : ∀ x ∈ xs, F x (save x))
    (h : ∀ x ∈ xs, Alters (save x) (parts x) b (Retold pf b F (fun x => hash (text x)) x)) :
    Alters (xs.flatMap save) (xs.flatMap parts) b fun part bs' =>
      Retold pf b (VectorWrittenAs pf F) (fun xs => hash (xs.flatMap text)) xs part
        (putNat pf.endian 8 xs.length ++ bs') := by
  refine (Alters.flatMap (P := fun x part bs' => x ∈ xs →
    Retold pf b F (fun x => hash (text x)) x part bs') hlength
      (fun x i role c hrole hc hne hx => h x hx i role c hrole hc hne) xs).mono ?_
  rintro part _ ⟨before, x, after, bs', hsplit, rfl, hretold⟩
  have hmem : x ∈ xs := hsplit ▸ List.mem_append_right before List.mem_cons_self
  refine (hretold hmem).map (fun x' => before ++ x' :: after)
    (fun bs' => putNat pf.endian 8 xs.length ++
      (before.flatMap save ++ (bs' ++ after.flatMap save))) ?_
  intro x' bs' hx'
  have hlen : (before ++ x' :: after).length = xs.length := by
    rw [hsplit]
    simp
  refine ⟨?_, ?_, ?_⟩
  · have hbefore : ∀ y ∈ before, F y (save y) := fun y hy =>
      hxs y (hsplit ▸ List.mem_append_left _ hy)
    have hafter : ∀ y ∈ after, F y (save y) := fun y hy =>
      hxs y (hsplit ▸ List.mem_append_right before (List.mem_cons_of_mem x hy))
    have hparts : List.Forall₂ F (before ++ x' :: after)
        (before.map save ++ bs' :: after.map save) := by
      refine List.rel_append ?_ (.cons hx' ?_) <;>
        rw [List.forall₂_map_right_iff, List.forall₂_same] <;> assumption
    have hwritten : VectorWrittenAs pf F (before ++ x' :: after) _ := .mk (hlen ▸ hsize) hparts
    rw [hlen] at hwritten
    simpa [List.flatMap_def] using hwritten
  · rw [hsplit]
    simp
  · rw [hsplit]
    simp

end Fields

/-! ## Headers -/

section Headers

variable {pf : Platform} {b : UInt8}

/-- How much more the characters of a header add up to than its hash. -/
def Message.excess (pf : Platform) (m : Message) : UInt64 :=
  hash (m.hashString pf) - m.messageHash

/-- **A changed header** is that of another message of this type, or it has another type. -/
theorem alters_message (m : Message) :
    Alters (m.save pf) m.parts b fun part bs' => (part = .type ∧ bs'.head? = some b) ∨
      Retold pf b (fun m' bs => m'.type = m.type ∧ m'.WrittenAs pf bs) (Message.excess pf)
        m.received part bs' := by
  show Alters (put8 m.type.toByte ++
      (m.receiverNode.save pf ++ (m.originatorNode.save pf ++ put64 pf.endian m.messageHash)))
    ([Part.type] ++ (m.receiverNode.parts ++
      (m.originatorNode.parts ++ (List.range 8).map fun _ => Part.hash))) b _
  refine .append rfl ((alters_put8 _ _).mono ?_) (.append (m.receiverNode.length_parts pf)
    ((alters_ipAddress m.receiverNode).mono ?_) (.append (m.originatorNode.length_parts pf)
      ((alters_ipAddress m.originatorNode).mono ?_)
      ((alters_putNat pf.endian 8 m.messageHash.toNat _).mono ?_)))
  · rintro part _ ⟨rfl, rfl⟩
    exact .inl ⟨rfl, rfl⟩
  · intro part bs' hretold
    refine .inr (hretold.map (fun ip => { m.received with receiverNode := ip })
      (fun bs => put8 m.type.toByte ++
        (bs ++ (m.originatorNode.save pf ++ put64 pf.endian m.messageHash))) ?_)
    intro ip bs hip
    refine ⟨⟨rfl, .mk m.type hip (writtenAs_ipAddress pf m.originatorNode) m.messageHash⟩, ?_, ?_⟩
    · simp [Message.received]
    · simp [Message.excess, Message.hashString, Message.received]
  · intro part bs' hretold
    refine .inr (hretold.map (fun ip => { m.received with originatorNode := ip })
      (fun bs => put8 m.type.toByte ++
        (m.receiverNode.save pf ++ (bs ++ put64 pf.endian m.messageHash))) ?_)
    intro ip bs hip
    refine ⟨⟨rfl, .mk m.type (writtenAs_ipAddress pf m.receiverNode) hip m.messageHash⟩, ?_, ?_⟩
    · simp [Message.received]
    · simp [Message.excess, Message.hashString, Message.received]
  · rintro part _ ⟨i, _, rfl, hne, rfl⟩
    let messageHash : UInt64 := .ofNat (alteredNat pf.endian 8 m.messageHash.toNat i b)
    rw [← put64_alteredNat]
    have hwritten : Message.WrittenAs pf { m.received with messageHash } _ :=
      .mk m.type (writtenAs_ipAddress pf m.receiverNode) (writtenAs_ipAddress pf m.originatorNode)
        messageHash
    refine .inr (@Retold.value _ _ _ _ _ _ _ { m.received with messageHash } _ ⟨rfl, hwritten⟩
      fun mistaken => ?_)
    refine iff_of_false id fun h => ofNat64_ne hne ?_
    have hsame := h.2
    simp only [Message.excess, Message.hashString, Message.received] at hsame
    grind

end Headers

/-! ## Texts -/

section Texts

variable {pf : Platform} {b : UInt8}

theorem charToSize_injective : Function.Injective charToSize := by
  intro c d h
  have hwide : c.toInt8.toInt64 = d.toInt8.toInt64 := by
    have hback := congrArg UInt64.toInt64 h
    rwa [charToSize, charToSize, Int64.toInt64_toUInt64, Int64.toInt64_toUInt64] at hback
  have hnarrow : c.toInt8 = d.toInt8 := by
    rw [← Int8.toInt_inj, ← Int8.toInt_toInt64, hwide, Int8.toInt_toInt64]
  have hback := congrArg Int8.toUInt8 hnarrow
  simpa using hback

/-- **A changed character** changes the sum. -/
theorem alters_text (s : Bytes) : Alters s (s.map fun _ => Part.text) b fun part bs' =>
    part = .text ∧ bs'.length = s.length ∧ hash bs' ≠ hash s := by
  intro i part c hpart hc hne
  rw [List.getElem?_map, hc] at hpart
  obtain ⟨hi, hget⟩ := List.getElem?_eq_some_iff.mp hc
  refine ⟨(Option.some_inj.mp hpart).symm, List.length_set, fun heq => hne ?_⟩
  have hsplit : s = s.take i ++ c :: s.drop (i + 1) := by
    rw [← hget, List.getElem_cons_drop, List.take_append_drop]
  rw [List.set_eq_take_append_cons_drop, if_pos hi] at heq
  nth_rewrite 3 [hsplit] at heq
  rw [hash_append, hash_append, hash_cons, hash_cons, UInt64.add_right_inj,
    UInt64.add_left_inj] at heq
  exact (charToSize_injective heq).symm

/-- An entry of `backupPeers`, as it is hashed. -/
def peerText (pf : Platform) (peer : IpAddress × UInt16) : Bytes :=
  pf.ipToString peer.1 ++ toDecimal peer.2.toNat

theorem alters_peer (peer : IpAddress × UInt16) :
    Alters (savePeer pf peer) (peerParts peer) b
      (Retold pf b (PeerWrittenAs pf) (fun peer => hash (peerText pf peer)) peer) := by
  refine .append (peer.1.length_parts pf) ((alters_ipAddress peer.1).mono ?_)
    ((alters_number 2 peer.2.toNat).mono ?_)
  · intro part bs' hretold
    refine hretold.map (fun ip => (ip, peer.2)) (· ++ put16 pf.endian peer.2) ?_
    intro ip bs hip
    refine ⟨.mk hip peer.2, ?_, ?_⟩
    · simp [Prod.ext_iff]
    · simp [peerText]
  · intro part bs' hretold
    refine hretold.map (fun n => (peer.1, .ofNat n)) (peer.1.save pf ++ ·) ?_
    rintro n _ ⟨hn, rfl⟩
    have hnumber : (UInt16.ofNat n).toNat = n := UInt16.toNat_ofNat_of_lt' hn
    have hput : putNat pf.endian 2 n = put16 pf.endian (.ofNat n) := by rw [put16, hnumber]
    refine ⟨?_, ?_, ?_⟩
    · rw [hput]
      exact .mk (writtenAs_ipAddress pf peer.1) _
    · simp [Prod.ext_iff, ← UInt16.toNat_inj, hnumber]
    · simp [peerText, hnumber]

/-- A changed byte among the elements of a path. -/
theorem alters_elements (before elements : List Bytes) :
    Alters (elements.flatMap (saveString pf)) (elementParts before elements) b fun part bs' =>
      part = .layout ∨ ∃ front element after k, elements = front ++ element :: after ∧
        part = .character (before ++ front) element after k ∧
          bs' = (front ++ element.set k b :: after).flatMap (saveString pf) := by
  induction elements generalizing before with
  | nil => exact .nil _
  | cons element after ih =>
    rw [elementParts, List.flatMap_cons]
    refine .append ?_ (.append (by simp)
      (.replicate 8 fun _ => .inl rfl) ?_) ((ih (before ++ [element])).mono ?_)
    · simp only [saveString, List.length_append, List.length_replicate, List.length_map,
        List.length_range, length_putNat]
    · intro k part c hpart hc hne
      rw [List.getElem?_map] at hpart
      obtain ⟨k', hk', rfl⟩ := Option.map_eq_some_iff.mp hpart
      obtain ⟨hlt, rfl⟩ := List.getElem?_eq_some_iff.mp hk'
      rw [List.getElem_range]
      refine .inr ⟨[], element, after, k, rfl, by rw [List.append_nil], ?_⟩
      simp [saveString]
    · rintro part _ (rfl | ⟨front, element', after', k, rfl, rfl, rfl⟩)
      · exact .inl rfl
      · exact .inr ⟨element :: front, element', after', k, rfl,
          by rw [List.append_assoc, List.singleton_append], rfl⟩

/-- **A changed path** is another path, or the same one. -/
theorem alters_path {p : FsPath} (hnormal : p.lexicallyNormal = p) (hfits : PathFits p) :
    Alters (savePath pf p) (pathParts p) b
      (Retold pf b (PathWrittenAs pf) (fun p => hash p.native) p) := by
  refine .append (by simp) (.replicate 8 fun _ => .anyhow fun mistaken => Iff.rfl)
    ((alters_elements [] p.lexicallyNormal.elements).mono ?_)
  rintro part _ (rfl | ⟨front, element, after, k, helements, rfl, rfl⟩)
  · exact .anyhow fun mistaken => Iff.rfl
  · have hpath : FsPath.ofElements (front ++ element :: after) = p := by
      rw [← helements, FsPath.ofElements_elements_normal, hnormal]
    have hlength : p.lexicallyNormal.elements.length =
        (front ++ element.set k b :: after).length := by
      rw [helements]
      simp
    have hsizes : ∀ part ∈ front ++ element.set k b :: after, SizeFits part.length := by
      have hold := hfits.2
      rw [helements] at hold
      intro part hpart
      rcases List.mem_append.mp hpart with hfront | hrest
      · exact hold part (List.mem_append_left _ hfront)
      · rcases List.mem_cons.mp hrest with rfl | hafter
        · rw [List.length_set]
          exact hold element (List.mem_append_right front List.mem_cons_self)
        · exact hold part (List.mem_append_right front (List.mem_cons_of_mem element hafter))
    have hwritten : VectorWrittenAs pf (StringWrittenAs pf)
        ((front ++ element.set k b :: after).map id)
          (saveVector pf (saveString pf) (front ++ element.set k b :: after)) :=
      writtenAs_vector pf (hlength ▸ hfits.1) fun part hpart => ⟨hsizes part hpart, rfl⟩
    rw [List.map_id] at hwritten
    rw [hlength]
    refine .value (.mk hwritten) fun mistaken => ?_
    rw [← hpath]
    rfl

end Texts

end WhisperNet
