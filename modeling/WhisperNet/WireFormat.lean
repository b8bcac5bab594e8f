import WhisperNet.Lib.Format
import WhisperNet.Messages

/-!
# The wire format

Which bytes a message may be written as, whatever reads or writes them. A writer makes one of these
strings, but a reader takes them all: any family other than that of IPv4 is one of an IPv6 address,
and the elements of a path are joined whether or not they are those of a normal form.

* `AnyMessage.WrittenAs` — the format of every class.
* `parses_message`, `parses_payload` and so on — what the reader of a class takes.
-/

namespace WhisperNet

open Bin

/-! ## Fields -/

/-- The size of a string or vector is a `size_t`. -/
def SizeFits (n : Nat) : Prop := n < 256 ^ 8

instance (n : Nat) : Decidable (SizeFits n) := inferInstanceAs (Decidable (n < 256 ^ 8))

section Formats

variable (pf : Platform)

/-- A string, after its size. -/
def StringWrittenAs (s bs : Bytes) : Prop := SizeFits s.length ∧ bs = saveString pf s

/-- A vector, after its size. -/
inductive VectorWrittenAs {α : Type} (F : Format α) : List α → Bytes → Prop
  | mk {xs : List α} {parts : List Bytes} (hsize : SizeFits xs.length)
      (hparts : List.Forall₂ F xs parts) :
      VectorWrittenAs F xs (putNat pf.endian 8 xs.length ++ parts.flatten)

inductive IpAddress.WrittenAs : IpAddress → Bytes → Prop
  | ipv4 (addr : UInt32) :
      IpAddress.WrittenAs (.ipv4 addr) (put8 pf.ipv4Family ++ put32 .big addr)
  | ipv6 {family : UInt8} (h : family ≠ pf.ipv4Family) (hi lo : UInt64) :
      IpAddress.WrittenAs (.ipv6 hi lo) (put8 family ++ (put64 .big hi ++ put64 .big lo))

inductive PathWrittenAs : FsPath → Bytes → Prop
  | mk {parts : List Bytes} {bs : Bytes} (h : VectorWrittenAs pf (StringWrittenAs pf) parts bs) :
      PathWrittenAs (FsPath.ofElements parts) bs

inductive PeerWrittenAs : IpAddress × UInt16 → Bytes → Prop
  | mk {ip : IpAddress} {bs : Bytes} (h : ip.WrittenAs pf bs) (port : UInt16) :
      PeerWrittenAs (ip, port) (bs ++ put16 pf.endian port)

/-! ## Classes -/

/-- The sender is not on the wire. -/
inductive Message.WrittenAs : Message → Bytes → Prop
  | mk (type : MessageType) {receiverNode originatorNode : IpAddress} {receiver originator : Bytes}
      (hreceiver : receiverNode.WrittenAs pf receiver)
      (horiginator : originatorNode.WrittenAs pf originator) (messageHash : UInt64) :
      Message.WrittenAs { type, receiverNode, originatorNode, messageHash }
        (put8 type.toByte ++ (receiver ++ (originator ++ put64 pf.endian messageHash)))

inductive PayloadMessage.WrittenAs : PayloadMessage → Bytes → Prop
  | mk {toMessage : Message} {header payload bs : Bytes} (hm : toMessage.WrittenAs pf header)
      (hpayload : StringWrittenAs pf payload bs) :
      PayloadMessage.WrittenAs { toMessage, payload } (header ++ bs)

inductive ResendRequestMessage.WrittenAs : ResendRequestMessage → Bytes → Prop
  | mk {toMessage : Message} {header : Bytes} (hm : toMessage.WrittenAs pf header)
      (requestedHash : UInt64) {originalDestination : IpAddress} {bs : Bytes}
      (hdestination : originalDestination.WrittenAs pf bs) :
      ResendRequestMessage.WrittenAs { toMessage, requestedHash, originalDestination }
        (header ++ (put64 pf.endian requestedHash ++ bs))

/-- The timestamp is a `time_t`. -/
inductive FileMessage.WrittenAs : FileMessage → Bytes → Prop
  | mk {toMessage : Message} {targetFile : FsPath} {header bs : Bytes}
      (hm : toMessage.WrittenAs pf header) (htarget : PathWrittenAs pf targetFile bs)
      (tm : UInt64) :
      FileMessage.WrittenAs { toMessage, targetFile, timestamp := systemFromTimeT tm.toInt64 }
        (header ++ (bs ++ put64 pf.endian tm))

inductive FileContentMessage.WrittenAs : FileContentMessage → Bytes → Prop
  | mk {toFileMessage : FileMessage} {fileContent header bs : Bytes}
      (hm : toFileMessage.WrittenAs pf header) (hcontent : StringWrittenAs pf fileContent bs) :
      FileContentMessage.WrittenAs { toFileMessage, fileContent } (header ++ bs)

inductive FileInitialSyncMessage.WrittenAs : FileInitialSyncMessage → Bytes → Prop
  | mk {toFileContentMessage : FileContentMessage} {header : Bytes}
      (hm : toFileContentMessage.WrittenAs pf header) (total index : UInt64) :
      FileInitialSyncMessage.WrittenAs { toFileContentMessage, total, index }
        (header ++ (put64 pf.endian total ++ put64 pf.endian index))

inductive ConnectMessage.WrittenAs : ConnectMessage → Bytes → Prop
  | mk {toMessage : Message} {backupPeers : List (IpAddress × UInt16)}
      {managedPaths : List FsPath} {header peers paths : Bytes}
      (hm : toMessage.WrittenAs pf header)
      (hpeers : VectorWrittenAs pf (PeerWrittenAs pf) backupPeers peers)
      (hpaths : VectorWrittenAs pf (PathWrittenAs pf) managedPaths paths) :
      ConnectMessage.WrittenAs { toMessage, backupPeers, managedPaths }
        (header ++ (peers ++ paths))

def AnyMessage.WrittenAs : AnyMessage → Bytes → Prop
  | message m => m.WrittenAs pf
  | payload m => m.WrittenAs pf
  | resendRequest m => m.WrittenAs pf
  | file m => m.WrittenAs pf
  | fileContent m => m.WrittenAs pf
  | fileInitialSync m => m.WrittenAs pf
  | connect m => m.WrittenAs pf

variable {pf} {m : AnyMessage} {used : Bytes}

/-- The first byte is the type. -/
theorem head?_writtenAs (h : m.WrittenAs pf used) : used.head? = some m.base.type.toByte := by
  have hfile {f : FileMessage} {bs : Bytes} (hf : f.WrittenAs pf bs) (rest : Bytes) :
      (bs ++ rest).head? = some f.type.toByte := by
    obtain ⟨⟨type, _, _, _⟩, _, _⟩ := hf
    rfl
  cases m with
  | message m =>
    obtain ⟨type, _, _, _⟩ := h
    rfl
  | payload m | resendRequest m | connect m =>
    obtain ⟨⟨type, _, _, _⟩, _, _⟩ := h
    rfl
  | file m =>
    rw [← List.append_nil used]
    exact hfile h []
  | fileContent m =>
    obtain ⟨hm, _⟩ := h
    exact hfile hm _
  | fileInitialSync m =>
    obtain ⟨⟨hm, _⟩, _, _⟩ := h
    rw [List.append_assoc]
    exact hfile hm _

end Formats

/-! ## What is read -/

section Reading

variable (pf : Platform)

theorem parses_loadString : Parses (loadString pf) (StringWrittenAs pf) where
  reads := by
    rintro s _ ⟨hsize, rfl⟩
    exact (reads_getNat pf.endian hsize).bind (reads_block rfl)
  accepts h := by
    obtain ⟨n, _, left, ⟨hn, rfl⟩, rfl, hblock⟩ := (parses_getNat pf.endian 8).run_bind h
    obtain ⟨used, ⟨hlength, rfl⟩, rfl⟩ := (parses_block n).accepts hblock
    subst hlength
    exact ⟨_, ⟨hn, rfl⟩, (List.append_assoc _ _ _).symm⟩

theorem parses_loadVector {α : Type} {load : Reader α} {F : Format α} (hload : Parses load F) :
    Parses (loadVector pf load) (VectorWrittenAs pf F) where
  reads := by
    rintro _ _ ⟨hsize, hparts⟩
    exact (reads_getNat pf.endian hsize).bind
      ((parses_many hload _).reads ⟨rfl, _, hparts, rfl⟩)
  accepts h := by
    obtain ⟨n, _, left, ⟨hn, rfl⟩, rfl, hmany⟩ := (parses_getNat pf.endian 8).run_bind h
    obtain ⟨_, ⟨hlength, parts, hparts, rfl⟩, rfl⟩ := (parses_many hload n).accepts hmany
    subst hlength
    exact ⟨_, ⟨hn, hparts⟩, (List.append_assoc _ _ _).symm⟩

theorem parses_ipAddress : Parses (IpAddress.load pf) (IpAddress.WrittenAs pf) where
  reads := by
    rintro _ _ (⟨addr⟩ | ⟨hfamily, hi, lo⟩)
    · refine (reads_get8 pf.ipv4Family).bind ?_
      rw [if_pos rfl]
      exact (reads_get32 .big addr).map IpAddress.ipv4
    · refine (reads_get8 _).bind ?_
      rw [if_neg hfamily]
      exact (reads_get64 .big hi).bind ((reads_get64 .big lo).map (IpAddress.ipv6 hi))
  accepts h := by
    obtain ⟨family, _, left, rfl, rfl, hrest⟩ := parses_get8.run_bind h
    split at hrest
    · next hfamily =>
      subst hfamily
      obtain ⟨addr, _, rfl, rfl, rfl⟩ := (parses_get32 .big).run_last hrest
      exact ⟨_, .ipv4 addr, (List.append_assoc _ _ _).symm⟩
    · next hfamily =>
      obtain ⟨hi, _, left, rfl, rfl, hlow⟩ := (parses_get64 .big).run_bind hrest
      obtain ⟨lo, _, rfl, rfl, rfl⟩ := (parses_get64 .big).run_last hlow
      refine ⟨_, .ipv6 hfamily hi lo, ?_⟩
      simp only [List.append_assoc]

theorem parses_loadPath : Parses (loadPath pf) (PathWrittenAs pf) where
  reads := by
    rintro _ _ ⟨hparts⟩
    exact ((parses_loadVector pf (parses_loadString pf)).reads hparts).map FsPath.ofElements
  accepts h := by
    obtain ⟨parts, used, hparts, hbs, rfl⟩ :=
      (parses_loadVector pf (parses_loadString pf)).run_last h
    exact ⟨used, ⟨hparts⟩, hbs⟩

theorem parses_loadPeer : Parses (loadPeer pf) (PeerWrittenAs pf) where
  reads := by
    rintro _ _ ⟨hip, port⟩
    exact ((parses_ipAddress pf).reads hip).bind ((reads_get16 pf.endian port).map (Prod.mk _))
  accepts h := by
    obtain ⟨ip, used, left, hip, rfl, hrest⟩ := (parses_ipAddress pf).run_bind h
    obtain ⟨port, _, rfl, rfl, rfl⟩ := (parses_get16 pf.endian).run_last hrest
    exact ⟨_, ⟨hip, port⟩, (List.append_assoc _ _ _).symm⟩

theorem parses_message : Parses (Message.load pf) (Message.WrittenAs pf) where
  reads := by
    rintro _ _ (@⟨type, receiverNode, originatorNode, _, _, hreceiver, horiginator, messageHash⟩)
    refine (reads_get8 type.toByte).bind <| ((parses_ipAddress pf).reads hreceiver).bind <|
      ((parses_ipAddress pf).reads horiginator).bind ?_
    rw [MessageType.ofByte_toByte]
    exact (reads_get64 pf.endian messageHash).map fun messageHash =>
      { type, receiverNode, originatorNode, messageHash : Message }
  accepts h := by
    obtain ⟨type, _, left, rfl, rfl, hrest⟩ := parses_get8.run_bind h
    obtain ⟨_, receiver, left, hreceiver, rfl, hthird⟩ := (parses_ipAddress pf).run_bind hrest
    obtain ⟨_, originator, left, horiginator, rfl, hlast⟩ :=
      (parses_ipAddress pf).run_bind hthird
    obtain ⟨messageHash, _, rfl, rfl, rfl⟩ := (parses_get64 pf.endian).run_last hlast
    refine ⟨_, ⟨.ofByte type, hreceiver, horiginator, messageHash⟩, ?_⟩
    simp only [MessageType.toByte_ofByte, List.append_assoc]

theorem parses_payload : Parses (PayloadMessage.load pf) (PayloadMessage.WrittenAs pf) where
  reads := by
    rintro _ _ ⟨hm, hpayload⟩
    exact ((parses_message pf).reads hm).bind
      (((parses_loadString pf).reads hpayload).map (PayloadMessage.mk _))
  accepts h := by
    obtain ⟨_, header, left, hm, rfl, hrest⟩ := (parses_message pf).run_bind h
    obtain ⟨_, used, hpayload, rfl, rfl⟩ := (parses_loadString pf).run_last hrest
    exact ⟨_, ⟨hm, hpayload⟩, (List.append_assoc _ _ _).symm⟩

theorem parses_resendRequest :
    Parses (ResendRequestMessage.load pf) (ResendRequestMessage.WrittenAs pf) where
  reads := by
    rintro _ _ ⟨hm, requestedHash, hdestination⟩
    exact ((parses_message pf).reads hm).bind <| (reads_get64 pf.endian requestedHash).bind <|
      ((parses_ipAddress pf).reads hdestination).map (ResendRequestMessage.mk _ requestedHash)
  accepts h := by
    obtain ⟨_, header, left, hm, rfl, hrest⟩ := (parses_message pf).run_bind h
    obtain ⟨requestedHash, _, left, rfl, rfl, hlast⟩ := (parses_get64 pf.endian).run_bind hrest
    obtain ⟨_, used, hdestination, rfl, rfl⟩ := (parses_ipAddress pf).run_last hlast
    refine ⟨_, ⟨hm, requestedHash, hdestination⟩, ?_⟩
    simp only [List.append_assoc]

theorem parses_file : Parses (FileMessage.load pf) (FileMessage.WrittenAs pf) where
  reads := by
    rintro _ _ (@⟨toMessage, targetFile, _, _, hm, htarget, tm⟩)
    have htime := (reads_get64 pf.endian tm).map fun tm =>
      FileMessage.mk toMessage targetFile (systemFromTimeT tm.toInt64)
    exact ((parses_message pf).reads hm).bind (((parses_loadPath pf).reads htarget).bind htime)
  accepts h := by
    obtain ⟨_, header, left, hm, rfl, hrest⟩ := (parses_message pf).run_bind h
    obtain ⟨_, used, left, htarget, rfl, hlast⟩ := (parses_loadPath pf).run_bind hrest
    obtain ⟨tm, _, rfl, rfl, rfl⟩ := (parses_get64 pf.endian).run_last hlast
    refine ⟨_, ⟨hm, htarget, tm⟩, ?_⟩
    simp only [List.append_assoc]

theorem parses_fileContent :
    Parses (FileContentMessage.load pf) (FileContentMessage.WrittenAs pf) where
  reads := by
    rintro _ _ ⟨hm, hcontent⟩
    exact ((parses_file pf).reads hm).bind
      (((parses_loadString pf).reads hcontent).map (FileContentMessage.mk _))
  accepts h := by
    obtain ⟨_, header, left, hm, rfl, hrest⟩ := (parses_file pf).run_bind h
    obtain ⟨_, used, hcontent, rfl, rfl⟩ := (parses_loadString pf).run_last hrest
    exact ⟨_, ⟨hm, hcontent⟩, (List.append_assoc _ _ _).symm⟩

theorem parses_fileInitialSync :
    Parses (FileInitialSyncMessage.load pf) (FileInitialSyncMessage.WrittenAs pf) where
  reads := by
    rintro _ _ ⟨hm, total, index⟩
    exact ((parses_fileContent pf).reads hm).bind <| (reads_get64 pf.endian total).bind <|
      (reads_get64 pf.endian index).map (FileInitialSyncMessage.mk _ total)
  accepts h := by
    obtain ⟨_, header, left, hm, rfl, hrest⟩ := (parses_fileContent pf).run_bind h
    obtain ⟨total, _, left, rfl, rfl, hlast⟩ := (parses_get64 pf.endian).run_bind hrest
    obtain ⟨index, _, rfl, rfl, rfl⟩ := (parses_get64 pf.endian).run_last hlast
    refine ⟨_, ⟨hm, total, index⟩, ?_⟩
    simp only [List.append_assoc]

theorem parses_connect : Parses (ConnectMessage.load pf) (ConnectMessage.WrittenAs pf) where
  reads := by
    rintro _ _ ⟨hm, hpeers, hpaths⟩
    exact ((parses_message pf).reads hm).bind <|
      ((parses_loadVector pf (parses_loadPeer pf)).reads hpeers).bind <|
        ((parses_loadVector pf (parses_loadPath pf)).reads hpaths).map (ConnectMessage.mk _ _)
  accepts h := by
    obtain ⟨_, header, left, hm, rfl, hrest⟩ := (parses_message pf).run_bind h
    obtain ⟨_, peers, left, hpeers, rfl, hlast⟩ :=
      (parses_loadVector pf (parses_loadPeer pf)).run_bind hrest
    obtain ⟨_, paths, hpaths, rfl, rfl⟩ :=
      (parses_loadVector pf (parses_loadPath pf)).run_last hlast
    refine ⟨_, ⟨hm, hpeers, hpaths⟩, ?_⟩
    simp only [List.append_assoc]

end Reading

end WhisperNet
