import WhisperNet.Callbacks
import WhisperNet.Lib.Run
import Mathlib.Data.List.TakeWhile

/-!
# Which contents are broadcast

`onFileCreatedOrModified` stores the hash of what it has broadcast, if it can, and broadcasts what
has another hash than the one stored. The stream it stores the hash through creates no folder: as
long as there is no `.wnts` folder, no hash is stored, and every call broadcasts.

* `extractSize_toDecimal` — a hash that was stored is read back.
* `Recorded` — the hash file is that of the content last stored.
* `broadcasts_exact_iff` — which calls broadcast a file exactly if it has changed.
-/

namespace WhisperNet

open Bin Fs

/-! ## A hash that is read back -/

/-- Digits are characters, and stay the same as bytes. -/
theorem toNat_digit {n : Nat} {d : Char} (h : d ∈ Nat.toDigits 10 n) :
    d.toNat.toUInt8.toNat = d.toNat ∧ 48 ≤ d.toNat ∧ d.toNat ≤ 57 := by
  have hdigit := Nat.isDigit_of_mem_toDigits (by decide) (by decide) h
  rw [Char.isDigit_iff_toNat] at hdigit
  obtain ⟨hlo, hhi⟩ : 48 ≤ d.toNat ∧ d.toNat ≤ 57 := hdigit
  refine ⟨?_, hlo, hhi⟩
  rw [Nat.toUInt8, UInt8.toNat_ofNat']
  omega

theorem isDigit_of_mem_toDecimal {n : Nat} {c : UInt8} (h : c ∈ toDecimal n) : isDigit c := by
  obtain ⟨d, hd, rfl⟩ := List.mem_map.mp h
  obtain ⟨hbyte, hlo, hhi⟩ := toNat_digit hd
  rw [isDigit, Bool.and_eq_true, decide_eq_true_eq, decide_eq_true_eq, UInt8.le_iff_toNat_le,
    UInt8.le_iff_toNat_le, hbyte]
  exact ⟨hlo, hhi⟩

/-- A digit is no space and no sign. -/
theorem of_isDigit {c : UInt8} (h : isDigit c) : isSpace c = false ∧ c ≠ 43 ∧ c ≠ 45 := by
  simp only [isDigit, isSpace, Bool.and_eq_true, Bool.or_eq_false_iff, Bool.and_eq_false_iff,
    decide_eq_true_eq, decide_eq_false_iff_not, beq_eq_false_iff_ne, ne_eq, ← UInt8.toNat_inj,
    UInt8.le_iff_toNat_le, UInt8.reduceToNat] at h ⊢
  omega

/-- The digits give the number. -/
theorem foldl_toDecimal (n : Nat) :
    (toDecimal n).foldl (fun n d => 10 * n + (d.toNat - 48)) 0 = n := by
  have hdigits : ∀ (a : Nat), ∀ d ∈ Nat.toDigits 10 n,
      10 * a + (d.toNat.toUInt8.toNat - 48) = 10 * a + (d.toNat - '0'.toNat) := by
    intro a d hd
    rw [(toNat_digit hd).1]
    rfl
  rw [toDecimal, List.foldl_map, List.foldl_ext _ _ _ hdigits]
  exact Nat.ofDigitChars_ten_toDigits

/-- What `fout << n` writes, `fin >> size` reads. -/
theorem extractSize_toDecimal (size n : UInt64) : extractSize size (toDecimal n.toNat) = n := by
  have hall : ∀ c ∈ toDecimal n.toNat, isDigit c := fun c hc => isDigit_of_mem_toDecimal hc
  have hfold := foldl_toDecimal n.toNat
  have hlt : ¬ 2 ^ 64 ≤ n.toNat := not_le.mpr n.toNat_lt
  unfold extractSize
  cases htext : toDecimal n.toNat with
  | nil => exact absurd htext (by simp [toDecimal, Nat.toDigits_ne_nil])
  | cons c rest =>
    rw [htext] at hall hfold
    obtain ⟨hspace, hplus, hminus⟩ := of_isDigit (hall c List.mem_cons_self)
    rw [List.dropWhile_cons_of_neg (by simp [hspace])]
    have hsign : (c == 43 || c == 45) = false := by simp [hplus, hminus]
    have hminus' : (c == 45) = false := by simp [hminus]
    dsimp only
    rw [hsign, hminus', if_neg Bool.false_ne_true, if_neg Bool.false_ne_true,
      List.takeWhile_eq_self_iff.mpr hall, hfold, if_neg hlt, UInt64.ofNat_toNat]

/-! ## Where hashes are stored -/

/-- The `.wnts` folder of the managed folder the file is in. -/
def wntsFolder (p : FilePath) : FilePath := p.take 1 ++ [wnts]

/-- Without it there is nothing at the path of the hash, nor a folder for it. -/
theorem no_hash_file {p : FilePath} {fs : FileSystem} (hp : 2 ≤ p.length)
    (h : wntsFolder p ∉ fs.dirs) : fs.file? (wntsPath p) = none ∧ wntsPath p ∉ fs.dirs ∧
      (wntsPath p).dropLast ∉ fs.dirs := by
  have hparent : (wntsPath p).dropLast ∉ fs.dirs := by
    match p, hp with
    | folder :: name :: rest, _ =>
      intro hmem
      have hsplit : (wntsPath (folder :: name :: rest)).dropLast =
          wntsFolder (folder :: name :: rest) ++ (name :: rest).dropLast := rfl
      rw [hsplit] at hmem
      exact h (fs.mem_dirs_of_append hmem)
  refine ⟨?_, fun hdir => hparent (fs.parent_dir _ hdir), hparent⟩
  by_contra hfile
  exact hparent (fs.parent_file _ (FileSystem.file?_ne_none.mp hfile))

section Calls

variable (host : Host) (p : FilePath)

/-- The stream for the hash opens. -/
def hashOpens (fs : FileSystem) : Bool :=
  match ofstream host (wntsPath p) fs with
  | .ok isOpen _ => isOpen
  | .error _ _ => false

/-- What storing a hash leaves. -/
theorem storeHash_stored (hash : UInt64) (fs : FileSystem) :
    ∃ fs', storeHash host p hash fs = .ok () fs' ∧
      if hashOpens host p fs then
        ∃ g, fs'.file? (wntsPath p) = some g ∧ g.content = toDecimal hash.toNat
      else fs' = fs := by
  obtain ⟨isOpen, fs₁, hopen⟩ := ofstream_returns host (wntsPath p) fs
  have hopens : hashOpens host p fs = isOpen := by rw [hashOpens, hopen]
  rw [storeHash, Effect.bind_ok hopen, hopens]
  cases isOpen with
  | true =>
    obtain ⟨perms, hset⟩ := ofstream_true hopen
    obtain ⟨fs₂, happend, hset'⟩ := append_ok (toDecimal hash.toNat) hset.here
    exact ⟨fs₂, happend, _, hset'.here, rfl⟩
  | false => exact ⟨fs₁, rfl, ofstream_false hopen⟩

theorem not_hashOpens {fs : FileSystem} (hp : 2 ≤ p.length) (h : wntsFolder p ∉ fs.dirs) :
    hashOpens host p fs = false := by
  obtain ⟨hfile, -, hparent⟩ := no_hash_file hp h
  have hnot : wntsPath p ∉ fs.files := fun hmem => FileSystem.file?_ne_none.mpr hmem hfile
  have hopen : ofstream host (wntsPath p) fs = .ok false fs :=
    (dif_neg hnot).trans (dif_neg fun hcan => hparent hcan.1)
  rw [hashOpens, hopen]

/-! ## Calls about one file -/

/-- One call: what it goes by, the disk it finds and what the file contains. -/
structure ContentCall where
  mtime : FilePath → FileTime
  readings : Readings
  disk : FileSystem
  content : Bytes

/-- The disk that the last call has left, the content last broadcast, and the content whose hash
was last stored. -/
structure Account where
  disk : FileSystem
  broadcast : Option Bytes := none
  stored : Option Bytes := none

namespace ContentCall

def run (c : ContentCall) : EStateM.Result Exn FileSystem (List AnyMessage) :=
  onFileCreatedOrModified host c.mtime c.readings p c.disk

/-- The call broadcasts a `contentChange`. -/
def broadcasts (c : ContentCall) : Bool :=
  match c.run host p with
  | .ok sent _ => sent.any fun m => decide (m.base.type = .contentChange)
  | .error _ _ => false

/-- The call finds the file, and the hash as it was left. What else has changed on the disk, and
which folders there are, is left open. -/
structure Finds (a : Account) (c : ContentCall) : Prop where
  file : ∃ perms, c.disk.file? p = some ⟨c.content, perms⟩
  hash : c.disk.file? (wntsPath p) = a.disk.file? (wntsPath p)
  noDir : wntsPath p ∉ c.disk.dirs

end ContentCall

namespace Account

/-- What a call leaves. -/
def next (a : Account) (c : ContentCall) : Option Account :=
  match c.run host p with
  | .ok _ disk => some {
      disk
      broadcast := if c.broadcasts host p then some c.content else a.broadcast
      stored := if c.broadcasts host p && hashOpens host p c.disk then some c.content
        else a.stored }
  | .error _ _ => none

/-- The call broadcasts the file exactly if its content is not the one last broadcast. -/
def Exact (a : Account) (c : ContentCall) : Prop :=
  c.broadcasts host p = true ↔ a.broadcast ≠ some c.content

/-- After a broadcast, the content is another one as long as no hash is stored, and has the hash
that is stored exactly if it is the one last broadcast. -/
def Told (a : Account) (c : ContentCall) : Prop :=
  ∀ last, a.broadcast = some last →
    match a.stored with
    | none => c.content ≠ last
    | some stored => hash c.content = hash stored ↔ c.content = last

/-- The hash file is that of the content last stored, which was broadcast. -/
structure Recorded (a : Account) : Prop where
  file : (a.disk.file? (wntsPath p)).map File.content =
    a.stored.map fun stored => toDecimal (hash stored).toNat
  first : a.broadcast = none → a.stored = none

variable {host p} {a a' : Account} {c : ContentCall}

/-- What `shouldSend` goes by: the content last stored. -/
theorem Recorded.differs_iff (hr : Recorded p a) (hc : c.Finds p a) :
    Differs c.disk c.readings.oldHash p (hash c.content) ↔
      ∀ stored, a.stored = some stored → hash c.content ≠ hash stored := by
  have hfile := hr.file
  rw [← hc.hash] at hfile
  cases hstored : a.stored with
  | none =>
    rw [hstored, Option.map_none, Option.map_eq_none_iff] at hfile
    have hnot : wntsPath p ∉ c.disk.files := fun hmem =>
      FileSystem.file?_ne_none.mpr hmem hfile
    exact ⟨fun _ => nofun, fun _ => Or.inl ⟨hnot, hc.noDir⟩⟩
  | some stored =>
    rw [hstored, Option.map_some, Option.map_eq_some_iff] at hfile
    obtain ⟨g, hg, hcontent⟩ := hfile
    have hmem := FileSystem.mem_files_of_file? hg
    have hread : (c.disk.file? (wntsPath p)).elim c.readings.oldHash
        (fun g => extractSize c.readings.oldHash g.content) = hash stored := by
      rw [hg, Option.elim_some, hcontent, extractSize_toDecimal]
    constructor
    · intro hdiffers stored' heq
      obtain rfl := Option.some_inj.mp heq
      rcases hdiffers with ⟨hnot, -⟩ | hne
      · exact absurd hmem hnot
      · rwa [hread] at hne
    · intro h
      refine Or.inr ?_
      rw [hread]
      exact h stored rfl

/-- **One call**: it broadcasts, and stores the hash if it can, or it does nothing. -/
theorem Recorded.call_cases (host : Host) (hr : Recorded p a) (hc : c.Finds p a) :
    (c.broadcasts host p = true ∧
      (∀ stored, a.stored = some stored → hash c.content ≠ hash stored) ∧
      ∃ sent disk, c.run host p = .ok sent disk ∧
        if hashOpens host p c.disk then
          ∃ g, disk.file? (wntsPath p) = some g ∧ g.content = toDecimal (hash c.content).toNat
        else disk = c.disk) ∨
    (c.broadcasts host p = false ∧
      (∃ stored, a.stored = some stored ∧ hash c.content = hash stored) ∧
      c.run host p = .ok [] c.disk) := by
  obtain ⟨perms, hfile⟩ := hc.file
  have hrun := onFileCreatedOrModified_file host c.mtime c.readings hfile
  have hiff := hr.differs_iff hc
  by_cases h : Differs c.disk c.readings.oldHash p (hash c.content)
  · left
    obtain ⟨disk, hstore, hdisk⟩ := storeHash_stored host p (hash c.content) c.disk
    rw [if_pos h, Effect.bind_ok hstore] at hrun
    have hbroadcasts : c.broadcasts host p = true := by
      rw [ContentCall.broadcasts, ContentCall.run, hrun]
      rfl
    exact ⟨hbroadcasts, hiff.mp h, _, disk, hrun, hdisk⟩
  · right
    rw [if_neg h] at hrun
    have hbroadcasts : c.broadcasts host p = false := by
      rw [ContentCall.broadcasts, ContentCall.run, hrun]
      rfl
    refine ⟨hbroadcasts, ?_, hrun⟩
    by_contra hnone
    exact h (hiff.mpr fun stored hstored heq => hnone ⟨stored, hstored, heq⟩)

theorem Recorded.broadcasts_iff (hr : Recorded p a) (hc : c.Finds p a) :
    c.broadcasts host p = true ↔
      ∀ stored, a.stored = some stored → hash c.content ≠ hash stored := by
  rcases hr.call_cases host hc with ⟨hb, h, -⟩ | ⟨hb, ⟨stored, hstored, heq⟩, -⟩
  · exact iff_of_true hb h
  · exact iff_of_false (by simp [hb]) fun h => h stored hstored heq

/-- A call leaves the hash file to what was last stored. -/
theorem Recorded.next (hr : Recorded p a) (hc : c.Finds p a)
    (h : a.next host p c = some a') : Recorded p a' := by
  unfold Account.next at h
  rcases hr.call_cases host hc with ⟨hb, -, sent, disk, hrun, hdisk⟩ | ⟨hb, -, hrun⟩
  · rw [hrun, hb] at h
    obtain rfl := Option.some_inj.mp h
    refine ⟨?_, nofun⟩
    cases hopens : hashOpens host p c.disk with
    | true =>
      rw [hopens] at hdisk
      obtain ⟨g, hg, hcontent⟩ := hdisk
      show (disk.file? (wntsPath p)).map File.content = _
      rw [hg, Option.map_some, hcontent]
      rfl
    | false =>
      rw [hopens] at hdisk
      obtain rfl : disk = c.disk := hdisk
      show (c.disk.file? (wntsPath p)).map File.content = _
      rw [hc.hash]
      exact hr.file
  · rw [hrun, hb] at h
    obtain rfl := Option.some_inj.mp h
    refine ⟨?_, hr.first⟩
    show (c.disk.file? (wntsPath p)).map File.content = _
    rw [hc.hash]
    exact hr.file

/-- **One call.** -/
theorem Recorded.exact_iff_told (hr : Recorded p a) (hc : c.Finds p a) :
    Exact host p a c ↔ Told a c := by
  unfold Exact Told
  rw [hr.broadcasts_iff hc]
  cases hlast : a.broadcast with
  | none =>
    rw [hr.first hlast]
    simp
  | some last =>
    cases a.stored with
    | none => simp [eq_comm]
    | some stored =>
      have hsame : last = c.content ↔ c.content = last := eq_comm
      simp only [Option.some.injEq, forall_eq', ne_eq, hsame]
      exact not_iff_not

/-- While there is no folder for it, no hash is stored, and every call broadcasts. -/
theorem told_iff_isChain {calls : List ContentCall} (hp : 2 ≤ p.length) (hr : Recorded p a)
    (hstored : a.stored = none) (hno : ∀ c ∈ calls, wntsFolder p ∉ c.disk.dirs)
    (h : Along (next host p) (fun a c => c.Finds p a) a calls) :
    Along (next host p) Told a calls ↔
      (a.broadcast.toList ++ calls.map ContentCall.content).IsChain (· ≠ ·) := by
  induction calls generalizing a with
  | nil =>
    cases a.broadcast with
    | none => simp [Along]
    | some last => simp [Along]
  | cons c calls ih =>
    obtain ⟨hc, hrest⟩ := h
    obtain ⟨hnone, hno'⟩ := List.forall_mem_cons.mp hno
    have hopens := not_hashOpens host p hp hnone
    have hb : c.broadcasts host p = true := (hr.broadcasts_iff hc).mpr (by simp [hstored])
    have hnext : ∃ disk, a.next host p c = some ⟨disk, some c.content, none⟩ := by
      rcases hr.call_cases host hc with ⟨-, -, sent, disk, hrun, -⟩ | ⟨hb', -⟩
      · refine ⟨disk, ?_⟩
        rw [next, hrun, hb, hopens, hstored]
        rfl
      · rw [hb] at hb'
        cases hb'
    obtain ⟨disk, hnext⟩ := hnext
    have htold : Told a c ↔ ∀ last, a.broadcast = some last → c.content ≠ last := by
      unfold Told
      rw [hstored]
    rw [Along.cons_iff hnext, htold, ih (hr.next hc hnext) rfl hno' (hrest _ hnext)]
    cases a.broadcast with
    | none => simp
    | some last => simp [List.isChain_cons_cons, eq_comm]

end Account

/-- **Which calls broadcast.** Starting without a `.wnts` folder, in every sequence of calls about
a file all broadcast it exactly if its content is not the one last broadcast, if and only if it
never comes again while no hash is stored, and no other content has the hash that is stored. If
the folder is not created in between either, that is: if and only if no content comes twice in a
row. -/
theorem broadcasts_exact_iff (hp : 2 ≤ p.length) {disk : FileSystem}
    (hdisk : wntsFolder p ∉ disk.dirs) {calls : List ContentCall}
    (h : Along (Account.next host p) (fun a c => c.Finds p a) { disk } calls) :
    (Along (Account.next host p) (Account.Exact host p) { disk } calls ↔
      Along (Account.next host p) Account.Told { disk } calls) ∧
    ((∀ c ∈ calls, wntsFolder p ∉ c.disk.dirs) →
      (Along (Account.next host p) (Account.Exact host p) { disk } calls ↔
        (calls.map ContentCall.content).IsChain (· ≠ ·))) := by
  have hr : Account.Recorded p { disk } := by
    refine ⟨?_, fun _ => rfl⟩
    rw [(no_hash_file hp hdisk).1]
    rfl
  have hiff : Along (Account.next host p) (Account.Exact host p) { disk } calls ↔
      Along (Account.next host p) Account.Told { disk } calls :=
    Along.congr hr (fun _ _ hr hc => hr.exact_iff_told hc)
      (fun _ _ _ hr hc _ hnext => hr.next hc hnext) h
  exact ⟨hiff, fun hno => hiff.trans (Account.told_iff_isChain hp hr rfl hno h)⟩

end Calls

/-! ## A file that is saved again as it was -/

/-- A call about `docs/a`, where nothing else is. -/
def callWith (content : Bytes) : ContentCall where
  mtime _ := 0
  readings := ⟨0, 0, 0⟩
  disk := .docs ⟨content, 0o644⟩
  content

theorem wntsFolder_docs (f : File) : wntsFolder FileSystem.docsA ∉ (FileSystem.docs f).dirs := by
  have hdirs : (FileSystem.docs f).dirs = (FileSystem.docs ⟨[], 0⟩).dirs := rfl
  rw [hdirs]
  decide

theorem finds_callWith (last : Option Bytes) (old content : Bytes) :
    (callWith content).Finds FileSystem.docsA ⟨.docs ⟨old, 0o644⟩, last, none⟩ where
  file := ⟨0o644, FileSystem.file?_docs _ _⟩
  hash := by
    show (FileSystem.docs _).file? _ = (FileSystem.docs _).file? _
    rw [FileSystem.file?_docs, FileSystem.file?_docs]
    rfl
  noDir := (no_hash_file (by decide) (wntsFolder_docs _)).2.1

theorem next_first : Account.next reader FileSystem.docsA { disk := .docs ⟨[120], 0o644⟩ }
    (callWith [120]) = some ⟨.docs ⟨[120], 0o644⟩, some [120], none⟩ := rfl

/-- Both calls find the file, whatever the second content is. -/
theorem finds_twice (content : Bytes) :
    Along (Account.next reader FileSystem.docsA) (fun a c => c.Finds FileSystem.docsA a)
      { disk := .docs ⟨[120], 0o644⟩ } [callWith [120], callWith content] := by
  refine (Along.cons_iff next_first).mpr ⟨finds_callWith _ _ _, ?_⟩
  exact ⟨finds_callWith _ _ _, fun _ _ => trivial⟩

/-- Two contents, one after the other, are both broadcast. -/
theorem changed_broadcasts : Along (Account.next reader FileSystem.docsA)
    (Account.Exact reader FileSystem.docsA) { disk := .docs ⟨[120], 0o644⟩ }
    [callWith [120], callWith [121]] := by
  refine ((broadcasts_exact_iff reader FileSystem.docsA (by decide) (wntsFolder_docs _)
    (finds_twice [121])).2 ?_).mpr (by decide)
  intro c hc
  rcases List.mem_pair.mp hc with rfl | rfl
  · exact wntsFolder_docs _
  · exact wntsFolder_docs _

/-- A file that is saved again with the same content is broadcast again. -/
theorem unchanged_broadcasts : ¬ ∀ calls,
    Along (Account.next reader FileSystem.docsA) (fun a c => c.Finds FileSystem.docsA a)
      { disk := .docs ⟨[120], 0o644⟩ } calls →
    Along (Account.next reader FileSystem.docsA) (Account.Exact reader FileSystem.docsA)
      { disk := .docs ⟨[120], 0o644⟩ } calls := by
  intro h
  have hexact := h _ (finds_twice [120])
  have hsecond := ((Along.cons_iff next_first).mp hexact).2.1
  have hbroadcasts : (callWith [120]).broadcasts reader FileSystem.docsA = true := rfl
  exact hsecond.mp hbroadcasts rfl

end WhisperNet
