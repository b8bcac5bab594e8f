import Mathlib.Tactic

/-!
# Readers of byte strings

A reader consumes a prefix of a byte string and returns a value, or fails when the input is too
short. `Reads r bs a` says that `r` turns exactly the bytes `bs` into `a` and leaves whatever
follows untouched; the rules below compose it along the reader's own structure, so that a round
trip is proved field by field.

Integers are written at a fixed width in the byte order of the machine.
-/

namespace Bin

/-- A byte string. -/
abbrev Bytes := List UInt8

/-- A reader: the value read and the bytes left, or `none` on short input. -/
abbrev Reader (α : Type) := StateT Bytes Option α

variable {α β : Type}

/-! ## What a reader consumes -/

/-- `r` reads exactly `bs` as `a`, whatever follows. -/
def Reads (r : Reader α) (bs : Bytes) (a : α) : Prop :=
  ∀ rest, r.run (bs ++ rest) = some (a, rest)

theorem Reads.pure (a : α) : Reads (Pure.pure a : Reader α) [] a := fun _ => rfl

theorem Reads.bind {r : Reader α} {f : α → Reader β} {bs cs : Bytes} {a : α} {b : β}
    (hr : Reads r bs a) (hf : Reads (f a) cs b) : Reads (r >>= f) (bs ++ cs) b := by
  intro rest
  have hrun : (r >>= f).run (bs ++ cs ++ rest) =
      (r.run (bs ++ (cs ++ rest))).bind fun p => (f p.1).run p.2 := by
    rw [List.append_assoc]; rfl
  rw [hrun, hr]
  exact hf rest

/-- The rule for a reader that ends by rebuilding its value. -/
theorem Reads.map {r : Reader α} {bs : Bytes} {a : α} (f : α → β) (hr : Reads r bs a) :
    Reads (f <$> r) bs (f a) := by
  have h : Reads (r >>= fun x => Pure.pure (f x)) (bs ++ []) (f a) := hr.bind (Reads.pure _)
  rwa [List.append_nil] at h

/-- The whole input is consumed when it is exactly what the reader reads. -/
theorem Reads.run_eq {r : Reader α} {bs : Bytes} {a : α} (h : Reads r bs a) :
    r.run bs = some (a, []) := by
  simpa using h []

/-! ## Blocks of bytes -/

/-- The next `k` bytes. -/
def block (k : Nat) : Reader Bytes := fun bs =>
  if k ≤ bs.length then some (bs.take k, bs.drop k) else none

theorem reads_block {k : Nat} {bs : Bytes} (h : bs.length = k) : Reads (block k) bs bs := by
  intro rest
  subst h
  show (if _ then _ else _) = _
  rw [if_pos (by simp), List.take_left' rfl, List.drop_left' rfl]

/-- `k` values, one after the other. -/
def many (r : Reader α) : Nat → Reader (List α)
  | 0 => Pure.pure []
  | k + 1 => do
    let a ← r
    let as ← many r k
    Pure.pure (a :: as)

/-! ## Enough bytes -/

/-- `r` does not fail on an input of `k` bytes, and consumes no more than these. -/
def Within (k : Nat) (r : Reader α) : Prop :=
  ∀ bs : Bytes, k ≤ bs.length → ∃ a rest, r.run bs = some (a, rest) ∧ bs.length ≤ rest.length + k

theorem Within.bind {j k : Nat} {r : Reader α} {f : α → Reader β} (hr : Within j r)
    (hf : ∀ a, Within k (f a)) : Within (j + k) (r >>= f) := by
  intro bs hlen
  obtain ⟨a, rest, hrun, hrest⟩ := hr bs (by omega)
  obtain ⟨b, rest', hrun', hrest'⟩ := hf a rest (by omega)
  refine ⟨b, rest', ?_, by omega⟩
  rw [StateT.run_bind, hrun]
  exact hrun'

theorem Within.map {k : Nat} {r : Reader α} (f : α → β) (hr : Within k r) : Within k (f <$> r) := by
  intro bs hlen
  obtain ⟨a, rest, hrun, hrest⟩ := hr bs hlen
  refine ⟨f a, rest, ?_, hrest⟩
  rw [StateT.run_map, hrun]
  rfl

theorem Within.mono {j k : Nat} {r : Reader α} (hr : Within j r) (h : j ≤ k) : Within k r := by
  intro bs hlen
  obtain ⟨a, rest, hrun, hrest⟩ := hr bs (by omega)
  exact ⟨a, rest, hrun, by omega⟩

theorem within_block (k : Nat) : Within k (block k) := by
  intro bs hlen
  refine ⟨bs.take k, bs.drop k, if_pos hlen, ?_⟩
  rw [List.length_drop]
  omega

/-! ## Fixed-width integers -/

/-- The byte order of a machine. -/
inductive Endian
  | little
  | big
  deriving DecidableEq, Repr

/-- Little-endian bytes in the machine's order, and back. -/
def Endian.order : Endian → Bytes → Bytes
  | little, bs => bs
  | big, bs => bs.reverse

@[simp] theorem Endian.order_order (e : Endian) (bs : Bytes) : e.order (e.order bs) = bs := by
  cases e <;> simp [Endian.order]

@[simp] theorem Endian.length_order (e : Endian) (bs : Bytes) :
    (e.order bs).length = bs.length := by
  cases e <;> simp [Endian.order]

/-- The `k` low bytes of `n`, least significant first. -/
def natBytes : Nat → Nat → Bytes
  | 0, _ => []
  | k + 1, n => UInt8.ofNat n :: natBytes k (n / 256)

/-- The number whose bytes these are, least significant first. -/
def bytesNat : Bytes → Nat
  | [] => 0
  | b :: bs => b.toNat + 256 * bytesNat bs

@[simp] theorem length_natBytes (k n : Nat) : (natBytes k n).length = k := by
  induction k generalizing n with
  | zero => rfl
  | succ k ih => simp [natBytes, ih]

theorem bytesNat_natBytes (k n : Nat) : bytesNat (natBytes k n) = n % 256 ^ k := by
  induction k generalizing n with
  | zero => simp [natBytes, bytesNat, Nat.mod_one]
  | succ k ih =>
    have hlow : (UInt8.ofNat n).toNat = n % 256 := by simp
    rw [natBytes, bytesNat, ih, hlow, Nat.pow_succ', Nat.mod_mul]

theorem bytesNat_lt (bs : Bytes) : bytesNat bs < 256 ^ bs.length := by
  induction bs with
  | nil => exact Nat.one_pos
  | cons b bs ih =>
    have hb := b.toNat_lt
    rw [bytesNat, List.length_cons, Nat.pow_succ]
    omega

theorem natBytes_bytesNat (bs : Bytes) : natBytes bs.length (bytesNat bs) = bs := by
  induction bs with
  | nil => rfl
  | cons b bs ih =>
    have hb := b.toNat_lt
    have hlow : UInt8.ofNat (b.toNat + 256 * bytesNat bs) = b := by
      apply UInt8.toNat_inj.mp
      rw [UInt8.toNat_ofNat']
      omega
    have hrest : (b.toNat + 256 * bytesNat bs) / 256 = bytesNat bs := by omega
    rw [bytesNat, List.length_cons, natBytes, hlow, hrest, ih]

/-- Write `n` in `k` bytes. -/
def putNat (e : Endian) (k n : Nat) : Bytes := e.order (natBytes k n)

/-- Read a `k`-byte number. -/
def getNat (e : Endian) (k : Nat) : Reader Nat := (fun bs => bytesNat (e.order bs)) <$> block k

@[simp] theorem length_putNat (e : Endian) (k n : Nat) : (putNat e k n).length = k := by
  simp [putNat]

theorem bytesNat_putNat (e : Endian) {k n : Nat} (h : n < 256 ^ k) :
    bytesNat (e.order (putNat e k n)) = n := by
  rw [putNat, Endian.order_order, bytesNat_natBytes, Nat.mod_eq_of_lt h]

theorem reads_getNat (e : Endian) {k n : Nat} (h : n < 256 ^ k) :
    Reads (getNat e k) (putNat e k n) n := by
  have hread := (reads_block (length_putNat e k n)).map fun bs => bytesNat (e.order bs)
  rwa [bytesNat_putNat e h] at hread

def put8 (x : UInt8) : Bytes := [x]

def get8 : Reader UInt8 := (fun bs => bs.headD 0) <$> block 1

theorem within_get8 : Within 1 get8 := (within_block 1).map _

theorem reads_get8 (x : UInt8) : Reads get8 (put8 x) x := by
  have hblock : Reads (block 1) [x] [x] := reads_block rfl
  exact hblock.map fun bs => bs.headD 0

def put16 (e : Endian) (x : UInt16) : Bytes := putNat e 2 x.toNat

def get16 (e : Endian) : Reader UInt16 := UInt16.ofNat <$> getNat e 2

theorem reads_get16 (e : Endian) (x : UInt16) : Reads (get16 e) (put16 e x) x := by
  have h := (reads_getNat e (k := 2) x.toNat_lt).map UInt16.ofNat
  rwa [UInt16.ofNat_toNat] at h

def put32 (e : Endian) (x : UInt32) : Bytes := putNat e 4 x.toNat

def get32 (e : Endian) : Reader UInt32 := UInt32.ofNat <$> getNat e 4

theorem within_get32 (e : Endian) : Within 4 (get32 e) := ((within_block 4).map _).map _

theorem reads_get32 (e : Endian) (x : UInt32) : Reads (get32 e) (put32 e x) x := by
  have h := (reads_getNat e (k := 4) x.toNat_lt).map UInt32.ofNat
  rwa [UInt32.ofNat_toNat] at h

def put64 (e : Endian) (x : UInt64) : Bytes := putNat e 8 x.toNat

def get64 (e : Endian) : Reader UInt64 := UInt64.ofNat <$> getNat e 8

theorem within_get64 (e : Endian) : Within 8 (get64 e) := ((within_block 8).map _).map _

theorem reads_get64 (e : Endian) (x : UInt64) : Reads (get64 e) (put64 e x) x := by
  have h := (reads_getNat e (k := 8) x.toNat_lt).map UInt64.ofNat
  rwa [UInt64.ofNat_toNat] at h

@[simp] theorem length_put64 (e : Endian) (x : UInt64) : (put64 e x).length = 8 :=
  length_putNat e 8 _

end Bin
