import WhisperNet.Lib.FsPath

/-!
# What every part of the program uses

`include_everywhere.hpp` (the byte-sum `hash`, the clock conversions behind the timestamps), the
standard library's decimal and `ctime` renderings, and ZeroTier's addresses.

ZTCpp is not part of the repository. What the code relies on is a parameter, `Platform`: the tag
bytes of the two address families, which differ, the textual form of an address, and the size its
addresses give a `Message`.
-/

namespace WhisperNet

open Bin

/-! ## Addresses -/

/-- A valid `zt::IpAddress`, read in network order. -/
inductive IpAddress
  | ipv4 (addr : UInt32)
  | ipv6 (hi lo : UInt64)
  deriving DecidableEq, Repr

namespace IpAddress

def ipv4Unspecified : IpAddress := ipv4 0

def ipv6Unspecified : IpAddress := ipv6 0 0

def ipv4Loopback : IpAddress := ipv4 0x7f000001

def ipv6Loopback : IpAddress := ipv6 0 1

/-- `destination == ipv6Unspecified() || destination == ipv4Unspecified()` -/
def isUnspecified (ip : IpAddress) : Bool := ip == ipv6Unspecified || ip == ipv4Unspecified

/-- `destination == ipv6Loopback() || destination == ipv4Loopback()` -/
def isLoopback (ip : IpAddress) : Bool := ip == ipv6Loopback || ip == ipv4Loopback

end IpAddress

/-- The machine the program is built for, and what it uses of ZTCpp. -/
structure Platform where
  endian : Endian
  /-- `(uint8_t) zt::AddressFamily::IPv4` -/
  ipv4Family : UInt8
  /-- `(uint8_t) zt::AddressFamily::IPv6` -/
  ipv6Family : UInt8
  family_ne : ipv6Family ≠ ipv4Family
  /-- `zt::IpAddress::toString` -/
  ipToString : IpAddress → Bytes
  /-- `sizeof(Message)`. A `Message` holds a vtable pointer, its type, three addresses of 17 bytes
  at least, and its hash. -/
  sizeofMessage : Nat
  sizeofMessage_ge : 68 ≤ sizeofMessage

/-! ## Hashing -/

/-- A `char` promoted to `size_t`: the sign is extended. -/
def charToSize (c : UInt8) : UInt64 := c.toInt8.toInt64.toUInt64

/-- `::hash`: the sum of the characters. -/
def hash (str : Bytes) : UInt64 := str.foldl (fun hash c => hash + charToSize c) 0

theorem foldl_hash (str : Bytes) (h : UInt64) :
    str.foldl (fun hash c => hash + charToSize c) h = h + hash str := by
  induction str generalizing h with
  | nil => exact (UInt64.add_zero h).symm
  | cons c str ih =>
    rw [hash, List.foldl_cons, List.foldl_cons, ih, ih, UInt64.zero_add, UInt64.add_assoc]

@[simp] theorem hash_nil : hash [] = 0 := rfl

@[simp] theorem hash_append (a b : Bytes) : hash (a ++ b) = hash a + hash b := by
  rw [hash, List.foldl_append, foldl_hash]
  rfl

@[simp] theorem hash_cons (c : UInt8) (str : Bytes) :
    hash (c :: str) = charToSize c + hash str := by
  rw [hash, List.foldl_cons, foldl_hash, UInt64.zero_add]

/-- With associativity and commutativity, it brings sums into one order. -/
theorem sum_left_comm (a b c : UInt64) : a + (b + c) = b + (a + c) := by
  rw [← UInt64.add_assoc, UInt64.add_comm a b, UInt64.add_assoc]

/-! ## Text -/

/-- `std::to_string` of an unsigned number. -/
def toDecimal (n : Nat) : Bytes := (Nat.toDigits 10 n).map fun c => c.toNat.toUInt8

/-- `%.2d` of a number below 100. -/
def twoDigits (n : Nat) : Bytes := [48 + (n / 10).toUInt8, 48 + (n % 10).toUInt8]

/-- `%3d` of a day of the month. -/
def paddedDay (n : Nat) : Bytes :=
  [32, if n < 10 then 32 else 48 + (n / 10).toUInt8, 48 + (n % 10).toUInt8]

/-- `%d` of a year. -/
def signedDecimal : Int → Bytes
  | .ofNat n => toDecimal n
  | .negSucc n => 45 :: toDecimal (n + 1)

/-- `Sun` to `Sat`. -/
def dayName : Nat → Bytes
  | 0 => [83, 117, 110]
  | 1 => [77, 111, 110]
  | 2 => [84, 117, 101]
  | 3 => [87, 101, 100]
  | 4 => [84, 104, 117]
  | 5 => [70, 114, 105]
  | _ => [83, 97, 116]

/-- `Jan` to `Dec`, counted from 1. -/
def monthName : Nat → Bytes
  | 1 => [74, 97, 110]
  | 2 => [70, 101, 98]
  | 3 => [77, 97, 114]
  | 4 => [65, 112, 114]
  | 5 => [77, 97, 121]
  | 6 => [74, 117, 110]
  | 7 => [74, 117, 108]
  | 8 => [65, 117, 103]
  | 9 => [83, 101, 112]
  | 10 => [79, 99, 116]
  | 11 => [78, 111, 118]
  | _ => [68, 101, 99]

/-- Hexadecimal digits, without leading zeros. -/
def toHex (n : Nat) : Bytes := (Nat.toDigits 16 n).map fun c => c.toNat.toUInt8

/-! ## Time -/

/-- Year, month and day of a day counted from 1 January 1970. The years are counted from March,
so that the leap day comes last. -/
def civil (days : Int) : Int × Nat × Nat :=
  let z := days + 719468
  let doe := (z % 146097).toNat
  let yoe := (doe - doe / 1460 + doe / 36524 - doe / 146096) / 365
  let doy := doe - (365 * yoe + yoe / 4 - yoe / 100)
  let mp := (5 * doy + 2) / 153
  let day := doy - (153 * mp + 2) / 5 + 1
  let month := if mp < 10 then mp + 3 else mp - 9
  (z / 146097 * 400 + yoe + if month ≤ 2 then 1 else 0, month, day)

/-- The date part of `ctime`, on either side of the time of day. -/
def dateBefore (days : Int) : Bytes :=
  dayName ((days + 4) % 7).toNat ++ [32] ++ monthName (civil days).2.1 ++
    paddedDay (civil days).2.2 ++ [32]

def dateAfter (days : Int) : Bytes := [32] ++ signedDecimal (civil days).1 ++ [10]

/-- The time of day, `hh:mm:ss`. -/
def timeOfDay (s : Nat) : Bytes :=
  twoDigits (s / 3600) ++ [58] ++ twoDigits (s / 60 % 60) ++ [58] ++ twoDigits (s % 60)

/-- The clocks of one node: `drift` is `OutTP::clock::now()` minus `InTP::clock::now()` as
`convertTimepoint` reads them, in nanoseconds, and `zone` the offset of local time in seconds. -/
structure Clock where
  drift : Int
  zone : Int → Int

/-- `std::ctime`: the local time of `t` seconds since the epoch. -/
def ctime (clk : Clock) (t : Int) : Bytes :=
  let lt := t + clk.zone t
  dateBefore (lt / 86400) ++ timeOfDay (lt % 86400).toNat ++ dateAfter (lt / 86400)

/-- A `system_clock::time_point`: nanoseconds since the epoch. -/
abbrev TimePoint := Int64

/-- `convertTimepoint`: `tp - InTP::clock::now() + OutTP::clock::now()`. -/
def convertTimepoint (clk : Clock) (tp : TimePoint) : Int := tp.toInt + clk.drift

/-- `::to_time_t`: the converted time point in whole seconds, rounded towards zero. -/
def to_time_t (clk : Clock) (tp : TimePoint) : Int := (convertTimepoint clk tp).tdiv 1000000000

/-- `std::chrono::system_clock::to_time_t`. -/
def systemToTimeT (tp : TimePoint) : Int64 := tp / 1000000000

/-- `std::chrono::system_clock::from_time_t`. -/
def systemFromTimeT (t : Int64) : TimePoint := t * 1000000000

/-- A time point cut to whole seconds. -/
def truncateSeconds (tp : TimePoint) : TimePoint := systemFromTimeT (systemToTimeT tp)

theorem toInt_systemToTimeT (tp : TimePoint) :
    (systemToTimeT tp).toInt = tp.toInt.tdiv 1000000000 :=
  Int64.toInt_div_of_ne_right tp 1000000000 (by decide)

theorem toInt_truncateSeconds (tp : TimePoint) :
    (truncateSeconds tp).toInt = tp.toInt.tdiv 1000000000 * 1000000000 := by
  have hlo := tp.le_toInt
  have hhi := tp.toInt_lt
  have hconst : (1000000000 : Int64).toInt = 1000000000 := by decide
  -- Rounding towards zero keeps the value in range, on either side of the epoch.
  have hquot : tp.toInt.tdiv 1000000000 = tp.toInt / 1000000000 ∧ 0 ≤ tp.toInt ∨
      tp.toInt.tdiv 1000000000 = -(-tp.toInt / 1000000000) ∧ tp.toInt < 0 := by
    rcases le_or_gt 0 tp.toInt with h | h
    · exact Or.inl ⟨Int.tdiv_eq_ediv_of_nonneg h, h⟩
    · refine Or.inr ⟨?_, h⟩
      rw [← Int.tdiv_eq_ediv_of_nonneg (by omega), Int.neg_tdiv, neg_neg]
  rw [truncateSeconds, systemFromTimeT, Int64.toInt_mul, toInt_systemToTimeT, hconst]
  apply Int.bmod_eq_of_le <;> omega

/-! ## One machine -/

/-- The four numbers of an IPv4 address, and the eight groups of an IPv6 address. -/
def dotted (addr : UInt32) : Bytes :=
  [46].intercalate ([24, 16, 8, 0].map fun k => toDecimal (addr.toNat / 2 ^ k % 256))

def grouped (hi lo : UInt64) : Bytes :=
  [58].intercalate ([hi, lo].flatMap fun half =>
    [48, 32, 16, 0].map fun k => toHex (half.toNat / 2 ^ k % 65536))

/-- A little-endian machine. The unspecified IPv6 address reads as `::`, the loopback as `::1`. -/
def Platform.littleEndian : Platform where
  endian := .little
  ipv4Family := 2
  ipv6Family := 10
  family_ne := by decide
  ipToString
    | .ipv4 addr => dotted addr
    | .ipv6 hi lo =>
      if hi = 0 ∧ lo = 0 then [58, 58] else if hi = 0 ∧ lo = 1 then [58, 58, 49] else grouped hi lo
  sizeofMessage := 80
  sizeofMessage_ge := by decide

/-- A clock on UTC. -/
def Clock.utc (drift : Int) : Clock := ⟨drift, fun _ => 0⟩

end WhisperNet
