import WhisperNet.Lib.Reader

/-!
# Changing one byte

A byte string is written field by field, and each of its bytes plays a role in a field. `Alters`
says what the string becomes when a byte of it is changed, depending on the role of that byte; the
rules below compose it along the writer, as `Reads` is composed along the reader.

* `Alters.append` — the byte is in the one field or in the other.
* `alters_putNat` — a number becomes another one.
* `run_many_short` — a size that has grown.
-/

namespace Bin

variable {α ρ : Type} {bs cs : Bytes} {roles roles' : List ρ} {b : UInt8}

/-- Where a byte is changed to `b`, the string becomes what `P` says for the role of the byte. -/
def Alters (bs : Bytes) (roles : List ρ) (b : UInt8) (P : ρ → Bytes → Prop) : Prop :=
  ∀ i role c, roles[i]? = some role → bs[i]? = some c → c ≠ b → P role (bs.set i b)

theorem Alters.nil (P : ρ → Bytes → Prop) : Alters bs [] b P := by
  intro i role c hrole
  cases hrole

/-- All bytes play one role. -/
theorem Alters.replicate {P : ρ → Bytes → Prop} {role : ρ} (n : Nat) (h : ∀ bs', P role bs') :
    Alters bs (List.replicate n role) b P := by
  intro i r c hr _ _
  obtain ⟨hlt, rfl⟩ := List.getElem?_eq_some_iff.mp hr
  rw [List.getElem_replicate]
  exact h _

theorem Alters.mono {P Q : ρ → Bytes → Prop} (h : Alters bs roles b P)
    (hPQ : ∀ role bs', P role bs' → Q role bs') : Alters bs roles b Q := by
  intro i role c hrole hc hne
  exact hPQ _ _ (h i role c hrole hc hne)

/-- A byte of two fields, one after the other. -/
theorem Alters.append {P : ρ → Bytes → Prop} (hlength : roles.length = bs.length)
    (h : Alters bs roles b fun role bs' => P role (bs' ++ cs))
    (h' : Alters cs roles' b fun role cs' => P role (bs ++ cs')) :
    Alters (bs ++ cs) (roles ++ roles') b P := by
  intro i role c hrole hc hne
  rcases Nat.lt_or_ge i bs.length with hi | hi
  · rw [List.getElem?_append_left (hlength ▸ hi)] at hrole
    rw [List.getElem?_append_left hi] at hc
    rw [List.set_append_left _ _ hi]
    exact h i role c hrole hc hne
  · rw [List.getElem?_append_right (hlength ▸ hi), hlength] at hrole
    rw [List.getElem?_append_right hi] at hc
    rw [List.set_append_right _ _ hi]
    exact h' _ role c hrole hc hne

/-- A byte of one of many fields. -/
theorem Alters.flatMap {save : α → Bytes} {parts : α → List ρ} {P : α → ρ → Bytes → Prop}
    (hlength : ∀ x, (parts x).length = (save x).length)
    (h : ∀ x, Alters (save x) (parts x) b (P x)) (xs : List α) :
    Alters (xs.flatMap save) (xs.flatMap parts) b fun role cs' => ∃ before x after bs',
      xs = before ++ x :: after ∧
      cs' = before.flatMap save ++ (bs' ++ after.flatMap save) ∧ P x role bs' := by
  induction xs with
  | nil => exact .nil _
  | cons x xs ih =>
    refine .append (hlength x) ((h x).mono ?_) (ih.mono ?_)
    · intro role bs' hP
      exact ⟨[], x, xs, bs', rfl, rfl, hP⟩
    · intro role cs' ⟨before, y, after, bs', hxs, hcs, hP⟩
      refine ⟨x :: before, y, after, bs', congrArg (x :: ·) hxs, ?_, hP⟩
      rw [hcs, List.flatMap_cons, List.append_assoc]

/-! ## Numbers -/

theorem alters_put8 (x : UInt8) (role : ρ) :
    Alters (put8 x) [role] b fun r bs' => r = role ∧ bs' = put8 b := by
  intro i r c hr hc _
  obtain rfl : i = 0 := by
    have hi := (List.getElem?_eq_some_iff.mp hr).1
    simpa using hi
  exact ⟨(Option.some_inj.mp hr).symm, rfl⟩

/-- The number that is read where byte `i` of the number `n` has been changed. -/
def alteredNat (e : Endian) (k n i : Nat) (b : UInt8) : Nat :=
  bytesNat (e.order ((putNat e k n).set i b))

theorem alteredNat_lt (e : Endian) (k n i : Nat) (b : UInt8) : alteredNat e k n i b < 256 ^ k := by
  have h := bytesNat_lt (e.order ((putNat e k n).set i b))
  rwa [Endian.length_order, List.length_set, length_putNat] at h

theorem putNat_alteredNat (e : Endian) (k n i : Nat) (b : UInt8) :
    putNat e k (alteredNat e k n i b) = (putNat e k n).set i b := by
  have h := natBytes_bytesNat (e.order ((putNat e k n).set i b))
  rw [Endian.length_order, List.length_set, length_putNat] at h
  rw [putNat, alteredNat, h, Endian.order_order]

/-- It is another number. -/
theorem alteredNat_ne {e : Endian} {k n i : Nat} {b c : UInt8} (hc : (putNat e k n)[i]? = some c)
    (hne : c ≠ b) : alteredNat e k n i b ≠ n := by
  intro heq
  have hset := putNat_alteredNat e k n i b
  rw [heq] at hset
  have hi := (List.getElem?_eq_some_iff.mp hc).1
  rw [hset, List.getElem?_set_self (by simpa using hi)] at hc
  exact hne (Option.some_inj.mp hc).symm

/-- The bytes of a number, each with the role it has by its place. -/
theorem alters_putNat (e : Endian) (k n : Nat) (role : Nat → ρ) :
    Alters (putNat e k n) ((List.range k).map role) b fun r bs' => ∃ i < k, r = role i ∧
      alteredNat e k n i b ≠ n ∧ bs' = putNat e k (alteredNat e k n i b) := by
  intro i r c hr hc hne
  rw [List.getElem?_map] at hr
  obtain ⟨j, hj, rfl⟩ := Option.map_eq_some_iff.mp hr
  obtain ⟨hlt, rfl⟩ := List.getElem?_eq_some_iff.mp hj
  rw [List.getElem_range]
  refine ⟨i, by simpa using hlt, rfl, alteredNat_ne hc hne, (putNat_alteredNat e k n i b).symm⟩

/-! ## Vectors -/

/-- No more values are read than there are. -/
theorem run_many_short {r : Reader α} {save : ρ → Bytes} {g : ρ → α} (hnil : r.run [] = none)
    {xs : List ρ} (hxs : ∀ x ∈ xs, Reads r (save x) (g x)) {n : Nat} (hn : xs.length < n) :
    (many r n).run (xs.flatMap save) = none := by
  induction xs generalizing n with
  | nil =>
    obtain ⟨n, rfl⟩ := Nat.exists_eq_add_one.mpr hn
    rw [many, StateT.run_bind, List.flatMap_nil, hnil]
    rfl
  | cons x xs ih =>
    obtain ⟨n, rfl⟩ := Nat.exists_eq_add_one.mpr (Nat.zero_lt_of_lt hn)
    have hrest := ih (fun y hy => hxs y (List.mem_cons_of_mem x hy)) (Nat.lt_of_succ_lt_succ hn)
    rw [many, StateT.run_bind, List.flatMap_cons, hxs x List.mem_cons_self]
    show ((many r n).run (xs.flatMap save)).bind _ = none
    rw [hrest]
    rfl

end Bin
