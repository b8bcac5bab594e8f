import WhisperNet.Lib.Reader

/-!
# Byte formats

A format says which byte strings a value may be written as; there may be more than one. `Parses r F`
says that the reader `r` accepts exactly what begins with a value written in the format `F`, and
returns that value: what is written is read (`reads`), and what is read was written (`accepts`).

* `Parses.run_bind` — what the first of two readers has taken.
* `parses_many`, `parses_getNat` — fields of many values, and numbers.
-/

namespace Bin

variable {α β : Type}

/-- What a value may be written as. -/
abbrev Format (α : Type) := α → Bytes → Prop

/-- `r` reads the values of the format, and nothing else. -/
structure Parses (r : Reader α) (F : Format α) : Prop where
  reads : ∀ {a : α} {used : Bytes}, F a used → Reads r used a
  accepts : ∀ {bs : Bytes} {a : α} {rest : Bytes}, r.run bs = some (a, rest) →
    ∃ used, F a used ∧ bs = used ++ rest

namespace Parses

variable {r : Reader α} {F : Format α}

/-- The first of two readers has taken a value, and the second goes on behind it. -/
theorem run_bind (hr : Parses r F) {f : α → Reader β} {bs : Bytes} {b : β} {rest : Bytes}
    (h : (r >>= f).run bs = some (b, rest)) :
    ∃ a used left, F a used ∧ bs = used ++ left ∧ (f a).run left = some (b, rest) := by
  rw [StateT.run_bind] at h
  obtain ⟨⟨a, left⟩, hfirst, hrest⟩ := Option.bind_eq_some_iff.mp h
  obtain ⟨used, ha, hbs⟩ := hr.accepts hfirst
  exact ⟨a, used, left, ha, hbs, hrest⟩

/-- The last of several readers, from whose value the whole is built. -/
theorem run_last (hr : Parses r F) {f : α → β} {bs : Bytes} {b : β} {rest : Bytes}
    (h : (r >>= fun a => pure (f a)).run bs = some (b, rest)) :
    ∃ a used, F a used ∧ bs = used ++ rest ∧ f a = b := by
  obtain ⟨a, used, left, ha, hbs, hpure⟩ := hr.run_bind h
  obtain ⟨hb, rfl⟩ := Prod.mk.inj (Option.some_inj.mp hpure)
  exact ⟨a, used, ha, hbs, hb⟩

theorem run_map (hr : Parses r F) {f : α → β} {bs : Bytes} {b : β} {rest : Bytes}
    (h : (f <$> r).run bs = some (b, rest)) :
    ∃ a used, F a used ∧ bs = used ++ rest ∧ f a = b := by
  rw [StateT.run_map] at h
  obtain ⟨⟨a, left⟩, hfirst, hpair⟩ := Option.map_eq_some_iff.mp h
  obtain ⟨hb, rfl⟩ := Prod.mk.inj hpair
  obtain ⟨used, ha, hbs⟩ := hr.accepts hfirst
  exact ⟨a, used, ha, hbs, hb⟩

end Parses

/-! ## Fields -/

theorem parses_block (k : Nat) :
    Parses (block k) fun bs used => bs.length = k ∧ used = bs where
  reads := by
    rintro bs _ ⟨hlength, rfl⟩
    exact reads_block hlength
  accepts {bs a rest} h := by
    obtain ⟨hk, hpair⟩ := Option.ite_none_right_eq_some.mp h
    obtain ⟨rfl, rfl⟩ := Prod.mk.inj (Option.some_inj.mp hpair)
    exact ⟨_, ⟨List.length_take_of_le hk, rfl⟩, (List.take_append_drop k bs).symm⟩

/-- Values one after the other. -/
theorem parses_many {r : Reader α} {F : Format α} (hr : Parses r F) (k : Nat) :
    Parses (many r k) fun as used => as.length = k ∧ ∃ parts, List.Forall₂ F as parts ∧
      used = parts.flatten where
  reads := by
    rintro as _ ⟨rfl, parts, hparts, rfl⟩
    induction hparts with
    | nil => exact Reads.pure []
    | @cons a part as parts ha _ ih =>
      rw [List.flatten_cons]
      exact (hr.reads ha).bind (ih.map (a :: ·))
  accepts {bs as rest} h := by
    induction k generalizing bs as with
    | zero =>
      obtain ⟨rfl, rfl⟩ := Prod.mk.inj (Option.some_inj.mp h)
      exact ⟨[], ⟨rfl, [], .nil, rfl⟩, rfl⟩
    | succ k ih =>
      obtain ⟨a, used, left, ha, rfl, htail⟩ := hr.run_bind h
      rw [StateT.run_bind] at htail
      obtain ⟨⟨as', left'⟩, hrest, hpair⟩ := Option.bind_eq_some_iff.mp htail
      obtain ⟨rfl, rfl⟩ := Prod.mk.inj (Option.some_inj.mp hpair)
      obtain ⟨_, ⟨hlength, parts, hparts, rfl⟩, rfl⟩ := ih hrest
      refine ⟨used ++ parts.flatten, ⟨congrArg (· + 1) hlength, used :: parts, .cons ha hparts,
        rfl⟩, ?_⟩
      rw [List.append_assoc]

/-! ## Numbers -/

/-- Every number of this width has one form. -/
theorem parses_getNat (e : Endian) (k : Nat) :
    Parses (getNat e k) fun n used => n < 256 ^ k ∧ used = putNat e k n where
  reads := by
    rintro n _ ⟨hn, rfl⟩
    exact reads_getNat e hn
  accepts h := by
    obtain ⟨bytes, used, ⟨hlength, rfl⟩, hbs, rfl⟩ := (parses_block k).run_map h
    have horder : (e.order used).length = k := (e.length_order used).trans hlength
    refine ⟨used, ⟨horder ▸ bytesNat_lt _, ?_⟩, hbs⟩
    have hback := natBytes_bytesNat (e.order used)
    rw [horder] at hback
    rw [putNat, hback, Endian.order_order]

theorem parses_get8 : Parses get8 fun x used => used = put8 x where
  reads := by
    rintro x _ rfl
    exact reads_get8 x
  accepts h := by
    obtain ⟨bytes, used, ⟨hlength, rfl⟩, hbs, rfl⟩ := (parses_block 1).run_map h
    obtain ⟨x, rfl⟩ := List.length_eq_one_iff.mp hlength
    exact ⟨_, rfl, hbs⟩

theorem parses_get16 (e : Endian) : Parses (get16 e) fun x used => used = put16 e x where
  reads := by
    rintro x _ rfl
    exact reads_get16 e x
  accepts h := by
    obtain ⟨n, used, ⟨hn, rfl⟩, hbs, rfl⟩ := (parses_getNat e 2).run_map h
    refine ⟨_, ?_, hbs⟩
    rw [put16, UInt16.toNat_ofNat_of_lt' hn]

theorem parses_get32 (e : Endian) : Parses (get32 e) fun x used => used = put32 e x where
  reads := by
    rintro x _ rfl
    exact reads_get32 e x
  accepts h := by
    obtain ⟨n, used, ⟨hn, rfl⟩, hbs, rfl⟩ := (parses_getNat e 4).run_map h
    refine ⟨_, ?_, hbs⟩
    rw [put32, UInt32.toNat_ofNat_of_lt' hn]

theorem parses_get64 (e : Endian) : Parses (get64 e) fun x used => used = put64 e x where
  reads := by
    rintro x _ rfl
    exact reads_get64 e x
  accepts h := by
    obtain ⟨n, used, ⟨hn, rfl⟩, hbs, rfl⟩ := (parses_getNat e 8).run_map h
    refine ⟨_, ?_, hbs⟩
    rw [put64, UInt64.toNat_ofNat_of_lt' hn]

end Bin
