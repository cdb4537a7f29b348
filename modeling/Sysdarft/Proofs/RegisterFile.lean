import Sysdarft.Model.Register

/-! # Slices of the register file

The general registers of the narrow widths are slices of the full registers. A store changes the bits of
its slice and no others, so registers whose slices are apart do not see each other.
-/

namespace Sysdarft.Registers

/-- The bits of a word after a part of it is replaced. -/
theorem getLsbD_replaceSlice (word value : Word) (low count bit : ℕ) (fits : low + count ≤ 64) :
    (replaceSlice word low count value).getLsbD bit =
      if low ≤ bit ∧ bit < low + count then value.getLsbD (bit - low) else word.getLsbD bit := by
  by_cases small : bit < 64
  · by_cases above : low ≤ bit
    · by_cases inside : bit < low + count
      · simp [replaceSlice, above, inside, small, show ¬ bit < low by omega, show bit - low < count by omega,
          show bit - low < 64 by omega]
      · simp [replaceSlice, above, inside, small, show ¬ bit - low < count by omega]
    · simp [replaceSlice, above, small, show bit < low by omega]
  · have outside : ¬ (low ≤ bit ∧ bit < low + count) := fun inside => small (by omega)
    rw [if_neg outside, BitVec.getLsbD_of_ge _ _ (not_lt.mp small), BitVec.getLsbD_of_ge _ _ (not_lt.mp small)]

/-- A bit of the full registers belongs to a general register. -/
def InSlice (width : Width) (index : Fin width.registerCount) (full : Fin 16) (bit : ℕ) : Prop :=
  full = home width index ∧ position width index ≤ bit ∧ bit < position width index + width.bits

instance (width : Width) (index : Fin width.registerCount) (full : Fin 16) (bit : ℕ) :
    Decidable (InSlice width index full bit) :=
  inferInstanceAs (Decidable (_ ∧ _))

/-- A store changes the bits of its slice. -/
theorem getLsbD_store (registers : Registers) (value : Word) (width : Width) (index : Fin width.registerCount)
    (full : Fin 16) (bit : ℕ) :
    ((registers.store value (.general width index)).FullyExtendedRegister full).getLsbD bit =
      if InSlice width index full bit then value.getLsbD (bit - position width index)
      else (registers.FullyExtendedRegister full).getLsbD bit := by
  have fits := position_add_le width index
  simp only [store, storeGeneral]
  by_cases same : full = home width index
  · subst same
    rw [Function.update_self, getLsbD_replaceSlice _ _ _ _ _ fits]
    simp only [InSlice, true_and]
  · have outside : ¬ InSlice width index full bit := fun inside => same inside.1
    rw [Function.update_of_ne same, if_neg outside]

/-- The slices of two registers of one width. -/
theorem slices_apart {width : Width} {first second : Fin width.registerCount} (apart : first ≠ second) (full : Fin 16)
    (bit : ℕ) (inside : InSlice width first full bit) : ¬ InSlice width second full bit := by
  rintro ⟨home', low', high'⟩
  obtain ⟨home, low, high⟩ := inside
  apply apart
  rw [home] at home'
  have quotient : first.val / slices width = second.val / slices width := congrArg Fin.val home'
  have remainder : first.val % slices width = second.val % slices width := by
    have below : 0 < width.bits := by cases width <;> decide
    simp only [position] at low high low' high'
    rw [← Nat.mul_succ] at high high'
    have upper := lt_of_le_of_lt low high'
    have lower := lt_of_le_of_lt low' high
    have le := Nat.lt_succ_iff.mp (Nat.lt_of_mul_lt_mul_left upper)
    have ge := Nat.lt_succ_iff.mp (Nat.lt_of_mul_lt_mul_left lower)
    exact le_antisymm le ge
  apply Fin.ext
  rw [← Nat.div_add_mod first.val (slices width), quotient, remainder, Nat.div_add_mod]

/-- What a general register holds, by its bits. -/
theorem getLsbD_load (registers : Registers) (width : Width) (index : Fin width.registerCount) (bit : ℕ) :
    (registers.load (.general width index)).getLsbD bit =
      (decide (bit < width.bits) &&
        (registers.FullyExtendedRegister (home width index)).getLsbD (position width index + bit)) := by
  have wide : width.bits ≤ 64 := by cases width <;> decide
  by_cases inside : bit < width.bits
  · simp [load, inside, show bit < 64 by omega]
  · simp [load, inside]

/-- A store to another register of the same width. -/
theorem load_store_of_ne (registers : Registers) (value : Word) {width : Width}
    {first second : Fin width.registerCount} (apart : first ≠ second) :
    (registers.store value (.general width first)).load (.general width second) =
      registers.load (.general width second) := by
  apply BitVec.eq_of_getLsbD_eq
  intro bit _
  rw [getLsbD_load, getLsbD_load]
  by_cases inside : bit < width.bits
  · have own : InSlice width second (home width second) (position width second + bit) := ⟨rfl, by omega, by omega⟩
    rw [getLsbD_store, if_neg fun other => slices_apart apart _ _ other own]
  · simp [inside]

end Sysdarft.Registers
