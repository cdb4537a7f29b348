import Sysdarft.Model.RegisterStruct
import Sysdarft.Proofs.RegisterFile

/-! # The overlay is the register file

Every branch of `load` and `store` on the nested structs works on the interval of a full register where the
register file has that register, so the two have the same loads and the same stores.
-/

namespace Sysdarft.GeneralStruct

open Layout

/-- The register file with the struct as its general registers. -/
def registers (general : GeneralStruct) (others : Registers) : Registers :=
  { others with FullyExtendedRegister := general.load64 }

/-! ## Members -/

variable {m offset : ℕ}

private theorem byte : Member (fun value : Byte => value) (fun value => value) (fun value _ => value) 0 :=
  Member.whole (fun value => value) fun _ => rfl

private theorem short : Member (fun value : BitVec 16 => value) (fun value => value) (fun value _ => value) 0 :=
  Member.whole (fun value => value) fun _ => rfl

private theorem half : Member (fun value : BitVec 32 => value) (fun value => value) (fun value _ => value) 0 :=
  Member.whole (fun value => value) fun _ => rfl

/-- Two members behind a cast. -/
private theorem castPair {n : ℕ} : Member (Pair.join (n := n)) Pair.join (fun value _ => Pair.split value) 0 :=
  Member.whole _ Pair.join_split

/-- Four members behind a cast. -/
private theorem castPairs {n : ℕ} :
    Member (fun pairs : Pair (Pair (BitVec n)) => (pairs.map Pair.join).join) (fun pairs => (pairs.map Pair.join).join)
      (fun value _ => (Pair.split value).map Pair.split) 0 :=
  Member.whole _ (Pair.join_map_split Pair.join_split)

/-- Eight members behind a cast. -/
private theorem castFull {n : ℕ} :
    Member (fun full : Pair (Pair (Pair (BitVec n))) => (full.map fun half => (half.map Pair.join).join).join)
      (fun full => (full.map fun half => (half.map Pair.join).join).join)
      (fun value _ => (Pair.split value).map fun half => (Pair.split half).map Pair.split) 0 :=
  Member.whole _ (Pair.join_map_split (Pair.join_map_split Pair.join_split))

/-- A branch of `load` and `store` works on an interval of one full register and on no other. -/
structure Place (full : Fin 16) (get : GeneralStruct → BitVec m) (set : BitVec m → GeneralStruct → GeneralStruct)
    (offset : ℕ) : Prop where
  own : Member (fun general => general.load64 full) get set offset
  others : ∀ (general : GeneralStruct) (value : BitVec m) (other : Fin 16),
    other ≠ full → (set value general).load64 other = general.load64 other

private theorem Place.moved {full full' : Fin 16} {offset' : ℕ} {get : GeneralStruct → BitVec m}
    {set : BitVec m → GeneralStruct → GeneralStruct} (place : Place full get set offset) (same : full = full')
    (sameOffset : offset = offset') : Place full' get set offset' := by
  rw [← same, ← sameOffset]
  exact place

private theorem first {get : Pair (Pair (Pair Byte)) → BitVec m}
    {set : BitVec m → Pair (Pair (Pair Byte)) → Pair (Pair (Pair Byte))}
    (inner : Member (fun full => (full.map fun half => (half.map Pair.join).join).join) get set offset) :
    Place 0 (fun general => get general.FullyExtendedRegister0)
      (fun value general => { general with FullyExtendedRegister0 := set value general.FullyExtendedRegister0 })
      offset where
  own := inner.field (fun full (general : GeneralStruct) => { general with FullyExtendedRegister0 := full })
    fun _ _ => rfl
  others _ _
    | 0, apart => absurd rfl apart
    | 1, _ | 2, _ | 3, _ | ⟨_ + 4, _⟩, _ => rfl

private theorem second {get : Pair (Pair (BitVec 16)) → BitVec m}
    {set : BitVec m → Pair (Pair (BitVec 16)) → Pair (Pair (BitVec 16))}
    (inner : Member (fun full => (full.map Pair.join).join) get set offset) :
    Place 1 (fun general => get general.FullyExtendedRegister1)
      (fun value general => { general with FullyExtendedRegister1 := set value general.FullyExtendedRegister1 })
      offset where
  own := inner.field (fun full (general : GeneralStruct) => { general with FullyExtendedRegister1 := full })
    fun _ _ => rfl
  others _ _
    | 1, apart => absurd rfl apart
    | 0, _ | 2, _ | 3, _ | ⟨_ + 4, _⟩, _ => rfl

private theorem third {get : Pair (BitVec 32) → BitVec m} {set : BitVec m → Pair (BitVec 32) → Pair (BitVec 32)}
    (inner : Member Pair.join get set offset) :
    Place 2 (fun general => get general.FullyExtendedRegister2)
      (fun value general => { general with FullyExtendedRegister2 := set value general.FullyExtendedRegister2 })
      offset where
  own := inner.field (fun full (general : GeneralStruct) => { general with FullyExtendedRegister2 := full })
    fun _ _ => rfl
  others _ _
    | 2, apart => absurd rfl apart
    | 0, _ | 1, _ | 3, _ | ⟨_ + 4, _⟩, _ => rfl

private theorem fourth {get : Pair (BitVec 32) → BitVec m} {set : BitVec m → Pair (BitVec 32) → Pair (BitVec 32)}
    (inner : Member Pair.join get set offset) :
    Place 3 (fun general => get general.FullyExtendedRegister3)
      (fun value general => { general with FullyExtendedRegister3 := set value general.FullyExtendedRegister3 })
      offset where
  own := inner.field (fun full (general : GeneralStruct) => { general with FullyExtendedRegister3 := full })
    fun _ _ => rfl
  others _ _
    | 3, apart => absurd rfl apart
    | 0, _ | 1, _ | 2, _ | ⟨_ + 4, _⟩, _ => rfl

private theorem whole_index {index : ℕ} (small : index + 4 < 16) : index < 12 := by omega

theorem load64_whole (general : GeneralStruct) (index : ℕ) (small : index + 4 < 16) :
    general.load64 ⟨index + 4, small⟩ = general.whole ⟨index, whole_index small⟩ := rfl

/-- The registers that overlay nothing. -/
private theorem single (index : ℕ) (small : index + 4 < 16) :
    Place ⟨index + 4, small⟩ (fun general => general.load64 ⟨index + 4, small⟩)
      (fun value general => general.store64 value ⟨index + 4, small⟩) 0 where
  own :=
    { inside := le_refl 64
      reads := fun general bit _ => by rw [Nat.zero_add]
      writes := fun general value bit => by
        rw [load64_whole, store64]
        dsimp only
        rw [Function.update_self]
        split_ifs with inside
        · rfl
        · rw [BitVec.getLsbD_of_ge _ _ (by omega), BitVec.getLsbD_of_ge _ _ (by omega)] }
  others general value
    | 0, _ | 1, _ | 2, _ | 3, _ => rfl
    | ⟨other + 4, small⟩, apart => by
      rw [load64_whole, load64_whole, store64]
      dsimp only
      rw [Function.update_of_ne]
      intro same
      apply apart
      simpa using same

/-- A register is placed where the register file has it. -/
def Placed (width : Width) (index : Fin width.registerCount) : Prop :=
  Place (Registers.home width index) (fun general => general.member width index)
    (fun value general => general.assign width value index) (Registers.position width index)

theorem placed8 : (index : Fin 8) → Placed .w8 index
  | 0 => first byte.low.low.low
  | 1 => first byte.high.low.low
  | 2 => first byte.low.high.low
  | 3 => first byte.high.high.low
  | 4 => first byte.low.low.high
  | 5 => first byte.high.low.high
  | 6 => first byte.low.high.high
  | 7 => first byte.high.high.high

theorem placed16 : (index : Fin 8) → Placed .w16 index
  | 0 => first castPair.low.low
  | 1 => first castPair.high.low
  | 2 => first castPair.low.high
  | 3 => first castPair.high.high
  | 4 => second short.low.low
  | 5 => second short.high.low
  | 6 => second short.low.high
  | 7 => second short.high.high

theorem placed32 : (index : Fin 8) → Placed .w32 index
  | 0 => first castPairs.low
  | 1 => first castPairs.high
  | 2 => second castPair.low
  | 3 => second castPair.high
  | 4 => third half.low
  | 5 => third half.high
  | 6 => fourth half.low
  | 7 => fourth half.high

theorem placed64 : (index : Fin 16) → Placed .w64 index
  | 0 => first castFull
  | 1 => second castPairs
  | 2 => third castPair
  | 3 => fourth castPair
  | ⟨index + 4, small⟩ =>
    have position : Registers.position .w64 ⟨index + 4, small⟩ = 0 := by
      rw [Registers.position, show Registers.slices .w64 = 1 from rfl, Nat.mod_one, Nat.mul_zero]
    (single index small).moved (Fin.ext (Nat.div_one _)).symm position.symm

theorem placed : (width : Width) → (index : Fin width.registerCount) → Placed width index
  | .w8, index => placed8 index
  | .w16, index => placed16 index
  | .w32, index => placed32 index
  | .w64, index => placed64 index

/-! ## Loads and stores -/

variable (general : GeneralStruct) (others : Registers) (width : Width) (index : Fin width.registerCount)

theorem load_registers : (general.registers others).load (.general width index) = general.load width index := by
  apply BitVec.eq_of_getLsbD_eq
  intro bit small
  rw [Registers.getLsbD_load, load, BitVec.getLsbD_setWidth, decide_eq_true small, Bool.true_and]
  by_cases inside : bit < width.bits
  · rw [decide_eq_true inside, Bool.true_and, (placed width index).own.reads general bit inside]
    rfl
  · rw [decide_eq_false inside, Bool.false_and, BitVec.getLsbD_of_ge _ _ (not_lt.mp inside)]

theorem store_registers (value : Word) :
    (general.registers others).store value (.general width index) = (general.store value width index).registers others := by
  have full : ((general.registers others).store value (.general width index)).FullyExtendedRegister =
      (general.store value width index).load64 := by
    funext full
    apply BitVec.eq_of_getLsbD_eq
    intro bit _
    rw [Registers.getLsbD_store]
    by_cases home : full = Registers.home width index
    · subst home
      have written := (placed width index).own.writes general (value.setWidth width.bits) bit
      refine Eq.trans ?_ written.symm
      simp only [Registers.InSlice, true_and, BitVec.getLsbD_setWidth]
      split_ifs with inside
      · rw [decide_eq_true (by omega), Bool.true_and]
      · rfl
    · rw [if_neg fun inside => home inside.1]
      exact congrArg (·.getLsbD bit) ((placed width index).others general _ full home).symm
  calc (general.registers others).store value (.general width index)
      = { others with FullyExtendedRegister :=
            ((general.registers others).store value (.general width index)).FullyExtendedRegister } := rfl
    _ = (general.store value width index).registers others := by rw [full, registers]

/-- Every register file has such a struct. -/
theorem exists_registers (registers : Registers) : ∃ general : GeneralStruct, general.registers registers = registers := by
  let cut0 : Word → Pair (Pair (Pair Byte)) :=
    fun value => (Pair.split value).map fun half => (Pair.split half).map Pair.split
  refine ⟨⟨cut0 (registers.FullyExtendedRegister 0), (Pair.split (registers.FullyExtendedRegister 1)).map Pair.split,
    Pair.split (registers.FullyExtendedRegister 2), Pair.split (registers.FullyExtendedRegister 3),
    fun index => registers.FullyExtendedRegister ⟨index + 4, by omega⟩⟩, ?_⟩
  rw [GeneralStruct.registers]
  congr 1
  funext full
  match full with
  | 0 => exact Pair.join_map_split (Pair.join_map_split Pair.join_split) _
  | 1 => exact Pair.join_map_split Pair.join_split _
  | 2 => exact Pair.join_split _
  | 3 => exact Pair.join_split _
  | ⟨index + 4, _⟩ => rfl

end Sysdarft.GeneralStruct
