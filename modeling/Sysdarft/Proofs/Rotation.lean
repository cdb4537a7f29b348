import Sysdarft.Library.Rotation
import Sysdarft.Proofs.Arithmetic
import Sysdarft.Proofs.OperandFrame

/-! # Shifts and rotations

`rol` and `ror` are the rotations of the operation width, for every count. `shl` and `shr` shift 64-bit
values of the host, so they are total only as long as the count is one for which C++ defines the result.
-/

namespace Sysdarft

open Effects

variable {host : Host} {width : Width} {machine : Machine} {target count : Operand} {value n : Word}

/-- A store to the target does not show in the operand. -/
def Operand.Beside (operand : Operand) (machine : Machine) (target : Operand) : Prop :=
  ∀ value after, target.setVal value machine = .ok () after → operand.reading after = operand.reading machine

/-- What an instruction does that stores a result in its first operand and leaves the flags alone. -/
structure Stores (host : Host) (instruction : ActiveInstruction) (target : Operand) (result : Word)
    (machine after : Machine) : Prop where
  executed : dispatch host instruction machine = .ok () after
  stored : target.setVal result machine = .ok () after
  reads : target.reading after = some result
  flags : after.registers.FlagRegister = machine.registers.FlagRegister

/-- A value of the width that is stored to a place reads back. -/
theorem stores_of_dispatch {instruction : ActiveInstruction} {result : Word} (writable : target.Writable machine width)
    (small : result.toNat < 2 ^ width.bits)
    (runs : dispatch host instruction machine = target.setVal result machine) :
    ∃ after, Stores host instruction target result machine after := by
  obtain ⟨after, stores, flags, reads⟩ := writable.setVal result
  rw [Nat.mod_eq_of_lt small, BitVec.ofNat_toNat, BitVec.setWidth_eq] at reads
  exact ⟨after, runs.trans stores, stores, Operand.reading_eq_some.mpr reads, flags⟩

theorem Width.bits_pos (width : Width) : 0 < width.bits := by
  cases width <;> decide

/-! ## Rotations -/

/-- Both rotations: the operand, cut to the width, is rotated and stored. -/
theorem rotate_apply (rotation : (bits : ℕ) → BitVec bits → ℕ → BitVec bits) (width : Width)
    (known : target.getVal machine = .ok value machine) (counted : count.getVal machine = .ok n machine) :
    rotate rotation { width := width.bcd, operands := [target, count] } machine =
      target.setVal ((rotation width.bits (value.setWidth width.bits) n.toNat).setWidth 64) machine := by
  simp only [rotate, operationWidth, Width.ofBcd_bcd, Arguments.getVal, Arguments.setVal, Arguments.operand,
    List.getElem?_cons_zero, List.getElem?_cons_succ, pure_bind, bind_apply, known, counted]

/-- A word of the width, as operands hold it. -/
def Width.widen (width : Width) (word : BitVec width.bits) : Word := word.setWidth 64

@[simp] theorem Width.setWidth_widen (width : Width) (word : BitVec width.bits) :
    (width.widen word).setWidth width.bits = word := by
  rw [Width.widen, BitVec.setWidth_setWidth_of_le _ width.bits_le, BitVec.setWidth_eq]

theorem Width.widen_lt (width : Width) (word : BitVec width.bits) : (width.widen word).toNat < 2 ^ width.bits := by
  rw [Width.widen, BitVec.toNat_setWidth]
  exact lt_of_le_of_lt (Nat.mod_le ..) word.isLt

theorem Width.widen_setWidth (width : Width) (small : value.toNat < 2 ^ width.bits) :
    width.widen (value.setWidth width.bits) = value :=
  (trimmed_eq_iff width value).mpr small

theorem dispatch_rol (host : Host) (writable : target.Writable machine width)
    (known : target.getVal machine = .ok value machine) (counted : count.getVal machine = .ok n machine) :
    ∃ after, Stores host (Mnemonic.rol.sized width [target, count]) target
      (width.widen ((value.setWidth width.bits).rotateLeft n.toNat)) machine after := by
  apply stores_of_dispatch writable (width.widen_lt _)
  rw [dispatch_sized rfl]
  exact rotate_apply _ width known counted

theorem dispatch_ror (host : Host) (writable : target.Writable machine width)
    (known : target.getVal machine = .ok value machine) (counted : count.getVal machine = .ok n machine) :
    ∃ after, Stores host (Mnemonic.ror.sized width [target, count]) target
      (width.widen ((value.setWidth width.bits).rotateRight n.toNat)) machine after := by
  apply stores_of_dispatch writable (width.widen_lt _)
  rw [dispatch_sized rfl]
  exact rotate_apply _ width known counted

/-- The target has the stored value. -/
theorem Stores.getVal {instruction : ActiveInstruction} {result : Word} {after : Machine}
    (stores : Stores host instruction target result machine after) : target.getVal after = .ok result after :=
  Operand.reading_eq_some.mp stores.reads

/-- Operands beside the target have their own value. -/
theorem Stores.getVal_beside {instruction : ActiveInstruction} {result : Word} {after : Machine} {operand : Operand}
    (stores : Stores host instruction target result machine after) (beside : operand.Beside machine target)
    (counted : operand.getVal machine = .ok n machine) : operand.getVal after = .ok n after := by
  rw [← Operand.reading_eq_some, beside _ _ stores.stored, Operand.reading_eq_some]
  exact counted

theorem Stores.writable {instruction : ActiveInstruction} {result : Word} {after : Machine}
    (stores : Stores host instruction target result machine after) (writable : target.Writable machine width) :
    target.Writable after width :=
  writable.of_some stores.reads

theorem getLsbD_widen (width : Width) (word : BitVec width.bits) (bit : ℕ) (inside : bit < width.bits) :
    (width.widen word).getLsbD bit = word.getLsbD bit := by
  have wide := width.bits_le
  rw [Width.widen, BitVec.getLsbD_setWidth, decide_eq_true (show bit < 64 by omega), Bool.true_and]

/-- `rol` moves bit `i` to bit `i + n`, around the end, and `ror` undoes it, as `rol` undoes `ror`; two
rotations add up. No rotation changes a flag. -/
theorem rotations_exact (host : Host) (width : Width) (machine : Machine) (target count : Operand) (value n : Word)
    (writable : target.Writable machine width) (known : target.getVal machine = .ok value machine)
    (counted : count.getVal machine = .ok n machine) (beside : count.Beside machine target) :
    (∃ rotated result, Stores host (Mnemonic.rol.sized width [target, count]) target result machine rotated ∧
      (∀ bit < width.bits, result.getLsbD ((bit + n.toNat) % width.bits) = value.getLsbD bit) ∧
      (∃ restored, Stores host (Mnemonic.ror.sized width [target, count]) target value rotated restored) ∧
      ∀ (other : Operand) (m : Word), other.getVal machine = .ok m machine → other.Beside machine target →
        ∃ twice once total, Stores host (Mnemonic.rol.sized width [target, other]) target total rotated twice ∧
          Stores host (Mnemonic.rol.sized width
            [target, .constant (BitVec.ofNat 64 ((m.toNat + n.toNat) % width.bits)) width.bcd]) target total machine once) ∧
    ∃ rotated result, Stores host (Mnemonic.ror.sized width [target, count]) target result machine rotated ∧
      ∃ restored, Stores host (Mnemonic.rol.sized width [target, count]) target value rotated restored := by
  have small := (Operand.Readable.place writable).value_lt known
  constructor
  · obtain ⟨rotated, rotates⟩ := dispatch_rol host writable known counted
    refine ⟨rotated, _, rotates, ?_, ?_, ?_⟩
    · intro bit inside
      rw [getLsbD_widen _ _ _ (Nat.mod_lt _ (by omega)), Rotation.getLsbD_rotateLeft_add _ _ _ inside,
        BitVec.getLsbD_setWidth, decide_eq_true inside, Bool.true_and]
    · have back := dispatch_ror host (rotates.writable writable) rotates.getVal (rotates.getVal_beside beside counted)
      rwa [Width.setWidth_widen, Rotation.rotateRight_rotateLeft, width.widen_setWidth small] at back
    · intro other m counted' beside'
      obtain ⟨twice, again⟩ :=
        dispatch_rol host (rotates.writable writable) rotates.getVal (rotates.getVal_beside beside' counted')
      obtain ⟨once, single⟩ := dispatch_rol host writable known
        (show (Operand.constant (BitVec.ofNat 64 ((m.toNat + n.toNat) % width.bits)) width.bcd).getVal machine =
          .ok _ machine from rfl)
      have total : (BitVec.ofNat 64 ((m.toNat + n.toNat) % width.bits)).toNat = (m.toNat + n.toNat) % width.bits := by
        have below := Nat.mod_lt (m.toNat + n.toNat) width.bits_pos
        have wide := width.bits_le
        rw [BitVec.toNat_ofNat, Nat.mod_eq_of_lt (by omega)]
      rw [Width.setWidth_widen, Rotation.rotateLeft_rotateLeft, Nat.add_comm] at again
      rw [total, BitVec.rotateLeft_mod_eq_rotateLeft] at single
      exact ⟨twice, once, _, again, single⟩
  · obtain ⟨rotated, rotates⟩ := dispatch_ror host writable known counted
    refine ⟨rotated, _, rotates, ?_⟩
    have back := dispatch_rol host (rotates.writable writable) rotates.getVal (rotates.getVal_beside beside counted)
    rwa [Width.setWidth_widen, Rotation.rotateLeft_rotateRight, width.widen_setWidth small] at back

/-- Constants are beside every target, and so are operands of the same width apart from it. -/
theorem Operand.beside_constant (machine : Machine) (target : Operand) (value : Word) (widthBCD : Byte) :
    (Operand.constant value widthBCD).Beside machine target := by
  intro stored after stores
  rfl

theorem Operand.beside_of_apart {operand : Operand} (writable : target.Writable machine width)
    (readable : operand.Readable machine width) (apart : target.Apart width operand) : operand.Beside machine target := by
  intro stored after stores
  exact Operand.reading_setVal writable readable apart stores

/-- `ROL .8bit <%R0>, <%R1>` and `ROR .8bit <%R0>, <%R1>`, both registers at 129. -/
theorem rotations_exact_registers :
    ∃ rotated restored result,
      Stores Host.ample (Mnemonic.rol.sized .w8 [.ofRegister (registerOf .w8 0), .ofRegister (registerOf .w8 1)])
        (.ofRegister (registerOf .w8 0)) result (Machine.holding 0x8181) rotated ∧
      Stores Host.ample (Mnemonic.ror.sized .w8 [.ofRegister (registerOf .w8 0), .ofRegister (registerOf .w8 1)])
        (.ofRegister (registerOf .w8 0)) 0x81 rotated restored := by
  have loaded (index : Fin 2) : (Operand.ofRegister (registerOf .w8 (index.castLE (by decide)))).getVal
      (Machine.holding 0x8181) = .ok 0x81 (Machine.holding 0x8181) := by
    rw [getVal_register]
    congr 1
    revert index
    decide +kernel
  have apart : (Operand.ofRegister (registerOf .w8 0)).Apart .w8 (Operand.ofRegister (registerOf .w8 1)) := by
    simp [Operand.Apart, Operand.ofRegister, registerOf, Register.code]
  have writable (index : Fin 8) : (Operand.ofRegister (registerOf .w8 index)).Writable (Machine.holding 0x8181) .w8 :=
    .register (registerOf .w8 index)
  obtain ⟨⟨rotated, result, rotates, -, ⟨restored, restores⟩, -⟩, -⟩ := rotations_exact Host.ample .w8
    (Machine.holding 0x8181) (.ofRegister (registerOf .w8 0)) (.ofRegister (registerOf .w8 1)) 0x81 0x81 (writable 0)
    (loaded 0) (loaded 1) (Operand.beside_of_apart (writable 0) (.place (writable 1)) apart)
  exact ⟨rotated, restored, result, rotates, restores⟩

/-! ## Shifts -/

theorem binaryLogic_apply (operation : Word → Word → Word) (width : Width)
    (known : target.getVal machine = .ok value machine) (counted : count.getVal machine = .ok n machine) :
    binaryLogic operation { width := width.bcd, operands := [target, count] } machine =
      target.setVal (operation value n) machine := by
  simp only [binaryLogic, Arguments.getVal, Arguments.setVal, Arguments.operand, List.getElem?_cons_zero,
    List.getElem?_cons_succ, pure_bind, bind_apply, known, counted]

/-- The instruction leaves this number in its first operand. -/
def Leaves (host : Host) (instruction : ActiveInstruction) (target : Operand) (number : ℕ) (machine : Machine) : Prop :=
  ∃ after result, dispatch host instruction machine = .ok () after ∧ target.getVal after = .ok result after ∧
    result.toNat = number

theorem leaves_of_dispatch {instruction : ActiveInstruction} {computed : Word} (writable : target.Writable machine width)
    (runs : dispatch host instruction machine = target.setVal computed machine) :
    Leaves host instruction target (computed.toNat % 2 ^ width.bits) machine := by
  obtain ⟨after, stores, -, reads⟩ := writable.setVal computed
  refine ⟨after, _, runs.trans stores, reads, ?_⟩
  have wide : 2 ^ width.bits ≤ 2 ^ 64 := Nat.pow_le_pow_right (by decide) width.bits_le
  have small := Nat.mod_lt computed.toNat (show 0 < 2 ^ width.bits by positivity)
  rw [BitVec.toNat_ofNat, Nat.mod_eq_of_lt (by omega)]

theorem leaves_shl (host : Host) (writable : target.Writable machine width)
    (known : target.getVal machine = .ok value machine) (counted : count.getVal machine = .ok n machine) :
    Leaves host (Mnemonic.shl.sized width [target, count]) target
      ((if n.toNat < 64 then value <<< n.toNat else host.shiftsLeft value n).toNat % 2 ^ width.bits) machine := by
  apply leaves_of_dispatch writable
  rw [dispatch_sized rfl]
  exact binaryLogic_apply _ width known counted

theorem leaves_shr (host : Host) (writable : target.Writable machine width)
    (known : target.getVal machine = .ok value machine) (counted : count.getVal machine = .ok n machine) :
    Leaves host (Mnemonic.shr.sized width [target, count]) target
      ((if n.toNat < 64 then value >>> n.toNat else host.shiftsRight value n).toNat % 2 ^ width.bits) machine := by
  apply leaves_of_dispatch writable
  rw [dispatch_sized rfl]
  exact binaryLogic_apply _ width known counted

theorem Leaves.inj {instruction : ActiveInstruction} {first second : ℕ}
    (leaves : Leaves host instruction target first machine) (leaves' : Leaves host instruction target second machine) :
    first = second := by
  obtain ⟨after, result, runs, reads, rfl⟩ := leaves
  obtain ⟨_, _, runs', reads', rfl⟩ := leaves'
  obtain rfl := (EStateM.Result.ok.inj (runs.symm.trans runs')).2
  rw [(EStateM.Result.ok.inj (reads.symm.trans reads')).1]

/-- Both shifts are exact, whatever the host makes of the counts that C++ does not define. -/
def ShiftsTotally (width : Width) (target count : Operand) (a n : ℕ) (machine : Machine) : Prop :=
  ∀ host : Host, Leaves host (Mnemonic.shl.sized width [target, count]) target (a * 2 ^ n % 2 ^ width.bits) machine ∧
    Leaves host (Mnemonic.shr.sized width [target, count]) target (a / 2 ^ n) machine

/-- The shifts are total exactly for the counts below 64; between the width and 64 they already leave zero. -/
theorem shifts_total_iff (width : Width) (machine : Machine) (target count : Operand) (value n : Word)
    (writable : target.Writable machine width) (known : target.getVal machine = .ok value machine)
    (counted : count.getVal machine = .ok n machine) :
    ShiftsTotally width target count value.toNat n.toNat machine ↔ n.toNat < 64 := by
  constructor
  · intro total
    by_contra large
    -- a host that answers 1, where nothing of the value is left
    let host : Host := { Host.ample with shiftsLeft := fun _ _ => 1 }
    have left := leaves_shl host writable known counted
    rw [if_neg large] at left
    have none : value.toNat * 2 ^ n.toNat % 2 ^ width.bits = 0 := by
      have wide := width.bits_le
      exact Nat.mod_eq_zero_of_dvd (dvd_mul_of_dvd_right (Nat.pow_dvd_pow 2 (by omega)) _)
    have one : (1 : ℕ) % 2 ^ width.bits = 1 := Nat.mod_eq_of_lt (Nat.one_lt_two_pow width.bits_pos.ne')
    have same := (total host).1.inj left
    rw [none] at same
    exact absurd (same.trans one) (by decide)
  · intro small host
    have below := (Operand.Readable.place writable).value_lt known
    constructor
    · have divides : 2 ^ width.bits ∣ 2 ^ 64 := Nat.pow_dvd_pow 2 width.bits_le
      have left := leaves_shl host writable known counted
      rwa [if_pos small, BitVec.toNat_shiftLeft, Nat.shiftLeft_eq, Nat.mod_mod_of_dvd _ divides] at left
    · have right := leaves_shr host writable known counted
      have fits : value.toNat / 2 ^ n.toNat < 2 ^ width.bits := lt_of_le_of_lt (Nat.div_le_self ..) below
      rwa [if_pos small, BitVec.toNat_ushiftRight, Nat.shiftRight_eq_div_pow, Nat.mod_eq_of_lt fits] at right

/-- `SHL .8bit <%R0>, <$8(9)>` and `SHR .8bit <%R0>, <$8(9)>` leave zero. -/
theorem shifts_total_saturated :
    Leaves Host.ample (Mnemonic.shl.sized .w8 [.ofRegister (registerOf .w8 0), .constant 9 Width.w8.bcd])
        (.ofRegister (registerOf .w8 0)) 0 Machine.saturated ∧
      Leaves Host.ample (Mnemonic.shr.sized .w8 [.ofRegister (registerOf .w8 0), .constant 9 Width.w8.bcd])
        (.ofRegister (registerOf .w8 0)) 0 Machine.saturated := by
  exact (shifts_total_iff .w8 Machine.saturated (.ofRegister (registerOf .w8 0)) (.constant 9 Width.w8.bcd) 255 9
    (.register (registerOf .w8 0)) getVal_saturated rfl).mpr (by decide) Host.ample

/-- Where the host takes the count modulo 64, `SHL .64bit <%FER0>, <$64(64)>` does not clear the register. -/
theorem not_shifts_total_wide :
    ¬ ∀ (machine : Machine) (value n : Word),
      (Operand.ofRegister (registerOf .w64 0)).getVal machine = .ok value machine →
      Leaves Host.ample (Mnemonic.shl.sized .w64 [.ofRegister (registerOf .w64 0), .constant n Width.w64.bcd])
        (.ofRegister (registerOf .w64 0)) (value.toNat * 2 ^ n.toNat % 2 ^ 64) machine := by
  intro every
  have loaded : (Operand.ofRegister (registerOf .w64 0)).getVal (Machine.holding 1) = .ok 1 (Machine.holding 1) := by
    rw [getVal_register]
    congr 1
  have left := @leaves_shl .w64 (Machine.holding 1) (.ofRegister (registerOf .w64 0)) (.constant 64 Width.w64.bcd) 1 64
    Host.ample (.register (registerOf .w64 0)) loaded rfl
  have same := (every (Machine.holding 1) 1 64 loaded).inj left
  revert same
  decide +kernel

end Sysdarft
