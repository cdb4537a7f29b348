import Sysdarft.Proofs.Rotation

/-! # Rotations through the carry

`rcl` and `rcr` rotate the word of the operand with the carry above it. A turn of `rcr` is a rotation by
one bit. A turn of `rcl` is one unless the carry is clear and it loses bits that a 64-bit operand has in
its upper half; a lost bit is not made up for, since every turn keeps the number of set bits or lowers
it. The count is cut to 32 bits before it is reduced, which only a word with that period does not notice.
-/

namespace Sysdarft

open Effects

/-! ## One turn -/

variable {bits : ℕ}

/-- The carry above the operand. -/
def carryWord (state : BitVec bits × Bool) : BitVec (bits + 1) := BitVec.cons state.2 state.1

theorem getLsbD_carryWord (state : BitVec bits × Bool) (bit : ℕ) :
    (carryWord state).getLsbD bit = if bit = bits then state.2 else state.1.getLsbD bit := by
  rw [carryWord, BitVec.getLsbD_cons]

theorem getLsbD_carryWord_top (value : BitVec bits) (cf : Bool) : (carryWord (value, cf)).getLsbD bits = cf := by
  rw [getLsbD_carryWord, if_pos rfl]

/-- The bit that `rcr` shifts in. -/
theorem getLsbD_topBit (cf : Bool) (bit : ℕ) (inside : bit < bits) :
    (((if cf then 1 <<< (bits - 1) else 0 : ℕ) : BitVec bits)).getLsbD bit = (cf && decide (bit + 1 = bits)) := by
  rw [BitVec.natCast_eq_ofNat, BitVec.getLsbD_ofNat, decide_eq_true inside, Bool.true_and]
  cases cf with
  | false => simp
  | true =>
    rw [if_pos rfl, Nat.one_shiftLeft, Nat.testBit_two_pow, Bool.true_and]
    apply decide_eq_decide.mpr
    omega

/-- A turn of `rcr` is a rotation by one bit. -/
theorem carryWord_rcrStep (nonempty : 0 < bits) (value : BitVec bits) (cf : Bool) :
    carryWord (rcrStep value cf) = (carryWord (value, cf)).rotateRight 1 := by
  apply BitVec.eq_of_getLsbD_eq
  intro bit inside
  rw [Rotation.getLsbD_rotateRight _ _ _ inside, getLsbD_carryWord, getLsbD_carryWord, rcrStep]
  by_cases carried : bit = bits
  · rw [if_pos carried, carried, Nat.mod_self, if_neg (show ¬ 0 = bits by omega)]
  · have below : bit < bits := by omega
    rw [if_neg carried, Nat.mod_eq_of_lt (by omega), BitVec.getLsbD_or, BitVec.getLsbD_ushiftRight, Nat.add_comm 1 bit,
      getLsbD_topBit cf bit below]
    by_cases top : bit + 1 = bits
    · rw [if_pos top, BitVec.getLsbD_of_ge value (bit + 1) (by omega), Bool.false_or, decide_eq_true top, Bool.and_true]
    · rw [if_neg top, decide_eq_false top, Bool.and_false, Bool.or_false]

/-- The mask of `rcl` is a 32-bit one, at every width. -/
theorem getLsbD_mask (bit : ℕ) (inside : bit < bits) :
    ((0xFFFFFFFE#32).setWidth bits).getLsbD bit = decide (1 ≤ bit ∧ bit < 32) := by
  have mask : ∀ bit < 32, (0xFFFFFFFE#32).getLsbD bit = decide (1 ≤ bit ∧ bit < 32) := by decide
  rw [BitVec.getLsbD_setWidth, decide_eq_true inside, Bool.true_and]
  by_cases small : bit < 32
  · exact mask bit small
  · rw [BitVec.getLsbD_of_ge _ _ (by omega), decide_eq_false (by omega)]

/-- What a turn of `rcl` leaves in every bit. -/
theorem getLsbD_rclStep (nonempty : 0 < bits) (value : BitVec bits) (cf : Bool) (bit : ℕ) (inside : bit < bits + 1) :
    (carryWord (rclStep value cf)).getLsbD bit =
      (((carryWord (value, cf)).rotateLeft 1).getLsbD bit && (cf || decide (bit < 32 ∨ bit = bits))) := by
  rw [Rotation.getLsbD_rotateLeft _ _ _ inside, getLsbD_carryWord, getLsbD_carryWord, rclStep,
    Nat.mod_eq_of_lt (show 1 < bits + 1 by omega), Nat.add_sub_cancel]
  rcases Nat.eq_zero_or_pos bit with rfl | positive
  · rw [Nat.zero_add, Nat.mod_eq_of_lt (by omega), if_pos rfl, if_neg (by omega)]
    cases cf <;> simp [nonempty]
  · have moved : (bit + bits) % (bits + 1) = bit - 1 := by
      have around : bit + bits = bit - 1 + (bits + 1) := by omega
      rw [around, Nat.add_mod_right, Nat.mod_eq_of_lt (by omega)]
    rw [moved, if_neg (show bit - 1 ≠ bits by omega)]
    by_cases carried : bit = bits
    · subst carried
      simp
    · have below : bit < bits := by omega
      have shifted : (value <<< 1).getLsbD bit = value.getLsbD (bit - 1) := by
        rw [BitVec.getLsbD_shiftLeft, decide_eq_true below, decide_eq_false (by omega)]
        simp
      rw [if_neg carried]
      cases cf with
      | false =>
        rw [if_neg nofun, BitVec.getLsbD_and, shifted, getLsbD_mask bit below, Bool.false_or]
        simp [carried]
        grind
      | true =>
        rw [if_pos rfl, BitVec.getLsbD_or, shifted, BitVec.ofNat_eq_ofNat, BitVec.getLsbD_one]
        simp
        omega

/-- A turn of `rcl` loses nothing: the carry is set, or the bits that come to the upper half are clear. -/
def KeepsTurn (word : BitVec (bits + 1)) : Prop :=
  word.getLsbD bits = true ∨ ∀ bit, 31 ≤ bit → bit + 1 < bits → word.getLsbD bit = false

theorem getLsbD_rotateLeft_one (word : BitVec (bits + 1)) (bit : ℕ) (inside : bit < bits) :
    (word.rotateLeft 1).getLsbD (bit + 1) = word.getLsbD bit := by
  rw [← Rotation.getLsbD_rotateLeft_add word 1 bit (by omega), Nat.mod_eq_of_lt (by omega)]

theorem carryWord_rclStep (nonempty : 0 < bits) {value : BitVec bits} {cf : Bool}
    (keeps : KeepsTurn (carryWord (value, cf))) :
    carryWord (rclStep value cf) = (carryWord (value, cf)).rotateLeft 1 := by
  apply BitVec.eq_of_getLsbD_eq
  intro bit inside
  rw [getLsbD_rclStep nonempty value cf bit inside]
  rcases keeps with carried | clear
  · rw [getLsbD_carryWord_top] at carried
    rw [carried, Bool.true_or, Bool.and_true]
  · by_cases upper : bit < 32 ∨ bit = bits
    · rw [decide_eq_true upper, Bool.or_true, Bool.and_true]
    · obtain ⟨before, rfl⟩ : ∃ before, bit = before + 1 := ⟨bit - 1, by omega⟩
      rw [getLsbD_rotateLeft_one _ _ (by omega), clear before (by omega) (by omega), Bool.false_and]

/-- A turn of `rcl` sets no bit that the rotation does not set. -/
theorem rclStep_subset (nonempty : 0 < bits) (value : BitVec bits) (cf : Bool) (bit : ℕ)
    (set : (carryWord (rclStep value cf)).getLsbD bit = true) :
    ((carryWord (value, cf)).rotateLeft 1).getLsbD bit = true := by
  by_cases inside : bit < bits + 1
  · rw [getLsbD_rclStep nonempty value cf bit inside, Bool.and_eq_true] at set
    exact set.1
  · rw [BitVec.getLsbD_of_ge _ _ (by omega)] at set
    exact absurd set nofun

theorem ones_rclStep_le (nonempty : 0 < bits) (value : BitVec bits) (cf : Bool) :
    Rotation.ones (carryWord (rclStep value cf)) ≤ Rotation.ones (carryWord (value, cf)) := by
  rw [← Rotation.ones_rotateLeft (carryWord (value, cf)) 1]
  exact Rotation.ones_le (rclStep_subset nonempty value cf)

/-- A turn that does not keep the word leaves fewer set bits. -/
theorem ones_rclStep_lt (nonempty : 0 < bits) {value : BitVec bits} {cf : Bool}
    (loses : ¬ KeepsTurn (carryWord (value, cf))) :
    Rotation.ones (carryWord (rclStep value cf)) < Rotation.ones (carryWord (value, cf)) := by
  rw [KeepsTurn, not_or, getLsbD_carryWord_top, Bool.not_eq_true] at loses
  obtain ⟨clear, lost⟩ := loses
  push Not at lost
  obtain ⟨bit, upper, below, set⟩ := lost
  rw [ne_eq, Bool.not_eq_false] at set
  rw [← Rotation.ones_rotateLeft (carryWord (value, cf)) 1]
  apply Rotation.ones_lt (rclStep_subset nonempty value cf) (show bit + 1 < bits + 1 by omega)
  · rw [getLsbD_rotateLeft_one _ _ (by omega)]
    exact set
  · rw [getLsbD_rclStep nonempty value cf _ (by omega), clear, Bool.false_or, decide_eq_false (by omega), Bool.and_false]

/-! ## The loop -/

theorem carryWord_rcr (nonempty : 0 < bits) (turns : ℕ) (value : BitVec bits) (cf : Bool) :
    carryWord (rotateTurns rcrStep turns value cf) = (carryWord (value, cf)).rotateRight turns := by
  induction turns generalizing value cf with
  | zero =>
    rw [rotateTurns, Rotation.rotateRight_zero]
  | succ turns ih =>
    have rest := ih (rcrStep value cf).1 (rcrStep value cf).2
    rw [Prod.mk.eta, carryWord_rcrStep nonempty, Rotation.rotateRight_rotateRight, Nat.add_comm 1 turns] at rest
    rw [rotateTurns]
    exact rest

theorem ones_rcl_le (nonempty : 0 < bits) (turns : ℕ) (value : BitVec bits) (cf : Bool) :
    Rotation.ones (carryWord (rotateTurns rclStep turns value cf)) ≤ Rotation.ones (carryWord (value, cf)) := by
  induction turns generalizing value cf with
  | zero => exact le_refl _
  | succ turns ih => exact (ih _ _).trans (ones_rclStep_le nonempty value cf)

/-- A turn that loses a bit shows at the end, in the number of set bits. -/
theorem keepsTurn_of_ones (nonempty : 0 < bits) {turns : ℕ} (value : BitVec bits) (cf : Bool)
    (same : Rotation.ones (carryWord (rotateTurns rclStep turns value cf)) = Rotation.ones (carryWord (value, cf))) :
    ∀ turn < turns, KeepsTurn ((carryWord (value, cf)).rotateLeft turn) := by
  induction turns generalizing value cf with
  | zero => exact fun turn below => absurd below (Nat.not_lt_zero turn)
  | succ turns ih =>
    rw [rotateTurns] at same
    by_cases keeps : KeepsTurn (carryWord (value, cf))
    · have first := carryWord_rclStep nonempty keeps
      have later := ih (rclStep value cf).1 (rclStep value cf).2 (by
        rw [Prod.mk.eta, first, Rotation.ones_rotateLeft]
        exact same)
      rw [Prod.mk.eta, first] at later
      intro turn below
      rcases Nat.eq_zero_or_pos turn with rfl | positive
      · rwa [Rotation.rotateLeft_zero]
      · obtain ⟨before, rfl⟩ : ∃ before, turn = 1 + before := ⟨turn - 1, by omega⟩
        rw [← Rotation.rotateLeft_rotateLeft]
        exact later before (by omega)
    · have fewer := (ones_rcl_le nonempty turns _ _).trans_lt (ones_rclStep_lt nonempty keeps)
      exact absurd same (Nat.ne_of_lt fewer)

/-- The `rcl` loop rotates the word exactly when no turn loses a bit. -/
theorem carryWord_rcl_iff (nonempty : 0 < bits) (turns : ℕ) (value : BitVec bits) (cf : Bool) :
    carryWord (rotateTurns rclStep turns value cf) = (carryWord (value, cf)).rotateLeft turns ↔
      ∀ turn < turns, KeepsTurn ((carryWord (value, cf)).rotateLeft turn) := by
  constructor
  · intro rotated
    apply keepsTurn_of_ones nonempty
    rw [rotated, Rotation.ones_rotateLeft]
  · intro all
    induction turns generalizing value cf with
    | zero =>
      rw [rotateTurns, Rotation.rotateLeft_zero]
    | succ turns ih =>
      have first := all 0 (by omega)
      rw [Rotation.rotateLeft_zero] at first
      have rest := ih (rclStep value cf).1 (rclStep value cf).2
      rw [Prod.mk.eta, carryWord_rclStep nonempty first, Rotation.rotateLeft_rotateLeft, Nat.add_comm 1 turns] at rest
      rw [rotateTurns]
      apply rest
      intro turn below
      rw [Rotation.rotateLeft_rotateLeft]
      exact all (1 + turn) (by omega)

/-- No turn of `rcl` loses a bit, told from the word before the first turn: each turn that brings a clear
carry finds the bits on their way to the upper half clear. -/
def KeepsWord (word : BitVec (bits + 1)) (turns : ℕ) : Prop :=
  ∀ turn < turns, word.getLsbD (bits - turn) = true ∨
    ∀ bit, 31 ≤ bit → bit + 1 < bits → word.getLsbD ((bit + (bits + 1 - turn)) % (bits + 1)) = false

theorem keepsTurn_rotateLeft_iff (word : BitVec (bits + 1)) {turn : ℕ} (inside : turn < bits + 1) :
    KeepsTurn (word.rotateLeft turn) ↔ word.getLsbD (bits - turn) = true ∨
      ∀ bit, 31 ≤ bit → bit + 1 < bits → word.getLsbD ((bit + (bits + 1 - turn)) % (bits + 1)) = false := by
  have top : (bits + (bits + 1 - turn)) % (bits + 1) = bits - turn := by
    have around : bits + (bits + 1 - turn) = bits - turn + (bits + 1) := by omega
    rw [around, Nat.add_mod_right, Nat.mod_eq_of_lt (by omega)]
  rw [KeepsTurn, Rotation.getLsbD_rotateLeft _ _ _ (by omega), Nat.mod_eq_of_lt inside, top]
  apply or_congr_right
  apply forall_congr'
  intro bit
  apply imp_congr_right
  intro _
  apply imp_congr_right
  intro below
  rw [Rotation.getLsbD_rotateLeft _ _ _ (by omega), Nat.mod_eq_of_lt inside]

/-- Only 64-bit operands have bits that a turn of `rcl` loses. -/
theorem keepsWord_of_le (narrow : bits ≤ 32) (word : BitVec (bits + 1)) (turns : ℕ) : KeepsWord word turns := by
  intro turn _
  right
  intro bit upper below
  omega

theorem carryWord_rcl_keeps (nonempty : 0 < bits) {turns : ℕ} (inside : turns < bits + 1) (value : BitVec bits)
    (cf : Bool) :
    carryWord (rotateTurns rclStep turns value cf) = (carryWord (value, cf)).rotateLeft turns ↔
      KeepsWord (carryWord (value, cf)) turns := by
  rw [carryWord_rcl_iff nonempty]
  apply forall_congr'
  intro turn
  apply imp_congr_right
  intro below
  exact keepsTurn_rotateLeft_iff _ (by omega)

/-- A rotation by the cut count is one by the whole count for words with the period of what is cut off. -/
theorem rotateLeft_cut_iff (word : BitVec (bits + 1)) (n : ℕ) :
    word.rotateLeft (n % 2 ^ 32 % (bits + 1)) = word.rotateLeft n ↔ Rotation.Periodic word (n - n % 2 ^ 32) := by
  have small := Nat.mod_le n (2 ^ 32)
  rw [BitVec.rotateLeft_mod_eq_rotateLeft, ← Rotation.rotateLeft_eq_iff word (n % 2 ^ 32), Nat.add_sub_cancel' small]

theorem rotateRight_cut_iff (word : BitVec (bits + 1)) (n : ℕ) :
    word.rotateRight (n % 2 ^ 32 % (bits + 1)) = word.rotateRight n ↔ Rotation.Periodic word (n - n % 2 ^ 32) := by
  have small := Nat.mod_le n (2 ^ 32)
  rw [BitVec.rotateRight_mod_eq_rotateRight, ← Rotation.rotateRight_eq_iff word (n % 2 ^ 32),
    Nat.add_sub_cancel' small]

/-- The `rcl` loop is the rotation by the whole count exactly when it loses neither a bit nor a turn. -/
theorem carryWord_rcl_exact_iff (nonempty : 0 < bits) (n : ℕ) (value : BitVec bits) (cf : Bool) :
    carryWord (rotateTurns rclStep (n % 2 ^ 32 % (bits + 1)) value cf) = (carryWord (value, cf)).rotateLeft n ↔
      Rotation.Periodic (carryWord (value, cf)) (n - n % 2 ^ 32) ∧
        KeepsWord (carryWord (value, cf)) (n % 2 ^ 32 % (bits + 1)) := by
  have inside : n % 2 ^ 32 % (bits + 1) < bits + 1 := Nat.mod_lt _ (by omega)
  rw [← rotateLeft_cut_iff, ← carryWord_rcl_keeps nonempty inside]
  constructor
  · intro exact
    -- No bit is lost at the end, so none is lost on the way.
    have ones := congrArg Rotation.ones exact
    rw [Rotation.ones_rotateLeft] at ones
    have keeps : carryWord (rotateTurns rclStep (n % 2 ^ 32 % (bits + 1)) value cf) =
        (carryWord (value, cf)).rotateLeft (n % 2 ^ 32 % (bits + 1)) := by
      rw [carryWord_rcl_iff nonempty]
      exact keepsTurn_of_ones nonempty _ _ ones
    exact ⟨keeps.symm.trans exact, keeps⟩
  · rintro ⟨cut, keeps⟩
    exact keeps.trans cut

/-! ## The instructions -/

/-- The state with another carry. -/
def Machine.carrying (machine : Machine) (cf : Bool) : Machine :=
  { machine with
    registers := { machine.registers with FlagRegister := setFlag machine.registers.FlagRegister .carry cf } }

variable {host : Host} {width : Width} {machine : Machine} {target count : Operand} {value n : Word}

theorem Operand.Writable.carrying (writable : target.Writable machine width) (cf : Bool) :
    target.Writable (machine.carrying cf) width := by
  cases writable with
  | register register => exact .register register
  | memory inside => exact .memory inside

/-- Both rotations: the turns are taken on the operand, cut to the width, and the carry. -/
theorem rotateCarry_apply (turn : {bits : ℕ} → BitVec bits → Bool → BitVec bits × Bool) (width : Width)
    (known : target.getVal machine = .ok value machine) (counted : count.getVal machine = .ok n machine) :
    rotateCarry turn { width := width.bcd, operands := [target, count] } machine =
      let turned :=
        rotateTurns turn (n.toNat % 2 ^ 32 % (width.bits + 1)) (value.setWidth width.bits) machine.carry
      target.setVal (width.widen turned.1) (machine.carrying turned.2) := by
  simp only [rotateCarry, operationWidth, Width.ofBcd_bcd, Arguments.getVal, Arguments.setVal, Arguments.operand,
    List.getElem?_cons_zero, List.getElem?_cons_succ, pure_bind, bind_apply, known, counted, loadFlag, getRegisters,
    get_apply, pure_apply, storeFlags, modifyRegisters, modify_apply]
  rfl

/-- The instruction leaves this word in the carry and the operand. -/
def LeavesWord (host : Host) (instruction : ActiveInstruction) (width : Width) (target : Operand)
    (word : BitVec (width.bits + 1)) (machine after : Machine) : Prop :=
  dispatch host instruction machine = .ok () after ∧
    ∃ result, target.getVal after = .ok (width.widen result) after ∧ carryWord (result, after.carry) = word

theorem leavesWord_of_dispatch {instruction : ActiveInstruction} {turned : BitVec width.bits × Bool}
    (writable : target.Writable machine width)
    (runs : dispatch host instruction machine = target.setVal (width.widen turned.1) (machine.carrying turned.2)) :
    ∃ after, LeavesWord host instruction width target (carryWord turned) machine after := by
  obtain ⟨after, stores, flags, reads⟩ := (writable.carrying turned.2).setVal (width.widen turned.1)
  rw [Nat.mod_eq_of_lt (width.widen_lt turned.1), BitVec.ofNat_toNat, BitVec.setWidth_eq] at reads
  refine ⟨after, runs.trans stores, turned.1, reads, ?_⟩
  rw [Machine.carry, flags, Machine.carrying, getFlag_setFlag]
  rfl

theorem dispatch_rcl (host : Host) (writable : target.Writable machine width)
    (known : target.getVal machine = .ok value machine) (counted : count.getVal machine = .ok n machine) :
    ∃ after, LeavesWord host (Mnemonic.rcl.sized width [target, count]) width target
      (carryWord (rotateTurns rclStep (n.toNat % 2 ^ 32 % (width.bits + 1)) (value.setWidth width.bits) machine.carry))
      machine after := by
  apply leavesWord_of_dispatch writable
  rw [dispatch_sized rfl]
  exact rotateCarry_apply rclStep width known counted

theorem dispatch_rcr (host : Host) (writable : target.Writable machine width)
    (known : target.getVal machine = .ok value machine) (counted : count.getVal machine = .ok n machine) :
    ∃ after, LeavesWord host (Mnemonic.rcr.sized width [target, count]) width target
      ((carryWord (value.setWidth width.bits, machine.carry)).rotateRight (n.toNat % 2 ^ 32 % (width.bits + 1)))
      machine after := by
  rw [← carryWord_rcr width.bits_pos]
  apply leavesWord_of_dispatch writable
  rw [dispatch_sized rfl]
  exact rotateCarry_apply rcrStep width known counted

/-- An instruction leaves one word. -/
theorem LeavesWord.unique {instruction : ActiveInstruction} {word word' : BitVec (width.bits + 1)} {after after' : Machine}
    (first : LeavesWord host instruction width target word machine after)
    (second : LeavesWord host instruction width target word' machine after') : word = word' ∧ after = after' := by
  obtain ⟨runs, result, reads, rfl⟩ := first
  obtain ⟨runs', result', reads', rfl⟩ := second
  rw [runs] at runs'
  obtain rfl := (EStateM.Result.ok.inj runs').2
  rw [reads] at reads'
  have same := congrArg (BitVec.setWidth width.bits) (EStateM.Result.ok.inj reads').1
  rw [Width.setWidth_widen, Width.setWidth_widen] at same
  subst same
  exact ⟨rfl, rfl⟩

/-- `rcl` and `rcr` rotate the word of the carry and the operand by the count, bit by bit, and `rcr`
undoes `rcl`. -/
def RotatesThroughCarry (host : Host) (width : Width) (target count : Operand) (value n : Word) (machine : Machine) :
    Prop :=
  let word := carryWord (value.setWidth width.bits, machine.carry)
  ∃ left, LeavesWord host (Mnemonic.rcl.sized width [target, count]) width target
      ((fun word : BitVec (width.bits + 1) => word.rotateLeft 1)^[n.toNat] word) machine left ∧
    (∃ right, LeavesWord host (Mnemonic.rcr.sized width [target, count]) width target
      ((fun word : BitVec (width.bits + 1) => word.rotateRight 1)^[n.toNat] word) machine right) ∧
    ∀ other : Operand, other.getVal left = .ok n left →
      ∃ restored, LeavesWord host (Mnemonic.rcr.sized width [target, other]) width target word left restored

/-- The rotations through the carry are exact exactly when `rcl` loses no bit and the turns that the cut
count leaves out do not show. -/
theorem rotateCarry_exact_iff (host : Host) (width : Width) (machine : Machine) (target count : Operand) (value n : Word)
    (writable : target.Writable machine width) (known : target.getVal machine = .ok value machine)
    (counted : count.getVal machine = .ok n machine) :
    RotatesThroughCarry host width target count value n machine ↔
      Rotation.Periodic (carryWord (value.setWidth width.bits, machine.carry)) (n.toNat - n.toNat % 2 ^ 32) ∧
        KeepsWord (carryWord (value.setWidth width.bits, machine.carry)) (n.toNat % 2 ^ 32 % (width.bits + 1)) := by
  obtain ⟨left, turnsLeft⟩ := dispatch_rcl host writable known counted
  obtain ⟨right, turnsRight⟩ := dispatch_rcr host writable known counted
  constructor
  · rintro ⟨left', exactLeft, -, -⟩
    rw [Rotation.iterate_rotateLeft] at exactLeft
    exact (carryWord_rcl_exact_iff width.bits_pos ..).mp (turnsLeft.unique exactLeft).1
  · rintro ⟨periodic, keeps⟩
    have exactLeft := (carryWord_rcl_exact_iff width.bits_pos n.toNat _ _).mpr ⟨periodic, keeps⟩
    have exactRight := (rotateRight_cut_iff _ _).mpr periodic
    rw [exactLeft] at turnsLeft
    rw [exactRight] at turnsRight
    refine ⟨left, ?_, ⟨right, ?_⟩, ?_⟩
    · rw [Rotation.iterate_rotateLeft]
      exact turnsLeft
    · rw [Rotation.iterate_rotateRight]
      exact turnsRight
    · intro other counted'
      obtain ⟨-, result, reads, word⟩ := turnsLeft
      obtain ⟨restored, turnsBack⟩ :=
        dispatch_rcr host (writable.of_some (Operand.reading_eq_some.mpr reads)) reads counted'
      have undone : (carryWord (result, left.carry)).rotateRight (n.toNat % 2 ^ 32 % (width.bits + 1)) =
          carryWord (value.setWidth width.bits, machine.carry) := by
        rw [word, ← (rotateLeft_cut_iff _ _).mpr periodic, Rotation.rotateRight_rotateLeft]
      rw [Width.setWidth_widen, undone] at turnsBack
      exact ⟨restored, turnsBack⟩

/-- `RCL .8bit <%R0>, <$8(1)>` with all bits of the register set. -/
theorem rotateCarry_exact_saturated :
    RotatesThroughCarry Host.ample .w8 (.ofRegister (registerOf .w8 0)) (.constant 1 Width.w8.bcd) 255 1
      Machine.saturated := by
  apply (rotateCarry_exact_iff Host.ample .w8 Machine.saturated (.ofRegister (registerOf .w8 0))
    (.constant 1 Width.w8.bcd) 255 1 (.register (registerOf .w8 0)) getVal_saturated rfl).mpr
  constructor
  · exact Rotation.periodic_zero _
  · exact keepsWord_of_le (by decide) _ _

/-- `RCL .64bit <%FER0>, <$64(1)>` on `0x80000000` with the carry clear leaves zero. -/
theorem not_rotateCarry_exact :
    ¬ ∀ (machine : Machine) (value : Word), (Operand.ofRegister (registerOf .w64 0)).getVal machine = .ok value machine →
      RotatesThroughCarry Host.ample .w64 (.ofRegister (registerOf .w64 0)) (.constant 1 Width.w64.bcd) value 1
        machine := by
  intro every
  have loaded : (Operand.ofRegister (registerOf .w64 0)).getVal (Machine.holding 0x80000000) =
      .ok 0x80000000 (Machine.holding 0x80000000) := by
    rw [getVal_register]
    congr 1
  obtain ⟨left', exactLeft, -⟩ := every (Machine.holding 0x80000000) 0x80000000 loaded
  have writable : (Operand.ofRegister (registerOf .w64 0)).Writable (Machine.holding 0x80000000) .w64 :=
    .register (registerOf .w64 0)
  obtain ⟨left, turnsLeft⟩ := dispatch_rcl Host.ample writable loaded
    (show (Operand.constant 1 Width.w64.bcd).getVal (Machine.holding 0x80000000) = .ok 1 _ from rfl)
  have words := (turnsLeft.unique exactLeft).1
  revert words
  decide +kernel

end Sysdarft
