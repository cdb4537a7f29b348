import Sysdarft.Library.LittleEndian
import Sysdarft.Model.InstructionSet

/-! # The register file

`sysdarft_register_t` is a struct of thirty-two 64-bit words. The 8-, 16- and 32-bit registers are
slices of the first full registers. `image` and `ofImage` are the raw 256-byte view of the struct
that interruption frames store.
-/

namespace Sysdarft

/-- The flags the CPU uses, by their bit in the flag register. -/
inductive Flag where
  | carry | overflow | largerThan | lessThan | equal | interruptionMask
deriving DecidableEq, Repr

namespace Flag

def bit : Flag → ℕ
  | carry => 0
  | overflow => 1
  | largerThan => 2
  | lessThan => 3
  | equal => 4
  | interruptionMask => 5

theorem bit_lt (flag : Flag) : flag.bit < 64 := by
  cases flag <;> decide

theorem bit_inj {first second : Flag} : first.bit = second.bit ↔ first = second := by
  cases first <;> cases second <;> decide

end Flag

/-- Read a flag of a flag register. -/
def getFlag (flags : Word) (flag : Flag) : Bool := flags.getLsbD flag.bit

/-- Assign a flag of a flag register. -/
def setFlag (flags : Word) (flag : Flag) (bit : Bool) : Word :=
  if bit then flags ||| BitVec.twoPow 64 flag.bit else flags &&& ~~~ BitVec.twoPow 64 flag.bit

theorem getFlag_setFlag (flags : Word) (flag other : Flag) (bit : Bool) :
    getFlag (setFlag flags flag bit) other = if other = flag then bit else getFlag flags other := by
  have small := other.bit_lt
  by_cases same : other = flag
  · subst same
    cases bit <;> simp [getFlag, setFlag, small]
  · have apart : ¬ other.bit = flag.bit := fun equal => same (Flag.bit_inj.mp equal)
    cases bit <;> simp [getFlag, setFlag, same, apart, small]

/-- The register file. -/
structure Registers where
  FullyExtendedRegister : Fin 16 → Word
  FlagRegister : Word
  StackBase : Word
  StackPointer : Word
  CodeBase : Word
  InstructionPointer : Word
  DataBase : Word
  DataPointer : Word
  ExtendedBase : Word
  ExtendedPointer : Word
  CurrentProcedureStackPreservationSpace : Word
  ProtectedModeRegisters : Fin 6 → Word
deriving DecidableEq

namespace Registers

/-! ## Operand registers -/

/-- How many registers of a width share one full register. -/
def slices (width : Width) : ℕ := 64 / width.bits

/-- The full register that a general register is a part of. -/
def home (width : Width) (index : Fin width.registerCount) : Fin 16 :=
  ⟨index / slices width, lt_of_le_of_lt (Nat.div_le_self ..)
    (lt_of_lt_of_le index.isLt (by cases width <;> decide))⟩

/-- The lowest bit of a general register inside its full register. -/
def position (width : Width) (index : Fin width.registerCount) : ℕ :=
  width.bits * (index % slices width)

/-- `load` of a register an operand can name, zero-extended. -/
def load (registers : Registers) : Register → Word
  | .general width index =>
    ((registers.FullyExtendedRegister (home width index)).extractLsb' (position width index) width.bits).setWidth 64
  | .special .stackBase => registers.StackBase
  | .special .stackPointer => registers.StackPointer
  | .special .codeBase => registers.CodeBase
  | .special .dataBase => registers.DataBase
  | .special .dataPointer => registers.DataPointer
  | .special .extendedBase => registers.ExtendedBase
  | .special .extendedPointer => registers.ExtendedPointer

/-- Replace a slice of a word by the low bits of a value. -/
def replaceSlice (word : Word) (low count : ℕ) (value : Word) : Word :=
  let mask := (BitVec.allOnes count).setWidth 64 <<< low
  (word &&& ~~~ mask) ||| ((value <<< low) &&& mask)

/-- `store` to a general register: only its slice of the full register changes. -/
def storeGeneral (registers : Registers) (width : Width) (index : Fin width.registerCount) (value : Word) :
    Registers :=
  let full := registers.FullyExtendedRegister (home width index)
  let updated := replaceSlice full (position width index) width.bits value
  { registers with
    FullyExtendedRegister := Function.update registers.FullyExtendedRegister (home width index) updated }

/-- `store` to a register an operand can name; the value is truncated to the register. -/
def store (registers : Registers) (value : Word) : Register → Registers
  | .general width index => registers.storeGeneral width index value
  | .special .stackBase => { registers with StackBase := value }
  | .special .stackPointer => { registers with StackPointer := value }
  | .special .codeBase => { registers with CodeBase := value }
  | .special .dataBase => { registers with DataBase := value }
  | .special .dataPointer => { registers with DataPointer := value }
  | .special .extendedBase => { registers with ExtendedBase := value }
  | .special .extendedPointer => { registers with ExtendedPointer := value }

theorem position_add_le (width : Width) (index : Fin width.registerCount) :
    position width index + width.bits ≤ 64 := by
  have := Nat.mod_lt index.val (show slices width > 0 by cases width <;> decide)
  cases width <;> simp only [position, slices, Width.bits] at this ⊢ <;> omega

theorem extract_replaceSlice (word value : Word) (low count : ℕ) (fits : low + count ≤ 64) :
    ((replaceSlice word low count value).extractLsb' low count).setWidth 64 =
      (value.setWidth count).setWidth 64 := by
  apply BitVec.eq_of_getLsbD_eq
  intro i small
  by_cases inside : i < count
  · simp [replaceSlice, inside, small, show low + i < 64 by omega]
  · simp [inside]

/-- A stored register reads back the value, truncated to the register. -/
theorem load_store (registers : Registers) (value : Word) (register : Register) :
    (registers.store value register).load register = (value.setWidth register.width.bits).setWidth 64 := by
  cases register with
  | general width index =>
    simp only [load, store, storeGeneral, Function.update_self]
    exact extract_replaceSlice _ _ _ _ (position_add_le width index)
  | special register =>
    cases register <;> simp [load, store, Register.width, Width.bits]

/-! ## The raw image -/

/-- The words between the full registers and the protected mode registers. -/
def controlWords (registers : Registers) : List Word :=
  [registers.FlagRegister, registers.StackBase, registers.StackPointer, registers.CodeBase,
    registers.InstructionPointer, registers.DataBase, registers.DataPointer, registers.ExtendedBase,
    registers.ExtendedPointer, registers.CurrentProcedureStackPreservationSpace]

/-- The words of the struct, in declaration order. -/
def words (registers : Registers) : List Word :=
  List.ofFn registers.FullyExtendedRegister ++
    (registers.controlWords ++ List.ofFn registers.ProtectedModeRegisters)

/-- The 256 bytes of the struct. -/
def image (registers : Registers) : List Byte := LittleEndian.wordBytes registers.words

/-- The struct whose bytes are given. -/
def ofImage (bytes : List Byte) : Registers where
  FullyExtendedRegister := fun index => LittleEndian.wordAt bytes index
  FlagRegister := LittleEndian.wordAt bytes 16
  StackBase := LittleEndian.wordAt bytes 17
  StackPointer := LittleEndian.wordAt bytes 18
  CodeBase := LittleEndian.wordAt bytes 19
  InstructionPointer := LittleEndian.wordAt bytes 20
  DataBase := LittleEndian.wordAt bytes 21
  DataPointer := LittleEndian.wordAt bytes 22
  ExtendedBase := LittleEndian.wordAt bytes 23
  ExtendedPointer := LittleEndian.wordAt bytes 24
  CurrentProcedureStackPreservationSpace := LittleEndian.wordAt bytes 25
  ProtectedModeRegisters := fun index => LittleEndian.wordAt bytes (26 + index)

@[simp] theorem length_words (registers : Registers) : registers.words.length = 32 := by
  simp only [words, controlWords, List.length_append, List.length_ofFn, List.length_cons, List.length_nil]

@[simp] theorem length_image (registers : Registers) : registers.image.length = 256 := by
  rw [image, LittleEndian.length_wordBytes, length_words]

private theorem wordAt_image (registers : Registers) (index : ℕ) (inside : index < 32) :
    LittleEndian.wordAt registers.image index =
      registers.words.get ⟨index, by rw [length_words]; exact inside⟩ :=
  LittleEndian.wordAt_wordBytes ..

private theorem wordAt_image_full (registers : Registers) (index : Fin 16) :
    LittleEndian.wordAt registers.image index = registers.FullyExtendedRegister index := by
  rw [wordAt_image registers index (by omega), List.get_eq_getElem]
  simp only [words]
  rw [List.getElem_append_left (by rw [List.length_ofFn]; exact index.isLt), List.getElem_ofFn]

private theorem wordAt_image_control (registers : Registers) (index : ℕ) (low : 16 ≤ index) (high : index < 26) :
    LittleEndian.wordAt registers.image index = registers.controlWords.getD (index - 16) 0 := by
  have length : registers.controlWords.length = 10 := rfl
  rw [wordAt_image registers index (by omega), List.get_eq_getElem]
  simp only [words]
  rw [List.getElem_append_right (by rw [List.length_ofFn]; exact low),
    List.getElem_append_left (by rw [List.length_ofFn, length]; omega), List.getD_eq_getElem?_getD,
    List.getElem?_eq_getElem (by rw [length]; omega), Option.getD_some]
  simp only [List.length_ofFn]

private theorem wordAt_image_protected (registers : Registers) (index : Fin 6) :
    LittleEndian.wordAt registers.image (26 + index) = registers.ProtectedModeRegisters index := by
  have length : registers.controlWords.length = 10 := rfl
  rw [wordAt_image registers (26 + index) (by omega), List.get_eq_getElem]
  simp only [words]
  rw [List.getElem_append_right (by rw [List.length_ofFn]; omega),
    List.getElem_append_right (by rw [List.length_ofFn, length]; omega), List.getElem_ofFn]
  congr 1
  apply Fin.ext
  simp only [List.length_ofFn, length]
  omega

/-- The image determines the whole register file. -/
theorem ofImage_image (registers : Registers) : ofImage registers.image = registers := by
  have control := wordAt_image_control registers
  simp only [ofImage, wordAt_image_full, wordAt_image_protected]
  rw [control 16 (by decide) (by decide), control 17 (by decide) (by decide), control 18 (by decide) (by decide),
    control 19 (by decide) (by decide), control 20 (by decide) (by decide), control 21 (by decide) (by decide),
    control 22 (by decide) (by decide), control 23 (by decide) (by decide), control 24 (by decide) (by decide),
    control 25 (by decide) (by decide)]
  rfl

end Registers

end Sysdarft
