import Sysdarft.Library.Layout
import Sysdarft.Model.Register

/-! # The overlay of the general registers

The part of `sysdarft_register_t` where the narrow registers lie, as the nested structs of the source:
`FullyExtendedRegister0` is made of bytes, `FullyExtendedRegister1` of 16-bit and the next two of 32-bit
members. A register that is not a member is accessed by a cast of the struct it covers, whose first
member is the low half.
-/

namespace Sysdarft

open Layout

structure GeneralStruct where
  FullyExtendedRegister0 : Pair (Pair (Pair Byte))
  FullyExtendedRegister1 : Pair (Pair (BitVec 16))
  FullyExtendedRegister2 : Pair (BitVec 32)
  FullyExtendedRegister3 : Pair (BitVec 32)
  /-- `FullyExtendedRegister4` to `FullyExtendedRegister15`. -/
  whole : Fin 12 → Word

namespace GeneralStruct

/-! ## The branches of `load` -/

def load8 (general : GeneralStruct) : Fin 8 → Byte
  | 0 => general.FullyExtendedRegister0.low.low.low
  | 1 => general.FullyExtendedRegister0.low.low.high
  | 2 => general.FullyExtendedRegister0.low.high.low
  | 3 => general.FullyExtendedRegister0.low.high.high
  | 4 => general.FullyExtendedRegister0.high.low.low
  | 5 => general.FullyExtendedRegister0.high.low.high
  | 6 => general.FullyExtendedRegister0.high.high.low
  | 7 => general.FullyExtendedRegister0.high.high.high

def load16 (general : GeneralStruct) : Fin 8 → BitVec 16
  | 0 => general.FullyExtendedRegister0.low.low.join
  | 1 => general.FullyExtendedRegister0.low.high.join
  | 2 => general.FullyExtendedRegister0.high.low.join
  | 3 => general.FullyExtendedRegister0.high.high.join
  | 4 => general.FullyExtendedRegister1.low.low
  | 5 => general.FullyExtendedRegister1.low.high
  | 6 => general.FullyExtendedRegister1.high.low
  | 7 => general.FullyExtendedRegister1.high.high

def load32 (general : GeneralStruct) : Fin 8 → BitVec 32
  | 0 => (general.FullyExtendedRegister0.low.map Pair.join).join
  | 1 => (general.FullyExtendedRegister0.high.map Pair.join).join
  | 2 => general.FullyExtendedRegister1.low.join
  | 3 => general.FullyExtendedRegister1.high.join
  | 4 => general.FullyExtendedRegister2.low
  | 5 => general.FullyExtendedRegister2.high
  | 6 => general.FullyExtendedRegister3.low
  | 7 => general.FullyExtendedRegister3.high

def load64 (general : GeneralStruct) : Fin 16 → Word
  | 0 => (general.FullyExtendedRegister0.map fun half => (half.map Pair.join).join).join
  | 1 => (general.FullyExtendedRegister1.map Pair.join).join
  | 2 => general.FullyExtendedRegister2.join
  | 3 => general.FullyExtendedRegister3.join
  | ⟨index + 4, small⟩ => general.whole ⟨index, by omega⟩

/-! ## The branches of `store` -/

def store8 (general : GeneralStruct) (value : Byte) : Fin 8 → GeneralStruct
  | 0 => { general with FullyExtendedRegister0.low.low.low := value }
  | 1 => { general with FullyExtendedRegister0.low.low.high := value }
  | 2 => { general with FullyExtendedRegister0.low.high.low := value }
  | 3 => { general with FullyExtendedRegister0.low.high.high := value }
  | 4 => { general with FullyExtendedRegister0.high.low.low := value }
  | 5 => { general with FullyExtendedRegister0.high.low.high := value }
  | 6 => { general with FullyExtendedRegister0.high.high.low := value }
  | 7 => { general with FullyExtendedRegister0.high.high.high := value }

def store16 (general : GeneralStruct) (value : BitVec 16) : Fin 8 → GeneralStruct
  | 0 => { general with FullyExtendedRegister0.low.low := Pair.split value }
  | 1 => { general with FullyExtendedRegister0.low.high := Pair.split value }
  | 2 => { general with FullyExtendedRegister0.high.low := Pair.split value }
  | 3 => { general with FullyExtendedRegister0.high.high := Pair.split value }
  | 4 => { general with FullyExtendedRegister1.low.low := value }
  | 5 => { general with FullyExtendedRegister1.low.high := value }
  | 6 => { general with FullyExtendedRegister1.high.low := value }
  | 7 => { general with FullyExtendedRegister1.high.high := value }

def store32 (general : GeneralStruct) (value : BitVec 32) : Fin 8 → GeneralStruct
  | 0 => { general with FullyExtendedRegister0.low := (Pair.split value).map Pair.split }
  | 1 => { general with FullyExtendedRegister0.high := (Pair.split value).map Pair.split }
  | 2 => { general with FullyExtendedRegister1.low := Pair.split value }
  | 3 => { general with FullyExtendedRegister1.high := Pair.split value }
  | 4 => { general with FullyExtendedRegister2.low := value }
  | 5 => { general with FullyExtendedRegister2.high := value }
  | 6 => { general with FullyExtendedRegister3.low := value }
  | 7 => { general with FullyExtendedRegister3.high := value }

def store64 (general : GeneralStruct) (value : Word) : Fin 16 → GeneralStruct
  | 0 =>
    { general with
      FullyExtendedRegister0 := (Pair.split value).map fun half => (Pair.split half).map Pair.split }
  | 1 => { general with FullyExtendedRegister1 := (Pair.split value).map Pair.split }
  | 2 => { general with FullyExtendedRegister2 := Pair.split value }
  | 3 => { general with FullyExtendedRegister3 := Pair.split value }
  | ⟨index + 4, small⟩ => { general with whole := Function.update general.whole ⟨index, by omega⟩ value }

/-! ## The register tables -/

/-- `load` of a general register, of the type that `RegisterTypeIdentifier` has for it. -/
def member (general : GeneralStruct) : (width : Width) → Fin width.registerCount → BitVec width.bits
  | .w8, index => general.load8 index
  | .w16, index => general.load16 index
  | .w32, index => general.load32 index
  | .w64, index => general.load64 index

/-- `store` to a general register. -/
def assign (general : GeneralStruct) : (width : Width) → BitVec width.bits → Fin width.registerCount → GeneralStruct
  | .w8, value, index => general.store8 value index
  | .w16, value, index => general.store16 value index
  | .w32, value, index => general.store32 value index
  | .w64, value, index => general.store64 value index

/-- The table of `do_access_register_based_on_table` returns every type as `uint64_t`. -/
def load (general : GeneralStruct) (width : Width) (index : Fin width.registerCount) : Word :=
  (general.member width index).setWidth 64

/-- The table of `store_value_to_register_based_on_table` passes a `uint64_t` for every type. -/
def store (general : GeneralStruct) (value : Word) (width : Width) (index : Fin width.registerCount) : GeneralStruct :=
  general.assign width (value.setWidth width.bits) index

end GeneralStruct

end Sysdarft
