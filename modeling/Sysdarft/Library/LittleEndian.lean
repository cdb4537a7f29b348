import Mathlib.Tactic

/-! # Little-endian byte strings

Values cross memory as byte strings, least significant byte first. `bytes count value` truncates to
`count` bytes, `value` reads a string of any length, and the two are inverse on strings of a fixed
length and on values that fit it.
-/

namespace LittleEndian

/-- The `count` low bytes of a value. -/
def bytes : ℕ → ℕ → List (BitVec 8)
  | 0, _ => []
  | count + 1, value => BitVec.ofNat 8 value :: bytes count (value / 256)

/-- The value of a byte string. -/
def value : List (BitVec 8) → ℕ
  | [] => 0
  | byte :: rest => byte.toNat + 256 * value rest

@[simp] theorem length_bytes (count number : ℕ) : (bytes count number).length = count := by
  induction count generalizing number with
  | zero => rfl
  | succ count ih => rw [bytes, List.length_cons, ih]

/-- The bytes of an encoding, one by one. -/
theorem getElem?_bytes (count number index : ℕ) :
    (bytes count number)[index]? = if index < count then some (BitVec.ofNat 8 (number / 256 ^ index)) else none := by
  induction count generalizing number index with
  | zero => rfl
  | succ count ih =>
    cases index with
    | zero => simp [bytes]
    | succ index =>
      simp only [bytes, List.getElem?_cons_succ, ih, Nat.succ_lt_succ_iff, Nat.div_div_eq_div_mul, ← pow_succ']

theorem getElem_bytes {count number index : ℕ} (inside : index < (bytes count number).length) :
    (bytes count number)[index] = BitVec.ofNat 8 (number / 256 ^ index) := by
  rw [length_bytes] at inside
  apply Option.some.inj
  rw [← List.getElem?_eq_getElem, getElem?_bytes, if_pos inside]

/-- A bit of the value lies in the byte of its place. -/
theorem getLsbD_byte (number index bit : ℕ) (small : bit < 8) :
    (BitVec.ofNat 8 (number / 256 ^ index)).getLsbD bit = number.testBit (8 * index + bit) := by
  have power : 256 ^ index = 2 ^ (8 * index) := by rw [Nat.pow_mul]
  rw [BitVec.getLsbD_ofNat, power, Nat.testBit_div_two_pow, decide_eq_true small, Bool.true_and, Nat.add_comm]

theorem value_lt (string : List (BitVec 8)) : value string < 256 ^ string.length := by
  induction string with
  | nil => exact Nat.one_pos
  | cons byte rest ih =>
    have small : byte.toNat < 256 := byte.isLt
    rw [value, List.length_cons, pow_succ]
    omega

/-- Reading back an encoding yields the value modulo its width. -/
@[simp] theorem value_bytes (count number : ℕ) : value (bytes count number) = number % 256 ^ count := by
  induction count generalizing number with
  | zero => simp [bytes, value, Nat.mod_one]
  | succ count ih =>
    have split := Nat.mod_mul (a := 256) (b := 256 ^ count) (x := number)
    have low : (BitVec.ofNat 8 number).toNat = number % 256 := BitVec.toNat_ofNat ..
    rw [bytes, value, ih, low, ← split, ← pow_succ']

/-- Encoding the value of a string of the right length reproduces the string. -/
theorem bytes_value (string : List (BitVec 8)) : bytes string.length (value string) = string := by
  induction string with
  | nil => rfl
  | cons byte rest ih =>
    have small : byte.toNat < 256 := byte.isLt
    have low : BitVec.ofNat 8 (byte.toNat + 256 * value rest) = byte := by
      apply BitVec.eq_of_toNat_eq
      rw [BitVec.toNat_ofNat]
      omega
    have high : (byte.toNat + 256 * value rest) / 256 = value rest := by omega
    rw [value, List.length_cons, bytes, low, high, ih]

theorem bytes_mod (count number : ℕ) : bytes count (number % 256 ^ count) = bytes count number := by
  have inverse := bytes_value (bytes count number)
  rwa [length_bytes, value_bytes] at inverse

/-- Encodings of one width agree exactly when the values agree modulo that width. -/
theorem bytes_inj {count first second : ℕ} :
    bytes count first = bytes count second ↔ first % 256 ^ count = second % 256 ^ count := by
  constructor
  · intro same
    rw [← value_bytes, same, value_bytes]
  · intro same
    rw [← bytes_mod, same, bytes_mod]

/-- A string is determined by its length and value. -/
theorem value_inj {first second : List (BitVec 8)} (length : first.length = second.length)
    (same : value first = value second) : first = second := by
  rw [← bytes_value first, ← bytes_value second, length, same]

/-! ## Sequences of 64-bit words -/

/-- A struct of 64-bit words as it lies in memory. -/
def wordBytes (words : List (BitVec 64)) : List (BitVec 8) :=
  words.flatMap fun word => bytes 8 word.toNat

/-- One of the 64-bit words of such a struct. -/
def wordAt (string : List (BitVec 8)) (index : ℕ) : BitVec 64 :=
  BitVec.ofNat 64 (value ((string.drop (8 * index)).take 8))

@[simp] theorem length_wordBytes (words : List (BitVec 64)) : (wordBytes words).length = 8 * words.length := by
  induction words with
  | nil => rfl
  | cons word rest ih =>
    rw [wordBytes, List.flatMap_cons, List.length_append, length_bytes, List.length_cons]
    rw [wordBytes] at ih
    omega

/-- A byte of the struct belongs to one of its words. -/
theorem getElem?_wordBytes (words : List (BitVec 64)) (index : ℕ) :
    (wordBytes words)[index]? = words[index / 8]?.map fun word => BitVec.ofNat 8 (word.toNat / 256 ^ (index % 8)) := by
  induction words generalizing index with
  | nil => rfl
  | cons word rest ih =>
    have cut : wordBytes (word :: rest) = bytes 8 word.toNat ++ wordBytes rest := rfl
    rw [cut]
    by_cases first : index < 8
    · rw [List.getElem?_append_left (by rw [length_bytes]; exact first), getElem?_bytes, if_pos first,
        Nat.div_eq_of_lt first, Nat.mod_eq_of_lt first]
      rfl
    · have quotient : index / 8 = (index - 8) / 8 + 1 := by omega
      have remainder : index % 8 = (index - 8) % 8 := by omega
      rw [List.getElem?_append_right (by rw [length_bytes]; omega), length_bytes, ih, quotient, remainder,
        List.getElem?_cons_succ]

/-- Reading a word of the struct back. -/
theorem wordAt_wordBytes (words : List (BitVec 64)) (index : ℕ) (inside : index < words.length) :
    wordAt (wordBytes words) index = words[index] := by
  induction words generalizing index with
  | nil => simp at inside
  | cons word rest ih =>
    have cut : wordBytes (word :: rest) = bytes 8 word.toNat ++ wordBytes rest := rfl
    cases index with
    | zero =>
      rw [wordAt, cut, Nat.mul_zero, List.drop_zero, List.take_left' (length_bytes ..), value_bytes,
        List.getElem_cons_zero, Nat.mod_eq_of_lt (show word.toNat < 256 ^ 8 from word.isLt),
        BitVec.ofNat_toNat, BitVec.setWidth_eq]
    | succ index =>
      have shift : (wordBytes (word :: rest)).drop (8 * (index + 1)) = (wordBytes rest).drop (8 * index) := by
        rw [cut, Nat.mul_succ, Nat.add_comm, ← List.drop_drop, List.drop_left' (length_bytes ..)]
      rw [wordAt, shift, List.getElem_cons_succ]
      exact ih index (by simpa using inside)

end LittleEndian
