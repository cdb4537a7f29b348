import Mathlib.Tactic

/-! # Members of a struct

A struct is laid over the bits of its image, first member lowest. `Member` says that a getter and a
setter of the struct work on an interval of the image: reading takes the interval out, and writing
replaces its bits and no others. A struct is a member of itself, and members of a half of a pair are
members of the pair.
-/

namespace Layout

/-- A struct of two members of one type, in declaration order. -/
structure Pair (α : Type) where
  low : α
  high : α
deriving DecidableEq

namespace Pair

def map {α β : Type} (f : α → β) (pair : Pair α) : Pair β := ⟨f pair.low, f pair.high⟩

variable {n : ℕ}

/-- The image of a pair of words. -/
def join (pair : Pair (BitVec n)) : BitVec (n + n) := pair.high ++ pair.low

/-- The pair with an image. -/
def split (value : BitVec (n + n)) : Pair (BitVec n) := ⟨value.setWidth n, value.extractLsb' n n⟩

theorem getLsbD_join (pair : Pair (BitVec n)) (bit : ℕ) :
    pair.join.getLsbD bit = if bit < n then pair.low.getLsbD bit else pair.high.getLsbD (bit - n) :=
  BitVec.getLsbD_append

@[simp] theorem join_split (value : BitVec (n + n)) : (split value).join = value := by
  apply BitVec.eq_of_getLsbD_eq
  intro bit small
  rw [getLsbD_join, split]
  split_ifs with low
  · simp [low]
  · simp [show bit - n < n by omega, show n + (bit - n) = bit by omega]

/-- The halves of a pair may be structs with an image each. -/
theorem join_map_split {S : Type} {image : S → BitVec n} {put : BitVec n → S} (putImage : ∀ value, image (put value) = value)
    (value : BitVec (n + n)) : (((split value).map put).map image).join = value := by
  simp only [map, putImage]
  exact join_split value

end Pair

variable {S : Type} {n m : ℕ} {image : S → BitVec n} {get : S → BitVec m} {set : BitVec m → S → S} {offset : ℕ}

/-- A getter and a setter of the interval at an offset of the image. -/
structure Member (image : S → BitVec n) (get : S → BitVec m) (set : BitVec m → S → S) (offset : ℕ) : Prop where
  inside : offset + m ≤ n
  reads : ∀ (s : S) (bit : ℕ), bit < m → (get s).getLsbD bit = (image s).getLsbD (offset + bit)
  writes : ∀ (s : S) (value : BitVec m) (bit : ℕ), (image (set value s)).getLsbD bit =
    if offset ≤ bit ∧ bit < offset + m then value.getLsbD (bit - offset) else (image s).getLsbD bit

/-- A struct is a member of itself. -/
theorem Member.whole (put : BitVec n → S) (putImage : ∀ value, image (put value) = value) :
    Member image image (fun value _ => put value) 0 where
  inside := (Nat.zero_add n).le
  reads s bit _ := by rw [Nat.zero_add]
  writes s value bit := by
    rw [putImage]
    split_ifs with own
    · rfl
    · rw [BitVec.getLsbD_of_ge _ _ (by omega), BitVec.getLsbD_of_ge _ _ (by omega)]

/-- Members of the first half of a pair. -/
theorem Member.low (member : Member image get set offset) :
    Member (fun pair : Pair S => (pair.map image).join) (fun pair => get pair.low)
      (fun value pair => { pair with low := set value pair.low }) offset where
  inside := member.inside.trans (Nat.le_add_right n n)
  reads pair bit small := by
    have inside := member.inside
    rw [Pair.getLsbD_join, if_pos (by omega)]
    exact member.reads pair.low bit small
  writes pair value bit := by
    have inside := member.inside
    rw [Pair.getLsbD_join, Pair.getLsbD_join]
    by_cases first : bit < n
    · rw [if_pos first, if_pos first]
      exact member.writes pair.low value bit
    · rw [if_neg first, if_neg first, if_neg (by omega)]
      rfl

/-- Members of the second half of a pair. -/
theorem Member.high (member : Member image get set offset) :
    Member (fun pair : Pair S => (pair.map image).join) (fun pair => get pair.high)
      (fun value pair => { pair with high := set value pair.high }) (n + offset) where
  inside := by
    have inside := member.inside
    omega
  reads pair bit small := by
    rw [Pair.getLsbD_join, if_neg (by omega), Nat.add_assoc, Nat.add_sub_cancel_left]
    exact member.reads pair.high bit small
  writes pair value bit := by
    rw [Pair.getLsbD_join, Pair.getLsbD_join]
    by_cases first : bit < n
    · rw [if_pos first, if_pos first, if_neg (by omega)]
      rfl
    · have own : (offset ≤ bit - n ∧ bit - n < offset + m) ↔ (n + offset ≤ bit ∧ bit < n + offset + m) := by omega
      have written := member.writes pair.high value (bit - n)
      rw [if_neg first, if_neg first]
      refine written.trans ?_
      simp only [own, show bit - n - offset = bit - (n + offset) by omega]
      rfl

/-- Members of a member of a larger state. -/
theorem Member.field {T : Type} (member : Member image get set offset) {project : T → S}
    (replace : S → T → T) (projects : ∀ s t, project (replace s t) = s) :
    Member (fun t => image (project t)) (fun t => get (project t))
      (fun value t => replace (set value (project t)) t) offset where
  inside := member.inside
  reads t := member.reads (project t)
  writes t value bit := by
    rw [projects]
    exact member.writes (project t) value bit

end Layout
