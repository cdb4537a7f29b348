import Mathlib.Tactic

/-! # Rotations of bit strings

A rotation moves every bit by the count, around the ends. Rotations compose by adding their counts, and
a count matters only modulo the length.
-/

namespace Rotation

variable {w : ℕ}

/-- A bit of a rotated string is found the count before it. -/
theorem getLsbD_rotateLeft (x : BitVec w) (n i : ℕ) (inside : i < w) :
    (x.rotateLeft n).getLsbD i = x.getLsbD ((i + (w - n % w)) % w) := by
  have below : n % w < w := Nat.mod_lt n (by omega)
  rw [BitVec.getLsbD_rotateLeft, Bool.cond_decide]
  generalize n % w = turn at below ⊢
  split_ifs with wrapped
  · rw [Nat.mod_eq_of_lt (by omega), Nat.add_comm]
  · have around : i + (w - turn) = i - turn + w := by omega
    rw [around, Nat.add_mod_right, Nat.mod_eq_of_lt (by omega)]
    simp [inside]

theorem getLsbD_rotateRight (x : BitVec w) (n i : ℕ) (inside : i < w) :
    (x.rotateRight n).getLsbD i = x.getLsbD ((i + n) % w) := by
  have below : n % w < w := Nat.mod_lt n (by omega)
  rw [← Nat.add_mod_mod, BitVec.getLsbD_rotateRight, Bool.cond_decide]
  generalize n % w = turn at below ⊢
  split_ifs with wrapped
  · rw [Nat.mod_eq_of_lt (by omega), Nat.add_comm]
  · have around : i + turn = i - (w - turn) + w := by omega
    rw [around, Nat.add_mod_right, Nat.mod_eq_of_lt (by omega)]
    simp [inside]

/-- A left rotation moves bit `i` to bit `i + n`, around the end. -/
theorem getLsbD_rotateLeft_add (x : BitVec w) (n i : ℕ) (inside : i < w) :
    (x.rotateLeft n).getLsbD ((i + n) % w) = x.getLsbD i := by
  have below : n % w < w := Nat.mod_lt n (by omega)
  rw [getLsbD_rotateLeft x n _ (Nat.mod_lt _ (by omega)), Nat.mod_add_mod]
  congr 1
  have total : i + n + (w - n % w) = i + w * (n / w) + w := by
    have split := Nat.div_add_mod n w
    omega
  rw [total, Nat.add_mod_right, Nat.add_mul_mod_self_left, Nat.mod_eq_of_lt inside]

theorem rotateRight_rotateLeft (x : BitVec w) (n : ℕ) : (x.rotateLeft n).rotateRight n = x := by
  apply BitVec.eq_of_getLsbD_eq
  intro i inside
  rw [getLsbD_rotateRight _ _ _ inside, getLsbD_rotateLeft_add _ _ _ inside]

theorem rotateLeft_rotateRight (x : BitVec w) (n : ℕ) : (x.rotateRight n).rotateLeft n = x := by
  apply BitVec.eq_of_getLsbD_eq
  intro i inside
  have below : n % w < w := Nat.mod_lt n (by omega)
  rw [getLsbD_rotateLeft _ _ _ inside, getLsbD_rotateRight _ _ _ (Nat.mod_lt _ (by omega)), Nat.mod_add_mod]
  congr 1
  have total : i + (w - n % w) + n = i + w * (n / w) + w := by
    have split := Nat.div_add_mod n w
    omega
  rw [total, Nat.add_mod_right, Nat.add_mul_mod_self_left, Nat.mod_eq_of_lt inside]

theorem rotateLeft_rotateLeft (x : BitVec w) (n m : ℕ) : (x.rotateLeft n).rotateLeft m = x.rotateLeft (n + m) := by
  rw [← rotateLeft_rotateRight ((x.rotateLeft n).rotateLeft m) (n + m)]
  congr 1
  apply BitVec.eq_of_getLsbD_eq
  intro i inside
  rw [getLsbD_rotateRight _ _ _ inside, ← Nat.add_assoc, ← Nat.mod_add_mod,
    getLsbD_rotateLeft_add _ _ _ (Nat.mod_lt _ (by omega)), getLsbD_rotateLeft_add _ _ _ inside]

theorem rotateLeft_zero (x : BitVec w) : x.rotateLeft 0 = x := by
  apply BitVec.eq_of_getLsbD_eq
  intro i inside
  rw [getLsbD_rotateLeft _ _ _ inside, Nat.zero_mod, Nat.sub_zero, Nat.add_mod_right, Nat.mod_eq_of_lt inside]

/-- Rotating by one bit, over and over. -/
theorem iterate_rotateLeft (x : BitVec w) (n : ℕ) : (fun word : BitVec w => word.rotateLeft 1)^[n] x = x.rotateLeft n := by
  induction n with
  | zero =>
    rw [Function.iterate_zero, id_eq, rotateLeft_zero]
  | succ n ih => rw [Function.iterate_succ_apply', ih, rotateLeft_rotateLeft]

theorem rotateRight_rotateRight (x : BitVec w) (n m : ℕ) : (x.rotateRight n).rotateRight m = x.rotateRight (n + m) := by
  apply BitVec.eq_of_getLsbD_eq
  intro i inside
  have positive : 0 < w := by omega
  rw [getLsbD_rotateRight _ _ _ inside, getLsbD_rotateRight _ _ _ (Nat.mod_lt _ positive),
    getLsbD_rotateRight _ _ _ inside, Nat.mod_add_mod]
  congr 2
  omega

theorem rotateRight_zero (x : BitVec w) : x.rotateRight 0 = x := by
  apply BitVec.eq_of_getLsbD_eq
  intro i inside
  rw [getLsbD_rotateRight _ _ _ inside, Nat.add_zero, Nat.mod_eq_of_lt inside]

theorem iterate_rotateRight (x : BitVec w) (n : ℕ) :
    (fun word : BitVec w => word.rotateRight 1)^[n] x = x.rotateRight n := by
  induction n with
  | zero => rw [Function.iterate_zero, id_eq, rotateRight_zero]
  | succ n ih => rw [Function.iterate_succ_apply', ih, rotateRight_rotateRight]

/-! ## Periods -/

/-- Bits that a rotation by the period brings to each other's places are equal. -/
def Periodic (x : BitVec w) (period : ℕ) : Prop := ∀ i < w, x.getLsbD ((i + period) % w) = x.getLsbD i

theorem periodic_zero (x : BitVec w) : Periodic x 0 := by
  intro i inside
  rw [Nat.add_zero, Nat.mod_eq_of_lt inside]

theorem rotateRight_eq_self_iff (x : BitVec w) (n : ℕ) : x.rotateRight n = x ↔ Periodic x n := by
  constructor
  · intro same i inside
    rw [← getLsbD_rotateRight x n i inside, same]
  · intro periodic
    apply BitVec.eq_of_getLsbD_eq
    intro i inside
    rw [getLsbD_rotateRight _ _ _ inside, periodic i inside]

theorem rotateLeft_eq_self_iff (x : BitVec w) (n : ℕ) : x.rotateLeft n = x ↔ Periodic x n := by
  rw [← rotateRight_eq_self_iff]
  constructor
  · intro same
    conv_lhs => rw [← same]
    exact rotateRight_rotateLeft x n
  · intro same
    conv_lhs => rw [← same]
    exact rotateLeft_rotateRight x n

/-- Two rotations agree exactly when their difference is a period. -/
theorem rotateLeft_eq_iff (x : BitVec w) (n more : ℕ) : x.rotateLeft n = x.rotateLeft (n + more) ↔ Periodic x more := by
  rw [← rotateLeft_eq_self_iff, Nat.add_comm, ← rotateLeft_rotateLeft]
  constructor
  · intro same
    rw [← rotateRight_rotateLeft (x.rotateLeft more) n, ← same, rotateRight_rotateLeft]
  · intro same
    rw [same]

theorem rotateRight_eq_iff (x : BitVec w) (n more : ℕ) : x.rotateRight n = x.rotateRight (n + more) ↔ Periodic x more := by
  rw [← rotateRight_eq_self_iff, Nat.add_comm, ← rotateRight_rotateRight]
  constructor
  · intro same
    rw [← rotateLeft_rotateRight (x.rotateRight more) n, ← same, rotateLeft_rotateRight]
  · intro same
    rw [same]

theorem rotateLeft_mul_length (x : BitVec w) (turns : ℕ) : x.rotateLeft (w * turns) = x := by
  rw [rotateLeft_eq_self_iff]
  intro i inside
  rw [Nat.add_mul_mod_self_left, Nat.mod_eq_of_lt inside]

/-! ## Set bits -/

/-- The number of set bits. -/
def ones (x : BitVec w) : ℕ := (Finset.univ.filter fun i : Fin w => x.getLsbD i = true).card

theorem ones_le {x y : BitVec w} (below : ∀ i, y.getLsbD i = true → x.getLsbD i = true) : ones y ≤ ones x := by
  apply Finset.card_le_card
  intro i member
  simp only [Finset.mem_filter, Finset.mem_univ, true_and] at member ⊢
  exact below i member

/-- Losing bits lowers the number of set bits. -/
theorem ones_lt {x y : BitVec w} (below : ∀ i, y.getLsbD i = true → x.getLsbD i = true) {lost : ℕ} (inside : lost < w)
    (set : x.getLsbD lost = true) (clear : y.getLsbD lost = false) : ones y < ones x := by
  apply Finset.card_lt_card
  rw [Finset.ssubset_iff_of_subset]
  · refine ⟨⟨lost, inside⟩, ?_, ?_⟩
    · rw [Finset.mem_filter]
      exact ⟨Finset.mem_univ _, set⟩
    · rw [Finset.mem_filter, clear]
      exact nofun
  · intro i member
    simp only [Finset.mem_filter, Finset.mem_univ, true_and] at member ⊢
    exact below i member

theorem ones_le_rotateLeft (x : BitVec w) (n : ℕ) : ones x ≤ ones (x.rotateLeft n) := by
  apply Finset.card_le_card_of_injOn fun i : Fin w => ⟨(i + n) % w, Nat.mod_lt _ (Nat.zero_lt_of_lt i.isLt)⟩
  · intro i member
    have set := (Finset.mem_filter.mp member).2
    apply Finset.mem_filter.mpr
    refine ⟨Finset.mem_univ _, ?_⟩
    rw [← set]
    exact getLsbD_rotateLeft_add x n i i.isLt
  · intro i _ j _ same
    have places : (i + n) % w = (j + n) % w := congrArg Fin.val same
    have equal : (i : ℕ) % w = j % w := Nat.ModEq.add_right_cancel' n places
    rw [Nat.mod_eq_of_lt i.isLt, Nat.mod_eq_of_lt j.isLt] at equal
    exact Fin.ext equal

@[simp] theorem ones_rotateLeft (x : BitVec w) (n : ℕ) : ones (x.rotateLeft n) = ones x := by
  apply le_antisymm _ (ones_le_rotateLeft x n)
  have back := ones_le_rotateLeft (x.rotateLeft n) (w - n % w)
  rw [rotateLeft_rotateLeft] at back
  rcases Nat.eq_zero_or_pos w with rfl | positive
  · rw [ones, ones]
    exact le_of_eq rfl
  · have total : n + (w - n % w) = w * (n / w + 1) := by
      have split := Nat.div_add_mod n w
      have below := Nat.mod_lt n positive
      rw [Nat.mul_succ]
      omega
    rwa [total, rotateLeft_mul_length] at back

end Rotation
