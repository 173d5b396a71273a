import Mathlib.Data.Nat.Basic
import Mathlib.Data.List.Basic
import Mathlib.Algebra.BigOperators.Group.List.Basic

/-! End-around-carry addition of sixteen bit words. The running value of an
eagerly folded accumulator is the representative of the exact sum modulo 65535
in `1..65535`, with zero kept for the empty sum. Every checksum fact below it is
arithmetic on that representative. -/

namespace UdpOptions.Library

/-- One end-around fold: the carry out of the low word is added back. -/
def endAround (total : Nat) : Nat := (total &&& 0xffff) + (total >>> 16)

/-- Fold until no carry is left. -/
def foldCarries : Nat → Nat → Nat
  | 0, total => total
  | fuel + 1, total => if total >>> 16 ≠ 0 then foldCarries fuel (endAround total) else total

/-- The value an accumulator holds after words with exact sum `total`. -/
def onesResidue (total : Nat) : Nat := if total = 0 then 0 else (total - 1) % 65535 + 1

theorem endAround_eq (total : Nat) : endAround total = total % 65536 + total / 65536 := by
  have mask : total &&& 0xffff = total % 65536 := Nat.and_two_pow_sub_one_eq_mod total 16
  rw [endAround, mask, Nat.shiftRight_eq_div_pow]

theorem onesResidue_le (total : Nat) : onesResidue total ≤ 65535 := by
  unfold onesResidue
  split <;> omega

/-- Adding one more word to a folded accumulator and folding once keeps the
representative of the exact sum. -/
theorem endAround_residue_add (total value : Nat) (word : value ≤ 65535) :
    endAround (onesResidue total + value) = onesResidue (total + value) := by
  rw [endAround_eq]
  unfold onesResidue
  split <;> split <;> omega

/-- A folded accumulator needs no further folding. -/
theorem foldCarries_of_le (fuel : Nat) {total : Nat} (small : total ≤ 65535) : foldCarries fuel total = total := by
  cases fuel with
  | zero => rfl
  | succ fuel =>
    have none : total >>> 16 = 0 := by rw [Nat.shiftRight_eq_div_pow]; omega
    simp [foldCarries, none]

/-- One fold keeps the representative. -/
theorem onesResidue_endAround (total : Nat) : onesResidue (endAround total) = onesResidue total := by
  rw [endAround_eq]
  unfold onesResidue
  split <;> split <;> omega

/-- Folding an exact sum until no carry is left gives its representative, when
there is one fold to spend for each unit of the sum. -/
theorem foldCarries_eq {fuel total : Nat} (enough : total ≤ fuel) : foldCarries fuel total = onesResidue total := by
  induction fuel generalizing total with
  | zero =>
    obtain rfl := Nat.le_zero.mp enough
    rfl
  | succ fuel ih =>
    by_cases carry : total >>> 16 = 0
    · have small : total ≤ 65535 := by
        rw [Nat.shiftRight_eq_div_pow] at carry
        omega
      rw [foldCarries_of_le _ small]
      unfold onesResidue
      split <;> omega
    · have shrinks : endAround total ≤ fuel := by
        rw [Nat.shiftRight_eq_div_pow] at carry
        rw [endAround_eq]
        omega
      rw [foldCarries, if_pos carry, ih shrinks, onesResidue_endAround]

/-- Adding the complement of a folded sum brings the accumulator to all ones. -/
theorem onesResidue_add_complement (total : Nat) :
    onesResidue (total + (65535 - onesResidue total)) = 65535 := by
  unfold onesResidue
  split <;> split <;> omega

/-- The accumulator is at all ones after a positive multiple of 65535. -/
theorem onesResidue_full_iff {total : Nat} : onesResidue total = 65535 ↔ 0 < total ∧ total % 65535 = 0 := by
  unfold onesResidue
  split <;> omega

/-- If two words bring one sum to all ones, they are the same word or the two zeros. -/
theorem full_word_unique {rest old new : Nat} (oldWord : old ≤ 65535) (newWord : new ≤ 65535)
    (oldFull : onesResidue (rest + old) = 65535) (newFull : onesResidue (rest + new) = 65535) :
    old = new ∨ (old = 0 ∧ new = 65535 ∨ old = 65535 ∧ new = 0) := by
  obtain ⟨_, oldMultiple⟩ := onesResidue_full_iff.mp oldFull
  obtain ⟨_, newMultiple⟩ := onesResidue_full_iff.mp newFull
  omega

/-- A sum that already folds to all ones stays there when all ones is added. -/
theorem onesResidue_add_ones {total : Nat} (full : onesResidue total = 65535) :
    onesResidue (total + 65535) = 65535 := by
  unfold onesResidue at full ⊢
  split at full <;> split <;> omega

end UdpOptions.Library
