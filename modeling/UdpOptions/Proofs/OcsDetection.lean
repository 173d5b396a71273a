import UdpOptions.Proofs.Headers

/-! What the OCS detects. The stored OCS is the only one that verifies, and no change
of one word of the body or of the surplus length keeps a body valid, unless the change
is between the two representations of zero. -/

namespace UdpOptions.Proofs
open Library Model

/-- One word of a body, aligned to the OCS, is written over with another value. A last
byte without a partner is the high byte of its word. -/
inductive Rewritten : UInt16 → UInt16 → List UInt8 → List UInt8 → Prop where
  | word {before : List UInt8} (old new : UInt16) (after : List UInt8) (aligned : before.length % 2 = 0) :
      Rewritten old new (before ++ (u16Be old ++ after)) (before ++ (u16Be new ++ after))
  | dangling {before : List UInt8} (old new : UInt8) (aligned : before.length % 2 = 0) :
      Rewritten (u16OfBe old 0) (u16OfBe new 0) (before ++ [old]) (before ++ [new])

def BothZeros (old new : UInt16) : Prop := old = 0 ∧ new = 0xffff ∨ old = 0xffff ∧ new = 0

theorem Rewritten.sums {old new : UInt16} {body other : List UInt8} (rewritten : Rewritten old new body other) :
    ∃ rest, wordSum body = rest + old.toNat ∧ wordSum other = rest + new.toNat := by
  cases rewritten with
  | @word before old new after aligned =>
    refine ⟨wordSum before + wordSum after, ?_, ?_⟩
    · rw [wordSum_append aligned, wordSum_word_append]
      omega
    · rw [wordSum_append aligned, wordSum_word_append]
      omega
  | @dangling before old new aligned =>
    refine ⟨wordSum before, ?_, ?_⟩
    · rw [wordSum_append aligned, u16OfBe_toNat, wordSum, UInt8.toNat_zero, Nat.add_zero]
    · rw [wordSum_append aligned, u16OfBe_toNat, wordSum, UInt8.toNat_zero, Nat.add_zero]

/-- Two different words that bring one sum to all ones are the two zeros. -/
theorem bothZeros_of_full {rest : Nat} {old new : UInt16} (differ : old ≠ new)
    (oldFull : onesResidue (rest + old.toNat) = 65535) (newFull : onesResidue (rest + new.toNat) = 65535) :
    BothZeros old new := by
  have oldWord := old.toNat_lt
  have newWord := new.toNat_lt
  rcases full_word_unique (by omega) (by omega) oldFull newFull with same | zeros
  · exact absurd (UInt16.toNat_inj.mp same) differ
  · unfold BothZeros
    rw [← UInt16.toNat_inj, ← UInt16.toNat_inj, ← UInt16.toNat_inj, ← UInt16.toNat_inj]
    exact zeros

theorem led_split {body : List UInt8} (led : 2 ≤ body.length) : ∃ field, body = u16Be field ++ body.drop 2 := by
  match body, led with
  | high :: low :: rest, _ => exact ⟨u16OfBe high low, by rw [u16Be_u16OfBe]; rfl⟩

private theorem validate_full {body : List UInt8} {surplusLen udpChecksum : UInt16}
    (valid : Ocs.validate body surplusLen udpChecksum = .valid) :
    onesResidue (wordSum body + surplusLen.toNat) = 65535 := by
  have led : 2 ≤ body.length := by
    match body, valid with
    | _ :: _ :: rest, _ => simp
  obtain ⟨field, split⟩ := led_split led
  rw [split] at valid ⊢
  rw [wordSum_word_append, Nat.add_assoc, Nat.add_comm]
  exact (validate_valid_iff.mp valid).2

theorem validate_iff_fieldValue {field : UInt16} {rest : List UInt8} {surplusLen udpChecksum : UInt16} :
    Ocs.validate (u16Be field ++ rest) surplusLen udpChecksum = .valid ↔
      field = Ocs.fieldValue (0 :: 0 :: rest) surplusLen := by
  constructor
  · intro valid
    obtain ⟨nonzero, full⟩ := validate_valid_iff.mp valid
    by_contra differ
    rcases bothZeros_of_full differ full (fieldValue_full rest surplusLen) with ⟨zero, _⟩ | ⟨_, zero⟩
    · exact nonzero zero
    · exact fieldValue_ne_zero _ _ zero
  · intro same
    rw [same]
    exact validate_fieldValue rest surplusLen udpChecksum

/-- The OCS that is computed is not zero, verifies, and is the only one that does; and a
valid body is no longer valid when one word of it, or the surplus length, has changed. -/
theorem ocs_agrees_and_detects {body : List UInt8} (led : 2 ≤ body.length) (surplusLen udpChecksum : UInt16) :
    (∃ stored, Ocs.compute body surplusLen = .ok stored ∧ stored.drop 2 = body.drop 2 ∧ stored.take 2 ≠ [0, 0] ∧
      Ocs.validate stored surplusLen udpChecksum = .valid ∧
      (Ocs.validate body surplusLen udpChecksum = .valid ↔ body.take 2 = stored.take 2)) ∧
    (Ocs.validate body surplusLen udpChecksum = .valid →
      (∀ old new other, Rewritten old new body other → old ≠ new → ¬ BothZeros old new →
        Ocs.validate other surplusLen udpChecksum ≠ .valid) ∧
      (∀ otherLen, surplusLen ≠ otherLen → ¬ BothZeros surplusLen otherLen →
        Ocs.validate body otherLen udpChecksum ≠ .valid)) := by
  constructor
  · obtain ⟨field, split⟩ := led_split led
    refine ⟨_, compute_led led surplusLen, rfl, ?_, validate_fieldValue _ _ _, ?_⟩
    · intro zero
      exact fieldValue_ne_zero _ _ (u16Be_injective zero)
    · rw [split, validate_iff_fieldValue]
      exact u16Be_injective.eq_iff.symm
  · intro valid
    have full := validate_full valid
    constructor
    · intro old new other rewritten differ apart otherValid
      obtain ⟨rest, oldSum, newSum⟩ := rewritten.sums
      have otherFull := validate_full otherValid
      rw [oldSum, Nat.add_right_comm] at full
      rw [newSum, Nat.add_right_comm] at otherFull
      exact apart (bothZeros_of_full differ full otherFull)
    · intro otherLen differ apart otherValid
      exact apart (bothZeros_of_full differ full (validate_full otherValid))

/-- Another dangling byte is detected, and so is another surplus length. -/
theorem ocs_detects_odd_body :
    Ocs.compute [0, 0, 1] 3 = .ok [0xfe, 0xfc, 1] ∧ Ocs.validate [0xfe, 0xfc, 1] 3 0 = .valid ∧
      Ocs.validate [0xfe, 0xfc, 2] 3 0 ≠ .valid ∧ Ocs.validate [0xfe, 0xfc, 1] 4 0 ≠ .valid := by
  have valid : Ocs.validate [0xfe, 0xfc, 1] 3 0 = .valid := by decide
  have detects := (ocs_agrees_and_detects (show 2 ≤ [0xfe, 0xfc, 1].length by decide) 3 0).2 valid
  refine ⟨by decide, valid, ?_, ?_⟩
  · exact detects.1 (u16OfBe 1 0) (u16OfBe 2 0) _ (@Rewritten.dangling [0xfe, 0xfc] 1 2 (by decide)) (by decide)
      (by unfold BothZeros; decide)
  · exact detects.2 4 (by decide) (by unfold BothZeros; decide)

end UdpOptions.Proofs
