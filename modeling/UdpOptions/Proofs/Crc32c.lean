import UdpOptions.EvalCheck.Crc
import UdpOptions.Library.Crc

/-! CRC-32C of the checkers. -/

namespace UdpOptions.Proofs
open Library

private theorem low_bit (crc : UInt32) : (crc &&& 1 = 1) ↔ crc.toBitVec.getLsbD 0 = true := by
  rw [← UInt32.toBitVec_inj, UInt32.toBitVec_and]
  constructor
  · intro same
    have bits := congrArg (fun word => BitVec.getLsbD word 0) same
    simpa using bits
  · intro set
    apply BitVec.eq_of_getLsbD_eq
    intro index _
    cases index with
    | zero => simp [set]
    | succ index => simp

private theorem crcShift_toBitVec (crc : UInt32) :
    (EvalCheck.crcShift crc).toBitVec = Crc.shift EvalCheck.castagnoli.toBitVec crc.toBitVec := by
  unfold EvalCheck.crcShift Crc.shift
  rw [UInt32.toBitVec_xor]
  by_cases set : crc &&& 1 = 1
  · rw [if_pos set, if_pos ((low_bit crc).mp set)]
    rfl
  · rw [if_neg set, if_neg (mt (low_bit crc).mpr set)]
    rfl

private theorem tableShift_eq (crc : UInt32) : WireCheck.tableShift crc = EvalCheck.crcShift crc := by
  unfold WireCheck.tableShift EvalCheck.crcShift EvalCheck.castagnoli
  split
  · rfl
  · simp

private theorem repeat_toBitVec (count : Nat) (crc : UInt32) :
    (Nat.repeat EvalCheck.crcShift count crc).toBitVec =
      (Crc.shift EvalCheck.castagnoli.toBitVec)^[count] crc.toBitVec := by
  induction count with
  | zero => rfl
  | succ count ih => rw [Nat.repeat, crcShift_toBitVec, ih, Function.iterate_succ_apply']

/-- The loop over the bytes feeds their bits to the register. -/
theorem crcLoop_toBitVec (crc : UInt32) (data : List UInt8) :
    (EvalCheck.crcLoop crc data).toBitVec =
      Crc.feed EvalCheck.castagnoli.toBitVec crc.toBitVec (Crc.bitsOf data) := by
  induction data generalizing crc with
  | nil => rfl
  | cons byte rest ih =>
    have fed : Crc.feed EvalCheck.castagnoli.toBitVec crc.toBitVec (Crc.byteBits byte) =
        (Nat.repeat EvalCheck.crcShift 8 (crc ^^^ byte.toUInt32)).toBitVec := by
      rw [Crc.feed_eq_iterate (by rw [Crc.length_byteBits]; decide), Crc.load_byteBits, repeat_toBitVec]
      rfl
    rw [Crc.bitsOf_cons, Crc.feed_append, fed]
    exact ih _

private theorem table_word (crc : UInt32) :
    Checked.index WireCheck.crc32cTable (crc &&& 0xff).toNat =
      .ok (Nat.repeat EvalCheck.crcShift 8 (crc &&& 0xff)) := by
  have small : (crc &&& 0xff).toNat < 256 := by
    rw [UInt32.toNat_and]
    exact Nat.lt_of_le_of_lt Nat.and_le_right (by decide)
  have shifts : WireCheck.tableShift = EvalCheck.crcShift := funext tableShift_eq
  rw [WireCheck.crc32cTable, shifts, Checked.index, List.getElem?_map, List.getElem?_range small]
  simp

/-- Eight shifts are a look into the table and a move by one byte. -/
theorem repeat_table (crc : UInt32) :
    Nat.repeat EvalCheck.crcShift 8 crc = Nat.repeat EvalCheck.crcShift 8 (crc &&& 0xff) ^^^ (crc >>> 8) := by
  rw [← UInt32.toBitVec_inj, UInt32.toBitVec_xor, repeat_toBitVec, repeat_toBitVec]
  exact Crc.iterate_split _ 8 crc.toBitVec

private theorem byte_shifted_out (crc : UInt32) (byte : UInt8) : (crc ^^^ byte.toUInt32) >>> 8 = crc >>> 8 := by
  apply UInt32.toNat_inj.mp
  have small : byte.toNat / 256 = 0 := Nat.div_eq_of_lt byte.toNat_lt
  have shifted : byte.toNat >>> 8 = 0 := by rw [Nat.shiftRight_eq_div_pow]; exact small
  rw [UInt32.toNat_shiftRight, UInt32.toNat_shiftRight, UInt32.toNat_xor]
  have eight : (8 : UInt32).toNat % 32 = 8 := rfl
  rw [eight, Nat.shiftRight_xor_distrib, UInt8.toNat_toUInt32, shifted, Nat.xor_zero]

private theorem crcLoop_table (crc : UInt32) (data : List UInt8) :
    WireCheck.crcLoop crc data = .ok (EvalCheck.crcLoop crc data) := by
  induction data generalizing crc with
  | nil => rfl
  | cons byte rest ih =>
    rw [WireCheck.crcLoop, table_word, EvalCheck.crcLoop, repeat_table (crc ^^^ byte.toUInt32), byte_shifted_out]
    exact ih _

/-- The checkers' two computations of CRC-32C agree on every message, and the
look into the table never leaves it. -/
theorem crc32c_table_agrees (data : List UInt8) : WireCheck.crc32c data = .ok (EvalCheck.crc32c data) := by
  rw [WireCheck.crc32c, crcLoop_table]
  rfl

/-- CRC-32C tells apart two messages that differ within 32 consecutive bits, in the order
in which the register takes them: from the least significant bit of each byte on. -/
theorem crc32c_burst {message other : List UInt8} (near : Crc.Burst 32 message other)
    (same : EvalCheck.crc32c message = EvalCheck.crc32c other) : message = other := by
  unfold EvalCheck.crc32c at same
  have looped := congrArg UInt32.toBitVec ((UInt32.xor_left_inj _).mp same)
  rw [crcLoop_toBitVec, crcLoop_toBitVec] at looped
  exact near.eq_of_feed rfl looped

-- From the most significant bit of each byte on, these two differ within 32 bits.
example : EvalCheck.crc32c [0x00, 0x94, 0x62, 0xb5, 0x80] = EvalCheck.crc32c [0x62, 0x01, 0x81, 0x48, 0x00] := by
  decide +kernel

end UdpOptions.Proofs
