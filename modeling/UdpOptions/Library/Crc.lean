import Mathlib.Algebra.Group.Nat.Defs
import Mathlib.Data.List.Basic
import Mathlib.Logic.Function.Iterate

/-! Reflected cyclic redundancy checks. The register is shifted towards its low end,
one bit of the message at a time; the polynomial is added when a one falls out. The
register after a message depends linearly on the message, and a polynomial with its top
bit set makes every step a bijection: so no change that is confined to as many bits as
the register has goes unnoticed. -/

namespace UdpOptions.Library.Crc

section
variable {w : Nat} (poly : BitVec w)

/-- One shift of the register. -/
def shift (register : BitVec w) : BitVec w := (register >>> 1) ^^^ (if register.getLsbD 0 then poly else 0#w)

/-- The register with one bit of the message added at its low end. -/
def bitWord (bit : Bool) : BitVec w := if bit then 1#w else 0#w

/-- The register after the bits of a message. -/
def feed (register : BitVec w) (bits : List Bool) : BitVec w :=
  bits.foldl (fun register bit => shift poly (register ^^^ bitWord bit)) register

@[simp] theorem feed_nil (register : BitVec w) : feed poly register [] = register := rfl

@[simp] theorem feed_cons (register : BitVec w) (bit : Bool) (bits : List Bool) :
    feed poly register (bit :: bits) = feed poly (shift poly (register ^^^ bitWord bit)) bits := rfl

theorem feed_append (register : BitVec w) (front back : List Bool) :
    feed poly register (front ++ back) = feed poly (feed poly register front) back := List.foldl_append

theorem shift_xor (first second : BitVec w) :
    shift poly (first ^^^ second) = shift poly first ^^^ shift poly second := by
  unfold shift
  rw [BitVec.ushiftRight_xor_distrib, BitVec.getLsbD_xor]
  cases first.getLsbD 0 <;> cases second.getLsbD 0 <;> ext index <;> simp [Bool.xor_comm, Bool.xor_left_comm]

/-- A register whose low bit is clear only moves down. -/
theorem shift_clear {register : BitVec w} (clear : register.getLsbD 0 = false) :
    shift poly register = register >>> 1 := by
  rw [shift, clear]
  simp

theorem iterate_xor (count : Nat) (first second : BitVec w) :
    (shift poly)^[count] (first ^^^ second) = (shift poly)^[count] first ^^^ (shift poly)^[count] second := by
  induction count generalizing first second with
  | zero => rfl
  | succ count ih => rw [Function.iterate_succ_apply, shift_xor, ih]; rfl

/-- The low bits that are clear only move down. -/
theorem iterate_clear {count : Nat} {register : BitVec w} (clear : ∀ index < count, register.getLsbD index = false) :
    (shift poly)^[count] register = register >>> count := by
  induction count with
  | zero => simp
  | succ count ih =>
    have low : (register >>> count).getLsbD 0 = false := by
      rw [BitVec.getLsbD_ushiftRight]
      exact clear count (Nat.lt_succ_self count)
    rw [Function.iterate_succ_apply', ih fun index below => clear index (Nat.lt_succ_of_lt below),
      shift_clear poly low, BitVec.shiftRight_add]

/-- Some shifts of a register: those of its low bits, and the rest moved down. -/
theorem iterate_split (count : Nat) (register : BitVec w) :
    (shift poly)^[count] register =
      (shift poly)^[count] (register &&& BitVec.ofNat w (2 ^ count - 1)) ^^^ (register >>> count) := by
  have parts : register = (register &&& BitVec.ofNat w (2 ^ count - 1)) ^^^
      (register &&& ~~~ BitVec.ofNat w (2 ^ count - 1)) := by
    ext index
    cases bit : register[index] <;> simp [bit]
  have clear : ∀ index < count, (register &&& ~~~ BitVec.ofNat w (2 ^ count - 1)).getLsbD index = false := by
    intro index below
    simp [BitVec.getLsbD_ofNat, Nat.testBit_two_pow_sub_one, below]
  have moved : (register &&& ~~~ BitVec.ofNat w (2 ^ count - 1)) >>> count = register >>> count := by
    apply BitVec.eq_of_getLsbD_eq
    intro index _
    rw [BitVec.getLsbD_ushiftRight, BitVec.getLsbD_ushiftRight, BitVec.getLsbD_and, BitVec.getLsbD_not,
      BitVec.getLsbD_ofNat, Nat.testBit_two_pow_sub_one]
    by_cases inside : count + index < w
    · simp [inside]
    · simp [BitVec.getLsbD_of_ge register (count + index) (Nat.le_of_not_lt inside)]
  conv_lhs => rw [parts]
  rw [iterate_xor, iterate_clear poly clear, moved]

variable {poly}

/-- The top bit of the polynomial tells whether a one fell out. -/
theorem shift_msb (top : poly.msb = true) (register : BitVec w) : (shift poly register).msb = register.getLsbD 0 := by
  rw [shift, BitVec.msb_xor]
  cases register.getLsbD 0 <;> simp [BitVec.msb_ushiftRight, top]

theorem shift_injective (top : poly.msb = true) : Function.Injective (shift poly) := by
  intro first second same
  have low : first.getLsbD 0 = second.getLsbD 0 := by
    rw [← shift_msb top first, ← shift_msb top second, same]
  have high : first >>> 1 = second >>> 1 := by
    unfold shift at same
    rw [low] at same
    exact (BitVec.xor_left_inj _).mp same
  apply BitVec.eq_of_getLsbD_eq
  intro index _
  cases index with
  | zero => exact low
  | succ index =>
    have bits := congrArg (fun word => word.getLsbD index) high
    simpa [BitVec.getLsbD_ushiftRight, Nat.add_comm] using bits

/-- Two registers that differ still differ after the same bits. -/
theorem feed_injective (top : poly.msb = true) (bits : List Bool) :
    Function.Injective fun register => feed poly register bits := by
  induction bits with
  | nil => exact fun _ _ same => same
  | cons bit bits ih =>
    intro first second same
    have shifted := shift_injective top (ih same)
    exact (BitVec.xor_left_inj _).mp shifted

/-- The register that holds the bits, the first of them at its low end. -/
def load : List Bool → BitVec w
  | [] => 0#w
  | bit :: bits => bitWord bit ^^^ (load bits <<< 1)

theorem getLsbD_load (bits : List Bool) {index : Nat} (inside : index < w) :
    (load bits : BitVec w).getLsbD index = bits.getD index false := by
  induction bits generalizing index with
  | nil => simp [load]
  | cons bit bits ih =>
    rw [load, BitVec.getLsbD_xor, BitVec.getLsbD_shiftLeft]
    cases index with
    | zero => cases bit <;> simp [bitWord, inside]
    | succ index =>
      have rest := ih (Nat.lt_of_succ_lt inside)
      cases bit <;> simp [bitWord, inside, rest]

theorem load_injective {bits others : List Bool} (short : bits.length ≤ w) (same : bits.length = others.length)
    (loaded : (load bits : BitVec w) = load others) : bits = others := by
  apply List.ext_getElem same
  intro index inside otherInside
  have equal := congrArg (fun word => word.getLsbD index) loaded
  rw [getLsbD_load bits (by omega), getLsbD_load others (by omega)] at equal
  simpa [List.getD_eq_getElem?_getD, inside, otherInside] using equal

/-- A short message may as well be added to the register as a whole. -/
theorem feed_eq_iterate {bits : List Bool} (short : bits.length ≤ w) (register : BitVec w) :
    feed poly register bits = (shift poly)^[bits.length] (register ^^^ load bits) := by
  induction bits generalizing register with
  | nil => simp [load]
  | cons bit bits ih =>
    rw [List.length_cons] at short
    have settled : shift poly (load bits <<< 1) = load bits := by
      rw [shift_clear poly (by simp [BitVec.getLsbD_shiftLeft])]
      apply BitVec.eq_of_getLsbD_eq
      intro index inside
      rw [BitVec.getLsbD_ushiftRight, BitVec.getLsbD_shiftLeft, getLsbD_load bits inside]
      by_cases last : index < bits.length
      · have room : 1 + index < w := by omega
        simp [room, getLsbD_load bits inside]
      · have beyond : bits[index]? = none := List.getElem?_eq_none (Nat.le_of_not_lt last)
        simp [getLsbD_load bits inside, beyond]
    rw [feed_cons, ih (by omega), List.length_cons, Function.iterate_succ_apply, load, ← BitVec.xor_assoc,
      shift_xor poly (register ^^^ bitWord bit), settled]

/-- A change that is confined to as many bits as the register has changes the register. -/
theorem feed_burst (top : poly.msb = true) (register : BitVec w) {front burst other back : List Bool}
    (short : burst.length ≤ w) (same : burst.length = other.length) (changed : burst ≠ other) :
    feed poly register (front ++ burst ++ back) ≠ feed poly register (front ++ other ++ back) := by
  intro equal
  rw [feed_append, feed_append, feed_append poly register (front ++ other), feed_append] at equal
  have middle := feed_injective top back equal
  generalize feed poly register front = start at middle
  rw [feed_eq_iterate short, feed_eq_iterate (same ▸ short), ← same] at middle
  have loaded := (shift_injective top).iterate burst.length middle
  exact changed (load_injective short same ((BitVec.xor_right_inj _).mp loaded))

end

/-- The bits of a byte in the order in which the register takes them. -/
def byteBits (byte : UInt8) : List Bool := (List.range 8).map byte.toBitVec.getLsbD

@[simp] theorem length_byteBits (byte : UInt8) : (byteBits byte).length = 8 := rfl

theorem load_byteBits {w : Nat} (byte : UInt8) :
    (load (byteBits byte) : BitVec w) = byte.toBitVec.setWidth w := by
  apply BitVec.eq_of_getLsbD_eq
  intro index inside
  rw [getLsbD_load _ inside, BitVec.getLsbD_setWidth, byteBits]
  by_cases low : index < 8
  · simp [inside, low]
  · rw [BitVec.getLsbD_of_ge byte.toBitVec index (Nat.le_of_not_lt low)]
    simp [low]

/-- The bits of a message. -/
def bitsOf (bytes : List UInt8) : List Bool := bytes.flatMap byteBits

theorem bitsOf_cons (byte : UInt8) (rest : List UInt8) : bitsOf (byte :: rest) = byteBits byte ++ bitsOf rest :=
  rfl

theorem byteBits_injective : Function.Injective byteBits := by
  intro first second same
  apply UInt8.toBitVec_inj.mp
  have loaded := congrArg (fun bits => (load bits : BitVec 8)) same
  simpa [load_byteBits] using loaded

theorem bitsOf_injective : Function.Injective bitsOf := by
  intro first second same
  induction first generalizing second with
  | nil =>
    cases second with
    | nil => rfl
    | cons byte rest => cases same
  | cons byte rest ih =>
    cases second with
    | nil => cases same
    | cons other others =>
      obtain ⟨bits, later⟩ := List.append_inj same rfl
      rw [byteBits_injective bits, ih later]

theorem length_bitsOf (bytes : List UInt8) : (bitsOf bytes).length = 8 * bytes.length := by
  induction bytes with
  | nil => rfl
  | cons byte rest ih =>
    rw [bitsOf_cons, List.length_append, length_byteBits, ih, List.length_cons]
    omega

/-- Two messages that differ, if at all, within this many consecutive bits, where the bits
of each byte are taken from the least significant on. -/
def Burst (width : Nat) (message other : List UInt8) : Prop :=
  ∃ front burst changed back : List Bool, bitsOf message = front ++ burst ++ back ∧
    bitsOf other = front ++ changed ++ back ∧ burst.length = changed.length ∧ burst.length ≤ width

theorem Burst.length {width : Nat} {message other : List UInt8} (near : Burst width message other) :
    message.length = other.length := by
  obtain ⟨front, burst, changed, back, bits, otherBits, same, _⟩ := near
  have first := length_bitsOf message
  have second := length_bitsOf other
  rw [bits] at first
  rw [otherBits] at second
  simp only [List.length_append] at first second
  omega

/-- The register tells apart two messages that differ within its own width. -/
theorem Burst.eq_of_feed {w : Nat} {poly : BitVec w} (top : poly.msb = true) {register : BitVec w}
    {message other : List UInt8} (near : Burst w message other)
    (fed : feed poly register (bitsOf message) = feed poly register (bitsOf other)) : message = other := by
  obtain ⟨front, burst, changed, back, bits, otherBits, same, short⟩ := near
  apply bitsOf_injective
  by_contra different
  rw [bits, otherBits] at fed different
  apply feed_burst top register short same ?_ fed
  rintro rfl
  exact different rfl

end UdpOptions.Library.Crc
