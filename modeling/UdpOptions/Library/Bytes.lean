import Mathlib.Data.Nat.Basic
import Mathlib.Tactic.Ring

/-! Network byte order for sixteen and thirty-two bit words, and the four-byte
arrays that addresses and tokens are made of. Round trips hold without side
conditions because the word types carry their own bounds. -/

namespace UdpOptions.Library

def u16OfBe (high low : UInt8) : UInt16 := UInt16.ofNat (high.toNat * 256 + low.toNat)

def u16Be (value : UInt16) : List UInt8 := [UInt8.ofNat (value.toNat / 256), UInt8.ofNat value.toNat]

def u32OfBe (first second third fourth : UInt8) : UInt32 :=
  UInt32.ofNat (((first.toNat * 256 + second.toNat) * 256 + third.toNat) * 256 + fourth.toNat)

def u32Be (value : UInt32) : List UInt8 :=
  [UInt8.ofNat (value.toNat / 256 ^ 3), UInt8.ofNat (value.toNat / 256 ^ 2),
    UInt8.ofNat (value.toNat / 256), UInt8.ofNat value.toNat]

/-- A byte array of length four. -/
structure Octets where
  first : UInt8
  second : UInt8
  third : UInt8
  fourth : UInt8
  deriving DecidableEq, Repr

def Octets.toList (octets : Octets) : List UInt8 := [octets.first, octets.second, octets.third, octets.fourth]

theorem u16OfBe_toNat (high low : UInt8) : (u16OfBe high low).toNat = high.toNat * 256 + low.toNat := by
  have highBound := high.toNat_lt
  have lowBound := low.toNat_lt
  exact UInt16.toNat_ofNat_of_lt' (by change _ < 65536; omega)

theorem u16OfBe_split (value : UInt16) :
    u16OfBe (UInt8.ofNat (value.toNat / 256)) (UInt8.ofNat value.toNat) = value := by
  have bound := value.toNat_lt
  apply UInt16.toNat_inj.mp
  rw [u16OfBe_toNat, UInt8.toNat_ofNat', UInt8.toNat_ofNat']
  omega

theorem u16Be_u16OfBe (high low : UInt8) : u16Be (u16OfBe high low) = [high, low] := by
  have top : (u16OfBe high low).toNat / 256 = high.toNat := by
    rw [u16OfBe_toNat]
    have := low.toNat_lt
    omega
  have bottom : UInt8.ofNat (u16OfBe high low).toNat = low := by
    rw [u16OfBe_toNat, ← UInt8.toNat_inj, UInt8.toNat_ofNat']
    have := low.toNat_lt
    omega
  rw [u16Be, top, bottom, UInt8.ofNat_toNat]

theorem u16Be_injective : Function.Injective u16Be := by
  intro first second same
  simp only [u16Be, List.cons.injEq, and_true] at same
  rw [← u16OfBe_split first, same.1, same.2, u16OfBe_split]

@[simp] theorem u16Be_length (value : UInt16) : (u16Be value).length = 2 := rfl

theorem u32OfBe_toNat (first second third fourth : UInt8) :
    (u32OfBe first second third fourth).toNat =
      ((first.toNat * 256 + second.toNat) * 256 + third.toNat) * 256 + fourth.toNat := by
  have firstBound := first.toNat_lt
  have secondBound := second.toNat_lt
  have thirdBound := third.toNat_lt
  have fourthBound := fourth.toNat_lt
  exact UInt32.toNat_ofNat_of_lt' (by change _ < 4294967296; omega)

theorem u32OfBe_split (value : UInt32) :
    u32OfBe (UInt8.ofNat (value.toNat / 256 ^ 3)) (UInt8.ofNat (value.toNat / 256 ^ 2))
      (UInt8.ofNat (value.toNat / 256)) (UInt8.ofNat value.toNat) = value := by
  have bound := value.toNat_lt
  apply UInt32.toNat_inj.mp
  simp only [u32OfBe_toNat, UInt8.toNat_ofNat']
  omega

theorem u32Be_ofBe (first second third fourth : UInt8) :
    u32Be (u32OfBe first second third fourth) = [first, second, third, fourth] := by
  have firstBound := first.toNat_lt
  have secondBound := second.toNat_lt
  have thirdBound := third.toNat_lt
  have fourthBound := fourth.toNat_lt
  simp only [u32Be, u32OfBe_toNat, List.cons.injEq, and_true]
  refine ⟨?_, ?_, ?_, ?_⟩ <;>
  · apply UInt8.toNat_inj.mp
    rw [UInt8.toNat_ofNat']
    omega

theorem u32Be_injective {first second : UInt32} (same : u32Be first = u32Be second) : first = second := by
  simp only [u32Be, List.cons.injEq, and_true] at same
  obtain ⟨highest, high, low, lowest⟩ := same
  rw [← u32OfBe_split first, ← u32OfBe_split second, highest, high, low, lowest]

end UdpOptions.Library
