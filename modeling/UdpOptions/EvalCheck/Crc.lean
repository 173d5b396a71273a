import UdpOptions.Library.Checked

/-! The two implementations of CRC-32C among the checkers: bit by bit in
`scripts/eval-check.py`, and with a table of 256 words in `scripts/wire-check.py`. -/

namespace UdpOptions
open Library

namespace EvalCheck

/-- The reflected polynomial of CRC-32C. -/
def castagnoli : UInt32 := 0x82f63b78

/-- One turn of the inner loop. -/
def crcShift (crc : UInt32) : UInt32 := (crc >>> 1) ^^^ (if crc &&& 1 = 1 then castagnoli else 0)

/-- The loop over the bytes. -/
def crcLoop (crc : UInt32) : List UInt8 → UInt32
  | [] => crc
  | byte :: rest => crcLoop (Nat.repeat crcShift 8 (crc ^^^ byte.toUInt32)) rest

def crc32c (data : List UInt8) : UInt32 := crcLoop 0xffffffff data ^^^ 0xffffffff

end EvalCheck

namespace WireCheck

/-- One turn of the loop that fills the table. -/
def tableShift (crc : UInt32) : UInt32 :=
  if crc &&& 1 = 1 then (crc >>> 1) ^^^ 0x82f63b78 else crc >>> 1

def crc32cTable : List UInt32 := (List.range 256).map fun index => Nat.repeat tableShift 8 (UInt32.ofNat index)

def crcLoop (crc : UInt32) : List UInt8 → Checked UInt32
  | [] => return crc
  | byte :: rest => do
    let word ← Checked.index crc32cTable ((crc ^^^ byte.toUInt32) &&& 0xff).toNat
    crcLoop (word ^^^ (crc >>> 8)) rest

def crc32c (data : List UInt8) : Checked UInt32 := do
  return (← crcLoop 0xffffffff data) ^^^ 0xffffffff

end WireCheck

end UdpOptions
