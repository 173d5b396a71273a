import UdpOptions.Error
import UdpOptions.Model
import UdpOptions.Library.Checked
import UdpOptions.Library.Bytes

/-! Option kinds, raw and typed option values, and the Option Checksum's local
verdict. A kind given as `other` may carry the byte of a named kind; everything
that reaches the wire goes through `toByte`. -/

namespace UdpOptions
open Library Model

inductive OptionKind where
  | eol
  | nop
  | apc
  | frag
  | mds
  | mrds
  | req
  | res
  | other (byte : UInt8)
  deriving DecidableEq, Repr

namespace OptionKind

def fromByte (byte : UInt8) : OptionKind :=
  if byte = Kind.eol then .eol
  else if byte = Kind.nop then .nop
  else if byte = Kind.apc then .apc
  else if byte = Kind.frag then .frag
  else if byte = Kind.mds then .mds
  else if byte = Kind.mrds then .mrds
  else if byte = Kind.req then .req
  else if byte = Kind.res then .res
  else .other byte

def toByte : OptionKind → UInt8
  | .eol => Kind.eol
  | .nop => Kind.nop
  | .apc => Kind.apc
  | .frag => Kind.frag
  | .mds => Kind.mds
  | .mrds => Kind.mrds
  | .req => Kind.req
  | .res => Kind.res
  | .other byte => byte

def isSafe (kind : OptionKind) : Bool := decide (kind.toByte < Kind.unsafeMin)

def isUnsafe (kind : OptionKind) : Bool := !kind.isSafe

/-- The allowed total lengths of a fixed-size kind. -/
def fixedTlvLengths (kind : OptionKind) : List Nat :=
  let byte := kind.toByte
  if byte = Kind.apc then [Length.apc]
  else if byte = Kind.frag then [Length.fragNonTerminal, Length.fragTerminal]
  else if byte = Kind.mds then [Length.mds]
  else if byte = Kind.mrds then [Length.mrds]
  else if byte = Kind.req then [Length.req]
  else if byte = Kind.res then [Length.res]
  else []

theorem toByte_fromByte (byte : UInt8) : (fromByte byte).toByte = byte := by
  unfold fromByte
  repeat' (split; · subst byte; rfl)
  rfl

end OptionKind

/-- An owned option: a kind and its value bytes without framing. -/
structure RawOption where
  kind : OptionKind
  value : List UInt8
  deriving DecidableEq, Repr

/-- The Additional Payload Checksum over the UDP user data. -/
structure Apc where
  crc32c : UInt32
  deriving DecidableEq, Repr

structure Mds where
  maxDatagramSize : UInt16
  deriving DecidableEq, Repr

structure Mrds where
  maxReassembledSize : UInt16
  maxSegments : UInt8
  deriving DecidableEq, Repr

structure Req where
  token : Octets
  deriving DecidableEq, Repr

structure Res where
  token : Octets
  deriving DecidableEq, Repr

/-- `rdos` is present exactly on a terminal fragment. -/
structure Frag where
  fragStart : UInt16
  identification : UInt32
  fragOffset : UInt16
  rdos : Option UInt16
  deriving DecidableEq, Repr

def tlvHeaderLen : Nat := 2

def invalidValueLen (kind : UInt8) (valueLen : Nat) : ParseError := .invalidLength kind (valueLen + tlvHeaderLen)

def Apc.decode : List UInt8 → Except ParseError Apc
  | [a, b, c, d] => .ok ⟨u32OfBe a b c d⟩
  | value => .error (invalidValueLen Kind.apc value.length)

def Mds.decode : List UInt8 → Except ParseError Mds
  | [a, b] => .ok ⟨u16OfBe a b⟩
  | value => .error (invalidValueLen Kind.mds value.length)

def Mrds.decode : List UInt8 → Except ParseError Mrds
  | [a, b, segments] => .ok ⟨u16OfBe a b, segments⟩
  | value => .error (invalidValueLen Kind.mrds value.length)

def Req.decode : List UInt8 → Except ParseError Req
  | [a, b, c, d] => .ok ⟨⟨a, b, c, d⟩⟩
  | value => .error (invalidValueLen Kind.req value.length)

def Res.decode : List UInt8 → Except ParseError Res
  | [a, b, c, d] => .ok ⟨⟨a, b, c, d⟩⟩
  | value => .error (invalidValueLen Kind.res value.length)

def Frag.decode : List UInt8 → Except ParseError Frag
  | [s0, s1, i0, i1, i2, i3, o0, o1] => .ok ⟨u16OfBe s0 s1, u32OfBe i0 i1 i2 i3, u16OfBe o0 o1, none⟩
  | [s0, s1, i0, i1, i2, i3, o0, o1, r0, r1] =>
    .ok ⟨u16OfBe s0 s1, u32OfBe i0 i1 i2 i3, u16OfBe o0 o1, some (u16OfBe r0 r1)⟩
  | value => .error (invalidValueLen Kind.frag value.length)

end UdpOptions
