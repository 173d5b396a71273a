import UdpOptions.Error
import UdpOptions.Model
import UdpOptions.Library.Bytes
import UdpOptions.Library.Checked
import UdpOptions.Library.OnesComplement

/-! The wire layer: the Internet checksum, the IPv4 and UDP headers, and the
location of the surplus area. A header field is read by matching on exactly the
bytes whose presence the parser has tested. -/

namespace UdpOptions
open Library Model

/-- The incremental one's-complement accumulator. -/
structure Checksum where
  sum : Nat
  deriving DecidableEq, Repr

namespace Checksum

def new : Checksum := ⟨0⟩

def addU16 (checksum : Checksum) (value : UInt16) : Checksum := ⟨endAround (checksum.sum + value.toNat)⟩

/-- Each call pads its own slice to an even length. -/
def addSlice (checksum : Checksum) : List UInt8 → Checksum
  | [] => checksum
  | [last] => checksum.addU16 (u16OfBe last 0)
  | high :: low :: rest => addSlice (checksum.addU16 (u16OfBe high low)) rest

/-- The folded, non-complemented sum. -/
def folded (checksum : Checksum) : UInt16 := UInt16.ofNat (foldCarries checksum.sum checksum.sum)

def finish (checksum : Checksum) : UInt16 := ~~~checksum.folded

end Checksum

def internetChecksum (bytes : List UInt8) : UInt16 := (Checksum.new.addSlice bytes).finish

abbrev Ipv4Addr := Octets

def ipprotoUdp : UInt8 := 17
def ipv4MinHeaderLen : Nat := 20
def defaultTtl : UInt8 := 64

structure IpRepr where
  src : Ipv4Addr
  dst : Ipv4Addr
  ihl : UInt8
  totalLen : UInt16
  deriving DecidableEq, Repr

namespace IpRepr

def parseV4 : List UInt8 → Except HeaderError (IpRepr × Nat)
  | bytes@(b0 :: _ :: b2 :: b3 :: _ :: _ :: _ :: _ :: _ :: b9 :: _ :: _ ::
      s0 :: s1 :: s2 :: s3 :: d0 :: d1 :: d2 :: d3 :: _) =>
    let ihl := b0 &&& 0x0f
    if ihl < 5 then .error (.badIhl ihl) else
    let headerLen := ihl.toNat * 4
    if bytes.length < headerLen then .error (.ipTruncated headerLen bytes.length) else
    let totalLen := u16OfBe b2 b3
    if totalLen.toNat < headerLen ∨ bytes.length < totalLen.toNat then .error (.badIpLength totalLen) else
    if b9 ≠ ipprotoUdp then .error (.unexpectedProtocol b9) else
    if internetChecksum (bytes.take headerLen) ≠ 0 then .error .ipChecksumMismatch else
    .ok (⟨⟨s0, s1, s2, s3⟩, ⟨d0, d1, d2, d3⟩, ihl, totalLen⟩, headerLen)
  | bytes => .error (.ipTruncated ipv4MinHeaderLen bytes.length)

/-- The header and the offset of the transport payload. Bytes past the IP
length field are tolerated and ignored. -/
def parse : List UInt8 → Except HeaderError (IpRepr × Nat)
  | [] => .error (.ipTruncated 1 0)
  | versionOctet :: rest =>
    if versionOctet >>> 4 = 4 then parseV4 (versionOctet :: rest)
    else .error (.unsupportedVersion (versionOctet >>> 4))

/-- The twenty header bytes with the given checksum field. -/
def headerBytes (ip : IpRepr) (checksum : UInt16) : List UInt8 :=
  [0x45, 0] ++ u16Be ip.totalLen ++ [0, 0, 0, 0, defaultTtl, ipprotoUdp] ++ u16Be checksum ++
    ip.src.toList ++ ip.dst.toList

/-- Write the header into the first twenty bytes of `out`. -/
def write (ip : IpRepr) (out : List UInt8) : Checked (List UInt8) := do
  Checked.require (ip.ihl = 5)
  let _ ← Checked.slice out 0 ipv4MinHeaderLen
  let checksum := internetChecksum (ip.headerBytes 0)
  return ip.headerBytes checksum ++ out.drop ipv4MinHeaderLen

def headerLen (ip : IpRepr) : Nat := ip.ihl.toNat * 4

def transportPayloadLen (ip : IpRepr) : Nat := ip.totalLen.toNat - ip.ihl.toNat * 4

/-- The UDP pseudo-header folded into a fresh accumulator. -/
def pseudoHeaderSum (ip : IpRepr) (udpLen : UInt16) : Checksum :=
  (((Checksum.new.addSlice ip.src.toList).addSlice ip.dst.toList).addU16 ipprotoUdp.toUInt16).addU16 udpLen

end IpRepr

structure UdpHeader where
  srcPort : UInt16
  dstPort : UInt16
  length : UInt16
  checksum : UInt16
  deriving DecidableEq, Repr

namespace UdpHeader

def headerLen : Nat := Length.udpHeader

def parse : List UInt8 → Except HeaderError UdpHeader
  | s0 :: s1 :: d0 :: d1 :: l0 :: l1 :: c0 :: c1 :: _ =>
    let length := u16OfBe l0 l1
    if length.toNat < headerLen then .error (.udpLengthInvalid length) else
    .ok ⟨u16OfBe s0 s1, u16OfBe d0 d1, length, u16OfBe c0 c1⟩
  | bytes => .error (.udpTruncated bytes.length)

def bytes (udp : UdpHeader) : List UInt8 :=
  u16Be udp.srcPort ++ u16Be udp.dstPort ++ u16Be udp.length ++ u16Be udp.checksum

def write (udp : UdpHeader) (out : List UInt8) : Checked (List UInt8) :=
  Checked.copyInto out 0 headerLen udp.bytes

/-- The wire value over the pseudo-header, this header with a zero checksum
field, and the user data. A computed zero is transmitted as all ones. -/
def computeChecksum (udp : UdpHeader) (ip : IpRepr) (data : List UInt8) : Checked UInt16 := do
  Checked.require (udp.length.toNat = headerLen + data.length)
  let sum := ip.pseudoHeaderSum udp.length
  let sum := ((sum.addU16 udp.srcPort).addU16 udp.dstPort).addU16 udp.length
  let sum := sum.addSlice data
  return if sum.finish = 0 then 0xffff else sum.finish

end UdpHeader

/-- Where the surplus area lies, relative to the start of the IP datagram. -/
structure SurplusLayout where
  startsAt : Nat
  needsPad : Bool
  len : Nat
  deriving DecidableEq, Repr

def SurplusLayout.ocsAt (layout : SurplusLayout) : Nat := layout.startsAt + layout.needsPad.toNat

def locateSurplus (ip : IpRepr) (udp : UdpHeader) : Option SurplusLayout :=
  match checkedSub ip.transportPayloadLen udp.length.toNat with
  | none => none
  | some surplus =>
    if surplus = 0 then none else
    let naturalStart := ip.headerLen + udp.length.toNat
    let needsPad := decide (naturalStart % 2 = 1)
    if surplus < needsPad.toNat + Length.ocs then none else
    some ⟨naturalStart, needsPad, surplus⟩

end UdpOptions
