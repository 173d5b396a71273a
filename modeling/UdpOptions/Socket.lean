import UdpOptions.Options.Parse

/-! The pure halves of the raw send and receive paths: one complete IPv4 datagram
with the UDP checksum and the OCS computed by hand, and the demultiplexer of what a
raw socket reads. -/

namespace UdpOptions
open Library Model

/-- Build one datagram. The body is OCS-led with a zero placeholder, or empty. -/
def assembleDatagram (src dst : Ipv4Addr) (srcPort dstPort : UInt16) (userData optionsBody : List UInt8) :
    Checked (List UInt8) := do
  Checked.require (optionsBody.isEmpty ∨ Length.ocs ≤ optionsBody.length)
  let udpLen ← Checked.expect (checkedAdd UdpHeader.headerLen userData.length)
  let udpLen ← Checked.expect (tryU16 udpLen)
  let naturalStart := Length.udpHeader + 20 + userData.length
  let needsPad := !optionsBody.isEmpty && decide (naturalStart % 2 = 1)
  let surplusLen ←
    if optionsBody.isEmpty then pure 0 else Checked.expect (checkedAdd needsPad.toNat optionsBody.length)
  let surplusLenU16 ← Checked.expect (tryU16 surplusLen)
  let totalLen ← Checked.expect ((checkedAdd 20 udpLen.toNat).bind (checkedAdd · surplusLen))
  let totalLenU16 ← Checked.expect (tryU16 totalLen)
  let ip : IpRepr := ⟨src, dst, 5, totalLenU16⟩
  let datagram := List.replicate totalLen (0 : UInt8)
  let header ← ip.write (← Checked.slice datagram 0 20)
  let datagram ← Checked.copyInto datagram 0 20 header
  let udpHeader : UdpHeader := ⟨srcPort, dstPort, udpLen, 0⟩
  let udpHeader := { udpHeader with checksum := ← udpHeader.computeChecksum ip userData }
  let header ← udpHeader.write (← Checked.slice datagram 20 (20 + UdpHeader.headerLen))
  let datagram ← Checked.copyInto datagram 20 (20 + UdpHeader.headerLen) header
  let userAt := 20 + UdpHeader.headerLen
  let datagram ← Checked.copyInto datagram userAt (userAt + userData.length) userData
  let ocsAt := naturalStart + needsPad.toNat
  let datagram ←
    if optionsBody.isEmpty then pure datagram
    else do
      let datagram ← Checked.copyInto datagram ocsAt (ocsAt + optionsBody.length) optionsBody
      let body ← Ocs.compute (← Checked.slice datagram ocsAt (ocsAt + optionsBody.length)) surplusLenU16
      Checked.copyInto datagram ocsAt (ocsAt + optionsBody.length) body
  -- the assertions of a debug build
  Checked.require (datagram.length = ip.totalLen.toNat)
  Checked.require (ip.transportPayloadLen = udpLen.toNat + surplusLen)
  if optionsBody.isEmpty then Checked.require (udpLen.toNat = ip.transportPayloadLen)
  else Checked.require (udpLen.toNat < ip.transportPayloadLen)
  return datagram

/-- The demultiplexing decision for one raw datagram. -/
inductive FilterVerdict where
  | deliver (len : Nat)
  | filtered
  deriving DecidableEq, Repr

/-- The demultiplexer of a raw socket. Its UDP header may lie anywhere in the buffer. -/
def filterDatagram (data : List UInt8) (dstPort : UInt16) (srcPort : Option UInt16) (ownSrc : Option Ipv4Addr) :
    Checked FilterVerdict := do
  match IpRepr.parse data with
  | .error _ => return .filtered
  | .ok (ip, udpAt) =>
    match UdpHeader.parse (← Checked.slice data udpAt data.length) with
    -- a UDP Length below eight is also logged
    | .error _ => return .filtered
    | .ok udp =>
      if ownSrc = some ip.src then return .filtered
      if udp.dstPort ≠ dstPort then return .filtered
      if srcPort.any fun srcPort => udp.srcPort ≠ srcPort then return .filtered
      return .deliver ip.totalLen.toNat

end UdpOptions
