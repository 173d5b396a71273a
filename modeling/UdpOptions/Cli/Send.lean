import UdpOptions.Cli
import UdpOptions.Options.Typed
import UdpOptions.Peer

/-! The sending tool. One run sends `count` logical datagrams with consecutive sequence
numbers; the wire faults, the raw option bytes and the emission order of its arguments
make the datagrams that the evaluation of receivers and middleboxes needs. The console
output and the pause between datagrams are left out; the manifest is the list of its
rows. -/

namespace UdpOptions
open Library Model

namespace Cli

structure SendArgs where
  src : Ipv4Addr
  dst : Ipv4Addr
  srcPort : UInt16
  dstPort : UInt16
  payload : String
  payloadHex : Option String
  payloadSize : Option Nat
  count : Nat
  seqStart : UInt64
  apc : Bool
  mds : Option UInt16
  mrdsSize : Option UInt16
  mrdsSegments : UInt8
  req : Option String
  res : Option String
  maxDatagramLen : Nat
  noFrag : Bool
  peerMrdsSize : UInt16
  peerMrdsSegments : UInt8
  identification : Option UInt32
  rawOptionsHex : Option String
  ocsHex : Option String
  padHex : Option String
  udpCksumZero : Bool
  fragEmit : Option (List Nat)
  manifest : Bool

def ipv4HeaderLen : Nat := 20
def udpLengthAt : Nat := ipv4HeaderLen + 4
def udpChecksumAt : Nat := ipv4HeaderLen + 6

/-- Where the surplus area of an assembled datagram begins. -/
structure SurplusLayout where
  startsAt : Nat
  needsPad : Bool
  deriving DecidableEq, Repr

def SurplusLayout.ocsAt (layout : SurplusLayout) : Nat := layout.startsAt + layout.needsPad.toNat

def surplusLayout (datagram : List UInt8) : Checked (Option SurplusLayout) := do
  if datagram.length < ipv4HeaderLen + Length.udpHeader then return none
  let udpLen := u16OfBe (← Checked.index datagram udpLengthAt) (← Checked.index datagram (udpLengthAt + 1))
  match checkedAdd ipv4HeaderLen udpLen.toNat with
  | none => return none
  | some startsAt => return if startsAt < datagram.length then some ⟨startsAt, startsAt % 2 ≠ 0⟩ else none

/-- Deliberate wire faults, applied to every assembled datagram. -/
structure WireFaults where
  ocs : Option (UInt8 × UInt8)
  pad : Option UInt8
  zeroUdpChecksum : Bool
  deriving DecidableEq, Repr

def parseOcsField (input : String) : Checked (Except CliError (UInt8 × UInt8)) := do
  match ← parseHexVec input with
  | .error error => return .error error
  | .ok [high, low] => return .ok (high, low)
  | .ok bytes => return .error (.message ("--ocs-hex must be exactly 2 bytes, got " ++ toString bytes.length))

def parsePadByte (input : String) : Checked (Except CliError UInt8) := do
  match ← parseHexVec input with
  | .error error => return .error error
  | .ok [byte] => return .ok byte
  | .ok bytes => return .error (.message ("--pad-hex must be exactly 1 byte, got " ++ toString bytes.length))

/-- `Option::map` and `transpose` over a fallible parser. -/
def parsed {α : Type} (parser : String → Checked (Except CliError α)) :
    Option String → Checked (Except CliError (Option α))
  | none => return .ok none
  | some text => do
    match ← parser text with
    | .error error => return .error error
    | .ok value => return .ok (some value)

namespace WireFaults

def parse (args : SendArgs) : Checked (Except CliError WireFaults) := do
  match ← parsed parseOcsField args.ocsHex with
  | .error error => return .error error
  | .ok ocs =>
    match ← parsed parsePadByte args.padHex with
    | .error error => return .error error
    | .ok pad => return .ok ⟨ocs, pad, args.udpCksumZero⟩

def clearChecksum (faults : WireFaults) (datagram : List UInt8) : Checked (List UInt8) :=
  if faults.zeroUdpChecksum then Checked.copyInto datagram udpChecksumAt (udpChecksumAt + 2) [0, 0] else .ok datagram

def overwritePad (faults : WireFaults) (layout : SurplusLayout) (datagram : List UInt8) : Checked (List UInt8) :=
  match faults.pad with
  | some pad => Checked.copyInto datagram layout.startsAt (layout.startsAt + 1) [pad]
  | none => .ok datagram

def overwriteOcs (faults : WireFaults) (layout : SurplusLayout) (datagram : List UInt8) : Checked (List UInt8) :=
  match faults.ocs with
  | some (high, low) => Checked.copyInto datagram layout.ocsAt (layout.ocsAt + 2) [high, low]
  | none => .ok datagram

def apply (faults : WireFaults) (datagram : List UInt8) : Checked (Except CliError (List UInt8)) := do
  let datagram ← faults.clearChecksum datagram
  if faults.ocs.isNone && faults.pad.isNone then return .ok datagram
  match ← surplusLayout datagram with
  | none => return .error (.message "--ocs-hex and --pad-hex need a datagram with a surplus area")
  | some layout =>
    if faults.pad.isSome && !layout.needsPad then
      return .error (.message "--pad-hex needs an alignment pad, which only an odd payload length creates")
    let datagram ← faults.overwritePad layout datagram
    return .ok (← faults.overwriteOcs layout datagram)

end WireFaults

/-- One line of the manifest. -/
structure ManifestRow where
  seq : UInt64
  src : Ipv4Addr
  dst : Ipv4Addr
  srcPort : UInt16
  dstPort : UInt16
  identification : Option UInt32
  payloadLen : Nat
  payloadCrc32c : UInt32
  datagrams : Nat
  bytes : Nat
  deriving DecidableEq, Repr

/-- What a run changes: the socket, the generator, and the manifest. -/
structure SendState where
  sender : RawSender
  identifications : IdentificationGenerator
  manifest : List ManifestRow

def addrs (args : SendArgs) : Api.DatagramAddrs := ⟨args.src, args.dst, args.srcPort, args.dstPort⟩

def baseConfig (args : SendArgs) : Api.SendConfig :=
  ⟨args.maxDatagramLen, ⟨args.peerMrdsSize, args.peerMrdsSegments⟩, if args.noFrag then .disabled else .auto, none⟩

section
variable (crc32c : List UInt8 → UInt32)

end

end Cli

end UdpOptions
