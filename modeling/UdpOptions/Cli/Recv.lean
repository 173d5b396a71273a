import UdpOptions.Cli.Send
import UdpOptions.Library.Json

/-! The receiving tool. One run takes `count` matching datagrams from the raw socket
and prints a row for each of them. The text form of the rows, the log and the text of
an error are left out; a row is the record that its JSON line denotes. -/

namespace UdpOptions
open Library Model

namespace Cli

structure RecvArgs where
  dstPort : UInt16
  srcPort : Option UInt16
  ownSrc : Option Ipv4Addr
  timeoutMs : Nat
  count : Nat
  maxReassembledSize : Nat
  maxSegments : Nat
  maxPendingPartials : Nat
  reassemblyTimeoutMs : Nat

structure WireSummary where
  src : Ipv4Addr
  dst : Ipv4Addr
  srcPort : UInt16
  dstPort : UInt16
  ipTotalLen : UInt16
  udpLen : UInt16
  surplusLen : Nat
  deriving DecidableEq, Repr

def summarize (datagram : List UInt8) : Checked (Except RecvError WireSummary) := do
  match IpRepr.parse datagram with
  | .error error => return .error (.header error)
  | .ok (ip, udpAt) =>
    match UdpHeader.parse (← Checked.slice datagram udpAt datagram.length) with
    | .error error => return .error (.header error)
    | .ok udp =>
      let surplusLen := ((locateSurplus ip udp).map fun layout => layout.len).getD 0
      return .ok ⟨ip.src, ip.dst, udp.srcPort, udp.dstPort, ip.totalLen, udp.length, surplusLen⟩

/-- What one turn of the loop prints. -/
structure RecvRow where
  index : Nat
  datagram : List UInt8
  summary : Except RecvError WireSummary
  delivery : Except RecvError Delivery

def RecvRow.fails (row : RecvRow) : Bool := !row.summary.isOk || !row.delivery.isOk

/-- What a run changes: the socket's timeout, the cache, and the rows. -/
structure RecvState where
  receiver : RawReceiver
  cache : ReassemblyCache
  rows : List RecvRow

section
variable (crc32c : List UInt8 → UInt32)

/-- Process one matching datagram. -/
def takeDatagram (datagram : List UInt8) (now : Nat) (state : RecvState) : Checked RecvState := do
  let summary ← summarize datagram
  let (delivery, cache) ← processDatagram crc32c datagram state.cache now
  return { state with
    cache := cache
    rows := state.rows ++ [⟨state.rows.length + 1, datagram, summary, delivery⟩] }

/-- Milliseconds of an argument, in nanoseconds. -/
def millis (ms : Nat) : Nat := ms * 10 ^ 6

def recvLimits (args : RecvArgs) : ReassemblyLimits where
  maxReassembledSize := args.maxReassembledSize
  maxSegments := args.maxSegments
  maxPendingPartials := args.maxPendingPartials
  timeout := millis args.reassemblyTimeoutMs

end

end Cli

end UdpOptions
