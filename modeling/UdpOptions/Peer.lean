import UdpOptions.Api
import UdpOptions.RawSocket

/-! The synchronous peer: one raw socket pair, a reassembly cache, a send
configuration, a receive policy, and the generator of FRAG Identifications. -/

namespace UdpOptions
open Library Model

namespace Split

def randomIdentificationSeedMask : UInt32 := 0x7FFFFFFF

/-- The seed read from the random device, with its top bit cleared. -/
def boundedRandomSeed (word : UInt32) : UInt32 := word &&& randomIdentificationSeedMask

end Split

/-- A generator seeded from the random device, whose four bytes are one native-endian word. -/
def IdentificationGenerator.fromOsRandom (random : Except IoError UInt32) : Except IoError IdentificationGenerator :=
  match random with
  | .error error => .error error
  | .ok word => .ok (.new (Split.boundedRandomSeed word))

namespace Api

structure SendOutcome where
  datagrams : Nat
  bytes : Nat
  deriving DecidableEq, Repr

/-- The errors of a peer's send: those of the builders, and those of the socket. -/
inductive PeerSendError where
  | build (error : SendError)
  | socket (error : SocketError)
  deriving DecidableEq, Repr

structure PeerConfig where
  addrs : DatagramAddrs
  send : SendConfig
  receive : ReceivePolicy
  readTimeout : Option Nat
  deriving DecidableEq, Repr

structure Peer where
  sender : RawSender
  receiver : RawReceiver
  cache : ReassemblyCache
  addrs : DatagramAddrs
  config : SendConfig
  policy : ReceivePolicy
  identifications : IdentificationGenerator

/-- What the operating system answers while a peer is opened. -/
structure BindAnswers where
  sender : Except IoError Unit
  receiver : Except IoError Unit
  timeout : Except IoError Unit
  random : Except IoError UInt32

/-- The configured Identification becomes the seed of the generator. -/
def takePeerIdentificationGenerator (config : SendConfig) (random : Except IoError UInt32) :
    Except SocketError IdentificationGenerator × SendConfig :=
  let taken := { config with identification := none }
  match config.identification with
  | some seed => (.ok (.new seed), taken)
  | none =>
    match IdentificationGenerator.fromOsRandom random with
    | .ok generator => (.ok generator, taken)
    | .error error => (.error (.io error), taken)

/-- Write every datagram, stopping at the first error; the bytes are added up in a word. -/
def transmit (answers : Nat → Except IoError Nat) (dst : Ipv4Addr) :
    List (List UInt8) → Nat → Nat → RawSender → Except PeerSendError Nat × RawSender
  | [], _, bytes, sender => (.ok bytes, sender)
  | datagram :: rest, index, bytes, sender =>
    match sender.send (answers index) dst datagram with
    | (.error error, sender) => (.error (.socket error), sender)
    | (.ok sent, sender) =>
      match checkedAdd bytes sent with
      | none => (.error (.build (.invalidConfig "sent byte count overflow")), sender)
      | some bytes => transmit answers dst rest (index + 1) bytes sender

namespace Peer

def bind (config : PeerConfig) (answers : BindAnswers) : Except SocketError Peer :=
  match answers.sender with
  | .error error => .error (mapSocketError error)
  | .ok () =>
  match answers.receiver with
  | .error error => .error (mapSocketError error)
  | .ok () =>
  match answers.timeout with
  | .error error => .error (mapSocketError error)
  | .ok () =>
  match takePeerIdentificationGenerator config.send answers.random with
  | (.error error, _) => .error error
  | (.ok identifications, send) =>
    .ok {
      sender := ⟨[]⟩
      receiver :=
        (RawReceiver.bind config.addrs.srcPort (some config.addrs.dstPort) none).setReadTimeout config.readTimeout
      cache := .withLimits .default
      addrs := config.addrs
      config := send
      policy := config.receive
      identifications := identifications }

section
variable (crc32c : List UInt8 → UInt32)

/-- One logical send. -/
def send (peer : Peer) (payload : List UInt8) (options : SendOptions) (answers : Nat → Except IoError Nat) :
    Checked (Except PeerSendError SendOutcome × Peer) := do
  match ← buildPeerOutgoingDatagrams crc32c peer.addrs payload options peer.config peer.identifications with
  | (.error error, identifications) => return (.error (.build error), { peer with identifications := identifications })
  | (.ok datagrams, identifications) =>
    match transmit answers peer.addrs.dst datagrams 0 0 peer.sender with
    | (.error error, sender) => return (.error error, { peer with sender := sender, identifications := identifications })
    | (.ok bytes, sender) =>
      return (.ok ⟨datagrams.length, bytes⟩, { peer with sender := sender, identifications := identifications })

/-- Process one datagram that the raw receiver matched. Its errors are swallowed. -/
def decode (peer : Peer) (datagram : List UInt8) (now : Nat) : Checked (Option ReceivedDatagram × Peer) := do
  match ← decodeDatagram crc32c datagram peer.cache now peer.policy with
  | (.ok (.received received), cache) => return (some received, { peer with cache := cache })
  | (_, cache) => return (none, { peer with cache := cache })

/-- One receive call; without a result it is still waiting for a matching datagram. -/
def recv (peer : Peer) (call : ReceiveCall) (now : Nat) :
    Checked (Option (Except SocketError (Option ReceivedDatagram)) × Peer) := do
  match ← peer.receiver.recv call with
  | (none, receiver) => return (none, { peer with receiver := receiver })
  | (some (.error error), receiver) => return (some (.error error), { peer with receiver := receiver })
  | (some (.ok none), receiver) => return (some (.ok none), { peer with receiver := receiver })
  | (some (.ok (some datagram)), receiver) =>
    let (received, peer) ← { peer with receiver := receiver }.decode crc32c datagram now
    return (some (.ok received), peer)

def gc (peer : Peer) (now : Nat) : Peer := { peer with cache := peer.cache.gc now }

end

end Peer

end Api

end UdpOptions
