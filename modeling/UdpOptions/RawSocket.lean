import UdpOptions.Socket

/-! The raw sockets themselves. What the kernel answers is not the program's choice,
so every call takes the answers as an argument: a result for each `sendto`, and for
a receive call one turn of clock, timer and read after another. Instants and
durations are nanoseconds. The timeout of the socket is kept in the receiver; the
kernel's granularity is not modelled, and a timeout of zero is no timeout. -/

namespace UdpOptions
open Library Model

inductive IoErrorKind where
  | wouldBlock
  | timedOut
  | unsupported
  | other
  deriving DecidableEq, Repr

structure IoError where
  rawOsError : Option Nat
  kind : IoErrorKind
  deriving DecidableEq, Repr

inductive SocketError where
  | io (error : IoError)
  | permissionDenied
  deriving DecidableEq, Repr

def eperm : Nat := 1
def eacces : Nat := 13

def mapSocketError (error : IoError) : SocketError :=
  if error.rawOsError = some eperm ∨ error.rawOsError = some eacces then .permissionDenied else .io error

/-- The sending socket, with the datagrams the kernel took from it. -/
structure RawSender where
  written : List (Ipv4Addr × List UInt8)
  deriving DecidableEq, Repr

def RawSender.send (sender : RawSender) (answer : Except IoError Nat) (dst : Ipv4Addr) (datagram : List UInt8) :
    Except SocketError Nat × RawSender :=
  match answer with
  | .error error => (.error (mapSocketError error), sender)
  | .ok sent => (.ok sent, { sender with written := sender.written ++ [(dst, datagram)] })

/-- The receiving socket: its userspace filters and its `SO_RCVTIMEO`. -/
structure RawReceiver where
  dstPort : UInt16
  srcPort : Option UInt16
  ownSrc : Option Ipv4Addr
  readTimeout : Option Nat
  deriving DecidableEq, Repr

/-- One turn of the receive loop: the clock at its head, the result of arming the
timeout, and the result of the read. -/
structure ReadTurn where
  instant : Nat
  armed : Except IoError Unit
  read : Except IoError (List UInt8)

/-- The answers of the kernel to one receive call. -/
structure ReceiveCall where
  queried : Except IoError Unit
  begun : Nat
  turns : List ReadTurn
  restored : Except IoError Unit

namespace RawReceiver

/-- A zero timeout means "block forever" to the kernel. -/
def minReadTimeout : Nat := 1000000

/-- The first instant, in nanoseconds, that an `Instant` cannot hold. -/
def instantLimit : Nat := 2 ^ 63 * 1000000000

def bind (dstPort : UInt16) (srcPort : Option UInt16) (ownSrc : Option Ipv4Addr) : RawReceiver :=
  ⟨dstPort, srcPort, ownSrc, none⟩

def setReadTimeout (receiver : RawReceiver) (timeout : Option Nat) : RawReceiver :=
  { receiver with readTimeout := timeout.filter fun timeout => timeout ≠ 0 }

/-- The head of a turn: with a deadline the remaining time is armed, and no time
left ends the call. -/
def rearm (receiver : RawReceiver) (deadline : Option Nat) (turn : ReadTurn) :
    Except (Except SocketError (Option (List UInt8))) RawReceiver :=
  match deadline with
  | none => .ok receiver
  | some deadline =>
    let remaining := deadline - turn.instant
    if remaining = 0 then .error (.ok none)
    else
      match turn.armed with
      | .error error => .error (.error (mapSocketError error))
      | .ok () => .ok (receiver.setReadTimeout (some (max remaining minReadTimeout)))

/-- Read until a datagram passes the filters. Without a result the call is still
waiting when the turns run out. -/
def recvWithDeadline (deadline : Option Nat) :
    List ReadTurn → RawReceiver → Checked (Option (Except SocketError (Option (List UInt8))) × RawReceiver)
  | [], receiver => return (none, receiver)
  | turn :: rest, receiver => do
    match receiver.rearm deadline turn with
    | .error result => return (some result, receiver)
    | .ok receiver =>
      match turn.read with
      | .error error =>
        if error.kind = .wouldBlock ∨ error.kind = .timedOut then return (some (.ok none), receiver)
        return (some (.error (mapSocketError error)), receiver)
      | .ok data =>
        match ← filterDatagram data receiver.dstPort receiver.srcPort receiver.ownSrc with
        | .deliver len => return (some (.ok (some (← Checked.slice data 0 len))), receiver)
        | .filtered => recvWithDeadline deadline rest receiver

/-- A timeout too large for the clock is as good as no deadline. -/
def deadlineOf (begun : Nat) (configured : Option Nat) : Option Nat :=
  configured.bind fun timeout => if begun + timeout < instantLimit then some (begun + timeout) else none

/-- One receive call. The configured timeout bounds the whole call, and it is put
back when the call returns. -/
def recv (receiver : RawReceiver) (call : ReceiveCall) :
    Checked (Option (Except SocketError (Option (List UInt8))) × RawReceiver) := do
  match call.queried with
  | .error error => return (some (.error (mapSocketError error)), receiver)
  | .ok () =>
    let configured := receiver.readTimeout
    match deadlineOf call.begun configured with
    | none => recvWithDeadline none call.turns receiver
    | some deadline =>
      match ← recvWithDeadline (some deadline) call.turns receiver with
      | (none, receiver) => return (none, receiver)
      | (some result, receiver) =>
        match result, call.restored with
        | .ok value, .ok () => return (some (.ok value), receiver.setReadTimeout configured)
        | .error error, .ok () => return (some (.error error), receiver.setReadTimeout configured)
        | .error error, .error _ => return (some (.error error), receiver)
        | .ok _, .error error => return (some (.error (mapSocketError error)), receiver)

end RawReceiver

end UdpOptions
