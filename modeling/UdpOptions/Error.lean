import Mathlib.Data.Nat.Basic

/-! Error values of the pure modules. Variants that only raw sockets raise are
left out: no function modelled here can produce them. -/

namespace UdpOptions

/-- Why the options of a surplus area were rejected. -/
inductive ParseError where
  | invalidLength (kind : UInt8) (len : Nat)
  | overrun (offset : Nat)
  | duplicateFrag
  | nonZeroPad
  | ocsMismatch
  deriving DecidableEq, Repr

inductive SerializeError where
  | reservedKind (kind : UInt8)
  | unsafeKind (kind : UInt8)
  | unsupportedAssignedKind (kind : UInt8)
  | duplicateFrag
  | valueTooLong (kind : UInt8) (valueLen max : Nat)
  | invalidFixedValueLength (kind : UInt8) (valueLen : Nat)
  | bodyTooLong (len max : Nat)
  | fragmentStartTooLarge (start max : Nat)
  deriving DecidableEq, Repr

inductive SplitError where
  | reassembledDatagramTooLarge (len max : Nat)
  | segmentLimitExceeded (needed : Nat) (max : UInt8)
  | fragmentCapacityTooSmall (required max : Nat)
  | fragmentSurplusTooLarge (len max : Nat)
  | rdosTooLarge (rdos max : Nat)
  | fragmentOffsetTooLarge (offset max : Nat)
  | optionsBodyTooShort (len : Nat)
  | identificationExhausted
  deriving DecidableEq, Repr

inductive SendError where
  | serialize (error : SerializeError)
  | split (error : SplitError)
  | fragmentIdentificationRequired
  | datagramTooLarge (len max : Nat)
  | invalidConfig (reason : String)
  deriving DecidableEq, Repr

/-- Errors that invalidate the whole IP datagram. -/
inductive HeaderError where
  | ipTruncated (need available : Nat)
  | unsupportedVersion (version : UInt8)
  | badIhl (ihl : UInt8)
  | badIpLength (length : UInt16)
  | ipChecksumMismatch
  | unexpectedProtocol (protocol : UInt8)
  | udpTruncated (available : Nat)
  | udpLengthInvalid (length : UInt16)
  deriving DecidableEq, Repr

inductive RecvError where
  | header (error : HeaderError)
  | parse (error : ParseError)
  | udpLengthExceedsIpPayload (udpLen : UInt16) (transportPayloadLen : Nat)
  | udpChecksumMismatch (expected actual : UInt16)
  deriving DecidableEq, Repr

end UdpOptions
