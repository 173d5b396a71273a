import UdpOptions.Options.Kind

/-! Splitting an oversized datagram into FRAG fragments. Each fragment is a
surplus body with a zero OCS placeholder, one FRAG option, and a piece of the
tail: the payload, an alignment pad, and the per-datagram options body. -/

namespace UdpOptions
open Library Model

structure PeerFragmentLimits where
  maxReassembledSize : UInt16
  maxSegments : UInt8
  deriving DecidableEq, Repr

def PeerFragmentLimits.defaultIpv4 : PeerFragmentLimits := ⟨Limits.mrdsDefaultIpv4, Limits.minReassemblySegments⟩

structure SplitConfig where
  maxFragmentSurplusLen : Nat
  peer : PeerFragmentLimits
  identification : UInt32
  deriving DecidableEq, Repr

structure Fragment where
  fragOffset : UInt16
  terminal : Bool
  rdos : Option UInt16
  surplusBody : List UInt8
  deriving DecidableEq, Repr

structure IdentificationGenerator where
  next : Option UInt32
  deriving DecidableEq, Repr

def IdentificationGenerator.new (next : UInt32) : IdentificationGenerator := ⟨some next⟩

/-- The next value without wrapping; the largest one is returned once. -/
def IdentificationGenerator.nextId (generator : IdentificationGenerator) :
    Except SplitError UInt32 × IdentificationGenerator :=
  match generator.next with
  | none => (.error .identificationExhausted, generator)
  | some id => (.ok id, ⟨if id.toNat + 1 < 2 ^ 32 then some (id + 1) else none⟩)

namespace Split

def ipv4HeaderLen : Nat := 20
def fragmentSurplusLenMax : Nat := 65535 - ipv4HeaderLen - Length.udpHeader
def fragNonTerminalBodyLen : Nat := Length.ocs + Length.fragNonTerminal
def fragTerminalBodyLen : Nat := Length.ocs + Length.fragTerminal

def checkedRdos (payloadLen : Nat) : Except SplitError UInt16 :=
  match checkedAdd Length.udpHeader payloadLen with
  | none => .error (.rdosTooLarge (2 ^ 64 - 1) 65535)
  | some rdos =>
    match tryU16 rdos with
    | none => .error (.rdosTooLarge rdos 65535)
    | some rdos => .ok rdos

def checkedFragmentOffset (offset : Nat) : Except SplitError UInt16 :=
  match tryU16 offset with
  | none => .error (.fragmentOffsetTooLarge offset 65535)
  | some offset => .ok offset

def rdosNeedsOptionsPad (payloadLen : Nat) : Bool := decide ((Length.udpHeader + payloadLen) % 2 = 1)

def reassembledTail (payload perDatagramOptionsBody : List UInt8) : List UInt8 :=
  let pad := !perDatagramOptionsBody.isEmpty && rdosNeedsOptionsPad payload.length
  payload ++ (if pad then [0] else []) ++ perDatagramOptionsBody

/-- The loop of `chunk_ranges`: non-terminal chunks while more than the terminal
capacity remains, then the terminal chunk. -/
def chunkLoop (tailLen terminalCapacity nonTerminalCapacity : Nat) :
    Nat → Nat → Nat → Checked (List (Nat × Nat × Bool))
  | 0, _, _ => .error .diverged
  | fuel + 1, start, remaining =>
    if terminalCapacity < remaining then do
      let take := min nonTerminalCapacity (remaining - terminalCapacity)
      let ranges ← chunkLoop tailLen terminalCapacity nonTerminalCapacity fuel (start + take) (remaining - take)
      return (start, start + take, false) :: ranges
    else return [(start, tailLen, true)]

def chunkRanges (tailLen terminalCapacity nonTerminalCapacity nonTerminalBodyLen : Nat) (config : SplitConfig) :
    Checked (Except SplitError (List (Nat × Nat × Bool))) := do
  if tailLen ≤ terminalCapacity then return .ok [(0, tailLen, true)]
  if nonTerminalCapacity = 0 then
    return .error (.fragmentCapacityTooSmall (nonTerminalBodyLen + 1) config.maxFragmentSurplusLen)
  let ranges ← chunkLoop tailLen terminalCapacity nonTerminalCapacity (tailLen + 1) 0 tailLen
  return .ok ranges

def fragmentOptionsBodyLen (rdos : Option UInt16) : Nat :=
  if rdos.isSome then fragTerminalBodyLen else fragNonTerminalBodyLen

def fragValue (fragStart : UInt16) (identification : UInt32) (fragOffset : UInt16) (rdos : Option UInt16) :
    List UInt8 :=
  u16Be fragStart ++ u32Be identification ++ u16Be fragOffset ++
    (match rdos with
      | some rdos => u16Be rdos
      | none => [])

def fragmentOptionsBody (identification : UInt32) (fragOffset : UInt16) (rdos : Option UInt16) : List UInt8 :=
  let bodyLen := fragmentOptionsBodyLen rdos
  let fragStart := UInt16.ofNat (Length.udpHeader + bodyLen)
  let fragLen := if rdos.isSome then Length.fragTerminal else Length.fragNonTerminal
  [0, 0, Kind.frag, UInt8.ofNat fragLen] ++ fragValue fragStart identification fragOffset rdos

def fragmentsFrom (tail : List UInt8) (atomic : Bool) (rdos : UInt16) (identification : UInt32) :
    List (Nat × Nat × Bool) → Checked (Except SplitError (List Fragment))
  | [] => return .ok []
  | (start, stop, terminal) :: rest => do
    match checkedFragmentOffset (if atomic then 0 else Length.udpHeader + start) with
    | .error error => return .error error
    | .ok offset =>
      let fragmentRdos := if terminal then some rdos else none
      let data ← Checked.slice tail start stop
      let surplusBody := fragmentOptionsBody identification offset fragmentRdos ++ data
      match ← fragmentsFrom tail atomic rdos identification rest with
      | .error error => return .error error
      | .ok fragments => return .ok (⟨offset, terminal, fragmentRdos, surplusBody⟩ :: fragments)

def splitDatagram (payload perDatagramOptionsBody : List UInt8) (config : SplitConfig) :
    Checked (Except SplitError (List Fragment)) := do
  if !perDatagramOptionsBody.isEmpty && perDatagramOptionsBody.length < Length.ocs then
    return .error (.optionsBodyTooShort perDatagramOptionsBody.length)
  if fragmentSurplusLenMax < config.maxFragmentSurplusLen then
    return .error (.fragmentSurplusTooLarge config.maxFragmentSurplusLen fragmentSurplusLenMax)
  match checkedRdos payload.length with
  | .error error => return .error error
  | .ok rdos =>
    let tail := reassembledTail payload perDatagramOptionsBody
    let reassembledLen := Length.udpHeader + tail.length
    if config.peer.maxReassembledSize.toNat < reassembledLen then
      return .error (.reassembledDatagramTooLarge reassembledLen config.peer.maxReassembledSize.toNat)
    let terminalBodyLen := fragmentOptionsBodyLen (some rdos)
    if config.maxFragmentSurplusLen < terminalBodyLen then
      return .error (.fragmentCapacityTooSmall terminalBodyLen config.maxFragmentSurplusLen)
    let terminalCapacity := config.maxFragmentSurplusLen - terminalBodyLen
    let nonTerminalBodyLen := fragmentOptionsBodyLen none
    let nonTerminalCapacity := config.maxFragmentSurplusLen - nonTerminalBodyLen
    match ← chunkRanges tail.length terminalCapacity nonTerminalCapacity nonTerminalBodyLen config with
    | .error error => return .error error
    | .ok ranges =>
      if config.peer.maxSegments.toNat < ranges.length then
        return .error (.segmentLimitExceeded ranges.length config.peer.maxSegments)
      fragmentsFrom tail (ranges.length = 1) rdos config.identification ranges

end Split

end UdpOptions
