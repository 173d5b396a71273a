import UdpOptions.Frag.Reassembly
import UdpOptions.Options.Parse

/-! The receive pipeline. `processDatagramInner` follows the source in two
halves: `examine` reads the datagram and never touches the cache, and the rest
carries out what it found. Warnings are not modelled. -/

namespace UdpOptions
open Library Model

inductive OptionStatus where
  | success
  | failed
  | ignored
  deriving DecidableEq, Repr

inductive OptionSource where
  | datagram
  | fragmentSet
  deriving DecidableEq, Repr

inductive OcsStatus where
  | absent
  | valid
  | unused
  | failed
  | invalidZero
  | unobserved
  deriving DecidableEq, Repr

structure OcsReport where
  status : OcsStatus
  source : OptionSource
  deriving DecidableEq, Repr

structure OptionReport where
  kind : OptionKind
  status : OptionStatus
  source : OptionSource
  deriving DecidableEq, Repr

structure Payload where
  data : List UInt8
  options : List RawOption
  optionBearing : Bool
  reports : List OptionReport
  ocsReports : List OcsReport
  deriving DecidableEq, Repr

inductive Delivery where
  | payload (payload : Payload)
  | buffered
  | dropped
  deriving DecidableEq, Repr

structure ParsedOptions where
  options : List RawOption
  reports : List OptionReport
  frag : Option Frag
  unsupportedUnsafeSeen : Bool
  fragmentFailed : Bool
  deriving DecidableEq, Repr

inductive FragmentOptionLimit where
  | full
  | upTo (stop : Nat)
  | malformedFrag (frag : Frag)
  deriving DecidableEq, Repr

def optionEndOffset (option : OptionRef) : Checked Nat := do
  let valueStart ← Checked.expect option.valueAt
  return valueStart + option.value.length

/-- The pre-scan for the first FRAG, which bounds the per-fragment options. -/
def limitFrom (optionsLen optionsOffset : Nat) : List OptionsIter.Item → Checked FragmentOptionLimit
  | [] => return .full
  | .error _ :: _ => return .full
  | .ok option :: rest =>
    match option.kind with
    | .frag =>
      match Frag.decode option.value with
      | .error _ => return .full
      | .ok frag =>
        match checkedSub frag.fragStart.toNat optionsOffset with
        | none => return .malformedFrag frag
        | some stop => do
          if optionsLen < stop then return .malformedFrag frag
          if stop < (← optionEndOffset option) then return .malformedFrag frag
          return .upTo stop
    | .other byte => if (OptionKind.other byte).isUnsafe then return .full else limitFrom optionsLen optionsOffset rest
    | .eol => return .full
    | .nop | .apc | .mds | .mrds | .req | .res => limitFrom optionsLen optionsOffset rest

def fragmentOptionLimit (optionsBytes : List UInt8) (userDataEmpty : Bool) (optionsOffset : Nat) :
    Checked FragmentOptionLimit := do
  if !userDataEmpty then return .full
  limitFrom optionsBytes.length optionsOffset (← OptionsIter.items optionsBytes)

def minimumKnownTlvLen (kind : OptionKind) : Option Nat :=
  if kind.toByte = Kind.time then some Length.time
  else if kind.toByte = Kind.exp then some Length.expMin
  else kind.fixedTlvLengths.min?

def rejectSubMinimum (option : OptionRef) : Except ParseError Unit :=
  match minimumKnownTlvLen option.kind with
  | none => .ok ()
  | some minLen =>
    let totalLen := option.value.length + tlvHeaderLen
    if totalLen < minLen then .error (.invalidLength option.kind.toByte totalLen) else .ok ()

def report (kind : OptionKind) (status : OptionStatus) : OptionReport := ⟨kind, status, .datagram⟩

def OptionRef.toRaw (option : OptionRef) : RawOption := ⟨option.kind, option.value⟩

/-- The mutable variables of the option loop. -/
structure OptionState where
  options : List RawOption
  reports : List OptionReport
  seen : UInt8 → Bool
  frag : Option Frag

namespace OptionState

def initial : OptionState := ⟨[], [], fun _ => false, none⟩

def markSeen (state : OptionState) (kind : UInt8) : OptionState :=
  { state with seen := Function.update state.seen kind true }

def pushReport (state : OptionState) (kind : OptionKind) (status : OptionStatus) : OptionState :=
  { state with reports := state.reports ++ [report kind status] }

/-- The shared branch of APC, MDS, MRDS, REQ, and RES: the first instance gets
the given status and is exposed on success, and later instances are ignored. -/
def recordOnce (state : OptionState) (option : OptionRef) (status : OptionStatus) : OptionState :=
  if state.seen option.kind.toByte then state.pushReport option.kind .ignored
  else
    let state := (state.markSeen option.kind.toByte).pushReport option.kind status
    if status = .success then { state with options := state.options ++ [option.toRaw] } else state

/-- The result for a fragment whose options failed after its FRAG. -/
def failedFragment (state : OptionState) : ParsedOptions := ⟨[], [], state.frag, false, true⟩

def finished (state : OptionState) (unsupportedUnsafeSeen : Bool) : ParsedOptions :=
  ⟨state.options, state.reports, state.frag, unsupportedUnsafeSeen, false⟩

end OptionState

/-- How one iteration of the option loop ends. -/
inductive LoopStep where
  | next (state : OptionState)
  | broken (state : OptionState)
  | left (result : Except ParseError ParsedOptions)

def decodeStatus {α : Type} (decoded : Except ParseError α) : OptionStatus :=
  match decoded with
  | .ok _ => .success
  | .error _ => .failed

section
variable (crc32c : List UInt8 → UInt32)

def acceptsApc (option : OptionRef) (userData : List UInt8) : OptionStatus :=
  match Apc.decode option.value with
  | .ok apc => if apc = ⟨crc32c userData⟩ then .success else .failed
  | .error _ => .failed

/-- An error of the area, or a failed fragment once a FRAG has been recognized. -/
def leaveWith (state : OptionState) (userData : List UInt8) (error : ParseError) : LoopStep :=
  if state.frag.isSome ∧ userData.isEmpty then .left (.ok state.failedFragment) else .left (.error error)

def optionStep (fragmentContext : Bool) (userData : List UInt8) (state : OptionState) (option : OptionRef) :
    LoopStep :=
  let rejected :=
    if fragmentContext ∧ option.kind = .apc then .ok () else rejectSubMinimum option
  match rejected with
  | .error error => leaveWith state userData error
  | .ok () =>
    match option.kind with
    | .eol | .nop => .next state
    | .frag =>
      if state.seen option.kind.toByte then leaveWith state userData .duplicateFrag
      else
        let state := state.markSeen option.kind.toByte
        match Frag.decode option.value with
        | .ok frag => .next { state with frag := some frag }
        | .error _ => .broken state
    | .apc =>
      if fragmentContext then .next (state.pushReport option.kind .ignored)
      else .next (state.recordOnce option (acceptsApc crc32c option userData))
    | .mds => .next (state.recordOnce option (decodeStatus (Mds.decode option.value)))
    | .mrds => .next (state.recordOnce option (decodeStatus (Mrds.decode option.value)))
    | .req => .next (state.recordOnce option (decodeStatus (Req.decode option.value)))
    | .res => .next (state.recordOnce option (decodeStatus (Res.decode option.value)))
    | .other byte =>
      if (OptionKind.other byte).isSafe then .next (state.pushReport option.kind .ignored)
      else .broken (state.pushReport option.kind .failed)

/-- The loop over the items. The unsupported flag is only ever set together with
`break`, so it is false whenever an item is examined. -/
def optionLoop (fragmentContext : Bool) (userData : List UInt8) :
    OptionState → List OptionsIter.Item → Except ParseError ParsedOptions
  | state, [] => .ok (state.finished false)
  | state, .error error :: _ =>
    if state.frag.isSome ∧ userData.isEmpty then .ok state.failedFragment else .error error
  | state, .ok option :: rest =>
    match optionStep crc32c fragmentContext userData state option with
    | .next state => optionLoop fragmentContext userData state rest
    | .broken state => .ok (state.finished true)
    | .left result => result

def parseOptions (optionsBytes userData : List UInt8) (optionsOffset : Nat) :
    Checked (Except ParseError ParsedOptions) := do
  match ← fragmentOptionLimit optionsBytes userData.isEmpty optionsOffset with
  | .full => return optionLoop crc32c false userData .initial (← OptionsIter.items optionsBytes)
  | .upTo stop =>
    let optionsBytes ← Checked.slice optionsBytes 0 stop
    return optionLoop crc32c true userData .initial (← OptionsIter.items optionsBytes)
  | .malformedFrag frag => return .ok ⟨[], [], some frag, true, true⟩

/-- A datagram whose headers and UDP checksum have been accepted. -/
structure Opened where
  ip : IpRepr
  udpAt : Nat
  ipEnd : Nat
  datagram : List UInt8
  udp : UdpHeader
  userData : List UInt8
  deriving DecidableEq, Repr

def openDatagram (ipDatagram : List UInt8) : Checked (Except RecvError Opened) := do
  match IpRepr.parse ipDatagram with
  | .error error => return .error (.header error)
  | .ok (ip, udpAt) =>
    let ipEnd := ip.headerLen + ip.transportPayloadLen
    let datagram ← Checked.slice ipDatagram 0 ipEnd
    match UdpHeader.parse (← Checked.slice datagram udpAt datagram.length) with
    | .error error => return .error (.header error)
    | .ok udp =>
      let udpLen := udp.length.toNat
      if ip.transportPayloadLen < udpLen then
        return .error (.udpLengthExceedsIpPayload udp.length ip.transportPayloadLen)
      let userDataAt := udpAt + UdpHeader.headerLen
      let surplusStart := udpAt + udpLen
      let userData ← Checked.slice datagram userDataAt surplusStart
      let opened : Opened := ⟨ip, udpAt, ipEnd, datagram, udp, userData⟩
      if udp.checksum = 0 then return .ok opened
      let expected ← { udp with checksum := 0 : UdpHeader }.computeChecksum ip userData
      if expected ≠ udp.checksum then return .error (.udpChecksumMismatch expected udp.checksum)
      return .ok opened

/-- Whether the options of an accepted datagram may be read at all. -/
inductive SurplusVerdict where
  | absent
  | untrusted (status : OcsStatus)
  | trusted (status : OcsStatus) (layout : SurplusLayout) (body : List UInt8)
  deriving DecidableEq, Repr

def judgeSurplus (opened : Opened) : Checked SurplusVerdict := do
  match locateSurplus opened.ip opened.udp with
  | none => return .absent
  | some layout =>
    let pad ← Checked.index opened.datagram layout.startsAt
    match Ocs.checkPad pad layout.needsPad with
    | .error _ => return .untrusted .failed
    | .ok () =>
      let body ← Checked.slice opened.datagram layout.ocsAt opened.ipEnd
      match Ocs.validate body (← Checked.castU16 layout.len) opened.udp.checksum with
      | .valid => return .trusted .valid layout body
      | .unused => return .trusted .unused layout body
      | .ignoreOptions => return .untrusted .invalidZero
      | .error _ => return .untrusted .failed

def deliverWithoutOptions (userData : List UInt8) (optionBearing : Bool) (status : OcsStatus) : Payload :=
  ⟨userData, [], optionBearing, [], [⟨status, .datagram⟩]⟩

def fragKey (ip : IpRepr) (udp : UdpHeader) (frag : Frag) : FragKey :=
  ⟨ip.src, ip.dst, udp.srcPort, udp.dstPort, frag.identification⟩

/-- What is to be done with an accepted datagram. -/
inductive Disposition where
  | deliver (payload : Payload)
  | fail (key : Option FragKey)
  | fragment (frag : Frag) (key : Option FragKey) (options : List RawOption) (reports : List OptionReport)
      (status : OcsStatus)
  deriving DecidableEq, Repr

/-- The decisions between option parsing and the first use of the cache. -/
def disposeParsed (opened : Opened) (status : OcsStatus) (parsed : ParsedOptions) : Disposition :=
  if parsed.frag.isSome ∧ ¬ opened.userData.isEmpty then
    .deliver (deliverWithoutOptions opened.userData true status)
  else
    let frag := parsed.frag.filter fun _ => opened.userData.isEmpty
    let key := frag.map (fragKey opened.ip opened.udp)
    if parsed.fragmentFailed ∨ (key.isSome ∧ parsed.unsupportedUnsafeSeen) then .fail key
    else if parsed.unsupportedUnsafeSeen then .deliver ⟨[], [], true, parsed.reports, [⟨status, .datagram⟩]⟩
    else
      match frag with
      | some frag => .fragment frag key parsed.options parsed.reports status
      | none => .deliver ⟨opened.userData, parsed.options, true, parsed.reports, [⟨status, .datagram⟩]⟩

def disposeOpened (opened : Opened) : Checked Disposition := do
  match ← judgeSurplus opened with
  | .absent => return .deliver (deliverWithoutOptions opened.userData false .absent)
  | .untrusted status => return .deliver (deliverWithoutOptions opened.userData true status)
  | .trusted status layout body =>
    let optionsOffset ← Checked.sub (layout.ocsAt + Length.ocs) opened.udpAt
    let optionsBytes ← Checked.slice body Length.ocs body.length
    match ← parseOptions crc32c optionsBytes opened.userData optionsOffset with
    | .error _ => return .deliver (deliverWithoutOptions opened.userData true status)
    | .ok parsed => return disposeParsed opened status parsed

def examine (ipDatagram : List UInt8) : Checked (Except RecvError (Opened × Disposition)) := do
  match ← openDatagram ipDatagram with
  | .error error => return .error error
  | .ok opened => return .ok (opened, ← disposeOpened crc32c opened)

def mergeFragmentOptions (fragmentOptions : List RawOption) (failures : List OptionKind)
    (datagramOptions : List RawOption) : List RawOption :=
  fragmentOptions.filter (fun option => option.kind ∉ failures) ++ datagramOptions

def mergeFragmentReports (fragmentOptions : List RawOption) (failures : List OptionKind)
    (datagramReports : List OptionReport) : List OptionReport :=
  let failed := failures.map fun kind => (⟨kind, .failed, .fragmentSet⟩ : OptionReport)
  let merged := fragmentOptions.foldl (fun reports option =>
    if reports.any fun report => report.kind = option.kind then reports
    else reports ++ [⟨option.kind, .success, .fragmentSet⟩]) failed
  merged ++ datagramReports

def fragmentOptionFailures (reports : List OptionReport) : List OptionKind :=
  reports.foldl (fun failures report =>
    if report.status = .failed ∧ report.kind ∉ failures then failures ++ [report.kind] else failures) []

def reassembledDatagram (ip : IpRepr) (udp : UdpHeader) (udpLength : UInt16) (tail : List UInt8) :
    Checked (Option (List UInt8)) := do
  match checkedSub udpLength.toNat UdpHeader.headerLen with
  | none => return none
  | some userLen =>
    if tail.length < userLen then return none
    match (checkedAdd 20 UdpHeader.headerLen).bind (checkedAdd · tail.length) with
    | none => return none
    | some totalLen =>
      match tryU16 totalLen with
      | none => return none
      | some totalLen =>
        let reassembledIp : IpRepr := ⟨ip.src, ip.dst, 5, totalLen⟩
        let reassembledUdp : UdpHeader := ⟨udp.srcPort, udp.dstPort, udpLength, 0⟩
        let datagram := List.replicate totalLen.toNat (0 : UInt8)
        let header ← reassembledIp.write (← Checked.slice datagram 0 20)
        let datagram ← Checked.copyInto datagram 0 20 header
        let header ← reassembledUdp.write (← Checked.slice datagram 20 (20 + UdpHeader.headerLen))
        let datagram ← Checked.copyInto datagram 20 (20 + UdpHeader.headerLen) header
        let datagram ← Checked.copyInto datagram (20 + UdpHeader.headerLen) datagram.length tail
        return some datagram

/-- The fragment-set confirmation reported with a reassembled datagram. -/
def fragmentSetStatus : Option Bool → OcsStatus
  | some true => .valid
  | some false => .unused
  | none => .unobserved

/-- What the application sees of a reassembled datagram after its re-feed. -/
def mergeReassembled (reassembled : Reassembled) (payload : Payload) : Payload :=
  { payload with
    options := mergeFragmentOptions reassembled.fragmentOptions reassembled.fragmentOptionFailures payload.options
    reports := mergeFragmentReports reassembled.fragmentOptions reassembled.fragmentOptionFailures payload.reports
    ocsReports := ⟨fragmentSetStatus reassembled.fragmentOcsNonzero, .fragmentSet⟩ :: payload.ocsReports }

/-- `depth` bounds the recursion; the source recurses with reassembly disallowed. -/
def processDatagramInner : (depth : Nat) → (ipDatagram : List UInt8) → ReassemblyCache → (now : Nat) →
    (reassemblyAllowed : Bool) → Checked (Except RecvError Delivery × ReassemblyCache)
  | 0, _, _, _, _ => .error .diverged
  | depth + 1, ipDatagram, cache, now, reassemblyAllowed => do
    match ← examine crc32c ipDatagram with
    | .error error => return (.error error, cache)
    | .ok (_, .deliver payload) => return (.ok (.payload payload), cache)
    | .ok (_, .fail none) => return (.ok .dropped, cache)
    | .ok (_, .fail (some key)) => return (.ok .dropped, cache.discard key)
    | .ok (opened, .fragment frag key options reports status) =>
      if !reassemblyAllowed then return (.ok .dropped, cache)
      let key ← Checked.expect key
      match Checked.slice? opened.datagram (opened.udpAt + frag.fragStart.toNat) opened.ipEnd with
      | none => return (.ok .dropped, cache.discard key)
      | some fragmentData =>
        let processing : FragmentProcessing := ⟨options, fragmentOptionFailures reports, some (status = .valid)⟩
        match ← cache.insertWithOptionsAndFailures key frag fragmentData processing now with
        | (.incomplete, cache) => return (.ok .buffered, cache)
        | (.abort _, cache) => return (.ok .dropped, cache)
        | (.complete reassembled, cache) =>
          match ← reassembledDatagram opened.ip opened.udp reassembled.udpLength reassembled.tail with
          | none => return (.ok .dropped, cache)
          | some rebuilt =>
            match ← processDatagramInner depth rebuilt cache now false with
            | (.ok (.payload payload), cache) => return (.ok (.payload (mergeReassembled reassembled payload)), cache)
            | (result, cache) => return (result, cache)

def processDatagram (ipDatagram : List UInt8) (cache : ReassemblyCache) (now : Nat) :
    Checked (Except RecvError Delivery × ReassemblyCache) :=
  processDatagramInner crc32c 2 ipDatagram cache now true

end

end UdpOptions
