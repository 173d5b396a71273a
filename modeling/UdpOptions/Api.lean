import UdpOptions.Frag.Split
import UdpOptions.Options.Serialize
import UdpOptions.Pipeline
import UdpOptions.Socket

/-! The public API above the pure modules: building datagrams from explicit
options, fragmenting sends that are too large, and the receive policy. -/

namespace UdpOptions
open Library Model

namespace Api

def ipv4HeaderLen : Nat := 20
def udpHeaderLen : Nat := Length.udpHeader
def ipv4DatagramLenMax : Nat := 65535
def defaultMaxDatagramLen : Nat := 1500

structure DatagramAddrs where
  src : Ipv4Addr
  dst : Ipv4Addr
  srcPort : UInt16
  dstPort : UInt16
  deriving DecidableEq, Repr

inductive FragmentationMode where
  | auto
  | disabled
  deriving DecidableEq, Repr

structure SendOptions where
  rawOptions : List RawOption
  includeApc : Bool
  deriving DecidableEq, Repr

structure SendConfig where
  maxDatagramLen : Nat
  peer : PeerFragmentLimits
  fragmentation : FragmentationMode
  identification : Option UInt32
  deriving DecidableEq, Repr

def SendConfig.default : SendConfig := ⟨defaultMaxDatagramLen, .defaultIpv4, .auto, none⟩

structure ReceivePolicy where
  requiredOptions : List OptionKind
  dropAllOptionBearing : Bool
  ocsRequired : Bool
  deriving DecidableEq, Repr

structure ReceivedDatagram where
  data : List UInt8
  options : List RawOption
  reports : List OptionReport
  ocsReports : List OcsReport
  deriving DecidableEq, Repr

inductive ApiDelivery where
  | received (datagram : ReceivedDatagram)
  | buffered
  | dropped
  | filtered
  deriving DecidableEq, Repr

def datagramLen (payloadLen optionsBodyLen : Nat) : Option Nat :=
  match checkedAdd udpHeaderLen payloadLen with
  | none => none
  | some udpLen =>
    match checkedAdd ipv4HeaderLen udpLen with
    | none => none
    | some naturalStart =>
      if optionsBodyLen = 0 then some naturalStart else
      match checkedAdd naturalStart (decide (naturalStart % 2 = 1)).toNat with
      | none => none
      | some aligned => checkedAdd aligned optionsBodyLen

def assembleChecked (addrs : DatagramAddrs) (payload optionsBody : List UInt8) (maxDatagramLen : Nat) :
    Checked (Except SendError (List UInt8)) := do
  match datagramLen payload.length optionsBody.length with
  | none => return .error (.datagramTooLarge (2 ^ 64 - 1) maxDatagramLen)
  | some len =>
    if maxDatagramLen < len then return .error (.datagramTooLarge len maxDatagramLen)
    if ipv4DatagramLenMax < len then return .error (.datagramTooLarge len ipv4DatagramLenMax)
    return .ok (← assembleDatagram addrs.src addrs.dst addrs.srcPort addrs.dstPort payload optionsBody)

def validateSendConfig (config : SendConfig) : Except SendError Unit :=
  if ipv4DatagramLenMax < config.maxDatagramLen then
    .error (.invalidConfig "max_datagram_len exceeds IPv4 Total Length")
  else if config.maxDatagramLen < ipv4HeaderLen + udpHeaderLen then
    .error (.invalidConfig "max_datagram_len cannot fit IPv4 and UDP")
  else .ok ()

def rawOptionsContainKind (rawOptions : List RawOption) (rawKind : UInt8) : Bool :=
  rawOptions.any fun option => option.kind.toByte = rawKind

def isHighLevelUniqueKind (kind : UInt8) : Bool :=
  kind = Kind.apc ∨ kind = Kind.mds ∨ kind = Kind.mrds ∨ kind = Kind.req ∨ kind = Kind.res

def duplicateReportableFrom (seen : UInt8 → Bool) : List RawOption → Bool
  | [] => false
  | option :: rest =>
    let kind := option.kind.toByte
    if !isHighLevelUniqueKind kind then duplicateReportableFrom seen rest
    else if seen kind then true
    else duplicateReportableFrom (Function.update seen kind true) rest

def rawOptionsContainDuplicateReportableKind (rawOptions : List RawOption) : Bool :=
  duplicateReportableFrom (fun _ => false) rawOptions

def validateSendOptions (options : SendOptions) : Except SendError Unit :=
  if rawOptionsContainKind options.rawOptions Kind.frag then
    .error (.invalidConfig "high-level send options cannot include FRAG")
  else if options.includeApc ∧ rawOptionsContainKind options.rawOptions Kind.apc then
    .error (.invalidConfig "automatic APC cannot be combined with a raw APC option")
  else if rawOptionsContainDuplicateReportableKind options.rawOptions then
    .error (.invalidConfig "high-level send options cannot include duplicate reportable options")
  else .ok ()

def validateLowLevelOptions (payload : List UInt8) (rawOptions : List RawOption) : Except SendError Unit :=
  if ¬ payload.isEmpty ∧ rawOptionsContainKind rawOptions Kind.frag then
    .error (.invalidConfig "FRAG requires empty UDP user data")
  else .ok ()

def serializeBody (options : List RawOption) : Except SendError (List UInt8) :=
  match Serialize.finish options with
  | .error error => .error (.serialize error)
  | .ok body => .ok body

def rawOptionsBody (rawOptions : List RawOption) : Except SendError (List UInt8) :=
  if rawOptions.isEmpty then .ok [] else serializeBody rawOptions

def fragmentSurplusBudget (config : SendConfig) : Except SendError Nat :=
  match checkedSub config.maxDatagramLen (ipv4HeaderLen + udpHeaderLen) with
  | none => .error (.invalidConfig "max_datagram_len cannot fit a UDP fragment")
  | some budget => .ok budget

/-- Build one datagram from explicit raw options. -/
def buildDatagram (addrs : DatagramAddrs) (payload : List UInt8) (rawOptions : List RawOption) :
    Checked (Except SendError (List UInt8)) := do
  match validateLowLevelOptions payload rawOptions with
  | .error error => return .error error
  | .ok () =>
    match rawOptionsBody rawOptions with
    | .error error => return .error error
    | .ok body => assembleChecked addrs payload body ipv4DatagramLenMax

/-- Assemble every fragment, stopping at the first error. -/
def assembleFragments (addrs : DatagramAddrs) (maxDatagramLen : Nat) :
    List Fragment → Checked (Except SendError (List (List UInt8)))
  | [] => return .ok []
  | fragment :: rest => do
    match ← assembleChecked addrs [] fragment.surplusBody maxDatagramLen with
    | .error error => return .error error
    | .ok datagram =>
      match ← assembleFragments addrs maxDatagramLen rest with
      | .error error => return .error error
      | .ok datagrams => return .ok (datagram :: datagrams)

section
variable (crc32c : List UInt8 → UInt32)

/-- The options `options_body` hands to the builder, the automatic APC first. -/
def sentOptions (payload : List UInt8) (options : SendOptions) : List RawOption :=
  (if options.includeApc then [⟨.apc, u32Be (crc32c payload)⟩] else []) ++ options.rawOptions

def optionsBody (payload : List UInt8) (options : SendOptions) : Except SendError (List UInt8) :=
  if !options.includeApc && options.rawOptions.isEmpty then .ok []
  else serializeBody (sentOptions crc32c payload options)

/-- Build all datagrams of one logical send. -/
def buildOutgoingDatagrams (addrs : DatagramAddrs) (payload : List UInt8) (options : SendOptions)
    (config : SendConfig) : Checked (Except SendError (List (List UInt8))) := do
  match validateSendConfig config with
  | .error error => return .error error
  | .ok () =>
  match validateSendOptions options with
  | .error error => return .error error
  | .ok () =>
  match optionsBody crc32c payload options with
  | .error error => return .error error
  | .ok body =>
  match datagramLen payload.length body.length with
  | none => return .error (.datagramTooLarge (2 ^ 64 - 1) config.maxDatagramLen)
  | some singleLen =>
    if singleLen ≤ config.maxDatagramLen then
      match ← assembleChecked addrs payload body config.maxDatagramLen with
      | .error error => return .error error
      | .ok datagram => return .ok [datagram]
    else if config.fragmentation = .disabled then
      return .error (.datagramTooLarge singleLen config.maxDatagramLen)
    else
      match config.identification with
      | none => return .error .fragmentIdentificationRequired
      | some identification =>
        match fragmentSurplusBudget config with
        | .error error => return .error error
        | .ok budget =>
          match ← Split.splitDatagram payload body ⟨budget, config.peer, identification⟩ with
          | .error error => return .error (.split error)
          | .ok fragments => assembleFragments addrs config.maxDatagramLen fragments

/-- A send that takes an Identification from the generator when it needs one. -/
def buildPeerOutgoingDatagrams (addrs : DatagramAddrs) (payload : List UInt8) (options : SendOptions)
    (config : SendConfig) (identifications : IdentificationGenerator) :
    Checked (Except SendError (List (List UInt8)) × IdentificationGenerator) := do
  match ← buildOutgoingDatagrams crc32c addrs payload options config with
  | .error .fragmentIdentificationRequired =>
    match identifications.nextId with
    | (.error error, identifications) => return (.error (.split error), identifications)
    | (.ok id, identifications) =>
      let config := { config with identification := some id }
      return (← buildOutgoingDatagrams crc32c addrs payload options config, identifications)
  | result => return (result, identifications)

/-- The prefilter of the drop-all policy, which repeats the front of the pipeline. -/
def wireOptionBearing (datagram : List UInt8) : Checked (Except RecvError Bool) := do
  match IpRepr.parse datagram with
  | .error error => return .error (.header error)
  | .ok (ip, udpAt) =>
    let ipEnd := ip.headerLen + ip.transportPayloadLen
    match UdpHeader.parse (← Checked.slice datagram udpAt ipEnd) with
    | .error error => return .error (.header error)
    | .ok udp =>
      let udpLen := udp.length.toNat
      if ip.transportPayloadLen < udpLen then
        return .error (.udpLengthExceedsIpPayload udp.length ip.transportPayloadLen)
      let userDataAt := udpAt + udpHeaderLen
      let surplusStart := udpAt + udpLen
      let userData ← Checked.slice datagram userDataAt surplusStart
      if udp.checksum = 0 then return .ok (locateSurplus ip udp).isSome
      let expected ← { udp with checksum := 0 : UdpHeader }.computeChecksum ip userData
      if expected ≠ udp.checksum then return .error (.udpChecksumMismatch expected udp.checksum)
      return .ok (locateSurplus ip udp).isSome

def missingRequiredOption (policy : ReceivePolicy) (reports : List OptionReport) : Option OptionKind :=
  policy.requiredOptions.find? fun required =>
    (reports.any fun report =>
      report.kind = required ∧ report.status = .failed ∧ report.source = .fragmentSet) ||
    !(reports.any fun report => report.kind = required ∧ report.status = .success)

def ocsRequirementSatisfied (reports : List OcsReport) : Bool :=
  let hasFailure := reports.any fun report =>
    report.status = .failed ∨ report.status = .invalidZero ∨ report.status = .unobserved
  !hasFailure && reports.any fun report => report.status = .valid ∨ report.status = .unused

/-- The policy decisions on a payload the pipeline delivered. -/
def applyPolicy (policy : ReceivePolicy) (payload : Payload) : ApiDelivery :=
  if policy.dropAllOptionBearing ∧ payload.optionBearing then .filtered
  else if (missingRequiredOption policy payload.reports).isSome then .filtered
  else if policy.ocsRequired ∧ ¬ ocsRequirementSatisfied payload.ocsReports then .filtered
  else .received ⟨payload.data, payload.options, payload.reports, payload.ocsReports⟩

/-- The pipeline followed by the policy. -/
def decodeProcessed (datagram : List UInt8) (cache : ReassemblyCache) (now : Nat) (policy : ReceivePolicy) :
    Checked (Except RecvError ApiDelivery × ReassemblyCache) := do
  match ← processDatagram crc32c datagram cache now with
  | (.error error, cache) => return (.error error, cache)
  | (.ok (.payload payload), cache) => return (.ok (applyPolicy policy payload), cache)
  | (.ok .buffered, cache) => return (.ok .buffered, cache)
  | (.ok .dropped, cache) => return (.ok .dropped, cache)

def decodeDatagram (datagram : List UInt8) (cache : ReassemblyCache) (now : Nat) (policy : ReceivePolicy) :
    Checked (Except RecvError ApiDelivery × ReassemblyCache) := do
  if policy.dropAllOptionBearing then
    match ← wireOptionBearing datagram with
    | .error error => return (.error error, cache)
    | .ok true => return (.ok .filtered, cache)
    | .ok false => decodeProcessed crc32c datagram cache now policy
  else decodeProcessed crc32c datagram cache now policy

end

end Api

end UdpOptions
