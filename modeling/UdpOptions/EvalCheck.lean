import UdpOptions.Library.Bytes
import UdpOptions.Library.Checked
import UdpOptions.Library.OnesComplement
import Mathlib.Data.List.Dedup
import Mathlib.Data.List.Sort

/-! The independent checker of captured traffic, `scripts/eval-check.py`: one captured
packet, the surplus area behind its user data, and the packets of a sender's ports. A
Python slice never faults and an index may, so only the indices are checked here. -/

namespace UdpOptions.EvalCheck
open Library

inductive Scenario where
  | baseline
  | typed
  | pad
  | nearMtu
  | frag
  deriving DecidableEq, Repr

def Scenario.name : Scenario → String
  | .baseline => "baseline"
  | .typed => "typed"
  | .pad => "pad"
  | .nearMtu => "near-mtu"
  | .frag => "frag"

inductive CheckError where
  | truncatedIpv4Header
  | badIpv4HeaderLength
  | badIpv4TotalLength
  | badIpv4HeaderChecksum
  | truncatedUdpHeader
  | ipv4Fragment
  | badUdpLength
  | badUdpChecksum
  | truncatedTlvHeader
  | truncatedExtendedTlvHeader
  | nonCanonicalExtendedTlvLength
  | invalidTlvLength
  | tlvOverrun
  | surplusTooShort
  | nonZeroPad
  | zeroOcs
  | badOcs
  | tooManyNops
  | invalidTotalLength (kind : UInt8) (totalLen : Nat)
  | multipleFrag
  | fragStartOutside
  | unterminatedArea
  | nonZeroAfterEol
  | notCanonicalOrder
  | duplicateKind (kind : UInt8)
  | apcMismatch
  | fragWithUserData
  | fragNotFirst
  | atPacket (port index : Nat) (error : CheckError)
  | payloadMismatch (port index : Nat) (scenario : Scenario)
  | unexpectedSurplus (port : Nat)
  | missingSurplus (port : Nat) (scenario : Scenario)
  | wrongKinds (port index : Nat) (scenario : Scenario) (kinds expected : List UInt8)
  | wrongValue (port index : Nat) (kind : UInt8)
  | mixedPackets (port : Nat)
  | identificationChanged (port : Nat)
  | terminalMissing (port : Nat)
  | gapOrOverlap (port offset : Nat)
  | rdosMismatch (port : Nat)
  | invalidAtomic (port : Nat)
  deriving DecidableEq, Repr

def CheckError.message : CheckError → String
  | .truncatedIpv4Header => "truncated IPv4 header"
  | .badIpv4HeaderLength => "bad IPv4 header length"
  | .badIpv4TotalLength => "bad IPv4 total length"
  | .badIpv4HeaderChecksum => "bad IPv4 header checksum"
  | .truncatedUdpHeader => "truncated UDP header"
  | .ipv4Fragment => "IPv4 fragments are not supported by this checker"
  | .badUdpLength => "bad UDP length"
  | .badUdpChecksum => "bad UDP checksum"
  | .truncatedTlvHeader => "truncated TLV header"
  | .truncatedExtendedTlvHeader => "truncated extended TLV header"
  | .nonCanonicalExtendedTlvLength => "non-canonical extended TLV length"
  | .invalidTlvLength => "invalid TLV length"
  | .tlvOverrun => "TLV overruns option area"
  | .surplusTooShort => "surplus too short for aligned OCS"
  | .nonZeroPad => "non-zero odd-start pad"
  | .zeroOcs => "zero OCS with a non-zero UDP checksum"
  | .badOcs => "bad OCS"
  | .tooManyNops => "more than seven consecutive NOPs"
  | .invalidTotalLength kind totalLen => s!"option kind {kind} has invalid total length {totalLen}"
  | .multipleFrag => "multiple FRAG options in one datagram"
  | .fragStartOutside => "FRAG start does not point behind its option area"
  | .unterminatedArea => "unterminated option area"
  | .nonZeroAfterEol => "non-zero bytes after EOL"
  | .notCanonicalOrder => "options are not in canonical sender order"
  | .duplicateKind kind => s!"duplicate must-support option kind {kind}"
  | .apcMismatch => "APC does not match UDP user data"
  | .fragWithUserData => "FRAG used with non-empty UDP user data"
  | .fragNotFirst => "FRAG is not the first substantive option"
  | .atPacket port index error => s!"sender port {port}, packet {index}: " ++ error.message
  | .payloadMismatch port index scenario =>
    s!"sender port {port}, packet {index}: payload does not match {scenario.name} scenario"
  | .unexpectedSurplus port => s!"sender port {port}: baseline scenario unexpectedly carries surplus bytes"
  | .missingSurplus port scenario => s!"sender port {port}: {scenario.name} scenario is missing its surplus area"
  | .wrongKinds port index scenario kinds expected =>
    s!"sender port {port}, packet {index}: {scenario.name} option kinds {kinds} != {expected}"
  | .wrongValue port index kind => s!"sender port {port}, packet {index}: option kind {kind} has the wrong value"
  | .mixedPackets port => s!"sender port {port}: FRAG and non-FRAG packets are mixed"
  | .identificationChanged port => s!"sender port {port}: FRAG Identification changed within one sequence"
  | .terminalMissing port => s!"sender port {port}: FRAG sequence needs one final terminal fragment"
  | .gapOrOverlap port offset => s!"sender port {port}: FRAG sequence has a gap or overlap at offset {offset}"
  | .rdosMismatch port => s!"sender port {port}: terminal FRAG RDOS does not match reconstructed size"
  | .invalidAtomic port => s!"sender port {port}: invalid atomic FRAG geometry"

/-- What the packet constructor raises. -/
inductive PacketError where
  | notIpv4Udp
  | check (error : CheckError)
  deriving DecidableEq, Repr

def fixedTotalLengths : List (UInt8 × List Nat) :=
  [(2, [6]), (3, [10, 12]), (4, [4]), (5, [5]), (6, [6]), (7, [6])]

def canonicalRanks : List (UInt8 × Nat) := [(3, 0), (2, 1), (4, 2), (5, 3), (6, 4), (7, 5)]

def canonicalRank (kind : UInt8) : Nat := (canonicalRanks.lookup kind).getD (6 + kind.toNat)

/-- `bytes[start:stop]`. -/
def slice (bytes : List UInt8) (start stop : Nat) : List UInt8 := (bytes.take stop).drop start

/-- `int.from_bytes(bytes, "big")`. -/
def intFromBytes (bytes : List UInt8) : Nat := bytes.foldl (fun value byte => value * 256 + byte.toNat) 0

def pairTotal : List UInt8 → Nat
  | high :: low :: rest => ((high.toNat <<< 8) ||| low.toNat) + pairTotal rest
  | _ => 0

/-- The exact sum of all words, folded at the end. -/
def fold16 (data : List UInt8) (extraWords : List Nat) : Nat :=
  let data := if data.length % 2 = 1 then data ++ [0] else data
  let total := pairTotal data + extraWords.sum
  foldCarries total total

def dotted (bytes : List UInt8) : String := ".".intercalate (bytes.map fun byte => toString byte)

structure Packet where
  ihl : Nat
  totalLen : Nat
  raw : List UInt8
  src : String
  dst : String
  srcPort : Nat
  dstPort : Nat
  udpLen : Nat
  udpChecksum : Nat
  userData : List UInt8
  surplus : List UInt8
  deriving DecidableEq, Repr, Inhabited

/-- The UDP half of the constructor. -/
def Packet.ofUdp (raw : List UInt8) (ihl totalLen : Nat) : Except PacketError Packet :=
  let udp := raw.drop ihl
  let udpLen := intFromBytes (slice udp 4 6)
  let udpChecksum := intFromBytes (slice udp 6 8)
  let pseudo := slice raw 12 20 ++ [0x00, 0x11] ++ u16Be (UInt16.ofNat udpLen)
  if ¬ (8 ≤ udpLen ∧ udpLen ≤ udp.length) then .error (.check .badUdpLength)
  else if udpChecksum ≠ 0 ∧ fold16 (pseudo ++ udp.take udpLen) [] ≠ 0xffff then .error (.check .badUdpChecksum)
  else .ok {
    ihl, totalLen, raw
    src := dotted (slice raw 12 16)
    dst := dotted (slice raw 16 20)
    srcPort := intFromBytes (slice udp 0 2)
    dstPort := intFromBytes (slice udp 2 4)
    udpLen, udpChecksum
    userData := slice udp 8 udpLen
    surplus := udp.drop udpLen }

/-- The constructor of a packet from the bytes of a capture record. -/
def Packet.new (raw : List UInt8) : Checked (Except PacketError Packet) := do
  if raw.isEmpty then return .error .notIpv4Udp
  let first ← Checked.index raw 0
  if first >>> 4 ≠ 4 then return .error .notIpv4Udp
  if raw.length < 20 then return .error (.check .truncatedIpv4Header)
  let ihl := (first &&& 0x0f).toNat * 4
  if ihl < 20 ∨ raw.length < ihl then return .error (.check .badIpv4HeaderLength)
  let totalLen := intFromBytes (slice raw 2 4)
  if totalLen < ihl ∨ raw.length < totalLen then return .error (.check .badIpv4TotalLength)
  let raw := raw.take totalLen
  if fold16 (raw.take ihl) [] ≠ 0xffff then return .error (.check .badIpv4HeaderChecksum)
  let protocol ← Checked.index raw 9
  if protocol ≠ 17 then return .error .notIpv4Udp
  if totalLen < ihl + 8 then return .error (.check .truncatedUdpHeader)
  if intFromBytes (slice raw 6 8) &&& 0x3fff ≠ 0 then return .error (.check .ipv4Fragment)
  return Packet.ofUdp raw ihl totalLen

structure ParsedOption where
  kind : UInt8
  totalLen : Nat
  value : List UInt8
  deriving DecidableEq, Repr

def parseOption (region : List UInt8) (offset limit : Nat) : Checked (Except CheckError ParsedOption) := do
  let kind ← Checked.index region offset
  if kind = 0 ∨ kind = 1 then return .ok ⟨kind, 1, []⟩
  if limit < offset + 2 then return .error .truncatedTlvHeader
  let length ← Checked.index region (offset + 1)
  if length = 255 then
    if limit < offset + 4 then return .error .truncatedExtendedTlvHeader
    let totalLen := intFromBytes (slice region (offset + 2) (offset + 4))
    if totalLen < 255 then return .error .nonCanonicalExtendedTlvLength
    if limit < offset + totalLen then return .error .tlvOverrun
    return .ok ⟨kind, totalLen, slice region (offset + 4) (offset + totalLen)⟩
  let totalLen := length.toNat
  if totalLen < 2 then return .error .invalidTlvLength
  if limit < offset + totalLen then return .error .tlvOverrun
  return .ok ⟨kind, totalLen, slice region (offset + 2) (offset + totalLen)⟩

/-- The fields of a FRAG option, with the start of its data in the region. -/
structure FragFields where
  identification : Nat
  offset : Nat
  rdos : Option Nat
  dataStart : Nat
  deriving DecidableEq, Repr

structure FragRecord extends FragFields where
  data : List UInt8
  deriving DecidableEq, Repr

/-- The variables of the option loop. -/
structure Scan where
  limit : Nat
  offset : Nat
  eolEnd : Option Nat
  options : List ParsedOption
  frag : Option FragFields
  consecutiveNops : Nat
  deriving DecidableEq, Repr

def Scan.start (region : List UInt8) : Scan := ⟨region.length, 0, none, [], none, 0⟩

section
variable (packet : Packet) (padLen : Nat) (region : List UInt8)

/-- FRAG moves the end of the option area to the start of the fragment's data. -/
def takeFrag (scan : Scan) (option : ParsedOption) : Except CheckError Scan :=
  if scan.frag.isSome then .error .multipleFrag else
  let fragStart := intFromBytes (option.value.take 2)
  let dataStart : Int := fragStart - packet.udpLen - padLen - 2
  let optionEnd := scan.offset + option.totalLen
  if dataStart < optionEnd ∨ region.length < dataStart then .error .fragStartOutside
  else .ok { scan with
    limit := dataStart.toNat
    frag := some {
      identification := intFromBytes (slice option.value 2 6)
      offset := intFromBytes (slice option.value 6 8)
      rdos := if option.totalLen = 12 then some (intFromBytes (slice option.value 8 10)) else none
      dataStart := dataStart.toNat } }

/-- The body of the loop behind the test for EOL. -/
def takeOption (scan : Scan) (option : ParsedOption) : Except CheckError Scan :=
  if option.kind = 1 then
    if 7 < scan.consecutiveNops + 1 then .error .tooManyNops
    else .ok { scan with consecutiveNops := scan.consecutiveNops + 1 }
  else if (fixedTotalLengths.lookup option.kind).any fun lengths => option.totalLen ∉ lengths then
    .error (.invalidTotalLength option.kind option.totalLen)
  else
    let scan := { scan with consecutiveNops := 0, options := scan.options ++ [option] }
    if option.kind = 3 then takeFrag packet padLen region scan option else .ok scan

def scanLoop : Nat → Scan → Checked (Except CheckError Scan)
  | 0, _ => .error .diverged
  | fuel + 1, scan => do
    if scan.limit ≤ scan.offset then return .ok scan
    match ← parseOption region scan.offset scan.limit with
    | .error error => return .error error
    | .ok option =>
      if option.kind = 0 then return .ok { scan with eolEnd := some (scan.offset + 1) }
      match takeOption packet padLen region scan option with
      | .error error => return .error error
      | .ok scan => scanLoop fuel { scan with offset := scan.offset + option.totalLen }

/-- The tests on the end of the option area. -/
def closeArea (scan : Scan) : Except CheckError Unit :=
  match scan.eolEnd with
  | none => if scan.offset ≠ scan.limit then .error .unterminatedArea else .ok ()
  | some eolEnd => if (slice region eolEnd scan.limit).any (· ≠ 0) then .error .nonZeroAfterEol else .ok ()

/-- The tests on the options as a whole: their order, their number, and the APC. -/
def checkOptions (crc32c : List UInt8 → UInt32) (options : List ParsedOption) : Except CheckError Unit :=
  let substantive := options.map ParsedOption.kind
  let ranks := substantive.map canonicalRank
  if ranks ≠ ranks.insertionSort (· ≤ ·) then .error .notCanonicalOrder else
  match (fixedTotalLengths.map Prod.fst).find? fun kind => 1 < substantive.count kind with
  | some kind => .error (.duplicateKind kind)
  | none =>
    if options.any fun option => option.kind = 2 ∧ intFromBytes option.value ≠ (crc32c packet.userData).toNat then
      .error .apcMismatch
    else .ok ()

/-- The tests on a FRAG option, which then takes the data behind the option area. -/
def closeFrag (options : List ParsedOption) (fields : FragFields) : Except CheckError FragRecord :=
  if packet.udpLen ≠ 8 ∨ packet.userData ≠ [] then .error .fragWithUserData
  else if (options.map ParsedOption.kind).head? ≠ some 3 then .error .fragNotFirst
  else .ok { fields with data := region.drop fields.dataStart }

end

section
variable (crc32c : List UInt8 → UInt32)

/-- What the checker reads of the region behind the OCS. -/
def validateRegion (packet : Packet) (padLen : Nat) (region : List UInt8) :
    Checked (Except CheckError (List ParsedOption × Option FragRecord)) := do
  if region.isEmpty then return .ok ([], none)
  match ← scanLoop packet padLen region (region.length + 1) (.start region) with
  | .error error => return .error error
  | .ok scan =>
    match closeArea region scan with
    | .error error => return .error error
    | .ok () =>
      match checkOptions packet crc32c scan.options with
      | .error error => return .error error
      | .ok () =>
        match scan.frag with
        | none => return .ok (scan.options, none)
        | some fields =>
          match closeFrag packet region scan.options fields with
          | .error error => return .error error
          | .ok frag => return .ok (scan.options, some frag)

def validateSurplus (packet : Packet) : Checked (Except CheckError (List ParsedOption × Option FragRecord)) := do
  let surplus := packet.surplus
  let padLen := if (packet.ihl + packet.udpLen) % 2 = 1 then 1 else 0
  if surplus.length < padLen + 2 then return .error .surplusTooShort
  let first ← Checked.index surplus 0
  if padLen ≠ 0 ∧ first ≠ 0 then return .error .nonZeroPad
  let body := surplus.drop padLen
  let storedOcs := intFromBytes (body.take 2)
  -- the complement in sixteen bits
  let derived := 0xffff - fold16 ([0, 0] ++ body.drop 2) [surplus.length]
  let expected := if derived = 0 then 0xffff else derived
  if storedOcs = 0 ∧ packet.udpChecksum ≠ 0 then return .error .zeroOcs
  if storedOcs ≠ 0 ∧ storedOcs ≠ expected then return .error .badOcs
  validateRegion crc32c packet padLen (body.drop 2)

/-- Expected user data of a scenario: the bytes themselves or only their number. -/
inductive ScenarioPayload where
  | bytes (data : List UInt8)
  | size (len : Nat)
  deriving DecidableEq, Repr

def Scenario.payload : Scenario → ScenarioPayload
  | .baseline => .bytes [0x70, 0x6c, 0x61, 0x69, 0x6e]
  | .typed => .bytes [0x77, 0x69, 0x72, 0x65]
  | .pad => .bytes [0x6f, 0x64, 0x64]
  | .nearMtu => .size 1392
  | .frag => .bytes []

def ScenarioPayload.matches (expected : ScenarioPayload) (userData : List UInt8) : Bool :=
  match expected with
  | .bytes data => userData = data
  | .size len => userData.length = len

/-- The option kinds of a scenario, with the values that are fixed. -/
def Scenario.options : Scenario → List (UInt8 × Option (List UInt8))
  | .baseline => []
  | .typed =>
    [(2, none), (4, some (u16Be 1472)), (5, some (u16Be 2926 ++ [0x02])), (6, some [0xde, 0xad, 0xbe, 0xef])]
  | .pad => [(6, some [0xc0, 0xff, 0xee, 0x01])]
  | .nearMtu => [(2, none), (4, some (u16Be 1472))]
  | .frag => [(3, none)]

def checkScenarioOptions (port : Nat) (scenario : Scenario) (index : Nat) (options : List ParsedOption) :
    Except CheckError Unit :=
  let kinds := options.map ParsedOption.kind
  let expectedKinds := scenario.options.map Prod.fst
  if kinds ≠ expectedKinds then .error (.wrongKinds port index scenario kinds expectedKinds) else
  let wrong := (options.zip scenario.options).find? fun (option, _, expected) => expected.any (option.value ≠ ·)
  match wrong with
  | some (option, _) => .error (.wrongValue port index option.kind)
  | none => .ok ()

def validateScenarioContract (port : Nat) (scenario : Scenario) (packets : List Packet)
    (parsed : List (List ParsedOption × Option FragRecord)) : Except CheckError Unit :=
  match (packets.zipIdx 1).find? fun (packet, _) => !scenario.payload.matches packet.userData with
  | some (_, index) => .error (.payloadMismatch port index scenario)
  | none =>
    if scenario = .baseline then
      if packets.any fun packet => packet.surplus ≠ [] then .error (.unexpectedSurplus port) else .ok ()
    else if packets.any fun packet => packet.surplus = [] then .error (.missingSurplus port scenario)
    else (parsed.zipIdx 1).forM fun ((options, _), index) => checkScenarioOptions port scenario index options

/-- The offsets of a sequence, each behind the data of the one before. -/
def tileFrom (port cursor : Nat) : List FragRecord → Except CheckError Nat
  | [] => .ok cursor
  | fragment :: rest =>
    if fragment.offset ≠ cursor then .error (.gapOrOverlap port fragment.offset)
    else tileFrom port (cursor + fragment.data.length) rest

/-- The tests on the fragments of one port, and their Identification. -/
def checkSequence (port : Nat) (fragments : List FragRecord) : Except CheckError Nat :=
  match (fragments.map fun fragment => fragment.identification).dedup with
  | [identification] =>
    let ordered := fragments.insertionSort fun first second => first.offset ≤ second.offset
    let terminals := ordered.filter fun fragment => fragment.rdos.isSome
    if terminals.length ≠ 1 then .error (.terminalMissing port) else
    -- the one terminal is the last fragment if the last fragment is terminal
    match ordered.getLast?.bind fun last => last.rdos with
    | none => .error (.terminalMissing port)
    | some rdos =>
      match ordered with
      | [only] =>
        if only.offset ≠ 0 ∨ rdos ≠ 8 + only.data.length then .error (.invalidAtomic port) else .ok identification
      | _ =>
        match tileFrom port 8 ordered with
        | .error error => .error error
        | .ok cursor => if rdos ≠ cursor then .error (.rdosMismatch port) else .ok identification
  | _ => .error (.identificationChanged port)

/-- The surplus areas of a port's packets, from the given packet number on. -/
def parsePackets (port : Nat) :
    Nat → List Packet → Checked (Except CheckError (List (List ParsedOption × Option FragRecord)))
  | _, [] => return .ok []
  | index, packet :: rest => do
    match ← if packet.surplus.isEmpty then pure (.ok ([], none)) else validateSurplus crc32c packet with
    | .error error => return .error (.atPacket port index error)
    | .ok first =>
      match ← parsePackets port (index + 1) rest with
      | .error error => return .error error
      | .ok parsed => return .ok (first :: parsed)

/-- The packets of one port, with the Identification of their fragments if there is one. -/
def validatePort (port : Nat) (packets : List Packet) (expectSurplus : Bool) (scenario : Option Scenario) :
    Checked (Except CheckError (Option Nat)) := do
  match ← parsePackets crc32c port 1 packets with
  | .error error => return .error error
  | .ok parsed =>
    let contract : Except CheckError Unit := match scenario with
      | none => .ok ()
      | some scenario => validateScenarioContract port scenario packets parsed
    match contract with
    | .error error => return .error error
    | .ok () =>
      let fragments := parsed.filterMap Prod.snd
      if expectSurplus ∧ packets.any (fun packet => packet.surplus = []) then return .ok none
      if fragments.isEmpty then return .ok none
      if fragments.length ≠ packets.length then return .error (.mixedPackets port)
      match checkSequence port fragments with
      | .error error => return .error error
      | .ok identification => return .ok (some identification)

/-- The fragment Identifications of all ports, in the order of the ports. -/
def validateSenderGroups (expectSurplusPorts : List Nat) (scenarioByPort : List (Nat × Scenario)) :
    List (Nat × List Packet) → Checked (Except CheckError (List (Nat × Nat)))
  | [] => return .ok []
  | (port, packets) :: rest => do
    match ← validatePort crc32c port packets (port ∈ expectSurplusPorts) (scenarioByPort.lookup port) with
    | .error error => return .error error
    | .ok found =>
      match ← validateSenderGroups expectSurplusPorts scenarioByPort rest with
      | .error error => return .error error
      | .ok later => return .ok ((found.map fun identification => (port, identification)).toList ++ later)

end

end UdpOptions.EvalCheck
